import ImportScan.Proofs.Batch.Annotation

/-!
# Annotating a roster

The equations of `annotateAll`, one for each way in which the next heartbeat of a batch may go,
those of `withDetection`, and what the whole leaves as it was: a roster keeps its heartbeats,
dependencies apart (`sameBare_annotateAll`).
-/

namespace ImportScan

namespace Roster

/-! ## Annotating one after another -/

section Steps

variable {room : Nat} {c : Config} {s : Store} {id : Text} {r : Roster} {h : Heartbeat}

theorem annotateAll_cons_missing (hg : r.get? id = none) (ids : List Text) :
    annotateAll room c s (id :: ids) r = annotateAll room c s ids r := by
  rw [annotateAll, hg]

theorem annotateAll_cons_error {e : Manifest.Error} (hg : r.get? id = some h)
    (ha : (h.annotate room c s).outcome = .error e) (ids : List Text) :
    annotateAll room c s (id :: ids) r = ⟨(r, some e), (h.annotate room c s).log⟩ := by
  rw [annotateAll, hg]
  dsimp only
  rw [ha]

theorem annotateAll_cons_ok {h' : Heartbeat} (hg : r.get? id = some h)
    (ha : (h.annotate room c s).outcome = .ok h') (ids : List Text) :
    annotateAll room c s (id :: ids) r =
      ⟨(annotateAll room c s ids (r.put id h')).outcome,
        (h.annotate room c s).log ++ (annotateAll room c s ids (r.put id h')).log⟩ := by
  rw [annotateAll, hg]
  dsimp only
  rw [ha]

end Steps

/-! ## Rosters that differ in dependencies only -/

/-- The rosters hold the same heartbeats, dependencies apart. -/
def SameBare (r r' : Roster) : Prop :=
  ∀ id, (r'.get? id).map Heartbeat.bare = (r.get? id).map Heartbeat.bare

theorem SameBare.refl (r : Roster) : r.SameBare r := fun _ => rfl

theorem SameBare.symm {r r' : Roster} (h : r.SameBare r') : r'.SameBare r := fun id => (h id).symm

theorem SameBare.trans {r r' r'' : Roster} (h : r.SameBare r') (h' : r'.SameBare r'') :
    r.SameBare r'' := fun id => (h' id).trans (h id)

/-- A heartbeat of the one roster is, dependencies apart, in the other. -/
theorem SameBare.exists_get? {r r' : Roster} (h : r.SameBare r') {id : Text} {b' : Heartbeat}
    (hg : r'.get? id = some b') : ∃ b, r.get? id = some b ∧ b'.bare = b.bare := by
  have hid := h id
  rw [hg] at hid
  obtain ⟨b, hb, he⟩ := Option.map_eq_some_iff.1 hid.symm
  exact ⟨b, hb, he.symm⟩

theorem SameBare.isSome_get? {r r' : Roster} (h : r.SameBare r') (id : Text) :
    (r'.get? id).isSome = (r.get? id).isSome := by
  rw [← Option.isSome_map (f := Heartbeat.bare), h id, Option.isSome_map]

theorem SameBare.put {r : Roster} {id : Text} {h h' : Heartbeat} (hg : r.get? id = some h)
    (hb : h'.bare = h.bare) : r.SameBare (r.put id h') := by
  intro id'
  rw [Table.get?_put]
  by_cases hid : id' = id
  · rw [if_pos hid, hid, hg]
    exact congrArg some hb
  · rw [if_neg hid]

theorem sameBare_annotateAll (room : Nat) (c : Config) (s : Store) (ids : List Text) (r : Roster) :
    r.SameBare (annotateAll room c s ids r).outcome.1 := by
  induction ids generalizing r with
  | nil => exact .refl r
  | cons id ids ih =>
    cases hg : r.get? id with
    | none =>
      rw [annotateAll_cons_missing hg]
      exact ih r
    | some h =>
      cases ha : (h.annotate room c s).outcome with
      | error e =>
        rw [annotateAll_cons_error hg ha]
        exact .refl r
      | ok h' =>
        rw [annotateAll_cons_ok hg ha]
        exact (SameBare.put hg (Heartbeat.bare_of_annotate ha)).trans (ih _)

theorem SameBare.members {r r' : Roster} (h : r.SameBare r') (ids : List Text) :
    (r'.members ids).map (fun m => (m.1, m.2.bare)) =
      (r.members ids).map (fun m => (m.1, m.2.bare)) := by
  unfold Roster.members
  rw [List.map_filterMap, List.map_filterMap]
  congr 1
  funext id
  have hid := congrArg (Option.map fun b => (id, b)) (h id)
  simpa [Option.map_map, Function.comp_def] using hid

/-! ## Members -/

theorem members_cons_missing {r : Roster} {id : Text} (hg : r.get? id = none) (ids : List Text) :
    r.members (id :: ids) = r.members ids := by
  unfold members
  rw [List.filterMap_cons, hg]
  rfl

theorem members_cons {r : Roster} {id : Text} {h : Heartbeat} (hg : r.get? id = some h)
    (ids : List Text) : r.members (id :: ids) = (id, h) :: r.members ids := by
  unfold members
  rw [List.filterMap_cons, hg]
  rfl

theorem map_fst_members (r : Roster) (ids : List Text) :
    (r.members ids).map (·.1) = ids.filter fun id => (r.get? id).isSome := by
  induction ids with
  | nil => rfl
  | cons id ids ih =>
    rw [List.filter_cons]
    cases hg : r.get? id with
    | none =>
      rw [members_cons_missing hg]
      exact ih
    | some h =>
      rw [members_cons hg]
      exact congrArg (id :: ·) ih

end Roster

/-! ## Handing a batch on -/

section Handing

variable {ε ρ : Type} {room : Nat} {c : Config} {s : Store} {ids : List Text} {r : Roster}

theorem withDetection_of_error (next : Handler ε ρ) {e : Manifest.Error}
    (h : (r.annotateAll room c s ids).outcome.2 = some e) :
    withDetection room c s next ids r =
      ⟨(r.annotateAll room c s ids).outcome.1, (r.annotateAll room c s ids).log, [],
        .error (.manifest e)⟩ := by
  unfold withDetection
  generalize r.annotateAll room c s ids = run at h ⊢
  obtain ⟨⟨r', stop⟩, log⟩ := run
  obtain rfl : stop = some e := h
  rfl

theorem withDetection_of_ok (next : Handler ε ρ)
    (h : (r.annotateAll room c s ids).outcome.2 = none) :
    withDetection room c s next ids r =
      let batch := (r.annotateAll room c s ids).outcome.1.members ids
      ⟨(r.annotateAll room c s ids).outcome.1, (r.annotateAll room c s ids).log, [batch.map (·.1)],
        (next batch).mapError .handler⟩ := by
  unfold withDetection
  generalize r.annotateAll room c s ids = run at h ⊢
  obtain ⟨⟨r', stop⟩, log⟩ := run
  obtain rfl : stop = none := h
  rfl

/-- However the call ends, it leaves the roster and the log that annotating the batch leaves. -/
theorem withDetection_annotates (room : Nat) (c : Config) (s : Store) (next : Handler ε ρ)
    (ids : List Text) (r : Roster) :
    (withDetection room c s next ids r).roster = (r.annotateAll room c s ids).outcome.1 ∧
      (withDetection room c s next ids r).log = (r.annotateAll room c s ids).log := by
  cases ho : (r.annotateAll room c s ids).outcome.2 with
  | none => rw [withDetection_of_ok next ho]; exact ⟨rfl, rfl⟩
  | some e => rw [withDetection_of_error next ho]; exact ⟨rfl, rfl⟩

end Handing
end ImportScan
