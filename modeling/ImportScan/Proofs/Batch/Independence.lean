import ImportScan.Proofs.Batch.Delivery

/-!
# Each heartbeat of a batch by itself

Annotating a heartbeat writes its dependencies and reads everything but them, so annotating it once
more changes nothing (`Heartbeat.annotated_annotated`) and annotating another one does not matter to
it. What a name stands for behind a batch without faults is therefore told by what it stood for
before and by whether the batch lists it (`Roster.get?_annotateAll`); neither the order of the batch
nor repetitions count. The log has one record for every listed heartbeat of a file, in the order of
the batch (`Roster.log_annotateAll`).
-/

namespace ImportScan

namespace Heartbeat

variable {room : Nat} {c : Config} {s : Store} {h h' : Heartbeat}

/-! ## One heartbeat -/

/-- What the log says of the heartbeat of a file. -/
def record (room : Nat) (c : Config) (s : Store) (h : Heartbeat) : Event :=
  if c.hides h.entity then .hidden h.entity
  else if !h.hasKnownLanguage then .unknownLanguage h.entity
  else match Source.read s (.ofText h.readPath) with
    | .error e => .unreadable h.entity e
    | .ok _ => .parsing h.readPath h.language (Parser.ofTag? room h.language)

theorem record_of_isInspected (hi : h.IsInspected c) :
    h.record room c s = match Source.read s (.ofText h.readPath) with
      | .error e => .unreadable h.entity e
      | .ok _ => .parsing h.readPath h.language (Parser.ofTag? room h.language) := by
  unfold record
  simp only [hi.shown, hi.knownLanguage, Bool.not_true, Bool.false_eq_true, if_false]

/-- Annotating leaves one record for a file, and none for anything else. -/
theorem log_annotate (room : Nat) (c : Config) (s : Store) (h : Heartbeat) :
    (h.annotate room c s).log = if h.isFile then [h.record room c s] else [] := by
  have hspec := annotate_spec room c s h
  generalize h.annotate room c s = a at hspec ⊢
  cases hspec with
  | notFile hf => simp [hf]
  | hidden hf hh => simp [hf, record, hh]
  | unknownLanguage hf hh hl => simp [hf, record, hh, hl]
  | unreadable hi hr => simp [hi.isFile, record_of_isInspected hi, hr]
  | annotated hi hr _ => simp [hi.isFile, record_of_isInspected hi, hr]
  | fault hi hr _ => simp [hi.isFile, record_of_isInspected hi, hr]

/-- The heartbeat as annotating leaves it; as it was if that fails. -/
def annotated (room : Nat) (c : Config) (s : Store) (h : Heartbeat) : Heartbeat :=
  match (h.annotate room c s).outcome with
  | .ok h' => h'
  | .error _ => h

theorem annotated_eq_of_ok (ha : (h.annotate room c s).outcome = .ok h') :
    h.annotated room c s = h' := by
  unfold annotated
  rw [ha]

theorem annotate_of_names (hi : h.IsInspected c) {t : Text} {names : List Text}
    (hr : Source.read s (.ofText h.readPath) = .ok t)
    (hp : (Parser.ofTag? room h.language).parse t = .ok names) :
    (h.annotate room c s).outcome =
      .ok { h with dependencies := some (Dependency.normalize names) } := by
  simp [annotate, hi.isFile, hi.shown, hi.knownLanguage, detect_of_ok hr hp]

/-- What annotating leaves is left as it is by annotating it again. -/
theorem annotate_of_annotate (ha : (h.annotate room c s).outcome = .ok h') :
    (h'.annotate room c s).outcome = .ok h' := by
  have hspec := annotate_spec room c s h
  -- where the heartbeat is left alone, annotating it again is the same call
  have hsame : h' = h → (h'.annotate room c s).outcome = .ok h' := by
    rintro rfl
    exact ha
  generalize h.annotate room c s = a at ha hspec
  cases hspec with
  | notFile | hidden | unknownLanguage | unreadable => exact hsame (Except.ok.inj ha).symm
  | fault => cases ha
  | annotated hi hr hp =>
    rename_i t names
    obtain rfl := Except.ok.inj ha
    have hi' : { h with dependencies := some (Dependency.normalize names) }.IsInspected c :=
      ⟨hi.isFile, hi.shown, hi.knownLanguage⟩
    exact annotate_of_names hi' hr hp

theorem annotated_annotated (room : Nat) (c : Config) (s : Store) (h : Heartbeat) :
    (h.annotated room c s).annotated room c s = h.annotated room c s := by
  cases ha : (h.annotate room c s).outcome with
  | ok h' =>
    rw [annotated_eq_of_ok ha]
    exact annotated_eq_of_ok (annotate_of_annotate ha)
  | error e =>
    have hh : h.annotated room c s = h := by
      unfold annotated
      rw [ha]
    rw [hh, hh]

/-- A heartbeat without a fault is annotated. -/
theorem annotate_of_no_fault (hf : ∀ e, ¬h.HasFault room c s e) :
    (h.annotate room c s).outcome = .ok (h.annotated room c s) := by
  cases ha : (h.annotate room c s).outcome with
  | ok h' => rw [annotated_eq_of_ok ha]
  | error e => exact absurd (annotate_error_iff.1 ha) (hf e)

end Heartbeat

namespace Roster

variable {room : Nat} {c : Config} {s : Store} {r r' : Roster} {ids : List Text}

/-! ## A batch -/

theorem IsSound.mono {ids' : List Text} (h : r.IsSound room c s ids) (hids : ids' ⊆ ids) :
    r.IsSound room c s ids' := fun id hid => h id (hids hid)

/-- Behind a batch without faults every name listed stands for its heartbeat annotated, and every
other for what it stood for. -/
theorem get?_annotateAll (h : r.IsSound room c s ids) (id : Text) :
    (annotateAll room c s ids r).outcome.1.get? id =
      if id ∈ ids then (r.get? id).map (·.annotated room c s) else r.get? id := by
  induction ids generalizing r with
  | nil => rfl
  | cons first ids ih =>
    have hrest := h.mono (List.subset_cons_self first ids)
    cases hg : r.get? first with
    | none =>
      rw [annotateAll_cons_missing hg, ih hrest]
      by_cases hid : id = first
      · simp [hid, hg]
      · simp [hid]
    | some b =>
      have ha := Heartbeat.annotate_of_no_fault (h first List.mem_cons_self b hg)
      have hb := (SameBare.put hg (Heartbeat.bare_of_annotate ha)).symm
      rw [annotateAll_cons_ok hg ha]
      dsimp only
      rw [ih (hrest.of_sameBare hb.symm), Table.get?_put]
      by_cases hid : id = first
      · simp [hid, hg, Heartbeat.annotated_annotated]
      · simp [hid]

/-- What the log says of the listed heartbeats of files. -/
def records (room : Nat) (c : Config) (s : Store) (r : Roster) (ids : List Text) : List Event :=
  ((r.members ids).filter (·.2.isFile)).map fun m => m.2.record room c s

/-- Dependencies do not show in the log. -/
theorem records_of_sameBare (h : r.SameBare r') (ids : List Text) :
    records room c s r' ids = records room c s r ids := by
  have hrecords (r : Roster) : records room c s r ids =
      (((r.members ids).map fun m => (m.1, m.2.bare)).filter (·.2.isFile)).map
        fun m => m.2.record room c s := by
    rw [List.filter_map, List.map_map]
    rfl
  rw [hrecords, hrecords, h.members]

theorem log_annotateAll (h : r.IsSound room c s ids) :
    (annotateAll room c s ids r).log = records room c s r ids := by
  induction ids generalizing r with
  | nil => rfl
  | cons first ids ih =>
    have hrest := h.mono (List.subset_cons_self first ids)
    cases hg : r.get? first with
    | none =>
      rw [annotateAll_cons_missing hg, ih hrest]
      unfold records
      rw [members_cons_missing hg]
    | some b =>
      have ha := Heartbeat.annotate_of_no_fault (h first List.mem_cons_self b hg)
      have hb := (SameBare.put hg (Heartbeat.bare_of_annotate ha))
      rw [annotateAll_cons_ok hg ha]
      dsimp only
      rw [ih (hrest.of_sameBare hb), records_of_sameBare hb, Heartbeat.log_annotate]
      unfold records
      rw [members_cons hg, List.filter_cons]
      cases b.isFile <;> simp

end Roster

/-! ## Handling a batch -/

/-- **Each heartbeat of a batch is annotated by itself.** Behind a batch without faults a heartbeat
listed is what annotating it alone makes of it, and no other heartbeat has changed; nothing but
dependencies ever changes. So any batch that lists the same names leaves the same heartbeats, and
handling the batch once more changes nothing. The log has one record for every occurrence of a
heartbeat of a file, in the order of the batch, and no other. -/
theorem withDetection_each_alone {ε ρ : Type} {room : Nat} {c : Config} {s : Store}
    {ids : List Text} {r : Roster} (h : r.IsSound room c s ids) (next : Handler ε ρ) :
    let out := withDetection room c s next ids r
    (∀ id ∈ ids, ∀ b, r.get? id = some b →
      ∃ b', (b.annotate room c s).outcome = .ok b' ∧ out.roster.get? id = some b') ∧
    (∀ id, id ∉ ids → out.roster.get? id = r.get? id) ∧
    r.SameBare out.roster ∧
    (∀ (next' : Handler ε ρ) (ids' : List Text), (∀ id, id ∈ ids' ↔ id ∈ ids) →
      ∀ id, (withDetection room c s next' ids' r).roster.get? id = out.roster.get? id) ∧
    (∀ (next' : Handler ε ρ) (id : Text),
      (withDetection room c s next' ids out.roster).roster.get? id = out.roster.get? id) ∧
    out.log = ((r.members ids).filter (·.2.isFile)).map fun m => m.2.record room c s := by
  intro out
  obtain ⟨hout, hlog⟩ : out.roster = (r.annotateAll room c s ids).outcome.1 ∧
      out.log = (r.annotateAll room c s ids).log := withDetection_annotates room c s next ids r
  have hroster (next' : Handler ε ρ) (ids' : List Text) (r' : Roster) :
      (withDetection room c s next' ids' r').roster = (r'.annotateAll room c s ids').outcome.1 :=
    (withDetection_annotates room c s next' ids' r').1
  have hbare : r.SameBare out.roster := hout ▸ Roster.sameBare_annotateAll room c s ids r
  have hget := Roster.get?_annotateAll h
  rw [← hout] at hget
  refine ⟨?_, ?_, hbare, ?_, ?_, ?_⟩
  · intro id hid b hg
    have ha := Heartbeat.annotate_of_no_fault (h id hid b hg)
    exact ⟨b.annotated room c s, ha, by rw [hget, if_pos hid, hg]; rfl⟩
  · intro id hid
    rw [hget, if_neg hid]
  · intro next' ids' hids id
    have h' : r.IsSound room c s ids' := h.mono fun id hid => (hids id).1 hid
    rw [hroster, Roster.get?_annotateAll h', hget]
    simp only [hids]
  · intro next' id
    rw [hroster, Roster.get?_annotateAll (h.of_sameBare hbare), hget]
    by_cases hid : id ∈ ids
    · simp [hid, Function.comp_def, Heartbeat.annotated_annotated]
    · simp [hid]
  · rw [hlog]
    exact Roster.log_annotateAll h

/-! ### A batch with a repetition, an application and a missing file -/

/-- Activity on a source file, on an application, and on a file that is not there. -/
def Roster.sourceAppMissing : Roster :=
  ((({} : Roster).put "p".toList
      { entity := "a.py".toList, entityType := "file".toList,
        language := some "Python".toList }).put
    "q".toList { entity := "x".toList, entityType := "app".toList }).put
    "m".toList
      { entity := "m.json".toList, entityType := "file".toList, language := some "JSON".toList }

theorem withDetection_each_alone_repeated :
    let s := ({} : Store).write (.ofText "a.py".toList) (Text.toBytes "import x".toList)
    let ids := ["p".toList, "q".toList, "p".toList, "m".toList]
    let parsed := Event.parsing "a.py".toList (some "Python".toList) .python
    let next : Handler Text (List Report) := fun _ => .ok [⟨202, none, ["queued".toList]⟩]
    let out := withDetection 1000 {} s next ids .sourceAppMissing
    Roster.sourceAppMissing.IsSound 1000 {} s ids ∧
      out.log = [parsed, parsed,
        .unreadable "m.json".toList ⟨.ofText "m.json".toList, .access .missing⟩] ∧
      ∀ id, (withDetection 1000 {} s next ["m".toList, "p".toList, "q".toList]
        .sourceAppMissing).roster.get? id = out.roster.get? id := by
  intro s ids parsed next out
  have hsound : Roster.sourceAppMissing.IsSound 1000 {} s ids := by
    intro id hid b hg e hf
    have hcases : id = "p".toList ∨ id = "q".toList ∨ id = "m".toList := by grind
    rcases hcases with rfl | rfl | rfl
    · obtain rfl := Option.some.inj hg
      exact absurd hf.isManifest (by decide)
    · obtain rfl := Option.some.inj hg
      exact absurd hf.inspected.isFile (by decide)
    · obtain rfl := Option.some.inj hg
      obtain ⟨t, hr, -⟩ := hf.faulty
      cases hr
  obtain ⟨-, -, -, hsame, -, hlog⟩ := withDetection_each_alone hsound next
  refine ⟨hsound, hlog, hsame next _ ?_⟩
  intro id
  grind

end ImportScan
