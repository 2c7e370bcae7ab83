import ImportScan.Proofs.Batch.Roster
import ImportScan.Proofs.Json.Limits
import ImportScan.Session

/-!
# When a batch is handed on

A batch is handed on once, whole and in its order, unless it lists a heartbeat whose manifest is
given up on; then it is not handed on at all, and the call fails with the fault of the first such
heartbeat (`withDetection_delivers`). That this happens is shown for a long integer and for deep
arrays (`withDetection_drops_batch`). Faults do not depend on dependencies, so those met along a
batch are those of the roster that it starts with.
-/

namespace ImportScan

namespace Roster

/-! ## Faults -/

/-- No heartbeat listed has a fault. -/
def IsSound (room : Nat) (c : Config) (s : Store) (r : Roster) (ids : List Text) : Prop :=
  ∀ id ∈ ids, ∀ h, r.get? id = some h → ∀ e, ¬h.HasFault room c s e

/-- The first heartbeat listed that has a fault has this one. -/
def FirstFault (room : Nat) (c : Config) (s : Store) (r : Roster) (ids : List Text)
    (e : Manifest.Error) : Prop :=
  ∃ before id after h, ids = before ++ id :: after ∧ r.IsSound room c s before ∧
    r.get? id = some h ∧ h.HasFault room c s e

variable {room : Nat} {c : Config} {s : Store}

theorem IsSound.of_sameBare {r r' : Roster} (hb : r.SameBare r') {ids : List Text}
    (h : r.IsSound room c s ids) : r'.IsSound room c s ids := by
  intro id hid h' hg' e hf'
  obtain ⟨b, hg, hbare⟩ := hb.exists_get? hg'
  exact h id hid b hg e ((Heartbeat.hasFault_congr hbare).1 hf')

theorem FirstFault.of_sameBare {r r' : Roster} (hb : r.SameBare r') {ids : List Text}
    {e : Manifest.Error} (h : r.FirstFault room c s ids e) :
    r'.FirstFault room c s ids e := by
  obtain ⟨before, id, after, h, hids, hsound, hg, hf⟩ := h
  obtain ⟨b, hg', hbare⟩ := hb.symm.exists_get? hg
  exact ⟨before, id, after, b, hids, hsound.of_sameBare hb, hg',
    (Heartbeat.hasFault_congr hbare).1 hf⟩

theorem IsSound.cons {r : Roster} {id : Text} {ids : List Text}
    (hid : ∀ h, r.get? id = some h → ∀ e, ¬h.HasFault room c s e) (h : r.IsSound room c s ids) :
    r.IsSound room c s (id :: ids) := by
  intro id' hid'
  rcases List.mem_cons.1 hid' with rfl | hid'
  · exact hid
  · exact h id' hid'

theorem FirstFault.cons {r : Roster} {id : Text} {ids : List Text} {e : Manifest.Error}
    (hid : ∀ h, r.get? id = some h → ∀ e, ¬h.HasFault room c s e)
    (h : r.FirstFault room c s ids e) : r.FirstFault room c s (id :: ids) e := by
  obtain ⟨before, id', after, h, rfl, hsound, hg, hf⟩ := h
  exact ⟨id :: before, id', after, h, rfl, hsound.cons hid, hg, hf⟩

/-- Annotating a batch runs through if no heartbeat listed has a fault, and stops with the first
fault otherwise. -/
theorem annotateAll_stops (room : Nat) (c : Config) (s : Store) (ids : List Text) (r : Roster) :
    (r.IsSound room c s ids ∧ (annotateAll room c s ids r).outcome.2 = none) ∨
      ∃ e, r.FirstFault room c s ids e ∧ (annotateAll room c s ids r).outcome.2 = some e := by
  induction ids generalizing r with
  | nil =>
    refine .inl ⟨?_, rfl⟩
    intro id hid
    cases hid
  | cons id ids ih =>
    cases hg : r.get? id with
    | none =>
      have hid : ∀ h, r.get? id = some h → ∀ e, ¬h.HasFault room c s e := by simp [hg]
      rw [annotateAll_cons_missing hg]
      rcases ih r with ⟨hs, ho⟩ | ⟨e, hf, ho⟩
      · exact .inl ⟨hs.cons hid, ho⟩
      · exact .inr ⟨e, hf.cons hid, ho⟩
    | some h =>
      cases ha : (h.annotate room c s).outcome with
      | error e =>
        rw [annotateAll_cons_error hg ha]
        refine .inr ⟨e, ⟨[], id, ids, h, rfl, ?_, hg, Heartbeat.annotate_error_iff.1 ha⟩, rfl⟩
        intro id' hid'
        cases hid'
      | ok h' =>
        have hid : ∀ b, r.get? id = some b → ∀ e, ¬b.HasFault room c s e := by
          intro b hb e hf
          obtain rfl := Option.some.inj (hg.symm.trans hb)
          cases ha.symm.trans (Heartbeat.annotate_error_iff.2 hf)
        have hb := (SameBare.put hg (Heartbeat.bare_of_annotate ha)).symm
        rw [annotateAll_cons_ok hg ha]
        rcases ih (r.put id h') with ⟨hs, ho⟩ | ⟨e, hf, ho⟩
        · exact .inl ⟨(hs.of_sameBare hb).cons hid, ho⟩
        · exact .inr ⟨e, (hf.of_sameBare hb).cons hid, ho⟩

theorem FirstFault.not_isSound {r : Roster} {ids : List Text} {e : Manifest.Error}
    (h : r.FirstFault room c s ids e) : ¬r.IsSound room c s ids := by
  obtain ⟨before, id, after, h, rfl, -, hg, hf⟩ := h
  intro hs
  exact hs id (List.mem_append_right _ List.mem_cons_self) h hg e hf

/-- A fault of the heartbeat listed first is the first fault. -/
theorem FirstFault.eq_of_head {r : Roster} {id : Text} {ids : List Text} {h : Heartbeat}
    {e e' : Manifest.Error} (hf : r.FirstFault room c s (id :: ids) e) (hg : r.get? id = some h)
    (hh : h.HasFault room c s e') : e = e' := by
  obtain ⟨before, id', after, h', hids, hsound, hg', hf'⟩ := hf
  cases before with
  | nil =>
    obtain ⟨rfl, -⟩ := List.cons.inj hids
    obtain rfl := Option.some.inj (hg.symm.trans hg')
    exact hf'.unique hh
  | cons id'' before =>
    obtain ⟨rfl, -⟩ := List.cons.inj hids
    exact absurd hh (hsound id List.mem_cons_self h hg e')

end Roster

/-! ## Handing on -/

/-- **A batch is handed on once, whole and in its order, unless a manifest is given up on.** What
the handler gets are the heartbeats that the names stood for, dependencies apart, and the call
fails only as the handler does. With a fault in the batch nothing is handed on, and the call fails
with the first one. -/
theorem withDetection_delivers {ε ρ : Type} (room : Nat) (c : Config) (s : Store)
    (next : Handler ε ρ) (ids : List Text) (r : Roster) :
    let out := withDetection room c s next ids r
    let batch := out.roster.members ids
    batch.map (fun m => (m.1, m.2.bare)) = (r.members ids).map (fun m => (m.1, m.2.bare)) ∧
      (r.IsSound room c s ids →
        out.forwarded = [ids.filter fun id => (r.get? id).isSome] ∧
          out.result = (next batch).mapError .handler) ∧
      (¬r.IsSound room c s ids →
        ∃ e, r.FirstFault room c s ids e ∧ out.forwarded = [] ∧
          out.result = .error (.manifest e)) := by
  intro out batch
  have hbare := Roster.sameBare_annotateAll room c s ids r
  rcases Roster.annotateAll_stops room c s ids r with ⟨hs, ho⟩ | ⟨e, hf, ho⟩
  · have hout := withDetection_of_ok next ho
    refine ⟨?_, fun _ => ⟨?_, ?_⟩, fun hn => absurd hs hn⟩
    · simp only [batch, out, hout]
      exact hbare.members ids
    · simp only [out, hout, Roster.map_fst_members, hbare.isSome_get?]
    · simp only [batch, out, hout]
  · have hout := withDetection_of_error next ho
    refine ⟨?_, fun hs => absurd hs hf.not_isSound, fun _ => ⟨e, hf, ?_, ?_⟩⟩
    · simp only [batch, out, hout]
      exact hbare.members ids
    · simp only [out, hout]
    · simp only [out, hout]

/-! ### A manifest and an application -/

/-- A store with one file. -/
def Store.single (t : Text) : Store :=
  ({} : Store).write (.ofText "p.json".toList) (Text.toBytes t)

/-- Activity on that file, as a manifest. -/
def Heartbeat.manifest : Heartbeat where
  entity := "p.json".toList
  entityType := "file".toList
  language := some "JSON".toList

/-- Activity on that file under the name `a`, and on an application under the name `b`. -/
def Roster.manifestAndApp : Roster :=
  (({} : Roster).put "b".toList { entity := "x".toList, entityType := "app".toList }).put
    "a".toList .manifest

theorem Source.read_single (t : Text) :
    Source.read (.single t) (.ofText "p.json".toList) =
      (Source.decode (Text.toBytes t)).mapError (⟨.ofText "p.json".toList, ·⟩) := by
  rfl

theorem Heartbeat.hasFault_manifest {c : Char} (hc : c.utf8Size = 1) (hm : c ≠ '\uFEFF')
    {n room : Nat} (hn : n ≤ Source.maxBytes) {e : Manifest.Error}
    (hp : Manifest.packages room (List.replicate n c) = .error e) :
    Heartbeat.manifest.HasFault room {} (.single (List.replicate n c)) e := by
  refine ⟨⟨by decide, rfl, by decide⟩, rfl, List.replicate n c, ?_, hp⟩
  have hpath : Heartbeat.manifest.readPath = "p.json".toList := rfl
  have hsize : Text.byteCount (List.replicate n c) ≤ Source.maxBytes := by
    rw [Text.byteCount_replicate, hc, Nat.mul_one]
    exact hn
  have hmark : Source.dropMark (List.replicate n c) = List.replicate n c := by
    cases n with
    | zero => rfl
    | succ n => simp [List.replicate_succ, Source.dropMark, hm]
  rw [hpath, Source.read_single, Source.decode_toBytes hsize, hmark]
  rfl

/-- A handler that reports every heartbeat as created. -/
def Handler.accepting : Handler Text (List Report) :=
  fun batch => .ok (batch.map fun m => ⟨201, some m.1, []⟩)

/-- What handling the two over a store with one file leads to, where arrays and objects may be
nested a thousand deep. -/
def handledManifest (t : Text) : Handled Text (List Report) :=
  withDetection 1000 {} (.single t) Handler.accepting ["a".toList, "b".toList] .manifestAndApp

theorem withDetection_drops_batch :
    let digits := handledManifest (List.replicate 4301 '1')
    let arrays := handledManifest (List.replicate 5000 '[')
    (digits.forwarded = [] ∧ digits.result = .error (.manifest .integerTooLong)) ∧
      (arrays.forwarded = [] ∧ arrays.result = .error (.manifest .nestingTooDeep)) := by
  have dropped {t : Text} {e : Manifest.Error}
      (hf : Heartbeat.manifest.HasFault 1000 {} (.single t) e) :
      (handledManifest t).forwarded = [] ∧
        (handledManifest t).result = .error (.manifest e) := by
    have hg : Roster.manifestAndApp.get? "a".toList = some .manifest := rfl
    obtain ⟨-, -, hdrop⟩ := withDetection_delivers 1000 {} (.single t) Handler.accepting
      ["a".toList, "b".toList] .manifestAndApp
    have hsound : ¬Roster.manifestAndApp.IsSound 1000 {} (.single t) ["a".toList, "b".toList] :=
      fun hs => hs _ List.mem_cons_self _ hg e hf
    obtain ⟨e', hfirst, hforwarded, hresult⟩ := hdrop hsound
    obtain rfl := hfirst.eq_of_head hg hf
    exact ⟨hforwarded, hresult⟩
  constructor
  · exact dropped (Heartbeat.hasFault_manifest (by decide) (by decide) (by decide)
      (Manifest.packages_digits (by decide) 1000))
  · exact dropped (Heartbeat.hasFault_manifest (by decide) (by decide) (by decide)
      (Manifest.packages_arrays (by decide)))

end ImportScan
