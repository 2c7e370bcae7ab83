import ImportScan.Proofs.Batch.Independence
import ImportScan.Proofs.Dependency
import ImportScan.Proofs.Source
import ImportScan.Session
import ImportScan.Yaml.Document

/-!
# Dependencies along a session

Along a session, whatever happens to the store and to the settings and however calls end, every
heartbeat keeps what it was created with, but its dependencies may become a clean list
(`Heartbeat.Descends`). They do so only where a batch lists the heartbeat, the settings of that
moment let its file be looked into, and the file can be read (`Heartbeat.IsDetectable`). One
heartbeat keeps both facts (`Heartbeat.dependencies_of_annotate`), a batch keeps them up to the
fault at which it stops, and so does a step and a run.
-/

namespace ImportScan

namespace Heartbeat

variable {room : Nat} {c : Config} {s : Store} {h₀ h h' : Heartbeat}

/-! ## One heartbeat -/

/-- The file of the heartbeat is looked into, and it is there, not too large, and a text. -/
structure IsDetectable (c : Config) (s : Store) (h : Heartbeat) : Prop extends
    h.IsInspected c where
  readable : ∃ place t, s.find (.ofText h.readPath) = .ok (place, .file (Text.toBytes t)) ∧
    (Text.toBytes t).size ≤ Source.maxBytes

/-- Whether dependencies are detected does not depend on the dependencies. -/
theorem isDetectable_congr (hb : h'.bare = h.bare) :
    h'.IsDetectable c s ↔ h.IsDetectable c s := by
  have bare_iff (h : Heartbeat) : h.bare.IsDetectable c s ↔ h.IsDetectable c s :=
    ⟨fun ⟨⟨hf, hh, hl⟩, hr⟩ => ⟨⟨hf, hh, hl⟩, hr⟩, fun ⟨⟨hf, hh, hl⟩, hr⟩ => ⟨⟨hf, hh, hl⟩, hr⟩⟩
  rw [← bare_iff h', hb, bare_iff]

/-- The dependencies are a clean list. -/
def HasCleanDependencies (h : Heartbeat) : Prop :=
  ∃ names, h.dependencies = some names ∧ Dependency.IsClean names

/-- Annotating leaves the dependencies as they are, or detects a clean list. -/
theorem dependencies_of_annotate (ha : (h.annotate room c s).outcome = .ok h') :
    h'.dependencies = h.dependencies ∨ h.IsDetectable c s ∧ h'.HasCleanDependencies := by
  have hspec := annotate_spec room c s h
  generalize h.annotate room c s = a at ha hspec
  cases hspec with
  | notFile | hidden | unknownLanguage | unreadable => exact .inl (Except.ok.inj ha ▸ rfl)
  | fault => cases ha
  | annotated hi hr hp =>
    obtain rfl := Except.ok.inj ha
    obtain ⟨place, t, hfind, hsize, -⟩ := Source.read_eq_ok_iff.1 hr
    exact .inr ⟨⟨hi, place, t, hfind, hsize⟩, _, rfl, Dependency.isClean_normalize _⟩

/-- The heartbeat is what the other was made, dependencies apart, and these are what they were or a
clean list. -/
structure Descends (h₀ h : Heartbeat) : Prop where
  bare : h.bare = h₀.bare
  dependencies : h.dependencies = h₀.dependencies ∨ h.HasCleanDependencies

theorem Descends.refl (h : Heartbeat) : h.Descends h := ⟨rfl, .inl rfl⟩

theorem Descends.annotate (hd : h₀.Descends h) (ha : (h.annotate room c s).outcome = .ok h') :
    h₀.Descends h' := by
  refine ⟨(bare_of_annotate ha).trans hd.bare, ?_⟩
  rcases dependencies_of_annotate ha with he | ⟨-, hclean⟩
  · rcases hd.dependencies with hd | ⟨names, hn, hclean⟩
    · exact .inl (he.trans hd)
    · exact .inr ⟨names, he.trans hn, hclean⟩
  · exact .inr hclean

end Heartbeat

namespace Roster

variable {room : Nat} {c : Config} {s : Store} {r₀ r : Roster}

/-! ## A batch -/

/-- The rosters have heartbeats under the same names, and those of the second descend from those of
the first. -/
def Descends (r₀ r : Roster) : Prop :=
  ∀ id, Option.Rel Heartbeat.Descends (r₀.get? id) (r.get? id)

theorem Descends.refl (r : Roster) : r.Descends r := by
  intro id
  cases r.get? id with
  | none => exact .none
  | some h => exact .some (.refl h)

theorem Descends.put (hr : r₀.Descends r) (id : Text) {h₀ h : Heartbeat} (hh : h₀.Descends h) :
    Descends (r₀.put id h₀) (r.put id h) := by
  intro id'
  rw [Table.get?_put, Table.get?_put]
  by_cases he : id' = id
  · rw [if_pos he, if_pos he]
    exact .some hh
  · rw [if_neg he, if_neg he]
    exact hr id'

/-- A heartbeat may be replaced by one that descends from the same. -/
theorem Descends.put_right (hr : r₀.Descends r) {id : Text} {h h' : Heartbeat}
    (hg : r.get? id = some h) (hh : ∀ h₀ : Heartbeat, h₀.Descends h → h₀.Descends h') :
    Descends r₀ (r.put id h') := by
  intro id'
  have hid := hr id'
  rw [Table.get?_put]
  by_cases he : id' = id
  · subst he
    rw [hg] at hid
    rw [if_pos rfl]
    generalize r₀.get? id' = o at hid ⊢
    cases hid with
    | some hd => exact .some (hh _ hd)
  · rw [if_neg he]
    exact hid

/-- A batch that is annotated, to its end or up to a fault, descends from the same. -/
theorem Descends.annotateAll (hr : r₀.Descends r) (ids : List Text) :
    r₀.Descends (Roster.annotateAll room c s ids r).outcome.1 := by
  induction ids generalizing r with
  | nil => exact hr
  | cons id ids ih =>
    cases hg : r.get? id with
    | none =>
      rw [annotateAll_cons_missing hg]
      exact ih hr
    | some h =>
      cases ha : (h.annotate room c s).outcome with
      | error e =>
        rw [annotateAll_cons_error hg ha]
        exact hr
      | ok h' =>
        rw [annotateAll_cons_ok hg ha]
        exact ih (hr.put_right hg fun _ hd => hd.annotate ha)

/-- A heartbeat whose dependencies a batch changes is listed, and its file can be looked into. -/
theorem dependencies_of_annotateAll (ids : List Text) {id : Text} {h : Heartbeat}
    (hg : r.get? id = some h) :
    ∃ h', (annotateAll room c s ids r).outcome.1.get? id = some h' ∧
      (h'.dependencies = h.dependencies ∨ id ∈ ids ∧ h.IsDetectable c s) := by
  induction ids generalizing r h with
  | nil => exact ⟨h, hg, .inl rfl⟩
  | cons first ids ih =>
    -- what the rest of the batch does to the heartbeat is also what the whole batch does
    have lift {r' : Roster} {b : Heartbeat} (hg' : r'.get? id = some b) (hb : b.bare = h.bare)
        (hd : b.dependencies = h.dependencies ∨ id ∈ first :: ids ∧ h.IsDetectable c s) :
        ∃ h', (annotateAll room c s ids r').outcome.1.get? id = some h' ∧
          (h'.dependencies = h.dependencies ∨ id ∈ first :: ids ∧ h.IsDetectable c s) := by
      obtain ⟨h', hg'', he | ⟨hid, hdet⟩⟩ := ih hg'
      · exact ⟨h', hg'', hd.imp_left he.trans⟩
      · have hdet' := (Heartbeat.isDetectable_congr hb).1 hdet
        exact ⟨h', hg'', .inr ⟨List.mem_cons_of_mem _ hid, hdet'⟩⟩
    cases hf : r.get? first with
    | none =>
      rw [annotateAll_cons_missing hf]
      exact lift hg rfl (.inl rfl)
    | some b =>
      cases ha : (b.annotate room c s).outcome with
      | error e =>
        rw [annotateAll_cons_error hf ha]
        exact ⟨h, hg, .inl rfl⟩
      | ok b' =>
        rw [annotateAll_cons_ok hf ha]
        by_cases hid : id = first
        · subst hid
          obtain rfl := Option.some.inj (hf.symm.trans hg)
          have hput : (r.put id b').get? id = some b' := by rw [Table.get?_put, if_pos rfl]
          refine lift hput (Heartbeat.bare_of_annotate ha) ?_
          exact (Heartbeat.dependencies_of_annotate ha).imp_right fun hd =>
            ⟨List.mem_cons_self, hd.1⟩
        · have hput : (r.put first b').get? id = some h := by rw [Table.get?_put, if_neg hid, hg]
          exact lift hput rfl (.inl rfl)

/-- The roster with the heartbeats that steps create, as they create them. -/
def created {η : Type} (r : Roster) (steps : List (Step η)) : Roster :=
  steps.foldl (fun r step => match step with
    | .heartbeat id h => r.put id h
    | _ => r) r

end Roster

namespace Session

/-! ## A run -/

variable {ε η : Type} (host : Host ε)

/-- The session behind steps. -/
def after (s : Session) (steps : List (Step η)) : Session :=
  steps.foldl (fun s step => (s.step host step).2) s

/-- The session behind some steps is the one that answers those that follow. -/
theorem run_append (s : Session) (first second : List (Step η)) :
    s.run host (first ++ second) =
      s.run host first ++ (s.after host first).run host second := by
  induction first generalizing s with
  | nil => rfl
  | cons step first ih => exact congrArg ((s.step host step).1 :: ·) (ih (s.step host step).2)

/-- A step leaves the roster alone, creates a heartbeat, or handles a batch. -/
theorem roster_step (s : Session) (step : Step η) :
    (∃ id h, step = .heartbeat id h ∧ (s.step host step).2.roster = s.roster.put id h) ∨
      (∃ ids next, step = .handle ids next ∧ (s.step host step).2.roster =
        (s.roster.annotateAll host.room s.config s.store ids).outcome.1) ∨
      ((∀ id h, step ≠ .heartbeat id h) ∧ (s.step host step).2.roster = s.roster) := by
  have hconfig (e : Except (LoadError ε) Config) :
      (s.useConfig e : Answer ε η × Session).2.roster = s.roster := by
    cases e <;> rfl
  cases step with
  | heartbeat id h => exact .inl ⟨id, h, rfl, rfl⟩
  | handle ids next => exact .inr (.inl ⟨ids, next, rfl, (withDetection_annotates ..).1⟩)
  | loadConfig => exact .inr (.inr ⟨nofun, hconfig _⟩)
  | usePatterns => exact .inr (.inr ⟨nofun, hconfig _⟩)
  | write | makeDirectory | delete | detect | read | hides => exact .inr (.inr ⟨nofun, rfl⟩)

theorem descends_step {r₀ : Roster} {s : Session} (hs : r₀.Descends s.roster) (step : Step η) :
    (r₀.created [step]).Descends (s.step host step).2.roster := by
  have hother (hne : ∀ id h, step ≠ .heartbeat id h) : r₀.created [step] = r₀ := by
    cases step with
    | heartbeat id h => exact absurd rfl (hne id h)
    | _ => rfl
  rcases s.roster_step host step with ⟨id, h, rfl, hr⟩ | ⟨ids, next, rfl, hr⟩ | ⟨hne, hr⟩
  · rw [hr]
    exact hs.put id (.refl h)
  · rw [hr]
    exact hs.annotateAll ids
  · rw [hr, hother hne]
    exact hs

theorem descends_after {r₀ : Roster} {s : Session} (hs : r₀.Descends s.roster)
    (steps : List (Step η)) : (r₀.created steps).Descends (s.after host steps).roster := by
  induction steps generalizing r₀ s with
  | nil => exact hs
  | cons step steps ih => exact ih (descends_step host hs step)

/-- **Dependencies are as created or clean, and change only where they are detected.** Behind any
steps the heartbeats are those created, each with the dependencies that it was created with or with
a clean list. A step keeps the dependencies of a heartbeat unless it creates the heartbeat anew, or
hands on a batch that lists it, with its file looked into under the settings of that moment and
readable in the store of that moment. A call that has come as far as some first part of its batch
has left the roster that a call with just that part leaves, so this tells of its inside too. -/
theorem dependencies_of_run (s₀ : Session) (steps : List (Step η)) :
    let s := s₀.after host steps
    (∀ id h, s.roster.get? id = some h →
      ∃ h₀, (s₀.roster.created steps).get? id = some h₀ ∧ h.bare = h₀.bare ∧
        (h.dependencies = h₀.dependencies ∨
          ∃ names, h.dependencies = some names ∧ Dependency.IsClean names)) ∧
    ∀ (step : Step η) id h, s.roster.get? id = some h →
      ∃ h', (s.step host step).2.roster.get? id = some h' ∧
        (h'.dependencies = h.dependencies ∨ step = .heartbeat id h' ∨
          ∃ ids next, step = .handle ids next ∧ id ∈ ids ∧
            h.IsDetectable s.config s.store) := by
  intro s
  constructor
  · intro id h hg
    have hid := descends_after host (.refl s₀.roster) steps id
    rw [hg] at hid
    generalize (s₀.roster.created steps).get? id = o at hid ⊢
    cases hid with
    | some hd => exact ⟨_, rfl, hd.bare, hd.dependencies⟩
  · intro step id h hg
    rcases s.roster_step host step with ⟨id', b, rfl, hr⟩ | ⟨ids, next, rfl, hr⟩ | ⟨-, hr⟩
    · rw [hr, Table.get?_put]
      by_cases hid : id = id'
      · subst hid
        exact ⟨b, if_pos rfl, .inr (.inl rfl)⟩
      · rw [if_neg hid]
        exact ⟨h, hg, .inl rfl⟩
    · rw [hr]
      obtain ⟨h', hg', he | ⟨hid, hdet⟩⟩ := Roster.dependencies_of_annotateAll ids hg
      · exact ⟨h', hg', .inl he⟩
      · exact ⟨h', hg', .inr (.inr ⟨ids, next, rfl, hid, hdet⟩)⟩
    · rw [hr]
      exact ⟨h, hg, .inl rfl⟩

/-- A source file, whose dependencies are detected though the handler fails. -/
theorem dependencies_of_run_failing :
    let host : Host Yaml.Failure := ⟨Yaml.readDocument, fun _ => none, 1000⟩
    let h : Heartbeat :=
      { entity := "a.py".toList, entityType := "file".toList, language := some "Python".toList }
    let first : List (Step Text) :=
      [.write "a.py".toList (Text.toBytes "import os".toList), .heartbeat "a".toList h]
    let failing : Step Text := .handle ["a".toList] fun _ => .error "api unavailable".toList
    let s := ({} : Session).after host first
    let h' := { h with dependencies := some ["os".toList] }
    (s.step host failing).2.roster.get? "a".toList = some h' ∧
      h.IsDetectable s.config s.store ∧ Dependency.IsClean ["os".toList] := by
  intro host h first failing s h'
  have hg : s.roster.get? "a".toList = some h := rfl
  have hg' : (s.step host failing).2.roster.get? "a".toList = some h' := by decide +kernel
  have hne : h'.dependencies ≠ h.dependencies := by decide
  obtain ⟨-, hstep⟩ := dependencies_of_run host {} first
  obtain ⟨b, hb, he | he | ⟨ids, next, -, -, hdet⟩⟩ := hstep failing _ _ hg
  · obtain rfl := Option.some.inj (hg'.symm.trans hb)
    exact absurd he hne
  · simp [failing] at he
  · obtain ⟨hclean, -⟩ := dependencies_of_run host {} (first ++ [failing])
    obtain ⟨h₀, hg₀, -, he | ⟨names, hn, hc⟩⟩ := hclean _ _ hg'
    · obtain rfl : h = h₀ := Option.some.inj hg₀
      exact absurd he hne
    · obtain rfl : ["os".toList] = names := Option.some.inj hn
      exact ⟨hg', hdet, hc⟩

end Session
end ImportScan
