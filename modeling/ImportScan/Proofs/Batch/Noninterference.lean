import ImportScan.Proofs.Batch.Delivery
import Mathlib.Data.List.Forall2

/-!
# What hidden files reveal

Two runs over different stores are compared, on batches that look alike and that agree on the files
which the settings let be looked into. Nothing tells the runs apart: neither the log, nor what is
handed on, nor the dependencies found, nor the outcome (`withDetection_reveals_nothing`). One
heartbeat keeps the relation between the runs (`Heartbeat.AlikeFor.annotate`), since a heartbeat
that is looked into is the same in both, and one that is not is left alone
(`Heartbeat.annotate_of_not_shown`). A whole batch keeps it by induction
(`Roster.AlikeFor.annotateAll`).
-/

namespace ImportScan

namespace Heartbeat

/-! ## One heartbeat -/

/-- The heartbeats differ at most in where their file is and in its language. -/
structure Alike (h₁ h₂ : Heartbeat) : Prop where
  entity : h₁.entity = h₂.entity
  entityType : h₁.entityType = h₂.entityType
  dependencies : h₁.dependencies = h₂.dependencies

/-- The heartbeat is one of a file that the settings do not hide. -/
def IsShown (c : Config) (h : Heartbeat) : Prop := h.isFile = true ∧ c.hides h.entity = false

/-- The heartbeats are alike, and those that are shown are the same, with the same text to read. -/
structure AlikeFor (c : Config) (s₁ s₂ : Store) (h₁ h₂ : Heartbeat) : Prop extends
    Alike h₁ h₂ where
  language : h₁.IsShown c → h₁.language = h₂.language
  localFile : h₁.IsShown c → h₁.localFile = h₂.localFile
  read : h₁.IsShown c →
    Source.read s₁ (.ofText h₁.readPath) = Source.read s₂ (.ofText h₂.readPath)

variable {room : Nat} {c : Config} {s₁ s₂ : Store} {h₁ h₂ : Heartbeat}

theorem Alike.isShown_iff (h : h₁.Alike h₂) : h₁.IsShown c ↔ h₂.IsShown c := by
  unfold IsShown isFile
  rw [h.entity, h.entityType]

/-- What is hidden may have any file, any language and any local path. -/
theorem Alike.alikeFor_of_hidden (h : h₁.Alike h₂) (hh : c.hides h₁.entity = true) (s₁ s₂ : Store) :
    h₁.AlikeFor c s₁ s₂ h₂ := by
  have hshown : ¬h₁.IsShown c := fun hs => Bool.noConfusion (hh.symm.trans hs.2)
  exact ⟨h, fun hs => absurd hs hshown, fun hs => absurd hs hshown, fun hs => absurd hs hshown⟩

theorem AlikeFor.eq_of_isShown (h : h₁.AlikeFor c s₁ s₂ h₂) (hs : h₁.IsShown c) : h₁ = h₂ := by
  have hlanguage := h.language hs
  have hlocal := h.localFile hs
  obtain ⟨hentity, htype, hdeps⟩ := h.toAlike
  cases h₁
  cases h₂
  rw [Heartbeat.mk.injEq]
  exact ⟨hentity, htype, hlanguage, hlocal, hdeps⟩

/-- A heartbeat that is not shown is left alone, and at most its entity is told. -/
theorem annotate_of_not_shown {h : Heartbeat} (hs : ¬h.IsShown c) (s : Store) :
    h.annotate room c s = ⟨.ok h, if h.isFile then [.hidden h.entity] else []⟩ := by
  unfold annotate
  cases hf : h.isFile with
  | false => rfl
  | true =>
    cases hh : c.hides h.entity with
    | false => exact absurd ⟨hf, hh⟩ hs
    | true => rfl

/-- All that annotating takes from the store is the text at the path to read. -/
theorem annotate_congr {h : Heartbeat}
    (hr : Source.read s₁ (.ofText h.readPath) = Source.read s₂ (.ofText h.readPath)) :
    h.annotate room c s₁ = h.annotate room c s₂ := by
  unfold annotate detect
  rw [hr]

theorem readPath_of_bare {h h' : Heartbeat} (hb : h'.bare = h.bare) :
    h'.readPath = h.readPath := by
  have hpath : h'.bare.readPath = h.bare.readPath := congrArg readPath hb
  exact hpath

/-- **Annotating keeps heartbeats alike**: the same is told of both, and either both fail in the
same way or the heartbeats with their dependencies are alike again. -/
theorem AlikeFor.annotate (h : h₁.AlikeFor c s₁ s₂ h₂) (room : Nat) :
    (h₁.annotate room c s₁).log = (h₂.annotate room c s₂).log ∧
      ((∃ e, (h₁.annotate room c s₁).outcome = .error e ∧
          (h₂.annotate room c s₂).outcome = .error e) ∨
        ∃ h₁' h₂' : Heartbeat, (h₁.annotate room c s₁).outcome = .ok h₁' ∧
          (h₂.annotate room c s₂).outcome = .ok h₂' ∧ h₁'.AlikeFor c s₁ s₂ h₂') := by
  by_cases hs : h₁.IsShown c
  · obtain rfl := h.eq_of_isShown hs
    have hr := h.read hs
    rw [annotate_congr hr]
    refine ⟨rfl, ?_⟩
    cases ha : (h₁.annotate room c s₂).outcome with
    | error e => exact .inl ⟨e, rfl, rfl⟩
    | ok h' =>
      refine .inr ⟨h', h', rfl, rfl, ⟨rfl, rfl, rfl⟩, fun _ => rfl, fun _ => rfl, fun _ => ?_⟩
      rw [readPath_of_bare (bare_of_annotate ha)]
      exact hr
  · have hs' : ¬h₂.IsShown c := fun hs' => hs (h.isShown_iff.2 hs')
    have htype : h₁.isFile = h₂.isFile := by
      unfold isFile
      rw [h.entityType]
    rw [annotate_of_not_shown hs, annotate_of_not_shown hs', h.entity, htype]
    exact ⟨rfl, .inr ⟨h₁, h₂, rfl, rfl, h⟩⟩

end Heartbeat

namespace Roster

/-! ## A batch -/

/-- Of every name in the list, the rosters have heartbeats that are alike, or none. -/
def AlikeFor (c : Config) (s₁ s₂ : Store) (names : List Text) (r₁ r₂ : Roster) : Prop :=
  ∀ id ∈ names, Option.Rel (Heartbeat.AlikeFor c s₁ s₂) (r₁.get? id) (r₂.get? id)

variable {c : Config} {s₁ s₂ : Store} {names : List Text} {r₁ r₂ : Roster}

theorem AlikeFor.get?_cases (h : AlikeFor c s₁ s₂ names r₁ r₂) {id : Text} (hid : id ∈ names) :
    (r₁.get? id = none ∧ r₂.get? id = none) ∨
      ∃ h₁ h₂, r₁.get? id = some h₁ ∧ r₂.get? id = some h₂ ∧ h₁.AlikeFor c s₁ s₂ h₂ := by
  have hrel := h id hid
  generalize r₁.get? id = o₁ at hrel ⊢
  generalize r₂.get? id = o₂ at hrel ⊢
  cases hrel with
  | none => exact .inl ⟨rfl, rfl⟩
  | some hh => exact .inr ⟨_, _, rfl, rfl, hh⟩

theorem AlikeFor.mono {names' : List Text} (h : AlikeFor c s₁ s₂ names r₁ r₂)
    (hn : names' ⊆ names) : AlikeFor c s₁ s₂ names' r₁ r₂ := fun id hid => h id (hn hid)

theorem AlikeFor.put (h : AlikeFor c s₁ s₂ names r₁ r₂) {h₁ h₂ : Heartbeat}
    (hh : h₁.AlikeFor c s₁ s₂ h₂) (id : Text) :
    AlikeFor c s₁ s₂ names (r₁.put id h₁) (r₂.put id h₂) := by
  intro id' hid'
  rw [Table.get?_put, Table.get?_put]
  by_cases he : id' = id
  · rw [if_pos he, if_pos he]
    exact .some hh
  · rw [if_neg he, if_neg he]
    exact h id' hid'

theorem AlikeFor.annotateAll (h : AlikeFor c s₁ s₂ names r₁ r₂) (room : Nat) {ids : List Text}
    (hids : ids ⊆ names) :
    let a₁ := Roster.annotateAll room c s₁ ids r₁
    let a₂ := Roster.annotateAll room c s₂ ids r₂
    a₁.log = a₂.log ∧ a₁.outcome.2 = a₂.outcome.2 ∧
      AlikeFor c s₁ s₂ names a₁.outcome.1 a₂.outcome.1 := by
  induction ids generalizing r₁ r₂ with
  | nil => exact ⟨rfl, rfl, h⟩
  | cons id ids ih =>
    obtain ⟨hid, hids⟩ := List.cons_subset.1 hids
    rcases h.get?_cases hid with ⟨hg₁, hg₂⟩ | ⟨h₁, h₂, hg₁, hg₂, hh⟩
    · rw [annotateAll_cons_missing hg₁, annotateAll_cons_missing hg₂]
      exact ih h hids
    · obtain ⟨hlog, ⟨e, ha₁, ha₂⟩ | ⟨h₁', h₂', ha₁, ha₂, hh'⟩⟩ := hh.annotate room
      · rw [annotateAll_cons_error hg₁ ha₁, annotateAll_cons_error hg₂ ha₂]
        exact ⟨hlog, rfl, h⟩
      · obtain ⟨hlogs, hstop, hafter⟩ := ih (h.put hh' id) hids
        rw [annotateAll_cons_ok hg₁ ha₁, annotateAll_cons_ok hg₂ ha₂]
        exact ⟨congrArg₂ (· ++ ·) hlog hlogs, hstop, hafter⟩

end Roster

/-! ## What can be told apart -/

/-- The batches have the same names in the same order, and heartbeats that are alike. -/
def AlikeBatches (b₁ b₂ : List (Text × Heartbeat)) : Prop :=
  List.Forall₂ (fun m₁ m₂ => m₁.1 = m₂.1 ∧ m₁.2.Alike m₂.2) b₁ b₂

theorem AlikeBatches.names {b₁ b₂ : List (Text × Heartbeat)} (h : AlikeBatches b₁ b₂) :
    b₁.map (·.1) = b₂.map (·.1) := by
  induction h with
  | nil => rfl
  | cons hm _ ih => exact congrArg₂ List.cons hm.1 ih

/-- The handler does not look at languages and local paths. -/
def Handler.IsBlind {ε ρ : Type} (next : Handler ε ρ) : Prop :=
  ∀ b₁ b₂, AlikeBatches b₁ b₂ → next b₁ = next b₂

theorem Handler.isBlind_accepting : Handler.accepting.IsBlind := by
  intro b₁ b₂ h
  have hreports (b : List (Text × Heartbeat)) : Handler.accepting b =
      .ok ((b.map (·.1)).map fun id => ⟨201, some id, []⟩) := by
    rw [List.map_map]
    rfl
  rw [hreports, hreports, h.names]

variable {c : Config} {s₁ s₂ : Store} {ids : List Text} {r₁ r₂ : Roster}

theorem Roster.AlikeFor.members (h : Roster.AlikeFor c s₁ s₂ ids r₁ r₂) :
    AlikeBatches (r₁.members ids) (r₂.members ids) := by
  induction ids with
  | nil => exact .nil
  | cons id ids ih =>
    have hrest := ih (h.mono (List.subset_cons_self id ids))
    rcases h.get?_cases List.mem_cons_self with ⟨hg₁, hg₂⟩ | ⟨h₁, h₂, hg₁, hg₂, hh⟩
    · rw [members_cons_missing hg₁, members_cons_missing hg₂]
      exact hrest
    · rw [members_cons hg₁, members_cons hg₂]
      exact .cons ⟨rfl, hh.toAlike⟩ hrest

theorem Roster.AlikeFor.dependencies (h : Roster.AlikeFor c s₁ s₂ ids r₁ r₂) {id : Text}
    (hid : id ∈ ids) :
    (r₁.get? id).map Heartbeat.dependencies = (r₂.get? id).map Heartbeat.dependencies := by
  rcases h.get?_cases hid with ⟨hg₁, hg₂⟩ | ⟨h₁, h₂, hg₁, hg₂, hh⟩
  · rw [hg₁, hg₂]
  · rw [hg₁, hg₂]
    exact congrArg some hh.dependencies

/-- **Hidden files reveal nothing.** On batches that look alike and agree on the files that are
shown, two runs leave the same log, hand on the same names, and find the same dependencies. A
manifest is given up on in both or in neither, the handler gets batches that are alike, and so the
outcome is the same too unless the handler itself looks at languages and local paths. -/
theorem withDetection_reveals_nothing {ε ρ : Type} (room : Nat) {c : Config} {s₁ s₂ : Store}
    {ids : List Text} {r₁ r₂ : Roster} (h : Roster.AlikeFor c s₁ s₂ ids r₁ r₂)
    (next : Handler ε ρ) :
    let out₁ := withDetection room c s₁ next ids r₁
    let out₂ := withDetection room c s₂ next ids r₂
    out₁.log = out₂.log ∧ out₁.forwarded = out₂.forwarded ∧
      (∀ id ∈ ids, (out₁.roster.get? id).map Heartbeat.dependencies =
        (out₂.roster.get? id).map Heartbeat.dependencies) ∧
      AlikeBatches (out₁.roster.members ids) (out₂.roster.members ids) ∧
      ((∃ e, out₁.result = .error (.manifest e) ∧ out₂.result = .error (.manifest e)) ∨
        (out₁.result = (next (out₁.roster.members ids)).mapError .handler ∧
          out₂.result = (next (out₂.roster.members ids)).mapError .handler)) ∧
      (next.IsBlind → out₁.result = out₂.result) := by
  intro out₁ out₂
  obtain ⟨hlog, hstop, hafter⟩ := h.annotateAll room (List.Subset.refl ids)
  cases hs : (r₁.annotateAll room c s₁ ids).outcome.2 with
  | some e =>
    have hout₁ : out₁ = _ := withDetection_of_error next hs
    have hout₂ : out₂ = _ := withDetection_of_error next (hstop.symm.trans hs)
    rw [hout₁, hout₂]
    exact ⟨hlog, rfl, fun _ => hafter.dependencies, hafter.members, .inl ⟨e, rfl, rfl⟩,
      fun _ => rfl⟩
  | none =>
    have hout₁ : out₁ = _ := withDetection_of_ok next hs
    have hout₂ : out₂ = _ := withDetection_of_ok next (hstop.symm.trans hs)
    rw [hout₁, hout₂]
    refine ⟨hlog, congrArg ([·]) hafter.members.names, fun _ => hafter.dependencies,
      hafter.members, .inr ⟨rfl, rfl⟩, ?_⟩
    intro hblind
    exact congrArg (Except.mapError BatchError.handler) (hblind _ _ hafter.members)

/-! ### A hidden file beside one that is shown -/

/-- Settings that hide what has `secret` in its name. -/
def Config.hidingSecrets : Config := { patterns := [⟨"secret".toList, Pattern.word "secret"⟩] }

/-- Activity on a hidden file, read from a path that is not hidden itself. -/
def Heartbeat.secret (language : String) (localFile : String) : Heartbeat where
  entity := "secret.py".toList
  entityType := "file".toList
  language := some language.toList
  localFile := some localFile.toList

/-- Activity on a file that is shown. -/
def Heartbeat.plain : Heartbeat where
  entity := "a.py".toList
  entityType := "file".toList
  language := some "Python".toList

theorem Source.read_beside (b b' : ByteArray) :
    Source.read ((({} : Store).write (.ofText "a.py".toList) b).write (.ofText "b.py".toList) b')
        (.ofText "a.py".toList) =
      Source.read (({} : Store).write (.ofText "a.py".toList) b) (.ofText "a.py".toList) := by
  rfl

theorem withDetection_reveals_nothing_hidden :
    let s₁ := (({} : Store).write (.ofText "a.py".toList) (Text.toBytes "import x".toList)).write
      (.ofText "b.py".toList) (Text.toBytes "import y".toList)
    let s₂ := ({} : Store).write (.ofText "a.py".toList) (Text.toBytes "import x".toList)
    let r₁ := (({} : Roster).put "p".toList .plain).put "q".toList (.secret "Python" "b.py")
    let r₂ := (({} : Roster).put "p".toList .plain).put "q".toList (.secret "JSON" "c.json")
    let ids := ["p".toList, "q".toList, "p".toList]
    let out₁ := withDetection 1000 .hidingSecrets s₁ .accepting ids r₁
    let out₂ := withDetection 1000 .hidingSecrets s₂ .accepting ids r₂
    Config.hidingSecrets.hides "b.py".toList = false ∧
      Roster.AlikeFor .hidingSecrets s₁ s₂ ids r₁ r₂ ∧
      out₁.log = out₂.log ∧ out₁.forwarded = out₂.forwarded ∧ out₁.result = out₂.result := by
  intro s₁ s₂ r₁ r₂ ids out₁ out₂
  have hhidden : Config.hidingSecrets.hides "secret.py".toList = true := by decide +kernel
  have halike : (Heartbeat.secret "Python" "b.py").Alike (.secret "JSON" "c.json") :=
    ⟨rfl, rfl, rfl⟩
  have hsecret := halike.alikeFor_of_hidden hhidden s₁ s₂
  have hplain : Heartbeat.AlikeFor .hidingSecrets s₁ s₂ .plain .plain :=
    ⟨⟨rfl, rfl, rfl⟩, fun _ => rfl, fun _ => rfl, fun _ => Source.read_beside _ _⟩
  have hrosters : Roster.AlikeFor .hidingSecrets s₁ s₂ ids r₁ r₂ := by
    have hempty : Roster.AlikeFor .hidingSecrets s₁ s₂ ids {} {} := fun _ _ => .none
    exact (hempty.put hplain _).put hsecret _
  obtain ⟨hlog, hforwarded, -, -, -, hresult⟩ :=
    withDetection_reveals_nothing 1000 hrosters .accepting
  exact ⟨by decide +kernel, hrosters, hlog, hforwarded,
    hresult Handler.isBlind_accepting⟩

end ImportScan
