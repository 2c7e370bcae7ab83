import ImportScan.Proofs.Batch.Delivery
import ImportScan.Proofs.Text.LetterCase

/-!
# Language tags that are looked up alike

A parser is looked up by the tag in lower case without the white space around it, but a tag is taken
for that of the unknown language only if no white space stands around it
(`isKnownTag_eq_false_iff`). So two tags that are looked up alike lead to the same dependencies,
unless the unknown language is meant and white space stands around just one of them: a file of the
language in white space is read and has no dependencies, while the other is left as it was
(`annotate_tags_agree_iff`).
-/

namespace ImportScan

open Text

/-! ## Tags -/

/-- The small sigma inside a word for the one at its end. -/
def plainSigma (c : Char) : Char := if c = 'ς' then 'σ' else c

/-- The tags are looked up alike: but for white space around them they differ in letter case only,
where the two small sigmas count as one. -/
def LookedUpAlike (a b : Text) : Prop :=
  (lower (trim a)).map plainSigma = (lower (trim b)).map plainSigma

instance (a b : Text) : Decidable (LookedUpAlike a b) := inferInstanceAs (Decidable (_ = _))

/-- The text has no small sigma. -/
def SigmaFree (k : Text) : Prop := ∀ c ∈ k, c ≠ 'σ' ∧ c ≠ 'ς'

instance (k : Text) : Decidable (SigmaFree k) := inferInstanceAs (Decidable (∀ c ∈ k, _))

theorem map_plainSigma_eq_iff {t k : Text} (hk : SigmaFree k) : t.map plainSigma = k ↔ t = k := by
  have map_eq {u : Text} (hu : ∀ c ∈ u, c ≠ 'ς') : u.map plainSigma = u :=
    (List.map_congr_left fun c hc => if_neg (hu c hc)).trans (List.map_id u)
  constructor
  · rintro rfl
    refine (map_eq fun c hc hend => ?_).symm
    exact (hk (plainSigma c) (List.mem_map_of_mem hc)).1 (if_pos hend)
  · rintro rfl
    exact map_eq fun c hc => (hk c hc).2

theorem LookedUpAlike.lower_trim_eq_iff {a b k : Text} (hab : LookedUpAlike a b)
    (hk : SigmaFree k) : lower (trim a) = k ↔ lower (trim b) = k := by
  rw [← map_plainSigma_eq_iff hk, hab, map_plainSigma_eq_iff hk]

theorem lookup_congr {α β : Type} [BEq α] [LawfulBEq α] {x y : α} {l : List (α × β)}
    (h : ∀ e ∈ l, x = e.1 ↔ y = e.1) : l.lookup x = l.lookup y := by
  induction l with
  | nil => rfl
  | cons e l ih =>
    have hfirst : (x == e.1) = (y == e.1) := by
      rw [Bool.eq_iff_iff, beq_iff_eq, beq_iff_eq]
      exact h e List.mem_cons_self
    rw [List.lookup_cons, List.lookup_cons, hfirst, ih fun e he => h e (List.mem_cons_of_mem _ he)]

theorem sigmaFree_of_mem_registry {room : Nat} {e : Text × Parser}
    (h : e ∈ Parser.registry room) : SigmaFree e.1 := by
  obtain ⟨l, hl, -⟩ := Parser.exists_parser?_of_mem_registry h
  rw [hl]
  cases l <;> decide

/-- Tags that are looked up alike have one parser. -/
theorem LookedUpAlike.ofTag_eq {a b : Text} (hab : LookedUpAlike a b) (room : Nat) :
    Parser.ofTag room a = Parser.ofTag room b := by
  unfold Parser.ofTag
  rw [lookup_congr fun e he => hab.lower_trim_eq_iff (sigmaFree_of_mem_registry he)]

/-- The tag is that of the unknown language, with white space around it perhaps. -/
def NamesUnknown (tag : Text) : Prop := lower (trim tag) = Language.unknown.key

instance (tag : Text) : Decidable (NamesUnknown tag) := inferInstanceAs (Decidable (_ = _))

theorem NamesUnknown.ofTag_eq {tag : Text} (h : NamesUnknown tag) (room : Nat) :
    Parser.ofTag room tag = .noOp := by
  unfold Parser.ofTag
  rw [h]
  rfl

theorem LookedUpAlike.namesUnknown_iff {a b : Text} (hab : LookedUpAlike a b) :
    NamesUnknown a ↔ NamesUnknown b := hab.lower_trim_eq_iff (by decide)

/-- A tag is taken for that of the unknown language only if nothing stands around it. -/
theorem isKnownTag_eq_false_iff {tag : Text} (hne : tag ≠ []) :
    Language.isKnownTag tag = false ↔ NamesUnknown tag ∧ IsTrimmed tag := by
  have hsolid : ∀ c ∈ Language.unknown.key, isBlank c = false := by decide
  unfold NamesUnknown
  rw [← lower_eq_iff_of_solid hsolid]
  simp [Language.isKnownTag, hne]

/-! ## Annotating with one tag or another -/

namespace Heartbeat

variable {room : Nat} {c : Config} {s : Store} {h : Heartbeat} {a b : Text}

/-- The heartbeat with another language tag. -/
def withLanguage (h : Heartbeat) (tag : Text) : Heartbeat := { h with language := some tag }

/-- The heartbeat is of a file that is shown and can be read. -/
structure IsReadable (c : Config) (s : Store) (h : Heartbeat) : Prop where
  isFile : h.isFile = true
  shown : c.hides h.entity = false
  readable : ∃ t, Source.read s (.ofText h.readPath) = .ok t

/-- The dependencies that annotating leaves, unless it fails. -/
def dependenciesAfter (room : Nat) (c : Config) (s : Store) (h : Heartbeat) :
    Except Manifest.Error (Option (List Text)) :=
  (h.annotate room c s).outcome.map (·.dependencies)

/-- A file that is not looked into or cannot be read keeps its dependencies. -/
theorem dependenciesAfter_of_not_parsed (hh : h.IsInspected c → ¬h.IsReadable c s) :
    h.dependenciesAfter room c s = .ok h.dependencies := by
  have hspec := annotate_spec room c s h
  unfold dependenciesAfter
  generalize h.annotate room c s = o at hspec
  cases hspec with
  | notFile | hidden | unknownLanguage | unreadable => rfl
  | annotated hi hr | fault hi hr => exact absurd ⟨hi.isFile, hi.shown, _, hr⟩ (hh hi)

theorem dependenciesAfter_of_known (hl : h.hasKnownLanguage = true) (hf : h.isFile = true)
    (hh : c.hides h.entity = false) {t : Text} (hr : Source.read s (.ofText h.readPath) = .ok t) :
    h.dependenciesAfter room c s =
      ((Parser.ofTag? room h.language).parse t).map (some <| Dependency.normalize ·) := by
  unfold dependenciesAfter
  cases hp : (Parser.ofTag? room h.language).parse t with
  | ok names => simp [annotate, hf, hh, hl, detect_of_ok hr hp, Except.map]
  | error e => simp [annotate, hf, hh, hl, detect_of_fault hr hp, Except.map]

/-- A known tag of the unknown language leads to no dependencies. -/
theorem dependenciesAfter_namesUnknown (hh : h.IsReadable c s) (ha : NamesUnknown a)
    (hne : a ≠ []) : (h.withLanguage a).dependenciesAfter room c s =
      .ok (if IsTrimmed a then h.dependencies else some []) := by
  obtain ⟨hf, hshown, t, hr⟩ := hh
  by_cases htrim : IsTrimmed a
  · rw [if_pos htrim]
    have hunknown : (h.withLanguage a).hasKnownLanguage = false :=
      (isKnownTag_eq_false_iff hne).2 ⟨ha, htrim⟩
    exact dependenciesAfter_of_not_parsed fun hi => absurd hi.knownLanguage (by simp [hunknown])
  · rw [if_neg htrim]
    have hl : Language.isKnownTag a = true := by
      rw [← Bool.not_eq_false, isKnownTag_eq_false_iff hne]
      exact fun h => htrim h.2
    rw [dependenciesAfter_of_known (h := h.withLanguage a) hl hf hshown hr]
    have hparser : Parser.ofTag? room (h.withLanguage a).language = .noOp := ha.ofTag_eq room
    rw [hparser]
    rfl

/-- **Tags that are looked up alike lead to the same dependencies**, whatever the settings, the
store and the heartbeat, unless they name the unknown language and white space stands around just
one of them: then a file that is shown and can be read has no dependencies under that one, and
keeps those it had under the other. -/
theorem annotate_tags_agree_iff (room : Nat) (c : Config) (s : Store) (h : Heartbeat) (ha : a ≠ [])
    (hb : b ≠ []) (hab : LookedUpAlike a b) :
    (h.withLanguage a).dependenciesAfter room c s = (h.withLanguage b).dependenciesAfter room c s ↔
      (NamesUnknown a → h.IsReadable c s →
        (IsTrimmed a ↔ IsTrimmed b) ∨ h.dependencies = some []) := by
  by_cases hread : h.IsReadable c s
  · by_cases hunknown : NamesUnknown a
    · rw [dependenciesAfter_namesUnknown hread hunknown ha,
        dependenciesAfter_namesUnknown hread (hab.namesUnknown_iff.1 hunknown) hb,
        Except.ok.injEq, forall_prop_of_true hunknown, forall_prop_of_true hread]
      by_cases hta : IsTrimmed a <;> by_cases htb : IsTrimmed b <;> simp [hta, htb, eq_comm]
    · refine iff_of_true ?_ fun hnames => absurd hnames hunknown
      have known {tag : Text} (hne : tag ≠ []) (htag : ¬NamesUnknown tag) :
          Language.isKnownTag tag = true := by
        rw [← Bool.not_eq_false, isKnownTag_eq_false_iff hne]
        exact fun h => htag h.1
      obtain ⟨hf, hshown, t, hr⟩ := hread
      rw [dependenciesAfter_of_known (h := h.withLanguage a) (known ha hunknown) hf hshown hr,
        dependenciesAfter_of_known (h := h.withLanguage b)
          (known hb (hunknown ∘ hab.namesUnknown_iff.2)) hf hshown hr]
      have hparser : Parser.ofTag? room (h.withLanguage a).language =
          Parser.ofTag? room (h.withLanguage b).language := hab.ofTag_eq room
      rw [hparser]
  · have hleft (tag : Text) :
        (h.withLanguage tag).dependenciesAfter room c s = .ok h.dependencies :=
      dependenciesAfter_of_not_parsed fun _ hr => hread ⟨hr.isFile, hr.shown, hr.readable⟩
    exact iff_of_true ((hleft a).trans (hleft b).symm) fun _ hr => absurd hr hread

/-- White space in front of the tag of the unknown language: the file is read, and found to depend
on nothing. -/
theorem annotate_tags_agree_blank :
    LookedUpAlike "Unknown".toList " Unknown".toList ∧
      (Heartbeat.manifest.withLanguage "Unknown".toList).dependenciesAfter 1000 {} (.single []) ≠
        (Heartbeat.manifest.withLanguage " Unknown".toList).dependenciesAfter 1000 {}
          (.single []) := by
  have halike : LookedUpAlike "Unknown".toList " Unknown".toList := by decide
  have hread : Heartbeat.manifest.IsReadable {} (.single []) := by
    refine ⟨by decide, rfl, [], ?_⟩
    have hpath : Heartbeat.manifest.readPath = "p.json".toList := rfl
    rw [hpath, Source.read_single, Source.decode_toBytes (by decide)]
    rfl
  refine ⟨halike, fun heq => ?_⟩
  have hagree := (annotate_tags_agree_iff 1000 {} (.single []) .manifest (by decide) (by decide)
    halike).1 heq (by decide) hread
  revert hagree
  decide

end Heartbeat
end ImportScan
