import ImportScan.Heartbeat

/-!
# Annotating one heartbeat

`Annotation` lists all that annotating a heartbeat can do, with what it depends on; every other fact
about annotation is a case analysis over it. A heartbeat that is annotated keeps everything but its
dependencies (`bare_of_annotate`), and the only failure is a manifest that is given up on
(`annotate_error_iff`).
-/

namespace ImportScan.Heartbeat

/-- Whether the file of the heartbeat is looked into. -/
structure IsInspected (c : Config) (h : Heartbeat) : Prop where
  isFile : h.isFile = true
  shown : c.hides h.entity = false
  knownLanguage : h.hasKnownLanguage = true

/-- What annotating a heartbeat leads to. -/
inductive Annotation (room : Nat) (c : Config) (s : Store) (h : Heartbeat) :
    Logged (Except Manifest.Error Heartbeat) → Prop where
  | notFile (hf : h.isFile = false) : Annotation room c s h ⟨.ok h, []⟩
  | hidden (hf : h.isFile = true) (hh : c.hides h.entity = true) :
    Annotation room c s h ⟨.ok h, [.hidden h.entity]⟩
  | unknownLanguage (hf : h.isFile = true) (hh : c.hides h.entity = false)
      (hl : h.hasKnownLanguage = false) :
    Annotation room c s h ⟨.ok h, [.unknownLanguage h.entity]⟩
  | unreadable (hi : h.IsInspected c) {e : ReadError}
      (hr : Source.read s (.ofText h.readPath) = .error e) :
    Annotation room c s h ⟨.ok h, [.unreadable h.entity e]⟩
  | annotated (hi : h.IsInspected c) {t : Text} {names : List Text}
      (hr : Source.read s (.ofText h.readPath) = .ok t)
      (hp : (Parser.ofTag? room h.language).parse t = .ok names) :
    Annotation room c s h ⟨.ok { h with dependencies := some (Dependency.normalize names) },
      [.parsing h.readPath h.language (Parser.ofTag? room h.language)]⟩
  | fault (hi : h.IsInspected c) {t : Text} {e : Manifest.Error}
      (hr : Source.read s (.ofText h.readPath) = .ok t)
      (hp : (Parser.ofTag? room h.language).parse t = .error e) :
    Annotation room c s h
      ⟨.error e, [.parsing h.readPath h.language (Parser.ofTag? room h.language)]⟩

theorem annotate_spec (room : Nat) (c : Config) (s : Store) (h : Heartbeat) :
    Annotation room c s h (h.annotate room c s) := by
  unfold annotate
  cases hf : h.isFile with
  | false => exact .notFile hf
  | true =>
    cases hh : c.hides h.entity with
    | true => exact .hidden hf hh
    | false =>
      cases hl : h.hasKnownLanguage with
      | false => exact .unknownLanguage hf hh hl
      | true =>
        have hi : h.IsInspected c := ⟨hf, hh, hl⟩
        cases hr : Source.read s (.ofText h.readPath) with
        | error e =>
          simpa [detect_of_unreadable hr] using Annotation.unreadable (s := s) hi hr
        | ok t =>
          cases hp : (Parser.ofTag? room h.language).parse t with
          | ok names =>
            simpa [detect_of_ok hr hp] using Annotation.annotated hi hr hp
          | error e =>
            simpa [detect_of_fault hr hp] using Annotation.fault hi hr hp

/-! ## What is kept -/

/-- The heartbeat without its dependencies. -/
def bare (h : Heartbeat) : Heartbeat := { h with dependencies := none }

theorem bare_of_annotate {room : Nat} {c : Config} {s : Store} {h h' : Heartbeat}
    (ha : (h.annotate room c s).outcome = .ok h') : h'.bare = h.bare := by
  have hspec := annotate_spec room c s h
  generalize h.annotate room c s = a at ha hspec
  cases hspec with
  | fault => cases ha
  | _ =>
    obtain rfl := Except.ok.inj ha
    rfl

/-! ## What fails -/

/-- The file of the heartbeat is looked into as a manifest, and given up on. -/
structure HasFault (room : Nat) (c : Config) (s : Store) (h : Heartbeat) (e : Manifest.Error) :
    Prop where
  inspected : h.IsInspected c
  isManifest : Parser.ofTag? room h.language = .json room
  faulty : ∃ t, Source.read s (.ofText h.readPath) = .ok t ∧ Manifest.packages room t = .error e

theorem HasFault.unique {room : Nat} {c : Config} {s : Store} {h : Heartbeat}
    {e e' : Manifest.Error} (hf : h.HasFault room c s e) (hf' : h.HasFault room c s e') :
    e = e' := by
  obtain ⟨t, hr, hm⟩ := hf.faulty
  obtain ⟨t', hr', hm'⟩ := hf'.faulty
  obtain rfl := Except.ok.inj (hr.symm.trans hr')
  exact Except.error.inj (hm.symm.trans hm')

end ImportScan.Heartbeat

namespace ImportScan

namespace Parser

/-- A parser is found under the key of a language that has it. -/
theorem exists_parser?_of_mem_registry {room : Nat} {e : Text × Parser} (h : e ∈ registry room) :
    ∃ l : Language, e.1 = l.key ∧ l.parser? room = some e.2 := by
  obtain ⟨l, -, hl⟩ := List.mem_filterMap.1 h
  obtain ⟨p, hp, rfl⟩ := Option.map_eq_some_iff.1 hl
  exact ⟨l, rfl, hp⟩

/-- The parser of manifests that is looked up has the room that it was told. -/
theorem room_eq_of_ofTag? {room room' : Nat} {tag : Option Text}
    (h : ofTag? room tag = .json room') : room' = room := by
  cases tag with
  | none => cases h
  | some tag =>
    cases hlookup : (registry room).lookup (Text.lower (Text.trim tag)) with
    | none =>
      simp [ofTag?, ofTag, hlookup] at h
    | some p =>
      obtain rfl : p = .json room' := by simpa [ofTag?, ofTag, hlookup] using h
      obtain ⟨front, back, hregistry, -⟩ := List.lookup_eq_some_iff.1 hlookup
      have hmem : (Text.lower (Text.trim tag), Parser.json room') ∈ registry room := by
        simp [hregistry]
      obtain ⟨l, -, hl⟩ := exists_parser?_of_mem_registry hmem
      cases l <;> simp [Language.parser?] at hl
      exact hl.symm

/-- Only the parser of manifests gives up on a text. -/
theorem parse_eq_error_iff {p : Parser} {t : Text} {e : Manifest.Error} :
    p.parse t = .error e ↔ ∃ room, p = .json room ∧ Manifest.packages room t = .error e := by
  unfold parse
  cases p <;> simp [grammar?]

end Parser

namespace Heartbeat

/-- Annotating a heartbeat fails for one reason only. -/
theorem annotate_error_iff {room : Nat} {c : Config} {s : Store} {h : Heartbeat}
    {e : Manifest.Error} : (h.annotate room c s).outcome = .error e ↔ h.HasFault room c s e := by
  constructor
  · intro ha
    have hspec := annotate_spec room c s h
    generalize h.annotate room c s = a at ha hspec
    cases hspec with
    | fault hi hr hp =>
      obtain rfl := Except.error.inj ha
      obtain ⟨room', hj, hm⟩ := Parser.parse_eq_error_iff.1 hp
      obtain rfl := Parser.room_eq_of_ofTag? hj
      exact ⟨hi, hj, _, hr, hm⟩
    | _ => cases ha
  · rintro ⟨⟨hf, hh, hl⟩, hj, t, hr, hm⟩
    have hp := Parser.parse_eq_error_iff.2 ⟨room, hj, hm⟩
    simp [annotate, hf, hh, hl, detect_of_fault hr hp]

/-- Whether there is a fault does not depend on the dependencies. -/
theorem hasFault_congr {room : Nat} {c : Config} {s : Store} {h h' : Heartbeat}
    {e : Manifest.Error} (hb : h'.bare = h.bare) :
    h'.HasFault room c s e ↔ h.HasFault room c s e := by
  have bare_iff (h : Heartbeat) : h.bare.HasFault room c s e ↔ h.HasFault room c s e :=
    ⟨fun ⟨⟨hf, hh, hl⟩, hj, ht⟩ => ⟨⟨hf, hh, hl⟩, hj, ht⟩,
      fun ⟨⟨hf, hh, hl⟩, hj, ht⟩ => ⟨⟨hf, hh, hl⟩, hj, ht⟩⟩
  rw [← bare_iff h', hb, bare_iff]

end Heartbeat
end ImportScan
