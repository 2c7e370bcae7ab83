/-!
# Texts

A text is the list of its characters, so a length or an offset counts characters. A class of
characters that follows no rule is a table of ranges of code points (`Ranges`). The ways to cut a
text are those that the readers of names and lists share: at the first occurrence of a separator
(`before`), at every character of a class (`fields`), and behind the last occurrence of a character
(`dropExtension`).
-/

namespace ImportScan

/-- A text, as the list of its characters. -/
abbrev Text := List Char

/-- One name for the fact that looking for a text in a list rests on. -/
instance : LawfulBEq Text := inferInstance

namespace Text

/-! ## Classes of characters -/

/-- Closed ranges of code points, in ascending order. -/
abbrev Ranges := List (Nat × Nat)

/-- Whether the code point of `c` lies in one of the ranges. -/
def Ranges.holds (rs : Ranges) (c : Char) : Bool :=
  rs.any fun r => r.1 ≤ c.toNat && c.toNat ≤ r.2

/-! ## Cutting at a separator -/

/-- What stands before the first occurrence of `sep`; the whole text if there is none. -/
def before (sep : Text) : Text → Text
  | [] => []
  | c :: rest => if sep.isPrefixOf (c :: rest) then [] else c :: before sep rest

/-- The pieces with `c` put before the first. -/
def extendFirst (c : Char) : List Text → List Text
  | [] => [[c]]
  | piece :: pieces => (c :: piece) :: pieces

/-- The pieces between the characters that satisfy `isSep`, empty ones included: always at least
one. -/
def fields (isSep : Char → Bool) : Text → List Text
  | [] => [[]]
  | c :: rest =>
    if isSep c then [] :: fields isSep rest else extendFirst c (fields isSep rest)

/-- The text without its last `mark` and what follows it; the whole text if it has no `mark`. -/
def dropExtension (mark : Char) (t : Text) : Text :=
  match t.reverse.dropWhile (· ≠ mark) with
  | [] => t
  | _ :: front => front.reverse

/-- The text without any `c`. -/
def without (c : Char) (t : Text) : Text := t.filter (· ≠ c)

/-- The texts with `sep` between them. -/
def join (sep : Text) (ts : List Text) : Text := List.intercalate sep ts

/-- What holds of all characters of a text is decided on these alone, and not by going through all
characters there are. -/
instance decidableForallMem {p : Char → Prop} [DecidablePred p] (t : Text) :
    Decidable (∀ c ∈ t, p c) := List.decidableBAll p t

/-! ## Laws -/

@[simp] theorem before_nil (sep : Text) : before sep [] = [] := rfl

theorem before_isPrefix (sep t : Text) : before sep t <+: t := by
  induction t with
  | nil => exact List.prefix_refl _
  | cons c rest ih =>
    unfold before
    split
    · exact List.nil_prefix
    · exact (List.prefix_cons_inj c).2 ih

theorem mem_extendFirst {c : Char} {pieces : List Text} {piece : Text}
    (h : piece ∈ extendFirst c pieces) :
    (∃ first ∈ [] :: pieces, piece = c :: first) ∨ piece ∈ pieces := by
  cases pieces with
  | nil =>
    simp only [extendFirst, List.mem_singleton] at h
    exact .inl ⟨[], by simp, h⟩
  | cons first others =>
    rcases List.mem_cons.1 h with rfl | h
    · exact .inl ⟨first, by simp, rfl⟩
    · exact .inr (List.mem_cons_of_mem _ h)

/-- No piece holds a separating character. -/
theorem isSep_eq_false_of_mem_fields {isSep : Char → Bool} {t piece : Text} {c : Char}
    (hp : piece ∈ fields isSep t) (hc : c ∈ piece) : isSep c = false := by
  induction t generalizing piece with
  | nil => simp_all [fields]
  | cons d rest ih =>
    unfold fields at hp
    split at hp
    · rcases List.mem_cons.1 hp with rfl | hp
      · cases hc
      · exact ih hp hc
    · rename_i hd
      rcases mem_extendFirst hp with ⟨first, hf, rfl⟩ | hp
      · rcases List.mem_cons.1 hc with rfl | hc
        · simpa using hd
        · rcases List.mem_cons.1 hf with rfl | hf
          · cases hc
          · exact ih hf hc
      · exact ih hp hc

end Text
end ImportScan
