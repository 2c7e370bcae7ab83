import ImportScan.Proofs.Layout.Forms
import ImportScan.Proofs.Php.Document

/-!
# Use statements on one line

Behind a text whose blocks are closed and a semicolon, the scan of the braces finds what it would
find at the start of a text: no block is open, and what stands in front of the semicolon says
nothing about the next block (`Neutral`). So the statements behind the semicolon count or do not
count whatever is in front of them (`inside_append`), and the text is read apart (`readsApart`).
-/

namespace ImportScan.Php

open Grammar Pattern Text

variable {h t rest : Text}

/-! ## Heads in front of which it does not matter what stands -/

/-- With the text in front, a head ends in a namespace declaration if it does itself. -/
def Neutral (h : Text) : Prop := ∀ t, endsInNamespace (h ++ t) = endsInNamespace t

theorem neutral_of_forall (happart : h.EndsApart)
    (hstop : ∀ u y v, h = u ++ y :: v → y = 'n' → ';' ∈ v) : Neutral h := by
  intro t
  rw [Bool.eq_iff_iff, endsInNamespace_iff_exists, endsInNamespace_iff_exists]
  constructor
  · rintro ⟨u, r, hur, hu, hr, hend⟩
    rcases List.append_eq_append_iff.1 hur with ⟨w, rfl, rfl⟩ | ⟨w, rfl, hw⟩
    · exact ⟨w, r, rfl, forall_getLast?_of_append hu, hr, hend⟩
    · cases w with
      | nil => exact ⟨[], r, hw.symm, fun c hc => (nomatch hc), hr, hend⟩
      | cons y w =>
        -- the declaration would reach over the end of a statement
        have hy : y = 'n' := (List.cons.inj hw).1.symm
        have hmem : ';' ∈ "namespace".toList ++ r := by
          rw [hw]
          exact List.mem_append_left t (List.mem_cons_of_mem y (hstop u y w rfl hy))
        rcases List.mem_append.1 hmem with hmem | hmem
        · exact absurd hmem (by decide)
        · exact absurd rfl (hend ';' hmem).1
  · rintro ⟨u, r, rfl, hu, hr, hend⟩
    exact ⟨h ++ u, r, (List.append_assoc _ _ _).symm, happart.append hu, hr, hend⟩

theorem neutral_semicolon (h : Text) : Neutral (h ++ [';']) := by
  apply neutral_of_forall
  · intro c hc
    rw [List.getLast?_concat] at hc
    exact Option.some.inj hc ▸ by decide
  · intro u y v huv hy
    rcases List.eq_nil_or_concat v with rfl | ⟨v, z, rfl⟩
    · have hlast := congrArg List.getLast? huv
      rw [List.getLast?_concat, List.getLast?_concat, hy] at hlast
      exact absurd hlast (by decide)
    · have hlast := congrArg List.getLast? huv
      rw [List.concat_eq_append, ← List.cons_append, ← List.append_assoc, List.getLast?_concat,
        List.getLast?_concat] at hlast
      rw [List.concat_eq_append, Option.some.inj hlast]
      exact List.mem_append_right v List.mem_cons_self

theorem neutral_blank {c : Char} (hc : isBlank c = true) : Neutral [c] := by
  apply neutral_of_forall
  · exact Wordless.endsApart fun d hd => by
      rw [List.mem_singleton.1 hd]
      exact isWord_eq_false_of_isBlank hc
  · intro u y v huv hy
    have hmem : y ∈ [c] := huv ▸ List.mem_append_right u List.mem_cons_self
    rw [← List.mem_singleton.1 hmem, hy] at hc
    cases hc

theorem Neutral.append {h' : Text} (hh : Neutral h) (hh' : Neutral h') : Neutral (h ++ h') := by
  intro t
  rw [List.append_assoc, hh, hh']

/-! ## The scan behind such a head -/

theorem blocks_run_neutral (hh : Neutral h) (x : Text) (blocks : List Bool) (t : Text) :
    (BraceState.run ⟨x ++ h.reverse, blocks⟩ t).blocks =
      (BraceState.run ⟨x, blocks⟩ t).blocks := by
  induction t generalizing x with
  | nil => rfl
  | cons c t ih =>
    rw [BraceState.run_cons, BraceState.run_cons]
    by_cases ho : c = '{'
    · have hhead : endsInNamespace (x ++ h.reverse).reverse = endsInNamespace x.reverse := by
        rw [List.reverse_append, List.reverse_reverse, hh]
      rw [BraceState.step, BraceState.step, if_pos ho, if_pos ho, hhead]
    · by_cases hc : c = '}'
      · rw [BraceState.step, BraceState.step, if_neg ho, if_neg ho, if_pos hc, if_pos hc]
      · rw [BraceState.step_of_ne _ ho hc, BraceState.step_of_ne _ ho hc]
        exact ih (c :: x)

/-- The text leaves no block open, and its end says nothing about the next block. -/
def Starts (front : Text) : Prop := ∃ h, braceState front = ⟨h.reverse, []⟩ ∧ Neutral h

theorem starts_semicolon (ht : Balanced t) : Starts (t ++ [';']) := by
  refine ⟨(braceState t).head.reverse ++ [';'], ?_, neutral_semicolon _⟩
  have hblocks : (braceState t).blocks = [] := ht {}
  rw [braceState_append, BraceState.run_cons, BraceState.run_nil,
    BraceState.step_of_ne _ (by decide) (by decide), hblocks, List.reverse_append,
    List.reverse_reverse]
  rfl

theorem starts_nil : Starts [] := ⟨[], rfl, fun _ => rfl⟩

theorem Starts.concat {front : Text} {c : Char} (hf : Starts front) (hc : isBlank c = true) :
    Starts (front ++ [c]) := by
  obtain ⟨h, hstate, hh⟩ := hf
  have hne : c ≠ '{' ∧ c ≠ '}' := by
    constructor <;> rintro rfl <;> cases hc
  refine ⟨h ++ [c], ?_, hh.append (neutral_blank hc)⟩
  rw [braceState_append, hstate, BraceState.run_cons, BraceState.run_nil,
    BraceState.step_of_ne _ hne.1 hne.2, List.reverse_append]
  rfl

/-- Behind such a text the table is that of the rest, farther on. -/
theorem Starts.inside_append {front : Text} (hf : Starts front) (rest : Text) (n : Nat) :
    (bodies (front ++ rest)).inside (front.length + n) = (bodies rest).inside n := by
  obtain ⟨h, hstate, hh⟩ := hf
  have htake : (front ++ rest).take (front.length + n + 1) = front ++ rest.take (n + 1) := by
    rw [Nat.add_assoc, List.take_length_add_append]
  have hrun := blocks_run_neutral hh [] [] (rest.take (n + 1))
  rw [List.nil_append] at hrun
  rw [inside_bodies, inside_bodies, htake, braceState_append, hstate]
  exact congrArg (·.any id) hrun

theorem inside_append_left {front : Text} {n : Nat} (hn : n < front.length) (rest : Text) :
    (bodies (front ++ rest)).inside n = (bodies front).inside n := by
  rw [inside_bodies, inside_bodies, List.take_append_of_le_length hn]

/-! ## One statement after another -/

/-- A block is entered or left at a brace only. -/
theorem inside_zero {c : Char} (hc : c ≠ '{' ∧ c ≠ '}') (t : Text) :
    (bodies (c :: t)).inside 0 = false := by
  rw [inside_bodies, List.take_succ_cons, List.take_zero, braceState, BraceState.run_cons,
    BraceState.run_nil, BraceState.step_of_ne _ hc.1 hc.2]
  rfl

/-- A use statement at the start of a text is in no block. -/
theorem inside_zero_of_matchAt?
    (h : (useStatement.pattern.matchAt? (.between [] t)).isSome = true) :
    (bodies t).inside 0 = false := by
  have hends : useStatement.pattern.ends ⟨.between [] t, []⟩ ≠ [] := by
    intro hends
    rw [matchAt?_eq_none_iff.2 hends] at h
    cases h
  obtain ⟨-, indent, g, r, rfl, hindent, -⟩ := exists_of_ends_ne_nil hends
  cases indent with
  | nil => exact inside_zero ⟨by decide, by decide⟩ _
  | cons c indent =>
    have hgap : isGap c = true := hindent c List.mem_cons_self
    refine inside_zero ⟨?_, ?_⟩ _ <;> rintro rfl <;> cases hgap

theorem scopesApart (ht : Balanced t) : php.ScopesApart t where
  front rest n hn := inside_append_left hn rest
  rest seam hseam rest n := by
    rcases hseam with rfl | rfl
    · rw [List.append_nil]
      exact (starts_semicolon ht).inside_append rest n
    · exact ((starts_semicolon ht).concat (by decide)).inside_append rest n
  start rest s hs hmatch := by
    obtain rfl := List.mem_singleton.1 hs
    have hspace : (bodies (' ' :: rest)).inside 0 = false :=
      inside_zero ⟨by decide, by decide⟩ rest
    exact hspace.trans (inside_zero_of_matchAt? hmatch).symm
  later rest n := by
    have hspace := (starts_nil.concat (c := ' ') (by decide)).inside_append rest n
    rwa [Nat.add_comm] at hspace

/-- The use statements of a text whose blocks are closed are read apart from those behind it. -/
theorem readsApart (ht : php.Plain t) (hbalanced : Balanced t) : php.ReadsApart t :=
  ht.readsApart (by decide) (scopesApart hbalanced)
    (List.forall_mem_singleton.2 sequential_useStatement)

end ImportScan.Php
