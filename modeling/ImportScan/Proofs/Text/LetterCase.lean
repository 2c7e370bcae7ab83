import ImportScan.Proofs.Text.HasWord
import ImportScan.Text.Case

/-!
# Letter case of marks and white space

Lower case leaves white space as it is, so trimming and lower case do not disturb each other
(`lower_eq_iff_of_solid`). Only letters differ in case: a character that is folded to a mark of
ASCII below the small letters is that mark (`eq_of_fold_eq`).
-/

namespace ImportScan.Text

/-! ## Lower case -/

theorem lower_append (a b : Text) : lower (a ++ b) = lower a ++ lower b := List.flatMap_append

theorem lower_eq_self_of_allBlank {t : Text} (ht : AllBlank t) : lower t = t := by
  have hcodes : ∀ n ∈ blankCodes, n ≠ 0x130 ∧ lowerChar (Char.ofNat n) = Char.ofNat n := by
    decide +kernel
  induction t with
  | nil => rfl
  | cons c t ih =>
    obtain ⟨hdot, hchar⟩ := hcodes _ (toNat_mem_blankCodes (ht c List.mem_cons_self))
    rw [Char.ofNat_toNat] at hchar
    have hrest : lower t = t := ih fun d hd => ht d (List.mem_cons_of_mem c hd)
    unfold lower at hrest ⊢
    rw [List.flatMap_cons, if_neg hdot, hchar, hrest, List.singleton_append]

instance (t : Text) : Decidable (IsTrimmed t) :=
  decidable_of_iff (trim t = t) ⟨fun h => h ▸ isTrimmed_trim t, trim_eq_self⟩

/-- The lower case of a text is one without white space just if that is the lower case of what
trimming leaves, and trimming leaves everything. -/
theorem lower_eq_iff_of_solid {t k : Text} (hk : ∀ c ∈ k, isBlank c = false) :
    lower t = k ↔ lower (trim t) = k ∧ IsTrimmed t := by
  constructor
  · rintro rfl
    obtain ⟨u, v, ht, hu, hv⟩ := exists_eq_append_trim t
    have hlower : lower t = u ++ (lower (trim t) ++ v) := by
      conv_lhs => rw [ht, lower_append, lower_append]
      rw [lower_eq_self_of_allBlank hu, lower_eq_self_of_allBlank hv]
    have hnil {b : Text} (hb : AllBlank b) (hsub : b ⊆ lower t) : b = [] := by
      refine List.eq_nil_iff_forall_not_mem.2 fun c hc => ?_
      exact absurd (hk c (hsub hc)) (by simp [hb c hc])
    obtain rfl := hnil hu fun c hc => hlower ▸ List.mem_append_left _ hc
    obtain rfl := hnil hv fun c hc => hlower ▸ List.mem_append_right _ (List.mem_append_right _ hc)
    rw [List.nil_append, List.append_nil] at ht
    exact ⟨congrArg lower ht.symm, ht ▸ isTrimmed_trim t⟩
  · rintro ⟨hlower, ht⟩
    rwa [trim_eq_self ht] at hlower

/-! ## Folding -/

/-- A code point of no mark: none at all, or one from the small letters on. -/
def BeyondMarks (n : Nat) : Prop := n = 0 ∨ 0x61 ≤ n

theorem beyondMarks_toNat_ofNat {n : Nat} (h : 0x61 ≤ n) : BeyondMarks (Char.ofNat n).toNat := by
  by_cases hvalid : n.isValidChar
  · have hchar : Char.ofNat n = Char.ofNatAux n hvalid := dif_pos hvalid
    exact hchar ▸ .inr h
  · have hchar : Char.ofNat n = Char.ofNat 0 := dif_neg hvalid
    exact hchar ▸ .inl rfl

theorem lowerChar_cases (c : Char) : lowerChar c = c ∨ BeyondMarks (lowerChar c).toNat := by
  have himages : ∀ r ∈ caseRuns, 0x61 ≤ r.image := by decide +kernel
  unfold lowerChar
  split
  · split
    · rename_i hletter
      rw [Bool.and_eq_true, decide_eq_true_eq, decide_eq_true_eq] at hletter
      exact .inr (beyondMarks_toNat_ofNat (by omega))
    · exact .inl rfl
  · split
    · rename_i r hr
      have := himages r (List.mem_of_find?_eq_some hr)
      exact .inr (beyondMarks_toNat_ofNat (by omega))
    · exact .inl rfl

theorem fold_cases (c : Char) : fold c = c ∨ BeyondMarks (fold c).toNat := by
  have himages : ∀ p ∈ kinPairs, 0x61 ≤ p.2 := by decide
  unfold fold
  dsimp only
  split
  · rename_i n hn
    obtain ⟨front, rest, hpairs, -⟩ := List.lookup_eq_some_iff.1 hn
    have hmem : ((lowerChar c).toNat, n) ∈ kinPairs :=
      hpairs ▸ List.mem_append_right front List.mem_cons_self
    exact .inr (beyondMarks_toNat_ofNat (himages _ hmem))
  · exact lowerChar_cases c

/-- Only a mark is folded to it. -/
theorem eq_of_fold_eq {c m : Char} (hm : ¬BeyondMarks m.toNat) (h : fold c = m) : c = m := by
  subst h
  exact ((fold_cases c).resolve_right hm).symm

theorem fold_eq_self_of_isBlank {c : Char} (hc : isBlank c = true) : fold c = c := by
  have hcodes : ∀ n ∈ blankCodes, fold (Char.ofNat n) = Char.ofNat n := by decide +kernel
  have hchar := hcodes _ (toNat_mem_blankCodes hc)
  rwa [Char.ofNat_toNat] at hchar

/-- What is folded to a character of a text without white space is none. -/
theorem isBlank_eq_false_of_fold_mem {c : Char} {k : Text} (hk : ∀ x ∈ k, isBlank x = false)
    (h : fold c ∈ k) : isBlank c = false := by
  cases hc : isBlank c with
  | false => rfl
  | true => exact hc.symm.trans (hk c (fold_eq_self_of_isBlank hc ▸ h))

end ImportScan.Text
