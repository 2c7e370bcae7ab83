import ImportScan.Proofs.Grammar.Gap
import ImportScan.Proofs.Lexis.Filler

/-!
# Statements ended by semicolons

Behind a semicolon a statement may start, whatever stands in front of it. If in a text a form of
statement never leads over the next semicolon (`Pattern.StaysIn`), and no test of the form notices
what is in front of one (`Afresh`), then a semicolon behind the text is a seam, whether the next
statement stands on the same line or on a new one (`Sequential.splits`). So the text imports what it
does up to the semicolon and then what the rest does (`imports_semicolon`).
-/

namespace ImportScan

open Text

namespace Pattern

/-! ## Up to the semicolon -/

section Stays

variable {ι : Type} [DecidableEq ι] {P : Char → Prop} {p q : Pattern ι} {t e b : Text}

/-- What is left of `t` at a place in it, and then `e`. -/
def LeftOf (t e v : Text) : Prop := ∃ w, w <:+ t ∧ v = w ++ e

theorem LeftOf.ne_nil {v : Text} (h : LeftOf t e v) (he : e ≠ []) : v ≠ [] := by
  obtain ⟨w, -, rfl⟩ := h
  exact List.append_ne_nil_of_right_ne_nil w he

theorem seam_leftOf (he : e ≠ []) (hP : ∀ x ∈ e.head?, ¬P x) : Seam P (LeftOf t e) b where
  tail := by
    rintro x v hx ⟨w, hw, hv⟩
    cases w with
    | nil =>
      rw [List.nil_append] at hv
      exact absurd hx (hP x (hv ▸ rfl))
    | cons y w =>
      obtain ⟨rfl, rfl⟩ := List.cons.inj hv
      exact ⟨w, (List.suffix_cons x w).trans hw, rfl⟩
  stop h := absurd rfl (h.ne_nil he)

/-- Whether a test holds depends on what stands before the place and on the next character, and not
on what is in front of a semicolon before it, perhaps with the end of the line in between. -/
structure Afresh (test : Cursor → Bool) : Prop where
  near : ∀ c c' : Cursor, c.before = c'.before → c.after.head? = c'.after.head? → test c = test c'
  afresh : ∀ (a : Text) (c : Cursor), test (c.behind (a ++ [';'])) = test c
  afreshLine : ∀ (a : Text) (c : Cursor), test (c.behind (a ++ [';', '\n'])) = test c

theorem Afresh.eq_of_alongside {test : Cursor → Bool} (h : Afresh test) {live : Text → Prop}
    (hlive : ∀ v, live v → v ≠ []) {c c' : Cursor} (hc : Alongside live b c c') :
    test c = test c' := by
  obtain ⟨a, v, hv, rfl, rfl⟩ := hc
  obtain ⟨x, v, rfl⟩ := List.exists_cons_of_ne_nil (hlive v hv)
  exact h.near _ _ rfl rfl

/-- What does not lead out of `t` has corresponding ends whether more follows or not. -/
theorem carries_leftOf (he : e ≠ []) (htakes : p.Takes P) (hP : ∀ x ∈ e.head?, ¬P x)
    (hp : p.BuiltOn Afresh) :
    p.Carries (Alongside (LeftOf t e) b) (Alongside (LeftOf t e) b) :=
  carries_alongside (seam_leftOf he hP)
    (fun _ htest _ _ hc => htest.eq_of_alongside (fun _ hv => hv.ne_nil he) hc) htakes hp

/-- One character leads to what may stand behind it. -/
theorem carries_one_to {live live' : Text → Prop} {c : Char → Bool}
    (hlive : ∀ v, live v → v ≠ []) (hnext : ∀ x v, c x = true → live (x :: v) → live' v) :
    (Pattern.one c : Pattern ι).Carries (Alongside live b) (Alongside live' b) := by
  rintro s s' ⟨a, v, hv, hs, hs'⟩ ht
  obtain ⟨x, v, rfl⟩ := List.exists_cons_of_ne_nil (hlive v hv)
  have hafter : s.cursor.after = x :: (v ++ b) := by
    rw [hs]
    rfl
  have hafter' : s'.cursor.after = x :: v := by
    rw [hs']
    rfl
  rw [ends_one hafter, ends_one hafter']
  by_cases hx : c x = true
  · rw [if_pos hx, if_pos hx]
    refine .cons ⟨⟨[x], v ++ b, v, hafter, hafter', rfl, rfl⟩, ?_, ht⟩ .nil
    refine ⟨a ++ [x], v, hnext x v hx hv, ?_, ?_⟩
    · rw [Point.cursor_skip, hs]
      exact Cursor.skip_between a [x] (v ++ b)
    · rw [Point.cursor_skip, hs']
      exact Cursor.skip_between a [x] v
  · rw [if_neg hx, if_neg hx]
    exact .nil

/-! ### Brackets -/

/-- Every opening bracket has a closing one behind it in the text. -/
def Closed (opener closer : Char) : Text → Prop
  | [] => True
  | x :: t => (x = opener → closer ∈ t) ∧ Closed opener closer t

instance Closed.decidable (opener closer : Char) : (t : Text) → Decidable (Closed opener closer t)
  | [] => inferInstanceAs (Decidable True)
  | _ :: t =>
    have := Closed.decidable opener closer t
    inferInstanceAs (Decidable (_ ∧ _))

/-- A place in `t` that has the closing bracket behind it. -/
def LeftOpen (closer : Char) (t e v : Text) : Prop := ∃ w, w <:+ t ∧ closer ∈ w ∧ v = w ++ e

variable {o c : Char}

theorem Closed.mem {u w : Text} (h : Closed o c (u ++ o :: w)) : c ∈ w := by
  induction u with
  | nil => exact h.1 rfl
  | cons x u ih => exact ih h.2

theorem LeftOpen.ne_nil {v : Text} (h : LeftOpen c t e v) : v ≠ [] := by
  obtain ⟨w, -, hc, rfl⟩ := h
  exact List.append_ne_nil_of_left_ne_nil (List.ne_nil_of_mem hc) e

theorem seam_leftOpen : Seam (· ≠ c) (LeftOpen c t e) b where
  tail := by
    rintro x v hx ⟨w, hw, hc, hv⟩
    obtain ⟨y, w, rfl⟩ := List.exists_cons_of_ne_nil (List.ne_nil_of_mem hc)
    obtain ⟨rfl, rfl⟩ := List.cons.inj hv
    refine ⟨w, (List.suffix_cons x w).trans hw, ?_, rfl⟩
    exact (List.mem_cons.1 hc).resolve_left (Ne.symm hx)
  stop h := absurd rfl h.ne_nil

theorem carries_opener (hclosed : Closed o c t) (he : e ≠ []) (ho : e.head? ≠ some o) :
    (char o : Pattern ι).Carries (Alongside (LeftOf t e) b) (Alongside (LeftOpen c t e) b) := by
  refine carries_one_to (fun _ hv => hv.ne_nil he) ?_
  rintro x v hx ⟨w, ⟨u, hw⟩, hv⟩
  obtain rfl := eq_of_beq hx
  cases w with
  | nil => exact absurd (congrArg List.head? hv).symm ho
  | cons y w =>
    obtain ⟨rfl, rfl⟩ := List.cons.inj hv
    exact ⟨w, ⟨u ++ [x], by rw [← hw, List.append_assoc]; rfl⟩, Closed.mem (hw ▸ hclosed), rfl⟩

theorem carries_closer : (char c : Pattern ι).Carries (Alongside (LeftOpen c t e) b)
    (Alongside (LeftOf t e) b) := by
  refine carries_one_to (fun _ hv => hv.ne_nil) ?_
  rintro x v - ⟨w, hw, hc, hv⟩
  obtain ⟨y, w, rfl⟩ := List.exists_cons_of_ne_nil (List.ne_nil_of_mem hc)
  obtain ⟨rfl, rfl⟩ := List.cons.inj hv
  exact ⟨w, (List.suffix_cons x w).trans hw, rfl⟩

/-- What stands in brackets does not lead out of a text whose brackets are closed. -/
theorem carries_brackets {f : Char → Bool} (hf : ∀ x, f x = true → x ≠ c) (hclosed : Closed o c t)
    (he : e ≠ []) (ho : e.head? ≠ some o) : (char o ++ some0 f ++ char c : Pattern ι).Carries
      (Alongside (LeftOf t e) b) (Alongside (LeftOf t e) b) :=
  ((carries_opener hclosed he ho).append (seam_leftOpen.carries_run hf true 0)).append
    carries_closer

/-- From within `t` the pattern goes no farther than the semicolon behind it. -/
def StaysIn (p : Pattern ι) (t : Text) : Prop :=
  ∀ b, p.Carries (Alongside (LeftOf t [';']) b) (Alongside (fun _ => True) b)

theorem Carries.staysIn (h : ∀ b, p.Carries (Alongside (LeftOf t [';']) b)
    (Alongside (LeftOf t [';']) b)) : p.StaysIn t :=
  fun b => (h b).mono (fun _ _ hc => hc) fun _ _ hc => hc.mono fun _ _ => trivial

theorem carries_inside (hp : p.BuiltOn Afresh) (h : p.excludes ';' = true) :
    p.Carries (Alongside (LeftOf t [';']) b) (Alongside (LeftOf t [';']) b) :=
  carries_leftOf (List.cons_ne_nil _ _) (takes_of_excludes h) (by simp) hp

theorem Carries.staysIn_semicolon (h : ∀ b, p.Carries (Alongside (LeftOf t [';']) b)
    (Alongside (LeftOf t [';']) b)) : (p ++ char ';').StaysIn t :=
  fun b => (h b).append
    (carries_one_to (fun _ hv => hv.ne_nil (List.cons_ne_nil _ _)) fun _ _ _ _ => trivial)

end Stays

end Pattern

/-! ## One statement after another -/

namespace Grammar

open Pattern

variable {g : Grammar} {s : Statement} {t rest : Text}

/-- A form of statement that in the text `t` goes no farther than the semicolon behind it, and that
starts anew behind that. -/
structure Sequential (t : Text) (s : Statement) : Prop where
  stays : s.pattern.StaysIn t
  tests : s.pattern.BuiltOn Afresh
  gapped : s.pattern.Gapped ' '
  needs : s.pattern.Needs fun c => isBlank c = false
  names : ReadsParts s

theorem leftOf_of_suffix {w : Text} (hw : w <:+ t ++ [';']) (hne : w ≠ []) : LeftOf t [';'] w := by
  rcases List.suffix_concat_iff.1 hw with rfl | ⟨v, rfl, hv⟩
  · exact absurd rfl hne
  · exact ⟨v, hv, rfl⟩

theorem Sequential.splits (hs : Sequential t s) (rest : Text) :
    Splits s (t ++ [';']) [] rest ∧ Splits s (t ++ [';']) ['\n'] rest := by
  constructor
  · refine splits_of_carries (hs.stays _) (fun _ => leftOf_of_suffix) hs.needs ?_ ?_ hs.names
    · intro u x v huv
      simp at huv
    · rw [List.append_nil]
      exact hs.tests.overlooks fun _ htest => htest.afresh t
  · refine splits_of_carries (hs.stays _) (fun _ => leftOf_of_suffix) hs.needs ?_ ?_ hs.names
    · obtain ⟨test, q, hq⟩ := hs.gapped
      have hnone : (Pattern.here test ++ gaps0 ++ q).NoneIn (t ++ [';']) ['\n'] rest :=
        noneIn_blanks hq.upfront (List.forall_mem_singleton.2 (by decide))
          (.inr ⟨'\n', rfl, by decide⟩)
      exact hnone.congr hq.ends
    · rw [List.append_assoc]
      exact hs.tests.overlooks fun _ htest => htest.afreshLine t

/-- The text has no openers of comments and strings. -/
def Plain (g : Grammar) (t : Text) : Prop := ∀ c ∈ t, ∀ m ∈ g.lexis.openers, c ≠ m.head

instance : Decidable (g.Plain t) :=
  inferInstanceAs (Decidable (∀ c ∈ t, ∀ m ∈ g.lexis.openers, c ≠ m.head))

/-- What is put between two statements is code. -/
def Separable (g : Grammar) : Prop :=
  ∀ c ∈ [';', ' ', '\n'], ∀ m ∈ g.lexis.openers, c ≠ m.head

instance : Decidable g.Separable :=
  inferInstanceAs (Decidable (∀ c ∈ [';', ' ', '\n'], ∀ m ∈ g.lexis.openers, c ≠ m.head))

/-- With a semicolon and a space or the end of the line behind it, the text is read apart from the
rest. -/
def ReadsApart (g : Grammar) (t : Text) : Prop :=
  ∀ c, c = ' ' ∨ c = '\n' → ∀ rest,
    g.imports (t ++ ';' :: c :: rest) = g.imports (t ++ [';']) ++ g.imports rest

theorem Plain.cleaned_semicolon (ht : g.Plain t) (hg : g.Separable) (contents : StringContents)
    (rest : Text) : g.lexis.cleaned contents (t ++ ';' :: rest) =
      t ++ ';' :: g.lexis.cleaned contents rest := by
  have hcode : ∀ c ∈ t ++ [';'], ∀ m ∈ g.lexis.openers, c ≠ m.head := by
    intro c hc
    rcases List.mem_append.1 hc with hc | hc
    · exact ht c hc
    · exact hg c (List.mem_singleton.1 hc ▸ List.mem_cons_self)
  have hclean := Lexis.cleaned_code_append hcode contents rest
  rwa [List.append_assoc, List.append_assoc] at hclean

/-- What stands between two statements is left as it is. -/
theorem Separable.cleaned_cons (hg : g.Separable) {c : Char} (hc : c = ' ' ∨ c = '\n')
    (contents : StringContents) (rest : Text) :
    g.lexis.cleaned contents (c :: rest) = c :: g.lexis.cleaned contents rest := by
  have hcode : ∀ d ∈ [c], ∀ m ∈ g.lexis.openers, d ≠ m.head := by
    intro d hd
    refine hg d ?_
    rcases hc with rfl | rfl <;> simp [List.mem_singleton.1 hd]
  exact Lexis.cleaned_code_append hcode contents rest

/-- The scopes in front of the semicolon of `t` and those behind it do not depend on each other, nor
does a space in front of a text change its scopes. -/
structure ScopesApart (g : Grammar) (t : Text) : Prop where
  front : ∀ rest, ∀ n < (t ++ [';']).length,
    (g.scopes (t ++ [';'] ++ rest)).inside n = (g.scopes (t ++ [';'])).inside n
  rest : ∀ seam, seam = [] ∨ seam = ['\n'] → ∀ rest n,
    (g.scopes (t ++ [';'] ++ seam ++ rest)).inside ((t ++ [';'] ++ seam).length + n) =
      (g.scopes rest).inside n
  start : ∀ rest, ∀ s ∈ g.statements, (s.pattern.matchAt? (.between [] rest)).isSome = true →
    (g.scopes (' ' :: rest)).inside 0 = (g.scopes rest).inside 0
  later : ∀ rest n, (g.scopes (' ' :: rest)).inside (n + 1) = (g.scopes rest).inside n

theorem scopesApart_of_forall (h : ∀ t, g.scopes t = []) (t : Text) : g.ScopesApart t := by
  constructor <;> simp only [h, Scopes.inside] <;> simp

/-- The statements of a plain text are read apart from those behind its semicolon. -/
theorem Plain.readsApart (ht : g.Plain t) (hg : g.Separable) (hscopes : g.ScopesApart t)
    (hforms : ∀ s ∈ g.statements, Sequential t s) : g.ReadsApart t := by
  have halone (contents : StringContents) : g.lexis.cleaned contents (t ++ [';']) = t ++ [';'] := by
    rw [ht.cleaned_semicolon hg, Lexis.cleaned_nil]
  have happart {seam : Text} (hseam : seam = [] ∨ seam = ['\n']) (rest : Text) :
      g.imports (t ++ [';'] ++ (seam ++ rest)) = g.imports (t ++ [';']) ++ g.imports rest := by
    have hclean (contents : StringContents) :
        g.lexis.cleaned contents (t ++ [';'] ++ (seam ++ rest)) =
          t ++ [';'] ++ (seam ++ g.lexis.cleaned contents rest) := by
      rw [List.append_assoc, List.singleton_append, ht.cleaned_semicolon hg]
      rcases hseam with rfl | rfl
      · simp
      · rw [List.singleton_append, hg.cleaned_cons (.inr rfl)]
        simp
    rw [imports_eq_namesIn, imports_eq_namesIn, imports_eq_namesIn, halone, halone, hclean, hclean]
    refine namesIn_append rfl rfl (hscopes.front _) (fun n => ?_) fun s hs => ?_
    · rw [← List.append_assoc (t ++ [';'])]
      exact hscopes.rest seam hseam _ n
    · obtain ⟨hnone, hline⟩ := (hforms s hs).splits (g.lexis.cleaned g.strings rest)
      rcases hseam with rfl | rfl
      · exact hnone
      · exact hline
  rintro c (rfl | rfl) rest
  · -- the space goes to the statement behind it
    have hspace : g.imports (' ' :: rest) = g.imports rest := by
      rw [imports_eq_namesIn, imports_eq_namesIn, hg.cleaned_cons (.inl rfl),
        hg.cleaned_cons (.inl rfl)]
      exact namesIn_gap_cons ' ' (by decide)
        (fun s hs => ⟨(hforms s hs).gapped, (hforms s hs).names⟩) (hscopes.start _)
        (hscopes.later _)
    have hsplit := happart (.inl rfl) (' ' :: rest)
    rw [hspace, List.append_assoc] at hsplit
    exact hsplit
  · have hsplit := happart (.inr rfl) rest
    rw [List.append_assoc] at hsplit
    exact hsplit

end Grammar
end ImportScan
