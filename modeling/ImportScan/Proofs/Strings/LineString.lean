import ImportScan.Proofs.Grammar.Indented
import ImportScan.Proofs.Grammar.Lines
import ImportScan.Proofs.Lexis.Filler
import ImportScan.Proofs.Lexis.Token

/-!
# Lines with a string

A line in which no statement starts, and behind which one may, changes nothing of what is found
behind it (`imports_behind_silentLine`). A line of code with a string is such a line, whether the
string has its closing quote or ends with the line (`HasLineStrings.imports_stringLine`).
-/

namespace ImportScan.Grammar

open Pattern Text

/-! ## Silent lines -/

/-- A form of statement that starts where a statement may, behind spaces and tabs, with one of a few
characters. -/
structure StartsAmong (marks heads : Text) (s : Statement) : Prop where
  ends : ∃ q : Pattern Part, q.Heads (· ∈ heads) ∧
    ∀ p, s.pattern.ends p = (statementStart marks ++ q).ends p
  tests : s.pattern.BuiltOn AsksLine
  names : ReadsParts s

/-- A line without the start of a statement: it starts with another character than statements do,
behind none of its characters may a statement start, and its ending is such that none starts
there. -/
structure SilentLine (marks heads t : Text) : Prop where
  split : ∃ x line ending, t = x :: line ++ ending ∧ (∀ c ∈ x :: line, Quiet marks c) ∧
    ∀ c ∈ x :: ending, isGap c = false ∧ c ∉ heads
  ends : EndsLine t

variable {marks heads : Text} {s : Statement}

/-- Where a statement matches one of its first characters follows, perhaps behind a gap. -/
theorem StartsAmong.exists_of_ends_ne_nil (hs : StartsAmong marks heads s) {p : Point Part}
    (h : s.pattern.ends p ≠ []) : mayStart marks p.cursor = true ∧ ∃ gap x rest,
      p.cursor.after = gap ++ x :: rest ∧ (∀ c ∈ gap, isGap c = true) ∧ x ∈ heads := by
  obtain ⟨q, hq, hends⟩ := hs.ends
  rw [hends] at h
  obtain ⟨e, he⟩ := List.exists_mem_of_ne_nil _ h
  obtain ⟨m, hm, he⟩ := mem_ends_append.1 he
  obtain ⟨m', hstart, hgaps⟩ := mem_ends_append.1 hm
  obtain ⟨htest, rfl⟩ := mem_ends_here.1 hstart
  obtain ⟨gap, rest, hafter, hgap, -, rfl⟩ := mem_ends_run.1 hgaps
  obtain ⟨x, hx, hhead⟩ := hq _ (List.ne_nil_of_mem he)
  rw [Point.after_skip_of_eq hafter] at hx
  obtain ⟨rest, rfl⟩ := List.head?_eq_some_iff.1 hx
  exact ⟨htest, gap, x, rest, hafter, hgap, hhead⟩

/-- A statement starts at no other character. -/
theorem StartsAmong.ends_eq_nil (hs : StartsAmong marks heads s) {a b : Text} {x : Char}
    (hx : isGap x = false ∧ x ∉ heads) : s.pattern.ends ⟨.between a (x :: b), []⟩ = [] := by
  by_contra hne
  obtain ⟨-, gap, y, rest, hafter, hgap, hy⟩ := hs.exists_of_ends_ne_nil hne
  cases gap with
  | nil => exact hx.2 ((List.cons.inj hafter).1 ▸ hy)
  | cons c gap =>
    have hc := hgap c List.mem_cons_self
    rw [← (List.cons.inj hafter).1, hx.1] at hc
    cases hc

theorem StartsAmong.noneIn (hs : StartsAmong marks heads s) {t : Text}
    (ht : SilentLine marks heads t) (a b : Text) : s.pattern.NoneIn a t b := by
  obtain ⟨x, line, ending, rfl, hquiet, hother⟩ := ht.split
  have hfirst : s.pattern.NoneIn (a ++ [x]) line (ending ++ b) :=
    noneIn_of_mayStart (fun _ hne => (hs.exists_of_ends_ne_nil hne).1)
      (hquiet x List.mem_cons_self) fun c hc => hquiet c (List.mem_cons_of_mem x hc)
  refine NoneIn.append (hfirst.cons (hs.ends_eq_nil (hother x List.mem_cons_self))) ?_
  intro u y v huv
  exact hs.ends_eq_nil (hother y (List.mem_cons_of_mem x (by simp [huv])))

variable {g : Grammar} {front rest : Text}

/-- Behind a text that cleaning leaves as a silent line the imports are the same. -/
theorem imports_behind_silentLine (hg : ∀ s ∈ g.statements, StartsAmong marks heads s)
    (cleanFront : StringContents → Text)
    (hclean : ∀ contents, g.lexis.cleaned contents (front ++ rest) =
      cleanFront contents ++ g.lexis.cleaned contents rest)
    (hscopes : ∀ t n, (g.scopes (cleanFront g.strings ++ t)).inside
      ((cleanFront g.strings).length + n) = (g.scopes t).inside n)
    (hsilent : SilentLine marks heads (cleanFront g.strings)) :
    g.imports (front ++ rest) = g.imports rest := by
  refine imports_behind_of_inside cleanFront hclean (hscopes _) (fun s hs => ?_) fun s hs m => ?_
  · have hoverlooks : s.pattern.Overlooks (cleanFront g.strings) :=
      (hg s hs).tests.overlooks fun test htest => htest.behind hsilent.ends
    exact matchesIn_behind hoverlooks ((hg s hs).noneIn hsilent _ _)
  · exact (hg s hs).names _ _ (Match.part?_behind _ m)

/-! ## A line with a string -/

/-- Whether the text may stand in a string on one line as it is. -/
def StaysInString (t : Text) : Prop := ∀ c ∈ t, c ≠ '"' ∧ c ≠ '\\' ∧ c ≠ '\n'

/-- A string in double quotes that its quote or its line ends. -/
def stringToken : (closed : Bool) → Text → Token
  | true, t => .closedString .doubleQuote (t.map .plain)
  | false, t => .openString .doubleQuote t

/-- What ends the line behind the string. -/
def stringEnd : (closed : Bool) → Text
  | true => [';', '\n']
  | false => ['\n']

theorem fitsIn_of_staysInString {t : Text} (ht : StaysInString t) (multiline : Bool) :
    ∀ c ∈ t, (StringUnit.plain c).FitsIn .doubleQuote multiline := by
  intro c hc
  obtain ⟨hquote, hback, hline⟩ := ht c hc
  exact ⟨by simpa [Marker.doubleQuote, Marker.text] using hquote, hback, fun _ => hline⟩

theorem isOf_stringToken {lx : Lexis} (hq : Marker.doubleQuote ∈ lx.quotes) {t : Text}
    (ht : StaysInString t) (closed : Bool) : (stringToken closed t).IsOf lx := by
  cases closed with
  | true =>
    refine ⟨List.mem_append_left _ hq, fun u hu => ?_⟩
    obtain ⟨c, hc, rfl⟩ := List.mem_map.1 hu
    exact fitsIn_of_staysInString ht _ c hc
  | false => exact ⟨hq, fitsIn_of_staysInString ht false⟩

theorem of_mem_shown_stringToken {t : Text} (ht : StaysInString t) {closed : Bool} {c : Char}
    (hc : c ∈ (stringToken closed t).shown .blanked) : c = '"' ∨ c = ' ' := by
  have hblanked {c : Char} (hc : c ∈ t.blanked) : c = ' ' := by
    obtain ⟨d, hd, rfl⟩ := List.mem_map.1 hc
    exact if_neg (ht d hd).2.2
  cases closed with
  | true =>
    have hcases : c = '"' ∨ c ∈ t.blanked ∨ c = '"' := by
      simpa [stringToken, Token.shown, Text.ofUnits_plain, Marker.doubleQuote, Marker.text] using hc
    rcases hcases with h | h | h
    · exact .inl h
    · exact .inr (hblanked h)
    · exact .inl h
  | false =>
    have hcases : c = '"' ∨ c ∈ t.blanked := by
      simpa [stringToken, Token.shown, Marker.doubleQuote, Marker.text] using hc
    exact hcases.imp id hblanked

/-- The characters that may stand right before a statement on its line. -/
def statementMarks : Text := [';', '{', '}']

/-- What is asked of a language whose strings in double quotes end with the line. -/
structure HasLineStrings (g : Grammar) (heads : Text) : Prop where
  regular : g.lexis.Regular
  quote : Marker.doubleQuote ∈ g.lexis.quotes
  strings : g.strings = .blanked
  statements : ∀ s ∈ g.statements, StartsAmong statementMarks heads s
  ending : ∀ c ∈ [';', '\n'], (isGap c = false ∧ c ∉ heads) ∧ ∀ m ∈ g.lexis.openers, c ≠ m.head

/-- A line of code and a string. -/
def stringLine (code t : Text) (closed : Bool) : Text :=
  code ++ ((stringToken closed t).source ++ stringEnd closed)

/-- What cleaning leaves of the line. -/
def shownLine (code t : Text) (closed : Bool) (contents : StringContents) : Text :=
  code ++ ((stringToken closed t).shown contents ++ stringEnd closed)

variable {code t : Text}

theorem endsLine_shownLine (closed : Bool) (contents : StringContents) :
    EndsLine (shownLine code t closed contents) := by
  have hne : stringEnd closed ≠ [] := by cases closed <;> exact List.cons_ne_nil _ _
  have hlast : EndsLine (stringEnd closed) := by cases closed <;> simp [EndsLine, stringEnd]
  rw [shownLine, ← List.append_assoc]
  exact forall_getLast?_append_of_ne_nil hne hlast

theorem forall_mem_shownLine {P : Char → Prop} (hcode : ∀ c ∈ code, P c)
    (hmarks : P '"' ∧ P ' ' ∧ P ';' ∧ P '\n') (ht : StaysInString t) (closed : Bool) :
    ∀ c ∈ shownLine code t closed .blanked, P c := by
  intro c hc
  rcases List.mem_append.1 hc with hc | hc
  · exact hcode c hc
  rcases List.mem_append.1 hc with hc | hc
  · rcases of_mem_shown_stringToken ht hc with rfl | rfl
    · exact hmarks.1
    · exact hmarks.2.1
  · have hend : c = ';' ∨ c = '\n' := by
      cases closed
      · exact .inr (List.mem_singleton.1 hc)
      · simpa [stringEnd] using hc
    rcases hend with rfl | rfl
    · exact hmarks.2.2.1
    · exact hmarks.2.2.2

/-- Behind a line with a string the imports are the same. -/
theorem HasLineStrings.imports_stringLine (hg : HasLineStrings g heads)
    (hcode : ∀ c ∈ code, Quiet statementMarks c ∧ ∀ m ∈ g.lexis.openers, c ≠ m.head)
    (hfirst : ∃ x ∈ code.head?, isGap x = false ∧ x ∉ heads) (ht : StaysInString t)
    (closed : Bool)
    (hscopes : ∀ rest n, (g.scopes (shownLine code t closed .blanked ++ rest)).inside
      ((shownLine code t closed .blanked).length + n) = (g.scopes rest).inside n) :
    g.imports (stringLine code t closed ++ rest) = g.imports rest := by
  have hend : ∀ c ∈ stringEnd closed, c ∈ [';', '\n'] := by cases closed <;> simp [stringEnd]
  have hprecedes : (stringToken closed t).Precedes g.lexis (stringEnd closed ++ rest) := by
    intro c hc
    cases closed with
    | true =>
      obtain rfl : ';' = c := Option.some.inj hc
      exact ⟨(hg.ending ';' List.mem_cons_self).2, fun h => nomatch h⟩
    | false =>
      obtain rfl : '\n' = c := Option.some.inj hc
      exact ⟨(hg.ending '\n' (by simp)).2, fun _ => rfl⟩
  refine imports_behind_silentLine hg.statements (shownLine code t closed) (fun contents => ?_)
    (by rwa [hg.strings]) ?_
  · have hline : stringLine code t closed ++ rest =
        code ++ ((stringToken closed t).source ++ (stringEnd closed ++ rest)) := by
      simp only [stringLine, List.append_assoc]
    rw [hline, Lexis.cleaned_code_append (fun c hc => (hcode c hc).2),
      Lexis.cleaned_token_append hg.regular (isOf_stringToken hg.quote ht closed) hprecedes,
      Lexis.cleaned_code_append (fun c hc => (hg.ending c (hend c hc)).2)]
    simp only [shownLine, List.append_assoc]
  · rw [hg.strings]
    obtain ⟨x, hx, hstart⟩ := hfirst
    obtain ⟨code, rfl⟩ := List.head?_eq_some_iff.1 hx
    refine ⟨⟨x, code ++ (stringToken closed t).shown .blanked, stringEnd closed, ?_, ?_, ?_⟩,
      endsLine_shownLine closed .blanked⟩
    · simp only [shownLine, List.cons_append, List.append_assoc]
    · intro c hc
      rw [← List.cons_append] at hc
      rcases List.mem_append.1 hc with hc | hc
      · exact (hcode c hc).1
      · rcases of_mem_shown_stringToken ht hc with rfl | rfl <;> decide
    · intro c hc
      rcases List.mem_cons.1 hc with rfl | hc
      · exact hstart
      · exact (hg.ending c (hend c hc)).1

theorem stringLine_closed (code t : Text) :
    stringLine code t true = code ++ '"' :: (t ++ ['"', ';', '\n']) := by
  simp [stringLine, stringToken, stringEnd, Token.source, Text.ofUnits_plain, Marker.doubleQuote,
    Marker.text]

theorem stringLine_open (code t rest : Text) :
    stringLine code t false ++ rest = code ++ '"' :: (t ++ '\n' :: rest) := by
  simp [stringLine, stringToken, stringEnd, Token.source, Marker.doubleQuote, Marker.text]

end ImportScan.Grammar
