import ImportScan.Proofs.JavaScript.Statements
import ImportScan.Proofs.Lexis.Token
import ImportScan.Proofs.Lexis.Transparency
import ImportScan.Proofs.Text.Cut

/-!
# Statements behind a string literal

A line that defines a constant as a string imports nothing. Whether it leaves the statements behind
it alone depends on how the string ends. Every form of statement needs a quoted name, and the quote
that ends the string opens none, since the line ends first (`specifier_ends_eq_nil`); so a match
that starts in the string has to run over its closing quote, and only the names between the braces
of a re-export may hold one. If the string ends inside such braces (`EndsInExport`), the match that
starts there takes the statements behind the line with it, and is dropped because it starts in a
string. In all other cases the line goes unnoticed (`parse_constantLine_append_iff`).
-/

namespace ImportScan.JavaScript

open Grammar Pattern

/-! ## The line -/

/-- What stands before the string. -/
def lineHead : Text := "const s = ".toList

/-- What stands behind the string. -/
def lineEnd : Text := [';', '\n']

/-- A line that defines a constant as the string `b`. -/
def constantLine (b : Text) : Text := lineHead ++ '"' :: (b ++ '"' :: lineEnd)

/-- Whether the text may stand in a string as it is. -/
def IsPlain (b : Text) : Prop := ∀ c ∈ b, isQuote c = false ∧ c ≠ '\\' ∧ c ≠ '\n'

instance (b : Text) : Decidable (IsPlain b) := inferInstanceAs (Decidable (∀ c ∈ b, _))

/-- The text of the string as cleaning leaves it. -/
def shownBody : StringContents → Text → Text
  | .kept, b => b
  | .blanked, b => b.blanked

/-- Cleaning takes the line off whole, and touches only the string. -/
theorem cleaned_constantLine_append {b : Text} (hb : IsPlain b) (contents : StringContents)
    (post : Text) :
    javaScript.lexis.cleaned contents (constantLine b ++ post) =
      constantLine (shownBody contents b) ++ javaScript.lexis.cleaned contents post := by
  have hlx : javaScript.lexis.Regular := Parser.regular_lexis (p := .javaScript) rfl
  have hq : Marker.doubleQuote ∈ javaScript.lexis.allQuotes := by decide
  have hfits : ∀ c ∈ b, (StringUnit.plain c).FitsIn .doubleQuote
      (Marker.doubleQuote ∈ javaScript.lexis.multilineQuotes) := by
    intro c hc
    obtain ⟨hquote, hback, hline⟩ := hb c hc
    refine ⟨?_, hback, fun _ => hline⟩
    intro hmem
    obtain rfl := List.mem_singleton.1 hmem
    cases hquote
  have hline : constantLine b ++ post = lineHead ++
      (Marker.doubleQuote.text ++ (b ++ Marker.doubleQuote.text) ++ (lineEnd ++ post)) := by
    simp [constantLine, Marker.doubleQuote, Marker.text]
  have hnext : ∀ c ∈ (lineEnd ++ post).head?, c ≠ Marker.doubleQuote.head := by
    intro c hc
    obtain rfl : ';' = c := Option.some.inj hc
    decide
  rw [hline, Lexis.cleaned, Lexis.segments_code_append (by decide),
    Lexis.segments_plainString hlx hq hfits hnext, Lexis.segments_code_append (by decide)]
  cases contents <;>
    simp [Segment.flatMap_shown_code, Segment.shown, constantLine, shownBody, Marker.doubleQuote,
      Marker.text, Lexis.cleaned]

/-! ## Where a match that starts in the string would have to end -/

variable {s m e : Point Part} {u post : Text}

theorem lineUnquoted_lineEnd (post : Text) : LineUnquoted (lineEnd ++ post) :=
  .append (t := [';']) (by decide) (lineUnquoted_newline post)

/-- If no match starts in the string, none starts in the line. -/
theorem noneIn_constantLine_of_noneIn {k : Text} {p : Pattern Part} (hp : StartsWith k p)
    (hk : LacksHead k (constantLine [])) {b : Text}
    (hb : p.NoneIn (lineHead ++ ['"']) b ('"' :: (lineEnd ++ post))) :
    p.NoneIn [] (constantLine b) post := by
  have hline : constantLine b = (lineHead ++ ['"']) ++ (b ++ '"' :: lineEnd) := by
    simp [constantLine]
  have hhead : p.NoneIn [] (lineHead ++ ['"']) ((b ++ '"' :: lineEnd) ++ post) :=
    hp.noneIn (hk.mono (by simp [constantLine]))
  have hstop : p.NoneIn ([] ++ (lineHead ++ ['"']) ++ b) ('"' :: lineEnd) post :=
    hp.noneIn (hk.mono (by simp [constantLine]))
  rw [hline]
  exact hhead.append (NoneIn.append hb hstop)

/-- The text ends inside the braces of a re-export. -/
def EndsInExport (b : Text) : Prop :=
  ∃ front head names, b = front ++ (head ++ '{' :: names) ∧
    (∀ c ∈ front.getLast?, Text.isWord c = false) ∧ IsExportHead head ∧ '}' ∉ names

/-- A re-export that starts before the closing quote of the string and ends behind it has the string
end inside its braces. -/
theorem exists_open_of_mem_ends_reexport (hu : ∀ c ∈ u, isQuote c = false)
    (hs : s.cursor.after = u ++ '"' :: (lineEnd ++ post)) (he : e ∈ reexport.pattern.ends s) :
    atWordEdge s.cursor = true ∧
      ∃ head names, u = head ++ '{' :: names ∧ IsExportHead head ∧ '}' ∉ names := by
  rw [reexport_pattern] at he
  obtain ⟨m₅, h, he⟩ := mem_ends_append.1 he
  obtain ⟨m₄, h, h₅⟩ := mem_ends_append.1 h
  obtain ⟨m₃, h, h₄⟩ := mem_ends_append.1 h
  obtain ⟨m₂, h, h₃⟩ := mem_ends_append.1 h
  obtain ⟨m₁, h₁, h₂⟩ := mem_ends_append.1 h
  obtain ⟨hedge, head, rest, hafter, hhead, rfl⟩ := mem_ends_exportHead.1 h₁
  refine ⟨hedge, ?_⟩
  have hheadq : ∀ c ∈ head, isQuote c = false := fun c hc =>
    isQuote_eq_false_of_mem_exportHead hhead hc
  have hfirst : Unquoted s.cursor (s.skip head.length).cursor := ⟨head, rest, hafter, hheadq, rfl⟩
  -- a specifier follows, so what stands before it takes the closing quote of the string
  have hquote : ¬Unquoted (s.skip head.length).cursor m₂.cursor := by
    intro hbody
    have hblanks : (blanks1 : Pattern Part).Takes (isQuote · = false) :=
      isQuote_eq_false_of_isBlank
    have hfrom : (word "from" : Pattern Part).Takes (isQuote · = false) :=
      takes_text (by decide)
    have hbehind : Unquoted s.cursor m₅.cursor :=
      (((hfirst.trans hbody).trans (isBehind_of_mem_ends hblanks h₃)).trans
        (isBehind_of_mem_ends hfrom h₄)).trans (isBehind_of_mem_ends hblanks h₅)
    rw [specifier_ends_eq_nil hu (by decide) (lineUnquoted_lineEnd post) hs hbehind] at he
    cases he
  rcases mem_ends_or.1 h₂ with h₂ | h₂
  · exact absurd (isBehind_of_mem_ends takes_allExports h₂) hquote
  · obtain ⟨_, rest', hbody, ⟨names, rfl, hnames⟩, rfl⟩ := (takesJust_namedExports _ _).1 h₂
    have hrest : rest = '{' :: (names ++ ['}']) ++ rest' :=
      (Point.after_skip_of_eq hafter).symm.trans hbody
    by_cases hq : ∃ c ∈ names, isQuote c = true
    · obtain ⟨names, q, more, rfl, hnamesq, hq⟩ := Text.exists_first hq
      have hcut : u ++ '"' :: (lineEnd ++ post) =
          (head ++ '{' :: names) ++ q :: (more ++ '}' :: rest') := by
        rw [← hs, hafter, hrest]
        simp
      have hopen : ∀ c ∈ head ++ '{' :: names, isQuote c = false := by
        intro c hc
        rcases List.mem_append.1 hc with hc | hc
        · exact hheadq c hc
        · rcases List.mem_cons.1 hc with rfl | hc
          · decide
          · exact hnamesq c hc
      obtain ⟨rfl, -, -⟩ := Text.append_cons_inj_of_first hu hopen (by decide) hq hcut
      exact ⟨head, names, rfl, hhead, fun h => hnames (List.mem_append_left _ h)⟩
    · refine absurd ⟨_, rest', hbody, ?_, rfl⟩ hquote
      intro c hc
      rcases List.mem_cons.1 hc with rfl | hc
      · decide
      · rcases List.mem_append.1 hc with hc | hc
        · simpa using fun h => hq ⟨c, hc, h⟩
        · obtain rfl := List.mem_singleton.1 hc
          decide

/-! ## The line goes unnoticed -/

/-- No form starts in the line but in its string. -/
theorem exists_startsWith {s : Statement} (hs : s ∈ javaScript.statements) :
    ∃ k, LacksHead k (constantLine []) ∧ StartsWith k s.pattern := by
  rcases mem_statements.1 hs with rfl | rfl | rfl | rfl
  · exact ⟨_, ⟨'i', rfl, by decide⟩, startsWith_staticImport⟩
  · exact ⟨_, ⟨'e', rfl, by decide⟩, startsWith_reexport⟩
  · exact ⟨_, ⟨'r', rfl, by decide⟩, startsWith_moduleCall "require"⟩
  · exact ⟨_, ⟨'i', rfl, by decide⟩, startsWith_moduleCall "import"⟩

/-- No match starts in the line, but for a re-export if the string ends in one. -/
theorem noneIn_constantLine {s : Statement} (hs : s ∈ javaScript.statements) {b : Text}
    (hb : IsPlain b) (hopen : s = reexport → ¬EndsInExport b) :
    s.pattern.NoneIn [] (constantLine b) post := by
  obtain ⟨k, hk, hstart⟩ := exists_startsWith hs
  refine noneIn_constantLine_of_noneIn hstart hk ?_
  rcases eq_reexport_or_needsSpecifier hs with rfl | hneeds
  · intro u x v huv
    refine List.eq_nil_iff_forall_not_mem.2 fun e he => hopen rfl ?_
    have hplain : ∀ c ∈ x :: v, isQuote c = false := fun c hc =>
      (hb c (huv ▸ List.mem_append_right u hc)).1
    obtain ⟨hedge, head, names, hbody, hhead, hnames⟩ :=
      exists_open_of_mem_ends_reexport hplain rfl he
    obtain ⟨rest, hrest⟩ := (startsWith_reexport _ e he).2
    obtain rfl : 'e' = x := (List.cons.inj hrest).1
    have hapart := (atWordEdge_between_cons (by decide)).1 hedge
    exact ⟨u, head, names, by rw [huv, hbody], Text.forall_getLast?_of_append hapart, hhead, hnames⟩
  · exact hneeds.noneIn (fun c hc => (hb c hc).1) (by decide) (lineUnquoted_lineEnd post)

theorem endsApart_constantLine (b : Text) : (constantLine b).EndsApart := by
  intro c hc
  have hlast : (constantLine b).getLast? = some '\n' := by
    rw [constantLine, List.getLast?_append, List.getLast?_cons, List.getLast?_append]
    rfl
  rw [hlast] at hc
  exact Option.some.inj hc ▸ by decide

/-- What a form of statement finds behind the line is what it finds without the line. -/
theorem matchesIn_constantLine_append {s : Statement} (hs : s ∈ javaScript.statements) {b : Text}
    (hb : IsPlain b) (hopen : s = reexport → ¬EndsInExport b) (post : Text) :
    s.pattern.matchesIn (constantLine b ++ post) =
      (s.pattern.matchesIn post).map (Match.behind (constantLine b)) :=
  matchesIn_behind (overlooks_statement hs (endsApart_constantLine b))
    (noneIn_constantLine hs hb hopen)

/-- A line whose string does not end in a re-export goes unnoticed. -/
theorem imports_constantLine_append {b : Text} (hb : IsPlain b) (hopen : ¬EndsInExport b)
    (post : Text) : javaScript.imports (constantLine b ++ post) = javaScript.imports post := by
  refine imports_behind (fun contents => constantLine (shownBody contents b))
    (cleaned_constantLine_append hb · post) (fun _ => rfl) ?_ ?_
  · intro s hs
    exact matchesIn_constantLine_append hs hb (fun _ => hopen) _
  · intro s hs m
    exact names_behind hs _ m

/-! ## A string that ends in a re-export -/

/-- A re-export up to its opening brace. -/
def openExport : Text := "export ".toList ++ ['{']

/-- A re-export that imports by itself. -/
def nextExport : Text :=
  openExport ++ '}' :: ([' '] ++ ("from".toList ++ ([' '] ++ '\'' :: (['y'] ++ ['\'']))))

/-- The re-export that the string opens goes on to the one behind the line. -/
theorem reexport_ends_ne_nil {head names : Text} (hs : s.cursor.after =
      head ++ '{' :: (names ++ '"' :: (lineEnd ++ nextExport))) (hedge : atWordEdge s.cursor = true)
    (hhead : IsExportHead head) (hnames : '}' ∉ names) : reexport.pattern.ends s ≠ [] := by
  let inside := names ++ '"' :: (lineEnd ++ openExport)
  let behind := [' '] ++ ("from".toList ++ ([' '] ++ '\'' :: (['y'] ++ ['\''])))
  have hinside : '}' ∉ inside := by
    have hline : '}' ∉ '"' :: (lineEnd ++ openExport) := by decide
    intro h
    rcases List.mem_append.1 h with h | h
    · exact hnames h
    · exact hline h
  have h₀ : s.cursor.after = head ++ (('{' :: (inside ++ ['}'])) ++ behind) := by
    rw [hs, nextExport]
    simp [inside, behind]
  have h₁ := Point.after_skip_of_eq h₀
  have h₂ := Point.after_skip_of_eq h₁
  have h₃ := Point.after_skip_of_eq h₂
  have h₄ := Point.after_skip_of_eq h₃
  have h₅ := Point.after_skip_of_eq h₄
  have m₁ := mem_ends_exportHead.2 ⟨hedge, head, _, h₀, hhead, rfl⟩
  have m₂ := mem_ends_append.2 ⟨_, m₁, mem_ends_or (p := allExports).2
    (.inr (takesJust_namedExports.skip_mem_ends h₁ ⟨inside, rfl, hinside⟩))⟩
  have m₃ := mem_ends_append.2 ⟨_, m₂, takesJust_blanks1.skip_mem_ends h₂ isSpacing_space⟩
  have m₄ := mem_ends_append.2 ⟨_, m₃, (takesJust_text "from".toList).skip_mem_ends h₃ rfl⟩
  have m₅ := mem_ends_append.2 ⟨_, m₄, takesJust_blanks1.skip_mem_ends h₄ isSpacing_space⟩
  obtain ⟨e, he, -⟩ := ends_specifier (by decide) (by decide) h₅
  exact List.ne_nil_of_mem (mem_ends_append.2 ⟨_, m₅, he ▸ List.mem_singleton_self e⟩)

/-- A re-export that starts in the string takes everything behind it: the only quoted name is at the
end. -/
theorem after_eq_nil_of_mem_ends_reexport (hu : ∀ c ∈ u, isQuote c = false)
    (hs : s.cursor.after = u ++ '"' :: (lineEnd ++ nextExport)) (he : e ∈ reexport.pattern.ends s) :
    e.cursor.after = [] := by
  rw [reexport_pattern] at he
  obtain ⟨m, hm, he⟩ := mem_ends_append.1 he
  obtain ⟨q, name, rest, hafter, hq, ⟨-, hname⟩, hcursor⟩ := exists_of_mem_ends_specifier he
  obtain ⟨t, rest', hst, -, hmc⟩ := isBehind_of_mem_ends (takes_any _) hm
  have hrest' : rest' = q :: (name ++ q :: rest) := by
    rw [← hafter, hmc, Cursor.after_skip, hst, List.drop_left]
  have hend : e.cursor.after = rest := by
    rw [hcursor, Cursor.after_skip, hafter]
    simp
  have hquotes : t.filter isQuote ++ q :: q :: rest.filter isQuote = ['"', '\'', '\''] := by
    have hline : ('"' :: (lineEnd ++ nextExport)).filter isQuote = ['"', '\'', '\''] := by decide
    have hbody : u.filter isQuote = [] := by simpa using hu
    have hnone : name.filter isQuote = [] := by simpa using fun c hc => (hname c hc).1
    have htext : u ++ '"' :: (lineEnd ++ nextExport) = t ++ q :: (name ++ q :: rest) := by
      rw [← hs, hst, hrest']
    rw [← hline, ← List.nil_append (('"' :: _).filter _), ← hbody, ← List.filter_append, htext]
    simp [hq, hnone]
  have hlast : s.cursor.after.getLast? = some '\'' := by
    rw [hs, List.getLast?_append]
    rfl
  rw [hend]
  match ht : t.filter isQuote, hquotes with
  | [], hquotes =>
    simp only [List.nil_append, List.cons.injEq] at hquotes
    exact absurd (hquotes.1.symm.trans hquotes.2.1) (by decide)
  | [_], hquotes =>
    -- no quote is left behind the name, and the text ends in one
    simp only [List.cons_append, List.nil_append, List.cons.injEq, List.filter_eq_nil_iff]
      at hquotes
    rcases List.eq_nil_or_concat rest with hrest | ⟨init, c, rfl⟩
    · exact hrest
    · have hconcat : t ++ q :: (name ++ q :: init.concat c) =
          t ++ q :: (name ++ q :: init) ++ [c] := by simp
      rw [hst, hrest', hconcat, List.getLast?_concat] at hlast
      exact absurd (Option.some.inj hlast ▸ rfl) (hquotes.2.2.2 c (by simp))
  | _ :: _ :: _, hquotes =>
    have := congrArg List.length hquotes
    simp at this
    omega

/-- A string that ends in a re-export has a place where a match starts. -/
theorem not_noneIn_of_endsInExport {b : Text} (hopen : EndsInExport b) :
    ¬reexport.pattern.NoneIn (lineHead ++ ['"']) b ('"' :: (lineEnd ++ nextExport)) := by
  intro hnone
  obtain ⟨front, head, names, rfl, hfront, hhead, hnames⟩ := hopen
  obtain ⟨t, ht⟩ : ∃ t, head = 'e' :: t := by
    obtain ⟨gap, kind, rfl, -⟩ := hhead
    exact ⟨_, rfl⟩
  have hends := hnone front 'e' (t ++ '{' :: names) (by rw [ht, List.cons_append])
  refine reexport_ends_ne_nil ?_ ?_ hhead hnames hends
  · rw [ht]
    simp
  · rw [atWordEdge_between_cons (by decide)]
    refine Text.forall_getLast?_append ?_ hfront
    rintro c ⟨⟩
    decide

/-- The re-export that the string opens is the only one found. -/
theorem matchesIn_reexport {b : Text} (hb : IsPlain b) (hopen : EndsInExport b) :
    ∃ u x v m, b = u ++ x :: v ∧ reexport.pattern.matchesIn (constantLine b ++ nextExport) = [m] ∧
      m.firstOffset = lineHead.length + 1 + u.length := by
  rcases noneIn_or_exists_first reexport.pattern (lineHead ++ ['"']) b
    ('"' :: (lineEnd ++ nextExport)) with hnone | ⟨u, x, v, rfl, hnone, hends⟩
  · exact absurd hnone (not_noneIn_of_endsInExport hopen)
  have hplain : ∀ c ∈ x :: v, isQuote c = false := fun c hc =>
    (hb c (List.mem_append_right u hc)).1
  cases hm : reexport.pattern.matchAt?
      (.between (lineHead ++ ['"'] ++ u) (x :: (v ++ '"' :: (lineEnd ++ nextExport)))) with
  | none => exact absurd (matchAt?_eq_none_iff.1 hm) hends
  | some m =>
    obtain ⟨hstart, hstop⟩ := exists_mem_ends_of_matchAt? hm
    obtain ⟨hafter, hlen⟩ := after_eq_of_matchAt? hm
    have htext : m.text = x :: (v ++ '"' :: (lineEnd ++ nextExport)) := by
      rw [after_eq_nil_of_mem_ends_reexport hplain rfl hstop, List.append_nil] at hafter
      exact hafter.symm
    refine ⟨u, x, v, m, rfl, ?_, ?_⟩
    · have hline : constantLine (u ++ x :: v) ++ nextExport =
          lineHead ++ ['"'] ++ u ++ x :: (v ++ '"' :: (lineEnd ++ nextExport)) := by
        simp [constantLine]
      have hhead : reexport.pattern.NoneIn [] (lineHead ++ ['"'])
          (u ++ x :: (v ++ '"' :: (lineEnd ++ nextExport))) :=
        startsWith_reexport.noneIn ⟨'e', rfl, by decide⟩
      have hend : reexport.pattern.matchAt?
          (.between (lineHead ++ ['"'] ++ u ++ x :: (v ++ '"' :: (lineEnd ++ nextExport))) []) =
          none := by
        refine matchAt?_eq_none_of_forall fun e he => ?_
        exact absurd (List.prefix_nil.1 (startsWith_reexport _ e he).2) (by decide)
      have hmatch := matchesFrom_match (b := []) (List.cons_ne_nil _ _)
        (by rw [List.append_nil]; exact hm) (hlen.trans (congrArg List.length htext))
      rw [List.append_nil, matchesFrom_end (Cursor.after_between _ []), if_pos rfl, hend] at hmatch
      unfold matchesIn
      rw [hline, Cursor.atStart_eq_between, matchesFrom_skip (hhead.append hnone)]
      exact hmatch
    · obtain ⟨rest, hrest⟩ := (startsWith_reexport _ _ hstop).2
      obtain rfl : 'e' = x := (List.cons.inj hrest).1
      have hblank : Text.isBlank 'e' = false := by decide
      rw [Match.firstOffset, Match.offset, hstart, htext, Cursor.offset_between,
        List.takeWhile_cons_of_neg (by simp [hblank])]
      simp only [List.length_append, List.length_cons, List.length_nil]
      omega

/-- What starts in the string starts in no code. -/
theorem exists_blank_getElem? {u v : Text} {x : Char} (hb : IsPlain (u ++ x :: v))
    (post : Text) :
    ∃ y, (javaScript.lexis.cleaned .blanked
        (constantLine (u ++ x :: v) ++ post))[lineHead.length + 1 + u.length]? = some y ∧
      Text.isBlank y = true := by
  have hbody : Text.blanked (u ++ x :: v) =
      Text.blanked u ++ (if x = '\n' then '\n' else ' ') :: Text.blanked v := List.map_append
  have hline (a : Text) (y : Char) (c r : Text) : constantLine (a ++ y :: c) ++ r =
      (lineHead ++ '"' :: a) ++ y :: (c ++ '"' :: (lineEnd ++ r)) := by simp [constantLine]
  have hlen : lineHead.length + 1 + u.length = (lineHead ++ '"' :: Text.blanked u).length := by
    rw [List.length_append, List.length_cons, Lexis.length_blanked]
    omega
  refine ⟨if x = '\n' then '\n' else ' ', ?_, by split <;> decide⟩
  rw [cleaned_constantLine_append hb, shownBody, hbody, hline, hlen,
    List.getElem?_append_right (Nat.le_refl _), Nat.sub_self, List.getElem?_cons_zero]

/-- Of the statements only the re-export finds the next one. -/
theorem matchesIn_nextExport {s : Statement} (hs : s ∈ javaScript.statements) (h : s ≠ reexport) :
    s.pattern.matchesIn nextExport = [] := by
  rcases mem_statements.1 hs with rfl | rfl | rfl | rfl
  · exact List.isEmpty_iff.1 (by decide +kernel)
  · exact absurd rfl h
  · exact List.isEmpty_iff.1 (by decide +kernel)
  · exact List.isEmpty_iff.1 (by decide +kernel)

/-- Nothing is found behind the line: the only match starts in the string. -/
theorem imports_eq_nil {b : Text} (hb : IsPlain b) (hopen : EndsInExport b) :
    javaScript.imports (constantLine b ++ nextExport) = [] := by
  have hnext : javaScript.lexis.cleaned .kept nextExport = nextExport := by decide +kernel
  have hclean : javaScript.lexis.cleaned javaScript.strings (constantLine b ++ nextExport) =
      constantLine b ++ nextExport :=
    (cleaned_constantLine_append hb .kept nextExport).trans (congrArg (constantLine b ++ ·) hnext)
  have hstart : ∀ s ∈ javaScript.found (constantLine b ++ nextExport),
      startsInCode (javaScript.lexis.cleaned .blanked (constantLine b ++ nextExport)).toArray s.2 =
        false := by
    intro s hs
    obtain ⟨hform, hm⟩ := mem_found.1 hs
    by_cases hreexport : s.1 = reexport
    · obtain ⟨u, x, v, m, rfl, hmatches, hoffset⟩ := matchesIn_reexport hb hopen
      rw [hreexport, hmatches] at hm
      obtain ⟨y, hy, hblank⟩ := exists_blank_getElem? hb nextExport
      rw [List.mem_singleton.1 hm, startsInCode, hoffset, List.getElem?_toArray, hy]
      simp [hblank]
    · rw [matchesIn_constantLine_append hform hb (absurd · hreexport),
        matchesIn_nextExport hform hreexport] at hm
      cases hm
  have hnone : ((javaScript.found (constantLine b ++ nextExport)).filter fun s =>
      startsInCode (javaScript.lexis.cleaned .blanked (constantLine b ++ nextExport)).toArray s.2) =
        [] := List.filter_eq_nil_iff.2 fun s hs => by simp [hstart s hs]
  rw [imports_eq, hclean, hnone]
  rfl

/-! ## The line and what follows -/

/-- **A string is transparent unless it ends in a re-export**: a line that defines a constant as a
string changes nothing of what is found behind it, whatever stands there, if and only if the string
does not end inside the braces of a re-export. -/
theorem parse_constantLine_append_iff {b : Text} (hb : IsPlain b) :
    (∀ post, Parser.javaScript.parse (constantLine b ++ post) = Parser.javaScript.parse post) ↔
      ¬EndsInExport b := by
  have hparse (t : Text) : Parser.javaScript.parse t = .ok (javaScript.imports t) :=
    Parser.parse_eq_imports rfl t
  constructor
  · intro h hopen
    have hnext := h nextExport
    rw [hparse, imports_eq_nil hb hopen] at hnext
    revert hnext
    decide +kernel
  · intro hopen post
    rw [hparse, hparse, imports_constantLine_append hb hopen]

/-- A string that is the start of a re-export hides the one behind it. -/
theorem parse_constantLine_append_open :
    IsPlain openExport ∧ Parser.javaScript.parse nextExport = .ok ["y".toList] ∧
      Parser.javaScript.parse (constantLine openExport ++ nextExport) = .ok [] ∧
      ¬∀ post, Parser.javaScript.parse (constantLine openExport ++ post) =
        Parser.javaScript.parse post := by
  have hplain : IsPlain openExport := by decide
  have hopen : EndsInExport openExport :=
    ⟨[], "export ".toList, [], rfl, by simp, ⟨[' '], [], rfl, isSpacing_space, .inr rfl⟩, by simp⟩
  refine ⟨hplain, by decide +kernel, by decide +kernel, ?_⟩
  intro h
  exact (parse_constantLine_append_iff hplain).1 h hopen

end ImportScan.JavaScript
