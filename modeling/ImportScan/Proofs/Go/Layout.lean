import ImportScan.Proofs.Go.Imports
import ImportScan.Proofs.Grammar.Lines
import ImportScan.Proofs.Layout.Basic

/-!
# Single imports and the lines they start

An import has to start its line. So of several imports on one line the first gives its path and the
others give nothing (`imports_layout_oneLine`), while on lines of their own all of them give theirs
(`imports_layout_lines`). The two layouts agree for one import only (`imports_layout_eq_iff`).
-/

namespace ImportScan.Go

open Grammar Pattern Segment Text

variable {t rest : Text} {pre : List Segment}

/-- An import of one path, without its semicolon. -/
structure Single where
  gap : Gaps
  spec : Spec

namespace Single

variable (i : Single)

/-- The import as it is written. -/
def text : Text := singleHead i.gap ++ i.spec.text

/-- The import as its language reads it. -/
def segments : List Segment := i.spec.segments (singleHead i.gap)

/-- The path that it imports. -/
def path : Text := i.spec.path.val

theorem newline_not_mem : '\n' ∉ i.text := by
  have hhead : '\n' ∉ "import".toList := by decide
  have hgap : '\n' ∉ i.gap.val := not_mem_of_class i.gap.2.2 (by decide)
  rw [text, singleHead_eq]
  simp only [List.mem_append, not_or]
  exact ⟨⟨hhead, hgap⟩, i.spec.newline_not_mem⟩

theorem cleaned_append (contents : StringContents) (hrest : StartsUnquoted rest) :
    go.lexis.cleaned contents (i.text ++ rest) =
      showAll contents i.segments ++ go.lexis.cleaned contents rest :=
  i.spec.cleaned_append contents (isCode_singleHead i.gap) hrest

/-- A single import at the start of a text gives its path, and then comes what starts behind the
semicolon. -/
theorem imports_append {c : Char} (hc : c = ' ' ∨ c = '\n') (rest : Text) :
    go.imports (i.text ++ ';' :: c :: rest) =
      i.path :: go.importsFrom (i.segments ++ [';', c].map .code)
        (Lexis.slashedRaw.segments rest) := by
  have hcode : IsCode [';', c] := by
    rcases hc with rfl | rfl <;> decide
  have hclean (contents : StringContents) :
      go.lexis.cleaned contents (i.text ++ ';' :: c :: rest) = showAll contents
        (i.segments ++ ([';', c].map .code ++ Lexis.slashedRaw.segments rest)) := by
    have hseam : go.lexis.cleaned contents (';' :: c :: rest) =
        [';', c] ++ Lexis.slashedRaw.cleaned contents rest :=
      Lexis.cleaned_code_append hcode contents rest
    rw [i.cleaned_append contents (startsUnquoted_cons (by decide) _), hseam, showAll_append,
      showAll_append, showAll_code]
    rfl
  have hstart : EndsLine (showAll .kept []) := fun c hc => nomatch hc
  have hnil : IsLayout [] := fun c hc => nomatch hc
  have hsingle := importsFrom_single hnil (.inr hstart) i.gap i.spec
    ([';', c].map .code ++ Lexis.slashedRaw.segments rest)
  rw [imports_eq_importsFrom (fun _ => rfl) hclean]
  refine hsingle.trans (congrArg _ (importsFrom_skip fun form hform => ?_))
  -- nothing starts at the semicolon, and what is behind it does not start a line
  obtain ⟨F, hp⟩ := isForm_of_mem hform
  rw [showAll_code]
  refine hp.noneIn_of_not_starts fun u x v huv hline => ?_
  cases u with
  | nil =>
    obtain ⟨rfl, -⟩ := List.cons.inj huv
    exact not_starts_cons (by decide) (by decide) _
  | cons y u =>
    obtain ⟨rfl, hu⟩ := List.cons.inj huv
    cases u with
    | nil => simp [atLineStart] at hline
    | cons z u => simp at hu

end Single

/-! ## On lines of their own -/

theorem overlooks_form {form : Statement} (hform : form ∈ go.statements) {front : Text}
    (h : EndsLine front) : form.pattern.Overlooks front := by
  have htests : form.pattern.BuiltOn AsksLine := by
    have hforms : form = singleImport ∨ form = groupImport := by
      simpa [go] using hform
    rcases hforms with rfl | rfl
    · simp [singleImport, importPath]
    · simp [groupImport]
  exact htests.overlooks fun test htest => htest.behind h

theorem names_behind {form : Statement} (hform : form ∈ go.statements) (front : Text)
    (m : Match Part) : form.names (m.behind front) = form.names m := by
  have hforms : form = singleImport ∨ form = groupImport := by
    simpa [go] using hform
  have hpart (i : Part) : (m.behind front).partOrEmpty i = m.partOrEmpty i :=
    congrArg (·.getD []) (Match.part?_behind front m i)
  rcases hforms with rfl | rfl
  · simp only [singleImport, hpart]
  · simp only [groupImport, hpart]

theorem importsFrom_end (pre : List Segment) : go.importsFrom pre [] = [] := by
  have hnil : IsLayout [] := fun c hc => nomatch hc
  have hend := importsFrom_layout pre hnil
  rwa [List.map_nil] at hend

theorem imports_nil : go.imports [] = [] := by
  have hclean (contents : StringContents) :
      go.lexis.cleaned contents [] = showAll contents [] := Lexis.cleaned_nil contents _
  rw [imports_eq_importsFrom (fun _ => rfl) hclean, importsFrom_end]

theorem Single.imports_append_line (i : Single) (rest : Text) :
    go.imports (i.text ++ ';' :: '\n' :: rest) = i.path :: go.imports rest := by
  have hend : EndsLine (showAll .kept (i.segments ++ [';', '\n'].map .code)) := by
    rw [showAll_append, showAll_code]
    simp [EndsLine]
  have hrest : go.imports rest = go.importsFrom [] (Lexis.slashedRaw.segments rest) :=
    imports_eq_importsFrom (fun _ => rfl) fun _ => rfl
  rw [i.imports_append (.inr rfl), hrest, importsFrom_behind
    (fun form hform => overlooks_form hform hend) fun form hform m => names_behind hform _ m]

/-- Each on its own line, the imports give their paths. -/
theorem imports_layout_lines {is : List Single} (hne : is ≠ []) :
    go.imports (layout '\n' (is.map (·.text))) = is.map (·.path) := by
  induction is with
  | nil => exact absurd rfl hne
  | cons i is ih =>
    cases is with
    | nil =>
      rw [List.map_singleton, layout_singleton, i.imports_append_line, imports_nil]
      rfl
    | cons i' is =>
      rw [List.map_cons, List.map_cons, layout_cons_cons, i.imports_append_line,
        ← List.map_cons, ih (List.cons_ne_nil i' is)]
      rfl

/-! ## On one line -/

/-- On the rest of a line no import starts. -/
theorem importsFrom_restOfLine {c : Char} (hpre : (showAll .kept pre).getLast? = some c)
    (hc : c ≠ '\n') (ht : '\n' ∉ t) :
    go.importsFrom pre (Lexis.slashedRaw.segments (t ++ ['\n'])) = [] := by
  have hskip : go.importsFrom pre (Lexis.slashedRaw.segments (t ++ ['\n']) ++ []) =
      go.importsFrom (pre ++ Lexis.slashedRaw.segments (t ++ ['\n'])) [] := by
    apply importsFrom_skip
    intro form hform
    obtain ⟨F, hp⟩ := isForm_of_mem hform
    refine hp.noneIn_of_not_starts fun u x v huv hline => ?_
    rcases List.eq_nil_or_concat u with rfl | ⟨u, y, rfl⟩
    · have hlast : (showAll go.strings pre).getLast? = some c := hpre
      rw [List.append_nil, atLineStart, Cursor.before_between, List.head?_reverse, hlast] at hline
      exact absurd (eq_of_beq hline) hc
    · -- the only end of a line is behind all of it
      obtain rfl : y = '\n' := by simpa [atLineStart] using hline
      have hblanks := Lexis.slashedRaw.blanksTo_cleaned .kept (t ++ ['\n'])
      have hshown : showAll go.strings (Lexis.slashedRaw.segments (t ++ ['\n'])) =
          Lexis.slashedRaw.cleaned .kept (t ++ ['\n']) := rfl
      rw [hshown, List.concat_eq_append, List.append_assoc, List.singleton_append] at huv
      rw [huv] at hblanks
      obtain ⟨a, b, htext, -, hb⟩ := hblanks.exists_of_newline
      obtain ⟨b, z, rfl⟩ := (List.eq_nil_or_concat b).resolve_left (by
        rintro rfl
        cases hb)
      rw [List.concat_eq_append, ← List.cons_append, ← List.append_assoc] at htext
      have ht' : t = a ++ '\n' :: b := List.append_inj_left' htext rfl
      exact absurd (ht' ▸ List.mem_append_right a List.mem_cons_self) ht
  rw [List.append_nil] at hskip
  rw [hskip, importsFrom_end]

/-- On one line only the first import gives its path. -/
theorem imports_layout_oneLine {is : List Single} (hne : is ≠ []) :
    go.imports (layout ' ' (is.map (·.text))) = (is.map (·.path)).take 1 := by
  cases is with
  | nil => exact absurd rfl hne
  | cons i is =>
    cases is with
    | nil =>
      rw [List.map_singleton, layout_singleton, i.imports_append_line, imports_nil]
      rfl
    | cons i' is =>
      have hlast : (showAll .kept (i.segments ++ [';', ' '].map .code)).getLast? = some ' ' := by
        rw [showAll_append, showAll_code]
        simp
      have hline : '\n' ∉ join [';', ' '] ((i' :: is).map (·.text)) ++ [';'] := by
        rw [List.mem_append, not_or]
        refine ⟨fun h => ?_, by decide⟩
        rcases mem_join h with h | ⟨w, hw, h⟩
        · exact absurd h (by decide)
        · obtain ⟨j, -, rfl⟩ := List.mem_map.1 hw
          exact j.newline_not_mem h
      have hlayout : layout ' ' ((i' :: is).map (·.text)) =
          join [';', ' '] ((i' :: is).map (·.text)) ++ [';'] ++ ['\n'] := by
        rw [layout, List.append_assoc]
        rfl
      rw [List.map_cons, List.map_cons, layout_cons_cons, i.imports_append (.inl rfl),
        ← List.map_cons, hlayout, importsFrom_restOfLine hlast (by decide) hline]
      rfl

/-- The layouts agree for one import and for no more. -/
theorem imports_layout_eq_iff (is : List Single) :
    go.imports (layout ' ' (is.map (·.text))) = go.imports (layout '\n' (is.map (·.text))) ↔
      is.length ≤ 1 := by
  by_cases hne : is = []
  · subst hne
    simp [layout, join]
  · rw [imports_layout_oneLine hne, imports_layout_lines hne, List.take_eq_self_iff,
      List.length_map]

end ImportScan.Go
