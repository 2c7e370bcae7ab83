import ImportScan.Language
import ImportScan.Proofs.Grammar.Lines
import ImportScan.Proofs.Layout.Basic
import ImportScan.Proofs.Rust.Document

/-!
# Forms that semicolons separate

In most languages that end statements with semicolons, the forms of statement take neither a
semicolon nor what is behind one, and start behind it as on a new line (`Sequential`). Two of the
languages have brackets in which anything may stand, so there the text has to close its brackets.
-/

namespace ImportScan

open Text

namespace Pattern

variable {ι : Type} [DecidableEq ι] {p q : Pattern ι} {cs : Text}

/-! ## Tests for places -/

theorem afresh_statementStart (h : ';' ∈ cs) : Afresh fun c => atLineStart c || isAfter cs c where
  near c c' hc _ := by rw [atLineStart, atLineStart, isAfter, isAfter, hc]
  afresh a c := by
    simp only [atLineStart, isAfter, Cursor.before_behind, List.reverse_append]
    cases c.before <;> simp [h]
  afreshLine a c := by
    simp only [atLineStart, isAfter, Cursor.before_behind, List.reverse_append]
    cases c.before <;> simp

theorem afresh_atWordEdge : Afresh atWordEdge where
  near c c' hc hc' := by rw [atWordEdge, atWordEdge, hc, hc']
  afresh a c := by
    have hword : isWord ';' = false := by decide
    simp only [atWordEdge, Cursor.before_behind, Cursor.after_behind, List.reverse_append]
    cases c.before <;> simp [hword]
  afreshLine a c := by
    have hword : isWord '\n' = false := by decide
    simp only [atWordEdge, Cursor.before_behind, Cursor.after_behind, List.reverse_append]
    cases c.before <;> simp [hword]

theorem opensOnce_statementStart (h : ' ' ∉ cs) :
    OpensOnce ' ' fun c => atLineStart c || isAfter cs c where
  start b := rfl
  shut b := by simp [atLineStart, isAfter, h]
  behind c hc := by
    obtain ⟨x, r, hx⟩ := List.exists_cons_of_ne_nil hc
    simp [atLineStart, isAfter, hx]

omit [DecidableEq ι] in
/-- A pattern without tests notices nothing. -/
theorem overlooks_of_untested {front : Text} (hp : p.BuiltOn fun _ => False) :
    p.Overlooks front := hp.overlooks fun _ h => h.elim

omit [DecidableEq ι] in
theorem Overlooks.append {front : Text} (hp : p.Overlooks front) (hq : q.Overlooks front) :
    (p ++ q).Overlooks front := And.intro hp hq

theorem gapped_start (cs : Text) (hcs : ' ' ∉ cs) (hq : q.Upfront)
    (hq' : q.BuiltOn fun _ => False) : (statementStart cs ++ q).Gapped ' ' :=
  ⟨_, q, fun _ => rfl, hq, opensOnce_statementStart hcs, overlooks_of_untested hq'⟩

theorem Gapped.congr {x : Char} (hp : p.Gapped x) (h : ∀ s, q.ends s = p.ends s) : q.Gapped x := by
  obtain ⟨test, r, hr⟩ := hp
  exact ⟨test, r, fun s => (h s).trans (hr.ends s), hr.upfront, hr.opens, hr.overlooks⟩

/-- The form may go on with anything that does not notice the space. -/
theorem Gapped.append {x : Char} (hp : p.Gapped x) (hq : q.Overlooks [x]) :
    (p ++ q).Gapped x := by
  obtain ⟨test, r, hr⟩ := hp
  refine ⟨test, r ++ q, fun s => ?_, hr.upfront.append q, hr.opens, hr.overlooks.append hq⟩
  rw [← ends_append_assoc, ends_append, hr.ends, ← ends_append]

theorem Gapped.append_untested {x : Char} (hp : p.Gapped x) (hq : q.BuiltOn fun _ => False) :
    (p ++ q).Gapped x := hp.append (overlooks_of_untested hq)

end Pattern

namespace Grammar

open Pattern

variable {t b : Text} {s : Statement}

/-! ## The start of a logical line -/

@[simp] theorem afresh_logicalStart : Afresh logicalStart where
  near c c' hc _ := by
    rw [logicalStart, logicalStart, atLineStart, atLineStart, isAfter, isAfter, hc]
  afresh a c := by
    simp only [logicalStart, atLineStart, isAfter, Cursor.before_behind, List.reverse_append]
    rcases c.before with _ | ⟨x, _ | ⟨y, r⟩⟩ <;> simp [List.isPrefixOf]
  afreshLine a c := by
    simp only [logicalStart, atLineStart, isAfter, Cursor.before_behind, List.reverse_append]
    rcases c.before with _ | ⟨x, _ | ⟨y, r⟩⟩ <;> simp [List.isPrefixOf]

theorem opensOnce_logicalStart : OpensOnce ' ' logicalStart where
  start b := rfl
  shut b := rfl
  behind c hc := by
    obtain ⟨x, r, hx⟩ := List.exists_cons_of_ne_nil hc
    simp only [logicalStart, atLineStart, isAfter, Cursor.before_behind, hx]
    cases r <;> simp [List.isPrefixOf]

@[simp] theorem builtOn_start {cs : Text} (h : ';' ∈ cs) :
    (statementStart cs : Pattern Part).BuiltOn Afresh := ⟨afresh_statementStart h, rfl⟩

@[simp] theorem builtOn_wordEdge : (wordEdge : Pattern Part).BuiltOn Afresh := afresh_atWordEdge

/-! ## Statements that take no semicolon -/

theorem Sequential.of_excludes (hp : s.pattern.BuiltOn Afresh) (h : s.pattern.excludes ';' = true)
    (hgapped : s.pattern.Gapped ' ') (hneeds : s.pattern.Needs fun c => isBlank c = false)
    (hnames : ReadsParts s) : Sequential t s :=
  ⟨.staysIn fun _ => carries_inside hp h, hp, hgapped, hneeds, hnames⟩

theorem sequential_haxe : ∀ s ∈ haxe.statements, Sequential t s := by
  have hkeyword : (word "import" ||| word "using" : Pattern Part).Upfront :=
    (upfront_word ⟨'i', rfl, by decide⟩).or (upfront_word ⟨'u', rfl, by decide⟩)
  have hline := onLine_haxe _ List.mem_cons_self
  refine List.forall_mem_singleton.2
    (.of_excludes (by simp) (by decide) ?_ hline.needs hline.names)
  exact gapped_start _ (by decide) hkeyword (by simp)
    |>.append_untested (by simp) |>.append_untested (by simp)

theorem upfront_import : (word "import" : Pattern Part).Upfront :=
  upfront_word ⟨'i', rfl, by decide⟩

theorem sequential_kotlin : ∀ s ∈ kotlin.statements, Sequential t s := by
  have hline := onLine_kotlin _ List.mem_cons_self
  refine List.forall_mem_singleton.2
    (.of_excludes (by simp) (by decide) ?_ hline.needs hline.names)
  exact gapped_start _ (by decide) upfront_import (by simp)
    |>.append_untested (by simp) |>.append_untested (by simp)

theorem sequential_scala : ∀ s ∈ scala.statements, Sequential t s := by
  have hline := onLine_scala _ List.mem_cons_self
  refine List.forall_mem_singleton.2
    (.of_excludes (by simp) (by decide) ?_ hline.needs hline.names)
  exact gapped_start _ (by decide) upfront_import (by simp)
    |>.append_untested (by simp) |>.append_untested (by simp)

theorem gapped_logicalStart {q : Pattern Part} (hq : q.Upfront) (hq' : q.BuiltOn fun _ => False) :
    (.here logicalStart ++ gaps0 ++ q : Pattern Part).Gapped ' ' :=
  ⟨_, q, fun _ => rfl, hq, opensOnce_logicalStart, overlooks_of_untested hq'⟩

theorem untested_gaps : (many1 gap : Pattern Part).BuiltOn fun _ => False := by
  simp [gap, continuation, many1]

theorem sequential_importNames : Sequential t importNames := by
  refine .of_excludes (by simp [importNames, nameSeparator, gap, continuation, many1])
    (by decide) ?_ ?_ fun m m' h => ?_
  · exact gapped_logicalStart upfront_import (by simp)
      |>.append_untested untested_gaps
      |>.append_untested (by simp [nameSeparator, gap, continuation, many1])
  · exact (needs_word ⟨'i', by decide⟩).after _ |>.append _ |>.append _
  · dsimp only [importNames]
    rw [partOrEmpty_congr h]

theorem sequential_importFrom : Sequential t importFrom := by
  refine .of_excludes (by simp [importFrom, gap, continuation, many1]) (by decide)
    ?_ ?_ fun m m' h => ?_
  · have hspace : EndsApart [' '] := by
      rintro c ⟨⟩
      decide
    exact gapped_logicalStart (upfront_word ⟨'f', rfl, by decide⟩) (by simp)
      |>.append_untested untested_gaps |>.append_untested (by simp)
      |>.append_untested untested_gaps
      |>.append_untested (by simp) |>.append (overlooks_wordEdge hspace)
  · exact (needs_word ⟨'f', by decide⟩).after _ |>.append _ |>.append _ |>.append _ |>.append _
      |>.append _
  · dsimp only [importFrom]
    rw [partOrEmpty_congr h]

theorem sequential_python : ∀ s ∈ python.statements, Sequential t s := by
  intro s hs
  have hforms : s = importNames ∨ s = importFrom := by simpa [python] using hs
  rcases hforms with rfl | rfl
  · exact sequential_importNames
  · exact sequential_importFrom

theorem sequential_externCrate : Sequential t externCrate := by
  refine .of_excludes (by simp [externCrate]) (by decide) ?_ ?_ fun m m' h => ?_
  · exact (gapped_start [';', '{', '}'] (by decide) Rust.upfront_externEnd
      (by simp [Rust.externEnd])).congr Rust.externCrate_ends
  · exact (needs_word ⟨'e', by decide⟩).after _ |>.append _ |>.append _ |>.append _ |>.append _
  · dsimp only [externCrate]
    rw [partOrEmpty_congr h]

/-! ## Statements that take their semicolon -/

theorem Sequential.of_semicolon {core : Pattern Part} (hs : s.pattern = core ++ char ';')
    (hp : core.BuiltOn Afresh) (h : core.excludes ';' = true) (hgapped : s.pattern.Gapped ' ')
    (hnames : ReadsParts s) : Sequential t s where
  stays := hs ▸ .staysIn_semicolon fun _ => carries_inside hp h
  tests := hs ▸ ⟨hp, trivial⟩
  gapped := hgapped
  needs := hs ▸ needs_semicolon.after _
  names := hnames

theorem sequential_usingDirective : Sequential t usingDirective := by
  have husing : (word "using" : Pattern Part).Upfront := upfront_word ⟨'u', rfl, by decide⟩
  have hglobal : (word "global" ++ gaps1 : Pattern Part).Upfront :=
    (upfront_word ⟨'g', rfl, by decide⟩).append _
  refine .of_semicolon rfl (by simp) (by decide) ?_ onLine_usingDirective.names
  have hstart : (statementStart [';', '{', '}'] ++ maybe (word "global" ++ gaps1) ++
      word "using" : Pattern Part).Gapped ' ' :=
    (gapped_start _ (by decide) (hglobal.maybe_append husing) (by simp)).congr
      (ends_append_assoc _ _ _)
  exact hstart.append_untested (by simp) |>.append_untested (by simp)
    |>.append_untested (by simp) |>.append_untested (by simp) |>.append_untested (by simp)
    |>.append_untested (by simp) |>.append_untested (by simp) |>.append_untested (by simp)

theorem sequential_packageImport : Sequential t packageImport := by
  refine .of_semicolon rfl (by simp) (by decide) ?_ onLine_packageImport.names
  exact gapped_start _ (by decide) upfront_import (by simp)
    |>.append_untested (by simp) |>.append_untested (by simp) |>.append_untested (by simp)
    |>.append_untested (by simp) |>.append_untested (by simp) |>.append_untested (by simp)

theorem sequential_useStatement : Sequential t useStatement := by
  have huse : (word "use" : Pattern Part).Upfront := upfront_word ⟨'u', rfl, by decide⟩
  refine .of_semicolon rfl (by simp) (by decide) ?_ fun m m' h => ?_
  · exact gapped_start _ (by decide) huse (by simp)
      |>.append_untested (by simp) |>.append_untested (by simp) |>.append_untested (by simp)
  · dsimp only [useStatement]
    rw [partOrEmpty_congr h]

/-! ## Statements with brackets in them -/

theorem carries_maybe {p : Pattern Part} {R : Cursor → Cursor → Prop} (hp : p.Carries R R) :
    (maybe p).Carries R R := hp.or carries_empty

theorem ne_of_bne_and {x c : Char} {q : Bool} (h : (x != c && q) = true) : x ≠ c :=
  bne_iff_ne.1 (Bool.and_eq_true_iff.1 h).1

theorem carries_parentheses (ht : Closed '(' ')' t) :
    (char '(' ++ some0 (fun c => c != ')' && c != '\n') ++ char ')' : Pattern Part).Carries
      (Alongside (LeftOf t [';']) b) (Alongside (LeftOf t [';']) b) :=
  carries_brackets (fun _ => ne_of_bne_and) ht (List.cons_ne_nil _ _) (by decide)

theorem sequential_swift (ht : Closed '(' ')' t) : ∀ s ∈ swift.statements, Sequential t s := by
  have hline := onLine_swift _ List.mem_cons_self
  refine List.forall_mem_singleton.2 {
    stays := .staysIn fun b => ?_
    tests := by simp [symbolKind]
    gapped := ?_
    needs := hline.needs
    names := hline.names }
  · have hattributes := ((((carries_inside (p := char '@' ++ some1 isWord) (b := b) (by simp)
      (by decide)).append (carries_maybe (carries_parentheses ht))).append
        (carries_inside (p := gaps1) (by simp) (by decide))).many (fun c c' hc => hc.offset)
          true 0 none)
    exact ((((carries_inside (by simp) (by decide)).append hattributes).append
      (carries_inside (by simp) (by decide))).append (carries_inside (by simp) (by decide))).append
        (carries_inside (by simp [symbolKind]) (by decide)) |>.append
          (carries_inside (by simp) (by decide))
  · have hattribute : (char '@' ++ some1 isWord ++
        maybe (char '(' ++ some0 (fun c => c != ')' && c != '\n') ++ char ')') ++ gaps1 :
        Pattern Part).Upfront :=
      (((upfront_text (t := ['@']) ⟨'@', rfl, by decide⟩).append _).append _).append _
    exact (gapped_start _ (by decide) (hattribute.many0_append upfront_import) (by simp)).congr
      (ends_append_assoc _ _ _) |>.append_untested (by simp)
      |>.append_untested (by simp [symbolKind]) |>.append_untested (by simp)

theorem carries_outerAttribute (ht : Closed '[' ']' t) : Rust.outerAttribute.Carries
    (Alongside (LeftOf t [';']) b) (Alongside (LeftOf t [';']) b) :=
  (((((carries_inside (by simp) (by decide)).append
    (carries_opener ht (List.cons_ne_nil _ _) (by decide))).append
      (seam_leftOpen.carries_run (fun _ => ne_of_bne_and) true 0)).append carries_closer)).append
        (carries_inside (by simp) (by decide))

theorem carries_visibility (ht : Closed '(' ')' t) : Rust.visibility.Carries
    (Alongside (LeftOf t [';']) b) (Alongside (LeftOf t [';']) b) :=
  ((carries_inside (by simp) (by decide)).append (carries_maybe (carries_parentheses ht))).append
    (carries_inside (by simp) (by decide))

theorem sequential_useDeclaration (ht : Closed '(' ')' t) (ht' : Closed '[' ']' t) :
    Sequential t useDeclaration where
  stays := by
    apply Carries.staysIn_semicolon
    intro b
    have hattributes := (carries_outerAttribute (b := b) ht').many (fun c c' hc => hc.offset)
      true 0 none
    exact (((((carries_inside (by simp) (by decide)).append hattributes).append
      (carries_maybe (carries_visibility ht))).append (carries_inside (by simp) (by decide))).append
        (carries_inside (by simp) (by decide))).append (carries_inside (by simp) (by decide))
  tests := by simp [useDeclaration]
  gapped := (gapped_start [';', '{', '}'] (by decide) Rust.upfront_useEnd
    (by simp [Rust.useEnd, Rust.outerAttribute, Rust.visibility, Rust.restriction])).congr
      Rust.useDeclaration_ends
  needs := needs_semicolon.after _
  names m m' h := by
    dsimp only [useDeclaration]
    rw [partOrEmpty_congr h]

end Grammar
end ImportScan
