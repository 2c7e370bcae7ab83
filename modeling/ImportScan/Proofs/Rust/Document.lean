import ImportScan.Language
import ImportScan.Proofs.Grammar.Scan
import ImportScan.Proofs.Rust.Reading

/-!
# What use declarations import

At the start of a line its own form takes a declaration whole, and no external crate item starts in
it (`Declaration.noneIn_externCrate`), so the declarations are read one after the other
(`Declaration.importsFrom_text`). Neither form starts in the white space that ends a line. By
induction a document gives the crates of its declarations (`parse_declarations`).
-/

namespace ImportScan.Rust

open Grammar Pattern Segment Text

variable {a b t : Text}

/-! ## Where a form may start -/

/-- What a use declaration goes on with behind its indent. -/
def useEnd : Pattern Part :=
  many0 outerAttribute ++ (maybe visibility ++ (word "use" ++ (gaps1 ++
    (.part .body (some1 (· != ';')) ++ char ';'))))

theorem useDeclaration_ends (s : Point Part) :
    useDeclaration.pattern.ends s = (statementStart [';', '{', '}'] ++ useEnd).ends s := by
  simp only [useDeclaration, useEnd, outerAttribute, visibility, restriction, ends_append_assoc]

theorem upfront_useEnd : useEnd.Upfront := by
  have hattribute : outerAttribute.Upfront :=
    (((upfront_word ⟨'#', rfl, by decide⟩).append _).append _).append _
  have hvisibility : visibility.Upfront :=
    ((upfront_word ⟨'p', rfl, by decide⟩).append _).append _
  have huse : (word "use" ++ (gaps1 ++ (.part .body (some1 (· != ';')) ++ char ';')) :
      Pattern Part).Upfront := (upfront_word ⟨'u', rfl, by decide⟩).append _
  exact hattribute.many0_append (hvisibility.maybe_append huse)

theorem isIndented_rust : rust.IsIndented [';', '{', '}'] := by
  intro f hf
  have hforms : f = useDeclaration ∨ f = externCrate := by simpa [rust] using hf
  rcases hforms with rfl | rfl
  · exact ⟨useEnd, upfront_useEnd, useDeclaration_ends⟩
  · exact ⟨externEnd, upfront_externEnd, externCrate_ends⟩

namespace Declaration

variable (d : Declaration)

/-- What stands in front of a declaration's tree and white space. -/
def front : Text := d.indent.val ++ (d.visibility.text ++ "use".toList)

theorem text_eq : d.text = d.front ++ (d.body ++ [';']) := by
  simp only [text, front, List.append_assoc]

/-- The characters in front of a tree. -/
def isFrontChar (c : Char) : Bool := isWord c || isGap c || ['(', ')', ':'].contains c

theorem isFrontChar_front : ∀ c ∈ d.front, isFrontChar c = true := by
  have hgaps {g : Text} (hg : ∀ c ∈ g, isGap c = true) : ∀ c ∈ g, isFrontChar c = true := by
    intro c hc
    simp [isFrontChar, hg c hc]
  have hpub : ∀ c ∈ "pub".toList, isFrontChar c = true := by decide
  have hvisibility : ∀ c ∈ d.visibility.text, isFrontChar c = true := by
    cases d.visibility with
    | inherited => exact fun c hc => nomatch hc
    | everywhere gap => exact List.forall_mem_append.2 ⟨hpub, hgaps gap.2.2⟩
    | within scope gap =>
      have hscope : ∀ c ∈ scope.val, isFrontChar c = true := by
        intro c hc
        rcases scope.2 c hc with h | rfl | rfl
        · simp [isFrontChar, h]
        · decide
        · decide
      have hparens : isFrontChar '(' = true ∧ isFrontChar ')' = true := by decide
      refine List.forall_mem_append.2 ⟨hpub, List.forall_mem_append.2
        ⟨List.forall_mem_singleton.2 hparens.1, List.forall_mem_append.2 ⟨hscope, ?_⟩⟩⟩
      exact List.forall_mem_append.2 ⟨List.forall_mem_singleton.2 hparens.2, hgaps gap.2.2⟩
  have huse : ∀ c ∈ "use".toList, isFrontChar c = true := by decide
  exact List.forall_mem_append.2 ⟨hgaps d.indent.2, List.forall_mem_append.2 ⟨hvisibility, huse⟩⟩

/-- Inside of it no statement may start. -/
theorem quiet_front : ∀ c ∈ d.front, Quiet [';', '{', '}'] c := by
  have hmarks : ∀ x ∈ ['\n', ';', '{', '}'], isFrontChar x = false := by decide
  intro c hc
  have hnot : c ∉ ['\n', ';', '{', '}'] := by
    intro hmem
    have hclass := d.isFrontChar_front c hc
    rw [hmarks c hmem] at hclass
    cases hclass
  exact not_or.1 (hnot ∘ List.mem_cons.2)

end Declaration

/-- Behind a visibility, the word `use` starts no external crate item. -/
theorem Visibility.ends_externEnd (v : Visibility) {s : Point Part} {r : Text}
    (hs : s.cursor.after = v.text ++ ("use".toList ++ r)) : externEnd.ends s = [] := by
  refine List.eq_nil_iff_forall_not_mem.2 fun e he => ?_
  obtain ⟨m, hm, g, r', hafter, -⟩ := exists_of_mem_ends_externEnd he
  rcases mem_ends_or.1 hm with hm | hm
  · obtain ⟨m', hpub, hgaps⟩ := mem_ends_append.1 hm
    obtain ⟨rest, hrest, rfl⟩ := mem_ends_text.1 hpub
    obtain ⟨g', rest', hrest', hg', hlen, rfl⟩ := mem_ends_run.1 hgaps
    rw [Point.after_skip_of_eq hrest] at hrest'
    rw [Point.after_skip_of_eq (Point.after_skip_of_eq hrest ▸ hrest')] at hafter
    subst hrest' hafter
    rw [hs] at hrest
    cases v with
    | inherited => exact absurd (List.cons.inj hrest).1 (by decide)
    | everywhere gap =>
      have hcut : gap.val ++ 'u' :: ("se".toList ++ r) =
          g' ++ 'e' :: ("xtern".toList ++ (g ++ ("crate".toList ++ r'))) := by
        rw [text, List.append_assoc] at hrest
        exact List.append_cancel_left hrest
      obtain ⟨-, hne, -⟩ := append_cons_inj_of_run gap.2.2 hg' (by decide) (by decide) hcut
      exact absurd hne (by decide)
    | within scope gap =>
      obtain ⟨y, g', rfl⟩ := List.exists_cons_of_ne_nil (List.length_pos_iff.1 hlen)
      have hparen : '(' = y := by
        rw [text, List.append_assoc] at hrest
        exact (List.cons.inj (List.append_cancel_left hrest)).1
      exact absurd (hg' y List.mem_cons_self) (hparen ▸ by decide)
  · obtain rfl : m = s := List.mem_singleton.1 hm
    rw [hs] at hafter
    cases v with
    | inherited => exact absurd (List.cons.inj hafter).1 (by decide)
    | everywhere gap => exact absurd (List.cons.inj hafter).1 (by decide)
    | within scope gap => exact absurd (List.cons.inj hafter).1 (by decide)

namespace Declaration

variable (d : Declaration)

/-- No external crate item starts in a declaration. -/
theorem noneIn_externCrate (a b : Text) : externCrate.pattern.NoneIn a d.text b := by
  rw [text_eq]
  refine NoneIn.append ?_ (noneIn_of_calm d.semicolon_not_mem_body (d.calm_body b))
  apply NoneIn.congr (q := externCrate.pattern) ?_ externCrate_ends
  obtain ⟨x, front, hfront⟩ : ∃ x front, d.front = x :: front :=
    List.exists_cons_of_ne_nil (List.append_ne_nil_of_right_ne_nil _
      (List.append_ne_nil_of_right_ne_nil _ (List.cons_ne_nil _ _)))
  have hquiet : ∀ c ∈ x :: front, Quiet [';', '{', '}'] c := hfront ▸ d.quiet_front
  rw [hfront]
  apply NoneIn.cons
  · -- the item would have to start behind the indent
    refine List.eq_nil_iff_forall_not_mem.2 fun e he => ?_
    obtain ⟨-, g, m, hafter, hg, hsolid, he⟩ := exists_of_mem_ends_indented upfront_externEnd he
    have hcut : g ++ m.cursor.after =
        d.indent.val ++ (d.visibility.text ++ ("use".toList ++ ((d.body ++ [';']) ++ b))) := by
      rw [← hafter, Cursor.after_between, ← List.cons_append, ← hfront]
      simp only [Declaration.front, List.append_assoc]
    obtain ⟨y, r, hm, hy⟩ := hsolid.exists_cons
    obtain ⟨z, r', hv, hz⟩ := (d.visibility.startsSolid ((d.body ++ [';']) ++ b)).exists_cons
    have hnogap {c : Char} (hc : isBlank c = false) : isGap c = false := by
      cases hgap : isGap c with
      | false => rfl
      | true => exact absurd (isBlank_of_isGap hgap) (by simp [hc])
    rw [hm, hv] at hcut
    obtain ⟨-, rfl, rfl⟩ :=
      append_cons_inj_of_run hg d.indent.2 (hnogap hy) (hnogap hz) hcut
    rw [d.visibility.ends_externEnd (hm.trans hv.symm)] at he
    cases he
  · exact noneIn_quiet upfront_externEnd (hquiet x List.mem_cons_self) fun c hc =>
      hquiet c (List.mem_cons_of_mem x hc)

/-! ## What it imports -/

theorem names_eq {m : Match Part} {body : Text} (hbody : m.part? .body = some body)
    (hwords : join [' '] (words body) = d.tree.textBy space) :
    useDeclaration.names m = d.crates := by
  have hpart : m.partOrEmpty .body = body := by
    rw [Match.partOrEmpty, hbody]
    rfl
  show ((treeItems (m.partOrEmpty .body)).map pathRoot).filter isForeignRoot = _
  rw [hpart, d.tree.roots_eq hwords]
  rfl

/-- A declaration where a statement may start gives its crates. -/
theorem importsFrom_text (hstart : mayStart [';', '{', '}'] (.between a (d.text ++ b)) = true) :
    rust.importsFrom (a.map .code) ((d.text ++ b).map .code) =
      d.crates ++ rust.importsFrom ((a ++ d.text).map .code) (b.map .code) := by
  obtain ⟨e, body, he, hafter, hbody, hwords⟩ :=
    d.exists_prefers (s := ⟨.between a (d.text ++ b), []⟩) hstart rfl
  have hforms : rust.statements = [] ++ useDeclaration :: [externCrate] := rfl
  have hcode : ∃ c ∈ d.text, isBlank c = false := by
    refine ⟨';', ?_, by decide⟩
    rw [text_eq]
    simp
  refine importsFrom_code_match hcode hforms he hafter
    (fun m hm => d.names_eq ((hm _).trans hbody) hwords) fun f hf => ?_
  obtain rfl : f = externCrate := List.mem_singleton.1 hf
  exact d.noneIn_externCrate a b

end Declaration

theorem mayStart_of_endsLine (ha : EndsLine a) (b : Text) :
    mayStart [';', '{', '}'] (.between a b) = true :=
  mayStart_between_iff.2 fun c hc => ha c hc ▸ List.mem_cons_self

theorem document_singleton (d : Declaration) : document [d] = d.text ++ d.trailing.val :=
  List.append_nil _

theorem document_cons (d d' : Declaration) (ds : List Declaration) :
    document (d :: d' :: ds) =
      d.text ++ ((d.trailing.val ++ ['\n']) ++ document (d' :: ds)) := by
  have hmore : (d' :: ds).map (fun d => d.text ++ d.trailing.val) ≠ [] := List.cons_ne_nil _ _
  rw [document, List.map_cons, join_cons_cons _ _ hmore]
  simp only [document, List.append_assoc]

/-- Where a line starts, a document gives the crates of its declarations. -/
theorem importsFrom_document (ds : List Declaration) (ha : EndsLine a) :
    rust.importsFrom (a.map .code) ((document ds).map .code) = ds.flatMap Declaration.crates := by
  induction ds generalizing a with
  | nil => exact isIndented_rust.importsFrom_end a
  | cons d ds ih =>
    rw [List.flatMap_cons]
    cases ds with
    | nil =>
      rw [document_singleton, ← List.append_nil d.trailing.val,
        d.importsFrom_text (mayStart_of_endsLine ha _),
        isIndented_rust.importsFrom_blanks d.trailing.2 (.inl rfl), List.map_nil,
        isIndented_rust.importsFrom_end]
      rfl
    | cons d' ds =>
      have hblank : AllBlank (d.trailing.val ++ ['\n']) :=
        List.forall_mem_append.2 ⟨d.trailing.2, List.forall_mem_singleton.2 (by decide)⟩
      have hlast : (d.trailing.val ++ ['\n']).getLast? = some '\n' := List.getLast?_concat
      have hline : EndsLine (a ++ d.text ++ (d.trailing.val ++ ['\n'])) := by
        intro c hc
        rw [← List.append_assoc, List.getLast?_concat] at hc
        exact (Option.some.inj hc).symm
      rw [document_cons, d.importsFrom_text (mayStart_of_endsLine ha _),
        isIndented_rust.importsFrom_blanks hblank (.inr ⟨'\n', hlast, by decide⟩), ih hline]

/-- A document has no opener of a comment or a string. -/
theorem not_mem_document {z : Char} (htree : isTreeChar z = false) (hmark : z ≠ ';')
    (hfront : Declaration.isFrontChar z = false) (ds : List Declaration) : z ∉ document ds := by
  have hline (d : Declaration) : z ∉ d.text ++ d.trailing.val := by
    rw [d.text_eq]
    intro hz
    rcases List.mem_append.1 hz with hz | hz
    · rcases List.mem_append.1 hz with hz | hz
      · exact not_mem_of_class d.isFrontChar_front hfront hz
      · rcases List.mem_append.1 hz with hz | hz
        · exact not_mem_of_class d.treeText_body htree hz
        · exact hmark (List.mem_singleton.1 hz)
    · exact not_mem_of_class (treeText_blanks d.trailing.2) htree hz
  have hnewline : z ≠ '\n' := by
    rintro rfl
    exact absurd htree (by decide)
  induction ds with
  | nil => exact fun h => nomatch h
  | cons d ds ih =>
    cases ds with
    | nil => exact document_singleton d ▸ hline d
    | cons d' ds =>
      rw [document_cons, ← List.append_assoc, ← List.append_assoc]
      intro hz
      rcases List.mem_append.1 hz with hz | hz
      · rcases List.mem_append.1 hz with hz | hz
        · exact hline d hz
        · exact hnewline (List.mem_singleton.1 hz)
      · exact ih hz

/-- **Declarations give their crates**: the first identifiers of the items at the top of each tree,
in order, but for those that lead into the current crate, however the trees nest and whatever white
space stands in them. -/
theorem parse_declarations (ds : List Declaration) :
    Parser.rust.parse (document ds) = .ok (ds.flatMap Declaration.crates) := by
  have hplain : ∀ c ∈ document ds, ∀ m ∈ rust.lexis.openers, c ≠ m.head := by
    have hheads : ∀ m ∈ rust.lexis.openers, isTreeChar m.head = false ∧ m.head ≠ ';' ∧
        Declaration.isFrontChar m.head = false := by decide
    rintro c hc m hm rfl
    obtain ⟨htree, hmark, hfront⟩ := hheads m hm
    exact not_mem_document htree hmark hfront ds hc
  have himports : rust.imports (document ds) =
      rust.importsFrom [] ((document ds).map .code) := by
    refine imports_eq_importsFrom (fun _ => rfl) fun contents => ?_
    rw [Lexis.cleaned_eq_self hplain, Segment.showAll_code]
  have hdocument := importsFrom_document (a := []) ds fun c hc => nomatch hc
  exact congrArg Except.ok (himports.trans hdocument)

end ImportScan.Rust
