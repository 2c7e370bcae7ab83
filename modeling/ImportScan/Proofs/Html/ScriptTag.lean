import ImportScan.Language
import ImportScan.Proofs.Grammar.Scan
import ImportScan.Proofs.Html.Attribute
import Mathlib.Data.List.Find

/-!
# The source of a script tag

The search goes through a tag until what it looks for starts for the first time, so it finds the
first attribute whose name ends in `src` (`prefers_scriptTag`, `noneIn_scriptTag`): the tag gives
the value of that attribute, trimmed, and nothing if there is none (`parse_scriptTag`).
-/

namespace ImportScan.Html

open Grammar Pattern Text

variable {a b r t : Text} {attrs : List Attribute} {s : Point Part}

/-- The start tag of a script with these attributes. -/
def scriptTag (attrs : List Attribute) : Text :=
  "<script".toList ++ (attrs.flatMap Attribute.text ++ ['>'])

/-- What stands in the tag in front of the source: as little as possible. -/
def inside : Pattern Part := .run false (· != '>') 0 none

theorem scriptSource_ends (s : Point Part) : scriptSource.pattern.ends s =
    (anyCase "<script".toList ++ (wordEdge ++ (inside ++ sourceEnd))).ends s := by
  have hends (p q : Pattern Part) : (p ++ q).ends = fun s => (p.ends s).flatMap q.ends := rfl
  simp only [scriptSource, inside, sourceEnd, hends, List.flatMap_assoc]

/-! ## Where the form may start -/

theorem exists_of_ends_scriptSource (hs : scriptSource.pattern.ends s ≠ []) :
    ∃ x r, s.cursor.after = x :: r ∧ x = '<' := by
  obtain ⟨e, he⟩ := List.exists_mem_of_ne_nil _ hs
  rw [scriptSource_ends] at he
  obtain ⟨m, hopen, -⟩ := mem_ends_append.1 he
  obtain ⟨w, r, hafter, hw, -⟩ := (TakesJust.anyCase _ _ _).1 hopen
  obtain ⟨x, w, rfl, hx, -⟩ := List.map_eq_cons_iff.1 hw
  have hbracket : fold '<' = '<' ∧ ¬BeyondMarks '<'.toNat := by
    refine ⟨by decide +kernel, ?_⟩
    unfold BeyondMarks
    decide
  exact ⟨x, w ++ r, hafter, eq_of_fold_eq hbracket.2 (hx.trans hbracket.1)⟩

theorem noneIn_of_notMem (ht : '<' ∉ t) : scriptSource.pattern.NoneIn a t b :=
  noneIn_of_head (fun _ => exists_of_ends_scriptSource) fun _ hc hbracket => ht (hbracket ▸ hc)

/-- No bracket stands in an attribute. -/
theorem brackets_notMem (attrs : List Attribute) :
    ∀ m ∈ ['<', '>'], m ∉ attrs.flatMap Attribute.text := by
  intro m hm hmem
  obtain ⟨a, -, hmem⟩ := List.mem_flatMap.1 hmem
  have hclass : ∀ m ∈ ['<', '>'], isBlank m = false ∧ ¬(isWord m = true ∨ m = '-') ∧
      m ∈ ['\'', '"', '<', '>', '=', '\n'] ∧ m ≠ '=' ∧ m ≠ '"' := by decide +kernel
  obtain ⟨hblank, hname, hvalue, hsign, hquote⟩ := hclass m hm
  simp only [Attribute.text, List.mem_append, List.mem_cons, List.not_mem_nil, or_false] at hmem
  rcases hmem with (h | h) | h | h | h | h
  · exact absurd (a.gap.2.2 m h) (by simp [hblank])
  · exact hname (a.name.2 m h)
  · exact hsign h
  · exact hquote h
  · exact a.value.2.2 m h hvalue
  · exact hquote h

theorem bracket_notMem_rest (attrs : List Attribute) :
    '<' ∉ attrs.flatMap Attribute.text ++ ['>'] := by
  intro h
  rcases List.mem_append.1 h with h | h
  · exact brackets_notMem attrs '<' (by decide) h
  · exact absurd h (by decide)

/-- A script tag is no comment. -/
theorem cleaned_scriptTag (attrs : List Attribute) (contents : StringContents) :
    html.lexis.cleaned contents (scriptTag attrs) = scriptTag attrs := by
  have hheads : ∀ m ∈ html.lexis.openers, m.head = '<' := by decide
  have hplain : ∀ c ∈ "script".toList ++ (attrs.flatMap Attribute.text ++ ['>']),
      ∀ m ∈ html.lexis.openers, c ≠ m.head := by
    intro c hc m hm hbracket
    rw [hheads m hm] at hbracket
    rcases List.mem_append.1 (hbracket ▸ hc) with h | h
    · exact absurd h (by decide)
    · exact bracket_notMem_rest attrs h
  have hopen : html.lexis.markerAt? (scriptTag attrs) = none := rfl
  exact (Lexis.cleaned_cons_code contents hopen).trans
    (congrArg ('<' :: ·) (Lexis.cleaned_eq_self hplain contents))

/-! ## The first source -/

/-- Behind its name the tag goes on with no word character. -/
theorem atWordEdge_open (attrs : List Attribute) :
    atWordEdge (.between "<script".toList (attrs.flatMap Attribute.text ++ ['>'])) = true := by
  have hapart : StartsApart (attrs.flatMap Attribute.text ++ ['>']) := by
    cases attrs with
    | nil => exact fun c hc => Option.some.inj hc ▸ by decide
    | cons a attrs =>
      simp only [List.flatMap_cons, Attribute.text, List.append_assoc]
      exact startsApart_spaces a.gap _
  have hname : "<script".toList = "<scrip".toList ++ ['t'] := rfl
  rw [hname]
  exact (atWordEdge_between_concat (by decide)).2 hapart

/-- The place behind the name of the tag. -/
theorem skip_open (rest : Text) :
    (⟨.between [] ("<script".toList ++ rest), []⟩ : Point Part).skip "<script".toList.length =
      ⟨.between "<script".toList rest, []⟩ :=
  congrArg (Point.mk · []) (Cursor.skip_between [] "<script".toList rest)

/-- Where the form starts, the source starts somewhere in the tag. -/
theorem exists_of_ends_tag {rest : Text}
    (hs : scriptSource.pattern.ends ⟨.between [] ("<script".toList ++ rest), []⟩ ≠ []) :
    ∃ t r, rest = t ++ r ∧ '>' ∉ t ∧
      sourceEnd.ends (Point.skip t.length ⟨.between "<script".toList rest, []⟩) ≠ [] := by
  obtain ⟨e, he⟩ := List.exists_mem_of_ne_nil _ hs
  rw [scriptSource_ends] at he
  obtain ⟨m, hopen, he⟩ := mem_ends_append.1 he
  obtain ⟨m', hedge, he⟩ := mem_ends_append.1 he
  obtain ⟨m'', hinside, he⟩ := mem_ends_append.1 he
  obtain ⟨w, r, hafter, hw, hm⟩ := (TakesJust.anyCase _ _ _).1 hopen
  obtain ⟨-, hm'⟩ := mem_ends_here.1 hedge
  have hlength : w.length = "<script".toList.length := by
    simpa using congrArg List.length hw
  rw [hm', hm, hlength, skip_open] at hinside
  obtain ⟨t, r', hrest, ht, -, rfl⟩ := mem_ends_run.1 hinside
  refine ⟨t, r', hrest, fun hend => ?_, List.ne_nil_of_mem he⟩
  exact absurd (ht '>' hend) (by decide)

/-- Where no attribute's name ends in `src`, the form does not start. -/
theorem noneIn_scriptTag (h : ∀ a ∈ attrs, a.endsInSource = false) :
    scriptSource.pattern.NoneIn [] (scriptTag attrs) [] := by
  have hrest : sourceEnd.NoneIn "<script".toList (attrs.flatMap Attribute.text ++ ['>']) [] :=
    (noneIn_attributes h _ _).append (noneIn_mark (by decide))
  have hnone : scriptSource.pattern.NoneIn ([] ++ ['<'])
      ("script".toList ++ (attrs.flatMap Attribute.text ++ ['>'])) [] := by
    refine noneIn_of_notMem fun hmem => ?_
    rcases List.mem_append.1 hmem with hmem | hmem
    · exact absurd hmem (by decide)
    · exact bracket_notMem_rest attrs hmem
  refine NoneIn.cons ?_ hnone
  by_contra hs
  rw [List.append_nil] at hs
  obtain ⟨t, r, ht, hend, hs⟩ := exists_of_ends_tag hs
  -- the bracket is not gone over, so the place is one in the tag
  have hlt : t.length < (attrs.flatMap Attribute.text ++ ['>']).length := by
    refine Nat.lt_of_not_le fun hle => hend ?_
    have hprefix : attrs.flatMap Attribute.text ++ ['>'] <+: t :=
      List.prefix_of_prefix_length_le (List.prefix_refl _) (ht ▸ List.prefix_append t r) hle
    exact hprefix.subset (List.mem_append_right _ (List.mem_singleton_self _))
  have hends := hrest.ends_skip hlt
  rw [List.append_nil] at hends
  exact hs hends

/-- Behind the name of the tag the form goes on to where the source starts for the first time. -/
theorem prefers_open {e : Point Part}
    (hedge : atWordEdge (.between "<script".toList (t ++ r)) = true)
    (ht : ∀ c ∈ t, c ≠ '>') (hnone : sourceEnd.NoneIn "<script".toList t r)
    (he : sourceEnd.Prefers ⟨.between ("<script".toList ++ t) r, []⟩ e) :
    scriptSource.pattern.Prefers ⟨.between [] ("<script".toList ++ (t ++ r)), []⟩ e := by
  have hopen := takesFirst_anyCase (ι := Part) (k := "<script".toList) rfl (t ++ r)
    ⟨.between [] ("<script".toList ++ (t ++ r)), []⟩ rfl
  rw [skip_open] at hopen
  have hplace : Point.skip t.length (⟨.between "<script".toList (t ++ r), []⟩ : Point Part) =
      ⟨.between ("<script".toList ++ t) r, []⟩ :=
    congrArg (Point.mk · []) (Cursor.skip_between _ _ _)
  have hsource : (inside ++ sourceEnd).Prefers ⟨.between "<script".toList (t ++ r), []⟩ e := by
    refine prefers_lazy_run_append (Cursor.after_between _ _) (fun c hc => bne_iff_ne.2 (ht c hc))
      (Nat.zero_le _) (fun n hn => hnone.ends_skip hn) ?_
    rw [hplace]
    exact he
  unfold Prefers
  rw [scriptSource_ends]
  exact hopen.append ((prefers_here hedge).append hsource)

/-- The form takes the tag up to the end of the first attribute whose name ends in `src`. -/
theorem prefers_scriptTag {before : List Attribute} {a : Attribute}
    (hbefore : ∀ a ∈ before, a.endsInSource = false) (ha : a.endsInSource = true)
    (after : List Attribute) :
    let rest := after.flatMap Attribute.text ++ ['>']
    ∃ e, scriptSource.pattern.Prefers ⟨.between [] ("<script".toList ++
        (before.flatMap Attribute.text ++ a.text) ++ rest), []⟩ e ∧ e.cursor.after = rest ∧
      e.part? .name = some a.value.val := by
  intro rest
  obtain ⟨f, w, htext, hf, hnone, e, he, hafter, hname⟩ :=
    a.exists_front ha ("<script".toList ++ before.flatMap Attribute.text) rest
  have hrest : (before.flatMap Attribute.text ++ a.text) ++ rest =
      (before.flatMap Attribute.text ++ f) ++ (w ++ rest) := by
    rw [htext]
    simp only [List.append_assoc]
  have hedge : atWordEdge (.between "<script".toList
      (before.flatMap Attribute.text ++ f ++ (w ++ rest))) = true := by
    have hattrs := atWordEdge_open (before ++ a :: after)
    rwa [List.flatMap_append, List.flatMap_cons, ← List.append_assoc (before.flatMap _),
      List.append_assoc, hrest] at hattrs
  have hinside : ∀ c ∈ before.flatMap Attribute.text ++ f, c ≠ '>' := by
    refine List.forall_mem_append.2 ⟨fun c hc => ?_, hf⟩
    rintro rfl
    exact brackets_notMem before '>' (by decide) hc
  have hskipped : sourceEnd.NoneIn "<script".toList (before.flatMap Attribute.text ++ f)
      (w ++ rest) := (noneIn_attributes hbefore _ _).append hnone
  rw [List.append_assoc "<script".toList] at he
  refine ⟨e, ?_, hafter, hname⟩
  rw [List.append_assoc, hrest]
  exact prefers_open hedge hinside hskipped he

/-! ## What a tag imports -/

/-- At the end of the text nothing is left. -/
theorem importsFrom_rest (a : Text) (ht : '<' ∉ t) :
    html.importsFrom (a.map .code) (t.map .code) = [] := by
  rw [← List.append_nil t, importsFrom_code_skip fun f hf => ?_]
  · refine importsFrom_nil fun f hf a => ?_
    obtain rfl : f = scriptSource := List.mem_singleton.1 hf
    by_contra hs
    obtain ⟨x, r, hafter, -⟩ := exists_of_ends_scriptSource hs
    rw [Cursor.after_between] at hafter
    cases hafter
  · obtain rfl : f = scriptSource := List.mem_singleton.1 hf
    exact noneIn_of_notMem ht

/-- Where no attribute's name ends in `src`, nothing is imported. -/
theorem importsFrom_scriptTag_nil (h : ∀ a ∈ attrs, a.endsInSource = false) :
    html.importsFrom [] ((scriptTag attrs).map .code) = [] := by
  have hskip := importsFrom_code_skip (g := html) (a := []) (t := scriptTag attrs) (b := [])
    fun f hf => List.mem_singleton.1 hf ▸ noneIn_scriptTag h
  rw [List.append_nil, List.map_nil] at hskip
  rw [hskip]
  exact importsFrom_rest (t := []) _ List.not_mem_nil

/-- The first attribute whose name ends in `src` gives its value. -/
theorem importsFrom_scriptTag {before after : List Attribute} {a : Attribute}
    (hbefore : ∀ a ∈ before, a.endsInSource = false) (ha : a.endsInSource = true) :
    html.importsFrom [] ((scriptTag (before ++ a :: after)).map .code) = [trim a.value.val] := by
  obtain ⟨e, he, hafter, hname⟩ := prefers_scriptTag hbefore ha after
  have htag : scriptTag (before ++ a :: after) = "<script".toList ++
      (before.flatMap Attribute.text ++ a.text) ++ (after.flatMap Attribute.text ++ ['>']) := by
    unfold scriptTag
    rw [List.append_assoc "<script".toList]
    simp only [List.flatMap_append, List.flatMap_cons, List.append_assoc]
  have hsolid : ∃ c ∈ "<script".toList ++ (before.flatMap Attribute.text ++ a.text),
      isBlank c = false := ⟨'<', List.mem_append_left _ (by decide), by decide⟩
  have hread : ∀ m : Match Part, (∀ i, m.part? i = e.part? i) →
      scriptSource.names m = [trim a.value.val] := by
    intro m hm
    obtain ⟨x, v, hvalue⟩ := List.exists_cons_of_ne_nil a.value.2.1
    show Match.nameBy trim m = _
    rw [Match.nameBy, hm, hname, hvalue]
  have hforms : html.statements = [] ++ scriptSource :: [] := rfl
  have hmatch := importsFrom_code_match (a := []) hsolid hforms he hafter hread
    (fun f hf => nomatch hf)
  rw [List.nil_append, importsFrom_rest _ (bracket_notMem_rest after), List.append_nil] at hmatch
  rw [htag]
  exact hmatch

theorem imports_scriptTag (attrs : List Attribute) : html.imports (scriptTag attrs) =
    ((attrs.find? Attribute.endsInSource).map fun a => trim a.value.val).toList := by
  have hcode : html.imports (scriptTag attrs) =
      html.importsFrom [] ((scriptTag attrs).map .code) := by
    refine imports_eq_importsFrom (fun _ => rfl) fun contents => ?_
    rw [cleaned_scriptTag, Segment.showAll_code]
  rw [hcode]
  cases hfind : attrs.find? Attribute.endsInSource with
  | none => exact importsFrom_scriptTag_nil (by simpa using hfind)
  | some a =>
    obtain ⟨ha, before, after, rfl, hbefore⟩ := List.find?_eq_some_iff_append.1 hfind
    exact importsFrom_scriptTag (fun a ha => by simpa using hbefore a ha) ha

/-- An attribute named `src` is one whose name ends in it. -/
theorem Attribute.endsInSource_of_isSource {a : Attribute} (h : a.isSource = true) :
    a.endsInSource = true := by
  have hpiece : lastPiece a.name.val = a.name.val :=
    lastPiece_append (u := []) (fun c hc => nomatch hc) fun hmem =>
      ne_hyphen_of_fold (fold_mem_of_isSrc h _ hmem) rfl
  rw [endsInSource, hpiece]
  exact h

/-- **A script tag gives the value of its source**, trimmed: of the first attribute that has `src`
behind the last hyphen of its name, in any letter case, whatever the other attributes are named and
hold. So where only an attribute named `src` has a name that ends in it, the tag gives the value of
that attribute, and nothing if there is none. -/
theorem parse_scriptTag (attrs : List Attribute) :
    Parser.html.parse (scriptTag attrs) =
      .ok ((attrs.find? Attribute.endsInSource).map fun a => trim a.value.val).toList ∧
    ((∀ a ∈ attrs, a.endsInSource = true → a.isSource = true) →
      Parser.html.parse (scriptTag attrs) =
        .ok ((attrs.find? Attribute.isSource).map fun a => trim a.value.val).toList) := by
  have hparse : Parser.html.parse (scriptTag attrs) =
      .ok ((attrs.find? Attribute.endsInSource).map fun a => trim a.value.val).toList :=
    congrArg Except.ok (imports_scriptTag attrs)
  refine ⟨hparse, fun hnames => ?_⟩
  have hfind : attrs.find? Attribute.endsInSource = attrs.find? Attribute.isSource := by
    refine List.find?_congr fun a ha => Bool.eq_iff_iff.2 ⟨hnames a ha, ?_⟩
    exact Attribute.endsInSource_of_isSource
  rw [hparse, hfind]

/-- A name with a hyphen is taken for that of the source; one in capitals is it. -/
theorem parse_scriptTag_hyphen :
    Parser.html.parse "<script data-src=\"a.js\">".toList = .ok ["a.js".toList] ∧
      Parser.html.parse "<script type=\"module\" SRC=\" b.js\">".toList = .ok ["b.js".toList] := by
  let gap : Spaces := ⟨[' '], List.cons_ne_nil _ _, List.forall_mem_singleton.2 (by decide)⟩
  let data : Attribute := ⟨gap, ⟨"data-src".toList, by decide⟩, ⟨"a.js".toList, by decide⟩⟩
  let type : Attribute := ⟨gap, ⟨"type".toList, by decide⟩, ⟨"module".toList, by decide⟩⟩
  let source : Attribute := ⟨gap, ⟨"SRC".toList, by decide⟩, ⟨" b.js".toList, by decide⟩⟩
  have hnames : ∀ a ∈ [type, source], a.endsInSource = true → a.isSource = true := by decide
  exact ⟨(parse_scriptTag [data]).1, (parse_scriptTag [type, source]).2 hnames⟩

end ImportScan.Html
