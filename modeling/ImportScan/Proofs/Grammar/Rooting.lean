import ImportScan.Language
import ImportScan.Proofs.Grammar.Behind
import ImportScan.Proofs.Lexis.Transparency
import ImportScan.Proofs.Pattern.Parts
import ImportScan.Proofs.Php.Clause
import ImportScan.Proofs.Text.Cut
import ImportScan.Proofs.Text.HasWord
import ImportScan.Proofs.Text.TopLevel

/-!
# What the imported names look like

The names that a parser gives are cut down to roots, whatever the text holds (`rooted_names`). Two
things make them so: the part of a statement that a name is read from can hold only characters of
its class (`Pattern.holds_of_mem_matchesIn`), and the reading of the part cuts it at separators.
So there is for every statement a fact on what its part marks, and for every way to read names a
lemma on what it leaves.
-/

namespace ImportScan

open Pattern Text

/-! ## Names of a statement and of a grammar -/

/-- Wherever the statement matches, each of its names has the property. -/
def Statement.Gives (s : Statement) (P : Text → Prop) : Prop :=
  ∀ u, ∀ m ∈ s.pattern.matchesIn u, ∀ n ∈ s.names m, P n

namespace Grammar

variable {P L : Text → Prop} {g : Grammar} {s : Statement}

/-- Each name that a text imports has the property. -/
def Gives (g : Grammar) (P : Text → Prop) : Prop := ∀ t, ∀ n ∈ g.imports t, P n

theorem gives_of_forall (h : ∀ s ∈ g.statements, s.Gives P) : g.Gives P := by
  intro t n hn
  rw [imports_eq] at hn
  obtain ⟨⟨s, m⟩, hs, hn⟩ := List.mem_flatMap.1 hn
  obtain ⟨hform, hm⟩ := mem_found.1 (List.mem_filter.1 hs).1
  split at hn
  · cases hn
  · exact h s hform _ m hm n hn

theorem gives_of_single (hs : g.statements = [s]) (h : s.Gives P) : g.Gives P := by
  apply gives_of_forall
  intro s' hs'
  rw [hs, List.mem_singleton] at hs'
  exact hs' ▸ h

theorem exists_of_mem_nameBy {read : Text → Text} {m : Match Part} {n : Text}
    (h : n ∈ Match.nameBy read m) :
    ∃ name, m.part? .name = some name ∧ name ≠ [] ∧ n = read name := by
  unfold Match.nameBy at h
  split at h
  · cases h
  · cases h
  · rename_i name hne hname
    exact ⟨name, hname, fun h => hne (h ▸ rfl), List.mem_singleton.1 h⟩

/-- A name is read from what the statement marks. -/
theorem gives_nameBy {p : Pattern Part} {read : Text → Text} (hp : p.Marks .name L)
    (hread : ∀ name, name ≠ [] → L name → P (read name)) :
    Statement.Gives ⟨p, Match.nameBy read⟩ P := by
  intro u m hm n hn
  obtain ⟨name, hname, hne, rfl⟩ := exists_of_mem_nameBy hn
  exact hread name hne (holds_of_mem_matchesIn hp hm name hname)

/-! ## First segments of dotted names -/

/-- A text of word characters, without full stops. -/
def IsPlainName (n : Text) : Prop := (∀ c ∈ n, isWord c = true) ∧ '.' ∉ n

theorem isPlainName_firstSegment {name : Text} (h : ∀ c ∈ name, isDotted c = true) :
    IsPlainName (firstSegment ['.'] name) := by
  constructor
  · intro c hc
    obtain ⟨hmem, hdot⟩ := mem_firstSegment hc
    simpa [isDotted, hdot] using h c hmem
  · intro hdot
    exact (mem_firstSegment hdot).2 rfl

theorem takesOnly_dotted (greedy : Bool) (least : Nat) :
    (Pattern.run greedy isDotted least none : Pattern Part).TakesOnly
      fun t => ∀ c ∈ t, isDotted c = true :=
  takesOnly_of_takes fun _ h => h

/-- A statement that marks a dotted name and reads its first segment. -/
theorem gives_firstSegment {p : Pattern Part}
    (hp : p.Marks .name fun t => ∀ c ∈ t, isDotted c = true) :
    Statement.Gives ⟨p, Match.nameBy (firstSegment ['.'])⟩ IsPlainName :=
  gives_nameBy hp fun _ _ => isPlainName_firstSegment

theorem java_gives : java.Gives IsPlainName := by
  refine gives_of_single rfl (gives_firstSegment ?_)
  exact ⟨⟨⟨⟨⟨⟨⟨⟨trivial, trivial⟩, marks_text _⟩, trivial⟩, ⟨marks_text _, trivial⟩, trivial⟩,
    trivial, fun _ => takesOnly_dotted false 1⟩, marks_text _, trivial⟩, trivial⟩, trivial⟩

theorem haxe_gives : haxe.Gives IsPlainName := by
  refine gives_of_single rfl (gives_firstSegment ?_)
  exact ⟨⟨⟨⟨trivial, trivial⟩, marks_text _, marks_text _⟩, trivial⟩, trivial,
    fun _ => takesOnly_dotted true 1⟩

theorem visualBasic_gives : visualBasic.Gives IsPlainName := by
  refine gives_of_single rfl (gives_firstSegment ?_)
  exact ⟨⟨⟨⟨⟨trivial, trivial⟩, marks_anyCase _⟩, trivial⟩,
    ⟨⟨⟨trivial, trivial⟩, trivial⟩, trivial⟩, trivial⟩, trivial, fun _ => takesOnly_dotted true 1⟩

/-! ## Words -/

theorem isTrimmed_of_isWord {t : Text} (h : ∀ c ∈ t, isWord c = true) : IsTrimmed t where
  start c hc := isBlank_eq_false_of_isWord (h c (List.mem_of_mem_head? hc))
  stop c hc := isBlank_eq_false_of_isWord (h c (List.mem_of_getLast? hc))

theorem marks_symbolKind : symbolKind.Marks .name L :=
  ⟨⟨⟨⟨⟨⟨⟨marks_text _, marks_text _⟩, marks_text _⟩, marks_text _⟩, marks_text _⟩, marks_text _⟩,
    marks_text _⟩, marks_text _⟩

theorem swift_gives : swift.Gives IsWord := by
  refine gives_of_single rfl (gives_nameBy (L := fun t => ∀ c ∈ t, isWord c = true) ?_ ?_)
  · exact ⟨⟨⟨⟨⟨⟨trivial, trivial⟩, ⟨⟨trivial, trivial⟩, ⟨⟨trivial, trivial⟩, trivial⟩, trivial⟩,
      trivial⟩, marks_text _⟩, trivial⟩, ⟨marks_symbolKind, trivial⟩, trivial⟩, trivial,
      fun _ => takesOnly_of_takes fun _ h => h⟩
  · intro name hne hword
    rw [trim_eq_self (isTrimmed_of_isWord hword)]
    exact ⟨hne, hword⟩

/-- The texts that start with a capital and go on with characters of a class. -/
theorem takesOnly_capital (P : Char → Bool) :
    (.one isCapital ++ some0 P : Pattern Part).TakesOnly
      fun t => ∃ c r, t = c :: r ∧ isCapital c = true ∧ ∀ d ∈ r, P d = true := by
  intro s e he
  obtain ⟨t, rest, hs, ⟨_, r, rfl, ⟨c, rfl, hc⟩, hr⟩, hcursor⟩ :=
    (takesOnly_one isCapital).append (takesJust_run true P 0).takesOnly s e he
  exact ⟨c :: r, rest, hs, ⟨c, r, rfl, hc, hr.1⟩, hcursor⟩

/-- The first character is a capital letter of ASCII. -/
def StartsCapital (n : Text) : Prop := ∃ c ∈ n.head?, isCapital c = true

theorem elm_gives : elm.Gives fun n => StartsCapital n ∧ IsWord n := by
  refine gives_of_single rfl (gives_nameBy ⟨⟨⟨⟨trivial, trivial⟩, marks_text _⟩, trivial⟩,
    ⟨trivial, trivial⟩, fun _ => takesOnly_capital isWord⟩ ?_)
  rintro _ - ⟨c, r, rfl, hc, hr⟩
  have hword : ∀ d ∈ c :: r, isWord d = true := by
    intro d hd
    rcases List.mem_cons.1 hd with rfl | hd
    · exact isWord_of_isCapital hc
    · exact hr d hd
  rw [trim_eq_self (isTrimmed_of_isWord hword)]
  exact ⟨⟨c, rfl, hc⟩, List.cons_ne_nil c r, hword⟩

theorem haskell_gives :
    haskell.Gives fun n => StartsCapital n ∧ ∀ c ∈ n, isWord c = true ∨ c = '\'' := by
  refine gives_of_single rfl (gives_nameBy ⟨⟨⟨⟨⟨⟨⟨trivial, trivial⟩, marks_text _⟩, trivial⟩,
    ⟨marks_text _, trivial⟩, trivial⟩, ⟨marks_text _, trivial⟩, trivial⟩,
    ⟨⟨⟨trivial, trivial⟩, trivial⟩, trivial⟩, trivial⟩, ⟨trivial, trivial⟩,
    fun _ => takesOnly_capital _⟩ ?_)
  rintro _ - ⟨c, r, rfl, hc, hr⟩
  have hword := isWord_of_isCapital hc
  have hdot : c ≠ '.' := by
    rintro rfl
    exact absurd hc (by decide)
  constructor
  · obtain ⟨r', hr'⟩ := exists_firstSegment_cons (isBlank_eq_false_of_isWord hword) hdot r
    exact ⟨c, by rw [hr']; rfl, hc⟩
  · intro d hd
    obtain ⟨hmem, hne⟩ := mem_firstSegment hd
    rcases List.mem_cons.1 hmem with rfl | hmem
    · exact .inl hword
    · simpa [isDotted, hne] using hr d hmem

/-! ## Two segments -/

/-- At most two words with a full stop between them, and no grave accent. -/
def IsShortName (n : Text) : Prop :=
  (∃ segments, n = join ['.'] segments ∧ segments.length ≤ 2 ∧ ∀ w ∈ segments, IsWord w) ∧
    backquote ∉ n

theorem isWord_of_mem_firstTwoSegments {name w : Text}
    (h : ∀ c ∈ name, (isDotted c || c == backquote) = true)
    (hw : w ∈ (fields (· == '.') (without backquote name)).filter (!·.isEmpty)) : IsWord w := by
  obtain ⟨hmem, hne⟩ := List.mem_filter.1 hw
  constructor
  · rintro rfl
    simp at hne
  · intro c hc
    have hdot : c ≠ '.' := by
      have := isSep_eq_false_of_mem_fields hmem hc
      simpa using this
    obtain ⟨hname, hback⟩ := List.mem_filter.1 ((isInfix_of_mem_fields hmem).subset hc)
    have hback : c ≠ backquote := by simpa using hback
    have hclass := h c hname
    simpa [isDotted, hdot, hback] using hclass

theorem isShortName_firstTwoSegments {name : Text}
    (h : ∀ c ∈ name, (isDotted c || c == backquote) = true) :
    IsShortName (firstTwoSegments name) := by
  have hwords : ∀ w ∈ ((fields (· == '.') (without backquote name)).filter (!·.isEmpty)).take 2,
      IsWord w := fun w hw => isWord_of_mem_firstTwoSegments h (List.mem_of_mem_take hw)
  constructor
  · refine ⟨_, rfl, ?_, hwords⟩
    rw [List.length_take]
    omega
  · intro hback
    have hplain : ∀ w ∈ ((fields (· == '.') (without backquote name)).filter (!·.isEmpty)).take 2,
        backquote ∉ w := by
      intro w hw hmem
      exact absurd ((hwords w hw).2 _ hmem) (by decide)
    rcases mem_join hback with hsep | ⟨w, hw, hmem⟩
    · exact absurd hsep (by decide)
    · exact hplain w hw hmem

theorem kotlin_gives : kotlin.Gives IsShortName := by
  refine gives_of_single rfl
    (gives_nameBy (L := fun t => ∀ c ∈ t, (isDotted c || c == backquote) = true) ?_ ?_)
  · exact ⟨⟨⟨⟨trivial, trivial⟩, marks_text _⟩, trivial⟩, trivial,
      fun _ => takesOnly_of_takes fun _ h => h⟩
  · intro name _ h
    exact isShortName_firstTwoSegments h

/-! ## Packages -/

/-- Nonempty, without full stops and commas. -/
def IsPackage (n : Text) : Prop := n ≠ [] ∧ '.' ∉ n ∧ ',' ∉ n

theorem isPackage_of_mem_absolutePackages {names : List Text} (h : ∀ name ∈ names, ',' ∉ name)
    {n : Text} (hn : n ∈ absolutePackages names) : IsPackage n := by
  obtain ⟨name, hname, rfl⟩ := List.mem_map.1 hn
  obtain ⟨hmem, hkept⟩ := List.mem_filter.1 hname
  obtain ⟨raw, hraw, rfl⟩ := List.mem_map.1 hmem
  have hcomma : ',' ∉ firstSegment ['.'] (trim raw) := by
    intro hc
    exact h raw hraw (mem_of_mem_trim (mem_firstSegment hc).1)
  have hdot : '.' ∉ firstSegment ['.'] (trim raw) := by
    intro hc
    exact (mem_firstSegment hc).2 rfl
  refine ⟨?_, hdot, hcomma⟩
  -- the first character is neither white space nor a full stop, so it stays
  have hstart := (isTrimmed_trim raw).start
  cases htrim : trim raw with
  | nil => simp [htrim] at hkept
  | cons c r =>
    rw [htrim] at hstart hkept
    have hne : c ≠ '.' := by simpa using hkept
    obtain ⟨r', hr'⟩ := exists_firstSegment_cons (hstart c rfl) hne r
    rw [hr']
    exact List.cons_ne_nil c r'

theorem importNames_gives : importNames.Gives IsPackage := by
  intro u m _ n hn
  apply isPackage_of_mem_absolutePackages _ hn
  intro name hname hcomma
  simpa using isSep_eq_false_of_mem_fields hname hcomma

theorem importFrom_gives : importFrom.Gives IsPackage := by
  have hmarks : importFrom.pattern.Marks .name fun t => ',' ∉ t := by
    refine ⟨⟨⟨⟨⟨⟨⟨trivial, trivial⟩, marks_text _⟩, trivial, marks_text _⟩, ⟨trivial, trivial⟩,
      fun _ => ?_⟩, trivial, marks_text _⟩, marks_text _⟩, trivial⟩
    intro s e he
    have hdots : (some0 (· == '.') : Pattern Part).Takes (· ≠ ',') := by
      rintro c hc rfl
      exact absurd hc (by decide)
    have hdotted : (some0 isDotted : Pattern Part).Takes (· ≠ ',') := by
      rintro c hc rfl
      exact absurd hc (by decide)
    obtain ⟨t, rest, hs, ⟨a, b, rfl, ha, hb⟩, hcursor⟩ :=
      (takesOnly_of_takes hdots).append (takesOnly_of_takes hdotted) s e he
    refine ⟨a ++ b, rest, hs, ?_, hcursor⟩
    intro hcomma
    rcases List.mem_append.1 hcomma with hcomma | hcomma
    · exact ha _ hcomma rfl
    · exact hb _ hcomma rfl
  intro u m hm n hn
  apply isPackage_of_mem_absolutePackages _ hn
  intro name hname
  rw [List.mem_singleton.1 hname]
  unfold Match.partOrEmpty
  cases hpart : m.part? .name with
  | none => simp
  | some t => exact holds_of_mem_matchesIn hmarks hm t hpart

theorem python_gives : python.Gives IsPackage := by
  apply gives_of_forall
  intro s hs
  have hforms : s = importNames ∨ s = importFrom := by simpa [python] using hs
  rcases hforms with rfl | rfl
  · exact importNames_gives
  · exact importFrom_gives

/-! ## Vendors -/

/-- Nonempty, without white space, and without the marks that end a vendor. -/
def IsVendor (n : Text) : Prop :=
  n ≠ [] ∧ ∀ c ∈ n, isBlank c = false ∧ c ∉ ['\\', ',', ';', '{']

/-- What is dropped in front of a clause holds no brace. -/
theorem exists_eq_append_dropKind (t : Text) : ∃ a, t = a ++ dropKind t ∧ '{' ∉ a := by
  have hword {w u : Text} (hw : '{' ∉ w) (h : Php.dropWord? w t = some u) :
      ∃ a, t = a ++ u ∧ '{' ∉ a := by
    unfold Php.dropWord? at h
    split at h
    · rename_i hpre
      obtain ⟨r, rfl⟩ := List.isPrefixOf_iff_prefix.1 hpre
      rw [List.drop_left] at h
      split at h
      · rename_i c rest
        split at h
        · rename_i hc
          obtain rfl := Option.some.inj h
          refine ⟨w ++ c :: rest.takeWhile isBlank, ?_, ?_⟩
          · rw [List.append_assoc, List.cons_append, trimStart, List.takeWhile_append_dropWhile]
          · intro hbrace
            rcases List.mem_append.1 hbrace with hbrace | hbrace
            · exact hw hbrace
            · have hblank : ∀ d ∈ c :: rest.takeWhile isBlank, isBlank d = true := by
                intro d hd
                rcases List.mem_cons.1 hd with rfl | hd
                · exact hc
                · exact List.all_eq_true.1 List.all_takeWhile d hd
              exact absurd (hblank _ hbrace) (by decide)
        · cases h
      · cases h
    · cases h
  rw [Php.dropKind_eq]
  cases hfunction : Php.dropWord? Php.Kind.function.text t with
  | some u => exact hword (by decide) hfunction
  | none =>
    cases hconst : Php.dropWord? Php.Kind.const.text t with
    | some u => exact hword (by decide) hconst
    | none => exact ⟨[], rfl, List.not_mem_nil⟩

theorem mem_of_mem_dropKind {t : Text} {c : Char} (h : c ∈ dropKind t) : c ∈ t := by
  obtain ⟨a, ha, -⟩ := exists_eq_append_dropKind t
  rw [ha]
  exact List.mem_append_right a h

/-- The vendor of a clause of a list without semicolons. -/
theorem isVendor_vendor {clause : Text} (hcommas : CommasInBraces clause) (hend : ';' ∉ clause)
    (hne : vendor clause ≠ []) : IsVendor (vendor clause) := by
  refine ⟨hne, ?_⟩
  obtain ⟨a, ha, hbrace⟩ := exists_eq_append_dropKind clause
  have hrest : CommasInBraces (dropKind clause) := by
    rw [ha, ← List.append_nil (dropKind clause)] at hcommas
    exact hcommas.of_append hbrace
  intro c hc
  unfold vendor at hc
  split at hc
  · cases hc
  · rename_i name others hwords
    have hname : name ∈ words (before ['{'] (dropKind clause)) := by
      rw [hwords]
      exact List.mem_cons_self
    have hmem : c ∈ name := (List.dropWhile_sublist _).subset ((before_isPrefix _ _).subset hc)
    have hbefore := (isInfix_of_mem_words hname).subset hmem
    have hclause : c ∈ clause := mem_of_mem_dropKind ((before_isPrefix _ _).subset hbefore)
    refine ⟨(mem_words hname).2 c hmem, ?_⟩
    intro hmark
    simp only [List.mem_cons, List.not_mem_nil, or_false] at hmark
    rcases hmark with rfl | rfl | rfl | rfl
    · exact not_mem_before _ _ hc
    · exact hrest.comma_not_mem_before hbefore
    · exact hend hclause
    · exact not_mem_before _ _ hbefore

theorem php_gives : php.Gives IsVendor := by
  refine gives_of_single rfl ?_
  have hmarks : useStatement.pattern.Marks .body fun t => ';' ∉ t := by
    refine ⟨⟨⟨⟨⟨trivial, trivial⟩, marks_text _⟩, trivial⟩, ⟨trivial, trivial⟩, fun _ => ?_⟩,
      trivial⟩
    intro s e he
    have hrest : (some0 (· != ';') : Pattern Part).Takes (· ≠ ';') := by
      intro c hc
      simpa using hc
    obtain ⟨t, rest, hs, ⟨_, b, rfl, ⟨c, rfl, hc⟩, hb⟩, hcursor⟩ :=
      (takesOnly_one _).append (takesOnly_of_takes hrest) s e he
    refine ⟨c :: b, rest, hs, ?_, hcursor⟩
    intro hend
    rcases List.mem_cons.1 hend with rfl | hend
    · exact absurd hc (by decide)
    · exact hb _ hend rfl
  intro u m hm n hn
  obtain ⟨hvendor, hne⟩ := List.mem_filter.1 hn
  obtain ⟨clause, hclause, rfl⟩ := List.mem_map.1 hvendor
  apply isVendor_vendor (commasInBraces_of_mem_topLevelParts hclause)
  · intro hend
    have hbody := mem_of_mem_trim (mem_of_mem_dropKind (mem_of_mem_topLevelParts hclause hend))
    unfold Match.partOrEmpty at hbody
    cases hpart : m.part? .body with
    | none => simp [hpart] at hbody
    | some t =>
      rw [hpart] at hbody
      exact holds_of_mem_matchesIn hmarks hm t hpart hbody
  · rintro hnil
    simp [hnil] at hne

/-! ## Crates -/

/-- Nonempty, without white space and path separators, and not the start of a list. -/
def IsCrate (n : Text) : Prop :=
  n ≠ [] ∧ (∀ c ∈ n, isBlank c = false) ∧ ¬[':', ':'] <:+: n ∧ n.head? ≠ some '{'

theorem isCrate_pathRoot {item : Text} (h : isForeignRoot (pathRoot item) = true) :
    IsCrate (pathRoot item) := by
  simp only [isForeignRoot, Bool.and_eq_true, Bool.not_eq_true', List.isEmpty_eq_false_iff,
    bne_iff_ne, ne_eq] at h
  obtain ⟨⟨hne, -⟩, hbrace⟩ := h
  have hword : pathRoot item ∈ words (before [':', ':'] (item.dropWhile (· == ':'))) := by
    unfold pathRoot at hne ⊢
    cases hwords : words (before [':', ':'] (item.dropWhile (· == ':'))) with
    | nil => simp [hwords] at hne
    | cons w others => exact List.mem_cons_self
  refine ⟨hne, (mem_words hword).2, ?_, hbrace⟩
  intro hsep
  exact not_isInfix_before (List.cons_ne_nil _ _) _ (hsep.trans (isInfix_of_mem_words hword))

theorem isCrate_of_isWord {n : Text} (h : IsWord n) : IsCrate n := by
  refine ⟨h.1, fun c hc => isBlank_eq_false_of_isWord (h.2 c hc), ?_, ?_⟩
  · intro hsep
    exact absurd (h.2 ':' (hsep.subset List.mem_cons_self)) (by decide)
  · intro hhead
    exact absurd (h.2 '{' (List.mem_of_mem_head? hhead)) (by decide)

theorem useDeclaration_gives : useDeclaration.Gives IsCrate := by
  intro u m _ n hn
  obtain ⟨hroot, hforeign⟩ := List.mem_filter.1 hn
  obtain ⟨item, -, rfl⟩ := List.mem_map.1 hroot
  exact isCrate_pathRoot hforeign

theorem externCrate_gives : externCrate.Gives IsCrate := by
  intro u m hm n hn
  obtain ⟨name, hname, hword, hlen⟩ := exists_part?_of_mem_matchesIn
    (takesJust_run true isWord 1).takesOnly hm
  have hn : n = name := by
    rw [List.mem_singleton.1 hn, Match.partOrEmpty, hname]
    rfl
  rw [hn]
  exact isCrate_of_isWord ⟨List.ne_nil_of_length_pos hlen, hword⟩

theorem rust_gives : rust.Gives IsCrate := by
  apply gives_of_forall
  intro s hs
  have hforms : s = useDeclaration ∨ s = externCrate := by simpa [rust] using hs
  rcases hforms with rfl | rfl
  · exact useDeclaration_gives
  · exact externCrate_gives

/-! ## Segments of include paths -/

theorem mem_of_mem_dropExtension {mark c : Char} {t : Text} (h : c ∈ dropExtension mark t) :
    c ∈ t := by
  unfold dropExtension at h
  split at h
  · exact h
  · rename_i d front hfront
    have hsuffix : front <:+ t.reverse := by
      have hdrop := List.dropWhile_suffix (l := t.reverse) (· ≠ mark)
      rw [hfront] at hdrop
      exact (List.suffix_cons d front).trans hdrop
    exact List.mem_reverse.1 (hsuffix.subset (List.mem_reverse.1 h))

theorem not_mem_includeRoot (path : Text) : '/' ∉ includeRoot path ∧ '\\' ∉ includeRoot path := by
  have hsep : ∀ c ∈ includeRoot path, isPathSeparator c = false := by
    intro c hc
    unfold includeRoot at hc
    split at hc
    · cases hc
    · rename_i segment others hsegments
      have hmem : segment ∈ fields isPathSeparator (trim path) := by
        apply (List.mem_filter (p := (!isDotSegment ·))).1 _ |>.1
        rw [hsegments]
        exact List.mem_cons_self
      exact isSep_eq_false_of_mem_fields hmem (mem_of_mem_dropExtension hc)
  constructor
  · intro hc
    exact absurd (hsep _ hc) (by decide)
  · intro hc
    exact absurd (hsep _ hc) (by decide)

theorem c_gives : c.Gives fun n => '/' ∉ n ∧ '\\' ∉ n := by
  refine gives_of_single rfl ?_
  intro u m _ n hn
  rw [List.mem_singleton.1 hn]
  exact not_mem_includeRoot _

end Grammar

/-! ## All parsers -/

namespace Parser

/-- The parser reads the text, and each name that it gives has the property. -/
def Yields (p : Parser) (t : Text) (P : Text → Prop) : Prop :=
  ∃ names, p.parse t = .ok names ∧ ∀ n ∈ names, P n

theorem yields_of_gives {p : Parser} {g : Grammar} (hp : p.grammar? = some g) {P : Text → Prop}
    (h : g.Gives P) (t : Text) : p.Yields t P :=
  ⟨g.imports t, parse_eq_imports hp t, h t⟩

/-- **Names are roots**: whatever text a parser reads, it reads it, and its names are those that its
language roots them to be. -/
theorem rooted_names (t : Text) :
    (∀ p ∈ [java, haxe, vbNet], p.Yields t fun n => (∀ c ∈ n, isWord c = true) ∧ '.' ∉ n) ∧
    swift.Yields t IsWord ∧
    elm.Yields t (fun n => (∃ c ∈ n.head?, isCapital c = true) ∧ IsWord n) ∧
    haskell.Yields t (fun n => (∃ c ∈ n.head?, isCapital c = true) ∧
      ∀ c ∈ n, isWord c = true ∨ c = '\'') ∧
    kotlin.Yields t (fun n => (∃ segments, n = join ['.'] segments ∧ segments.length ≤ 2 ∧
      ∀ w ∈ segments, IsWord w) ∧ backquote ∉ n) ∧
    python.Yields t (fun n => n ≠ [] ∧ '.' ∉ n ∧ ',' ∉ n) ∧
    php.Yields t (fun n => n ≠ [] ∧
      ∀ c ∈ n, isBlank c = false ∧ c ∉ ['\\', ',', ';', '{']) ∧
    rust.Yields t (fun n => n ≠ [] ∧ (∀ c ∈ n, isBlank c = false) ∧ ¬[':', ':'] <:+: n ∧
      n.head? ≠ some '{') ∧
    c.Yields t (fun n => '/' ∉ n ∧ '\\' ∉ n) := by
  refine ⟨?_, yields_of_gives rfl Grammar.swift_gives t, yields_of_gives rfl Grammar.elm_gives t,
    yields_of_gives rfl Grammar.haskell_gives t, yields_of_gives rfl Grammar.kotlin_gives t,
    yields_of_gives rfl Grammar.python_gives t, yields_of_gives rfl Grammar.php_gives t,
    yields_of_gives rfl Grammar.rust_gives t, yields_of_gives rfl Grammar.c_gives t⟩
  intro p hp
  have hforms : p = java ∨ p = haxe ∨ p = vbNet := by simpa using hp
  rcases hforms with rfl | rfl | rfl
  · exact yields_of_gives rfl Grammar.java_gives t
  · exact yields_of_gives rfl Grammar.haxe_gives t
  · exact yields_of_gives rfl Grammar.visualBasic_gives t

end Parser
end ImportScan
