import ImportScan.Grammar.Python
import ImportScan.Proofs.Grammar.Indented
import ImportScan.Proofs.Grammar.Seam
import ImportScan.Proofs.Pattern.Without
import ImportScan.Proofs.Text.Cut

/-!
# Continued lines

A backslash at the end of a line matters to the imports of a text in two ways only: a gap may go on
behind it, and what stands at the start of the next line starts no import. Where neither makes a
difference (`ImportsApart`) the text imports what it does in the plain grammar, whose gaps are
spaces and tabs and whose lines all start afresh (`namesIn_plain`).
-/

namespace ImportScan.Python

open Grammar Pattern Text

variable {f : Statement} {t w : Text}

/-! ## Where lines are continued -/

/-- No line of the text is continued on the next. -/
def Uncontinued (t : Text) : Prop := ¬"\\\n".toList <:+: t

instance (t : Text) : Decidable (Uncontinued t) := inferInstanceAs (Decidable (¬_))

/-- What stands behind each continued line end. -/
def continuedLines : Text → List Text
  | [] => []
  | c :: t =>
    if "\\\n".toList <+: c :: t then t.drop 1 :: continuedLines t else continuedLines t

theorem mem_continuedLines {b : Text} (a : Text) :
    b ∈ continuedLines (a ++ ("\\\n".toList ++ b)) := by
  induction a with
  | nil =>
    have hprefix : "\\\n".toList <+: '\\' :: '\n' :: b := List.prefix_append _ b
    show b ∈ continuedLines ('\\' :: '\n' :: b)
    rw [continuedLines, if_pos hprefix]
    exact List.mem_cons_self
  | cons c a ih =>
    rw [List.cons_append, continuedLines]
    split
    · exact List.mem_cons_of_mem _ ih
    · exact ih

theorem Uncontinued.continuedLines_eq_nil (h : Uncontinued t) : continuedLines t = [] := by
  induction t with
  | nil => rfl
  | cons c t ih =>
    rw [continuedLines, if_neg fun hprefix => h hprefix.isInfix,
      ih fun hmem => h (List.infix_cons hmem)]

/-- No import of the text takes a backslash, so none goes on behind a continued line end, and none
would start on a continued line if that were a line of its own. -/
structure ImportsApart (w : Text) : Prop where
  within : ∀ f ∈ python.statements, ∀ m ∈ f.pattern.matchesIn w, '\\' ∉ m.text
  behind : ∀ b ∈ continuedLines w, ∀ f ∈ python.statements, f.pattern.matchAt? (.atStart b) = none

/-! ## Gaps of spaces and tabs -/

/-- What an import of modules takes from the start of its line, with gaps made of `g`. -/
def namesWith (g : Pattern Part) : Pattern Part :=
  gaps0 ++ (word "import" ++ (many1 g ++ .part .body (some1 isDotted ++
    many0 (((many0 g ++ char ',' ++ many0 g) ||| many1 g) ++ some1 isDotted))))

/-- What an import of names takes from the start of its line, with gaps made of `g`. -/
def fromWith (g : Pattern Part) : Pattern Part :=
  gaps0 ++ (word "from" ++ (many1 g ++ (.part .name (some0 (· == '.') ++ some0 isDotted) ++
    (many1 g ++ (word "import" ++ wordEdge)))))

theorem without_self {p : Pattern Part} (hp : p.excludes '\\' = true) :
    Without '\\' "\\\n".toList p p := .of_takes (takes_of_excludes hp)

/-- Only a continued line end has a backslash, so without it gaps are made of spaces and tabs. -/
theorem without_gap : Without '\\' "\\\n".toList gap (.one isGap) :=
  .or_text (takes_of_excludes (by decide)) (by decide)

theorem without_namesWith :
    Without '\\' "\\\n".toList (namesWith gap) (namesWith (.one isGap)) := by
  have hgaps0 := without_gap.many true 0 none
  have hgaps1 := without_gap.many true 1 none
  have hname := without_self (p := some1 isDotted) (by decide)
  have hcomma := without_self (p := char ',') (by decide)
  have hseparator := ((hgaps0.append hcomma).append hgaps0).or hgaps1
  have hnames := hname.append ((hseparator.append hname).many true 0 none)
  exact (without_self (by decide)).append
    ((without_self (by decide)).append (hgaps1.append (hnames.part .body)))

theorem without_fromWith :
    Without '\\' "\\\n".toList (fromWith gap) (fromWith (.one isGap)) := by
  have hgaps1 := without_gap.many true 1 none
  have himport := without_self (p := word "import" ++ wordEdge) (by decide)
  have hname := without_self (p := .part .name (some0 (· == '.') ++ some0 isDotted)) (by decide)
  exact (without_self (by decide)).append ((without_self (by decide)).append
    (hgaps1.append (hname.append (hgaps1.append himport))))

/-! ## Lines that start afresh -/

/-- The form goes on from the start of its line as `rest` says, with the gaps of the language. -/
structure GoesOn (f : Statement) (rest : Pattern Part → Pattern Part) : Prop where
  ends : ∀ s, f.pattern.ends s = (.here logicalStart ++ rest gap : Pattern Part).ends s
  without : Without '\\' "\\\n".toList (rest gap) (rest (.one isGap))
  tests : (rest (.one isGap)).BuiltOn (· = atWordEdge)

theorem goesOn_importNames : GoesOn importNames namesWith where
  ends s := by simp only [importNames, namesWith, nameSeparator, ends_append_assoc]
  without := without_namesWith
  tests := by simp [namesWith, many1]

theorem goesOn_importFrom : GoesOn importFrom fromWith where
  ends s := by simp only [importFrom, fromWith, ends_append_assoc]
  without := without_fromWith
  tests := by simp [fromWith, many1, wordEdge]

theorem logicalStart_atStart (b : Text) : logicalStart (.atStart b) = true := rfl

/-- A logical line starts where a line or a statement does, except behind a continued line end. -/
theorem logicalStart_eq_or (c : Cursor) : logicalStart c = mayStart [';'] c ∨
    ∃ a, c = .between (a ++ "\\\n".toList) c.after := by
  by_cases hprefix : ['\n', '\\'].isPrefixOf c.before = true
  · obtain ⟨a, ha⟩ := List.isPrefixOf_iff_prefix.1 hprefix
    refine .inr ⟨a.reverse, Cursor.ext_iff.2 ⟨?_, rfl⟩⟩
    rw [Cursor.before_between, ← ha]
    simp
  · refine .inl ?_
    rw [logicalStart, mayStart, Bool.eq_false_iff.2 hprefix, Bool.not_false, Bool.and_true]

namespace GoesOn

variable {rest : Pattern Part → Pattern Part}

/-- At the start of a continued line that would not start with an import by itself either, nothing
is taken. -/
theorem ends_continued (hf : GoesOn f rest) {a b : Text}
    (h : f.pattern.matchAt? (.atStart b) = none) :
    (rest (.one isGap)).ends ⟨.between (a ++ "\\\n".toList) b, []⟩ = [] := by
  have hstart : (rest gap).ends ⟨.atStart b, []⟩ = [] := by
    have hends := matchAt?_eq_none_iff.1 h
    rwa [hf.ends, ends_here_append, if_pos (logicalStart_atStart b)] at hends
  have hplain : (rest (.one isGap)).ends ⟨.atStart b, []⟩ = [] := by
    rw [hf.without.ends, hstart, List.filter_nil]
  have hoverlooks : (rest (.one isGap)).Overlooks (a ++ "\\\n".toList) := by
    refine hf.tests.overlooks ?_
    rintro test rfl
    refine overlooks_wordEdge (ι := Part) fun c hc => ?_
    have hlast : (a ++ "\\\n".toList).getLast? = some '\n' := by simp
    obtain rfl := Option.some.inj (hlast.symm.trans hc)
    decide
  have hbehind := ends_behind hoverlooks ⟨.atStart b, []⟩
  rw [hplain, Point.behind, Cursor.atStart_eq_between, Cursor.behind_between, List.append_nil]
    at hbehind
  exact hbehind

theorem matchesIn_logical (hf : GoesOn f rest) (w : Text) :
    f.pattern.matchesIn w = (.here logicalStart ++ rest gap : Pattern Part).matchesIn w :=
  matchesFrom_congr fun d _ => by rw [matchAt?_eq, matchAt?_eq, hf.ends]

theorem without_logical (hf : GoesOn f rest) : Without '\\' "\\\n".toList
    (.here logicalStart ++ rest gap) (.here logicalStart ++ rest (.one isGap)) :=
  (without_self (by decide)).append hf.without

/-- Where continued lines make no difference, the form matches as with gaps of spaces and tabs on
lines that all start afresh. -/
theorem matchesIn_eq (hf : GoesOn f rest) (hforms : f ∈ python.statements) (h : ImportsApart w) :
    f.pattern.matchesIn w =
      (.here (mayStart [';']) ++ rest (.one isGap) : Pattern Part).matchesIn w := by
  have hlogical : f.pattern.matchesIn w =
      (.here logicalStart ++ rest (.one isGap) : Pattern Part).matchesIn w := by
    have hwithin := h.within f hforms
    rw [hf.matchesIn_logical] at hwithin ⊢
    exact (hf.without_logical.matchesIn_eq hwithin).symm
  rw [hlogical]
  refine matchesFrom_congr fun d hd => ?_
  have htext : w = d.before.reverse ++ d.after := hd.symm
  rw [matchAt?_eq, matchAt?_eq, ends_here_append, ends_here_append]
  rcases logicalStart_eq_or d with hsame | ⟨a, ha⟩
  · rw [hsame]
  · have hcontinued : d.after ∈ continuedLines w := by
      rw [ha] at htext
      rw [htext, Cursor.before_between, List.reverse_reverse, Cursor.after_between,
        List.append_assoc]
      exact mem_continuedLines a
    have hnone := hf.ends_continued (a := a) (h.behind _ hcontinued f hforms)
    rw [← ha] at hnone
    simp [hnone]

end GoesOn

theorem exists_goesOn_of_mem (hf : f ∈ python.statements) : ∃ rest, GoesOn f rest := by
  have hforms : f = importNames ∨ f = importFrom := by simpa [python] using hf
  rcases hforms with rfl | rfl
  · exact ⟨_, goesOn_importNames⟩
  · exact ⟨_, goesOn_importFrom⟩

/-- A text without continued lines has no import near one. -/
theorem ImportsApart.of_uncontinued (h : Uncontinued w) : ImportsApart w where
  within f hf := by
    obtain ⟨rest, hrest⟩ := exists_goesOn_of_mem hf
    rw [hrest.matchesIn_logical]
    exact hrest.without_logical.notMem_text h
  behind b hb := by
    rw [h.continuedLines_eq_nil] at hb
    cases hb

/-! ## The plain grammar -/

/-- The grammar with gaps of spaces and tabs, and with every line a logical line. -/
def plain : Grammar where
  lexis := python.lexis
  strings := python.strings
  statements := [
    ⟨.here (mayStart [';']) ++ namesWith (.one isGap), importNames.names⟩,
    ⟨.here (mayStart [';']) ++ fromWith (.one isGap), importFrom.names⟩]

theorem namesIn_plain (h : ImportsApart w) (void : Nat → Bool) (code : Text) :
    python.namesIn void w code = plain.namesIn void w code := by
  refine namesIn_congr ?_
  have hnames := goesOn_importNames.matchesIn_eq (by simp [python]) h
  have hfrom := goesOn_importFrom.matchesIn_eq (by simp [python]) h
  simp only [python, plain, List.map_cons, List.map_nil, hnames, hfrom]

end ImportScan.Python
