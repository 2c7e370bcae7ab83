import ImportScan.Grammar.Scala
import ImportScan.Proofs.Text.Collapse
import ImportScan.Proofs.Text.HasWord
import ImportScan.Proofs.Text.TopLevel
import Mathlib.Data.List.DropRight

/-!
# Import clauses

A clause is a dotted path, perhaps with a wildcard, a new name or selectors in braces behind it. Its
path is read in four steps: the clause is cut in front of its braces and at its first white space,
then a wildcard goes, then the full stops at the end, then the grave accents. What the first cut
leaves of the text behind the path (`Tail.attached`) is just what the next two steps take away
(`cutEnd_attached`), and none of them touches the path, since its last identifier is no wildcard; so
a clause gives its path (`Clause.clausePath_text`). The commas of selectors stand in braces, so a
list is cut into its clauses (`Import.topLevelParts_list`) and gives their paths, in order
(`Import.names_list`).
-/

namespace ImportScan.Scala

open Grammar Text

variable {t : Text}

/-! ## Clauses -/

/-- An identifier, perhaps in grave accents. -/
structure Ident where
  word : Word
  quoted : Bool

/-- The identifier as it is written. -/
def Ident.text (i : Ident) : Text :=
  if i.quoted then backquote :: (i.word.val ++ [backquote]) else i.word.val

/-- A dotted path. A low line at its end would be a wildcard. -/
structure Path where
  qualifiers : List Ident
  last : Ident
  last_ne : last.text ≠ ['_']

/-- The path, with its identifiers written by `f`. -/
def Path.textBy (p : Path) (f : Ident → Text) : Text :=
  (p.qualifiers.flatMap fun i => f i ++ ['.']) ++ f p.last

/-- The path as it is written. -/
def Path.text (p : Path) : Text := p.textBy Ident.text

/-- The path without grave accents. -/
def Path.name (p : Path) : Text := p.textBy (·.word.val)

/-- Where an import ends. -/
def stops : Text := ['\n', ';']

/-- The marks of comments and strings, and those at which an import ends. -/
def marks : Text := '"' :: '/' :: stops

/-- What may stand in the braces behind a path. -/
abbrev Selectors := { t : Text // ∀ c ∈ t, c ∉ '{' :: '}' :: marks }

/-- What stands behind a path. -/
inductive Tail where
  | nothing
  | wildcard (mark : { c : Char // c ∈ ['_', '*'] })
  | renamed (before after : Gaps) (name : Ident)
  | selected (selectors : Selectors)

/-- What stands behind the path as it is written. -/
def Tail.text : Tail → Text
  | .nothing => []
  | .wildcard mark => ['.', mark.val]
  | .renamed before after name => before.val ++ ("as".toList ++ (after.val ++ name.text))
  | .selected selectors => ['.'] ++ '{' :: (selectors.val ++ ['}'])

/-- One clause of an import: a path and what stands behind it. -/
structure Clause where
  path : Path
  tail : Tail

/-- The clause as it is written. -/
def Clause.text (k : Clause) : Text := k.path.text ++ k.tail.text

/-- An import with the spaces and tabs around it on its line. -/
structure Import where
  indent : Indent
  gap : Gaps
  first : Clause
  others : List (Further isGap Clause)
  trailing : Indent

namespace Import

variable (i : Import)

/-- All clauses, in order. -/
def clauses : List Clause := i.first :: i.others.map (·.clause)

/-- The clauses with the commas between them and the white space behind them. -/
def list : Text := i.first.text ++ (i.others.flatMap (Further.text Clause.text) ++ i.trailing.val)

/-- The import as it is written. -/
def text : Text := i.indent.val ++ ("import".toList ++ (i.gap.val ++ i.list))

/-- The paths of the clauses. -/
def paths : List Text := i.clauses.map (·.path.name)

end Import

/-! ## Characters of a path -/

/-- Whether `c` may stand in an identifier. -/
def isIdentChar (c : Char) : Bool := isWord c || c == backquote

/-- Whether `c` may stand in a path. -/
def isPathChar (c : Char) : Bool := isIdentChar c || c == '.'

theorem isBlank_eq_false_of_isIdentChar {c : Char} (h : isIdentChar c = true) :
    isBlank c = false := by
  rcases Bool.or_eq_true_iff.1 h with hword | haccent
  · exact isBlank_eq_false_of_isWord hword
  · exact eq_of_beq haccent ▸ by decide

theorem isBlank_eq_false_of_isPathChar {c : Char} (h : isPathChar c = true) :
    isBlank c = false := by
  rcases Bool.or_eq_true_iff.1 h with hident | hdot
  · exact isBlank_eq_false_of_isIdentChar hident
  · exact eq_of_beq hdot ▸ by decide

theorem without_append (x : Char) (t u : Text) : without x (t ++ u) = without x t ++ without x u :=
  List.filter_append t u

namespace Ident

variable (i : Ident)

theorem isIdentChar_of_mem {c : Char} (hc : c ∈ i.text) : isIdentChar c = true := by
  have hword : ∀ c ∈ i.word.val, isIdentChar c = true := fun c hc => by
    simp [isIdentChar, i.word.2.2 c hc]
  have haccent : isIdentChar backquote = true := by decide
  unfold text at hc
  split at hc
  · rcases List.mem_cons.1 hc with rfl | hc
    · exact haccent
    rcases List.mem_append.1 hc with hc | hc
    · exact hword c hc
    · exact List.mem_singleton.1 hc ▸ haccent
  · exact hword c hc

theorem text_ne_nil : i.text ≠ [] := by
  unfold text
  split
  · exact List.cons_ne_nil _ _
  · exact i.word.2.1

/-- Without its grave accents an identifier is a word. -/
theorem without_text : without backquote i.text = i.word.val := by
  have hword : without backquote i.word.val = i.word.val := by
    refine List.filter_eq_self.2 fun c hc => decide_eq_true ?_
    rintro rfl
    exact absurd (i.word.2.2 _ hc) (by decide)
  unfold text
  split
  · have haccent : without backquote [backquote] = [] := by decide
    rw [← List.singleton_append, without_append, without_append, haccent, hword, List.nil_append,
      List.append_nil]
  · exact hword

end Ident

namespace Path

variable (p : Path)

theorem isPathChar_of_mem {c : Char} (hc : c ∈ p.text) : isPathChar c = true := by
  have hident (i : Ident) : ∀ c ∈ i.text, isPathChar c = true := fun c hc => by
    simp [isPathChar, i.isIdentChar_of_mem hc]
  have hdot : isPathChar '.' = true := by decide
  rcases List.mem_append.1 hc with hc | hc
  · obtain ⟨i, -, hc⟩ := List.mem_flatMap.1 hc
    rcases List.mem_append.1 hc with hc | hc
    · exact hident i c hc
    · exact List.mem_singleton.1 hc ▸ hdot
  · exact hident p.last c hc

theorem text_ne_nil : p.text ≠ [] := List.append_ne_nil_of_right_ne_nil _ p.last.text_ne_nil

theorem isBlank_of_mem {c : Char} (hc : c ∈ p.text) : isBlank c = false :=
  isBlank_eq_false_of_isPathChar (p.isPathChar_of_mem hc)

theorem not_mem_text {z : Char} (hz : isPathChar z = false) : z ∉ p.text :=
  not_mem_of_class (fun _ => p.isPathChar_of_mem) hz

/-- A path ends with the end of an identifier. -/
theorem isIdentChar_getLast? : ∀ c ∈ p.text.getLast?, isIdentChar c = true :=
  forall_getLast?_append_of_ne_nil p.last.text_ne_nil fun _ hc =>
    p.last.isIdentChar_of_mem (List.mem_of_getLast? hc)

/-- A path is no path with a wildcard behind it. -/
theorem not_wildcard_isSuffix {m : Char} (hm : m ∈ ['_', '*']) : ¬['.', m] <:+ p.text := by
  intro h
  have hdot : '.' ∉ p.last.text := fun hc => absurd (p.last.isIdentChar_of_mem hc) (by decide)
  -- the wildcard would be the last identifier, since that has no full stop
  rcases List.suffix_or_suffix_of_suffix h (List.suffix_append _ p.last.text) with h | h
  · exact hdot (h.subset List.mem_cons_self)
  rcases List.suffix_cons_iff.1 h with h | h
  · exact hdot (h ▸ List.mem_cons_self)
  rcases List.suffix_cons_iff.1 h with h | h
  · rcases List.mem_cons.1 hm with rfl | hm
    · exact p.last_ne h
    · obtain rfl := List.mem_singleton.1 hm
      exact absurd (p.last.isIdentChar_of_mem (h ▸ List.mem_singleton_self _)) (by decide)
  · exact p.last.text_ne_nil (List.suffix_nil.1 h)

theorem without_text : without backquote p.text = p.name := by
  have hdot : without backquote ['.'] = ['.'] := by decide
  have hqualifier (i : Ident) : without backquote (i.text ++ ['.']) = i.word.val ++ ['.'] := by
    rw [without_append, i.without_text, hdot]
  unfold text name textBy
  rw [without_append, p.last.without_text, without, List.filter_flatMap]
  exact congrArg (· ++ _) (List.flatMap_congr fun i _ => hqualifier i)

theorem name_ne_nil : p.name ≠ [] := List.append_ne_nil_of_right_ne_nil _ p.last.word.2.1

end Path

/-! ## The path of a clause -/

/-- A path without a wildcard or full stops at its end. -/
def cutEnd (path : Text) : Text := ((dropWildcard path).reverse.dropWhile (· == '.')).reverse

theorem dropWildcard_append {m : Char} (hm : m ∈ ['_', '*']) (t : Text) :
    dropWildcard (t ++ ['.', m]) = t := by
  have hsuffix : (['.', '_'].isSuffixOf (t ++ ['.', m]) || ['.', '*'].isSuffixOf (t ++ ['.', m])) =
      true := by
    simp only [Bool.or_eq_true, List.isSuffixOf_iff_suffix]
    rcases List.mem_cons.1 hm with rfl | hm
    · exact .inl (List.suffix_append _ _)
    · exact .inr (List.mem_singleton.1 hm ▸ List.suffix_append _ _)
  have hlength : (t ++ ['.', m]).length - 2 = t.length := by simp
  rw [dropWildcard, if_pos hsuffix, hlength, List.take_left]

theorem dropWildcard_eq_self (h : ∀ m ∈ ['_', '*'], ¬['.', m] <:+ t) : dropWildcard t = t := by
  refine if_neg ?_
  simp only [Bool.or_eq_true, List.isSuffixOf_iff_suffix]
  rintro (hsuffix | hsuffix)
  · exact h '_' (by decide) hsuffix
  · exact h '*' (by decide) hsuffix

namespace Tail

/-- What of the text behind a path stands in front of white space and braces. -/
def attached : Tail → Text
  | .nothing | .renamed .. => []
  | .wildcard mark => ['.', mark.val]
  | .selected _ => ['.']

theorem exists_before_text (tail : Tail) :
    ∃ r, before ['{'] tail.text = tail.attached ++ r ∧ ∀ c ∈ r.head?, isBlank c = true := by
  cases tail with
  | nothing => exact ⟨[], rfl, fun c hc => nomatch hc⟩
  | wildcard mark =>
    have hmarks : ∀ m ∈ ['_', '*'], '{' ∉ ['.', m] := by decide
    refine ⟨[], ?_, fun c hc => nomatch hc⟩
    exact (before_eq_self (hmarks _ mark.2)).trans (List.append_nil _).symm
  | renamed gap gap' name =>
    have hgap (g : Gaps) : '{' ∉ g.val := not_mem_of_class g.2.2 (by decide)
    have has : '{' ∉ "as".toList := by decide
    have hname : '{' ∉ name.text := fun hc => absurd (name.isIdentChar_of_mem hc) (by decide)
    have hbrace : '{' ∉ gap.val ++ ("as".toList ++ (gap'.val ++ name.text)) := by
      simp only [List.mem_append, not_or]
      exact ⟨hgap gap, has, hgap gap', hname⟩
    refine ⟨_, before_eq_self hbrace, ?_⟩
    exact forall_head?_append_of_ne_nil gap.2.1 fun c hc => isBlank_of_isGap (gap.2.2 c hc)
  | selected selectors =>
    refine ⟨[], ?_, fun c hc => nomatch hc⟩
    rw [text, before_append (by decide), before_cons_self]
    rfl

end Tail

/-- What is left of the text behind a path is cut off, and the path stays. -/
theorem cutEnd_attached (p : Path) (tail : Tail) : cutEnd (p.text ++ tail.attached) = p.text := by
  have hself : List.rdropWhile (· == '.') p.text = p.text := by
    refine List.rdropWhile_eq_self_iff.2 fun hne hdot => ?_
    have hlast := p.isIdentChar_getLast? _ (List.getLast?_eq_some_getLast hne)
    rw [eq_of_beq hdot] at hlast
    exact absurd hlast (by decide)
  have hdrop : dropWildcard p.text = p.text :=
    dropWildcard_eq_self fun _ => p.not_wildcard_isSuffix
  have hcut (t : Text) : cutEnd t = List.rdropWhile (· == '.') (dropWildcard t) := rfl
  rw [hcut]
  cases tail with
  | nothing | renamed before after name => rw [Tail.attached, List.append_nil, hdrop, hself]
  | wildcard mark => rw [Tail.attached, dropWildcard_append mark.2, hself]
  | selected selectors =>
    have hdot : dropWildcard (p.text ++ ['.']) = p.text ++ ['.'] := by
      refine dropWildcard_eq_self fun m hm h => ?_
      obtain ⟨t, ht⟩ := h
      have hlast : m = '.' := by simpa using congrArg List.getLast? ht
      exact absurd (hlast ▸ hm) (by decide)
    rw [Tail.attached, hdot, List.rdropWhile_concat_pos _ _ _ (by decide), hself]

namespace Clause

variable (k : Clause)

/-- A clause gives its path, whatever stands behind that. -/
theorem clausePath_text : clausePath k.text = k.path.name := by
  have hbrace : '{' ∉ k.path.text := k.path.not_mem_text (by decide)
  have hattached : ∀ c ∈ k.path.text ++ k.tail.attached, isBlank c = false := by
    refine List.forall_mem_append.2 ⟨fun _ => k.path.isBlank_of_mem, ?_⟩
    cases k.tail with
    | nothing | renamed before after name => exact fun c hc => nomatch hc
    | selected selectors => exact fun c hc => List.mem_singleton.1 hc ▸ by decide
    | wildcard mark =>
      have hmarks : ∀ m ∈ ['_', '*'], ∀ c ∈ ['.', m], isBlank c = false := by decide
      exact hmarks _ mark.2
  obtain ⟨r, hbefore, hr⟩ := k.tail.exists_before_text
  have hwords : (words (before ['{'] k.text)).head? = some (k.path.text ++ k.tail.attached) := by
    rw [text, before_append hbrace, hbefore, ← List.append_assoc,
      words_append (List.append_ne_nil_of_left_ne_nil k.path.text_ne_nil _) hattached hr]
    rfl
  have hpath : clausePath k.text =
      without backquote (cutEnd (((words (before ['{'] k.text)).head?).getD [])) := rfl
  rw [hpath, hwords, Option.getD_some, cutEnd_attached, k.path.without_text]

/-! ## A clause in a list -/

theorem text_ne_nil : k.text ≠ [] := List.append_ne_nil_of_left_ne_nil k.path.text_ne_nil _

theorem isTrimmed_text : IsTrimmed k.text := by
  refine ⟨forall_head?_append_of_ne_nil k.path.text_ne_nil fun _ => k.path.isBlank_of_mem,
    forall_getLast?_append (fun _ hc => k.path.isBlank_of_mem (List.mem_of_getLast? hc)) ?_⟩
  cases k.tail with
  | nothing => exact fun c hc => nomatch hc
  | wildcard mark =>
    have hmarks : ∀ m ∈ ['_', '*'], isBlank m = false := by decide
    exact fun c hc => Option.some.inj hc ▸ hmarks _ mark.2
  | renamed before after name =>
    rw [Tail.text, ← List.append_assoc, ← List.append_assoc]
    refine forall_getLast?_append_of_ne_nil name.text_ne_nil fun c hc => ?_
    exact isBlank_eq_false_of_isIdentChar (name.isIdentChar_of_mem (List.mem_of_getLast? hc))
  | selected selectors =>
    rw [Tail.text, ← List.cons_append, ← List.append_assoc]
    exact forall_getLast?_append_of_ne_nil (List.cons_ne_nil _ _)
      fun c hc => Option.some.inj hc ▸ by decide

/-- The braces of a clause are closed, and its commas stand in them. -/
theorem isWhole_text : IsWhole k.text := by
  have hgap (g : Gaps) : IsWhole g.val := isWhole_of_class (by decide) g.2.2
  refine (isWhole_of_class (by decide) fun _ => k.path.isPathChar_of_mem).append ?_
  cases k.tail with
  | nothing => exact isWhole_blanks fun c hc => nomatch hc
  | wildcard mark =>
    have hmarks : ∀ m ∈ ['_', '*'], ∀ c ∈ ['.', m], c ≠ '{' ∧ c ≠ '}' ∧ c ≠ ',' := by decide
    exact isWhole_of_no_marks (hmarks _ mark.2)
  | renamed before after name =>
    have has : IsWhole "as".toList := isWhole_of_no_marks (by decide)
    have hname : IsWhole name.text := isWhole_of_class (by decide) fun _ => name.isIdentChar_of_mem
    exact (hgap before).append (has.append ((hgap after).append hname))
  | selected selectors =>
    have hdot : IsWhole ['.'] := isWhole_of_no_marks (by decide)
    refine hdot.append (isWhole_braces fun c hc => ?_)
    have hfree := selectors.2 c hc
    simp only [List.mem_cons, not_or] at hfree
    exact ⟨hfree.1, hfree.2.1⟩

/-- No comment or string starts in a clause, and no import ends in it. -/
theorem not_mem_text {z : Char} (hz : z ∈ marks) : z ∉ k.text := by
  have hclass : ∀ z ∈ marks, isPathChar z = false ∧ isIdentChar z = false ∧ isGap z = false ∧
      z ∉ "as".toList ∧ z ∉ ['_', '*'] ∧ z ≠ '.' ∧ z ≠ '{' ∧ z ≠ '}' := by decide
  obtain ⟨hpath, hident, hgap, has, hwildcard, hdot, hopen, hclose⟩ := hclass z hz
  refine not_or.2 ⟨k.path.not_mem_text hpath, ?_⟩ ∘ List.mem_append.1
  cases k.tail with
  | nothing => exact fun h => nomatch h
  | wildcard mark =>
    have hmark : z ≠ mark.val := fun h => hwildcard (h ▸ mark.2)
    simp [Tail.text, hdot, hmark]
  | renamed before after name =>
    have hgaps (g : Gaps) : z ∉ g.val := not_mem_of_class g.2.2 hgap
    have hname : z ∉ name.text := not_mem_of_class (fun _ => name.isIdentChar_of_mem) hident
    simp only [Tail.text, List.mem_append, not_or]
    exact ⟨hgaps before, has, hgaps after, hname⟩
  | selected selectors =>
    have hselectors : z ∉ selectors.val := fun hc =>
      selectors.2 z hc (List.mem_cons_of_mem _ (List.mem_cons_of_mem _ hz))
    simp [Tail.text, hdot, hopen, hclose, hselectors]

end Clause

/-! ## The clauses of an import -/

namespace Import

variable (i : Import)

theorem allBlank_indent (g : Indent) : AllBlank g.val := fun c hc => isBlank_of_isGap (g.2 c hc)

/-- The list is cut into its clauses. -/
theorem topLevelParts_list : topLevelParts .braced i.list = i.clauses.map Clause.text := by
  have hclauses := map_trim_rawParts_clauses (fun _ => isBlank_of_isGap) Clause.isWhole_text
    Clause.isTrimmed_text i.first.isWhole_text (allBlank_indent i.trailing) i.others
  have hparts : (rawParts .braced 0 i.list).map trim = i.clauses.map Clause.text := by
    rw [clauses, List.map_cons, List.map_map, ← trim_eq_self i.first.isTrimmed_text]
    exact hclauses
  rw [topLevelParts, hparts]
  refine List.filter_eq_self.2 fun t ht => ?_
  obtain ⟨k, -, rfl⟩ := List.mem_map.1 ht
  simp [k.text_ne_nil]

/-- The list gives the paths of its clauses. -/
theorem names_list :
    ((topLevelParts .braced i.list).map clausePath).filter (!·.isEmpty) = i.paths := by
  have hpaths : (i.clauses.map Clause.text).map clausePath = i.paths := by
    rw [List.map_map]
    exact List.map_congr_left fun k _ => k.clausePath_text
  rw [topLevelParts_list, hpaths]
  refine List.filter_eq_self.2 fun t ht => ?_
  obtain ⟨k, -, rfl⟩ := List.mem_map.1 ht
  simp [k.path.name_ne_nil]

theorem not_mem_list {z : Char} (hz : z ∈ marks) : z ∉ i.list := by
  have hclass : ∀ z ∈ marks, isGap z = false ∧ z ≠ ',' := by decide
  obtain ⟨hgap, hcomma⟩ := hclass z hz
  simp only [list, List.mem_append, not_or]
  exact ⟨i.first.not_mem_text hz,
    not_mem_flatMap_further hgap hcomma (fun k => k.not_mem_text hz) i.others,
    not_mem_of_class i.trailing.2 hgap⟩

end Import

end ImportScan.Scala
