import ImportScan.Proofs.Text.Collapse
import ImportScan.Proofs.Text.HasWord

/-!
# Use declarations

A use tree is an item or a group of trees in braces. An item is a path, perhaps with a wildcard, a
new name or a group behind it. White space may stand around every mark, so each piece of the syntax
says how much of it stands there; `textBy` writes a tree down with its white space put through a
function, which is the identity for the text itself and `Text.space` for the text with its white
space collapsed (`Tree.collapse_text`).
-/

namespace ImportScan.Rust

open Text

/-! ## Paths -/

/-- A further segment of a path. -/
structure Step where
  before : Blanks
  after : Blanks
  name : Word

/-- A path: its first identifier, and the segments behind it. -/
structure Path where
  root : Word
  steps : List Step

/-- The two colons that may stand in front, and the white space behind them. -/
abbrev Lead := Option Blanks

/-! ## Trees -/

mutual

/-- A use tree. -/
inductive Tree where
  | item (lead : Lead) (path : Path) (tail : Tail)
  | group (lead : Lead) (members : Members)

/-- What stands behind a path. -/
inductive Tail where
  | nothing
  | all (before after : Blanks)
  | renamed (before after : Spaces) (name : Word)
  | group (before after : Blanks) (members : Members)

/-- What stands in braces: trees between commas, of which one may stand behind the last. -/
inductive Members where
  | nothing (blanks : Blanks)
  | last (before : Blanks) (tree : Tree) (after : Blanks)
  | more (before : Blanks) (tree : Tree) (after : Blanks) (others : Members)

end

/-- The first identifier of an item. -/
def Tree.root? : Tree → Option Text
  | .item _ path _ => some path.root.val
  | .group _ _ => none

/-- The first identifiers of the items among the members. -/
def Members.roots : Members → List Text
  | .nothing _ => []
  | .last _ tree _ => tree.root?.toList
  | .more _ tree _ others => tree.root?.toList ++ others.roots

/-- The first identifiers of the items at the top. -/
def Tree.roots : Tree → List Text
  | .item _ path _ => [path.root.val]
  | .group _ members => members.roots

/-! ## Texts -/

section

variable (f : Text → Text)

/-- The segment with its colons, white space written by `f`. -/
def Step.textBy (s : Step) : Text := f s.before.val ++ ([':', ':'] ++ (f s.after.val ++ s.name.val))

/-- The path with its white space written by `f`. -/
def Path.textBy (p : Path) : Text := p.root.val ++ p.steps.flatMap (Step.textBy f)

/-- The colons in front with their white space written by `f`. -/
def Lead.textBy : Lead → Text
  | none => []
  | some b => [':', ':'] ++ f b.val

mutual

/-- The tree with its white space written by `f`. -/
def Tree.textBy : Tree → Text
  | .item lead path tail => lead.textBy f ++ (path.textBy f ++ tail.textBy)
  | .group lead members => lead.textBy f ++ (['{'] ++ (members.textBy ++ ['}']))

/-- What stands behind a path with its white space written by `f`. -/
def Tail.textBy : Tail → Text
  | .nothing => []
  | .all before after => f before.val ++ ([':', ':'] ++ (f after.val ++ ['*']))
  | .renamed before after name => f before.val ++ (['a', 's'] ++ (f after.val ++ name.val))
  | .group before after members =>
    f before.val ++ ([':', ':'] ++ (f after.val ++ (['{'] ++ (members.textBy ++ ['}']))))

/-- What stands in braces with its white space written by `f`. -/
def Members.textBy : Members → Text
  | .nothing blanks => f blanks.val
  | .last before tree after => f before.val ++ (tree.textBy ++ f after.val)
  | .more before tree after others =>
    f before.val ++ (tree.textBy ++ (f after.val ++ ([','] ++ others.textBy)))

end

end

/-- The tree as it is written. -/
def Tree.text (t : Tree) : Text := t.textBy id

/-! ## Declarations -/

/-- Where a restricted declaration is visible. -/
abbrev Scope := { t : Text // ∀ c ∈ t, isWord c = true ∨ c = ' ' ∨ c = ':' }

/-- How far a declaration is visible. -/
inductive Visibility where
  | inherited
  | everywhere (gap : Gaps)
  | within (scope : Scope) (gap : Gaps)

/-- A use declaration with the white space around it on its line. -/
structure Declaration where
  indent : Indent
  visibility : Visibility
  gap : { c : Char // isGap c = true }
  before : Blanks
  tree : Tree
  after : Blanks
  trailing : Blanks

/-- The visibility as it is written. -/
def Visibility.text : Visibility → Text
  | inherited => []
  | everywhere gap => "pub".toList ++ gap.val
  | within scope gap => "pub".toList ++ (['('] ++ (scope.val ++ ([')'] ++ gap.val)))

namespace Declaration

variable (d : Declaration)

/-- What stands between the word `use` and the semicolon. -/
def body : Text := [d.gap.val] ++ (d.before.val ++ (d.tree.text ++ d.after.val))

/-- The declaration as it is written. -/
def text : Text := d.indent.val ++ (d.visibility.text ++ ("use".toList ++ (d.body ++ [';'])))

/-- The roots that lead into the current crate. -/
def ownRoots : List Text := ["crate".toList, "self".toList, "super".toList, "Self".toList]

/-- The crates that the declaration leads into. -/
def crates : List Text := d.tree.roots.filter (· ∉ ownRoots)

end Declaration

/-- Declarations, each on a new line. -/
def document (ds : List Declaration) : Text :=
  join ['\n'] (ds.map fun d => d.text ++ d.trailing.val)

/-! ## White space collapsed -/

section Layout

variable {f : Text → Text}

theorem Lead.startsSolid (lead : Lead) {r : Text} (hr : StartsSolid r) :
    StartsSolid (lead.textBy f ++ r) := by
  cases lead with
  | none => exact hr
  | some b => exact startsSolid_cons (by decide) _

theorem Tree.startsSolid (t : Tree) (r : Text) : StartsSolid (t.textBy f ++ r) := by
  cases t with
  | item lead path tail =>
    rw [Tree.textBy, List.append_assoc, Path.textBy, List.append_assoc, List.append_assoc]
    exact lead.startsSolid ((isSolid_word _).startsSolid _)
  | group lead members =>
    rw [Tree.textBy, List.append_assoc]
    exact lead.startsSolid (startsSolid_cons (by decide) _)

end Layout

theorem isSolid_colons : IsSolid [':', ':'] := by decide

theorem Lead.collapse_textBy (lead : Lead) {r : Text} (hr : StartsSolid r) :
    collapse (lead.textBy id ++ r) = lead.textBy space ++ collapse r := by
  cases lead with
  | none => rfl
  | some b =>
    simp only [Lead.textBy, id_eq, List.append_assoc]
    rw [collapse_append isSolid_colons.2, collapse_blanks_append b.2 hr]

theorem Step.collapse_textBy (s : Step) (r : Text) :
    collapse (s.textBy id ++ r) = s.textBy space ++ collapse r := by
  simp only [Step.textBy, id_eq, List.append_assoc]
  rw [collapse_piece s.before.2 isSolid_colons, collapse_piece s.after.2 (isSolid_word s.name)]

theorem Path.collapse_textBy (p : Path) (r : Text) :
    collapse (p.textBy id ++ r) = p.textBy space ++ collapse r := by
  have hsteps : collapse (p.steps.flatMap (Step.textBy id) ++ r) =
      p.steps.flatMap (Step.textBy space) ++ collapse r := by
    induction p.steps with
    | nil => rfl
    | cons s steps ih =>
      rw [List.flatMap_cons, List.flatMap_cons, List.append_assoc, List.append_assoc,
        s.collapse_textBy, ih]
  rw [Path.textBy, Path.textBy, List.append_assoc, List.append_assoc,
    collapse_append (isSolid_word p.root).2, hsteps]

mutual

theorem Tree.collapse_textBy : ∀ (t : Tree) (r : Text),
    collapse (t.textBy id ++ r) = t.textBy space ++ collapse r
  | .item lead path tail, r => by
    have hpath : StartsSolid (path.textBy id ++ (tail.textBy id ++ r)) := by
      rw [Path.textBy, List.append_assoc]
      exact (isSolid_word path.root).startsSolid _
    simp only [Tree.textBy, List.append_assoc]
    rw [lead.collapse_textBy hpath, path.collapse_textBy, tail.collapse_textBy]
  | .group lead members, r => by
    have hbrace : IsSolid ['{'] := by decide
    simp only [Tree.textBy, List.append_assoc]
    rw [lead.collapse_textBy (hbrace.startsSolid _), collapse_append hbrace.2,
      members.collapse_textBy]

theorem Tail.collapse_textBy : ∀ (t : Tail) (r : Text),
    collapse (t.textBy id ++ r) = t.textBy space ++ collapse r
  | .nothing, r => rfl
  | .all before after, r => by
    have hstar : IsSolid ['*'] := by decide
    simp only [Tail.textBy, id_eq, List.append_assoc]
    rw [collapse_piece before.2 isSolid_colons, collapse_piece after.2 hstar]
  | .renamed before after name, r => by
    have has : IsSolid ['a', 's'] := by decide
    simp only [Tail.textBy, id_eq, List.append_assoc]
    rw [collapse_piece before.2.2 has, collapse_piece after.2.2 (isSolid_word name)]
  | .group before after members, r => by
    have hbrace : IsSolid ['{'] := by decide
    simp only [Tail.textBy, id_eq, List.append_assoc]
    rw [collapse_piece before.2 isSolid_colons, collapse_piece after.2 hbrace,
      members.collapse_textBy]

theorem Members.collapse_textBy : ∀ (ms : Members) (r : Text),
    collapse (ms.textBy id ++ (['}'] ++ r)) = ms.textBy space ++ (['}'] ++ collapse r)
  | .nothing blanks, r => by
    have hbrace : IsSolid ['}'] := by decide
    simp only [Members.textBy, id_eq]
    rw [collapse_piece blanks.2 hbrace]
  | .last before tree after, r => by
    have hbrace : IsSolid ['}'] := by decide
    simp only [Members.textBy, id_eq, List.append_assoc]
    rw [collapse_blanks_append before.2 (tree.startsSolid _), tree.collapse_textBy,
      collapse_piece after.2 hbrace]
  | .more before tree after others, r => by
    have hcomma : IsSolid [','] := by decide
    simp only [Members.textBy, id_eq, List.append_assoc]
    rw [collapse_blanks_append before.2 (tree.startsSolid _), tree.collapse_textBy,
      collapse_piece after.2 hcomma, others.collapse_textBy]

end

/-- The words of a tree, joined by spaces, whatever white space stands around it. -/
theorem Tree.join_words_text (t : Tree) {b b' : Text} (hb : AllBlank b) (hb' : AllBlank b') :
    join [' '] (words (b ++ (t.text ++ b'))) = t.textBy space := by
  rw [words_blanks_append hb, Tree.text, join_words (t.startsSolid b'), t.collapse_textBy,
    collapse_blanks hb', List.append_nil]

end ImportScan.Rust
