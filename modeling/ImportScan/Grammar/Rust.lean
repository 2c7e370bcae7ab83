import ImportScan.Grammar.Basic
import ImportScan.Lexis.Marks
import ImportScan.Text.TopLevel

/-!
# Use declarations and external crates in Rust

A use declaration gives the crate at the root of each of its paths, unless the root stands for the
current crate; an external crate item gives its name.
-/

namespace ImportScan.Grammar

open Pattern

/-- Path roots that lead into the current crate. -/
def localRoots : List Text := ["crate".toList, "self".toList, "super".toList, "Self".toList]

/-- The first word of the first segment of a path; empty if there is none. -/
def pathRoot (item : Text) : Text :=
  ((Text.words (Text.before [':', ':'] (item.dropWhile (· == ':')))).head?).getD []

/-- The items of a use tree: the members of its outermost braces, or the tree itself. -/
def treeItems (tree : Text) : List Text :=
  let tree := Text.join [' '] (Text.words tree)
  let tree := if [':', ':'].isPrefixOf tree then Text.trimStart (tree.drop 2) else tree
  if tree.head? = some '{' ∧ tree.getLast? = some '}' then
    Text.topLevelParts .braced (tree.drop 1).dropLast
  else [tree]

/-- Whether a path root names a crate other than the current one. -/
def isForeignRoot (root : Text) : Bool :=
  !root.isEmpty && !localRoots.contains root && root.head? != some '{'

/-- A use declaration, perhaps behind attributes and a visibility. -/
def useDeclaration : Statement where
  pattern := statementStart [';', '{', '}'] ++
    many0 (word "#[" ++ some0 (fun c => c != ']' && c != '\n') ++ char ']' ++ gaps0) ++
    maybe (word "pub" ++
      maybe (char '(' ++ some0 (fun c => c != ')' && c != '\n') ++ char ')') ++ gaps1) ++
    word "use" ++ gaps1 ++ .part .body (some1 (· != ';')) ++ char ';'
  names m := ((treeItems (m.partOrEmpty .body)).map pathRoot).filter isForeignRoot

/-- An external crate item. -/
def externCrate : Statement where
  pattern := statementStart [';', '{', '}'] ++ maybe (word "pub" ++ gaps1) ++ word "extern" ++
    gaps1 ++ word "crate" ++ gaps1 ++ .part .name (some1 Text.isWord)
  names m := [m.partOrEmpty .name]

/-- Single quotes mark lifetimes as often as characters, so they open nothing. -/
def rust : Grammar where
  lexis := .slashedNested
  strings := .blanked
  statements := [useDeclaration, externCrate]

end ImportScan.Grammar
