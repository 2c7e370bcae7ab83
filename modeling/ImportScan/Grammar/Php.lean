import ImportScan.Grammar.Basic
import ImportScan.Lexis.Marks
import ImportScan.Text.TopLevel

/-!
# Use statements in PHP

A use statement imports names, and each gives its vendor namespace; but inside the body of a class
or trait it pulls in a trait instead. `bodies` tabulates, brace by brace, whether the code behind it
lies in a block that is no namespace block. The head of a block is what stands between the brace
before it and its own; a namespace block is one whose head ends in a namespace declaration.
-/

namespace ImportScan.Grammar

open Pattern

/-- The word `namespace` and what follows it, up to the end of a block's head. -/
def namespaceHead : Pattern Part :=
  wordEdge ++ word "namespace" ++ wordEdge ++
    some0 (fun c => c != ';' && c != '{' && c != '}') ++ .here (·.after.isEmpty)

/-- Whether a head ends in a namespace declaration. -/
def endsInNamespace (head : Text) : Bool := namespaceHead.occursIn head

/-- The braces of a code text from `offset` on, each with whether the code behind it lies in a block
that is no namespace block. `head` is what stands since the last brace, last character first, and
`openBlocks` says of each open block, the innermost first, whether it is no namespace block. -/
def bodiesFrom (offset : Nat) (head : Text) (openBlocks : List Bool) : Text → Scopes
  | [] => []
  | c :: rest =>
    if c = '{' then
      let blocks := (!endsInNamespace head.reverse) :: openBlocks
      (offset, blocks.any id) :: bodiesFrom (offset + 1) [] blocks rest
    else if c = '}' then
      (offset, openBlocks.tail.any id) :: bodiesFrom (offset + 1) [] openBlocks.tail rest
    else bodiesFrom (offset + 1) (c :: head) openBlocks rest

/-- The braces of a code text, each with whether the code behind it lies in a block that is no
namespace block. -/
def bodies (code : Text) : Scopes := bodiesFrom 0 [] [] code

/-- The text without a leading `function` or `const` that white space follows. -/
def dropKind (t : Text) : Text :=
  let dropWord (w : Text) : Option Text :=
    if w.isPrefixOf t then
      match t.drop w.length with
      | c :: rest => if Text.isBlank c then some (Text.trimStart rest) else none
      | [] => none
    else none
  (dropWord "function".toList <|> dropWord "const".toList).getD t

/-- The vendor namespace of one clause of a use statement; empty if it names nothing. -/
def vendor (clause : Text) : Text :=
  match Text.words (Text.before ['{'] (dropKind clause)) with
  | [] => []
  | name :: _ => Text.before ['\\'] (name.dropWhile (· == '\\'))

/-- A use statement. -/
def useStatement : Statement where
  pattern := statementStart [';', '{', '}'] ++ word "use" ++ gaps1 ++
    .part .body (.one (fun c => c == '\\' || Text.isWord c) ++ some0 (· != ';')) ++ char ';'
  names m :=
    let clauses := Text.topLevelParts .braced (dropKind (Text.trim (m.partOrEmpty .body)))
    (clauses.map vendor).filter (!·.isEmpty)

/-- Use statements in the bodies of functions and classes import nothing. -/
def php : Grammar where
  lexis := { Lexis.slashed with line := [.slashes, .hash] }
  strings := .blanked
  statements := [useStatement]
  scopes := bodies

end ImportScan.Grammar
