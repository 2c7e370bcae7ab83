import ImportScan.Proofs.Text.HasWord
import ImportScan.Proofs.Text.TopLevel

/-!
# Documents of PHP

A document is a tree of items: namespace declarations, use statements, other statements, and blocks
of further items. Every item starts on a new line. What is neither read nor braced is free text,
kept apart from the rest by the marks that it does not have. The tree says which vendors a document
imports: the first segment of every clause of its use statements, unless some block around the
statement is no namespace block (`Items.vendors`).
-/

namespace ImportScan.Php

open Text

/-! ## Texts -/

/-- The marks of blocks, of the end of a statement, of strings and of comments. -/
def marks : Text := ['{', '}', ';', '"', '\'', '/', '#']

/-- The text has no marks. -/
def IsPlain (t : Text) : Prop := ∀ c ∈ t, c ∉ marks

/-- Of the marks the text has those in `few` only. -/
def HasOnly (few t : Text) : Prop := ∀ c ∈ t, c ∈ marks → c ∈ few

theorem IsPlain.hasOnly {few t : Text} (h : IsPlain t) : HasOnly few t :=
  fun c hc hm => absurd hm (h c hc)

theorem hasOnly_singleton {few : Text} {c : Char} (h : c ∈ few) : HasOnly few [c] :=
  fun _ hd _ => List.mem_singleton.1 hd ▸ h

theorem HasOnly.append {few t u : Text} (ht : HasOnly few t) (hu : HasOnly few u) :
    HasOnly few (t ++ u) := by
  intro c hc
  rcases List.mem_append.1 hc with hc | hc
  · exact ht c hc
  · exact hu c hc

/-- Free text without the word `use`. -/
structure Phrase where
  text : Text
  isPlain : IsPlain text
  not_hasWord_use : ¬Text.HasWord "use".toList text

/-! ## Names and clauses -/

/-- Words with backslashes between them. -/
structure Name where
  first : Word
  others : List Word

/-- The name as it is written. -/
def Name.text (n : Name) : Text := n.first.val ++ n.others.flatMap fun w => '\\' :: w.val

/-- A namespace declaration; that of a block need not have a name. -/
def namespaceText : Option (Spaces × Name) → Text
  | none => "namespace".toList
  | some (space, name) => "namespace".toList ++ (space.val ++ name.text)

/-- What a clause imports other than a class or a namespace. -/
inductive Kind where
  | function
  | const

/-- The word for the kind. -/
def Kind.text : Kind → Text
  | .function => "function".toList
  | .const => "const".toList

/-- The words that no name of a clause starts with. -/
def reserved : List Text := ["function".toList, "const".toList, "as".toList]

/-- One clause of a use statement. -/
structure Clause where
  kind : Option (Kind × Spaces)
  /-- Whether the name starts with a backslash. -/
  rooted : Bool
  name : Name
  not_reserved : name.first.val ∉ reserved
  /-- What the braces of a group hold. -/
  group : Option { t : Text // IsPlain t }
  newName : Option (Spaces × Spaces × Word)

namespace Clause

variable (k : Clause)

/-- The clause up to the braces of a group. -/
def path : Text :=
  (if k.rooted then ['\\'] else []) ++ k.name.text ++ if k.group.isSome then ['\\'] else []

/-- The braces and what they hold; nothing if the clause has none. -/
def groupText : Text := match k.group with
  | none => []
  | some t => '{' :: (t.val ++ ['}'])

/-- The other name behind the word `as`; nothing if the clause has none. -/
def newNameText : Text := match k.newName with
  | none => []
  | some (before, after, w) => before.val ++ ("as".toList ++ (after.val ++ w.val))

/-- The word for the kind and the white space behind it; nothing if the clause has none. -/
def kindText : Text := match k.kind with
  | none => []
  | some (kind, space) => kind.text ++ space.val

/-- The clause without its kind. -/
def bare : Text := k.path ++ (k.groupText ++ k.newNameText)

/-- The clause as it is written. -/
def text : Text := k.kindText ++ k.bare

/-- The first segment of the name. -/
def vendor : Text := k.name.first.val

end Clause

/-! ## Statements -/

/-- A use statement. -/
structure Use where
  gap : Gaps
  first : Clause
  others : List (Further isBlank Clause)
  trail : Blanks

namespace Use

variable (u : Use)

/-- All clauses, in order. -/
def clauses : List Clause := u.first :: u.others.map (·.clause)

/-- The clauses with the commas between them. -/
def list : Text := u.first.text ++ u.others.flatMap (Further.text Clause.text)

/-- The statement as it is written. -/
def text : Text := "use".toList ++ (u.gap.val ++ (u.list ++ (u.trail.val ++ [';'])))

end Use

/-- A statement: a namespace declaration, a use statement, or any other. -/
inductive Stmt where
  | namespaceDecl (space : Spaces) (name : Name)
  | use (u : Use)
  | other (p : Phrase)

namespace Stmt

/-- The statement as it is written, with its semicolon. -/
def text : Stmt → Text
  | .namespaceDecl space name => namespaceText (some (space, name)) ++ [';']
  | .use u => u.text
  | .other p => p.text ++ [';']

/-- The vendors that the statement imports, in order. -/
def vendors : Stmt → List Text
  | .use u => u.clauses.map (·.vendor)
  | _ => []

end Stmt

/-! ## Blocks -/

/-- What stands in front of a block. -/
inductive Head where
  | ofNamespace (name : Option (Spaces × Name))
      (h : ¬Text.HasWord "use".toList (namespaceText name))
  | other (p : Phrase) (h : ¬Text.HasWord "namespace".toList p.text)

namespace Head

/-- The head as it is written. -/
def text : Head → Text
  | .ofNamespace name _ => namespaceText name
  | .other p _ => p.text

/-- Whether the head is that of a namespace block. -/
def isNamespace : Head → Bool
  | .ofNamespace .. => true
  | .other .. => false

end Head

/-! ## Items -/

/-- What stands in front of an item: the end of a line and the indentation of the next. -/
structure Lead where
  lines : Blanks
  indent : Indent

/-- The first item of a document starts its line already. -/
def Lead.text (l : Lead) (atStart : Bool) : Text :=
  if atStart then l.indent.val else l.lines.val ++ '\n' :: l.indent.val

/-- Statements and blocks, one behind the other. -/
inductive Items where
  | done (trail : Blanks)
  | statement (lead : Lead) (s : Stmt) (rest : Items)
  | block (lead : Lead) (head : Head) (gap : Blanks) (inner rest : Items)

namespace Items

/-- The text of the items, at the start of a document or behind something else. -/
def text : Items → (atStart : Bool) → Text
  | .done trail, _ => trail.val
  | .statement lead s rest, atStart => lead.text atStart ++ (s.text ++ rest.text false)
  | .block lead head gap inner rest, atStart =>
    lead.text atStart ++ (head.text ++ (gap.val ++
      '{' :: (inner.text false ++ '}' :: rest.text false)))

/-- The vendors of the use statements, in order, of which those in a block that is no namespace
block count for nothing; `inBody` says whether such a block is around the items. -/
def vendors : Items → (inBody : Bool) → List Text
  | .done _, _ => []
  | .statement _ s rest, inBody => (if inBody then [] else s.vendors) ++ rest.vendors inBody
  | .block _ head _ inner rest, inBody =>
    inner.vendors (inBody || !head.isNamespace) ++ rest.vendors inBody

end Items

end ImportScan.Php
