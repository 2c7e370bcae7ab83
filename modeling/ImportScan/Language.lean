import ImportScan.Grammar.C
import ImportScan.Grammar.Go
import ImportScan.Grammar.Php
import ImportScan.Grammar.Python
import ImportScan.Grammar.Rust
import ImportScan.Grammar.Scala
import ImportScan.Grammar.SingleName
import ImportScan.Grammar.Web
import ImportScan.Manifest

/-!
# Languages and their parsers

A language has a tag, and a parser that finds the dependencies of its texts; related languages share
one. `Parser.ofTag` looks a parser up by a tag, whatever its letter case and the white space around
it. A language without support has the parser that finds nothing. How deep a manifest may be nested
hangs on the host, so the parser of manifests is told.
-/

namespace ImportScan

/-- The languages that have tags. -/
inductive Language where
  | c | cpp | cSharp | elm | go | haskell | haxe | html | java | javaScript | json | jsx | kotlin
  | objectiveC | php | python | rust | scala | swift | tsx | typeScript | vbNet | unknown
deriving DecidableEq, Repr

/-- What finds the dependencies of a text. -/
inductive Parser where
  | c | objectiveC | cSharp | elm | go | haskell | haxe | html | java | javaScript | kotlin | php
  | python | rust | scala | swift | vbNet
  /-- The parser of manifests in which `room` arrays and objects may be open at once. -/
  | json (room : Nat)
  | noOp
deriving DecidableEq, Repr

namespace Language

/-- All languages. -/
def all : List Language :=
  [.c, .cpp, .cSharp, .elm, .go, .haskell, .haxe, .html, .java, .javaScript, .json, .jsx, .kotlin,
    .objectiveC, .php, .python, .rust, .scala, .swift, .tsx, .typeScript, .vbNet, .unknown]

/-- The tag of a language. -/
def tag : Language → String
  | .c => "C"
  | .cpp => "C++"
  | .cSharp => "C#"
  | .elm => "Elm"
  | .go => "Go"
  | .haskell => "Haskell"
  | .haxe => "Haxe"
  | .html => "HTML"
  | .java => "Java"
  | .javaScript => "JavaScript"
  | .json => "JSON"
  | .jsx => "JSX"
  | .kotlin => "Kotlin"
  | .objectiveC => "Objective-C"
  | .php => "PHP"
  | .python => "Python"
  | .rust => "Rust"
  | .scala => "Scala"
  | .swift => "Swift"
  | .tsx => "TSX"
  | .typeScript => "TypeScript"
  | .vbNet => "VB.NET"
  | .unknown => "Unknown"

/-- The constant that stands for a language in a program. -/
def constant : Language → String
  | .c => "C"
  | .cpp => "CPP"
  | .cSharp => "CSHARP"
  | .elm => "ELM"
  | .go => "GO"
  | .haskell => "HASKELL"
  | .haxe => "HAXE"
  | .html => "HTML"
  | .java => "JAVA"
  | .javaScript => "JAVASCRIPT"
  | .json => "JSON"
  | .jsx => "JSX"
  | .kotlin => "KOTLIN"
  | .objectiveC => "OBJECTIVE_C"
  | .php => "PHP"
  | .python => "PYTHON"
  | .rust => "RUST"
  | .scala => "SCALA"
  | .swift => "SWIFT"
  | .tsx => "TSX"
  | .typeScript => "TYPESCRIPT"
  | .vbNet => "VBNET"
  | .unknown => "UNKNOWN"

/-- The parser of a language; none for the unknown language. -/
def parser? (room : Nat) : Language → Option Parser
  | .c | .cpp => some .c
  | .cSharp => some .cSharp
  | .elm => some .elm
  | .go => some .go
  | .haskell => some .haskell
  | .haxe => some .haxe
  | .html => some .html
  | .java => some .java
  | .javaScript | .jsx | .tsx | .typeScript => some .javaScript
  | .json => some (.json room)
  | .kotlin => some .kotlin
  | .objectiveC => some .objectiveC
  | .php => some .php
  | .python => some .python
  | .rust => some .rust
  | .scala => some .scala
  | .swift => some .swift
  | .vbNet => some .vbNet
  | .unknown => none

/-- The tag in lower case, by which a language is looked up. -/
def key (l : Language) : Text := Text.lower l.tag.toList

/-- Whether a tag names a language other than the unknown one: it is not empty, and not the tag of
the unknown language in any letter case. -/
def isKnownTag (tag : Text) : Bool := !tag.isEmpty && Text.lower tag != unknown.key

end Language

namespace Parser

/-- The name of a parser, as log records show it. -/
def name : Parser → String
  | .c => "CParser"
  | .objectiveC => "ObjectiveCParser"
  | .cSharp => "CSharpParser"
  | .elm => "ElmParser"
  | .go => "GoParser"
  | .haskell => "HaskellParser"
  | .haxe => "HaxeParser"
  | .html => "HTMLParser"
  | .java => "JavaParser"
  | .javaScript => "JavaScriptParser"
  | .json _ => "JSONParser"
  | .kotlin => "KotlinParser"
  | .php => "PHPParser"
  | .python => "PythonParser"
  | .rust => "RustParser"
  | .scala => "ScalaParser"
  | .swift => "SwiftParser"
  | .vbNet => "VBNetParser"
  | .noOp => "NoOpParser"

/-- The grammar of a parser that has one. -/
def grammar? : Parser → Option Grammar
  | .c => some .c
  | .objectiveC => some .objectiveC
  | .cSharp => some .cSharp
  | .elm => some .elm
  | .go => some .go
  | .haskell => some .haskell
  | .haxe => some .haxe
  | .html => some .html
  | .java => some .java
  | .javaScript => some .javaScript
  | .kotlin => some .kotlin
  | .php => some .php
  | .python => some .python
  | .rust => some .rust
  | .scala => some .scala
  | .swift => some .swift
  | .vbNet => some .visualBasic
  | .json _ | .noOp => none

/-- The names that a text depends on, in order, repetitions included. -/
def parse (p : Parser) (t : Text) : Except Manifest.Error (List Text) :=
  match p.grammar? with
  | some g => .ok (g.imports t)
  | none => match p with
    | .json room => Manifest.packages room t
    | _ => .ok []

/-- The keys under which parsers are found, each with its parser. -/
def registry (room : Nat) : List (Text × Parser) :=
  Language.all.filterMap fun l => (l.parser? room).map fun p => (l.key, p)

/-- The parser for a language tag; the one that finds nothing if no language has the tag. -/
def ofTag (room : Nat) (tag : Text) : Parser :=
  ((registry room).lookup (Text.lower (Text.trim tag))).getD .noOp

/-- The parser for a language tag that may be missing. -/
def ofTag? (room : Nat) (tag : Option Text) : Parser := (tag.map (ofTag room)).getD .noOp

end Parser
end ImportScan
