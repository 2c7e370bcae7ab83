import ImportScan.Config
import ImportScan.Decimal.Shortest
import ImportScan.Dependency
import ImportScan.Detect
import ImportScan.Grammar.Basic
import ImportScan.Grammar.C
import ImportScan.Grammar.Go
import ImportScan.Grammar.Php
import ImportScan.Grammar.Python
import ImportScan.Grammar.Rust
import ImportScan.Grammar.Scala
import ImportScan.Grammar.SingleName
import ImportScan.Grammar.Web
import ImportScan.Heartbeat
import ImportScan.Json.Basic
import ImportScan.Json.Reader
import ImportScan.Language
import ImportScan.Lexis.Basic
import ImportScan.Lexis.Extent
import ImportScan.Lexis.Marks
import ImportScan.Lexis.Segment
import ImportScan.Log
import ImportScan.Manifest
import ImportScan.Path
import ImportScan.Pattern.Basic
import ImportScan.Pattern.Cursor
import ImportScan.Pattern.FirstEnd
import ImportScan.Pattern.Literal
import ImportScan.Pattern.Mode
import ImportScan.Pattern.Reader
import ImportScan.Pattern.Search
import ImportScan.Proofs.Batch.Annotation
import ImportScan.Proofs.Batch.Delivery
import ImportScan.Proofs.Batch.Independence
import ImportScan.Proofs.Batch.LanguageTags
import ImportScan.Proofs.Batch.Noninterference
import ImportScan.Proofs.Batch.Roster
import ImportScan.Proofs.C.IncludePath
import ImportScan.Proofs.Config.Namings
import ImportScan.Proofs.Dependency
import ImportScan.Proofs.Go.Imports
import ImportScan.Proofs.Go.Layout
import ImportScan.Proofs.Go.Paths
import ImportScan.Proofs.Go.Starts
import ImportScan.Proofs.Go.Syntax
import ImportScan.Proofs.Grammar.Behind
import ImportScan.Proofs.Grammar.Code
import ImportScan.Proofs.Grammar.Gap
import ImportScan.Proofs.Grammar.InCode
import ImportScan.Proofs.Grammar.Indented
import ImportScan.Proofs.Grammar.Keyword
import ImportScan.Proofs.Grammar.Lines
import ImportScan.Proofs.Grammar.Plain
import ImportScan.Proofs.Grammar.Rooting
import ImportScan.Proofs.Grammar.Scan
import ImportScan.Proofs.Grammar.Seam
import ImportScan.Proofs.Grammar.Semicolon
import ImportScan.Proofs.Grammar.Specifier
import ImportScan.Proofs.Html.Attribute
import ImportScan.Proofs.Html.ScriptTag
import ImportScan.Proofs.JavaScript.Forms
import ImportScan.Proofs.JavaScript.Layout
import ImportScan.Proofs.JavaScript.Reading
import ImportScan.Proofs.JavaScript.Script
import ImportScan.Proofs.JavaScript.Statements
import ImportScan.Proofs.JavaScript.StringLiteral
import ImportScan.Proofs.JavaScript.Syntax
import ImportScan.Proofs.Json.Limits
import ImportScan.Proofs.Json.Reading
import ImportScan.Proofs.Json.Scalars
import ImportScan.Proofs.Json.SectionOrder
import ImportScan.Proofs.Json.Sections
import ImportScan.Proofs.Json.Settled
import ImportScan.Proofs.Json.Syntax
import ImportScan.Proofs.Layout.Basic
import ImportScan.Proofs.Layout.Forms
import ImportScan.Proofs.Layout.Languages
import ImportScan.Proofs.Lexis.Blanking
import ImportScan.Proofs.Lexis.Filler
import ImportScan.Proofs.Lexis.LineEnding
import ImportScan.Proofs.Lexis.Marker
import ImportScan.Proofs.Lexis.Offsets
import ImportScan.Proofs.Lexis.Progress
import ImportScan.Proofs.Lexis.Regular
import ImportScan.Proofs.Lexis.Token
import ImportScan.Proofs.Lexis.TokenStream
import ImportScan.Proofs.Lexis.Transparency
import ImportScan.Proofs.Lexis.Zones
import ImportScan.Proofs.Pattern.Behind
import ImportScan.Proofs.Pattern.Ends
import ImportScan.Proofs.Pattern.InStep
import ImportScan.Proofs.Pattern.Matches
import ImportScan.Proofs.Pattern.Parts
import ImportScan.Proofs.Pattern.Place
import ImportScan.Proofs.Pattern.Preferred
import ImportScan.Proofs.Pattern.Replaced
import ImportScan.Proofs.Pattern.Without
import ImportScan.Proofs.Php.Clause
import ImportScan.Proofs.Php.Document
import ImportScan.Proofs.Php.Layout
import ImportScan.Proofs.Php.OpenBraces
import ImportScan.Proofs.Php.Scope
import ImportScan.Proofs.Php.Syntax
import ImportScan.Proofs.Php.UseStatement
import ImportScan.Proofs.Python.Continued
import ImportScan.Proofs.Python.Forms
import ImportScan.Proofs.Python.LineEndings
import ImportScan.Proofs.Python.Lines
import ImportScan.Proofs.Python.Names
import ImportScan.Proofs.Python.Program
import ImportScan.Proofs.Python.Reading
import ImportScan.Proofs.Python.Syntax
import ImportScan.Proofs.Rust.Document
import ImportScan.Proofs.Rust.Externs
import ImportScan.Proofs.Rust.LocalRoots
import ImportScan.Proofs.Rust.Reading
import ImportScan.Proofs.Rust.Roots
import ImportScan.Proofs.Rust.Syntax
import ImportScan.Proofs.Scala.Clause
import ImportScan.Proofs.Scala.Program
import ImportScan.Proofs.Session.Dependencies
import ImportScan.Proofs.Source
import ImportScan.Proofs.Store.Walk
import ImportScan.Proofs.Strings.LineString
import ImportScan.Proofs.Strings.Quoted
import ImportScan.Proofs.Strings.Raw
import ImportScan.Proofs.Text.Collapse
import ImportScan.Proofs.Text.Cut
import ImportScan.Proofs.Text.HasWord
import ImportScan.Proofs.Text.LetterCase
import ImportScan.Proofs.Text.Pieces
import ImportScan.Proofs.Text.TopLevel
import ImportScan.Proofs.Text.Trim
import ImportScan.Proofs.VisualBasic.Imports
import ImportScan.Session
import ImportScan.Source
import ImportScan.Store
import ImportScan.Table
import ImportScan.Text.Basic
import ImportScan.Text.Blank
import ImportScan.Text.Bytes
import ImportScan.Text.Case
import ImportScan.Text.Digit
import ImportScan.Text.Quoted
import ImportScan.Text.TopLevel
import ImportScan.Text.Word
import ImportScan.Yaml.Basic
import ImportScan.Yaml.Document
import ImportScan.Yaml.Node
import ImportScan.Yaml.Plain
import ImportScan.Yaml.Scalar
import ImportScan.Yaml.Spot
import ImportScan.Yaml.Token
