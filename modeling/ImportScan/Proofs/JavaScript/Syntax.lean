import ImportScan.Grammar.Web
import ImportScan.Proofs.Lexis.Filler
import ImportScan.Proofs.Text.HasWord

/-!
# Scripts of module references

A script is a sequence of references to modules, each of which ends its line, with fillers between
them. A reference has a head, the quoted name of the module, and what the head asks for behind it;
the head tells which of the forms it is. Cleaning leaves the references as they are, and layout in
place of the fillers (`Script.cleaned_text`).
-/

namespace ImportScan.JavaScript

open Grammar Text

/-! ## Names -/

/-- The words that references start with. -/
def starters : List Text := ["import".toList, "export".toList, "require".toList]

/-- The words that have a meaning in a reference. -/
def reserved : List Text := "from".toList :: starters

/-- None of the words of the text is reserved. -/
def Unreserved (t : Text) : Prop := ∀ w ∈ reserved, ¬HasWord w t

/-- A word that is not reserved. -/
abbrev Ident := { w : Text // IsWord w ∧ w ∉ reserved }

/-- What an import takes from a module. -/
abbrev Clause :=
  { t : Text // t ≠ [] ∧ IsTrimmed t ∧ (∀ c ∈ t, isClauseChar c = true) ∧ Unreserved t }

/-- What a re-export takes from a module. -/
abbrev Names := { t : Text // (∀ c ∈ t, isClauseChar c = true ∧ c ≠ '}') ∧ Unreserved t }

/-- The name of a module: not empty, without white space, quotes and backslashes. -/
abbrev Specifier :=
  { t : Text // t ≠ [] ∧ ∀ c ∈ t, isBlank c = false ∧ isQuote c = false ∧ c ≠ '\\' }

/-! ## References -/

/-- The word `from` with white space around it. -/
structure From where
  before : Spaces
  after : Spaces

/-- Another name, behind the word `as`. -/
structure Renaming where
  before : Spaces
  after : Spaces
  name : Ident

/-- The start of a definition of a constant. -/
structure Target where
  gap : Spaces
  name : Ident
  before : Blanks
  after : Blanks

/-- What may be called with the name of a module. -/
inductive Callee where
  | require
  | dynamicImport

/-- What stands in front of the quoted name, and what has to stand behind it. -/
inductive Head where
  | bare (gap : Spaces)
  | clause (gap : Spaces) (clause : Clause) (source : From)
  | all (gap : Spaces) (name : Option Renaming) (source : From)
  | named (gap : Spaces) (kind : Option Spaces) (names : Names) (source : From)
  | call (target : Option Target) (callee : Callee) (gap before after : Blanks)

/-- The quotes that the name of a module may stand in. -/
inductive Quote where
  | single
  | double

/-- A statement that refers to a module. -/
structure Reference where
  head : Head
  quote : Quote
  specifier : Specifier
  semicolon : Bool

/-- The word with its white space. -/
def From.text (f : From) : Text := f.before.val ++ "from".toList ++ f.after.val

/-- The other name as it is written. -/
def Renaming.text (r : Renaming) : Text :=
  r.before.val ++ "as".toList ++ r.after.val ++ r.name.val

/-- The start of the definition as it is written, up to the white space behind the equality sign. -/
def Target.text (t : Target) : Text :=
  "const".toList ++ t.gap.val ++ t.name.val ++ t.before.val ++ ['='] ++ t.after.val

/-- The word that is called. -/
def Callee.name : Callee → String
  | require => "require"
  | dynamicImport => "import"

/-- The marker that the quote is for its language. -/
def Quote.marker : Quote → Marker
  | single => .singleQuote
  | double => .doubleQuote

/-- The quote itself. -/
def Quote.char (q : Quote) : Char := q.marker.head

namespace Head

/-- What stands in front of the keyword. -/
def front : Head → Text
  | call (some target) _ _ _ _ => target.text
  | _ => []

/-- The word that the reference starts with. -/
def keyword : Head → String
  | bare _ | clause _ _ _ => "import"
  | all _ _ _ | named _ _ _ _ => "export"
  | call _ callee _ _ _ => callee.name

/-- What stands between the keyword and the quoted name. -/
def rest : Head → Text
  | bare gap => gap.val
  | clause gap c source => gap.val ++ (c.val ++ source.text)
  | all gap none source => gap.val ++ (['*'] ++ source.text)
  | all gap (some name) source => gap.val ++ (['*'] ++ name.text ++ source.text)
  | named gap none names source => gap.val ++ (['{'] ++ names.val ++ ['}'] ++ source.text)
  | named gap (some kind) names source =>
    gap.val ++ ("type".toList ++ kind.val ++ (['{'] ++ names.val ++ ['}'] ++ source.text))
  | call _ _ gap before _ => gap.val ++ (['('] ++ before.val)

/-- What stands behind the quoted name. -/
def back : Head → Text
  | call _ _ _ _ after => after.val ++ [')']
  | _ => []

/-- The keyword and what stands between it and the quoted name. -/
def opening (h : Head) : Text := h.keyword.toList ++ h.rest

end Head

namespace Reference

variable (r : Reference)

/-- The name of the module in its quotes. -/
def literal : Text := r.quote.char :: (r.specifier.val ++ [r.quote.char])

/-- The end of the statement. -/
def stop : Text := if r.semicolon then [';'] else []

/-- The reference as it is written. -/
def text : Text := r.head.front ++ r.head.opening ++ r.literal ++ (r.head.back ++ r.stop)

/-- From the keyword on up to the end of the statement. -/
def core : List Segment :=
  r.head.opening.map .code ++
    ([.string [r.quote.char] r.specifier.val [r.quote.char]] ++ r.head.back.map .code)

/-- The reference as its language reads it. -/
def segments : List Segment := r.head.front.map .code ++ (r.core ++ r.stop.map .code)

end Reference

/-! ## Scripts -/

/-- References, each at the end of its line, and what stands between them. -/
inductive Script where
  | done (e : Ending)
  /-- A reference that ends the script. -/
  | last (lead : Filler) (r : Reference)
  /-- A reference that ends its line, and what follows on the next. -/
  | line (lead : Filler) (r : Reference) (next : Script)

namespace Script

/-- The script as it is written. -/
def text : Script → Text
  | done e => e.text
  | last lead r => lead.text ++ r.text
  | line lead r next => lead.text ++ (r.text ++ '\n' :: next.text)

/-- The modules, in order. -/
def specifiers : Script → List Text
  | done _ => []
  | last _ r => [r.specifier.val]
  | line _ r next => r.specifier.val :: next.specifiers

/-- The script as its language reads it. -/
def segments : Script → List Segment
  | done e => e.layout.map .code
  | last lead r => lead.layout.map .code ++ r.segments
  | line lead r next => lead.layout.map .code ++ (r.segments ++ (.code '\n' :: next.segments))

end Script

/-! ## What cleaning leaves -/

theorem isCode_of_isClauseChar {t : Text} (h : ∀ c ∈ t, isClauseChar c = true) : IsCode t :=
  isCode_of_class (p := isClauseChar) (by decide) h

theorem isCode_spaces (s : Spaces) : IsCode s.val := isCode_of_allBlank s.2.2

theorem isCode_blanks (b : Blanks) : IsCode b.val := isCode_of_allBlank b.2

theorem isCode_ident (i : Ident) : IsCode i.val := isCode_of_isWord i.2.1.2

theorem From.isCode_text (f : From) : IsCode f.text :=
  ((isCode_spaces _).append (by decide)).append (isCode_spaces _)

theorem Renaming.isCode_text (r : Renaming) : IsCode r.text :=
  (((isCode_spaces _).append (by decide)).append (isCode_spaces _)).append (isCode_ident _)

theorem Target.isCode_text (t : Target) : IsCode t.text := by
  have hname : IsCode ("const".toList ++ t.gap.val ++ t.name.val) :=
    (IsCode.append (by decide) (isCode_spaces _)).append (isCode_ident _)
  exact ((hname.append (isCode_blanks _)).append (by decide)).append (isCode_blanks _)

theorem isWord_of_mem_starters {k : Text} (h : k ∈ starters) : IsWord k := by
  revert k
  decide

namespace Head

variable (h : Head)

theorem keyword_mem : h.keyword.toList ∈ starters := by
  have himport : "import".toList ∈ starters := by decide
  have hexport : "export".toList ∈ starters := by decide
  have hrequire : "require".toList ∈ starters := by decide
  cases h with
  | bare | clause => exact himport
  | all | named => exact hexport
  | call target callee =>
    cases callee with
    | require => exact hrequire
    | dynamicImport => exact himport

theorem isCode_front : IsCode h.front := by
  unfold front
  split
  · exact Target.isCode_text _
  · exact fun c hc => nomatch hc

theorem isCode_rest : IsCode h.rest := by
  have hbraces (names : Names) : IsCode (['{'] ++ names.val ++ ['}']) := by
    refine IsCode.append (.append (by decide) ?_) (by decide)
    exact isCode_of_isClauseChar fun c hc => (names.2.1 c hc).1
  cases h with
  | bare gap => exact isCode_spaces gap
  | clause gap c source =>
    exact (isCode_spaces gap).append ((isCode_of_isClauseChar c.2.2.2.1).append source.isCode_text)
  | all gap name source =>
    cases name with
    | none => exact (isCode_spaces gap).append (.append (by decide) source.isCode_text)
    | some name =>
      have hname : IsCode (['*'] ++ name.text) := .append (by decide) name.isCode_text
      exact (isCode_spaces gap).append (hname.append source.isCode_text)
  | named gap kind names source =>
    have hnames := (hbraces names).append source.isCode_text
    cases kind with
    | none => exact (isCode_spaces gap).append hnames
    | some kind =>
      have hkind : IsCode ("type".toList ++ kind.val) := .append (by decide) (isCode_spaces kind)
      exact (isCode_spaces gap).append (hkind.append hnames)
  | call target callee gap before after =>
    exact (isCode_blanks gap).append (.append (by decide) (isCode_blanks before))

theorem isCode_opening : IsCode h.opening := by
  refine IsCode.append ?_ h.isCode_rest
  exact isCode_of_isWord (isWord_of_mem_starters h.keyword_mem).2

theorem isCode_back : IsCode h.back := by
  cases h with
  | call target callee gap before after => exact (isCode_blanks after).append (by decide)
  | _ => exact fun c hc => nomatch hc

end Head

theorem Quote.isQuote_char (q : Quote) : isQuote q.char = true := by
  cases q <;> rfl

variable (contents : StringContents)

theorem Reference.cleaned_append (r : Reference) {rest : Text} (hrest : StartsUnquoted rest) :
    Lexis.slashedRaw.cleaned contents (r.text ++ rest) =
      Segment.showAll contents r.segments ++ Lexis.slashedRaw.cleaned contents rest := by
  have hstop : IsCode r.stop := by
    unfold stop
    split <;> decide
  have htail : IsCode (r.head.back ++ r.stop) := r.head.isCode_back.append hstop
  have hmarker : r.quote.marker ∈ Lexis.slashedRaw.allQuotes := by
    cases r.quote <;> decide
  have htext : r.quote.marker.text = [r.quote.char] := by
    cases r.quote <;> rfl
  have hspecifier : ∀ c ∈ r.specifier.val, c ≠ r.quote.char ∧ c ≠ '\\' ∧ c ≠ '\n' := by
    intro c hc
    obtain ⟨hblank, hquote, hback⟩ := r.specifier.2.2 c hc
    refine ⟨?_, hback, ?_⟩ <;> rintro rfl
    · rw [r.quote.isQuote_char] at hquote
      cases hquote
    · exact absurd hblank (by decide)
  have hliteral : Lexis.slashedRaw.cleaned contents
        (r.literal ++ (r.head.back ++ r.stop ++ rest)) = Segment.shown contents
          (.string [r.quote.char] r.specifier.val [r.quote.char]) ++
        Lexis.slashedRaw.cleaned contents (r.head.back ++ r.stop ++ rest) :=
    Lexis.cleaned_plainString_append contents hmarker htext hspecifier (hrest.code_append htail)
  rw [text, List.append_assoc, List.append_assoc,
    Lexis.cleaned_code_append (r.head.isCode_front.append r.head.isCode_opening), hliteral,
    Lexis.cleaned_code_append htail, segments, core]
  simp only [Segment.showAll_append, Segment.showAll_code, Segment.showAll_singleton,
    List.append_assoc]

/-- Cleaning touches only the fillers of a script and the contents of its strings. -/
theorem Script.cleaned_text (script : Script) :
    Lexis.slashedRaw.cleaned contents script.text =
      Segment.showAll contents script.segments := by
  induction script with
  | done e => rw [text, Lexis.cleaned_ending, segments, Segment.showAll_code]
  | last lead r =>
    have hrest : StartsUnquoted [] := fun c hc => nomatch hc
    have hlast := r.cleaned_append contents hrest
    rw [List.append_nil, Lexis.cleaned_nil, List.append_nil] at hlast
    rw [text, Lexis.cleaned_filler_append, hlast, segments, Segment.showAll_append,
      Segment.showAll_code]
  | line lead r next ih =>
    have hline : IsCode ['\n'] := by decide
    have hrest : StartsUnquoted ('\n' :: next.text) := startsUnquoted_cons (by decide) _
    rw [text, Lexis.cleaned_filler_append, r.cleaned_append contents hrest,
      ← List.singleton_append, Lexis.cleaned_code_append hline, ih, segments,
      Segment.showAll_append, Segment.showAll_append, Segment.showAll_code]
    rfl

end ImportScan.JavaScript
