import ImportScan.Proofs.Lexis.Token
import ImportScan.Proofs.Lexis.Transparency

/-!
# Texts written as token streams

A token stream is code with tokens in between. If its tokens are tokens of a language, its code
starts none, and every token is followed by code that fits it, then the text that it spells is cut
into just these tokens (`segments_source`), and cleaning it blanks just what the stream says
(`cleaned_source`). The induction is on the stream: a stretch of code is passed character by
character, a token is taken off whole.
-/

namespace ImportScan

/-- A piece of a text: code, or a token. -/
inductive Piece where
  | code (t : Text)
  | token (k : Token)
deriving DecidableEq, Repr

namespace Piece

/-- The piece as it is written. -/
def source : Piece → Text
  | code t => t
  | token k => k.source

/-- The piece with comments blanked, and the contents of strings as told. -/
def shown (contents : StringContents) : Piece → Text
  | code t => t
  | token k => k.shown contents

/-- The segments that the piece is cut into. -/
def segments : Piece → List Segment
  | code t => t.map .code
  | token k => [k.segment]

theorem flatMap_shown_segments (contents : StringContents) (s : Piece) :
    s.segments.flatMap (Segment.shown contents) = s.shown contents := by
  cases s with
  | code t => exact Segment.flatMap_shown_code contents t
  | token k =>
    rw [segments, List.flatMap_cons, List.flatMap_nil, List.append_nil, Token.shown_segment]
    rfl

end Piece

/-- A text as code and tokens. -/
abbrev TokenStream := List Piece

/-- Whether a stream may follow a token: it is empty or starts with code, and with a newline if the
end of the line ends the token. -/
def Token.mayPrecede (k : Token) : TokenStream → Bool
  | [] => true
  | .code (c :: _) :: _ => !k.endsWithLine || c == '\n'
  | _ => false

namespace TokenStream

/-- The text that the stream spells. -/
def source (s : TokenStream) : Text := s.flatMap Piece.source

/-- The stream with comments blanked, and the contents of strings as told. -/
def shown (contents : StringContents) (s : TokenStream) : Text := s.flatMap (Piece.shown contents)

/-- Whether the stream is one of a language. -/
def IsOf (lx : Lexis) : TokenStream → Prop
  | [] => True
  | .code t :: rest => t ≠ [] ∧ (∀ c ∈ t, ∀ m ∈ lx.openers, c ≠ m.head) ∧ IsOf lx rest
  | .token k :: rest => k.IsOf lx ∧ k.mayPrecede rest = true ∧ IsOf lx rest

instance decidableIsOf (lx : Lexis) : (s : TokenStream) → Decidable (s.IsOf lx)
  | [] => .isTrue trivial
  | .code t :: rest =>
    have := List.decidableBAll (fun c => ∀ m ∈ lx.openers, c ≠ m.head) t
    have := decidableIsOf lx rest
    inferInstanceAs (Decidable (_ ∧ _ ∧ _))
  | .token _ :: rest =>
    have := decidableIsOf lx rest
    inferInstanceAs (Decidable (_ ∧ _ ∧ _))

/-- What a stream of a language spells may follow a token if the stream may. -/
theorem precedes_source {lx : Lexis} {k : Token} {s : TokenStream} (hs : s.IsOf lx)
    (hk : k.mayPrecede s = true) : k.Precedes lx s.source := by
  cases s with
  | nil =>
    intro c hc
    cases hc
  | cons piece rest =>
    cases piece with
    | token k' => cases hk
    | code t =>
      cases t with
      | nil => cases hk
      | cons d t =>
        obtain ⟨-, hcode, -⟩ := hs
        intro c hc
        obtain rfl : d = c := by simpa [source, Piece.source] using hc
        refine ⟨hcode d List.mem_cons_self, ?_⟩
        intro hend
        simpa [Token.mayPrecede, hend] using hk

/-- The text of a stream is cut into the pieces of the stream. -/
theorem segments_source {lx : Lexis} (hlx : lx.Regular) {s : TokenStream} (hs : s.IsOf lx) :
    lx.segments s.source = s.flatMap Piece.segments := by
  induction s with
  | nil => exact lx.segments_nil
  | cons piece rest ih =>
    cases piece with
    | code t =>
      obtain ⟨-, hcode, hrest⟩ := hs
      have h := Lexis.segments_code_append hcode (source rest)
      rw [ih hrest] at h
      exact h
    | token k =>
      obtain ⟨hk, hpre, hrest⟩ := hs
      have h := Lexis.segments_token hlx hk (precedes_source hrest hpre)
      rw [ih hrest] at h
      exact h

end TokenStream

/-- **Cleaning is exact on token streams**: in the text of every stream of a language the code is
kept, every comment is blanked, and so are the contents of the strings if asked. -/
theorem Parser.cleaned_source {p : Parser} {g : Grammar} (h : p.grammar? = some g)
    {s : TokenStream} (hs : s.IsOf g.lexis) (contents : StringContents) :
    g.lexis.cleaned contents s.source = s.shown contents := by
  rw [Lexis.cleaned, TokenStream.segments_source (Parser.regular_lexis h) hs, List.flatMap_assoc,
    TokenStream.shown]
  congr 1
  funext piece
  exact piece.flatMap_shown_segments contents

/-- All kinds of tokens but a flat comment, with quotes and markers inside one another. -/
theorem Parser.cleaned_source_kotlin :
    let s : TokenStream := [
      .code "val x = ".toList,
      .token (.closedString .tripleDoubleQuote [.plain 'a', .escaped '"', .plain '\n', .plain '/']),
      .code " + ".toList,
      .token (.closedString .doubleQuote []),
      .code " ".toList,
      .token (.nestedComment .slashStar .starSlash
        (.plain 'a' (.block (.plain '"' .done) (.plain '\n' .done)))),
      .code "f(".toList,
      .token (.openString .singleQuote "/*".toList),
      .code "\ng ".toList,
      .token (.lineComment .slashes " it's /*".toList)]
    Parser.kotlin.grammar? = some Grammar.kotlin ∧ s.IsOf Grammar.kotlin.lexis ∧
      s.source = "val x = \"\"\"a\\\"\n/\"\"\" + \"\" /*a/*\"*/\n*/f('/*\ng // it's /*".toList ∧
      s.shown .blanked =
        "val x = \"\"\"   \n \"\"\" + \"\"         \n  f('  \ng           ".toList ∧
      ∀ contents, Grammar.kotlin.lexis.cleaned contents s.source = s.shown contents :=
  ⟨rfl, by decide +kernel, by decide +kernel, by decide +kernel,
    cleaned_source (p := .kotlin) rfl (by decide +kernel)⟩

end ImportScan
