import ImportScan.Proofs.Go.Layout
import ImportScan.Proofs.JavaScript.Layout
import ImportScan.Proofs.Layout.Forms
import ImportScan.Proofs.Php.Layout

/-!
# Statements on one line, language by language

A single import statement of a language (`IsSingle`) is read apart from those behind its semicolon,
in every language but Go (`IsSingle.readsApart`). So statements on one line import what they do on
lines of their own; in Go, where an import has to start its line, this holds for one statement and
for no more (`Parser.parse_layout_eq_iff`).
-/

namespace ImportScan

open Grammar Pattern Text

/-- The parsers whose statements may be plain texts with closed brackets. -/
def Parser.bracketed : List Parser :=
  [.cSharp, .haxe, .java, .kotlin, .python, .rust, .scala, .swift]

/-- A single import statement, without the semicolon at its end. -/
inductive IsSingle : Parser → Text → Prop where
  | bracketed {p : Parser} {g : Grammar} {t : Text} (hp : p ∈ Parser.bracketed)
      (hg : p.grammar? = some g) (ht : g.Plain t) (hround : Closed '(' ')' t)
      (hsquare : Closed '[' ']' t) : IsSingle p t
  | php {t : Text} (ht : php.Plain t) (hblocks : Php.Balanced t) : IsSingle .php t
  | javaScript (r : JavaScript.Reference) (hname : '(' ∉ r.specifier.val) :
      IsSingle .javaScript r.text
  | go (i : Go.Single) : IsSingle .go i.text

example : IsSingle .rust "#[macro_use] pub(crate) use a::{b, c as d}".toList :=
  .bracketed (by decide) rfl (by decide) (by decide) (by decide)

variable {p : Parser} {g : Grammar} {t : Text} {ts : List Text}

theorem sequential_rust (hround : Closed '(' ')' t) (hsquare : Closed '[' ']' t) :
    ∀ s ∈ rust.statements, Sequential t s := by
  intro s hs
  have hforms : s = useDeclaration ∨ s = externCrate := by simpa [rust] using hs
  rcases hforms with rfl | rfl
  · exact sequential_useDeclaration hround hsquare
  · exact sequential_externCrate

theorem readsApart_bracketed (hp : p ∈ Parser.bracketed) (hg : p.grammar? = some g)
    (ht : g.Plain t) (hround : Closed '(' ')' t) (hsquare : Closed '[' ']' t) :
    g.ReadsApart t := by
  have hgrammars : Grammar.Separable g ∧ (∀ t, g.scopes t = []) ∧
      ∀ s ∈ g.statements, Sequential t s := by
    simp only [Parser.bracketed, List.mem_cons, List.not_mem_nil, or_false] at hp
    rcases hp with rfl | rfl | rfl | rfl | rfl | rfl | rfl | rfl <;>
      obtain rfl := Option.some.inj hg
    · exact ⟨by decide, fun _ => rfl, List.forall_mem_singleton.2 sequential_usingDirective⟩
    · exact ⟨by decide, fun _ => rfl, sequential_haxe⟩
    · exact ⟨by decide, fun _ => rfl, List.forall_mem_singleton.2 sequential_packageImport⟩
    · exact ⟨by decide, fun _ => rfl, sequential_kotlin⟩
    · exact ⟨by decide, fun _ => rfl, sequential_python⟩
    · exact ⟨by decide, fun _ => rfl, sequential_rust hround hsquare⟩
    · exact ⟨by decide, fun _ => rfl, sequential_scala⟩
    · exact ⟨by decide, fun _ => rfl, sequential_swift hround⟩
  obtain ⟨hseparable, hscopes, hforms⟩ := hgrammars
  exact ht.readsApart hseparable (scopesApart_of_forall hscopes t) hforms

theorem IsSingle.exists_grammar (h : IsSingle p t) : ∃ g, p.grammar? = some g := by
  cases h with
  | bracketed _ hg => exact ⟨_, hg⟩
  | php => exact ⟨_, rfl⟩
  | javaScript => exact ⟨_, rfl⟩
  | go => exact ⟨_, rfl⟩

/-- In every language but Go a single statement is read apart from what is behind its semicolon. -/
theorem IsSingle.readsApart (h : IsSingle p t) (hgo : p ≠ .go) (hg : p.grammar? = some g) :
    g.ReadsApart t := by
  cases h with
  | bracketed hp hg' ht hround hsquare =>
    obtain rfl := Option.some.inj (hg.symm.trans hg')
    exact readsApart_bracketed hp hg ht hround hsquare
  | php ht hblocks =>
    obtain rfl := Option.some.inj hg
    exact Php.readsApart ht hblocks
  | javaScript r hname =>
    obtain rfl := Option.some.inj hg
    exact r.readsApart hname
  | go => exact absurd rfl hgo

theorem exists_singles (h : ∀ t ∈ ts, IsSingle .go t) :
    ∃ is : List Go.Single, ts = is.map (·.text) := by
  induction ts with
  | nil => exact ⟨[], rfl⟩
  | cons t ts ih =>
    obtain ⟨is, rfl⟩ := ih fun u hu => h u (List.mem_cons_of_mem t hu)
    cases h t List.mem_cons_self with
    | bracketed hp => exact absurd hp (by decide)
    | go i => exact ⟨i :: is, rfl⟩

/-- **Statements on one line**: single statements ended by semicolons are parsed the same on one
line and on lines of their own, except for Go, where that holds for one statement and no more. -/
theorem Parser.parse_layout_eq_iff (h : ∀ t ∈ ts, IsSingle p t) :
    p.parse (layout ' ' ts) = p.parse (layout '\n' ts) ↔ (p = .go → ts.length ≤ 1) := by
  by_cases hgo : p = .go
  · subst hgo
    obtain ⟨is, rfl⟩ := exists_singles h
    have hparse (t : Text) : Parser.go.parse t = .ok (Grammar.go.imports t) := rfl
    rw [hparse, hparse, Except.ok.injEq, Go.imports_layout_eq_iff, List.length_map]
    exact ⟨fun hlen _ => hlen, fun hlen => hlen rfl⟩
  · refine iff_of_true ?_ fun hp => absurd hp hgo
    cases ts with
    | nil => rfl
    | cons t ts =>
      obtain ⟨g, hg⟩ := (h t List.mem_cons_self).exists_grammar
      rw [parse_eq_imports hg, parse_eq_imports hg,
        imports_layout fun u hu => (h u hu).readsApart hgo hg]

/-- Two imports on one line lose the second. -/
theorem Parser.parse_layout_ne_pair :
    Parser.go.parse "import \"a\"; import \"b\";\n".toList ≠
      Parser.go.parse "import \"a\";\nimport \"b\";\n".toList := by
  let first : Go.Single := ⟨⟨[' '], by decide⟩, ⟨none, .double, ⟨['a'], by decide⟩⟩⟩
  let second : Go.Single := ⟨⟨[' '], by decide⟩, ⟨none, .double, ⟨['b'], by decide⟩⟩⟩
  have hsingle : ∀ t ∈ [first.text, second.text], IsSingle .go t := by
    intro t ht
    rcases List.mem_pair.1 ht with rfl | rfl
    · exact .go first
    · exact .go second
  intro hsame
  exact absurd ((parse_layout_eq_iff hsingle).1 hsame rfl) (by decide)

end ImportScan
