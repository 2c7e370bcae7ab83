import ImportScan.Grammar.Basic
import ImportScan.Proofs.Pattern.Matches
import ImportScan.Proofs.Text.HasWord

/-!
# Statements that start with a keyword

A statement whose pattern asks for a keyword at the edge of a word starts nowhere in a text without
the first character of the keyword (`StartsWith.noneIn`). The edges of words are told by the texts
on their two sides.
-/

namespace ImportScan.Grammar

open Pattern

/-- A match starts at the edge of a word, with a keyword. -/
def StartsWith (k : Text) (p : Pattern Part) : Prop :=
  ∀ s, ∀ e ∈ p.ends s, atWordEdge s.cursor = true ∧ k <+: s.cursor.after

theorem startsWith_keyword (k : String) : StartsWith k.toList (wordEdge ++ word k) := by
  intro s e he
  obtain ⟨m, hm, hword⟩ := mem_ends_append.1 he
  obtain ⟨hedge, rfl⟩ := mem_ends_here.1 hm
  obtain ⟨rest, hafter, -⟩ := mem_ends_text.1 hword
  exact ⟨hedge, hafter ▸ List.prefix_append _ _⟩

theorem StartsWith.append {k : Text} {p : Pattern Part} (hp : StartsWith k p) (q : Pattern Part) :
    StartsWith k (p ++ q) := by
  intro s e he
  obtain ⟨m, hm, -⟩ := mem_ends_append.1 he
  exact hp s m hm

/-- The text does not have the first character of the keyword. -/
def LacksHead (k t : Text) : Prop := ∃ x ∈ k.head?, x ∉ t

/-- No match starts in a text without the first character of the keyword. -/
theorem StartsWith.noneIn {k : Text} {p : Pattern Part} (hp : StartsWith k p) {a t b : Text}
    (ht : LacksHead k t) : p.NoneIn a t b := by
  obtain ⟨x, hx, ht⟩ := ht
  refine noneIn_of_head (P := (· = x)) ?_ fun c hc h => ht (h ▸ hc)
  intro s hne
  obtain ⟨e, he⟩ := List.exists_mem_of_ne_nil _ hne
  obtain ⟨rest, hrest⟩ := (hp s e he).2
  obtain ⟨k, rfl⟩ := List.head?_eq_some_iff.1 hx
  exact ⟨x, k ++ rest, hrest.symm, rfl⟩

theorem LacksHead.mono {k t t' : Text} (h : LacksHead k t) (ht : t' ⊆ t) : LacksHead k t' := by
  obtain ⟨x, hx, hxt⟩ := h
  exact ⟨x, hx, fun hmem => hxt (ht hmem)⟩

/-- Before a word character is an edge if no word goes on there. -/
theorem atWordEdge_between_cons {a b : Text} {x : Char} (hx : Text.isWord x = true) :
    atWordEdge (.between a (x :: b)) = true ↔ a.EndsApart := by
  unfold atWordEdge Text.EndsApart
  rw [Cursor.before_between, Cursor.after_between, List.head?_reverse, List.head?_cons]
  cases a.getLast? <;> simp [hx]

/-- Behind a word character is an edge if no word goes on there. -/
theorem atWordEdge_between_concat {a b : Text} {x : Char} (hx : Text.isWord x = true) :
    atWordEdge (.between (a ++ [x]) b) = true ↔ b.StartsApart := by
  unfold atWordEdge Text.StartsApart
  rw [Cursor.before_between, Cursor.after_between, List.head?_reverse, List.getLast?_concat]
  cases b.head? <;> simp [hx]

/-- Behind a word is an edge if no word goes on there. -/
theorem atWordEdge_skip {c : Cursor} {w b : Text} (hw : Text.IsWord w) (hb : b.StartsApart)
    (h : c.after = w ++ b) : atWordEdge (c.skip w.length) = true := by
  obtain ⟨w, x, rfl⟩ := (List.eq_nil_or_concat w).resolve_left hw.1
  have hx : Text.isWord x = true := hw.2 x (by simp)
  unfold atWordEdge
  rw [Cursor.before_skip, Cursor.after_skip, h, List.take_left, List.drop_left,
    List.concat_eq_append, List.reverse_concat, List.cons_append, List.head?_cons]
  cases hb' : b.head? with
  | none => simp [hx]
  | some y => simp [hx, hb y hb']

/-! ## Keywords and what follows them -/

/-- A match starts at the edge of a word, with the keyword `k` and behind it a character of `P`,
which does not go on with the word. -/
structure OpensWith (k : Text) (P : Char → Prop) (p : Pattern Part) : Prop where
  isWord : Text.IsWord k
  apart : ∀ x, P x → Text.isWord x = false
  opens : ∀ s, ∀ e ∈ p.ends s, atWordEdge s.cursor = true ∧
    ∃ x rest, s.cursor.after = k ++ x :: rest ∧ P x

namespace OpensWith

variable {k : Text} {P : Char → Prop} {p : Pattern Part} {a t b : Text}

theorem append (hp : OpensWith k P p) (q : Pattern Part) : OpensWith k P (p ++ q) where
  isWord := hp.isWord
  apart := hp.apart
  opens := by
    intro s e he
    obtain ⟨m, hm, -⟩ := mem_ends_append.1 he
    exact hp.opens s m hm

/-- No match starts in a text that does not have the keyword, if no word goes on behind the text. -/
theorem noneIn (hp : OpensWith k P p) (ht : ¬Text.HasWord k t)
    (htb : t.EndsApart ∨ b.StartsApart) : p.NoneIn a t b := by
  intro u x v huv
  refine List.eq_nil_iff_forall_not_mem.2 fun e he => ht ?_
  obtain ⟨hedge, y, rest, hafter, hy⟩ := hp.opens _ e he
  have hcut : (x :: v) ++ b = k ++ y :: rest := hafter
  have hx : Text.isWord x = true := by
    obtain ⟨z, k, rfl⟩ := List.exists_cons_of_ne_nil hp.isWord.1
    obtain ⟨rfl, -⟩ := List.cons.inj hcut
    exact hp.isWord.2 x List.mem_cons_self
  have hapart : u.EndsApart :=
    Text.forall_getLast?_of_append ((atWordEdge_between_cons hx).1 hedge)
  have hnext : Text.StartsApart (y :: rest) := by
    rintro c ⟨⟩
    exact hp.apart y hy
  rcases List.append_eq_append_iff.1 hcut with ⟨d, rfl, rfl⟩ | ⟨d, hd, hrest⟩
  · -- the keyword goes on behind the text, unless it ends with it
    by_cases hne : d = []
    · subst hne
      rw [List.append_nil]
      exact ⟨u, [], by rw [huv, List.append_nil], hapart, fun c hc => (nomatch hc)⟩
    · obtain ⟨z, d, rfl⟩ := List.exists_cons_of_ne_nil hne
      have hword : ∀ c ∈ (x :: v) ++ z :: d, Text.isWord c = true := hp.isWord.2
      rcases htb with htb | htb
      · have hlast : ∀ c ∈ (x :: v).getLast?, Text.isWord c = false :=
          Text.forall_getLast?_of_append (huv ▸ htb)
        have hmem := List.getLast?_eq_some_getLast (List.cons_ne_nil x v)
        have := hword _ (List.mem_append_left _ (List.mem_of_getLast? hmem))
        rw [hlast _ hmem] at this
        cases this
      · have := hword z (by simp)
        rw [htb z rfl] at this
        cases this
  · refine ⟨u, d, by rw [huv, hd], hapart, fun c hc => hnext c ?_⟩
    rw [hrest, List.head?_append, hc]
    rfl

theorem noneIn_wordless (hp : OpensWith k P p) (ht : t.Wordless) : p.NoneIn a t b :=
  hp.noneIn (ht.not_hasWord hp.isWord) (.inl ht.endsApart)

/-- In a word a match starts at its start if at all. -/
theorem noneIn_word (hp : OpensWith k P p) {w : Text} (hw : Text.IsWord w) (hb : b.StartsApart)
    (hstart : k = w → p.ends ⟨.between a (w ++ b), []⟩ = []) : p.NoneIn a w b := by
  by_cases hk : k = w
  · intro u x v huv
    by_cases hu : u = []
    · subst hu
      have hnone := hstart hk
      rw [huv] at hnone
      rw [List.append_nil]
      exact hnone
    · -- the word has begun before
      refine List.eq_nil_iff_forall_not_mem.2 fun e he => ?_
      have hx : Text.isWord x = true := hw.2 x (huv ▸ by simp)
      have hapart := (atWordEdge_between_cons hx).1 (hp.opens _ e he).1
      have hlast := List.getLast?_eq_some_getLast hu
      have hbefore : Text.isWord (u.getLast hu) = true :=
        hw.2 _ (huv ▸ List.mem_append_left _ (List.getLast_mem hu))
      rw [Text.forall_getLast?_of_append hapart _ hlast] at hbefore
      cases hbefore
  · exact hp.noneIn (fun h => hk (hw.eq_of_hasWord h)) (.inr hb)

theorem after_ne_nil (hp : OpensWith k P p) (s : Point Part) :
    ∀ e ∈ p.ends s, s.cursor.after ≠ [] := by
  intro e he
  obtain ⟨-, x, rest, hafter, -⟩ := hp.opens s e he
  simp [hafter]

end OpensWith
end ImportScan.Grammar
