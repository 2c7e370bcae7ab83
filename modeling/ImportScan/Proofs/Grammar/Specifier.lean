import ImportScan.Grammar.Web
import ImportScan.Proofs.Pattern.Preferred

/-!
# Quoted names

A specifier takes a name between two equal quotes and nothing else: it has one end behind such a
name (`ends_specifier`), and every end of it is of this kind (`exists_of_mem_ends_specifier`).
-/

namespace ImportScan.Grammar

open Pattern

/-- What may stand between the quotes: something, without quotes and newlines. -/
def IsSpecifier (name : Text) : Prop := name ≠ [] ∧ ∀ c ∈ name, isQuote c = false ∧ c ≠ '\n'

instance (name : Text) : Decidable (IsSpecifier name) := inferInstanceAs (Decidable (_ ∧ _))

variable {s e : Point Part}

private theorem isNameChar_iff {c : Char} :
    (!isQuote c && c != '\n') = true ↔ isQuote c = false ∧ c ≠ '\n' := by
  simp

/-- The closing quote is found where the quote follows again, and there only. -/
private theorem ends_again {q : Char} (hq : s.part? .quote = some [q]) :
    (Pattern.again .quote (· == ·)).ends s =
      if [q] <+: s.cursor.after then [s.skip 1] else [] := by
  have hskip : s.at s.cursor.next = s.skip 1 := rfl
  unfold ends
  rw [hq]
  cases h : s.cursor.after with
  | nil => simp [behindText?, h]
  | cons x rest => by_cases hx : q = x <;> simp [behindText?, h, hx, hskip]

/-- The quote is still known behind the name. -/
private theorem part?_quote {q : Char} {rest : Text} (h : s.cursor.after = q :: rest) (n : Nat)
    (start : Cursor) :
    ((((s.skip 1).mark .quote s.cursor).skip n).mark .name start).part? .quote = some [q] := by
  rw [Point.part?_mark_of_ne (by decide), Point.part?_skip]
  exact Point.part?_mark (s := s.skip 1) (t := [q]) h rfl Part.quote

/-- A quoted name is taken in one way. -/
theorem ends_specifier {q : Char} {name rest : Text} (hq : isQuote q = true)
    (hname : IsSpecifier name) (h : s.cursor.after = q :: (name ++ q :: rest)) :
    ∃ e, specifier.ends s = [e] ∧ e.cursor = s.cursor.skip (name.length + 2) ∧
      e.part? .name = some name := by
  obtain ⟨hne, hchars⟩ := hname
  let opened := (s.skip 1).mark .quote s.cursor
  have hafter : opened.cursor.after = name ++ q :: rest := Point.after_skip_of_eq (t := [q]) h
  have hclosed : ((opened.skip name.length).mark .name opened.cursor).cursor.after = q :: rest :=
    Point.after_skip_of_eq hafter
  refine ⟨((opened.skip name.length).mark .name opened.cursor).skip 1, ?_, ?_, ?_⟩
  · unfold specifier some1
    rw [ends_append_assoc, ends_append, ends_part, ends_one h, if_pos hq, List.map_singleton,
      List.flatMap_singleton, ends_append, ends_part, List.flatMap_map,
      flatMap_ends_run hafter (fun c hc => isNameChar_iff.2 (hchars c hc)) (by simp [hq])
        (List.length_pos_iff.2 hne)]
    · have hprefix : [q] <+: q :: rest := List.prefix_append [q] rest
      rw [ends_again (part?_quote h _ _), hclosed, if_pos hprefix]
    · -- inside the name no quote follows
      intro n hn
      have hinside : ((opened.skip n).mark .name opened.cursor).cursor.after =
          name[n] :: (name.drop (n + 1) ++ q :: rest) := by
        show (opened.cursor.skip n).after = _
        rw [Cursor.after_skip, hafter, List.drop_append_of_le_length (Nat.le_of_lt hn),
          List.drop_eq_getElem_cons hn, List.cons_append]
      rw [ends_again (part?_quote h _ _), hinside, if_neg]
      rw [List.cons_prefix_cons]
      rintro ⟨e, -⟩
      have := (hchars _ (List.getElem_mem hn)).1
      rw [← e, hq] at this
      cases this
  · show ((s.cursor.skip 1).skip name.length).skip 1 = _
    rw [Cursor.skip_skip, Cursor.skip_skip, Nat.add_comm 1]
  · rw [Point.part?_skip]
    exact Point.part?_mark (s := opened.skip name.length) hafter rfl Part.name

/-- A quoted name is found behind what stands before it. -/
theorem exists_prefers_append_specifier {p : Pattern Part} {u : Text} {q : Char} {name rest : Text}
    (hp : p.Reads s u (q :: (name ++ q :: rest))) (hq : isQuote q = true)
    (hname : IsSpecifier name) : ∃ e, (p ++ specifier).Prefers s e ∧ e.cursor.after = rest ∧
      e.part? .name = some name := by
  obtain ⟨e, hends, hcursor, hpart⟩ := ends_specifier hq hname hp.after_skip
  refine ⟨e, hp.2.append (congrArg List.head? hends), ?_, hpart⟩
  have hlength : name.length + 2 = (q :: (name ++ [q])).length := by simp
  rw [hcursor, hlength, Cursor.after_skip, hp.after_skip]
  simp

/-- A specifier takes nothing but a quoted name. -/
theorem exists_of_mem_ends_specifier (he : e ∈ specifier.ends s) :
    ∃ q name rest, s.cursor.after = q :: (name ++ q :: rest) ∧ isQuote q = true ∧
      IsSpecifier name ∧ e.cursor = s.cursor.skip (name.length + 2) := by
  unfold specifier some1 at he
  obtain ⟨closing, hclosing, he⟩ := mem_ends_append.1 he
  obtain ⟨opened, hopened, hname⟩ := mem_ends_append.1 hclosing
  obtain ⟨m, hm, rfl⟩ := mem_ends_part.1 hopened
  obtain ⟨q, rest, hs, hq, rfl⟩ := mem_ends_one.1 hm
  obtain ⟨m, hm, rfl⟩ := mem_ends_part.1 hname
  obtain ⟨name, rest', hafter, hchars, hlen, rfl⟩ := mem_ends_run.1 hm
  have hrest : rest = name ++ rest' := (Point.after_skip_of_eq (t := [q]) hs).symm.trans hafter
  have hclosed : ((((s.skip 1).mark .quote s.cursor).skip name.length).mark .name
      ((s.skip 1).mark .quote s.cursor).cursor).cursor.after = rest' :=
    Point.after_skip_of_eq hafter
  rw [ends_again (part?_quote hs _ _), hclosed] at he
  split at he
  · rename_i hprefix
    obtain ⟨rest, rfl⟩ := hprefix
    obtain rfl := List.mem_singleton.1 he
    refine ⟨q, name, rest, by rw [hs, hrest]; rfl, hq, ⟨List.length_pos_iff.1 hlen, ?_⟩, ?_⟩
    · exact fun c hc => isNameChar_iff.1 (hchars c hc)
    · show ((s.cursor.skip 1).skip name.length).skip 1 = _
      rw [Cursor.skip_skip, Cursor.skip_skip, Nat.add_comm 1]
  · cases he

end ImportScan.Grammar
