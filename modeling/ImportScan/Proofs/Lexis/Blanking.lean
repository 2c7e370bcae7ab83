import ImportScan.Proofs.Lexis.Marker
import Mathlib.Data.List.Forall2

/-!
# Texts with characters blanked

`Text.BlanksTo t u` says that `u` is `t` with some of its characters replaced by spaces, newlines
apart. Cleaning a text blanks it (`blanksTo_cleaned`), and blanking brings up no marker that was not
there before, as long as no marker holds a space (`Marker.opens_of_blanksTo`). A string whose
characters are all kept keeps its extent, whatever is blanked behind it
(`stringExtent_eq_of_blanksTo`).
-/

namespace ImportScan

/-- The second text is the first with some characters other than newlines replaced by spaces. -/
def Text.BlanksTo (t u : Text) : Prop := List.Forall₂ (fun x y => y = x ∨ x ≠ '\n' ∧ y = ' ') t u

namespace Text.BlanksTo

theorem nil : BlanksTo [] [] := List.Forall₂.nil

theorem cons_same (c : Char) {t u : Text} (h : BlanksTo t u) : BlanksTo (c :: t) (c :: u) :=
  List.Forall₂.cons (.inl rfl) h

theorem refl (t : Text) : BlanksTo t t := by
  induction t with
  | nil => exact nil
  | cons c t ih => exact cons_same c ih

theorem append {t u t' u' : Text} (h : BlanksTo t u) (h' : BlanksTo t' u') :
    BlanksTo (t ++ t') (u ++ u') := List.rel_append h h'

theorem blanked (t : Text) : BlanksTo t t.blanked := by
  induction t with
  | nil => exact nil
  | cons c t ih =>
    refine List.Forall₂.cons ?_ ih
    by_cases hc : c = '\n'
    · exact .inl (by simp [hc])
    · exact .inr ⟨hc, by simp [hc]⟩

/-- Where the blanked text ends a line, so does the text. -/
theorem exists_of_newline {v w t : Text} (h : BlanksTo t (v ++ '\n' :: w)) :
    ∃ a b, t = a ++ '\n' :: b ∧ BlanksTo a v ∧ BlanksTo b w := by
  induction v generalizing t with
  | nil =>
    obtain ⟨c, b, hc, hb, rfl⟩ := List.forall₂_cons_right_iff.1 h
    rcases hc with rfl | ⟨-, hc⟩
    · exact ⟨[], b, rfl, nil, hb⟩
    · exact absurd hc (by decide)
  | cons x v ih =>
    obtain ⟨c, t, hc, ht, rfl⟩ := List.forall₂_cons_right_iff.1 h
    obtain ⟨a, b, rfl, ha, hb⟩ := ih ht
    exact ⟨c :: a, b, rfl, .cons hc ha, hb⟩

/-- A character stays or becomes a space. -/
theorem exists_getElem? {t u : Text} (h : BlanksTo t u) {n : Nat} {x : Char}
    (hx : t[n]? = some x) : ∃ y, u[n]? = some y ∧ (y = x ∨ y = ' ') := by
  induction h generalizing n with
  | nil => simp at hx
  | @cons c d t u hd _ ih =>
    cases n with
    | zero =>
      obtain rfl : c = x := Option.some.inj hx
      exact ⟨d, rfl, hd.imp id And.right⟩
    | succ n => exact ih hx

theorem flatMap {α : Type} {f g : α → Text} (h : ∀ a, (f a).BlanksTo (g a)) (l : List α) :
    BlanksTo (l.flatMap f) (l.flatMap g) := by
  induction l with
  | nil => exact nil
  | cons a l ih =>
    rw [List.flatMap_cons, List.flatMap_cons]
    exact (h a).append ih

/-- What holds no space and starts the blanked text starts the text. -/
theorem prefix_of_prefix {p t u : Text} (h : BlanksTo t u) (hp : ' ' ∉ p) (hu : p <+: u) :
    p <+: t := by
  induction p generalizing t u with
  | nil => exact List.nil_prefix
  | cons c p ih =>
    obtain ⟨rest, rfl⟩ := hu
    rw [List.cons_append] at h
    obtain ⟨d, t', hd, ht, rfl⟩ := List.forall₂_cons_right_iff.1 h
    have hc : c ≠ ' ' := fun e => hp (e ▸ List.mem_cons_self)
    obtain rfl : c = d := by
      rcases hd with hd | ⟨-, hd⟩
      · exact hd
      · exact absurd hd hc
    have := ih ht (fun e => hp (List.mem_cons_of_mem _ e)) (List.prefix_append _ _)
    exact (List.prefix_cons_inj c).2 this

end Text.BlanksTo

/-- Blanking brings up no marker. -/
theorem Marker.opens_of_blanksTo {m : Marker} {t u : Text} (h : t.BlanksTo u) (hm : ' ' ∉ m.text)
    (ho : m.opens u = true) : m.opens t = true :=
  opens_iff.2 (h.prefix_of_prefix hm (opens_iff.1 ho))

theorem Marker.not_opens_of_blanksTo {m : Marker} {t u : Text} (h : t.BlanksTo u)
    (hm : ' ' ∉ m.text) (ho : m.opens t = false) : m.opens u = false := by
  cases hu : m.opens u with
  | false => rfl
  | true => exact absurd (opens_of_blanksTo h hm hu) (by simp [ho])

/-! ## Cleaned texts -/

theorem Segment.blanksTo_shown (contents : StringContents) (s : Segment) :
    s.source.BlanksTo (s.shown contents) := by
  cases s with
  | code c => exact .refl _
  | comment t => exact .blanked t
  | string opener t closer =>
    cases contents with
    | kept => exact .refl _
    | blanked => exact ((Text.BlanksTo.refl opener).append (.blanked t)).append (.refl closer)

/-- Cleaning replaces characters by spaces and does nothing else. -/
theorem Lexis.blanksTo_cleaned (lx : Lexis) (contents : StringContents) (t : Text) :
    t.BlanksTo (lx.cleaned contents t) := by
  conv => lhs; rw [← lx.source_segments t]
  exact .flatMap (Segment.blanksTo_shown contents) _

/-- Blanking the strings too replaces more characters by spaces. -/
theorem Lexis.cleaned_blanksTo_blanked (lx : Lexis) (contents : StringContents) (t : Text) :
    (lx.cleaned contents t).BlanksTo (lx.cleaned .blanked t) := by
  refine .flatMap (fun s => ?_) _
  cases s with
  | code c => exact .refl _
  | comment t => exact .refl _
  | string opener t closer =>
    cases contents with
    | kept => exact ((Text.BlanksTo.refl opener).append (.blanked t)).append (.refl closer)
    | blanked => exact .refl _

/-! ## Strings that are kept -/

theorem stringExtent_cons {quote : Marker} {multiline : Bool} {n : Nat} {c : Char} {rest : Text}
    (hc : c ≠ '\\') :
    stringExtent quote multiline n (c :: rest) =
      if quote.opens (c :: rest) then n + quote.length
      else if c = '\n' ∧ multiline = false then n
      else stringExtent quote multiline (n + 1) rest := by
  rw [stringExtent]
  · exact fun h => absurd h hc
  · exact fun _ _ h => absurd h hc

theorem ne_backslash_of_no_escape {c : Char} {rest : Text}
    (h1 : c = '\\' → rest = [] → False)
    (h2 : ∀ x rest', c = '\\' → rest = x :: rest' → False) : c ≠ '\\' := by
  intro hc
  cases rest with
  | nil => exact h1 hc rfl
  | cons x rest => exact h2 x rest hc rfl

/-- Texts that are the same between two places are so in their first character and behind it. -/
private theorem take_sub_cons {n e : Nat} (he : n + 1 ≤ e) {x y : Char} {t u : Text}
    (h : (y :: u).take (e - n) = (x :: t).take (e - n)) :
    y = x ∧ u.take (e - (n + 1)) = t.take (e - (n + 1)) := by
  have hsub : e - n = e - (n + 1) + 1 := by omega
  rw [hsub, List.take_succ_cons, List.take_succ_cons] at h
  exact List.cons.inj h

/-- A string of which every character is kept reaches as far in the blanked text. -/
theorem stringExtent_eq_of_blanksTo {quote : Marker} {multiline : Bool} {n : Nat} {t u : Text}
    (hq : ' ' ∉ quote.text) (h : t.BlanksTo u)
    (hkept : u.take (stringExtent quote multiline n t - n) =
      t.take (stringExtent quote multiline n t - n)) :
    stringExtent quote multiline n u = stringExtent quote multiline n t := by
  fun_induction stringExtent quote multiline n t generalizing u with
  | case1 n =>
    obtain rfl := List.forall₂_nil_left_iff.1 h
    rw [stringExtent]
  | case2 n =>
    obtain ⟨y, u, -, hu, rfl⟩ := List.forall₂_cons_left_iff.1 h
    obtain rfl := List.forall₂_nil_left_iff.1 hu
    obtain rfl : y = '\\' := by simpa using hkept
    rw [stringExtent]
  | case3 n x rest ih =>
    obtain ⟨y, u, -, hxu, rfl⟩ := List.forall₂_cons_left_iff.1 h
    obtain ⟨z, u, -, hu, rfl⟩ := List.forall₂_cons_left_iff.1 hxu
    have hle := le_stringExtent quote multiline (n + 2) rest
    obtain ⟨rfl, hsecond⟩ := take_sub_cons (by omega) hkept
    obtain ⟨rfl, hrest⟩ := take_sub_cons hle hsecond
    rw [stringExtent]
    exact ih hu hrest
  | case4 n c rest h1 h2 ho =>
    have hc := ne_backslash_of_no_escape h1 h2
    obtain ⟨y, u, -, hu, rfl⟩ := List.forall₂_cons_left_iff.1 h
    have e : n + quote.length - n = quote.length := by omega
    rw [e] at hkept
    have hpre : quote.opens (y :: u) = true := by
      rw [Marker.opens_iff, List.prefix_iff_eq_take] at ho ⊢
      rw [Marker.length_text, hkept]
      exact ho
    obtain rfl : y = c := (Marker.head_of_opens hpre).trans (Marker.head_of_opens ho).symm
    rw [stringExtent_cons hc, if_pos hpre]
  | case5 n c rest h1 h2 ho hnl =>
    obtain ⟨rfl, hm⟩ := hnl
    obtain ⟨y, u, hy, hu, rfl⟩ := List.forall₂_cons_left_iff.1 h
    obtain rfl : y = '\n' := by simpa using hy
    have hno := Marker.not_opens_of_blanksTo h hq (by simpa using ho)
    rw [stringExtent_cons (by decide), hno]
    simp [hm]
  | case6 n c rest h1 h2 ho hnl ih =>
    have hc := ne_backslash_of_no_escape h1 h2
    obtain ⟨y, u, -, hu, rfl⟩ := List.forall₂_cons_left_iff.1 h
    have hno := Marker.not_opens_of_blanksTo h hq (by simpa using ho)
    obtain ⟨rfl, hrest⟩ := take_sub_cons (le_stringExtent quote multiline (n + 1) rest) hkept
    rw [stringExtent_cons hc, hno, if_neg (by simp), if_neg hnl]
    exact ih hu hrest

end ImportScan
