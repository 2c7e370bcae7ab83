import ImportScan.Proofs.Lexis.Token

/-!
# Carriage returns before newlines

With a carriage return put before every newline of a text (`Text.crlf`) the same markers open, since
no marker holds one (`Lexis.markerAt?_crlf`). A string reaches as far as before, unless the end of
its line ends it: then it takes the carriage return (`exists_stringExtent_crlf`). A string that ends
with its line must hold no newline for that, since what its last backslash hides is now the carriage
return.
-/

namespace ImportScan

namespace Text

/-- The text with a carriage return before every newline. -/
def crlf (t : Text) : Text := t.flatMap fun c => if c = '\n' then ['\r', '\n'] else [c]

variable {p t u : Text} {c : Char}

@[simp] theorem crlf_nil : crlf [] = [] := rfl

@[simp] theorem crlf_newline_cons : crlf ('\n' :: t) = '\r' :: '\n' :: crlf t := rfl

theorem crlf_cons_of_ne (hc : c ≠ '\n') : crlf (c :: t) = c :: crlf t := by
  simp [crlf, hc]

@[simp] theorem crlf_append (t u : Text) : crlf (t ++ u) = crlf t ++ crlf u := List.flatMap_append

theorem crlf_eq_self (h : '\n' ∉ t) : crlf t = t := by
  induction t with
  | nil => rfl
  | cons c t ih =>
    rw [crlf_cons_of_ne fun hc => h (hc ▸ List.mem_cons_self),
      ih fun ht => h (List.mem_cons_of_mem c ht)]

/-- The text holds neither of the characters that end a line. -/
def OnOneLine (p : Text) : Prop := '\r' ∉ p ∧ '\n' ∉ p

instance (p : Text) : Decidable p.OnOneLine := inferInstanceAs (Decidable (_ ∧ _))

theorem OnOneLine.tail (h : OnOneLine (c :: p)) : OnOneLine p :=
  ⟨fun hp => h.1 (List.mem_cons_of_mem c hp), fun hp => h.2 (List.mem_cons_of_mem c hp)⟩

theorem OnOneLine.prefix_crlf_iff (hp : OnOneLine p) : p <+: crlf t ↔ p <+: t := by
  induction p generalizing t with
  | nil => simp
  | cons x p ih =>
    cases t with
    | nil => simp
    | cons c t =>
      by_cases hc : c = '\n'
      · subst hc
        have hreturn : x ≠ '\r' := fun h => hp.1 (h ▸ List.mem_cons_self)
        have hline : x ≠ '\n' := fun h => hp.2 (h ▸ List.mem_cons_self)
        simp [hreturn, hline]
      · rw [crlf_cons_of_ne hc, List.cons_prefix_cons, List.cons_prefix_cons, ih hp.tail]

theorem OnOneLine.suffix_crlf_iff (hp : OnOneLine p) : p <:+ crlf t ↔ p <:+ t := by
  constructor
  · intro h
    induction t with
    | nil => exact h
    | cons c t ih =>
      by_cases hc : c = '\n'
      · subst hc
        rw [crlf_newline_cons, List.suffix_cons_iff, List.suffix_cons_iff] at h
        rcases h with rfl | rfl | h
        · exact absurd List.mem_cons_self hp.1
        · exact absurd List.mem_cons_self hp.2
        · exact (ih h).trans (List.suffix_cons _ t)
      · rw [crlf_cons_of_ne hc, List.suffix_cons_iff] at h
        rcases h with rfl | h
        · have ht : '\n' ∉ t := fun ht => hp.tail.2 (List.mem_flatMap.2 ⟨_, ht, by simp⟩)
          simp [crlf_eq_self ht]
        · exact (ih h).trans (List.suffix_cons _ t)
  · rintro ⟨u, rfl⟩
    rw [crlf_append, crlf_eq_self hp.2]
    exact List.suffix_append _ p

end Text

open Text

/-! ## Markers -/

theorem Marker.opens_crlf {q : Marker} (hq : q.text.OnOneLine) (t : Text) :
    q.opens t.crlf = q.opens t := by
  rw [Bool.eq_iff_iff, opens_iff, opens_iff, hq.prefix_crlf_iff]

theorem Marker.not_opens_of_notMem {q : Marker} {c : Char} (hc : c ∉ q.text) (t : Text) :
    q.opens (c :: t) = false := not_opens_of_head_ne fun h => hc (h ▸ List.mem_cons_self)

theorem Lexis.markerAt?_crlf {lx : Lexis} (hlx : ∀ m ∈ lx.openers, m.text.OnOneLine) (t : Text) :
    lx.markerAt? t.crlf = lx.markerAt? t := by
  unfold markerAt?
  rw [List.filter_congr fun m hm => Marker.opens_crlf (hlx m hm) t]

/-! ## Strings -/

/-- What stands behind the opening quote of a string up to its end, with the closing quote if there
is one, and the text behind the string. -/
inductive StringBody (q : Marker) (multiline : Bool) : Text → Text → Prop where
  | unclosed : StringBody q multiline [] []
  | backslash : StringBody q multiline ['\\'] []
  | lineEnd (r : Text) (hm : multiline = false) : StringBody q multiline [] ('\n' :: r)
  | closed (r : Text) : StringBody q multiline q.text r
  | escaped (x : Char) {u r : Text} (h : StringBody q multiline u r) :
      StringBody q multiline ('\\' :: x :: u) r
  | plain {c : Char} {u r : Text} (hc : c ≠ '\\') (hopens : q.opens (c :: (u ++ r)) = false)
      (hline : multiline = false → c ≠ '\n') (h : StringBody q multiline u r) :
      StringBody q multiline (c :: u) r

variable {q : Marker} {multiline : Bool} {u r : Text}

theorem exists_stringBody (q : Marker) (multiline : Bool) (t : Text) :
    ∃ u r, t = u ++ r ∧ StringBody q multiline u r := by
  have hbody (n : Nat) : ∃ u r, t = u ++ r ∧ StringBody q multiline u r := by
    fun_induction stringExtent q multiline n t with
    | case1 => exact ⟨[], [], rfl, .unclosed⟩
    | case2 => exact ⟨['\\'], [], rfl, .backslash⟩
    | case3 n x rest ih =>
      obtain ⟨u, r, rfl, h⟩ := ih
      exact ⟨'\\' :: x :: u, r, rfl, .escaped x h⟩
    | case4 n c rest _ _ ho =>
      obtain ⟨r, hr⟩ := Marker.opens_iff.1 ho
      exact ⟨q.text, r, hr.symm, .closed r⟩
    | case5 n c rest _ _ _ hline =>
      obtain ⟨rfl, hm⟩ := hline
      exact ⟨[], '\n' :: rest, rfl, .lineEnd rest hm⟩
    | case6 n c rest h1 h2 ho hline ih =>
      obtain ⟨u, r, rfl, h⟩ := ih
      exact ⟨c :: u, r, rfl, .plain (ne_backslash_of_no_escape h1 h2) (by simpa using ho)
        (fun hm hc => hline ⟨hc, hm⟩) h⟩
  exact hbody 0

theorem StringBody.extent (h : StringBody q multiline u r) (hq : q.text.OnOneLine)
    (hback : q.head ≠ '\\') (n : Nat) : stringExtent q multiline n (u ++ r) = n + u.length := by
  induction h generalizing n with
  | unclosed =>
    rw [List.nil_append, stringExtent]
    rfl
  | backslash =>
    rw [List.append_nil, stringExtent]
    rfl
  | lineEnd r hm =>
    subst hm
    exact stringExtent_line_end (fun h => hq.2 (h ▸ List.mem_cons_self)) (by simp) n
  | closed r => exact stringExtent_quote hback n r
  | escaped x h ih =>
    rw [List.cons_append, List.cons_append, stringExtent, ih]
    simp only [List.length_cons]
    omega
  | plain hc hopens hline h ih =>
    rw [List.cons_append, stringExtent_cons hc, hopens, if_neg (by simp),
      if_neg fun h => hline h.2 h.1, ih, List.length_cons]
    omega

/-- A newline in a string that may hold one, with the carriage return in front of it. -/
theorem StringBody.newline (h : StringBody q true u r) (hq : q.text.OnOneLine) :
    StringBody q true ('\n' :: u) r :=
  .plain (by decide) (Marker.not_opens_of_notMem hq.2 _) (by simp) h

theorem StringBody.carriageReturn (h : StringBody q multiline u r) (hq : q.text.OnOneLine) :
    StringBody q multiline ('\r' :: u) r :=
  .plain (by decide) (Marker.not_opens_of_notMem hq.1 _) (by simp) h

/-- A string ends where it did, or behind the carriage return at the end of its line. -/
theorem stringBody_crlf (h : StringBody q multiline u r) (hq : q.text.OnOneLine)
    (hu : multiline = false → '\n' ∉ u) :
    StringBody q multiline (crlf u) (crlf r) ∨ multiline = false ∧ ∃ r', r = '\n' :: r' ∧
      StringBody q multiline (u ++ ['\r']) ('\n' :: crlf r') := by
  induction h with
  | unclosed => exact .inl .unclosed
  | backslash => exact .inl .backslash
  | lineEnd r hm => exact .inr ⟨hm, r, rfl, .carriageReturn (.lineEnd (crlf r) hm) hq⟩
  | closed r =>
    rw [crlf_eq_self hq.2]
    exact .inl (.closed (crlf r))
  | @escaped x u r h ih =>
    have hmultiline (hx : x = '\n') : multiline = true := by
      cases hm : multiline with
      | true => rfl
      | false => exact absurd (by simp [hx]) (hu hm)
    rcases ih fun hm hline => hu hm (by simp [hline]) with ih | ⟨hm, r', hr, ih⟩
    · left
      rw [crlf_cons_of_ne (by decide)]
      by_cases hx : x = '\n'
      · -- now the backslash hides the carriage return
        obtain rfl := hmultiline hx
        subst hx
        exact .escaped '\r' (ih.newline hq)
      · rw [crlf_cons_of_ne hx]
        exact .escaped x ih
    · exact .inr ⟨hm, r', hr, .escaped x ih⟩
  | @plain c u r hc hopens hline h ih =>
    rcases ih fun hm hline => hu hm (List.mem_cons_of_mem c hline) with ih | ⟨hm, r', hr, ih⟩
    · left
      by_cases hx : c = '\n'
      · subst hx
        obtain rfl : multiline = true := by simpa using hline
        exact (ih.newline hq).carriageReturn hq
      · rw [← Marker.opens_crlf hq, crlf_cons_of_ne hx, crlf_append] at hopens
        rw [crlf_cons_of_ne hx]
        exact .plain hc hopens hline ih
    · refine .inr ⟨hm, r', hr, .plain hc ?_ hline ih⟩
      have hself : crlf (c :: u) = c :: u := crlf_eq_self (hu hm)
      rw [hr, ← List.cons_append, ← Marker.opens_crlf hq, crlf_append, hself] at hopens
      simpa using hopens

/-- A string is cut off behind its body. -/
theorem StringBody.segments {lx : Lexis} (h : StringBody q multiline u r)
    (hm : lx.markerAt? (q.text ++ u ++ r) = some q) (ho : lx.opening q = .string multiline)
    (hq : q.text.OnOneLine) (hback : q.head ≠ '\\') :
    lx.segments (q.text ++ u ++ r) = Segment.ofString q (q.text ++ u) :: lx.segments r := by
  refine Lexis.segments_string hm ?_ ho
  rw [Lexis.extent, ho, List.append_assoc, ← Marker.length_text, List.drop_left]
  dsimp only
  rw [h.extent hq hback, List.length_append]

end ImportScan
