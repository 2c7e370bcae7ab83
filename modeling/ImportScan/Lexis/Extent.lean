import ImportScan.Lexis.Basic

/-!
# How far comments and strings reach

Each extent counts characters. A line comment ends before the newline, a block comment behind its
closer, a string behind its quote; one that is never closed takes the rest of the text, but a string
whose quotes do not span lines ends before the newline. In a string a backslash hides the character
behind it. Nested block comments keep a depth; at each place the closer is tried first.

Main statements: an extent takes at least one character (`Lexis.extent_pos`) and ends within the
text (`Lexis.extent_le_length`).
-/

namespace ImportScan

/-! ## The four extents -/

/-- The characters of a line comment: all before the newline, and at least one. -/
def lineExtent (t : Text) : Nat := 1 + (t.drop 1 |>.takeWhile (· ≠ '\n')).length

/-- The characters up to the end of the first `closer`, or all if there is none, counted on from
`n`. -/
def closerExtent (closer : Marker) (n : Nat) : Text → Nat
  | [] => n
  | c :: rest =>
    if closer.opens (c :: rest) then n + closer.length else closerExtent closer (n + 1) rest

/-- The characters of a nested block comment from here on, counted on from `n`, when `depth` blocks
are open. -/
def nestedExtent (opener closer : Marker) (n : Nat) (depth : Int) : Text → Nat
  | [] => n
  | c :: rest =>
    if closer.opens (c :: rest) then
      if depth - 1 = 0 then n + closer.length
      else nestedExtent opener closer (n + closer.length) (depth - 1) (rest.drop closer.tail.length)
    else if opener.opens (c :: rest) then
      nestedExtent opener closer (n + opener.length) (depth + 1) (rest.drop opener.tail.length)
    else nestedExtent opener closer (n + 1) depth rest
termination_by t => t.length
decreasing_by all_goals simp only [List.length_drop, List.length_cons]; omega

/-- The characters of a string behind its opening quote, the closing one included, counted on from
`n`. -/
def stringExtent (quote : Marker) (multiline : Bool) (n : Nat) : Text → Nat
  | [] => n
  | ['\\'] => n + 1
  | '\\' :: _ :: rest => stringExtent quote multiline (n + 2) rest
  | c :: rest =>
    if quote.opens (c :: rest) then n + quote.length
    else if c = '\n' ∧ multiline = false then n
    else stringExtent quote multiline (n + 1) rest

/-- The characters of what the marker `m` opens at the start of `t`, the marker included. -/
def Lexis.extent (lx : Lexis) (m : Marker) (t : Text) : Nat :=
  match lx.opening m with
  | .lineComment => lineExtent t
  | .blockComment closer =>
    if lx.nestedBlocks then nestedExtent m closer 0 0 t
    else closerExtent closer m.length (t.drop m.length)
  | .string multiline => stringExtent m multiline m.length (t.drop m.length)

/-! ## Bounds -/

theorem Marker.length_le_of_opens {m : Marker} {t : Text} (h : m.opens t = true) :
    m.length ≤ t.length := (List.isPrefixOf_iff_prefix.1 h).length_le

theorem closerExtent_le (closer : Marker) (n : Nat) (t : Text) :
    closerExtent closer n t ≤ n + t.length := by
  induction t generalizing n with
  | nil => simp [closerExtent]
  | cons c rest ih =>
    unfold closerExtent
    split
    · rename_i h
      have := Marker.length_le_of_opens h
      omega
    · have := ih (n + 1)
      simp only [List.length_cons]
      omega

theorem le_closerExtent (closer : Marker) (n : Nat) (t : Text) : n ≤ closerExtent closer n t := by
  induction t generalizing n with
  | nil => simp [closerExtent]
  | cons c rest ih =>
    unfold closerExtent
    split
    · omega
    · have := ih (n + 1)
      omega

theorem stringExtent_le (quote : Marker) (multiline : Bool) (n : Nat) (t : Text) :
    stringExtent quote multiline n t ≤ n + t.length := by
  fun_induction stringExtent quote multiline n t with
  | case1 => simp
  | case2 => simp
  | case3 n _ rest ih => simp only [List.length_cons]; omega
  | case4 n c rest _ _ h =>
    have := Marker.length_le_of_opens h
    omega
  | case5 => simp
  | case6 n c rest _ _ _ _ ih => simp only [List.length_cons]; omega

theorem le_stringExtent (quote : Marker) (multiline : Bool) (n : Nat) (t : Text) :
    n ≤ stringExtent quote multiline n t := by
  fun_induction stringExtent quote multiline n t <;> omega

theorem nestedExtent_le (opener closer : Marker) (n : Nat) (depth : Int) (t : Text) :
    nestedExtent opener closer n depth t ≤ n + t.length := by
  fun_induction nestedExtent opener closer n depth t with
  | case1 => simp
  | case2 n depth c rest h =>
    have := Marker.length_le_of_opens h
    omega
  | case3 n depth c rest h _ ih =>
    have := Marker.length_le_of_opens h
    have e : closer.length = closer.tail.length + 1 := by simp [Marker.length, Marker.text]
    simp only [List.length_drop, List.length_cons] at *
    omega
  | case4 n depth c rest _ h ih =>
    have := Marker.length_le_of_opens h
    have e : opener.length = opener.tail.length + 1 := by simp [Marker.length, Marker.text]
    simp only [List.length_drop, List.length_cons] at *
    omega
  | case5 n depth c rest _ _ ih => simp only [List.length_cons]; omega

theorem le_nestedExtent (opener closer : Marker) (n : Nat) (depth : Int) (t : Text) :
    n ≤ nestedExtent opener closer n depth t := by
  fun_induction nestedExtent opener closer n depth t <;> omega

theorem lt_nestedExtent (opener closer : Marker) (n : Nat) (depth : Int) (c : Char) (rest : Text) :
    n < nestedExtent opener closer n depth (c :: rest) := by
  have hopener := opener.length_pos
  have hcloser := closer.length_pos
  have hbehindCloser := le_nestedExtent opener closer (n + closer.length) (depth - 1)
    (rest.drop closer.tail.length)
  have hbehindOpener := le_nestedExtent opener closer (n + opener.length) (depth + 1)
    (rest.drop opener.tail.length)
  have hnext := le_nestedExtent opener closer (n + 1) depth rest
  rw [nestedExtent]
  repeat' split
  all_goals omega

/-- What a marker opens takes at least one character. -/
theorem Lexis.extent_pos (lx : Lexis) (m : Marker) {t : Text} (h : t ≠ []) :
    0 < lx.extent m t := by
  obtain ⟨c, rest, rfl⟩ := List.exists_cons_of_ne_nil h
  have hm := m.length_pos
  unfold Lexis.extent
  split
  · exact Nat.lt_of_lt_of_le Nat.one_pos (Nat.le_add_right _ _)
  · split
    · exact lt_nestedExtent _ _ _ _ _ _
    · exact Nat.lt_of_lt_of_le hm (le_closerExtent _ _ _)
  · exact Nat.lt_of_lt_of_le hm (le_stringExtent _ _ _ _)

/-- What a marker opens ends within the text. -/
theorem Lexis.extent_le_length (lx : Lexis) {m : Marker} {t : Text} (h : m.opens t = true) :
    lx.extent m t ≤ t.length := by
  have hm := Marker.length_le_of_opens h
  unfold Lexis.extent
  split
  · have := (List.takeWhile_sublist (· ≠ '\n') (l := t.drop 1)).length_le
    have := m.length_pos
    simp only [List.length_drop, lineExtent] at *
    omega
  · split
    · simpa using nestedExtent_le m _ 0 0 t
    · have := closerExtent_le ‹Marker› m.length (t.drop m.length)
      simp only [List.length_drop] at this
      omega
  · have := stringExtent_le m ‹Bool› m.length (t.drop m.length)
    simp only [List.length_drop] at this
    omega

end ImportScan
