import ImportScan.Proofs.Json.Scalars
import ImportScan.Proofs.Json.Settled

/-!
# Reading written documents

A written value is taken off the front of a text and read as its tree, settled, unless it is beyond
a limit, which the reader then reports (`Written.readValue_append`). The induction is on the value;
the items of an array and the members of an object are read one after the other, behind those read
before. So a document is read as its tree (`Document.read_text`).
-/

namespace ImportScan.Json

open Text

/-! ## White space -/

/-- The text does not start with white space. -/
def Starts (t : Text) : Prop := ∃ c rest, t = c :: rest ∧ isSpace c = false

theorem skipSpace_append (gap : Layout) {t : Text} (ht : Starts t) :
    skipSpace (gap.val ++ t) = t := by
  obtain ⟨c, rest, rfl, hc⟩ := ht
  rw [skipSpace, List.dropWhile_append_of_pos gap.2, List.dropWhile_cons_of_neg (by simp [hc])]

theorem isSpace_eq_false_of_isDecimal {c : Char} (h : isDecimal c = true) : isSpace c = false := by
  have hne {x : Char} (hx : isDecimal x = false) : (c == x) = false :=
    beq_eq_false_iff_ne.2 (ne_of_isDecimal h hx)
  rw [isSpace, hne (x := ' ') rfl, hne (x := '\t') rfl, hne (x := '\n') rfl, hne (x := '\r') rfl]
  rfl

/-- A value starts with a character that no white space is and that closes nothing. -/
theorem Written.exists_text_eq_cons (w : Written) :
    ∃ c rest, w.text = c :: rest ∧ isSpace c = false ∧ c ≠ ']' := by
  cases w with
  | null => exact ⟨'n', _, rfl, rfl, by decide⟩
  | bool b => cases b <;> exact ⟨_, _, rfl, rfl, by decide⟩
  | string ls => exact ⟨'"', _, rfl, rfl, by decide⟩
  | emptyArray gap => exact ⟨'[', _, rfl, rfl, by decide⟩
  | array items => exact ⟨'[', _, rfl, rfl, by decide⟩
  | emptyObject gap => exact ⟨'{', _, rfl, rfl, by decide⟩
  | object members => exact ⟨'{', _, rfl, rfl, by decide⟩
  | number n =>
    obtain ⟨c, rest, hn, rfl | hc⟩ := n.exists_text_eq_cons
    · exact ⟨'-', rest, hn, rfl, by decide⟩
    · exact ⟨c, rest, hn, isSpace_eq_false_of_isDecimal hc, ne_of_isDecimal hc rfl⟩

theorem Written.starts (w : Written) (t : Text) : Starts (w.text ++ t) := by
  obtain ⟨c, rest, hw, hc, -⟩ := w.exists_text_eq_cons
  exact ⟨c, rest ++ t, by rw [hw, List.cons_append], hc⟩

/-! ## What may follow a value -/

/-- White space, a comma or a closing mark follows, if anything does. -/
def Follows (t : Text) : Prop :=
  ∀ c ∈ t.head?, isSpace c = true ∨ c = ',' ∨ c = ']' ∨ c = '}'

theorem Follows.endsNumber {t : Text} (h : Follows t) : EndsNumber t := by
  intro c hc
  rcases h c hc with h | rfl | rfl | rfl
  · simp only [isSpace, Bool.or_eq_true, beq_iff_eq] at h
    rcases h with ((rfl | rfl) | rfl) | rfl <;> decide
  · decide
  · decide
  · decide

theorem follows_layout (gap : Layout) {t : Text} (ht : Follows t) : Follows (gap.val ++ t) :=
  forall_head?_append (fun c hc => .inl (gap.2 c (List.mem_of_head? hc))) ht

/-! ## What reading gives -/

/-- What reading gives at the front of a text: the value and the rest, or else the limit that the
value is beyond. -/
def outcome (fault : Option JsonError) (v : Json) (rest : Text) : Except JsonError (Json × Text) :=
  fault.elim (.ok (v, rest)) .error

/-! ## One item, one member -/

section

variable {value : Text → Except JsonError (Json × Text)} {fuel : Nat} {fault : Option JsonError}
  {v : Json} {t u rest : Text}

theorem readItems_last {read : List Json} (after : Layout)
    (h : value t = outcome fault v (after.val ++ ']' :: rest)) :
    readItems value (fuel + 1) read t = outcome fault (.array (v :: read).reverse) rest := by
  have hspace := skipSpace_append after ⟨']', rest, rfl, rfl⟩
  rw [readItems, h]
  cases fault with
  | some e => rfl
  | none => simp only [outcome, Option.elim_none, Bind.bind, Except.bind, hspace]

theorem readItems_more {read : List Json} (after : Layout)
    (h : value t = outcome fault v (after.val ++ ',' :: u)) :
    readItems value (fuel + 1) read t =
      fault.elim (readItems value fuel (v :: read) (skipSpace u)) .error := by
  have hspace := skipSpace_append after ⟨',', u, rfl, rfl⟩
  rw [readItems, h]
  cases fault with
  | some e => rfl
  | none => simp only [outcome, Option.elim_none, Bind.bind, Except.bind, hspace]

/-- A key and its colon are read over. -/
theorem readMembers_key {bound : List (Str × Json)} (k : Key) (ht : Starts t)
    (h : value t = outcome fault v u) :
    readMembers value (fuel + 1) bound (skipSpace (k.text ++ t)) =
      fault.elim (match skipSpace u with
        | '}' :: rest => .ok (.object (bind k.name v bound), rest)
        | ',' :: rest => readMembers value fuel (bind k.name v bound) (skipSpace rest)
        | _ => .error .malformed) .error := by
  have hkey : skipSpace (k.text ++ t) = '"' :: (k.letters.body ++ '"' ::
      (k.between.val ++ ':' :: (k.after.val ++ t))) := by
    have hquote : Starts (k.letters.text ++ (k.between.val ++ ':' :: (k.after.val ++ t))) :=
      ⟨'"', _, rfl, rfl⟩
    have htext : k.text ++ t =
        k.before.val ++ (k.letters.text ++ (k.between.val ++ ':' :: (k.after.val ++ t))) := by
      simp [Key.text]
    rw [htext, skipSpace_append k.before hquote]
    simp [Letters.text]
  have hcolon := skipSpace_append k.between ⟨':', k.after.val ++ t, rfl, rfl⟩
  rw [hkey, readMembers, readString_body]
  simp only [Bind.bind, Except.bind, hcolon, skipSpace_append k.after ht, h]
  cases fault <;> rfl

theorem readMembers_last {bound : List (Str × Json)} (k : Key) (ht : Starts t) (after : Layout)
    (h : value t = outcome fault v (after.val ++ '}' :: rest)) :
    readMembers value (fuel + 1) bound (skipSpace (k.text ++ t)) =
      outcome fault (.object (bind k.name v bound)) rest := by
  have hspace := skipSpace_append after ⟨'}', rest, rfl, rfl⟩
  rw [readMembers_key k ht h, hspace]
  rfl

theorem readMembers_more {bound : List (Str × Json)} (k : Key) (ht : Starts t) (after : Layout)
    (h : value t = outcome fault v (after.val ++ ',' :: u)) :
    readMembers value (fuel + 1) bound (skipSpace (k.text ++ t)) =
      fault.elim (readMembers value fuel (bind k.name v bound) (skipSpace u)) .error := by
  have hspace := skipSpace_append after ⟨',', u, rfl, rfl⟩
  rw [readMembers_key k ht h, hspace]
  rfl

end

/-- The first limit counts. -/
theorem elim_orElse {β : Type} (f f' : Option JsonError) (x : Except JsonError β) :
    (f <|> f').elim x .error = f.elim (f'.elim x .error) .error := by
  cases f <;> rfl

/-! ## The first item -/

theorem Items.exists_skipSpace_eq_cons (items : Items) (t : Text) :
    ∃ c rest, skipSpace (items.text ++ t) = c :: rest ∧ c ≠ ']' := by
  have hfirst (before : Layout) (value : Written) (t : Text) :
      ∃ c rest, skipSpace (before.val ++ (value.text ++ t)) = c :: rest ∧ c ≠ ']' := by
    obtain ⟨c, rest, hvalue, -, hc⟩ := value.exists_text_eq_cons
    refine ⟨c, rest ++ t, ?_, hc⟩
    rw [skipSpace_append before (value.starts t), hvalue, List.cons_append]
  cases items with
  | last before value after => simpa [Items.text] using hfirst before value (after.val ++ t)
  | more before value after others =>
    simpa [Items.text] using hfirst before value (after.val ++ ',' :: (others.text ++ t))

theorem Members.exists_skipSpace_eq_cons (members : Members) (t : Text) :
    ∃ rest, skipSpace (members.text ++ t) = '"' :: rest := by
  have hfirst (key : Key) (t : Text) : ∃ rest, skipSpace (key.text ++ t) = '"' :: rest := by
    have hquote : Starts (key.letters.text ++ (key.between.val ++ ':' :: (key.after.val ++ t))) :=
      ⟨'"', _, rfl, rfl⟩
    have hskip := skipSpace_append key.before hquote
    exact ⟨_, by simpa [Key.text, Letters.text] using hskip⟩
  cases members with
  | last key value after => simpa [Members.text] using hfirst key (value.text ++ (after.val ++ t))
  | more key value after others =>
    simpa [Members.text] using
      hfirst key (value.text ++ (after.val ++ ',' :: (others.text ++ t)))

theorem readValue_array {most room : Nat} (items : Items) (rest : Text) :
    readValue most (room + 1) ('[' :: (items.text ++ ']' :: rest)) =
      readItems (readValue most room) most [] (skipSpace (items.text ++ ']' :: rest)) := by
  obtain ⟨c, r, hskip, hc⟩ := items.exists_skipSpace_eq_cons (']' :: rest)
  rw [readValue, hskip]
  split
  · rename_i h
    exact absurd (List.cons.inj h).1 hc
  · rfl

theorem readValue_object {most room : Nat} (members : Members) (rest : Text) :
    readValue most (room + 1) ('{' :: (members.text ++ '}' :: rest)) =
      readMembers (readValue most room) most [] (skipSpace (members.text ++ '}' :: rest)) := by
  obtain ⟨r, hskip⟩ := members.exists_skipSpace_eq_cons ('}' :: rest)
  rw [readValue, hskip]
  split
  · rename_i h
    cases h
  · rfl

/-! ## Values -/

theorem Written.text_length_pos (w : Written) : 0 < w.text.length := by
  obtain ⟨c, rest, hw, -⟩ := w.exists_text_eq_cons
  simp [hw]

mutual

/-- A value is read as its tree, settled, unless it is beyond a limit. -/
theorem Written.readValue_append (w : Written) (room : Nat) {most : Nat} {rest : Text}
    (hmost : w.text.length ≤ most) (hrest : Follows rest) :
    readValue most room (w.text ++ rest) = outcome (w.fault? room) w.tree.settled rest := by
  cases w with
  | null => exact readValue_scalar (by decide) (by decide) (by decide) most room _
  | bool b =>
    cases b <;> exact readValue_scalar (by decide) (by decide) (by decide) most room _
  | number n =>
    have hread := readScalar_number n hrest.endsNumber
    have hscalar : readValue most room (n.text ++ rest) = readScalar (n.text ++ rest) := by
      obtain ⟨c, r, hn, rfl | hc⟩ := n.exists_text_eq_cons <;> rw [hn]
      · exact readValue_scalar (by decide) (by decide) (by decide) most room _
      · exact readValue_scalar (ne_of_isDecimal hc rfl) (ne_of_isDecimal hc rfl)
          (ne_of_isDecimal hc rfl) most room _
    rw [Written.text, hscalar, hread, Written.fault?]
    split <;> rfl
  | string ls =>
    have htext : (Written.string ls).text ++ rest = '"' :: (ls.body ++ '"' :: rest) := by
      simp [Written.text, Letters.text]
    rw [htext, readValue, readString_body]
    rfl
  | emptyArray gap =>
    cases room with
    | zero => rfl
    | succ room =>
      have htext : (Written.emptyArray gap).text ++ rest = '[' :: (gap.val ++ ']' :: rest) := by
        simp [Written.text]
      rw [htext, readValue, skipSpace_append gap ⟨']', rest, rfl, rfl⟩]
      rfl
  | emptyObject gap =>
    cases room with
    | zero => rfl
    | succ room =>
      have htext : (Written.emptyObject gap).text ++ rest =
          '{' :: (gap.val ++ '}' :: rest) := by
        simp [Written.text]
      rw [htext, readValue, skipSpace_append gap ⟨'}', rest, rfl, rfl⟩]
      rfl
  | array items =>
    cases room with
    | zero => rfl
    | succ room =>
      have hitems : items.text.length ≤ most := by
        simp only [Written.text, List.length_cons, List.length_append] at hmost
        omega
      have htext : (Written.array items).text ++ rest = '[' :: (items.text ++ ']' :: rest) := by
        simp [Written.text]
      rw [htext, readValue_array, items.readItems_append [] hitems hitems]
      rfl
  | object members =>
    cases room with
    | zero => rfl
    | succ room =>
      have hmembers : members.text.length ≤ most := by
        simp only [Written.text, List.length_cons, List.length_append] at hmost
        omega
      have htext : (Written.object members).text ++ rest =
          '{' :: (members.text ++ '}' :: rest) := by
        simp [Written.text]
      rw [htext, readValue_object, members.readMembers_append [] hmembers hmembers]
      rfl

theorem Items.readItems_append (items : Items) {most room fuel : Nat} (read : List Json)
    {rest : Text} (hmost : items.text.length ≤ most) (hfuel : items.text.length ≤ fuel) :
    readItems (readValue most room) fuel read (skipSpace (items.text ++ ']' :: rest)) =
      outcome (items.fault? room) (.array (read.reverse ++ settledItems items.trees)) rest := by
  cases items with
  | last before value after =>
    simp only [Items.text, List.length_append] at hmost hfuel
    have hpos := value.text_length_pos
    obtain ⟨fuel, rfl⟩ : ∃ k, fuel = k + 1 := ⟨fuel - 1, by omega⟩
    have hfollows : Follows (after.val ++ ']' :: rest) :=
      follows_layout after (by simp [Follows])
    have hsize : value.text.length ≤ most := by omega
    have hvalue := value.readValue_append room hsize hfollows
    have htext : (Items.last before value after).text ++ ']' :: rest =
        before.val ++ (value.text ++ (after.val ++ ']' :: rest)) := by
      simp [Items.text]
    rw [htext, skipSpace_append before (value.starts _), readItems_last after hvalue,
      List.reverse_cons]
    rfl
  | more before value after others =>
    simp only [Items.text, List.length_append, List.length_cons] at hmost hfuel
    obtain ⟨fuel, rfl⟩ : ∃ k, fuel = k + 1 := ⟨fuel - 1, by omega⟩
    have hfollows : Follows (after.val ++ ',' :: (others.text ++ ']' :: rest)) :=
      follows_layout after (by simp [Follows])
    have hsize : value.text.length ≤ most := by omega
    have hvalue := value.readValue_append room hsize hfollows
    have htext : (Items.more before value after others).text ++ ']' :: rest =
        before.val ++ (value.text ++ (after.val ++ ',' :: (others.text ++ ']' :: rest))) := by
      simp [Items.text]
    rw [htext, skipSpace_append before (value.starts _), readItems_more after hvalue,
      others.readItems_append _ (by omega) (by omega), List.reverse_cons, List.append_assoc]
    exact (elim_orElse _ _ _).symm

theorem Members.readMembers_append (members : Members) {most room fuel : Nat}
    (bound : List (Str × Json)) {rest : Text} (hmost : members.text.length ≤ most)
    (hfuel : members.text.length ≤ fuel) :
    readMembers (readValue most room) fuel bound (skipSpace (members.text ++ '}' :: rest)) =
      outcome (members.fault? room) (.object (bindAll bound (settledMembers members.trees)))
        rest := by
  cases members with
  | last key value after =>
    simp only [Members.text, List.length_append] at hmost hfuel
    have hpos := value.text_length_pos
    obtain ⟨fuel, rfl⟩ : ∃ k, fuel = k + 1 := ⟨fuel - 1, by omega⟩
    have hfollows : Follows (after.val ++ '}' :: rest) :=
      follows_layout after (by simp [Follows])
    have hsize : value.text.length ≤ most := by omega
    have hvalue := value.readValue_append room hsize hfollows
    have htext : (Members.last key value after).text ++ '}' :: rest =
        key.text ++ (value.text ++ (after.val ++ '}' :: rest)) := by
      simp [Members.text]
    rw [htext, readMembers_last key (value.starts _) after hvalue]
    rfl
  | more key value after others =>
    simp only [Members.text, List.length_append, List.length_cons] at hmost hfuel
    obtain ⟨fuel, rfl⟩ : ∃ k, fuel = k + 1 := ⟨fuel - 1, by omega⟩
    have hfollows : Follows (after.val ++ ',' :: (others.text ++ '}' :: rest)) :=
      follows_layout after (by simp [Follows])
    have hsize : value.text.length ≤ most := by omega
    have hvalue := value.readValue_append room hsize hfollows
    have htext : (Members.more key value after others).text ++ '}' :: rest =
        key.text ++ (value.text ++ (after.val ++ ',' :: (others.text ++ '}' :: rest))) := by
      simp [Members.text]
    rw [htext, readMembers_more key (value.starts _) after hvalue,
      others.readMembers_append _ (by omega) (by omega)]
    exact (elim_orElse _ _ _).symm

end

/-! ## Documents -/

theorem skipSpace_layout (gap : Layout) : skipSpace gap.val = [] := by
  rw [skipSpace, ← List.append_nil gap.val, List.dropWhile_append_of_pos gap.2,
    List.dropWhile_nil]

/-- A document is read as its tree, settled, unless it is beyond a limit. -/
theorem Document.read_text (d : Document) (room : Nat) :
    Json.read room d.text = (d.fault? room).elim (.ok d.tree.settled) .error := by
  have hlength : d.value.text.length ≤ d.text.length := by
    rw [Document.text, List.length_append, List.length_append]
    omega
  have hfollows : Follows d.after.val :=
    fun c hc => .inl (d.after.2 c (List.mem_of_head? hc))
  have hvalue := d.value.readValue_append room hlength hfollows
  have hstart : skipSpace d.text = d.value.text ++ d.after.val :=
    skipSpace_append d.before (d.value.starts _)
  rw [Json.read, hstart, hvalue, Document.fault?]
  cases d.value.fault? room with
  | some e => rfl
  | none =>
    show (if (skipSpace d.after.val).isEmpty then _ else _) = _
    rw [skipSpace_layout]
    rfl

end ImportScan.Json
