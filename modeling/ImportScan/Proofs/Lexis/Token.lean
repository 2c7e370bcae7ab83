import ImportScan.Proofs.Lexis.Blanking
import ImportScan.Proofs.Lexis.Regular

/-!
# Comments and strings as tokens

A token is a comment or a string that is written down part by part: a line comment, a block comment
whose closer comes first right behind its body, a nested block comment given by its tree, a string
given by its units and closed by its quote, or a string that ends with the line. In a text where
code follows, the cut takes a token off as one segment (`segments_token`). The extents of the parts
are told one by one: what stands inside a nested comment leaves its depth as it was
(`nestedExtent_body`), and no unit of a string ends it (`stringExtent_units`).
-/

namespace ImportScan

/-! ## Parts of tokens -/

/-- A character of a string, by itself or behind a backslash. -/
inductive StringUnit where
  | plain (c : Char)
  | escaped (c : Char)
deriving DecidableEq, Repr

namespace StringUnit

/-- The unit as it is written. -/
def text : StringUnit → Text
  | plain c => [c]
  | escaped c => ['\\', c]

/-- Whether the unit may stand in a string: a plain character is no quote and no backslash, and no
newline if the string ends with the line. -/
def FitsIn (quote : Marker) (multiline : Bool) : StringUnit → Prop
  | plain c => c ∉ quote.text ∧ c ≠ '\\' ∧ (multiline = false → c ≠ '\n')
  | escaped _ => True

instance (quote : Marker) (multiline : Bool) : (u : StringUnit) →
    Decidable (u.FitsIn quote multiline)
  | plain _ => inferInstanceAs (Decidable (_ ∧ _ ∧ _))
  | escaped _ => .isTrue trivial

end StringUnit

/-- The text that units spell. -/
def Text.ofUnits (us : List StringUnit) : Text := us.flatMap StringUnit.text

theorem Text.ofUnits_plain (t : Text) : ofUnits (t.map .plain) = t := by
  simp [ofUnits, StringUnit.text, List.flatMap_map]

/-- What stands between the markers of a nested block comment: characters and further blocks. -/
inductive BlockBody where
  | done
  | plain (c : Char) (rest : BlockBody)
  | block (inner rest : BlockBody)
deriving DecidableEq, Repr

namespace BlockBody

/-- The body as it is written between the markers. -/
def text (opener closer : Marker) : BlockBody → Text
  | done => []
  | plain c rest => c :: rest.text opener closer
  | block inner rest =>
    opener.text ++ inner.text opener closer ++ closer.text ++ rest.text opener closer

/-- Whether none of the plain characters is one of `marks`. -/
def Avoids (marks : Text) : BlockBody → Prop
  | done => True
  | plain c rest => c ∉ marks ∧ rest.Avoids marks
  | block inner rest => inner.Avoids marks ∧ rest.Avoids marks

instance decidableAvoids (marks : Text) : (b : BlockBody) → Decidable (b.Avoids marks)
  | done => .isTrue trivial
  | plain _ rest =>
    have := decidableAvoids marks rest
    inferInstanceAs (Decidable (_ ∧ _))
  | block inner rest =>
    have := decidableAvoids marks inner
    have := decidableAvoids marks rest
    inferInstanceAs (Decidable (_ ∧ _))

end BlockBody

/-! ## Tokens -/

/-- A comment or a string, part by part. -/
inductive Token where
  | lineComment (marker : Marker) (t : Text)
  | blockComment (opener closer : Marker) (body : Text)
  | nestedComment (opener closer : Marker) (body : BlockBody)
  /-- A string with its closing quote. -/
  | closedString (quote : Marker) (units : List StringUnit)
  /-- A string that the end of the line ends. -/
  | openString (quote : Marker) (t : Text)
deriving DecidableEq, Repr

namespace Token

/-- The text of the token. -/
def source : Token → Text
  | lineComment m t => m.text ++ t
  | blockComment opener closer body => opener.text ++ (body ++ closer.text)
  | nestedComment opener closer body => opener.text ++ (body.text opener closer ++ closer.text)
  | closedString q us => q.text ++ (.ofUnits us ++ q.text)
  | openString q t => q.text ++ t

/-- The token with comments blanked, and the contents of strings as told. -/
def shown (contents : StringContents) : Token → Text
  | lineComment m t => (lineComment m t).source.blanked
  | blockComment opener closer body => (blockComment opener closer body).source.blanked
  | nestedComment opener closer body => (nestedComment opener closer body).source.blanked
  | closedString q us => match contents with
    | .kept => (closedString q us).source
    | .blanked => q.text ++ ((Text.ofUnits us).blanked ++ q.text)
  | openString q t => match contents with
    | .kept => (openString q t).source
    | .blanked => q.text ++ t.blanked

/-- The segment that the token is cut off as. -/
def segment : Token → Segment
  | lineComment m t => .comment (lineComment m t).source
  | blockComment opener closer body => .comment (blockComment opener closer body).source
  | nestedComment opener closer body => .comment (nestedComment opener closer body).source
  | closedString q us => .string q.text (.ofUnits us) q.text
  | openString q t => .string q.text t []

/-- Whether the end of the line ends the token. -/
def endsWithLine : Token → Bool
  | lineComment _ _ | openString _ _ => true
  | _ => false

/-- Whether the token is one of a language. -/
def IsOf (lx : Lexis) : Token → Prop
  | lineComment m t => m ∈ lx.line ∧ '\n' ∉ t
  | blockComment opener closer body =>
    lx.nestedBlocks = false ∧ (opener, closer) ∈ lx.block ∧
      ∀ k < body.length, closer.opens ((body ++ closer.text).drop k) = false
  | nestedComment opener closer body =>
    lx.nestedBlocks = true ∧ (opener, closer) ∈ lx.block ∧
      body.Avoids (opener.text ++ closer.text)
  | closedString q us =>
    q ∈ lx.allQuotes ∧ ∀ u ∈ us, u.FitsIn q (q ∈ lx.multilineQuotes)
  | openString q t => q ∈ lx.quotes ∧ ∀ c ∈ t, (StringUnit.plain c).FitsIn q false

instance (lx : Lexis) : (k : Token) → Decidable (k.IsOf lx)
  | lineComment _ _ => inferInstanceAs (Decidable (_ ∧ _))
  | blockComment _ _ _ => inferInstanceAs (Decidable (_ ∧ _ ∧ _))
  | nestedComment _ _ _ => inferInstanceAs (Decidable (_ ∧ _ ∧ _))
  | closedString _ _ => inferInstanceAs (Decidable (_ ∧ _))
  | openString q t =>
    -- only the characters of the text are looked at, not all there are
    have := List.decidableBAll (fun c => (StringUnit.plain c).FitsIn q false) t
    inferInstanceAs (Decidable (_ ∧ _))

theorem shown_segment (contents : StringContents) (k : Token) :
    k.segment.shown contents = k.shown contents := by
  cases k with
  | lineComment m t => rfl
  | blockComment opener closer body => rfl
  | nestedComment opener closer body => rfl
  | closedString q us => cases contents <;> simp [segment, shown, Segment.shown, source]
  | openString q t => cases contents <;> simp [segment, shown, Segment.shown, source]

end Token

/-! ## How far the parts reach -/

theorem Marker.opens_append_of_length_le {m : Marker} {a : Text} (h : m.length ≤ a.length)
    (b : Text) : m.opens (a ++ b) = m.opens a := by
  rw [Bool.eq_iff_iff, opens_iff, opens_iff]
  constructor
  · exact fun hp => List.prefix_of_prefix_length_le hp (List.prefix_append a b) h
  · exact fun hp => hp.trans (List.prefix_append a b)

/-- A line comment reaches up to the newline, or to the end of the text. -/
theorem lineExtent_append {m : Marker} {t rest : Text} (hm : '\n' ∉ m.text) (ht : '\n' ∉ t)
    (hrest : ∀ c ∈ rest.head?, c = '\n') :
    lineExtent (m.text ++ t ++ rest) = (m.text ++ t).length := by
  have htail : ∀ c ∈ m.tail ++ t, decide (c ≠ '\n') = true := by
    intro c hc
    rcases List.mem_append.1 hc with hc | hc
    · exact decide_eq_true fun e => hm (e ▸ List.mem_cons_of_mem _ hc)
    · exact decide_eq_true fun e => ht (e ▸ hc)
  have hstop : rest.takeWhile (· ≠ '\n') = [] := by
    cases rest with
    | nil => rfl
    | cons c rest => simp [hrest c rfl]
  have hdrop : (m.text ++ t ++ rest).drop 1 = m.tail ++ t ++ rest := rfl
  rw [lineExtent, hdrop, List.takeWhile_append_of_pos htail, hstop, List.append_nil]
  simp [Marker.text]
  omega

/-- A flat block comment reaches up to the first closer. -/
theorem closerExtent_append {closer : Marker} {body : Text}
    (h : ∀ k < body.length, closer.opens ((body ++ closer.text).drop k) = false) (n : Nat)
    (rest : Text) :
    closerExtent closer n (body ++ closer.text ++ rest) = n + body.length + closer.length := by
  induction body generalizing n with
  | nil =>
    have ho : closer.opens (closer.head :: (closer.tail ++ rest)) = true := closer.opens_append rest
    rw [List.nil_append, Marker.text, List.cons_append, closerExtent, if_pos ho]
    rfl
  | cons c body ih =>
    have hbody : ∀ k < body.length, closer.opens ((body ++ closer.text).drop k) = false :=
      fun k hk => h (k + 1) (by simpa using hk)
    have hlen : closer.length ≤ (c :: (body ++ closer.text)).length := by simp; omega
    have ho : closer.opens (c :: (body ++ closer.text) ++ rest) = false := by
      rw [Marker.opens_append_of_length_le hlen]
      exact h 0 (by simp)
    rw [List.cons_append, List.cons_append] at *
    rw [closerExtent, ho, if_neg (by simp), ih hbody]
    simp only [List.length_cons]
    omega

section Nested

variable {opener closer : Marker} (hne : opener.head ≠ closer.head)

include hne in
/-- An opener opens one block more. -/
theorem nestedExtent_opener (n : Nat) (depth : Int) (rest : Text) :
    nestedExtent opener closer n depth (opener.text ++ rest) =
      nestedExtent opener closer (n + opener.length) (depth + 1) rest := by
  have ho : opener.opens (opener.head :: (opener.tail ++ rest)) = true := opener.opens_append rest
  have hc : closer.opens (opener.head :: (opener.tail ++ rest)) = false :=
    Marker.not_opens_of_head_ne hne
  rw [Marker.text, List.cons_append, nestedExtent, hc, if_neg (by simp), if_pos ho, List.drop_left]

/-- A closer that is not the last closes one block. -/
theorem nestedExtent_closer {n : Nat} {depth : Int} (h : depth - 1 ≠ 0) (rest : Text) :
    nestedExtent opener closer n depth (closer.text ++ rest) =
      nestedExtent opener closer (n + closer.length) (depth - 1) rest := by
  have hc : closer.opens (closer.head :: (closer.tail ++ rest)) = true := closer.opens_append rest
  rw [Marker.text, List.cons_append, nestedExtent, if_pos hc, if_neg h, List.drop_left]

/-- The closer of the outermost block ends the comment. -/
theorem nestedExtent_last_closer (n : Nat) (rest : Text) :
    nestedExtent opener closer n 1 (closer.text ++ rest) = n + closer.length := by
  have hc : closer.opens (closer.head :: (closer.tail ++ rest)) = true := closer.opens_append rest
  rw [Marker.text, List.cons_append, nestedExtent, if_pos hc, if_pos (by omega)]

theorem nestedExtent_plain {c : Char} (ho : c ≠ opener.head) (hc : c ≠ closer.head) (n : Nat)
    (depth : Int) (rest : Text) :
    nestedExtent opener closer n depth (c :: rest) =
      nestedExtent opener closer (n + 1) depth rest := by
  rw [nestedExtent, Marker.not_opens_of_head_ne hc, Marker.not_opens_of_head_ne ho]
  simp

include hne in
/-- The body of a nested comment is read over, and leaves as many blocks open as there were. -/
theorem nestedExtent_body {b : BlockBody} (hb : b.Avoids (opener.text ++ closer.text)) (n : Nat)
    {depth : Int} (hd : 0 < depth) (rest : Text) :
    nestedExtent opener closer n depth (b.text opener closer ++ rest) =
      nestedExtent opener closer (n + (b.text opener closer).length) depth rest := by
  induction b generalizing n depth rest with
  | done => rfl
  | plain c b ih =>
    obtain ⟨hc, hb⟩ := hb
    have hco : c ≠ opener.head := by
      rintro rfl
      exact hc (List.mem_append_left _ List.mem_cons_self)
    have hcc : c ≠ closer.head := by
      rintro rfl
      exact hc (List.mem_append_right _ List.mem_cons_self)
    rw [BlockBody.text, List.cons_append, nestedExtent_plain hco hcc, ih hb _ hd, List.length_cons,
      Nat.add_assoc, Nat.add_comm 1]
  | block inner b ihi ihb =>
    obtain ⟨hi, hb⟩ := hb
    simp only [BlockBody.text, List.append_assoc, List.length_append, Marker.length_text]
    rw [nestedExtent_opener hne, ihi hi _ (by omega), nestedExtent_closer (by omega),
      Int.add_sub_cancel, ihb hb _ hd]
    congr 1
    omega

include hne in
/-- A nested comment reaches up to the closer of its outermost block. -/
theorem nestedExtent_block {b : BlockBody} (hb : b.Avoids (opener.text ++ closer.text))
    (rest : Text) :
    nestedExtent opener closer 0 0
        (opener.text ++ (b.text opener closer ++ (closer.text ++ rest))) =
      opener.length + ((b.text opener closer).length + closer.length) := by
  rw [nestedExtent_opener hne, nestedExtent_body hne hb _ (by omega), Int.zero_add,
    nestedExtent_last_closer]
  omega

end Nested

section Strings

variable {q : Marker} {multiline : Bool} (hq : q.head ≠ '\\')

/-- No unit of a string ends it. -/
theorem stringExtent_units {us : List StringUnit} (hus : ∀ u ∈ us, u.FitsIn q multiline) (n : Nat)
    (rest : Text) :
    stringExtent q multiline n (.ofUnits us ++ rest) =
      stringExtent q multiline (n + (Text.ofUnits us).length) rest := by
  induction us generalizing n with
  | nil => rfl
  | cons u us ih =>
    have hu := hus u List.mem_cons_self
    have ih := ih fun u hu => hus u (List.mem_cons_of_mem _ hu)
    cases u with
    | plain c =>
      obtain ⟨hcq, hcb, hcn⟩ := hu
      have hno : q.opens (c :: (Text.ofUnits us ++ rest)) = false := by
        refine Marker.not_opens_of_head_ne ?_
        rintro rfl
        exact hcq List.mem_cons_self
      have hnl : ¬(c = '\n' ∧ multiline = false) := fun h => hcn h.2 h.1
      have e : Text.ofUnits (.plain c :: us) = c :: Text.ofUnits us := rfl
      rw [e, List.cons_append, stringExtent_cons hcb, hno, if_neg (by simp), if_neg hnl, ih,
        List.length_cons, Nat.add_assoc, Nat.add_comm 1]
    | escaped c =>
      have e : Text.ofUnits (.escaped c :: us) = '\\' :: c :: Text.ofUnits us := rfl
      rw [e, List.cons_append, List.cons_append, stringExtent, ih]
      simp only [List.length_cons]
      congr 1
      omega

include hq in
theorem stringExtent_quote (n : Nat) (rest : Text) :
    stringExtent q multiline n (q.text ++ rest) = n + q.length := by
  have ho : q.opens (q.head :: (q.tail ++ rest)) = true := q.opens_append rest
  rw [Marker.text, List.cons_append, stringExtent_cons hq, if_pos ho]

/-- A string that ends with the line takes nothing of the next. -/
theorem stringExtent_line_end {rest : Text} (hq : q.head ≠ '\n')
    (hrest : ∀ c ∈ rest.head?, c = '\n') (n : Nat) : stringExtent q false n rest = n := by
  cases rest with
  | nil => rw [stringExtent]
  | cons c rest =>
    obtain rfl := hrest c rfl
    rw [stringExtent_cons (by decide), Marker.not_opens_of_head_ne hq.symm]
    simp

end Strings

/-! ## Which marker opens a token -/

namespace Lexis

variable {lx : Lexis} (hlx : lx.Regular)

theorem mem_openers_of_mem_commentOpeners {m : Marker} (h : m ∈ lx.commentOpeners) :
    m ∈ lx.openers := List.mem_append_left _ (List.mem_append_left _ h)

theorem mem_openers_of_mem_allQuotes {q : Marker} (h : q ∈ lx.allQuotes) : q ∈ lx.openers := by
  unfold openers
  rw [List.append_assoc]
  exact List.mem_append_right _ h

include hlx in
theorem markerAt?_comment {m : Marker} (hm : m ∈ lx.commentOpeners) (rest : Text) :
    lx.markerAt? (m.text ++ rest) = some m := by
  have ho := m.opens_append rest
  refine markerAt?_eq_some_iff.2 ⟨mem_openers_of_mem_commentOpeners hm, ho, ?_⟩
  intro m' hm' ho'
  by_cases hl : m.length ≤ m'.length
  · have he := hlx.comment_longest m hm m' hm' (Marker.opens_text_of_length_le ho ho' hl)
    exact Nat.le_of_eq (congrArg Marker.length he)
  · omega

include hlx in
theorem markerAt?_blockOpener {opener closer : Marker} (hb : (opener, closer) ∈ lx.block)
    (rest : Text) : lx.markerAt? (opener.text ++ rest) = some opener := by
  have hmem : opener ∈ lx.block.map (·.1) := List.mem_map.2 ⟨_, hb, rfl⟩
  exact markerAt?_comment hlx (List.mem_append_right _ hmem) rest

include hlx in
/-- A quote opens its string if the second character behind it, or an earlier one, is another; for a
quote of several characters, one not farther behind it than it is long. -/
theorem markerAt?_quote {q : Marker} (hq : q ∈ lx.allQuotes) {t : Text} {k : Nat}
    (hk : k ≤ q.length) (ht : ∀ c ∈ t[k]?, c ≠ q.head) : lx.markerAt? (q.text ++ t) = some q := by
  have ho := q.opens_append t
  refine markerAt?_eq_some_iff.2 ⟨mem_openers_of_mem_allQuotes hq, ho, ?_⟩
  intro m hm hom
  by_cases hl : m.length ≤ q.length
  · exact hl
  · have hqm := Marker.opens_text_of_length_le ho hom (by omega)
    have hne : m ≠ q := fun e => hl (Nat.le_of_eq (congrArg Marker.length e))
    obtain ⟨hlong, hsame⟩ := hlx.quote_longer q hq m hm hqm hne
    have hlt : q.length + k < m.text.length := by
      rw [Marker.length_text]
      omega
    -- a longer marker would go on with the quote's character at this place
    have hc : (q.text ++ t)[q.length + k]? = some (m.text[q.length + k]) := by
      obtain ⟨s, hs⟩ := Marker.opens_iff.1 hom
      rw [← hs, List.getElem?_append_left hlt, List.getElem?_eq_getElem hlt]
    rw [List.getElem?_append_right (by simp)] at hc
    simp only [Marker.length_text, Nat.add_sub_cancel_left] at hc
    have hhead := List.all_eq_true.1 hsame _ (List.getElem_mem hlt)
    exact absurd (eq_of_beq hhead) (ht _ hc)

end Lexis

/-! ## A token is cut off whole -/

namespace Token

/-- Whether the token may stand before a text: code follows or nothing, and a newline if the end of
the line ends the token. -/
def Precedes (lx : Lexis) (k : Token) (rest : Text) : Prop :=
  ∀ c ∈ rest.head?, (∀ m ∈ lx.openers, c ≠ m.head) ∧ (k.endsWithLine = true → c = '\n')

end Token

namespace Lexis

theorem segments_comment {lx : Lexis} {a rest : Text} {m : Marker}
    (hm : lx.markerAt? (a ++ rest) = some m) (he : lx.extent m (a ++ rest) = a.length)
    (ho : ∀ multiline, lx.opening m ≠ .string multiline) :
    lx.segments (a ++ rest) = .comment a :: lx.segments rest := by
  have hs : lx.segmentAt m (a ++ rest) = .comment a := by
    unfold segmentAt
    rw [he, List.take_left]
    split
    · exact absurd ‹_› (ho _)
    · rfl
  rw [segments_of_markerAt? hm, hs, he, List.drop_left]

theorem segments_string {lx : Lexis} {a rest : Text} {m : Marker} {multiline : Bool}
    (hm : lx.markerAt? (a ++ rest) = some m) (he : lx.extent m (a ++ rest) = a.length)
    (ho : lx.opening m = .string multiline) :
    lx.segments (a ++ rest) = Segment.ofString m a :: lx.segments rest := by
  have hs : lx.segmentAt m (a ++ rest) = Segment.ofString m a := by
    unfold segmentAt
    rw [he, List.take_left, ho]
  rw [segments_of_markerAt? hm, hs, he, List.drop_left]

end Lexis

theorem Segment.ofString_closed (q : Marker) (body : Text) :
    ofString q (q.text ++ (body ++ q.text)) = .string q.text body q.text := by
  have hsuf : q.text.isSuffixOf (body ++ q.text) = true :=
    List.isSuffixOf_iff_suffix.2 (List.suffix_append _ _)
  have hdrop : (q.text ++ (body ++ q.text)).drop q.length = body ++ q.text := List.drop_left
  have htake : (q.text ++ (body ++ q.text)).take q.length = q.text := List.take_left
  have hlen : (body ++ q.text).length - q.length = body.length := by simp
  unfold ofString
  dsimp only
  rw [hdrop, htake, if_pos hsuf, hlen, List.take_left, List.drop_left]

theorem Segment.ofString_open {q : Marker} {t : Text} (h : ¬q.text <:+ t) :
    ofString q (q.text ++ t) = .string q.text t [] := by
  have hdrop : (q.text ++ t).drop q.length = t := List.drop_left
  have htake : (q.text ++ t).take q.length = q.text := List.take_left
  unfold ofString
  dsimp only
  rw [hdrop, htake, if_neg fun hs => h (List.isSuffixOf_iff_suffix.1 hs)]

section Segments

variable {lx : Lexis} (hlx : lx.Regular) {rest : Text}

include hlx in
theorem Lexis.segments_lineComment {m : Marker} {t : Text} (hm : m ∈ lx.line) (ht : '\n' ∉ t)
    (hr : ∀ c ∈ rest.head?, c = '\n') :
    lx.segments (m.text ++ t ++ rest) = .comment (m.text ++ t) :: lx.segments rest := by
  have hop : lx.opening m = .lineComment := if_pos hm
  have hmem : m ∈ lx.commentOpeners := List.mem_append_left _ hm
  have hv := hlx.visible m (mem_openers_of_mem_commentOpeners hmem)
  refine segments_comment (m := m) ?_ ?_ (by simp [hop])
  · rw [List.append_assoc]
    exact markerAt?_comment hlx hmem _
  · rw [extent, hop]
    exact lineExtent_append hv.2 ht hr

include hlx in
theorem Lexis.segments_blockComment {opener closer : Marker} {body : Text}
    (hn : lx.nestedBlocks = false) (hb : (opener, closer) ∈ lx.block)
    (hfirst : ∀ k < body.length, closer.opens ((body ++ closer.text).drop k) = false) :
    lx.segments (opener.text ++ (body ++ closer.text) ++ rest) =
      .comment (opener.text ++ (body ++ closer.text)) :: lx.segments rest := by
  have hop := hlx.block _ hb
  refine segments_comment (m := opener) ?_ ?_ (by simp [hop])
  · rw [List.append_assoc]
    exact markerAt?_blockOpener hlx hb _
  · rw [extent, hop, List.append_assoc, ← Marker.length_text, List.drop_left]
    simp only [hn, Bool.false_eq_true, if_false]
    rw [closerExtent_append hfirst]
    simp [Nat.add_assoc]

include hlx in
theorem Lexis.segments_nestedComment {opener closer : Marker} {body : BlockBody}
    (hn : lx.nestedBlocks = true) (hb : (opener, closer) ∈ lx.block)
    (havoid : body.Avoids (opener.text ++ closer.text)) :
    lx.segments (opener.text ++ (body.text opener closer ++ closer.text) ++ rest) =
      .comment (opener.text ++ (body.text opener closer ++ closer.text)) :: lx.segments rest := by
  have hop := hlx.block _ hb
  refine segments_comment (m := opener) ?_ ?_ (by simp [hop])
  · rw [List.append_assoc]
    exact markerAt?_blockOpener hlx hb _
  · rw [extent, hop, List.append_assoc, List.append_assoc]
    simp only [hn, if_true]
    rw [nestedExtent_block (hlx.nested_heads hn _ hb) havoid]
    simp

include hlx in
theorem Lexis.opening_quote {q : Marker} (hq : q ∈ lx.allQuotes) :
    lx.opening q = .string (q ∈ lx.multilineQuotes) := by
  by_cases hm : q ∈ lx.multilineQuotes
  · simpa [hm] using hlx.multilineQuote q hm
  · rcases List.mem_append.1 hq with hs | hs
    · simpa [hm] using hlx.quote q hs
    · exact absurd hs hm

include hlx in
theorem Lexis.markerAt?_closedString {q : Marker} {us : List StringUnit} (hq : q ∈ lx.allQuotes)
    (hus : ∀ u ∈ us, u.FitsIn q (q ∈ lx.multilineQuotes)) (hr : ∀ c ∈ rest.head?, c ≠ q.head) :
    lx.markerAt? (q.text ++ (.ofUnits us ++ (q.text ++ rest))) = some q := by
  -- behind an empty string the code shows that no longer quote starts, else its first character
  cases us with
  | nil =>
    refine markerAt?_quote hlx hq (k := q.length) (Nat.le_refl _) ?_
    have hnext : (q.text ++ rest)[q.length]? = rest.head? := by
      rw [List.getElem?_append_right (by simp), List.head?_eq_getElem?]
      simp
    intro c hc
    exact hr c (hnext ▸ hc)
  | cons u us =>
    refine markerAt?_quote hlx hq (k := 0) (Nat.zero_le _) ?_
    intro c hc
    cases u with
    | plain d =>
      obtain rfl : d = c := by simpa [Text.ofUnits, StringUnit.text] using hc
      rintro rfl
      exact (hus _ List.mem_cons_self).1 List.mem_cons_self
    | escaped d =>
      obtain rfl : '\\' = c := by simpa [Text.ofUnits, StringUnit.text] using hc
      exact (hlx.quote_unescaped q hq).symm

include hlx in
theorem Lexis.segments_closedString {q : Marker} {us : List StringUnit} (hq : q ∈ lx.allQuotes)
    (hus : ∀ u ∈ us, u.FitsIn q (q ∈ lx.multilineQuotes)) (hr : ∀ c ∈ rest.head?, c ≠ q.head) :
    lx.segments (q.text ++ (.ofUnits us ++ q.text) ++ rest) =
      .string q.text (.ofUnits us) q.text :: lx.segments rest := by
  have hback := hlx.quote_unescaped q hq
  have hop := opening_quote hlx hq
  rw [← Segment.ofString_closed]
  refine segments_string (m := q) ?_ ?_ hop
  · simpa only [List.append_assoc] using markerAt?_closedString hlx hq hus hr
  · rw [extent, hop, List.append_assoc, ← Marker.length_text, List.drop_left]
    dsimp only
    rw [List.append_assoc, stringExtent_units hus, stringExtent_quote hback]
    simp [Nat.add_assoc]

include hlx in
/-- A string without escapes. -/
theorem Lexis.segments_plainString {q : Marker} {t : Text} (hq : q ∈ lx.allQuotes)
    (ht : ∀ c ∈ t, (StringUnit.plain c).FitsIn q (q ∈ lx.multilineQuotes))
    (hr : ∀ c ∈ rest.head?, c ≠ q.head) :
    lx.segments (q.text ++ (t ++ q.text) ++ rest) =
      .string q.text t q.text :: lx.segments rest := by
  have hfits : ∀ u ∈ t.map StringUnit.plain, u.FitsIn q (q ∈ lx.multilineQuotes) := by
    intro u hu
    obtain ⟨c, hc, rfl⟩ := List.mem_map.1 hu
    exact ht c hc
  have h := segments_closedString hlx hq hfits hr
  rwa [Text.ofUnits_plain] at h

include hlx in
theorem Lexis.markerAt?_openString {q : Marker} {t : Text} (hq : q ∈ lx.allQuotes)
    (ht : q.head ∉ t) (hr : ∀ c ∈ rest.head?, c ≠ q.head) :
    lx.markerAt? (q.text ++ (t ++ rest)) = some q := by
  refine markerAt?_quote hlx hq (k := 0) (Nat.zero_le _) ?_
  intro c hc
  cases t with
  | nil => exact hr c (by rw [List.head?_eq_getElem?]; exact hc)
  | cons d t =>
    obtain rfl : d = c := by simpa using hc
    rintro rfl
    exact ht List.mem_cons_self

include hlx in
theorem Lexis.segments_openString {q : Marker} {t : Text} (hq : q ∈ lx.quotes)
    (ht : ∀ c ∈ t, (StringUnit.plain c).FitsIn q false) (hr : ∀ c ∈ rest.head?, c = '\n') :
    lx.segments (q.text ++ t ++ rest) = .string q.text t [] :: lx.segments rest := by
  have hmem : q ∈ lx.allQuotes := List.mem_append_left _ hq
  have hop := hlx.quote q hq
  have hv := hlx.visible q (mem_openers_of_mem_allQuotes hmem)
  have hnl : q.head ≠ '\n' := fun e => hv.2 (e ▸ List.mem_cons_self)
  have hhead : q.head ∉ t := fun h => (ht _ h).1 List.mem_cons_self
  have hfits : ∀ u ∈ t.map StringUnit.plain, u.FitsIn q false := by
    intro u hu
    obtain ⟨c, hc, rfl⟩ := List.mem_map.1 hu
    exact ht c hc
  have hext := stringExtent_units hfits q.text.length rest
  rw [Text.ofUnits_plain, stringExtent_line_end hnl hr] at hext
  rw [← Segment.ofString_open fun h => hhead (h.subset List.mem_cons_self)]
  refine segments_string (m := q) ?_ ?_ hop
  · rw [List.append_assoc]
    exact markerAt?_openString hlx hmem hhead fun c hc => hr c hc ▸ hnl.symm
  · rw [extent, hop, List.append_assoc, ← Marker.length_text, List.drop_left]
    dsimp only
    rw [hext, List.length_append]

include hlx in
/-- A token of a language is one segment of a text that goes on with code behind it. -/
theorem Lexis.segments_token {k : Token} (hk : k.IsOf lx) (hr : k.Precedes lx rest) :
    lx.segments (k.source ++ rest) = k.segment :: lx.segments rest := by
  cases k with
  | lineComment m t =>
    obtain ⟨hm, ht⟩ := hk
    exact segments_lineComment hlx hm ht fun c hc => (hr c hc).2 rfl
  | blockComment opener closer body =>
    obtain ⟨hn, hb, hfirst⟩ := hk
    exact segments_blockComment hlx hn hb hfirst
  | nestedComment opener closer body =>
    obtain ⟨hn, hb, havoid⟩ := hk
    exact segments_nestedComment hlx hn hb havoid
  | closedString q us =>
    obtain ⟨hq, hus⟩ := hk
    exact segments_closedString hlx hq hus fun c hc =>
      (hr c hc).1 q (mem_openers_of_mem_allQuotes hq)
  | openString q t =>
    obtain ⟨hq, ht⟩ := hk
    exact segments_openString hlx hq ht fun c hc => (hr c hc).2 rfl

end Segments

/-- Cleaning takes a token off whole. -/
theorem Lexis.cleaned_token_append {lx : Lexis} (hlx : lx.Regular) {k : Token} {rest : Text}
    (hk : k.IsOf lx) (hr : k.Precedes lx rest) (contents : StringContents) :
    lx.cleaned contents (k.source ++ rest) = k.shown contents ++ lx.cleaned contents rest := by
  rw [cleaned, segments_token hlx hk hr, List.flatMap_cons, Token.shown_segment]
  rfl

end ImportScan
