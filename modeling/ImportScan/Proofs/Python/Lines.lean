import ImportScan.Proofs.Grammar.Lines
import ImportScan.Proofs.Python.Continued

/-!
# What trails a line

In the plain grammar an import takes no newline, and it ends in none of the characters that may
trail a line: white space, carriage returns and quotes (`isTrailing`). So what trails a line makes
no difference, and the end of the line is a seam (`StopsInLine.splits`): two texts whose lines
differ in what trails them give the same names (`namesOf_eq_of_sameLines`).
-/

namespace ImportScan.Python

open Grammar Pattern Text

variable {s : Statement} {p q : Pattern Part} {b d l v w w' : Text}

/-! ## What trails a line -/

/-- The characters that may trail a line without changing what the line imports. -/
def trailing : Text := [' ', '\t', '\r', '"', '\'']

/-- Whether `c` may trail a line. -/
def isTrailing (c : Char) : Bool := trailing.contains c

theorem isTrailing_of_isGap {c : Char} (h : isGap c = true) : isTrailing c = true := by
  rw [isGap, Bool.or_eq_true, beq_iff_eq, beq_iff_eq] at h
  rcases h with rfl | rfl <;> rfl

theorem solid_of_class {f : Char → Bool} (hf : ∀ c ∈ '\n' :: trailing, f c = false) {x : Char}
    (hx : f x = true) : isTrailing x = false ∧ x ≠ '\n' := by
  have hnot (h : x ∈ '\n' :: trailing) : False := by
    rw [hf x h] at hx
    cases hx
  constructor
  · rw [isTrailing, List.contains_eq_mem, decide_eq_false_iff_not]
    exact fun h => hnot (List.mem_cons_of_mem _ h)
  · rintro rfl
    exact hnot List.mem_cons_self

/-- The text ends in no character that may trail a line. -/
def Settled (v : Text) : Prop := ∀ c ∈ v.getLast?, isTrailing c = false

/-- Something is left of a text that ends in no such character. -/
def Within (v : Text) : Prop := v ≠ [] ∧ Settled v

/-- The text is one that may trail a line. -/
def Trails (d : Text) : Prop := ∀ c ∈ d, isTrailing c = true

instance (d : Text) : Decidable (Trails d) := List.decidableBAll _ d

theorem exists_settled_append (l : Text) : ∃ v d, l = v ++ d ∧ Settled v ∧ Trails d := by
  induction l using List.reverseRecOn with
  | nil => exact ⟨[], [], rfl, by simp [Settled], by simp [Trails]⟩
  | append_singleton l c ih =>
    obtain ⟨v, d, rfl, hv, hd⟩ := ih
    by_cases hc : isTrailing c = true
    · refine ⟨v, d ++ [c], List.append_assoc _ _ _, hv, fun x hx => ?_⟩
      rcases List.mem_append.1 hx with hx | hx
      · exact hd x hx
      · exact List.mem_singleton.1 hx ▸ hc
    · refine ⟨v ++ d ++ [c], [], (List.append_nil _).symm, ?_, by simp [Trails]⟩
      simpa [Settled] using hc

/-- The text is what follows a line, from the characters that trail it on. -/
def IsTail (b : Text) : Prop := ∃ d rest, b = d ++ '\n' :: rest ∧ Trails d

theorem IsTail.head (hb : IsTail b) {x : Char} (hx : x ∈ b.head?) :
    isTrailing x = true ∨ x = '\n' := by
  obtain ⟨d, rest, rfl, hd⟩ := hb
  cases d with
  | nil => exact .inr (Option.some.inj hx).symm
  | cons y d => exact .inl (Option.some.inj hx ▸ hd y List.mem_cons_self)

section Carries

variable (hb : IsTail b)

include hb

theorem seam_settled : Seam (fun c => isTrailing c = false ∧ c ≠ '\n') Settled b where
  tail := by
    intro x v hx hv c hc
    obtain ⟨y, v, rfl⟩ := List.exists_cons_of_ne_nil (l := v) (by rintro rfl; cases hc)
    exact hv c (by rwa [List.getLast?_cons_cons])
  stop := by
    rintro - x hx ⟨htrailing, hline⟩
    rcases hb.head hx with h | h
    · rw [h] at htrailing
      cases htrailing
    · exact hline h

omit hb in
theorem seam_within : Seam (isTrailing · = true) Within b where
  tail := by
    rintro x v hx ⟨-, hv⟩
    cases v with
    | nil =>
      rw [hv x rfl] at hx
      cases hx
    | cons y v => exact ⟨List.cons_ne_nil y v, fun c hc => hv c (by rwa [List.getLast?_cons_cons])⟩
  stop h := absurd rfl h.1

omit hb in
theorem carries_trailing (hp : p.BuiltOn fun _ => False) (htakes : p.Takes (isTrailing · = true)) :
    p.Carries (Alongside Within b) (Alongside Within b) :=
  carries_alongside seam_within (fun _ h => h.elim) htakes hp

theorem carries_solid (hp : p.BuiltOn fun _ => False)
    (htakes : p.Takes fun c => isTrailing c = false ∧ c ≠ '\n') :
    p.Carries (Alongside Settled b) (Alongside Settled b) :=
  carries_alongside (seam_settled hb) (fun _ h => h.elim) htakes hp

/-- At what trails a line nothing starts that needs another character on the line. -/
theorem ends_eq_nil_of_tail (hneeds : p.Needs (isTrailing · = false)) (htakes : p.Takes (· ≠ '\n'))
    {s : Point Part} (hs : s.cursor.after = b) : p.ends s = [] := by
  refine List.eq_nil_iff_forall_not_mem.2 fun e he => ?_
  obtain ⟨t, rest, hafter, ⟨x, hx, hsolid⟩, hline⟩ := hneeds.exists_taken htakes he
  obtain ⟨d, rest', rfl, hd⟩ := hb
  rw [hs] at hafter
  rcases List.append_eq_append_iff.1 hafter with ⟨u, rfl, hu⟩ | ⟨u, rfl, -⟩
  · cases u with
    | nil =>
      rw [List.append_nil] at hx
      rw [hd x hx] at hsolid
      cases hsolid
    | cons y u =>
      obtain ⟨rfl, -⟩ := List.cons.inj hu
      exact hline '\n' (by simp) rfl
  · rw [hd x (List.mem_append_left u hx)] at hsolid
    cases hsolid

/-- What starts with trailing characters and goes on with others does not start at the end. -/
theorem carries_from_settled (hp : p.Carries (Alongside Within b) (Alongside Settled b))
    (hneeds : p.Needs (isTrailing · = false)) (htakes : p.Takes (· ≠ '\n')) :
    p.Carries (Alongside Settled b) (Alongside Settled b) := by
  rintro s s' ⟨a, v, hv, hs, hs'⟩ ht
  by_cases hne : v = []
  · subst hne
    have hafter : s.cursor.after = b := by rw [hs, Cursor.after_between, List.nil_append]
    have hnil' : p.ends s' = [] := by
      refine List.eq_nil_iff_forall_not_mem.2 fun e he => ?_
      obtain ⟨t, rest, hafter', ⟨x, hx, -⟩, -⟩ := hneeds s' e he
      rw [hs', Cursor.after_between] at hafter'
      obtain ⟨rfl, -⟩ := List.append_eq_nil_iff.1 hafter'.symm
      cases hx
    rw [ends_eq_nil_of_tail hb hneeds htakes hafter, hnil']
    exact .nil
  · exact hp s s' ⟨a, v, ⟨hne, hv⟩, hs, hs'⟩ ht

/-! ## Both forms -/

omit hb in
theorem solid_of_isDotted (x : Char) (h : isDotted x = true) : isTrailing x = false ∧ x ≠ '\n' :=
  solid_of_class (by decide) h

omit hb in
theorem carries_within (h : p.Carries (Alongside Settled b) (Alongside Settled b)) :
    p.Carries (Alongside Within b) (Alongside Settled b) :=
  h.mono (fun _ _ hc => hc.mono fun _ hv => hv.2) fun _ _ hc => hc

omit hb in
theorem carries_gaps (least : Nat) : (Pattern.many true (.one isGap) least none :
    Pattern Part).Carries (Alongside Within b) (Alongside Within b) :=
  carries_trailing trivial fun _ => isTrailing_of_isGap

omit hb in
theorem carries_start :
    (.here (mayStart [';']) ++ gaps0 : Pattern Part).Carries (Alongside Within b)
      (Alongside Within b) := by
  have hstart : (Pattern.here (mayStart [';']) : Pattern Part).Carries
      (Alongside Within b) (Alongside Within b) := by
    refine carries_here fun c c' hc => ?_
    rw [mayStart, mayStart, atLineStart, atLineStart, isAfter, isAfter, hc.before]
  exact hstart.append (carries_trailing rfl fun _ => isTrailing_of_isGap)

theorem carries_word {k : String} (hk : ∀ c ∈ k.toList, isTrailing c = false ∧ c ≠ '\n') :
    (word k : Pattern Part).Carries (Alongside Settled b) (Alongside Settled b) :=
  carries_solid hb (builtOn_word k) (takes_text hk)

theorem carries_namesWith :
    (.here (mayStart [';']) ++ namesWith (.one isGap) : Pattern Part).Carries
      (Alongside Within b) (Alongside Settled b) := by
  let gaps1 : Pattern Part := many1 (.one isGap)
  let gaps0 : Pattern Part := many0 (.one isGap)
  let dots : Pattern Part := some1 isDotted
  have hgaps1 : gaps1.Carries (Alongside Within b) (Alongside Within b) := carries_gaps 1
  have hgaps0 : gaps0.Carries (Alongside Within b) (Alongside Within b) := carries_gaps 0
  have hdots : dots.Carries (Alongside Settled b) (Alongside Settled b) :=
    carries_solid hb rfl solid_of_isDotted
  have hneeds : dots.Needs (isTrailing · = false) :=
    needs_run (fun x hx => (solid_of_isDotted x hx).1) Nat.one_pos
  have hcomma : (char ',' : Pattern Part).Carries (Alongside Settled b) (Alongside Settled b) :=
    carries_solid hb trivial (takes_text (t := [',']) (by decide))
  -- a further name, with what stands between it and the one before
  have hname : (gaps0 ++ dots).Carries (Alongside Settled b) (Alongside Settled b) :=
    carries_from_settled hb (hgaps0.append (carries_within hdots)) (hneeds.after _)
      (takes_of_excludes (by decide))
  have hfurther : (((gaps0 ++ char ',' ++ gaps0) ||| gaps1) ++ dots).Carries
      (Alongside Settled b) (Alongside Settled b) := by
    refine carries_from_settled hb ?_ (hneeds.after _) (takes_of_excludes (by decide))
    refine Carries.congr (.or ?_ (hgaps1.append (carries_within hdots))) (ends_or_append _ _ _)
    refine (hgaps0.append (carries_within (hcomma.append hname))).congr fun s => ?_
    simp only [ends_append_assoc]
  have hbody : (Pattern.part .body (dots ++ many0 (((gaps0 ++ char ',' ++ gaps0) ||| gaps1) ++
      dots))).Carries (Alongside Settled b) (Alongside Settled b) :=
    (hdots.append (hfurther.many (fun c c' hc => hc.offset) true 0 none)).part .body
  have hlist := carries_from_settled hb (hgaps1.append (carries_within hbody))
    (((hneeds.append _).part .body).after _) (takes_of_excludes (by decide))
  have hwhole := carries_start.append
    (carries_within ((carries_word hb (k := "import") (by decide)).append hlist))
  refine hwhole.congr fun s => ?_
  simp only [namesWith, gaps1, gaps0, dots, ends_append_assoc]

theorem carries_fromWith :
    (.here (mayStart [';']) ++ fromWith (.one isGap) : Pattern Part).Carries
      (Alongside Within b) (Alongside Settled b) := by
  let gaps1 : Pattern Part := many1 (.one isGap)
  let name : Pattern Part := .part .name (some0 (· == '.') ++ some0 isDotted)
  have hgaps1 : gaps1.Carries (Alongside Within b) (Alongside Within b) := carries_gaps 1
  have hdots : (some0 (· == '.') : Pattern Part).Carries
      (Alongside Settled b) (Alongside Settled b) :=
    carries_solid hb (builtOn_some0 _) fun x hx => solid_of_class (f := (· == '.')) (by decide) hx
  have hname : name.Carries (Alongside Settled b) (Alongside Settled b) :=
    (hdots.append (carries_solid hb (builtOn_some0 _) solid_of_isDotted)).part .name
  have himport := carries_word hb (k := "import") (by decide)
  have hedge : (wordEdge : Pattern Part).Carries (Alongside Settled b) (Alongside Settled b) := by
    refine carries_here fun c c' ⟨a, v, _, hc, hc'⟩ => ?_
    have hword : ∀ x ∈ '\n' :: trailing, isWord x = false := by decide
    rw [hc, hc', atWordEdge, atWordEdge, Cursor.before_between, Cursor.before_between,
      Cursor.after_between, Cursor.after_between]
    cases v with
    | cons x v => rfl
    | nil =>
      -- what trails a line is no part of a word
      have hhead : b.head?.any isWord = false := by
        cases hx : b.head? with
        | none => rfl
        | some x =>
          rcases hb.head hx with h | rfl
          · exact hword x (List.mem_cons_of_mem _ (by simpa [isTrailing] using h))
          · exact hword '\n' List.mem_cons_self
      rw [List.nil_append, hhead]
      rfl
  have hneeds : (word "import" ++ wordEdge : Pattern Part).Needs (isTrailing · = false) :=
    Needs.append (needs_text ⟨'i', by decide⟩) _
  have hlast := carries_from_settled hb
    (hgaps1.append (carries_within (himport.append hedge))) (hneeds.after _)
    (takes_of_excludes (by decide))
  have hrest := carries_from_settled hb (hgaps1.append (carries_within (hname.append hlast)))
    (((hneeds.after _).after _).after _) (takes_of_excludes (by decide))
  have hwhole := carries_start.append
    (carries_within ((carries_word hb (k := "from") (by decide)).append hrest))
  refine hwhole.congr fun s => ?_
  simp only [fromWith, gaps1, name, ends_append_assoc]

end Carries

/-! ## The end of a line as a seam -/

/-- A pattern that ends within its line, and not in a character that may trail it. -/
structure StopsInLine (p : Pattern Part) : Prop where
  carries : ∀ b, IsTail b → p.Carries (Alongside Within b) (Alongside Settled b)
  needs : p.Needs fun c => isWord c = true
  takes : p.Takes (· ≠ '\n')
  tests : p.BuiltOn fun test => test = mayStart [';'] ∨ test = atWordEdge

theorem stopsInLine_namesWith :
    StopsInLine (.here (mayStart [';']) ++ namesWith (.one isGap)) where
  carries _ hb := carries_namesWith hb
  needs := (((needs_text ⟨'i', by decide⟩).append _).after _).after _
  takes := takes_of_excludes (by decide)
  tests := by simp [namesWith, many1]

theorem stopsInLine_fromWith :
    StopsInLine (.here (mayStart [';']) ++ fromWith (.one isGap)) where
  carries _ hb := carries_fromWith hb
  needs := (((needs_text ⟨'f', by decide⟩).append _).after _).after _
  takes := takes_of_excludes (by decide)
  tests := by simp [fromWith, many1, wordEdge]

theorem isTrailing_eq_false_of_isWord {c : Char} (h : isWord c = true) : isTrailing c = false :=
  (solid_of_class (f := isWord) (by decide) h).1

theorem overlooks_mayStart {front : Text} (h : front.getLast? = some '\n') :
    (.here (mayStart [';']) : Pattern Part).Overlooks front := by
  intro c
  unfold mayStart atLineStart isAfter
  rw [Cursor.before_behind, List.head?_append, List.head?_reverse, h]
  cases c.before.head? <;> rfl

/-- What trails a line and the end of the line are a seam. -/
theorem StopsInLine.splits (hp : StopsInLine s.pattern) (hnames : ReadsParts s) (hv : Settled v)
    (hd : Trails d) (rest : Text) : Splits s v (d ++ ['\n']) rest := by
  have htail {d : Text} (hd : Trails d) : IsTail (d ++ ['\n'] ++ rest) :=
    ⟨d, rest, by simp, hd⟩
  have hlive : ∀ w, w <:+ v → w ≠ [] → Within w := by
    rintro w ⟨u, rfl⟩ hne
    refine ⟨hne, fun c hc => hv c ?_⟩
    rwa [List.getLast?_append_of_ne_nil _ hne]
  have hseam : s.pattern.NoneIn v (d ++ ['\n']) rest := by
    intro u x y huv
    have hsuffix : x :: y <:+ d ++ ['\n'] := ⟨u, huv.symm⟩
    obtain ⟨d', hxy, hd'⟩ :=
      (List.suffix_concat_iff.1 hsuffix).resolve_left (List.cons_ne_nil x y)
    have htrails : Trails d' := fun c hc => hd c (hd'.subset hc)
    refine ends_eq_nil_of_tail (htail htrails)
      (hp.needs.mono fun _ => isTrailing_eq_false_of_isWord) hp.takes ?_
    rw [Cursor.after_between, ← List.cons_append, hxy]
  have hoverlooks : s.pattern.Overlooks (v ++ (d ++ ['\n'])) := by
    have hlast : (v ++ (d ++ ['\n'])).getLast? = some '\n' := by simp
    refine hp.tests.overlooks ?_
    rintro test (rfl | rfl)
    · exact overlooks_mayStart hlast
    · refine overlooks_wordEdge (ι := Part) fun c hc => ?_
      obtain rfl := Option.some.inj (hlast.symm.trans hc)
      rfl
  exact splits_of_carries ((hp.carries _ (htail hd)).mono (fun _ _ hc => hc)
    fun _ _ hc => hc.mono fun _ _ => trivial) hlive
    (hp.needs.mono fun _ => isBlank_eq_false_of_isWord) hseam hoverlooks hnames

/-! ## The same lines -/

/-- The names that a cleaned text imports in the plain grammar. -/
def namesOf (t : Text) : List Text := plain.namesIn (fun _ => false) t t

theorem namesOf_line (hv : Settled v) (hd : Trails d) (w : Text) :
    namesOf (v ++ (d ++ ['\n'] ++ w)) = namesOf v ++ namesOf w := by
  refine namesIn_append rfl rfl (fun _ _ => rfl) (fun _ => rfl) fun s hs => ?_
  simp only [plain, List.mem_cons, List.not_mem_nil, or_false] at hs
  rcases hs with rfl | rfl
  · refine stopsInLine_namesWith.splits (fun m m' hparts => ?_) hv hd w
    dsimp only [importNames]
    rw [partOrEmpty_congr hparts]
  · refine stopsInLine_fromWith.splits (fun m m' hparts => ?_) hv hd w
    dsimp only [importFrom]
    rw [partOrEmpty_congr hparts]

/-- The lines of the texts are the same up to what trails them. The newlines of the second text
stand behind something that trails a line. -/
inductive SameLines : Text → Text → Prop where
  | nil : SameLines [] []
  | cons {c : Char} {w w' : Text} (hc : c ≠ '\n') (h : SameLines w w') :
      SameLines (c :: w) (c :: w')
  | line {e e' w w' : Text} (he : Trails e) (he' : Trails e') (hne : e' ≠ [])
      (h : SameLines w w') : SameLines (e ++ '\n' :: w) (e' ++ '\n' :: w')

theorem namesOf_eq_behind (h : SameLines w w') : namesOf (l ++ w) = namesOf (l ++ w') := by
  induction h generalizing l with
  | nil => rfl
  | @cons c w w' _ _ ih =>
    rw [List.append_cons, List.append_cons l c w']
    exact ih
  | @line e e' w w' he he' _ _ ih =>
    obtain ⟨v, d, rfl, hv, hd⟩ := exists_settled_append l
    have hsplit {e : Text} (he : Trails e) (w : Text) :
        namesOf (v ++ d ++ (e ++ '\n' :: w)) = namesOf v ++ namesOf w := by
      have hshape : v ++ d ++ (e ++ '\n' :: w) = v ++ ((d ++ e) ++ ['\n'] ++ w) := by simp
      rw [hshape]
      exact namesOf_line hv (fun c hc => (List.mem_append.1 hc).elim (hd c) (he c)) w
    rw [hsplit he, hsplit he']
    exact congrArg _ (ih (l := []))

/-- What trails the lines of a text makes no difference to its names. -/
theorem namesOf_eq_of_sameLines (h : SameLines w w') : namesOf w = namesOf w' :=
  namesOf_eq_behind (l := []) h

theorem SameLines.head?_ne (h : SameLines w w') : w'.head? ≠ some '\n' := by
  cases h with
  | nil => simp
  | cons hc _ => simpa using hc
  | @line e e' w w' _ he' hne _ =>
    obtain ⟨x, e', rfl⟩ := List.exists_cons_of_ne_nil hne
    have hx := he' x List.mem_cons_self
    rintro ⟨⟩
    cases hx

theorem uncontinued_append (hd : ∀ c ∈ d, c ≠ '\\') (hw : Uncontinued w) :
    Uncontinued (d ++ w) := by
  induction d with
  | nil => exact hw
  | cons c d ih =>
    intro h
    rcases List.infix_cons_iff.1 h with h | h
    · exact hd c List.mem_cons_self (List.cons_prefix_cons.1 h).1.symm
    · exact ih (fun c hc => hd c (List.mem_cons_of_mem _ hc)) h

/-- What stands in front of a newline is no backslash. -/
theorem SameLines.uncontinued (h : SameLines w w') : Uncontinued w' := by
  induction h with
  | nil => simp [Uncontinued]
  | @cons c w w' _ h ih =>
    intro hinfix
    rcases List.infix_cons_iff.1 hinfix with hprefix | hinfix
    · obtain ⟨r, rfl⟩ := (List.cons_prefix_cons.1 hprefix).2
      exact h.head?_ne rfl
    · exact ih hinfix
  | @line e e' w w' _ he' _ _ ih =>
    have hback : ∀ c ∈ e' ++ ['\n'], c ≠ '\\' := by
      rintro c hc rfl
      rcases List.mem_append.1 hc with hc | hc
      · cases he' _ hc
      · cases List.mem_singleton.1 hc
    simpa using uncontinued_append hback ih

end ImportScan.Python
