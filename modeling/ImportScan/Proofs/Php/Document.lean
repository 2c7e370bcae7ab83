import ImportScan.Language
import ImportScan.Proofs.Grammar.Plain
import ImportScan.Proofs.Php.Scope
import ImportScan.Proofs.Php.UseStatement

/-!
# Imports of a document

The use statements of a document import what its tree says (`parse_items`). The text is scanned item
by item: `scan` is what the statements from a place on import. A statement leaves the open blocks
as they were and adds its vendors if none of them is a body (`scan_statement`); the head of a block
adds nothing and opens a block of its kind (`braceState_head`); so a list of items, whatever follows
it, adds its vendors and leaves the open blocks as they were (`scan_items`).
-/

namespace ImportScan.Php

open Grammar Pattern Text

variable {a b t : Text}

/-! ## Free text -/

theorem isPlain_of_allBlank (h : AllBlank b) : IsPlain b :=
  isPlain_of_isLoose fun c hc => .inr (.inr (h c hc))

theorem IsPlain.append {u : Text} (ht : IsPlain t) (hu : IsPlain u) : IsPlain (t ++ u) := by
  intro c hc
  rcases List.mem_append.1 hc with hc | hc
  · exact ht c hc
  · exact hu c hc

theorem IsPlain.unended (h : IsPlain t) : Unended t := by
  intro c hc
  have := h c hc
  simp only [marks, List.mem_cons, not_or] at this
  exact ⟨this.2.2.1, this.1, this.2.1⟩

theorem IsPlain.balanced (h : IsPlain t) : Balanced t :=
  balanced_of_no_braces fun c hc => (h.unended c hc).2

theorem allBlank_of_isGap (h : ∀ c ∈ t, isGap c = true) : AllBlank t :=
  fun c hc => isBlank_of_isGap (h c hc)

theorem Lead.allBlank_text (l : Lead) (atStart : Bool) : AllBlank (l.text atStart) := by
  have hindent : AllBlank l.indent.val := allBlank_of_isGap l.indent.2
  cases atStart with
  | true => exact hindent
  | false =>
    intro c hc
    rcases List.mem_append.1 hc with hc | hc
    · exact l.lines.2 c hc
    · rcases List.mem_cons.1 hc with rfl | hc
      · decide
      · exact hindent c hc

theorem Lead.isPlain_text (l : Lead) (atStart : Bool) : IsPlain (l.text atStart) :=
  isPlain_of_allBlank (l.allBlank_text atStart)

/-! ## Namespace declarations -/

theorem isWord_namespace : IsWord "namespace".toList := by decide

theorem isPlain_namespaceText (name : Option (Spaces × Name)) : IsPlain (namespaceText name) := by
  have hword : IsPlain "namespace".toList :=
    isPlain_of_isLoose fun c hc => .inl (isWord_namespace.2 c hc)
  unfold namespaceText
  split
  · exact hword
  · rename_i space name
    have hname : IsPlain name.text :=
      isPlain_of_isLoose fun c hc => (Name.mem_text hc).imp id .inl
    exact hword.append ((isPlain_of_allBlank space.2.2).append hname)

theorem hasWord_namespaceText (name : Option (Spaces × Name)) :
    HasWord "namespace".toList (namespaceText name) := by
  unfold namespaceText
  split
  · exact ⟨[], [], rfl, by simp [EndsApart], by simp [StartsApart]⟩
  · rename_i space name
    refine ⟨[], space.val ++ name.text, rfl, by simp [EndsApart], ?_⟩
    exact forall_head?_append_of_ne_nil space.2.1 fun c hc =>
      isWord_eq_false_of_isBlank (space.2.2 c hc)

/-- No gap stands behind the end of a name. -/
theorem quiet_namespaceText (space : Spaces) (name : Name) :
    Quiet (namespaceText (some (space, name))) := by
  have hword : ¬HasWord "use".toList "namespace".toList :=
    fun h => absurd (h.subset (by decide : 'u' ∈ "use".toList)) (by decide)
  have hspace : Quiet ("namespace".toList ++ space.val) := by
    refine quiet_of_not_hasWord fun h => hword ?_
    have hsurround := hasWord_surround (t := "namespace".toList) isWord_use
      (fun c (hc : c ∈ ([] : Text)) => nomatch hc) space.2.2
    exact hsurround.1 h
  have hname : ∀ c ∈ name.text, ¬isGap c = true := by
    intro c hc hg
    rcases Name.mem_text hc with hw | rfl
    · exact absurd hw (by simp [isWord_eq_false_of_isGap hg])
    · exact absurd hg (by decide)
  have htext : namespaceText (some (space, name)) =
      "namespace".toList ++ space.val ++ name.text := (List.append_assoc _ _ _).symm
  rw [htext]
  exact hspace.append_right hname

/-! ## Heads of blocks -/

namespace Head

variable (h : Head)

theorem isPlain_text : IsPlain h.text := by
  cases h with
  | ofNamespace name _ => exact isPlain_namespaceText name
  | other p _ => exact p.isPlain

theorem not_hasWord_use : ¬HasWord "use".toList h.text := by
  cases h with
  | ofNamespace name h => exact h
  | other p _ => exact p.not_hasWord_use

theorem hasWord_namespace_iff : HasWord "namespace".toList h.text ↔ h.isNamespace = true := by
  cases h with
  | ofNamespace name _ => exact iff_of_true (hasWord_namespaceText name) rfl
  | other p h => exact iff_of_false h (by simp [isNamespace])

end Head

/-! ## Statements -/

theorem Clause.balanced_text (k : Clause) : Balanced k.text := by
  have hloose {t : Text} (h : ∀ c ∈ t, IsLoose c) : Balanced t := (isPlain_of_isLoose h).balanced
  have hgroup : Balanced k.groupText := by
    unfold groupText
    split
    · exact fun s => rfl
    · rename_i inner _
      exact inner.2.balanced.braces
  exact (hloose fun _ => k.isLoose_of_mem_kindText).append
    ((hloose fun _ => k.isLoose_of_mem_path).append
      (hgroup.append (hloose fun _ => k.isLoose_of_mem_newNameText)))

theorem Use.balanced_text (u : Use) : Balanced u.text := by
  have hblanks (b : Blanks) : Balanced b.val := (isPlain_of_allBlank b.2).balanced
  have hword : Balanced "use".toList := balanced_of_no_braces (by decide)
  have hgap : Balanced u.gap.val := (isPlain_of_allBlank (allBlank_of_isGap u.gap.2.2)).balanced
  have hcomma : Balanced [','] := balanced_of_no_braces (by decide)
  have hend : Balanced [';'] := balanced_of_no_braces (by decide)
  have hothers : Balanced (u.others.flatMap (Further.text Clause.text)) := by
    induction u.others with
    | nil => exact fun s => rfl
    | cons f others ih =>
      exact ((hblanks f.before).append (hcomma.append
        ((hblanks f.after).append f.clause.balanced_text))).append ih
  exact hword.append (hgap.append ((u.first.balanced_text.append hothers).append
    ((hblanks u.trail).append hend)))

namespace Stmt

/-- A statement other than a use statement is plain and quiet up to its semicolon. -/
theorem eq_use_or_quiet (s : Stmt) : (∃ u, s = .use u) ∨
    ∃ t, s.text = t ++ [';'] ∧ s.vendors = [] ∧ IsPlain t ∧ Quiet t := by
  cases s with
  | use u => exact .inl ⟨u, rfl⟩
  | namespaceDecl space name =>
    exact .inr ⟨_, rfl, rfl, isPlain_namespaceText _, quiet_namespaceText space name⟩
  | other p =>
    exact .inr ⟨_, rfl, rfl, p.isPlain, quiet_of_not_hasWord p.not_hasWord_use⟩

theorem balanced_text (s : Stmt) : Balanced s.text := by
  rcases s.eq_use_or_quiet with ⟨u, rfl⟩ | ⟨t, ht, -, hplain, -⟩
  · exact u.balanced_text
  · rw [ht]
    exact hplain.balanced.append (balanced_of_no_braces (by decide))

/-- A statement ends with its semicolon. -/
theorem exists_eq_semicolon (s : Stmt) : ∃ t, s.text = t ++ [';'] := by
  rcases s.eq_use_or_quiet with ⟨u, rfl⟩ | ⟨t, ht, -⟩
  · refine ⟨"use".toList ++ (u.gap.val ++ (u.list ++ u.trail.val)), ?_⟩
    rw [text, Use.text]
    simp only [List.append_assoc]
  · exact ⟨t, ht⟩

end Stmt

/-! ## Behind an item -/

/-- A block or a statement has ended in front, or nothing stands there. -/
def Between (a : Text) : Prop := Settled (braceState a).head.reverse

theorem braceState_append (a t : Text) : braceState (a ++ t) = (braceState a).run t :=
  BraceState.run_append _ _ _

theorem blocks_append (ht : Balanced t) (a : Text) :
    (braceState (a ++ t)).blocks = (braceState a).blocks := by
  rw [braceState_append, ht]

/-- Behind a statement the next item starts anew, in the same blocks. -/
theorem between_statement (s : Stmt) (a : Text) : Between (a ++ s.text) := by
  obtain ⟨t, ht⟩ := s.exists_eq_semicolon
  unfold Between
  rw [ht, ← List.append_assoc, braceState_append, BraceState.run_cons, BraceState.run_nil,
    BraceState.step_of_ne _ (by decide) (by decide), List.reverse_cons]
  intro c hc
  rw [List.getLast?_concat] at hc
  exact (Option.some.inj hc).symm

/-- Behind the head of a block its items start anew, in one more block of the kind of the head. -/
theorem braceState_head (ha : Between a) (lead : Lead) (atStart : Bool) (head : Head)
    (gap : Blanks) :
    braceState (a ++ (lead.text atStart ++ head.text ++ gap.val) ++ ['{']) =
      ⟨[], (!head.isNamespace) :: (braceState a).blocks⟩ := by
  have hplain : IsPlain (lead.text atStart ++ head.text ++ gap.val) :=
    ((lead.isPlain_text atStart).append head.isPlain_text).append (isPlain_of_allBlank gap.2)
  have hkind : endsInNamespace ((braceState a).head.reverse ++
      (lead.text atStart ++ head.text ++ gap.val)) = head.isNamespace := by
    rw [Bool.eq_iff_iff, endsInNamespace_iff ha hplain.unended,
      hasWord_surround isWord_namespace (lead.allBlank_text atStart) gap.2,
      head.hasWord_namespace_iff]
  rw [braceState_append, braceState_append, BraceState.run_of_no_braces _ fun c hc =>
    (hplain.unended c hc).2, BraceState.run_cons, BraceState.run_nil, BraceState.step, if_pos rfl]
  dsimp only
  rw [List.reverse_append, List.reverse_reverse, hkind]

/-- Behind the end of a block the next item starts anew, in one block less. -/
theorem braceState_close (a : Text) :
    braceState (a ++ ['}']) = ⟨[], (braceState a).blocks.tail⟩ := by
  rw [braceState_append]
  rfl

/-! ## Scanning -/

/-- What the use statements of the text `a ++ b` import from the end of `a` on. -/
def scan (a b : Text) : List Text :=
  ((useStatement.pattern.matchesFrom 0 (.between a b)).filter
    (startsInCode (a ++ b).toArray)).flatMap fun m =>
      if (bodies (a ++ b)).inside m.offset then [] else useStatement.names m

theorem scan_skip (h : useStatement.pattern.NoneIn a t b) : scan a (t ++ b) = scan (a ++ t) b := by
  unfold scan
  rw [matchesFrom_skip h, List.append_assoc]

/-- At the end of the text nothing is left to import. -/
theorem scan_nil (a : Text) : scan a [] = [] := by
  have hnone : useStatement.pattern.ends ⟨.between a [], []⟩ = [] := by
    refine Decidable.byContradiction fun hends => ?_
    obtain ⟨-, t, g, r, h, -⟩ := exists_of_ends_ne_nil hends
    simpa using congrArg List.length h
  unfold scan
  rw [matchesFrom_end (Cursor.after_between a []), if_pos rfl, matchAt?_eq_none_iff.2 hnone]
  rfl

/-- A quiet text and the stop behind it add nothing. -/
theorem scan_quiet (ht : Quiet t) {x : Char} (hx : x ∈ stops) (a b : Text) :
    scan a (t ++ x :: b) = scan (a ++ (t ++ [x])) b := by
  have hstop : ∀ c ∈ (x :: b).head?, c ∈ stops := by
    rintro c ⟨⟩
    exact hx
  rw [scan_skip (noneIn_of_quiet ht hstop), ← List.singleton_append, scan_skip (noneIn_stop hx),
    List.append_assoc]

/-- Where the indentation or the word of a use statement starts, the blocks are those in front. -/
theorem inside_append_cons {x : Char} (hx : x ∉ marks) (a r : Text) :
    (bodies (a ++ x :: r)).inside a.length = (braceState a).inBody := by
  have htake : (a ++ x :: r).take (a.length + 1) = a ++ [x] := by
    rw [List.append_cons]
    exact List.take_left' (by simp)
  have hunended : Unended [x] := IsPlain.unended fun c hc => List.mem_singleton.1 hc ▸ hx
  obtain ⟨-, hbraces⟩ := hunended x List.mem_cons_self
  rw [inside_bodies, htake, braceState_append, BraceState.run_cons, BraceState.run_nil,
    BraceState.step_of_ne _ hbraces.1 hbraces.2]
  rfl

/-- A match that starts with indentation starts in code at the character behind it. -/
theorem startsInCode_of_text {m : Match Part} {indent r : Text} {x : Char}
    (hoffset : m.offset = a.length) (htext : m.text = indent ++ x :: r)
    (hindent : AllBlank indent) (hx : isBlank x = false) :
    startsInCode (a ++ (m.text ++ b)).toArray m = true := by
  have htake : m.text.takeWhile isBlank = indent := by
    rw [htext, List.takeWhile_append_of_pos hindent, List.takeWhile_cons]
    simp [hx]
  have hfirst : (a ++ (m.text ++ b))[a.length + indent.length]? = some x := by
    rw [htext, List.append_assoc, ← List.append_assoc, ← List.length_append]
    simp
  unfold startsInCode Match.firstOffset
  rw [hoffset, htake, List.getElem?_toArray, hfirst]
  simp [hx]

/-- A use statement on a line of its own adds its vendors if no block is a body. -/
theorem scan_use (ha : EndsLine a) (indent : Indent) (u : Use) (b : Text) :
    scan a (indent.val ++ u.text ++ b) =
      (if (braceState a).inBody then [] else u.clauses.map (·.vendor)) ++
        scan (a ++ (indent.val ++ u.text)) b := by
  obtain ⟨m, hm, hoffset, htext, hpart⟩ := matchAt?_use (b := b) ha indent u
  have hindent : AllBlank indent.val := allBlank_of_isGap indent.2
  have hcode : startsInCode (a ++ (indent.val ++ u.text ++ b)).toArray m = true := by
    rw [← htext]
    exact startsInCode_of_text hoffset htext hindent (by decide)
  have hscope : (bodies (a ++ (indent.val ++ u.text ++ b))).inside m.offset =
      (braceState a).inBody := by
    -- the match starts with the indentation, or with the word if there is none
    obtain ⟨x, r, hx, hmark⟩ : ∃ x r, indent.val ++ u.text ++ b = x :: r ∧ x ∉ marks := by
      cases h : indent.val with
      | nil => exact ⟨'u', _, rfl, by decide⟩
      | cons x r =>
        exact ⟨x, _, rfl, isPlain_of_allBlank hindent x (h ▸ List.mem_cons_self)⟩
    rw [hx, hoffset, inside_append_cons hmark]
  have hne : indent.val ++ u.text ≠ [] := by simp [Use.text]
  have hlength : m.length = (indent.val ++ u.text).length := by
    rw [(after_eq_of_matchAt? hm).2, htext]
  unfold scan
  rw [matchesFrom_match hne hm hlength, List.filter_cons_of_pos hcode, List.flatMap_cons, hscope,
    names_of_part hpart, ← List.append_assoc a (indent.val ++ u.text) b]

/-! ## Items -/

/-- Whether the text is empty where a document starts. -/
def StartsIn (atStart : Bool) (a : Text) : Prop := atStart = true → a = []

/-- In front of a use statement the line starts where the indentation does. -/
theorem exists_line (lead : Lead) (atStart : Bool) (ha : StartsIn atStart a) (t : Text) :
    ∃ a', a ++ lead.text atStart = a' ++ lead.indent.val ∧ EndsLine a' ∧
      (braceState a').blocks = (braceState a).blocks ∧
      scan a (lead.text atStart ++ t) = scan a' (lead.indent.val ++ t) := by
  cases atStart with
  | true =>
    obtain rfl := ha rfl
    exact ⟨[], rfl, fun c hc => (nomatch hc), rfl, rfl⟩
  | false =>
    refine ⟨a ++ (lead.lines.val ++ ['\n']), ?_, ?_, ?_, ?_⟩
    · rw [List.append_assoc, List.append_assoc]
      rfl
    · rw [← List.append_assoc]
      exact forall_getLast?_append_of_ne_nil (List.cons_ne_nil _ _) (by simp)
    · have hlines : IsPlain (lead.lines.val ++ ['\n']) :=
        (isPlain_of_allBlank lead.lines.2).append fun c hc =>
          List.mem_singleton.1 hc ▸ (by decide)
      exact blocks_append hlines.balanced a
    · have htext : lead.text false ++ t = lead.lines.val ++ '\n' :: (lead.indent.val ++ t) :=
        List.append_assoc _ _ _
      rw [htext, scan_quiet (quiet_blanks lead.lines.2) (by decide)]

/-- **One statement** adds its vendors if no block around it is a body. -/
theorem scan_statement {atStart : Bool} (ha : StartsIn atStart a) (lead : Lead) (s : Stmt)
    (b : Text) :
    scan a (lead.text atStart ++ (s.text ++ b)) =
      (if (braceState a).inBody then [] else s.vendors) ++
        scan (a ++ (lead.text atStart ++ s.text)) b := by
  rcases s.eq_use_or_quiet with ⟨u, rfl⟩ | ⟨t, htext, hvendors, -, hquiet⟩
  · obtain ⟨a', haa', hline, hblocks, hscan⟩ := exists_line lead atStart ha (u.text ++ b)
    have hbody : (braceState a').inBody = (braceState a).inBody := congrArg (·.any id) hblocks
    have hrest : a ++ (lead.text atStart ++ u.text) = a' ++ (lead.indent.val ++ u.text) := by
      rw [← List.append_assoc, haa', List.append_assoc]
    have huse := scan_use hline lead.indent u b
    rw [List.append_assoc, hbody, ← hrest] at huse
    exact hscan.trans huse
  · have hlead := hquiet.append_left (lead.allBlank_text atStart)
    have hscan := scan_quiet hlead (x := ';') (by decide) a b
    rw [htext, hvendors, ite_self, List.nil_append]
    simp only [List.append_assoc, List.singleton_append] at hscan ⊢
    exact hscan

/-- **The head of a block** adds nothing. -/
theorem scan_head (lead : Lead) (head : Head) (gap : Blanks) (atStart : Bool) (a b : Text) :
    scan a (lead.text atStart ++ (head.text ++ (gap.val ++ '{' :: b))) =
      scan (a ++ (lead.text atStart ++ head.text ++ gap.val) ++ ['{']) b := by
  have hword : ¬HasWord "use".toList (lead.text atStart ++ head.text ++ gap.val) := fun h =>
    head.not_hasWord_use ((hasWord_surround isWord_use (lead.allBlank_text atStart) gap.2).1 h)
  have hscan := scan_quiet (quiet_of_not_hasWord hword) (x := '{') (by decide) a b
  simp only [List.append_assoc] at hscan ⊢
  exact hscan

/-- A list of items leaves the open blocks as they were. -/
theorem Items.balanced_text (items : Items) (atStart : Bool) : Balanced (items.text atStart) := by
  induction items generalizing atStart with
  | done trail => exact (isPlain_of_allBlank trail.2).balanced
  | statement lead s rest ih =>
    exact (lead.isPlain_text atStart).balanced.append (s.balanced_text.append (ih false))
  | block lead head gap inner rest ihInner ihRest =>
    have htext : (Items.block lead head gap inner rest).text atStart =
        lead.text atStart ++ (head.text ++ (gap.val ++
          ('{' :: (inner.text false ++ ['}']) ++ rest.text false))) := by
      simp [text]
    rw [htext]
    exact (lead.isPlain_text atStart).balanced.append (head.isPlain_text.balanced.append
      ((isPlain_of_allBlank gap.2).balanced.append ((ihInner false).braces.append (ihRest false))))

/-- **A list of items** adds the vendors of its tree, whatever follows it. -/
theorem scan_items (items : Items) {atStart : Bool} (ha : StartsIn atStart a)
    (hbetween : Between a) (hb : ∀ c ∈ b.head?, c ∈ stops) :
    scan a (items.text atStart ++ b) =
      items.vendors (braceState a).inBody ++ scan (a ++ items.text atStart) b := by
  have hnever (a : Text) : StartsIn false a := fun h => nomatch h
  induction items generalizing a b atStart with
  | done trail => exact scan_skip (noneIn_of_quiet (quiet_blanks trail.2) hb)
  | statement lead s rest ih =>
    let a₁ := a ++ (lead.text atStart ++ s.text)
    have hblocks := blocks_append ((lead.isPlain_text atStart).balanced.append s.balanced_text) a
    have hbody : (braceState a₁).inBody = (braceState a).inBody := congrArg (·.any id) hblocks
    have hbetween₁ : Between a₁ := by
      have := between_statement s (a ++ lead.text atStart)
      rwa [List.append_assoc] at this
    have hrest := ih (hnever a₁) hbetween₁ hb
    have hstart : (Items.statement lead s rest).text atStart ++ b =
        lead.text atStart ++ (s.text ++ (rest.text false ++ b)) := by
      simp only [Items.text, List.append_assoc]
    have hend : a₁ ++ rest.text false = a ++ (Items.statement lead s rest).text atStart := by
      simp only [a₁, Items.text, List.append_assoc]
    rw [hstart, scan_statement ha, hrest, hbody, hend, Items.vendors, List.append_assoc]
  | block lead head gap inner rest ihInner ihRest =>
    -- behind `a₁` one more block is open, behind `a₂` those that were open in front
    let a₁ := a ++ (lead.text atStart ++ head.text ++ gap.val) ++ ['{']
    let a₂ := a₁ ++ inner.text false ++ ['}']
    have hopen : braceState a₁ = ⟨[], (!head.isNamespace) :: (braceState a).blocks⟩ :=
      braceState_head hbetween lead atStart head gap
    have hclose : braceState a₂ = ⟨[], (braceState a).blocks⟩ := by
      unfold a₂
      rw [braceState_close, blocks_append (inner.balanced_text false), hopen]
      rfl
    have hbetween₁ : Between a₁ := by
      unfold Between
      rw [hopen]
      exact fun c hc => nomatch hc
    have hbetween₂ : Between a₂ := by
      unfold Between
      rw [hclose]
      exact fun c hc => nomatch hc
    have hbody₁ : (braceState a₁).inBody = ((braceState a).inBody || !head.isNamespace) := by
      rw [hopen, Bool.or_comm]
      rfl
    have hbody₂ : (braceState a₂).inBody = (braceState a).inBody :=
      hclose ▸ rfl
    have hinner : scan a₁ (inner.text false ++ '}' :: (rest.text false ++ b)) =
        inner.vendors (braceState a₁).inBody ++
          scan (a₁ ++ inner.text false) ('}' :: (rest.text false ++ b)) :=
      ihInner (hnever a₁) hbetween₁ (by simp [stops])
    have hbrace : scan (a₁ ++ inner.text false) ('}' :: (rest.text false ++ b)) =
        scan a₂ (rest.text false ++ b) := scan_skip (noneIn_stop (by decide))
    have hrest := ihRest (hnever a₂) hbetween₂ hb
    have hstart : (Items.block lead head gap inner rest).text atStart ++ b =
        lead.text atStart ++ (head.text ++ (gap.val ++
          '{' :: (inner.text false ++ '}' :: (rest.text false ++ b)))) := by
      simp only [Items.text, List.append_assoc, List.cons_append]
    have hend : a₂ ++ rest.text false =
        a ++ (Items.block lead head gap inner rest).text atStart := by
      simp only [a₂, a₁, Items.text, List.append_assoc, List.cons_append, List.nil_append]
    rw [hstart, scan_head, hinner, hbrace, hrest, hbody₁, hbody₂, hend, Items.vendors,
      List.append_assoc]

/-! ## Documents -/

theorem Stmt.hasOnly_text (s : Stmt) : HasOnly ['{', '}', ';'] s.text := by
  have hend : HasOnly ['{', '}', ';'] [';'] := hasOnly_singleton (by decide)
  rcases s.eq_use_or_quiet with ⟨u, rfl⟩ | ⟨t, ht, -, hplain, -⟩
  · have hlist : HasOnly ['{', '}', ';'] u.list :=
      fun c hc hm => List.mem_append_left [';'] (u.hasOnly_list c hc hm)
    have hgap : AllBlank u.gap.val := allBlank_of_isGap u.gap.2.2
    have hword : IsPlain "use".toList := isPlain_of_isLoose fun c hc => .inl (isWord_use.2 c hc)
    exact hword.hasOnly.append ((isPlain_of_allBlank hgap).hasOnly.append
      (hlist.append ((isPlain_of_allBlank u.trail.2).hasOnly.append hend)))
  · rw [ht]
    exact hplain.hasOnly.append hend

/-- A document has no marks of strings and comments. -/
theorem Items.hasOnly_text (items : Items) (atStart : Bool) :
    HasOnly ['{', '}', ';'] (items.text atStart) := by
  induction items generalizing atStart with
  | done trail => exact (isPlain_of_allBlank trail.2).hasOnly
  | statement lead s rest ih =>
    exact (lead.isPlain_text atStart).hasOnly.append (s.hasOnly_text.append (ih false))
  | block lead head gap inner rest ihInner ihRest =>
    have htext : (Items.block lead head gap inner rest).text atStart =
        lead.text atStart ++ (head.text ++ (gap.val ++ (['{'] ++ (inner.text false ++
          (['}'] ++ rest.text false))))) := rfl
    rw [htext]
    exact (lead.isPlain_text atStart).hasOnly.append (head.isPlain_text.hasOnly.append
      ((isPlain_of_allBlank gap.2).hasOnly.append ((hasOnly_singleton (by decide)).append
        ((ihInner false).append ((hasOnly_singleton (by decide)).append (ihRest false))))))

/-- What is all code is scanned as it stands. -/
theorem imports_eq_scan (ht : HasOnly ['{', '}', ';'] t) : php.imports t = scan [] t := by
  have hheads : ∀ m ∈ php.lexis.openers, m.head ∈ marks ∧ m.head ∉ ['{', '}', ';'] := by decide
  have hopeners : ∀ c ∈ t, ∀ m ∈ php.lexis.openers, c ≠ m.head := by
    rintro c hc m hm rfl
    obtain ⟨hmark, hfew⟩ := hheads m hm
    exact hfew (ht m.head hc hmark)
  exact imports_of_single rfl hopeners

/-- **The imports of a document** are the vendors of the use statements that no body holds, in the
order of their clauses. -/
theorem parse_items (items : Items) (atStart : Bool) :
    Parser.php.parse (items.text atStart) = .ok (items.vendors false) := by
  have hstart : StartsIn atStart [] := fun _ => rfl
  have hbetween : Between [] := fun c hc => nomatch hc
  have hscan := scan_items items (b := []) hstart hbetween (by simp)
  have himports : php.imports (items.text atStart) = items.vendors false := by
    rw [imports_eq_scan (items.hasOnly_text atStart)]
    rw [List.append_nil, scan_nil, List.append_nil] at hscan
    exact hscan
  exact congrArg Except.ok himports

end ImportScan.Php
