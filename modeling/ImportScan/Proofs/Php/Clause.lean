import ImportScan.Grammar.Php
import ImportScan.Proofs.Php.Syntax
import ImportScan.Proofs.Text.Cut
import ImportScan.Proofs.Text.TopLevel

/-!
# The clauses of a use statement

What a use statement imports is read off its clauses. A clause, with or without its kind, has the
first segment of its name as its vendor (`vendor_text`, `vendor_bare`). Its braces are closed and
hold its only commas, so the list of clauses is cut into just these (`topLevelParts_list`), and the
statement imports their vendors (`map_vendor_topLevelParts`).
-/

namespace ImportScan.Php

open Grammar Text

variable {t : Text} {c x : Char}

/-! ## Characters -/

/-- What a clause is made of outside its braces: word characters, backslashes and white space. -/
def IsLoose (c : Char) : Prop := isWord c = true ∨ c = '\\' ∨ isBlank c = true

theorem IsLoose.not_mem_marks (h : IsLoose c) : c ∉ ',' :: marks := by
  have hmarks : ∀ x ∈ ',' :: marks, isWord x = false ∧ x ≠ '\\' ∧ isBlank x = false := by
    decide +kernel
  intro hc
  obtain ⟨hw, hs, hb⟩ := hmarks c hc
  rcases h with h | h | h
  · exact absurd h (by simp [hw])
  · exact hs h
  · exact absurd h (by simp [hb])

theorem IsLoose.ne (h : IsLoose c) (hx : x ∈ ',' :: marks) : c ≠ x :=
  fun hc => h.not_mem_marks (hc ▸ hx)

theorem isPlain_of_isLoose (h : ∀ c ∈ t, IsLoose c) : IsPlain t :=
  fun c hc hm => (h c hc).not_mem_marks (List.mem_cons_of_mem _ hm)

theorem isWhole_of_isLoose (h : ∀ c ∈ t, IsLoose c) : IsWhole t :=
  isWhole_of_no_marks fun c hc =>
    ⟨(h c hc).ne (by decide), (h c hc).ne (by decide), (h c hc).ne (by decide)⟩

theorem Name.mem_text {n : Name} (h : c ∈ n.text) : isWord c = true ∨ c = '\\' := by
  rcases List.mem_append.1 h with h | h
  · exact .inl (n.first.2.2 c h)
  · obtain ⟨w, -, hc⟩ := List.mem_flatMap.1 h
    rcases List.mem_cons.1 hc with rfl | hc
    · exact .inr rfl
    · exact .inl (w.2.2 c hc)

theorem Kind.isWord_text (kind : Kind) : IsWord kind.text := by
  cases kind <;> decide

namespace Clause

variable (k : Clause)

theorem mem_path (h : c ∈ k.path) : isWord c = true ∨ c = '\\' := by
  rcases List.mem_append.1 h with h | h
  · rcases List.mem_append.1 h with h | h
    · split at h
      · exact .inr (List.mem_singleton.1 h)
      · cases h
    · exact Name.mem_text h
  · split at h
    · exact .inr (List.mem_singleton.1 h)
    · cases h

theorem isBlank_of_mem_path (h : c ∈ k.path) : isBlank c = false := by
  rcases k.mem_path h with h | rfl
  · exact isBlank_eq_false_of_isWord h
  · decide

theorem isLoose_of_mem_kindText (h : c ∈ k.kindText) : IsLoose c := by
  unfold kindText at h
  split at h
  · cases h
  · rename_i kind space _
    rcases List.mem_append.1 h with h | h
    · exact .inl (kind.isWord_text.2 c h)
    · exact .inr (.inr (space.2.2 c h))

theorem isLoose_of_mem_path (h : c ∈ k.path) : IsLoose c :=
  (k.mem_path h).imp id .inl

theorem isLoose_of_mem_newNameText (h : c ∈ k.newNameText) : IsLoose c := by
  have hword : IsWord "as".toList := by decide
  unfold newNameText at h
  split at h
  · cases h
  · rename_i before after w _
    rcases List.mem_append.1 h with h | h
    · exact .inr (.inr (before.2.2 c h))
    rcases List.mem_append.1 h with h | h
    · exact .inl (hword.2 c h)
    rcases List.mem_append.1 h with h | h
    · exact .inr (.inr (after.2.2 c h))
    · exact .inl (w.2.2 c h)

/-! ## The ends of a clause -/

theorem path_ne_nil : k.path ≠ [] := by
  intro h
  have hname : k.name.first.val = [] := by simp_all [path, Name.text]
  exact k.name.first.2.1 hname

theorem bare_ne_nil : k.bare ≠ [] := by
  simp [bare, k.path_ne_nil]

theorem text_ne_nil : k.text ≠ [] := by
  simp [text, k.bare_ne_nil]

theorem isBlank_getLast?_bare : ∀ c ∈ k.bare.getLast?, isBlank c = false := by
  refine forall_getLast?_append ?_ (forall_getLast?_append ?_ ?_)
  · exact fun c hc => k.isBlank_of_mem_path (List.mem_of_getLast? hc)
  · unfold groupText
    split
    · simp
    · rw [← List.cons_append]
      refine forall_getLast?_append_of_ne_nil (List.cons_ne_nil _ _) ?_
      rintro c ⟨⟩
      decide
  · unfold newNameText
    split
    · simp
    · rename_i before after w _
      rw [← List.append_assoc, ← List.append_assoc]
      refine forall_getLast?_append_of_ne_nil w.2.1 fun c hc => ?_
      exact isBlank_eq_false_of_isWord (w.2.2 c (List.mem_of_getLast? hc))

theorem isTrimmed_bare : IsTrimmed k.bare :=
  ⟨forall_head?_append_of_ne_nil k.path_ne_nil fun _ => k.isBlank_of_mem_path,
    k.isBlank_getLast?_bare⟩

/-- A clause starts with a backslash or a word. -/
theorem start_text : ∀ c ∈ k.text.head?, (c == '\\' || isWord c) = true := by
  have hbare : ∀ c ∈ k.bare.head?, (c == '\\' || isWord c) = true := by
    refine forall_head?_append_of_ne_nil k.path_ne_nil fun c hc => ?_
    rcases k.mem_path hc with h | rfl
    · simp [h]
    · rfl
  unfold text kindText
  split
  · exact hbare
  · rename_i kind space _
    have hkind := kind.isWord_text
    rw [List.append_assoc]
    exact forall_head?_append_of_ne_nil hkind.1 fun c hc => by simp [hkind.2 c hc]

theorem isTrimmed_text : IsTrimmed k.text := by
  refine ⟨?_, forall_getLast?_append_of_ne_nil k.bare_ne_nil k.isBlank_getLast?_bare⟩
  intro c hc
  rcases Bool.or_eq_true_iff.1 (k.start_text c hc) with h | h
  · rw [eq_of_beq h]
    decide
  · exact isBlank_eq_false_of_isWord h

/-! ## A clause in a list -/

/-- The only marks of a clause are its braces. -/
theorem hasOnly_text : HasOnly ['{', '}'] k.text := by
  have hloose {t : Text} (h : ∀ c ∈ t, IsLoose c) : HasOnly ['{', '}'] t :=
    (isPlain_of_isLoose h).hasOnly
  have hgroup : HasOnly ['{', '}'] k.groupText := by
    unfold groupText
    split
    · exact fun c hc => nomatch hc
    · rename_i inner _
      rw [← List.singleton_append]
      exact (hasOnly_singleton (by decide)).append
        (inner.2.hasOnly.append (hasOnly_singleton (by decide)))
  exact (hloose fun _ => k.isLoose_of_mem_kindText).append
    ((hloose fun _ => k.isLoose_of_mem_path).append
      (hgroup.append (hloose fun _ => k.isLoose_of_mem_newNameText)))

theorem isWhole_bare : IsWhole k.bare := by
  refine (isWhole_of_isLoose fun _ => k.isLoose_of_mem_path).append (IsWhole.append ?_ ?_)
  · unfold groupText
    split
    · exact isWhole_of_isLoose fun c hc => nomatch hc
    · rename_i inner _
      refine isWhole_braces fun c hc => ?_
      have := inner.2 c hc
      simp only [marks, List.mem_cons, not_or] at this
      exact ⟨this.1, this.2.1⟩
  · exact isWhole_of_isLoose fun _ => k.isLoose_of_mem_newNameText

theorem isWhole_text : IsWhole k.text :=
  (isWhole_of_isLoose fun _ => k.isLoose_of_mem_kindText).append k.isWhole_bare

end Clause

/-! ## The kind of a clause -/

/-- What follows a word and white space. -/
def dropWord? (w t : Text) : Option Text :=
  if w.isPrefixOf t then
    match t.drop w.length with
    | c :: rest => if isBlank c then some (trimStart rest) else none
    | [] => none
  else none

theorem dropKind_eq (t : Text) :
    dropKind t =
      (dropWord? Kind.function.text t <|> dropWord? Kind.const.text t).getD t := rfl

theorem dropWord?_append (w : Text) (space : Spaces) (ht : ∀ c ∈ t.head?, isBlank c = false) :
    dropWord? w (w ++ (space.val ++ t)) = some t := by
  obtain ⟨b, hne, hb⟩ := space
  obtain ⟨c, b, rfl⟩ := List.exists_cons_of_ne_nil hne
  have hrest : AllBlank b := fun d hd => hb d (List.mem_cons_of_mem c hd)
  unfold dropWord?
  rw [if_pos (List.isPrefixOf_iff_prefix.2 (List.prefix_append _ _)), List.drop_left]
  simp only [List.cons_append, hb c List.mem_cons_self, if_true]
  rw [trimStart_blanks_append hrest, trimStart_eq_self ht]

/-- A text that starts with another word does not start with the word. -/
theorem dropWord?_eq_none {w v : Text} (hw : IsWord w) (hv : IsWord v) (hne : v ≠ w)
    (ht : t.StartsApart) : dropWord? w (v ++ t) = none := by
  unfold dropWord?
  split
  · rename_i hpre
    obtain ⟨r, hr⟩ := List.isPrefixOf_iff_prefix.1 hpre
    rw [← hr, List.drop_left]
    -- white space behind the word would end the other one there too
    cases r with
    | nil => rfl
    | cons c r =>
      cases hc : isBlank c with
      | false => simp [hc]
      | true =>
        have hapart : StartsApart (c :: r) := by
          rintro d ⟨⟩
          exact isWord_eq_false_of_isBlank hc
        exact absurd (hw.append_inj hv hapart ht hr).1.symm hne
  · rfl

/-- The kind is dropped, the white space behind it included. -/
theorem dropKind_kind (kind : Kind) (space : Spaces) (ht : ∀ c ∈ t.head?, isBlank c = false) :
    dropKind (kind.text ++ space.val ++ t) = t := by
  have hapart : StartsApart (space.val ++ t) :=
    forall_head?_append_of_ne_nil space.2.1 fun c hc => isWord_eq_false_of_isBlank (space.2.2 c hc)
  rw [dropKind_eq, List.append_assoc]
  cases kind with
  | function => rw [dropWord?_append _ space ht]; rfl
  | const =>
    have hne : Kind.const.text ≠ Kind.function.text := by decide
    rw [dropWord?_eq_none (Kind.isWord_text _) (Kind.isWord_text _) hne hapart,
      dropWord?_append _ space ht]
    rfl

/-- Nothing is dropped in front of another word. -/
theorem dropKind_of_isWord {w : Text} (hw : IsWord w) (h : w ∉ reserved) (ht : t.StartsApart) :
    dropKind (w ++ t) = w ++ t := by
  have hne (kind : Kind) : w ≠ kind.text := by
    rintro rfl
    cases kind <;> exact h (by decide)
  rw [dropKind_eq, dropWord?_eq_none (Kind.isWord_text _) hw (hne _) ht,
    dropWord?_eq_none (Kind.isWord_text _) hw (hne _) ht]
  rfl

theorem dropKind_backslash (t : Text) : dropKind ('\\' :: t) = '\\' :: t := by
  have hnone (kind : Kind) : dropWord? kind.text ('\\' :: t) = none := by
    cases kind <;> rfl
  rw [dropKind_eq, hnone, hnone]
  rfl

namespace Clause

variable (k : Clause)

/-- The clause behind the first segment of its name. -/
def tail : Text :=
  (k.name.others.flatMap fun w => '\\' :: w.val) ++
    ((if k.group.isSome then ['\\'] else []) ++ (k.groupText ++ k.newNameText))

theorem bare_eq : k.bare = (if k.rooted then ['\\'] else []) ++ (k.vendor ++ k.tail) := by
  simp [bare, path, Name.text, tail, vendor]

theorem startsApart_tail : k.tail.StartsApart := by
  have hslash : isWord '\\' = false := by decide
  have hbrace : isWord '{' = false := by decide
  refine forall_head?_append ?_ (forall_head?_append ?_ (forall_head?_append ?_ ?_))
  · cases k.name.others <;> simp [hslash]
  · split <;> simp [hslash]
  · unfold groupText
    split <;> simp [hbrace]
  · unfold newNameText
    split
    · simp
    · rename_i before after w _
      exact forall_head?_append_of_ne_nil before.2.1 fun c hc =>
        isWord_eq_false_of_isBlank (before.2.2 c hc)

theorem dropKind_bare (ht : t.StartsApart) : dropKind (k.bare ++ t) = k.bare ++ t := by
  rw [bare_eq]
  cases k.rooted with
  | true => exact dropKind_backslash _
  | false =>
    simp only [Bool.false_eq_true, if_false, List.nil_append]
    rw [List.append_assoc]
    exact dropKind_of_isWord k.name.first.2 k.not_reserved
      (forall_head?_append k.startsApart_tail ht)

theorem dropKind_text (ht : t.StartsApart) : dropKind (k.text ++ t) = k.bare ++ t := by
  unfold text kindText
  split
  · exact k.dropKind_bare ht
  · rename_i kind space _
    have hstart : ∀ c ∈ (k.bare ++ t).head?, isBlank c = false := by
      rw [bare, List.append_assoc]
      exact forall_head?_append_of_ne_nil k.path_ne_nil fun _ => k.isBlank_of_mem_path
    rw [List.append_assoc]
    exact dropKind_kind kind space hstart

/-! ## The vendor of a clause -/

/-- The path of a clause is its first word without what stands in braces. -/
theorem words_before_bare : ∃ rest, words (before ['{'] k.bare) = k.path :: rest := by
  have hpath : '{' ∉ k.path := fun h => (k.isLoose_of_mem_path h).ne (by decide) rfl
  have hrest : ∀ c ∈ (before ['{'] (k.groupText ++ k.newNameText)).head?, isBlank c = true := by
    unfold groupText
    split
    · have hname : '{' ∉ k.newNameText :=
        fun h => (k.isLoose_of_mem_newNameText h).ne (by decide) rfl
      rw [List.nil_append, before_eq_self hname]
      unfold newNameText
      split
      · simp
      · rename_i before after w _
        exact forall_head?_append_of_ne_nil before.2.1 before.2.2
    · rw [List.cons_append, before_cons_self]
      simp
  rw [bare, before_append hpath, words_append k.path_ne_nil (fun _ => k.isBlank_of_mem_path) hrest]
  exact ⟨_, rfl⟩

/-- The first segment of the path, behind the leading backslash. -/
theorem before_path : before ['\\'] (k.path.dropWhile (· == '\\')) = k.vendor := by
  let others := (k.name.others.flatMap fun w => '\\' :: w.val) ++
    if k.group.isSome then ['\\'] else []
  have hpath : k.path = (if k.rooted then ['\\'] else []) ++ (k.vendor ++ others) := by
    simp [path, Name.text, vendor, others]
  have hvendor : '\\' ∉ k.vendor := fun h => absurd (k.name.first.2.2 _ h) (by decide)
  obtain ⟨c, w, hw⟩ : ∃ c w, k.vendor = c :: w := List.exists_cons_of_ne_nil k.name.first.2.1
  have hc : ¬(c == '\\') = true := by
    intro hc
    exact hvendor (by rw [hw, eq_of_beq hc]; exact List.mem_cons_self)
  have hrooted : ∀ c ∈ (if k.rooted then ['\\'] else []), (c == '\\') = true := by
    split <;> simp
  have hothers : before ['\\'] others = [] := by
    unfold others
    cases k.name.others with
    | nil => split <;> simp [before_cons_self]
    | cons w others => rw [List.flatMap_cons, List.cons_append, List.cons_append, before_cons_self]
  rw [hpath, List.dropWhile_append_of_pos hrooted, hw, List.cons_append,
    List.dropWhile_cons_of_neg (p := (· == '\\')) hc, ← List.cons_append, ← hw,
    before_append hvendor, hothers, List.append_nil]

theorem vendor_bare : Grammar.vendor k.bare = k.vendor := by
  have hkind := k.dropKind_bare (t := []) (fun c hc => nomatch hc)
  rw [List.append_nil] at hkind
  obtain ⟨rest, hwords⟩ := k.words_before_bare
  rw [Grammar.vendor, hkind, hwords]
  exact k.before_path

theorem vendor_text : Grammar.vendor k.text = k.vendor := by
  have hkind := k.dropKind_text (t := []) (fun c hc => nomatch hc)
  have hkind' := k.dropKind_bare (t := []) (fun c hc => nomatch hc)
  rw [List.append_nil, List.append_nil] at hkind
  rw [List.append_nil] at hkind'
  rw [← vendor_bare, Grammar.vendor, hkind, Grammar.vendor, hkind']

end Clause

/-! ## The clauses of a list -/

theorem isBlank_getLast?_further (f : Further isBlank Clause) :
    ∀ c ∈ (f.text Clause.text).getLast?, isBlank c = false := by
  unfold Further.text
  rw [List.append_cons, ← List.append_assoc]
  exact forall_getLast?_append_of_ne_nil f.clause.text_ne_nil f.clause.isTrimmed_text.stop

/-- A list is cut at the commas between its clauses. -/
theorem map_trim_rawParts {w : Text} (hw : IsWhole w) (others : List (Further isBlank Clause)) :
    (rawParts .braced 0 (w ++ others.flatMap (Further.text Clause.text))).map trim =
      trim w :: others.map (·.clause.text) := by
  have hclauses := map_trim_rawParts_clauses (u := []) (fun _ => id) Clause.isWhole_text
    Clause.isTrimmed_text hw (fun c hc => nomatch hc) others
  rwa [List.append_nil] at hclauses

namespace Use

variable (u : Use)

theorem startsApart_others : StartsApart (u.others.flatMap (Further.text Clause.text)) := by
  cases u.others with
  | nil => simp [StartsApart]
  | cons f others =>
    rw [List.flatMap_cons, Further.text, List.append_assoc]
    refine forall_head?_append ?_ ?_
    · exact fun c hc => isWord_eq_false_of_isBlank (f.before.2 c (List.mem_of_head? hc))
    · rintro c ⟨⟩
      decide

/-- The only marks of a list are the braces of its clauses. -/
theorem hasOnly_list : HasOnly ['{', '}'] u.list := by
  have hblanks (b : Blanks) : HasOnly ['{', '}'] b.val :=
    (isPlain_of_isLoose fun c hc => .inr (.inr (b.2 c hc))).hasOnly
  refine u.first.hasOnly_text.append ?_
  induction u.others with
  | nil => exact fun c hc => nomatch hc
  | cons f others ih =>
    have hcomma : HasOnly ['{', '}'] [','] := fun c hc hm => by
      rw [List.mem_singleton.1 hc] at hm
      exact absurd hm (by decide)
    exact HasOnly.append ((hblanks f.before).append (hcomma.append
      ((hblanks f.after).append f.clause.hasOnly_text))) ih

theorem isTrimmed_list : IsTrimmed u.list := by
  obtain ⟨c, t, hfirst⟩ := List.exists_cons_of_ne_nil u.first.text_ne_nil
  refine ⟨?_, forall_getLast?_append u.first.isTrimmed_text.stop ?_⟩
  · have hstart := u.first.isTrimmed_text.start
    unfold list
    rw [hfirst] at hstart ⊢
    exact hstart
  · induction u.others with
    | nil => simp
    | cons f others ih => exact forall_getLast?_append (isBlank_getLast?_further f) ih

/-- The clauses are the members of the list. -/
theorem topLevelParts_list :
    topLevelParts .braced (dropKind (trim (u.list ++ u.trail.val))) =
      u.first.bare :: u.others.map (·.clause.text) := by
  have hne : ∀ t ∈ u.first.bare :: u.others.map (·.clause.text), (!t.isEmpty) = true := by
    intro t ht
    rcases List.mem_cons.1 ht with rfl | ht
    · simp [u.first.bare_ne_nil]
    · obtain ⟨f, -, rfl⟩ := List.mem_map.1 ht
      simp [f.clause.text_ne_nil]
  rw [trim_append_blanks u.trail.2, trim_eq_self u.isTrimmed_list, list,
    u.first.dropKind_text u.startsApart_others, topLevelParts,
    map_trim_rawParts u.first.isWhole_bare, trim_eq_self u.first.isTrimmed_bare,
    List.filter_eq_self.2 hne]

/-- A use statement imports the vendors of its clauses. -/
theorem map_vendor_topLevelParts :
    ((topLevelParts .braced (dropKind (trim (u.list ++ u.trail.val)))).map
      Grammar.vendor).filter (!·.isEmpty) = u.clauses.map (·.vendor) := by
  have hvendors : (u.others.map (·.clause.text)).map Grammar.vendor =
      (u.others.map (·.clause)).map (·.vendor) := by
    rw [List.map_map, List.map_map]
    exact List.map_congr_left fun f _ => f.clause.vendor_text
  have hne : ∀ v ∈ u.clauses.map (·.vendor), (!v.isEmpty) = true := by
    intro v hv
    obtain ⟨k, -, rfl⟩ := List.mem_map.1 hv
    have := k.name.first.2.1
    simpa [Clause.vendor] using this
  rw [topLevelParts_list, List.map_cons, Clause.vendor_bare, hvendors]
  exact List.filter_eq_self.2 hne

end Use

end ImportScan.Php
