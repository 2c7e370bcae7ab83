import ImportScan.Grammar.Rust
import ImportScan.Proofs.Rust.Syntax
import ImportScan.Proofs.Text.TopLevel

/-!
# The roots of a use tree

Once its white space is collapsed, a tree without the colons in front is an item or stands in
braces. A group of any depth leaves the depth of the braces as it was (`Tree.isLevel`), so the
members of the outermost braces are told apart (`Members.topLevelParts_textBy`), and the root of an
item is the first word of its first segment (`Tree.root?_eq`).
-/

namespace ImportScan.Rust

open Grammar Text

/-! ## Braces -/

theorem isLevel_blanks {b : Text} (hb : AllBlank b) : IsLevel b := by
  refine isLevel_of_no_marks fun c hc => ?_
  refine ⟨?_, ?_, ?_⟩ <;> rintro rfl <;> exact absurd (hb _ hc) (by decide)

theorem isLevel_word (w : Word) : IsLevel w.val := by
  refine isLevel_of_no_marks fun c hc => ?_
  refine ⟨?_, ?_, ?_⟩ <;> rintro rfl <;> exact absurd (w.2.2 _ hc) (by decide)

theorem isLevel_colons : IsLevel [':', ':'] := isLevel_of_no_marks (by decide)

theorem isLevel_space (b : Text) : IsLevel (space b) := isLevel_blanks (allBlank_space b)

theorem Lead.isLevel (lead : Lead) : IsLevel (lead.textBy space) := by
  cases lead with
  | none => exact isLevel_of_no_marks fun c hc => nomatch hc
  | some b => exact isLevel_colons.append (isLevel_space _)

theorem Path.isLevel (p : Path) : IsLevel (p.textBy space) := by
  refine (isLevel_word p.root).append ?_
  induction p.steps with
  | nil => exact isLevel_of_no_marks fun c hc => nomatch hc
  | cons s steps ih =>
    have hstep : IsLevel (s.textBy space) := (isLevel_space _).append
      (isLevel_colons.append ((isLevel_space _).append (isLevel_word s.name)))
    exact hstep.append ih

mutual

theorem Tree.isLevel : ∀ t : Tree, IsLevel (t.textBy space)
  | .item lead path tail => lead.isLevel.append (path.isLevel.append tail.isLevel)
  | .group lead members => lead.isLevel.append members.isInner.braces

theorem Tail.isLevel : ∀ t : Tail, IsLevel (t.textBy space)
  | .nothing => isLevel_of_no_marks fun c hc => nomatch hc
  | .all before after => (isLevel_space _).append (isLevel_colons.append
      ((isLevel_space _).append (isLevel_of_no_marks (by decide))))
  | .renamed before after name => (isLevel_space _).append ((isLevel_of_no_marks (by decide)).append
      ((isLevel_space _).append (isLevel_word name)))
  | .group before after members => (isLevel_space _).append (isLevel_colons.append
      ((isLevel_space _).append members.isInner.braces))

theorem Members.isInner : ∀ ms : Members, IsInner (ms.textBy space)
  | .nothing blanks => (isLevel_space _).isInner
  | .last before tree after => (isLevel_space _).isInner.append
      (tree.isLevel.isInner.append (isLevel_space _).isInner)
  | .more before tree after others => (isLevel_space _).isInner.append
      (tree.isLevel.isInner.append ((isLevel_space _).isInner.append
        ((isInner_of_no_braces (by decide)).append others.isInner)))

end

/-! ## Members -/

/-- The trees among the members. -/
def Members.trees : Members → List Tree
  | .nothing _ => []
  | .last _ tree _ => [tree]
  | .more _ tree _ others => tree :: others.trees

theorem Members.roots_eq (ms : Members) : ms.roots = ms.trees.flatMap fun t => t.root?.toList := by
  fun_induction Members.roots ms with
  | case1 => rfl
  | case2 => simp [Members.trees]
  | case3 before tree after others ih => rw [ih, Members.trees, List.flatMap_cons]

theorem Tail.endsSolid {f : Text → Text} {t : Text} (tail : Tail)
    (ht : ∀ c ∈ t.getLast?, isBlank c = false) :
    ∀ c ∈ (t ++ tail.textBy f).getLast?, isBlank c = false := by
  have hsolid {w : Text} (hw : IsSolid w) (u : Text) :
      ∀ c ∈ (u ++ w).getLast?, isBlank c = false :=
    forall_getLast?_append_of_ne_nil hw.1 fun c hc => hw.2 c (List.mem_of_getLast? hc)
  cases tail with
  | nothing => rwa [Tail.textBy, List.append_nil]
  | all before after =>
    simp only [Tail.textBy, ← List.append_assoc]
    exact hsolid (by decide) _
  | renamed before after name =>
    simp only [Tail.textBy, ← List.append_assoc]
    exact hsolid (isSolid_word name) _
  | group before after members =>
    simp only [Tail.textBy, ← List.append_assoc]
    exact hsolid (by decide) _

theorem Path.endsSolid {f : Text → Text} (p : Path) :
    ∀ c ∈ (p.textBy f).getLast?, isBlank c = false := by
  have hword (w : Word) (u : Text) : ∀ c ∈ (u ++ w.val).getLast?, isBlank c = false :=
    forall_getLast?_append_of_ne_nil w.2.1 fun c hc =>
      (isSolid_word w).2 c (List.mem_of_getLast? hc)
  rcases List.eq_nil_or_concat p.steps with hnil | ⟨steps, s, hsteps⟩
  · rw [Path.textBy, hnil, List.flatMap_nil, List.append_nil]
    exact hword p.root []
  · rw [Path.textBy, hsteps, List.concat_eq_append, List.flatMap_append, List.flatMap_singleton,
      Step.textBy]
    simp only [← List.append_assoc]
    exact hword s.name _

/-! ## Without the colons in front -/

/-- The colons in front of the tree. -/
def Tree.lead : Tree → Lead
  | .item lead _ _ => lead
  | .group lead _ => lead

/-- The tree without the colons in front. -/
def Tree.core : Tree → Text
  | .item _ path tail => path.textBy space ++ tail.textBy space
  | .group _ members => '{' :: (members.textBy space ++ ['}'])

theorem Tree.textBy_eq (t : Tree) : t.textBy space = t.lead.textBy space ++ t.core := by
  cases t <;> rfl

theorem Tree.exists_core_cons (t : Tree) :
    ∃ x r, t.core = x :: r ∧ x ≠ ':' ∧ isBlank x = false := by
  cases t with
  | item lead path tail =>
    obtain ⟨x, w, hw⟩ := List.exists_cons_of_ne_nil path.root.2.1
    have hx : isWord x = true := path.root.2.2 x (hw ▸ List.mem_cons_self)
    refine ⟨x, w ++ path.steps.flatMap (Step.textBy space) ++ tail.textBy space, ?_, ?_,
      isBlank_eq_false_of_isWord hx⟩
    · rw [core, Path.textBy, hw, List.cons_append, List.cons_append]
    · rintro rfl
      exact absurd hx (by decide)
  | group lead members => exact ⟨'{', _, rfl, by decide, by decide⟩

theorem Tree.getLast?_core (t : Tree) : ∀ c ∈ t.core.getLast?, isBlank c = false := by
  cases t with
  | item lead path tail => exact tail.endsSolid path.endsSolid
  | group lead members =>
    rw [core, ← List.cons_append]
    intro c hc
    rw [List.getLast?_concat] at hc
    exact Option.some.inj hc ▸ by decide

theorem Tree.isTrimmed (t : Tree) : IsTrimmed (t.textBy space) where
  start := by
    obtain ⟨x, r, hxr, hx⟩ := (t.startsSolid (f := space) []).exists_cons
    rw [List.append_nil] at hxr
    rw [hxr]
    intro c hc
    exact Option.some.inj hc ▸ hx
  stop := by
    obtain ⟨x, r, hcore, -⟩ := t.exists_core_cons
    rw [t.textBy_eq]
    exact forall_getLast?_append_of_ne_nil (hcore ▸ List.cons_ne_nil x r) t.getLast?_core

/-- A member of a list in braces is its tree. -/
theorem Members.topLevelParts_textBy (ms : Members) :
    topLevelParts .braced (ms.textBy space) = ms.trees.map (Tree.textBy space) := by
  have hwhole (before : Blanks) (tree : Tree) (after : Blanks) :
      IsWhole (space before.val ++ (tree.textBy space ++ space after.val)) :=
    ((isLevel_space _).append (tree.isLevel.append (isLevel_space _))).isWhole
  have hpiece (before : Blanks) (tree : Tree) (after : Blanks) :
      trim (space before.val ++ (tree.textBy space ++ space after.val)) = tree.textBy space := by
    rw [trim_blanks_append (allBlank_space _), trim_append_blanks (allBlank_space _),
      trim_eq_self tree.isTrimmed]
  have hkeep (tree : Tree) (ts : List Text) : (tree.textBy space :: ts).filter (!·.isEmpty) =
      tree.textBy space :: ts.filter (!·.isEmpty) := by
    obtain ⟨x, r, hcore, -⟩ := tree.exists_core_cons
    exact List.filter_cons_of_pos (by simp [tree.textBy_eq, hcore])
  induction ms using Members.trees.induct with
  | case1 blanks =>
    have hblank : trim (space blanks.val) = [] := by
      have := trim_blanks_append (allBlank_space blanks.val) []
      rwa [List.append_nil] at this
    rw [textBy, topLevelParts, (isLevel_space _).isWhole.rawParts_eq, List.map_singleton, hblank]
    rfl
  | case2 before tree after =>
    rw [textBy, topLevelParts, (hwhole before tree after).rawParts_eq, List.map_singleton,
      hpiece, hkeep]
    rfl
  | case3 before tree after others ih =>
    have htext : textBy space (.more before tree after others) =
        space before.val ++ (tree.textBy space ++ space after.val) ++
          ',' :: others.textBy space := by
      simp only [textBy, List.append_assoc, List.cons_append, List.nil_append]
    rw [htext, topLevelParts, (hwhole before tree after).rawParts_comma, List.map_cons, hpiece,
      hkeep]
    exact congrArg _ ih

/-! ## Roots -/

/-- In front of two colons, white space ends the word before it. -/
theorem head?_before_colons (b r : Text) :
    ∀ c ∈ (before [':', ':'] (space b ++ ([':', ':'] ++ r))).head?, isBlank c = true := by
  have hcolon : ':' ∉ space b := fun h => absurd (allBlank_space b _ h) (by decide)
  have hnil : before [':', ':'] ([':', ':'] ++ r) = [] := by
    rw [List.cons_append, before, if_pos (by simp)]
  rw [before_append_of_head rfl hcolon, hnil, List.append_nil]
  exact fun c hc => allBlank_space b c (List.mem_of_head? hc)

theorem Path.head?_before (p : Path) (tail : Tail) : ∀ c ∈ (before [':', ':']
    (p.steps.flatMap (Step.textBy space) ++ tail.textBy space)).head?, isBlank c = true := by
  cases p.steps with
  | cons s steps =>
    simp only [List.flatMap_cons, Step.textBy, List.append_assoc]
    exact head?_before_colons _ _
  | nil =>
    rw [List.flatMap_nil, List.nil_append]
    cases tail with
    | nothing => exact fun c hc => absurd hc (Option.not_mem_none c)
    | all before after => exact head?_before_colons _ _
    | group before after members => exact head?_before_colons _ _
    | renamed before after name =>
      have hcolon : ':' ∉ space before.val := fun h => absurd (allBlank_space _ _ h) (by decide)
      rw [Tail.textBy, before_append_of_head rfl hcolon]
      exact forall_head?_append_of_ne_nil (space_ne_nil before.2.1) (allBlank_space _)

/-- The colons in front of a path are left out. -/
theorem dropWhile_colons (t : Tree) : ∃ b, AllBlank b ∧
    (t.textBy space).dropWhile (· == ':') = b ++ t.core ∧
    t.core.dropWhile (· == ':') = t.core := by
  obtain ⟨x, r, hcore, hx, -⟩ := t.exists_core_cons
  have hself : t.core.dropWhile (· == ':') = t.core := by
    rw [hcore, List.dropWhile_cons_of_neg (by simpa using hx)]
  rw [t.textBy_eq]
  cases t.lead with
  | none => exact ⟨[], fun c hc => (nomatch hc), hself, hself⟩
  | some b =>
    refine ⟨space b.val, allBlank_space _, ?_, hself⟩
    have hdrop : (space b.val ++ t.core).dropWhile (· == ':') = space b.val ++ t.core := by
      unfold space
      split
      · exact hself
      · exact List.dropWhile_cons_of_neg (by decide)
    rw [Lead.textBy, List.append_assoc]
    exact hdrop

/-- The first word of the first segment of a tree, behind white space. -/
theorem Tree.isForeignRoot_core (t : Tree) {b : Text} (hb : AllBlank b) :
    [((words (before [':', ':'] (b ++ t.core))).head?).getD []].filter isForeignRoot =
      t.root?.toList.filter (· ∉ Declaration.ownRoots) := by
  have hcolon : ':' ∉ b := fun h => absurd (hb _ h) (by decide)
  rw [before_append_of_head rfl hcolon, words_blanks_append hb]
  cases t with
  | item lead path tail =>
    have hroot : ':' ∉ path.root.val := fun h => absurd (path.root.2.2 _ h) (by decide)
    have hne : path.root.val.isEmpty = false := List.isEmpty_eq_false_iff.2 path.root.2.1
    have hhead : (path.root.val.head? != some '{') = true := bne_iff_ne.2 fun h =>
      absurd (path.root.2.2 _ (List.mem_of_head? h)) (by decide)
    have hforeign : isForeignRoot path.root.val =
        decide (path.root.val ∉ Declaration.ownRoots) := by
      have hlocal : localRoots.contains path.root.val =
          decide (path.root.val ∈ Declaration.ownRoots) := List.contains_eq_mem _ _
      rw [isForeignRoot, hlocal, hne, hhead]
      simp
    rw [core, Path.textBy, List.append_assoc, before_append_of_head rfl hroot,
      words_append path.root.2.1 (isSolid_word path.root).2 (path.head?_before tail),
      List.head?_cons, Option.getD_some, root?, Option.toList_some, List.filter_cons,
      List.filter_cons, hforeign]
    rfl
  | group lead members =>
    -- the first word starts with the brace
    have hbefore : before [':', ':'] (core (.group lead members)) =
        '{' :: before [':', ':'] (members.textBy space ++ ['}']) := by
      rw [core, before, if_neg (by simp)]
    obtain ⟨w, ws, hwords⟩ := exists_words_cons_self (x := '{') (by decide)
      (before [':', ':'] (members.textBy space ++ ['}']))
    rw [hbefore, hwords]
    rfl

theorem Tree.filter_pathRoot (t : Tree) :
    [pathRoot (t.textBy space)].filter isForeignRoot =
      t.root?.toList.filter (· ∉ Declaration.ownRoots) := by
  obtain ⟨b, hb, hdrop, -⟩ := dropWhile_colons t
  rw [pathRoot, hdrop]
  exact t.isForeignRoot_core hb

theorem Tree.filter_pathRoot_core (t : Tree) : [pathRoot t.core].filter isForeignRoot =
    t.root?.toList.filter (· ∉ Declaration.ownRoots) := by
  obtain ⟨b, -, -, hdrop⟩ := dropWhile_colons t
  rw [pathRoot, hdrop]
  exact t.isForeignRoot_core (b := []) fun c hc => nomatch hc

/-- The colons in front of a tree are removed. -/
theorem Tree.remove_lead (t : Tree) :
    (if [':', ':'].isPrefixOf (t.textBy space) then trimStart ((t.textBy space).drop 2)
      else t.textBy space) = t.core := by
  obtain ⟨x, r, hcore, hx, hsolid⟩ := t.exists_core_cons
  rw [t.textBy_eq]
  cases t.lead with
  | none =>
    rw [if_neg]
    · rfl
    · rw [Lead.textBy, List.nil_append, hcore]
      simp [Ne.symm hx]
  | some b =>
    have hdrop : (Lead.textBy space (some b) ++ t.core).drop 2 = space b.val ++ t.core := rfl
    rw [if_pos (by simp [Lead.textBy]), hdrop, trimStart_blanks_append (allBlank_space _),
      hcore, trimStart_eq_self]
    intro c hc
    exact Option.some.inj hc ▸ hsolid

/-- What is read off a text that is the tree, but for white space. -/
theorem Tree.roots_eq (t : Tree) {body : Text}
    (hbody : join [' '] (words body) = t.textBy space) :
    ((treeItems body).map pathRoot).filter isForeignRoot =
      t.roots.filter (· ∉ Declaration.ownRoots) := by
  have hitems : treeItems body =
      if t.core.head? = some '{' ∧ t.core.getLast? = some '}' then
        topLevelParts .braced (t.core.drop 1).dropLast
      else [t.core] := by
    rw [treeItems, hbody, t.remove_lead]
  cases t with
  | item lead path tail =>
    have hhead : (core (.item lead path tail)).head? ≠ some '{' := by
      intro h
      obtain ⟨x, w, hw⟩ := List.exists_cons_of_ne_nil path.root.2.1
      rw [core, Path.textBy, hw] at h
      have hx : x = '{' := Option.some.inj h
      exact absurd (path.root.2.2 x (hw ▸ List.mem_cons_self)) (hx ▸ by decide)
    rw [hitems, if_neg fun h => hhead h.1, List.map_singleton]
    exact Tree.filter_pathRoot_core (.item lead path tail)
  | group lead members =>
    have hinner : ((core (.group lead members)).drop 1).dropLast = members.textBy space := by
      rw [core, List.drop_succ_cons, List.drop_zero, List.dropLast_concat]
    have hlast : (core (.group lead members)).getLast? = some '}' := by
      rw [core, ← List.cons_append, List.getLast?_concat]
    rw [hitems, if_pos ⟨rfl, hlast⟩, hinner, members.topLevelParts_textBy, roots, members.roots_eq]
    induction members.trees with
    | nil => rfl
    | cons tree trees ih =>
      have htree := tree.filter_pathRoot
      rw [List.map_cons, List.map_cons, List.flatMap_cons, List.filter_append, ← htree, ← ih,
        ← List.filter_append]
      rfl

end ImportScan.Rust
