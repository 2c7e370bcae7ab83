import ImportScan.Proofs.Pattern.Replaced
import ImportScan.Proofs.Python.Reading

/-!
# The names that imports give

The list of modules of an import is read in three steps: continued line ends become spaces
(`ModuleImport.flattens`), other names are left out (`ModuleImport.turns_bare`), and what stands
between the commas is trimmed and cut at its first dot (`absolutePackages_others`).
-/

namespace ImportScan.Python

open Grammar Pattern Text

variable {s m e : Point Part} {a b t rest : Text} {x : Char}

/-! ## Without line ends -/

/-- The piece, or a space if it is the end of a line. -/
def GapPiece.flat : GapPiece → GapPiece
  | blank c h => blank c h
  | continued => blank ' ' rfl

/-- The gap with spaces for its line ends. -/
def Gap.flat (g : Gap) : Gap := g.map GapPiece.flat

/-- The gap with spaces for its line ends. -/
def WideGap.flat (g : WideGap) : WideGap := ⟨Gap.flat g.val, by simpa [Gap.flat] using g.2⟩

/-- The other name with spaces for the line ends around it. -/
def Renaming.flat (r : Renaming) : Renaming := ⟨r.before.flat, r.after.flat, r.name⟩

/-- The clause with spaces for its line ends. -/
def Clause.flat (c : Clause) : Clause := ⟨c.name, c.newName.map Renaming.flat⟩

/-- The further clause with spaces for its line ends. -/
def Further.flat (f : Further) : Further := ⟨f.before.flat, f.after.flat, f.clause.flat⟩

/-- The import with spaces for the line ends in its list. -/
def ModuleImport.flat (s : ModuleImport) : ModuleImport :=
  ⟨s.gap, s.first.flat, s.others.map Further.flat⟩

/-- Replacing continued line ends by spaces turns `t` into `t'`, whatever follows. -/
def Flattens (t t' : Text) : Prop := ∀ b, continuation.Turns [' '] t t' b

theorem Flattens.append {u u' t' : Text} (ht : Flattens t t') (hu : Flattens u u') :
    Flattens (t ++ u) (t' ++ u') := fun b => (ht _).append (hu b)

theorem flattens_self (ht : '\\' ∉ t) : Flattens t t := by
  refine fun b => turns_self fun a => noneIn_of_head (P := (· = '\\')) ?_ fun c hc h => ht (h ▸ hc)
  intro s hs
  obtain ⟨e, he⟩ := List.exists_mem_of_ne_nil _ hs
  obtain ⟨rest, hrest, -⟩ := mem_ends_text.1 he
  exact ⟨'\\', '\n' :: rest, hrest, rfl⟩

theorem Gap.flattens (g : Gap) : Flattens g.text g.flat.text := by
  have hpiece (p : GapPiece) : Flattens p.text p.flat.text := by
    cases p with
    | blank c h =>
      refine flattens_self ?_
      rw [GapPiece.text, List.mem_singleton]
      rintro rfl
      cases h
    | continued => exact fun b => turns_match (List.cons_ne_nil _ _) (takesFirst_text _ b)
  induction g with
  | nil => exact fun b => turns_nil _ _ b
  | cons p g ih => exact (hpiece p).append ih

theorem WideGap.flattens (g : WideGap) : Flattens g.text g.flat.text := Gap.flattens g.val

theorem IsDottedText.flattens (ht : IsDottedText t) : Flattens t t :=
  flattens_self (not_mem_of_class ht.2 (by decide))

theorem Renaming.flattens (r : Renaming) : Flattens r.text r.flat.text :=
  ((r.before.flattens.append (flattens_self (by decide))).append r.after.flattens).append
    (Ident.isDottedText r.name).flattens

theorem Clause.flattens (c : Clause) : Flattens c.text c.flat.text := by
  refine c.name.isDottedText.flattens.append ?_
  unfold flat
  cases c.newName with
  | none => exact fun b => turns_nil _ _ b
  | some r => exact r.flattens

theorem Further.flattens (f : Further) : Flattens f.text f.flat.text :=
  ((f.before.flattens.append (flattens_self (by decide))).append f.after.flattens).append
    f.clause.flattens

theorem ModuleImport.flattens (s : ModuleImport) : Flattens s.body s.flat.body := by
  refine s.first.flattens.append ?_
  unfold flat
  induction s.others with
  | nil => exact fun b => turns_nil _ _ b
  | cons f others ih => exact f.flattens.append ih

/-! ## Without other names -/

theorem exists_of_mem_ends_otherName (he : e ∈ otherName.ends s) :
    (∃ x rest, s.cursor.after = x :: rest ∧ StartsGap x) ∧
      ∃ w y rest, s.cursor.after = w ++ ("as".toList ++ y :: rest) ∧
        (∀ c ∈ w, isJoint c = true) ∧ StartsGap y := by
  obtain ⟨m, h, -⟩ := mem_ends_append.1 he
  obtain ⟨m, h, hafter⟩ := mem_ends_append.1 h
  obtain ⟨m, hbefore, hword⟩ := mem_ends_append.1 h
  refine ⟨exists_of_mem_ends_gaps hbefore, ?_⟩
  obtain ⟨w, rest, hs, hw, hm⟩ := isBehind_of_mem_ends (p := many1 gap) takes_gap hbefore
  obtain ⟨rest', hrest, rfl⟩ := mem_ends_text.1 hword
  obtain ⟨y, rest'', hy, hstarts⟩ := exists_of_mem_ends_gaps hafter
  rw [Point.after_skip_of_eq hrest] at hy
  subst hy
  rw [hm, Cursor.after_skip, hs, List.drop_left] at hrest
  exact ⟨w, y, rest'', by rw [hs, hrest], hw, hstarts⟩

theorem turns_self_of_not_startsGap (r : Text) (ht : ∀ c ∈ t, ¬StartsGap c) :
    otherName.Turns r t t b := by
  refine turns_self fun a => noneIn_of_head (P := StartsGap) (fun s hs => ?_) ht
  obtain ⟨e, he⟩ := List.exists_mem_of_ne_nil _ hs
  exact (exists_of_mem_ends_otherName he).1

theorem Name.turns (n : Name) (r b : Text) : otherName.Turns r n.text n.text b :=
  turns_self_of_not_startsGap r fun c hc => not_startsGap_of_isDotted (n.isDottedText.2 c hc)

/-- A gap stays if no other name stands behind it. -/
theorem Gap.turns_self (g : Gap) (r : Text) (hx : isJoint x = false)
    (hrest : ∀ y r', StartsGap y → x :: rest ≠ "as".toList ++ y :: r') :
    otherName.Turns r g.text g.text (x :: rest) := by
  refine Pattern.turns_self fun a u y v huv => List.eq_nil_iff_forall_not_mem.2 fun e he => ?_
  obtain ⟨-, w, z, rest', hafter, hw, hz⟩ := exists_of_mem_ends_otherName he
  have hv : ∀ c ∈ y :: v, isJoint c = true :=
    fun c hc => g.isJoint_of_mem (huv ▸ List.mem_append_right u hc)
  -- the gap of the other name ends where this one does, so the word `as` would stand next
  have hcut : (y :: v) ++ x :: rest = w ++ 'a' :: ('s' :: z :: rest') := hafter
  obtain ⟨-, rfl, rfl⟩ := append_cons_inj_of_run hv hw hx (by decide) hcut
  exact hrest z rest' hz rfl

/-- A name that is imported is not the word `as`. -/
theorem Name.ne_as (n : Name) (ht : Undotted t) {y : Char} (hy : StartsGap y) (r : Text) :
    n.text ++ t ≠ "as".toList ++ y :: r := by
  intro h
  have hnext : StartsApart ((n.others.flatMap fun i => '.' :: i.val) ++ t) := by
    cases n.others with
    | nil => exact ht.startsApart
    | cons i others =>
      rintro c ⟨⟩
      decide
  have hgap : StartsApart (y :: r) := (hy.undotted r).startsApart
  rw [text, List.append_assoc] at h
  obtain ⟨hfirst, -⟩ := n.first.2.1.append_inj (by decide) hnext hgap h
  exact n.first.2.2 (by rw [hfirst]; decide)

theorem Renaming.turns (r : Renaming) (hb : b.StartsApart) : otherName.Turns [] r.text [] b := by
  have hname : (some1 isWord : Pattern Part).TakesFirst r.name.val b :=
    takesFirst_run r.name.2.1.2 hb (List.length_pos_iff.2 r.name.2.1.1)
  have has : NoGap ("as".toList ++ (r.after.text ++ (r.name.val ++ b))) := noGap_cons (by decide) _
  refine turns_match ?_ ((((r.before.takesFirst has).append (takesFirst_text _ _)).append
    (r.after.takesFirst ((Ident.isDottedText r.name).noGap b))).append hname)
  exact List.append_ne_nil_of_right_ne_nil _ r.name.2.1.1

/-- What is left of a further clause without its other name. -/
def Further.bare (f : Further) : Text :=
  f.before.text ++ [','] ++ f.after.text ++ f.clause.name.text

/-- What is left of the list of modules without other names. -/
def ModuleImport.bare (s : ModuleImport) : Text :=
  s.first.name.text ++ s.others.flatMap Further.bare

theorem Clause.turns (c : Clause) (hb : Undotted b) : otherName.Turns [] c.text c.name.text b := by
  have hnew : otherName.Turns [] ((c.newName.map Renaming.text).getD []) [] b := by
    cases c.newName with
    | none => exact turns_nil _ _ b
    | some r => exact r.turns hb.startsApart
  have hclause := (c.name.turns [] _).append hnew
  rwa [List.append_nil] at hclause

theorem Renaming.text_eq (r : Renaming) :
    r.text = r.before.text ++ "as".toList ++ r.after.text ++ r.name.val := rfl

theorem Clause.undotted_newName (c : Clause) (hb : Undotted b) :
    Undotted ((c.newName.map Renaming.text).getD [] ++ b) := by
  cases c.newName with
  | none => exact hb
  | some r =>
    have hundotted := r.before.undotted ("as".toList ++ (r.after.text ++ (r.name.val ++ b)))
    simpa only [Option.map_some, Option.getD_some, r.text_eq, List.append_assoc] using hundotted

theorem Further.turns (f : Further) (hb : Undotted b) : otherName.Turns [] f.text f.bare b := by
  have hnext := f.clause.undotted_newName hb
  have hbefore (t : Text) : otherName.Turns [] f.before.text f.before.text (',' :: t) := by
    refine f.before.turns_self [] (by decide) fun y r' hy h => ?_
    exact absurd (List.cons.inj h).1 (by decide)
  have hcomma (t : Text) : otherName.Turns [] [','] [','] t :=
    turns_self_of_not_startsGap [] fun c hc => List.mem_singleton.1 hc ▸ (by decide)
  have hafter : otherName.Turns [] f.after.text f.after.text (f.clause.text ++ b) := by
    obtain ⟨x, n, hx⟩ := List.exists_cons_of_ne_nil f.clause.name.isDottedText.1
    rw [Clause.text, List.append_assoc, hx, List.cons_append]
    refine f.after.turns_self [] ?_ fun y r' hy => ?_
    · exact isJoint_eq_false_of_isDotted
        (f.clause.name.isDottedText.2 x (hx ▸ List.mem_cons_self))
    · rw [← List.cons_append, ← hx]
      exact f.clause.name.ne_as hnext hy r'
  exact (((hbefore _).append (hcomma _)).append hafter).append (f.clause.turns hb)

theorem turns_others (others : List Further) (hb : Undotted b) :
    otherName.Turns [] (others.flatMap Further.text) (others.flatMap Further.bare) b ∧
      Undotted (others.flatMap Further.text ++ b) := by
  induction others with
  | nil => exact ⟨turns_nil _ _ b, hb⟩
  | cons f others ih =>
    refine ⟨(f.turns ih.2).append ih.1, ?_⟩
    have hundotted := f.before.undotted
      (undotted_comma (f.after.text ++ (f.clause.text ++ (others.flatMap Further.text ++ b))))
    simpa only [List.flatMap_cons, Further.text, List.append_assoc] using hundotted

theorem ModuleImport.turns_bare (s : ModuleImport) : otherName.Turns [] s.body s.bare [] := by
  have hend : Undotted [] := fun c hc => nomatch hc
  obtain ⟨hothers, hnext⟩ := turns_others s.others hend
  exact (s.first.turns hnext).append hothers

/-! ## Packages -/

theorem absolutePackages_append (ts ts' : List Text) :
    absolutePackages (ts ++ ts') = absolutePackages ts ++ absolutePackages ts' := by
  unfold absolutePackages
  rw [List.map_append, List.filter_append, List.map_append]

theorem Name.firstSegment_text (n : Name) : firstSegment ['.'] n.text = n.first.val := by
  refine firstSegment_append (Ident.dot_not_mem n.first) ?_ fun c hc =>
    isBlank_eq_false_of_isDotted (n.isDottedText.2 c hc)
  cases n.others with
  | nil => exact fun c hc => nomatch hc
  | cons i others => exact fun c hc => (Option.some.inj hc).symm

/-- An absolute name gives its first segment. -/
theorem Name.absolutePackages_singleton (n : Name) {w w' : Text} (hw : w.AllBlank)
    (hw' : w'.AllBlank) : absolutePackages [w ++ (n.text ++ w')] = [n.first.val] := by
  have htrim : trim (w ++ (n.text ++ w')) = n.text := by
    rw [trim_blanks_append hw, trim_append_blanks hw']
    exact trim_eq_self_of_forall fun c hc => isBlank_eq_false_of_isDotted (n.isDottedText.2 c hc)
  have hkept : (!n.text.isEmpty && n.text.head? != some '.') = true := by
    obtain ⟨x, r, hx⟩ := List.exists_cons_of_ne_nil n.first.2.1.1
    have hdot : x ≠ '.' := by
      rintro rfl
      exact Ident.dot_not_mem n.first (hx ▸ List.mem_cons_self)
    rw [text, hx]
    simp [hdot]
  unfold absolutePackages
  rw [List.map_singleton, htrim, List.filter_singleton, hkept, cond_true, List.map_singleton,
    n.firstSegment_text]

theorem Origin.absolutePackages_singleton (o : Origin) :
    absolutePackages [o.text] = o.packages := by
  cases o with
  | absolute n =>
    have hnil : AllBlank [] := fun c hc => nomatch hc
    have hname := n.absolutePackages_singleton hnil hnil
    rw [List.append_nil] at hname
    exact hname
  | relative k name =>
    obtain ⟨r, hr⟩ : ∃ r, trim (text (.relative k name)) = '.' :: r :=
      exists_trim_cons (by decide) _
    unfold absolutePackages
    rw [List.map_singleton, hr]
    rfl

theorem Gap.allBlank_flat (g : Gap) : g.flat.text.AllBlank := by
  intro c hc
  obtain ⟨p, hp, hc⟩ := List.mem_flatMap.1 hc
  obtain ⟨p, -, rfl⟩ := List.mem_map.1 hp
  cases p with
  | blank d h =>
    obtain rfl : c = d := List.mem_singleton.1 hc
    exact isBlank_of_isGap h
  | continued =>
    obtain rfl : c = ' ' := List.mem_singleton.1 hc
    decide

theorem absolutePackages_others (others : List Further) (n : Name) {w : Text} (hw : w.AllBlank) :
    absolutePackages (fields (· == ',')
        (w ++ (n.text ++ (others.map Further.flat).flatMap Further.bare))) =
      n.first.val :: others.map (·.clause.name.first.val) := by
  have hblank {t : Text} (ht : t.AllBlank) : ',' ∉ t := not_mem_of_class ht (by decide)
  have hname (n : Name) : ',' ∉ n.text := not_mem_of_class n.isDottedText.2 (by decide)
  have hwhole {t : Text} (ht : ',' ∉ t) : ∀ c ∈ t, (c == ',') = false :=
    fun c hc => beq_false_of_ne fun h => ht (h ▸ hc)
  -- the blanks in front of a name are those behind its comma, so they vary
  induction others generalizing n w with
  | nil =>
    have hfields : ',' ∉ w ++ (n.text ++ []) := by
      simp only [List.append_nil, List.mem_append, not_or]
      exact ⟨hblank hw, hname n⟩
    rw [List.map_nil, List.flatMap_nil, fields_eq_self (hwhole hfields)]
    exact n.absolutePackages_singleton hw fun c hc => nomatch hc
  | cons f others ih =>
    have hbefore := Gap.allBlank_flat f.before
    have htext : w ++ (n.text ++ ((f :: others).map Further.flat).flatMap Further.bare) =
        (w ++ (n.text ++ f.before.flat.text)) ++ ',' :: (f.after.flat.text ++
          (f.clause.name.text ++ (others.map Further.flat).flatMap Further.bare)) := by
      simp [Further.bare, Further.flat, Clause.flat]
    have hfirst : ',' ∉ w ++ (n.text ++ f.before.flat.text) := by
      simp only [List.mem_append, not_or]
      exact ⟨hblank hw, hname n, hblank hbefore⟩
    rw [htext, fields_append_cons (hwhole hfirst) (by decide), ← List.singleton_append,
      absolutePackages_append, n.absolutePackages_singleton hw hbefore,
      ih f.clause.name (Gap.allBlank_flat f.after)]
    rfl

/-- An import of modules gives the packages of its modules. -/
theorem ModuleImport.names_eq (s : ModuleImport) {m : Match Part}
    (hm : m.part? .body = some s.body) : importNames.names m = s.packages := by
  have hflat : continuation.replaceIn [' '] s.body = s.flat.body :=
    replaceIn_of_turns (s.flattens [])
  have hbare : otherName.replaceIn [] s.flat.body = s.flat.bare :=
    replaceIn_of_turns s.flat.turns_bare
  have hpackages := absolutePackages_others s.others s.first.name (w := []) fun c hc => nomatch hc
  simp only [importNames, Match.partOrEmpty, hm, Option.getD_some, hflat, hbare]
  exact hpackages

theorem NameImport.names_eq (s : NameImport) {m : Match Part}
    (hm : m.part? .name = some s.origin.text) : importFrom.names m = s.origin.packages := by
  simp only [importFrom, Match.partOrEmpty, hm, Option.getD_some]
  exact s.origin.absolutePackages_singleton

end ImportScan.Python
