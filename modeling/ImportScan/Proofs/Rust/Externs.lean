import ImportScan.Grammar.Rust
import ImportScan.Proofs.Grammar.Indented
import ImportScan.Proofs.Rust.Syntax

/-!
# No external crate in a use declaration

An external crate item has an `n` in front of white space and a `c`: the end of its first keyword
and the start of its second. In a use tree a word stands behind white space only if the word `as`,
a mark or the word `use` stands in front of that, so the tree is `Calm` and no such item starts in
it (`noneIn_of_calm`). In front of the tree no statement may start but at the start of the line.
-/

namespace ImportScan.Rust

open Grammar Pattern Text

/-! ## Calm texts -/

/-- White space follows, and then the letter `c`. -/
def LeadsToC (t : Text) : Prop := ∃ g r, g ≠ [] ∧ AllBlank g ∧ t = g ++ 'c' :: r

/-- Up to the first semicolon no `n` stands in front of white space and a `c`. -/
def Calm : Text → Prop
  | [] => True
  | x :: t => x = ';' ∨ (x = 'n' → ¬LeadsToC t) ∧ Calm t

variable {a b r t w : Text}

theorem calm_append (ha : ∀ c ∈ a, c ≠ 'n') (ht : Calm t) : Calm (a ++ t) := by
  induction a with
  | nil => exact ht
  | cons x a ih =>
    exact .inr ⟨fun hx => absurd hx (ha x List.mem_cons_self),
      ih fun c hc => ha c (List.mem_cons_of_mem x hc)⟩

theorem calm_solid (hw : ∀ c ∈ w, isBlank c = false) (ht : Calm t) (hlead : ¬LeadsToC t) :
    Calm (w ++ t) := by
  induction w with
  | nil => exact ht
  | cons x w ih =>
    refine .inr ⟨fun _ => ?_, ih fun c hc => hw c (List.mem_cons_of_mem x hc)⟩
    cases w with
    | nil => exact hlead
    | cons y w =>
      rintro ⟨g, r, hg, hblank, hcut⟩
      obtain ⟨z, g, rfl⟩ := List.exists_cons_of_ne_nil hg
      obtain ⟨rfl, -⟩ := List.cons.inj hcut
      have := hw y (by simp)
      rw [hblank y List.mem_cons_self] at this
      cases this

theorem calm_blanks (hb : AllBlank b) (ht : Calm t) : Calm (b ++ t) := by
  refine calm_append ?_ ht
  rintro c hc rfl
  exact absurd (hb _ hc) (by decide)

theorem not_leadsToC {x : Char} (hb : AllBlank b) (hx : isBlank x = false) (hc : x ≠ 'c')
    (r : Text) : ¬LeadsToC (b ++ x :: r) := by
  rintro ⟨g, r', -, hg, hcut⟩
  obtain ⟨-, rfl, -⟩ := append_cons_inj_of_run hb hg hx (by decide) hcut
  exact hc rfl

theorem Calm.of_append (h : Calm (a ++ t)) (ha : ';' ∉ a) : Calm t := by
  induction a with
  | nil => exact h
  | cons x a ih =>
    obtain ⟨hx, ha⟩ := not_or.1 (ha ∘ List.mem_cons.2)
    rcases h with rfl | ⟨-, h⟩
    · exact absurd rfl hx
    · exact ih h ha

/-! ## Trees are calm -/

theorem calm_word (w : Word) (ht : Calm t) (hlead : ¬LeadsToC t) : Calm (w.val ++ t) :=
  calm_solid (isSolid_word w).2 ht hlead

theorem calm_colons (b : Blanks) (ht : Calm t) : Calm ([':', ':'] ++ (b.val ++ t)) :=
  calm_append (by decide) (calm_blanks b.2 ht)

theorem Lead.calm_text (lead : Lead) (hr : Calm r) : Calm (lead.textBy id ++ r) := by
  cases lead with
  | none => exact hr
  | some b =>
    rw [Lead.textBy, List.append_assoc]
    exact calm_colons b hr

theorem Path.calm_text (p : Path) (hr : Calm r) (hlead : ¬LeadsToC r) :
    Calm (p.textBy id ++ r) := by
  have hsteps : Calm (p.steps.flatMap (Step.textBy id) ++ r) ∧
      ¬LeadsToC (p.steps.flatMap (Step.textBy id) ++ r) := by
    induction p.steps with
    | nil => exact ⟨hr, hlead⟩
    | cons s steps ih =>
      simp only [List.flatMap_cons, Step.textBy, id_eq, List.append_assoc]
      exact ⟨calm_blanks s.before.2 (calm_colons s.after (calm_word s.name ih.1 ih.2)),
        not_leadsToC s.before.2 (by decide) (by decide) _⟩
  rw [Path.textBy, List.append_assoc]
  exact calm_word p.root hsteps.1 hsteps.2

mutual

theorem Tree.calm_text : ∀ (t : Tree) {r : Text}, Calm r → ¬LeadsToC r → Calm (t.textBy id ++ r)
  | .item lead path tail, r, hr, hlead => by
    obtain ⟨htail, hlead⟩ := tail.calm_text hr hlead
    simp only [Tree.textBy, List.append_assoc]
    exact lead.calm_text (path.calm_text htail hlead)
  | .group lead members, r, hr, _ => by
    simp only [Tree.textBy, List.append_assoc]
    exact lead.calm_text (calm_append (by decide) (members.calm_text hr))

theorem Tail.calm_text : ∀ (t : Tail) {r : Text}, Calm r → ¬LeadsToC r →
    Calm (t.textBy id ++ r) ∧ ¬LeadsToC (t.textBy id ++ r)
  | .nothing, r, hr, hlead => ⟨hr, hlead⟩
  | .all before after, r, hr, _ => by
    simp only [Tail.textBy, id_eq, List.append_assoc]
    exact ⟨calm_blanks before.2 (calm_colons after (calm_append (by decide) hr)),
      not_leadsToC before.2 (by decide) (by decide) _⟩
  | .renamed before after name, r, hr, hlead => by
    simp only [Tail.textBy, id_eq, List.append_assoc]
    exact ⟨calm_blanks before.2.2 (calm_append (by decide)
        (calm_blanks after.2.2 (calm_word name hr hlead))),
      not_leadsToC before.2.2 (by decide) (by decide) _⟩
  | .group before after members, r, hr, _ => by
    simp only [Tail.textBy, id_eq, List.append_assoc]
    exact ⟨calm_blanks before.2 (calm_colons after (calm_append (by decide)
        (members.calm_text hr))),
      not_leadsToC before.2 (by decide) (by decide) _⟩

theorem Members.calm_text : ∀ (ms : Members) {r : Text}, Calm r →
    Calm (ms.textBy id ++ (['}'] ++ r))
  | .nothing blanks, r, hr => calm_blanks blanks.2 (calm_append (by decide) hr)
  | .last before tree after, r, hr => by
    simp only [Members.textBy, id_eq, List.append_assoc]
    exact calm_blanks before.2 (tree.calm_text (calm_blanks after.2 (calm_append (by decide) hr))
      (not_leadsToC after.2 (by decide) (by decide) _))
  | .more before tree after others, r, hr => by
    simp only [Members.textBy, id_eq, List.append_assoc]
    exact calm_blanks before.2 (tree.calm_text
      (calm_blanks after.2 (calm_append (by decide) (others.calm_text hr)))
      (not_leadsToC after.2 (by decide) (by decide) _))

end

namespace Declaration

variable (d : Declaration)

theorem calm_body (r : Text) : Calm (d.body ++ (';' :: r)) := by
  have hgap : d.gap.val ≠ 'n' := by
    intro h
    exact absurd d.gap.2 (h ▸ by decide)
  simp only [body, Tree.text, List.append_assoc]
  refine calm_append (by simpa using hgap) (calm_blanks d.before.2 (d.tree.calm_text ?_ ?_))
  · exact calm_blanks d.after.2 (.inl rfl)
  · exact not_leadsToC d.after.2 (by decide) (by decide) r

end Declaration

/-! ## External crates -/

/-- What an external crate item goes on with behind its indent. -/
def externEnd : Pattern Part :=
  maybe (word "pub" ++ gaps1) ++ (word "extern" ++ (gaps1 ++ (word "crate" ++
    (gaps1 ++ .part .name (some1 isWord)))))

theorem externCrate_ends (s : Point Part) :
    externCrate.pattern.ends s = (statementStart [';', '{', '}'] ++ externEnd).ends s := by
  simp only [externCrate, externEnd, ends_append_assoc]

theorem upfront_externEnd : externEnd.Upfront :=
  ((upfront_word ⟨'p', rfl, by decide⟩).append _).maybe_append
    ((upfront_word ⟨'e', rfl, by decide⟩).append _)

/-- Behind the visibility stand the two keywords. -/
theorem exists_of_mem_ends_externEnd {s e : Point Part} (he : e ∈ externEnd.ends s) :
    ∃ m ∈ (maybe (word "pub" ++ gaps1)).ends s, ∃ g r, m.cursor.after =
      "extern".toList ++ (g ++ ("crate".toList ++ r)) ∧ g ≠ [] ∧ ∀ c ∈ g, isGap c = true := by
  obtain ⟨m, hm, he⟩ := mem_ends_append.1 he
  obtain ⟨m₁, hextern, he⟩ := mem_ends_append.1 he
  obtain ⟨m₂, hgaps, he⟩ := mem_ends_append.1 he
  obtain ⟨m₃, hcrate, -⟩ := mem_ends_append.1 he
  obtain ⟨r₁, hr₁, rfl⟩ := mem_ends_text.1 hextern
  obtain ⟨g, r₂, hr₂, hg, hl, rfl⟩ := mem_ends_run.1 hgaps
  obtain ⟨r₃, hr₃, rfl⟩ := mem_ends_text.1 hcrate
  rw [Point.after_skip_of_eq hr₂] at hr₃
  rw [Point.after_skip_of_eq hr₁] at hr₂
  subst hr₂ hr₃
  exact ⟨m, hm, g, r₃, hr₁, List.length_pos_iff.1 hl, hg⟩

theorem ends_externCrate_of_calm {s : Point Part} (h : Calm s.cursor.after) :
    externCrate.pattern.ends s = [] := by
  refine List.eq_nil_iff_forall_not_mem.2 fun e he => ?_
  rw [externCrate_ends] at he
  obtain ⟨-, g, m, hafter, hg, -, he⟩ := exists_of_mem_ends_indented upfront_externEnd he
  obtain ⟨m', hm', g', r, hr, hne, hg'⟩ := exists_of_mem_ends_externEnd he
  obtain ⟨u, rest, hu, hsemi, hm'⟩ :=
    isBehind_of_mem_ends (takes_of_excludes (z := ';') (by decide)) hm'
  have hrest : m'.cursor.after = rest := by
    rw [hm', Cursor.after_skip, hu, List.drop_left]
  have hcut : s.cursor.after =
      g ++ (u ++ "exter".toList) ++ ('n' :: (g' ++ 'c' :: ("rate".toList ++ r))) := by
    rw [hafter, hu, ← hrest, hr]
    simp
  have hfront : ';' ∉ g ++ (u ++ "exter".toList) := by
    intro hmem
    rcases List.mem_append.1 hmem with hmem | hmem
    · exact absurd (hg _ hmem) (by decide)
    · rcases List.mem_append.1 hmem with hmem | hmem
      · exact hsemi _ hmem rfl
      · exact absurd hmem (by decide)
  rw [hcut] at h
  rcases h.of_append hfront with hn | ⟨hlead, -⟩
  · exact absurd hn (by decide)
  · exact hlead rfl ⟨g', _, hne, fun c hc => isBlank_of_isGap (hg' c hc), rfl⟩

theorem noneIn_of_calm {a t b : Text} (ht : ';' ∉ t) (h : Calm (t ++ ';' :: b)) :
    externCrate.pattern.NoneIn a (t ++ [';']) b := by
  intro u x v huv
  have hu : ';' ∉ u := by
    have hdrop := congrArg List.dropLast huv
    rw [List.dropLast_concat, List.dropLast_append_of_ne_nil (List.cons_ne_nil x v)] at hdrop
    exact fun hmem => ht (hdrop ▸ List.mem_append_left _ hmem)
  apply ends_externCrate_of_calm
  have hcut : t ++ ';' :: b = u ++ x :: (v ++ b) := by
    rw [← List.singleton_append, ← List.append_assoc, huv, List.append_assoc, List.cons_append]
  rw [hcut] at h
  exact h.of_append hu

end ImportScan.Rust
