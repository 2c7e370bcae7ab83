import ImportScan.Grammar.Php
import ImportScan.Proofs.Grammar.Keyword

/-!
# The brace table of PHP

`Grammar.bodies` lists, brace by brace, whether the code behind it lies in a block that is no
namespace block. Scanning the braces with a stack instead gives the same answer at every offset:
`inside_bodies` says that the table holds what the stack holds behind the character at the offset.
Behind a finished statement the head of a block declares a namespace if it has the word
(`endsInNamespace_iff`).
-/

namespace ImportScan.Php

open Grammar Pattern

/-! ## The table and the stack -/

/-- What a scan of the braces knows: what stands since the last brace, last character first, and of
each open block, the innermost first, whether it is no namespace block. -/
structure BraceState where
  head : Text := []
  blocks : List Bool := []

namespace BraceState

/-- What a character makes of the state. -/
def step (s : BraceState) (c : Char) : BraceState :=
  if c = '{' then ⟨[], (!endsInNamespace s.head.reverse) :: s.blocks⟩
  else if c = '}' then ⟨[], s.blocks.tail⟩
  else ⟨c :: s.head, s.blocks⟩

/-- The state behind a text. -/
def run (s : BraceState) (t : Text) : BraceState := t.foldl step s

/-- Whether some open block is no namespace block. -/
def inBody (s : BraceState) : Bool := s.blocks.any id

@[simp] theorem run_nil (s : BraceState) : s.run [] = s := rfl

@[simp] theorem run_cons (s : BraceState) (c : Char) (t : Text) :
    s.run (c :: t) = (s.step c).run t := rfl

theorem run_append (s : BraceState) (a b : Text) : s.run (a ++ b) = (s.run a).run b :=
  List.foldl_append

theorem step_of_ne {c : Char} (s : BraceState) (ho : c ≠ '{') (hc : c ≠ '}') :
    s.step c = ⟨c :: s.head, s.blocks⟩ := by
  rw [step, if_neg ho, if_neg hc]

/-- Text without braces becomes part of the head. -/
theorem run_of_no_braces {t : Text} (s : BraceState) (h : ∀ c ∈ t, c ≠ '{' ∧ c ≠ '}') :
    s.run t = ⟨t.reverse ++ s.head, s.blocks⟩ := by
  induction t generalizing s with
  | nil => rfl
  | cons c t ih =>
    obtain ⟨ho, hc⟩ := h c List.mem_cons_self
    rw [run_cons, step_of_ne s ho hc, ih _ fun d hd => h d (List.mem_cons_of_mem c hd)]
    simp

/-- The entries of the table from a state on. -/
def entries (offset : Nat) (s : BraceState) (t : Text) : Scopes :=
  bodiesFrom offset s.head s.blocks t

theorem entries_cons (offset : Nat) (s : BraceState) (c : Char) (t : Text) :
    entries offset s (c :: t) =
      (if c = '{' ∨ c = '}' then [(offset, (s.step c).inBody)] else []) ++
        entries (offset + 1) (s.step c) t := by
  unfold entries step inBody
  rw [bodiesFrom]
  by_cases ho : c = '{'
  · simp [ho]
  · by_cases hc : c = '}'
    · simp [hc]
    · simp [ho, hc]

theorem entries_append (offset : Nat) (s : BraceState) (a b : Text) :
    entries offset s (a ++ b) = entries offset s a ++ entries (offset + a.length) (s.run a) b := by
  induction a generalizing offset s with
  | nil => rfl
  | cons c a ih =>
    have hlen : offset + 1 + a.length = offset + (c :: a).length := by
      rw [List.length_cons]
      omega
    rw [List.cons_append, entries_cons, entries_cons, ih, List.append_assoc, run_cons, hlen]

/-- The entries of a text lie within it. -/
theorem le_of_mem_entries {offset : Nat} {s : BraceState} {t : Text} {e : Nat × Bool}
    (h : e ∈ entries offset s t) : offset ≤ e.1 ∧ e.1 < offset + t.length := by
  induction t generalizing offset s with
  | nil => cases h
  | cons c t ih =>
    rw [List.length_cons]
    rw [entries_cons] at h
    rcases List.mem_append.1 h with h | h
    · split at h
      · obtain rfl := List.mem_singleton.1 h
        dsimp only
        omega
      · cases h
    · have := ih h
      omega

/-- The last entry of a text says what the state behind it says. -/
theorem inBody_run (offset : Nat) (s : BraceState) (t : Text) :
    (s.run t).inBody = ((entries offset s t).getLast?.map (·.2)).getD s.inBody := by
  induction t generalizing offset s with
  | nil => rfl
  | cons c t ih =>
    rw [run_cons, ih (offset + 1), entries_cons, List.getLast?_append]
    cases hlast : (entries (offset + 1) (s.step c) t).getLast? with
    | some e => simp
    | none =>
      by_cases hc : c = '{' ∨ c = '}'
      · simp [hc]
      · obtain ⟨ho, hc'⟩ := not_or.1 hc
        simp [step, ho, hc', inBody]

end BraceState

/-- The state behind the start of a text. -/
def braceState (t : Text) : BraceState := ({} : BraceState).run t

/-- The table holds what a plain scan of the braces finds behind the character at the offset. -/
theorem inside_bodies (t : Text) (n : Nat) :
    (bodies t).inside n = (braceState (t.take (n + 1))).inBody := by
  have hcut : bodies t = BraceState.entries 0 {} (t.take (n + 1)) ++
      BraceState.entries (0 + (t.take (n + 1)).length) (braceState (t.take (n + 1)))
        (t.drop (n + 1)) := by
    rw [braceState, ← BraceState.entries_append, List.take_append_drop]
    rfl
  have hbefore : ∀ e ∈ BraceState.entries 0 {} (t.take (n + 1)), decide (e.1 ≤ n) = true := by
    intro e he
    have := BraceState.le_of_mem_entries he
    rw [List.length_take] at this
    exact decide_eq_true (by omega)
  have hbehind : (BraceState.entries (0 + (t.take (n + 1)).length) (braceState (t.take (n + 1)))
      (t.drop (n + 1))).takeWhile (fun e => decide (e.1 ≤ n)) = [] := by
    cases hrest : BraceState.entries (0 + (t.take (n + 1)).length) (braceState (t.take (n + 1)))
      (t.drop (n + 1)) with
    | nil => rfl
    | cons e rest =>
      have := BraceState.le_of_mem_entries (hrest ▸ List.mem_cons_self : e ∈ _)
      rw [List.length_take, List.length_drop] at this
      exact List.takeWhile_cons_of_neg (by simp only [decide_eq_true_eq]; omega)
  unfold Scopes.inside
  rw [hcut, List.takeWhile_append_of_pos hbefore, hbehind, List.append_nil, braceState,
    BraceState.inBody_run 0]
  cases (BraceState.entries 0 {} (t.take (n + 1))).getLast? <;> rfl

/-! ## Balanced texts -/

/-- The text leaves as many blocks open as it finds, and the same ones. -/
def Balanced (t : Text) : Prop := ∀ s : BraceState, (s.run t).blocks = s.blocks

theorem balanced_of_no_braces {t : Text} (h : ∀ c ∈ t, c ≠ '{' ∧ c ≠ '}') : Balanced t := by
  intro s
  rw [s.run_of_no_braces h]

theorem Balanced.append {t u : Text} (ht : Balanced t) (hu : Balanced u) : Balanced (t ++ u) := by
  intro s
  rw [s.run_append, hu, ht]

/-- A block around balanced text is balanced. -/
theorem Balanced.braces {t : Text} (ht : Balanced t) : Balanced ('{' :: (t ++ ['}'])) := by
  intro s
  rw [BraceState.run_cons, BraceState.run_append, BraceState.run_cons, BraceState.run_nil]
  have hinner := ht (s.step '{')
  have hclose (s : BraceState) : (s.step '}').blocks = s.blocks.tail := rfl
  rw [hclose, hinner]
  rfl

/-! ## Heads of blocks -/

/-- Nothing stands there, or a statement has ended. -/
def Settled (t : Text) : Prop := ∀ c ∈ t.getLast?, c = ';'

/-- A text without the characters that end statements and blocks. -/
def Unended (t : Text) : Prop := ∀ c ∈ t, c ≠ ';' ∧ c ≠ '{' ∧ c ≠ '}'

theorem Settled.endsApart {t : Text} (h : Settled t) : t.EndsApart := by
  intro c hc
  rw [h c hc]
  decide

/-- The edges of the word `namespace`, told by the texts around it. -/
private theorem atWordEdge_namespace {u r : Text} :
    (atWordEdge (.between u ("namespace".toList ++ r)) = true ↔ u.EndsApart) ∧
      (atWordEdge (.between (u ++ "namespace".toList) r) = true ↔ r.StartsApart) := by
  refine ⟨atWordEdge_between_cons (x := 'n') (by decide), ?_⟩
  have hlast : u ++ "namespace".toList = u ++ "namespac".toList ++ ['e'] := by
    rw [List.append_assoc]
    rfl
  rw [hlast]
  exact atWordEdge_between_concat (by decide)

/-- A namespace declaration that reaches to the end. -/
theorem namespaceHead_ends_ne_nil_iff {u v : Text} :
    namespaceHead.ends ⟨.between u v, []⟩ ≠ [] ↔
      ∃ r, v = "namespace".toList ++ r ∧ u.EndsApart ∧ r.StartsApart ∧ Unended r := by
  have hskip (r : Text) : (Cursor.between u ("namespace".toList ++ r)).skip
      "namespace".toList.length = .between (u ++ "namespace".toList) r := Cursor.skip_between u _ r
  unfold namespaceHead some0
  constructor
  · intro hne
    obtain ⟨e, he⟩ := List.exists_mem_of_ne_nil _ hne
    obtain ⟨m₄, h, hstop⟩ := mem_ends_append.1 he
    obtain ⟨m₃, h, hrun⟩ := mem_ends_append.1 h
    obtain ⟨m₂, h, hsecond⟩ := mem_ends_append.1 h
    obtain ⟨m₁, hfirst, hword⟩ := mem_ends_append.1 h
    obtain ⟨hbefore, rfl⟩ := mem_ends_here.1 hfirst
    obtain ⟨r, hv, rfl⟩ := mem_ends_text.1 hword
    obtain rfl : v = "namespace".toList ++ r := hv
    obtain ⟨hbehind, rfl⟩ := mem_ends_here.1 hsecond
    obtain ⟨t, rest, hr, ht, -, rfl⟩ := mem_ends_run.1 hrun
    obtain ⟨hempty, -⟩ := mem_ends_here.1 hstop
    have hrest : rest = [] := by
      rw [← Point.after_skip_of_eq hr]
      exact List.isEmpty_iff.1 hempty
    rw [Point.cursor_skip, hskip] at hbehind hr
    refine ⟨r, rfl, atWordEdge_namespace.1.1 hbefore, atWordEdge_namespace.2.1 hbehind, ?_⟩
    intro c hc
    have hct : c ∈ t := by
      rw [hrest, List.append_nil] at hr
      exact hr ▸ hc
    simpa [and_assoc] using ht c hct
  · rintro ⟨r, rfl, hu, hr, hend⟩
    let m : Point Part := ⟨.between u ("namespace".toList ++ r), []⟩
    have hm : (m.skip "namespace".toList.length).cursor = .between (u ++ "namespace".toList) r :=
      hskip r
    have hafter : (m.skip "namespace".toList.length).cursor.after = r ++ [] := by rw [hm]; simp
    have hrun : (∀ c ∈ r, (c != ';' && c != '{' && c != '}') = true) ∧ 0 ≤ r.length :=
      ⟨fun c hc => by simpa [and_assoc] using hend c hc, Nat.zero_le _⟩
    have hfirst : m ∈ (wordEdge : Pattern Part).ends m :=
      mem_ends_here.2 ⟨atWordEdge_namespace.1.2 hu, rfl⟩
    have hsecond : m.skip "namespace".toList.length ∈
        (wordEdge : Pattern Part).ends (m.skip "namespace".toList.length) :=
      mem_ends_here.2 ⟨(congrArg atWordEdge hm).trans (atWordEdge_namespace.2.2 hr), rfl⟩
    have h₂ := mem_ends_append.2 ⟨m, hfirst, (takesJust_text _).skip_mem_ends rfl rfl⟩
    have h₃ := mem_ends_append.2 ⟨_, h₂, hsecond⟩
    have h₄ := mem_ends_append.2 ⟨_, h₃, (takesJust_run true _ 0).skip_mem_ends hafter hrun⟩
    refine List.ne_nil_of_mem (mem_ends_append.2 ⟨_, h₄, mem_ends_here.2 ⟨?_, rfl⟩⟩)
    rw [Point.cursor_skip, hm, Cursor.after_skip]
    simp

/-- The head has the word `namespace` behind the end of its last statement. -/
theorem endsInNamespace_iff_exists {t : Text} : endsInNamespace t = true ↔
    ∃ u r, t = u ++ ("namespace".toList ++ r) ∧ u.EndsApart ∧ r.StartsApart ∧ Unended r := by
  unfold endsInNamespace
  rw [occursIn_iff]
  constructor
  · rintro ⟨u, v, rfl, hends⟩
    obtain ⟨r, rfl, hr⟩ := namespaceHead_ends_ne_nil_iff.1 hends
    exact ⟨u, r, rfl, hr⟩
  · rintro ⟨u, r, rfl, hr⟩
    exact ⟨u, _, rfl, namespaceHead_ends_ne_nil_iff.2 ⟨r, rfl, hr⟩⟩

/-- Behind a finished statement a head ends in a namespace declaration if it has the word. -/
theorem endsInNamespace_iff {h t : Text} (hh : Settled h) (ht : Unended t) :
    endsInNamespace (h ++ t) = true ↔ Text.HasWord "namespace".toList t := by
  rw [endsInNamespace_iff_exists]
  constructor
  · rintro ⟨u, r, hur, hu, hr, hend⟩
    rcases List.append_eq_append_iff.1 hur with ⟨w, rfl, rfl⟩ | ⟨w, rfl, hw⟩
    · exact ⟨w, r, rfl, Text.forall_getLast?_of_append hu, hr⟩
    · -- the end of the statement in front would stand in the declaration
      cases hlast : w.getLast? with
      | none =>
        obtain rfl := List.getLast?_eq_none_iff.1 hlast
        exact ⟨[], r, hw.symm, by simp [Text.EndsApart], hr⟩
      | some c =>
        have hc : c = ';' := Text.forall_getLast?_of_append hh c hlast
        have hmem : ';' ∈ "namespace".toList ++ r := by
          rw [hw, ← hc]
          exact List.mem_append_left _ (List.mem_of_getLast? hlast)
        rcases List.mem_append.1 hmem with hmem | hmem
        · exact absurd hmem (by decide)
        · exact absurd rfl (hend ';' hmem).1
  · rintro ⟨a, b, rfl, ha, hb⟩
    exact ⟨h ++ a, b, (List.append_assoc _ _ _).symm,
      Text.forall_getLast?_append hh.endsApart ha, hb, fun c hc => ht c (by simp [hc])⟩

end ImportScan.Php
