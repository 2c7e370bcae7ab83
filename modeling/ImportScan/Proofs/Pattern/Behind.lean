import ImportScan.Proofs.Pattern.Matches

/-!
# Matches behind a text

What a pattern matches does not change when a text is put in front, as long as its tests for places
do not notice (`Pattern.Overlooks`): the ends are the same, farther on (`ends_behind`), and so are
the successive matches (`matchesFrom_behind`). A text that ends in no word is not noticed by a test
for the edge of a word (`overlooks_wordEdge`).
-/

namespace ImportScan

variable {ι : Type} {front : Text}

/-! ## Points and matches -/

namespace Point

/-- The point once `front` is put in front of the text. -/
def behind (front : Text) (s : Point ι) : Point ι where
  cursor := s.cursor.behind front
  parts := s.parts.map fun part => (part.1, ⟨part.2.start.behind front, part.2.length⟩)

@[simp] theorem cursor_behind (front : Text) (s : Point ι) :
    (s.behind front).cursor = s.cursor.behind front := rfl

theorem at_behind (front : Text) (s : Point ι) (c : Cursor) :
    (s.behind front).at (c.behind front) = (s.at c).behind front := rfl

theorem mark_behind (front : Text) (i : ι) (start : Cursor) (s : Point ι) :
    (s.behind front).mark i (start.behind front) = (s.mark i start).behind front := by
  have hlen : (s.cursor.behind front).offset - (start.behind front).offset =
      s.cursor.offset - start.offset := by
    rw [Cursor.offset_behind, Cursor.offset_behind]
    omega
  unfold mark behind
  simp only [hlen, List.map_cons]

theorem part?_behind [DecidableEq ι] (front : Text) (s : Point ι) (i : ι) :
    (s.behind front).part? i = s.part? i := by
  obtain ⟨c, parts⟩ := s
  simp only [part?, behind]
  induction parts with
  | nil => rfl
  | cons part parts ih =>
    rw [List.map_cons, List.lookup_cons, List.lookup_cons]
    cases i == part.1 with
    | true => rfl
    | false => exact ih

end Point

namespace Match

/-- The match once `front` is put in front of the text. -/
def behind (front : Text) (m : Match ι) : Match ι := ⟨m.start.behind front, m.stop.behind front⟩

@[simp] theorem offset_behind (front : Text) (m : Match ι) :
    (m.behind front).offset = front.length + m.offset := Cursor.offset_behind front m.start

@[simp] theorem length_behind (front : Text) (m : Match ι) :
    (m.behind front).length = m.length := by
  simp only [length, behind, Point.cursor_behind, Cursor.offset_behind]
  omega

@[simp] theorem text_behind (front : Text) (m : Match ι) : (m.behind front).text = m.text := by
  unfold text
  rw [length_behind]
  rfl

@[simp] theorem part?_behind [DecidableEq ι] (front : Text) (m : Match ι) (i : ι) :
    (m.behind front).part? i = m.part? i := Point.part?_behind front m.stop i

end Match

namespace Pattern

/-! ## Patterns that do not notice -/

/-- Whether no test of the pattern notices that `front` is put in front of the text. -/
def Overlooks (front : Text) : Pattern ι → Prop
  | .empty | .one _ | .run _ _ _ _ | .again _ _ => True
  | .here test => ∀ c, test (c.behind front) = test c
  | .seq p q | .alt p q | .given _ p q => p.Overlooks front ∧ q.Overlooks front
  | .many _ p _ _ | .part _ p | .ahead _ p | .once p => p.Overlooks front
  | .behind _ _ _ => False

theorem overlooks_text (t : Text) : (text t : Pattern ι).Overlooks front := by
  fun_induction text t with
  | case1 => trivial
  | case2 => trivial
  | case3 c t _ ih => exact ⟨trivial, ih⟩

/-- The text in front is empty, or its last line has ended. -/
def EndsLine (front : Text) : Prop := ∀ c ∈ front.getLast?, c = '\n'

theorem EndsLine.head?_before (h : EndsLine front) (c : Cursor) :
    (c.behind front).before.head? = c.before.head? ∨
      c.before.head? = none ∧ (c.behind front).before.head? = some '\n' := by
  rw [Cursor.before_behind, List.head?_append, List.head?_reverse]
  cases hb : c.before.head? with
  | some x => exact .inl rfl
  | none =>
    cases hf : front.getLast? with
    | none => exact .inl rfl
    | some x =>
      obtain rfl := h x hf
      exact .inr ⟨rfl, rfl⟩

theorem overlooks_wordEdge (h : ∀ c ∈ front.getLast?, Text.isWord c = false) :
    (wordEdge : Pattern ι).Overlooks front := by
  intro c
  unfold atWordEdge
  rw [Cursor.before_behind, Cursor.after_behind, List.head?_append, List.head?_reverse]
  cases hb : c.before.head? with
  | some x => rfl
  | none =>
    cases hf : front.getLast? with
    | none => rfl
    | some x => simp [h x hf]

/-! ## The same ends, farther on -/

theorem endsOfMany_behind {body : Point ι → List (Point ι)}
    (hbody : ∀ s, body (s.behind front) = (body s).map (Point.behind front)) (greedy : Bool)
    (least : Nat) (most : Option Nat) (rounds count : Nat) (last : Option Nat) (s : Point ι) :
    endsOfMany body greedy least most rounds count (last.map (front.length + ·))
        (s.behind front) =
      (endsOfMany body greedy least most rounds count last s).map (Point.behind front) := by
  induction rounds generalizing count last s with
  | zero => rfl
  | succ rounds ih =>
    have more (count : Nat) (last : Option Nat) :
        (body (s.behind front)).flatMap
            (endsOfMany body greedy least most rounds count (last.map (front.length + ·))) =
          ((body s).flatMap (endsOfMany body greedy least most rounds count last)).map
            (Point.behind front) := by
      rw [hbody, List.flatMap_map, List.map_flatMap]
      simp only [ih]
    have hlast : (last.map (front.length + ·) != some (s.behind front).cursor.offset) =
        (last != some s.cursor.offset) := by
      rw [Point.cursor_behind, Cursor.offset_behind]
      cases last with
      | none => rfl
      | some n =>
        rw [Bool.eq_iff_iff]
        simp
    have hnext : some (s.behind front).cursor.offset =
        (some s.cursor.offset).map (front.length + ·) := by simp
    rw [endsOfMany, endsOfMany, hlast]
    split
    · exact more (count + 1) last
    · split
      · rw [hnext, more]
        cases greedy
        · rfl
        · simp
      · rfl

theorem behindText?_behind (same : Char → Char → Bool) (t : Text) (c : Cursor) :
    behindText? same t (c.behind front) = (behindText? same t c).map (Cursor.behind front) := by
  induction t generalizing c with
  | nil => rfl
  | cons x t ih =>
    rw [behindText?, behindText?]
    rw [Cursor.after_behind]
    split
    · rfl
    · split
      · rw [Cursor.next_behind, ih]
      · rfl

variable [DecidableEq ι]

/-- The ends of a pattern that overlooks what is in front are the same, farther on. -/
theorem ends_behind {p : Pattern ι} (hp : p.Overlooks front) (s : Point ι) :
    p.ends (s.behind front) = (p.ends s).map (Point.behind front) := by
  induction p generalizing s with
  | empty => rfl
  | one p =>
    rw [ends, ends, Point.cursor_behind, Cursor.after_behind]
    split
    · rfl
    · split
      · rw [Cursor.next_behind, Point.at_behind]
        rfl
      · rfl
  | run greedy p least most =>
    rw [ends, ends, Point.cursor_behind, Cursor.farthest_behind]
    simp only [endsOfRun, List.map_map]
    congr 1
    funext n
    simp only [Function.comp_apply]
    rw [Cursor.skip_behind, Point.at_behind]
  | here test =>
    rw [ends, ends, Point.cursor_behind, hp s.cursor]
    split <;> rfl
  | seq p q ihp ihq =>
    rw [ends, ends, ihp hp.1, List.flatMap_map, List.map_flatMap]
    simp only [ihq hp.2]
  | alt p q ihp ihq => rw [ends, ends, ihp hp.1, ihq hp.2, List.map_append]
  | many greedy p least most ih =>
    rw [ends, ends, Point.cursor_behind, Cursor.left_behind]
    exact endsOfMany_behind (ih hp) greedy least most _ 0 none s
  | part i p ih =>
    rw [ends, ends, ih hp, List.map_map, List.map_map]
    refine List.map_congr_left fun e _ => ?_
    exact Point.mark_behind front i s.cursor e
  | again i same =>
    rw [ends, ends, Point.part?_behind, Point.cursor_behind]
    cases s.part? i with
    | none => rfl
    | some t =>
      dsimp only
      rw [behindText?_behind]
      cases behindText? same t s.cursor <;> rfl
  | ahead wanted p ih =>
    rw [ends, ends, ih hp, List.head?_map]
    cases (p.ends s).head? <;> cases wanted <;> rfl
  | behind wanted width p ih => exact hp.elim
  | once p ih =>
    rw [ends, ends, ih hp, List.head?_map]
    cases (p.ends s).head? <;> rfl
  | given i p q ihp ihq =>
    rw [ends, ends, Point.part?_behind, ihp hp.1, ihq hp.2]
    split <;> rfl

/-! ## The same matches, farther on -/

theorem matchAt?_behind {p : Pattern ι} (hp : p.Overlooks front) (c : Cursor) :
    p.matchAt? (c.behind front) = (p.matchAt? c).map (Match.behind front) := by
  have h : p.ends ⟨c.behind front, []⟩ = (p.ends ⟨c, []⟩).map (Point.behind front) :=
    ends_behind hp ⟨c, []⟩
  rw [matchAt?_eq, matchAt?_eq, h, List.head?_map, Option.map_map, Option.map_map]
  rfl

/-- Where the matches at the places to come are the same, farther on, so are the successive ones. -/
theorem matchesFrom_behind_of {p : Pattern ι} {ok : Cursor → Prop} (hnext : ∀ c, ok c → ok c.next)
    (hat : ∀ c, ok c → p.matchAt? (c.behind front) = (p.matchAt? c).map (Match.behind front))
    (taken : Nat) {c : Cursor} (hc : ok c) :
    p.matchesFrom taken (c.behind front) = (p.matchesFrom taken c).map (Match.behind front) := by
  induction h : c.after generalizing taken c with
  | nil =>
    rw [matchesFrom_end h, matchesFrom_end (c := c.behind front) h, hat c hc]
    split
    · cases p.matchAt? c <;> rfl
    · rfl
  | cons x rest ih =>
    have hrest : c.next.after = rest := (Cursor.after_next_cons h).1
    have hfront : (c.behind front).after = x :: rest := h
    cases taken with
    | succ taken =>
      rw [matchesFrom_taken h, matchesFrom_taken hfront, Cursor.next_behind,
        ih _ (hnext c hc) hrest]
    | zero =>
      cases hm : p.matchAt? c with
      | none =>
        have hm' : p.matchAt? (c.behind front) = none := by rw [hat c hc, hm]; rfl
        rw [matchesFrom_none h hm, matchesFrom_none hfront hm', Cursor.next_behind,
          ih _ (hnext c hc) hrest]
      | some m =>
        have hm' : p.matchAt? (c.behind front) = some (m.behind front) := by
          rw [hat c hc, hm]
          rfl
        rw [matchesFrom_some h hm, matchesFrom_some hfront hm', Match.length_behind,
          Cursor.next_behind, ih _ (hnext c hc) hrest, List.map_cons]

theorem matchesFrom_behind {p : Pattern ι} (hp : p.Overlooks front) (taken : Nat) (c : Cursor) :
    p.matchesFrom taken (c.behind front) = (p.matchesFrom taken c).map (Match.behind front) := by
  let anywhere : Cursor → Prop := fun _ => True
  have hnext : ∀ c, anywhere c → anywhere c.next := fun _ _ => trivial
  exact matchesFrom_behind_of hnext (fun c _ => matchAt?_behind hp c) taken trivial

end Pattern
end ImportScan
