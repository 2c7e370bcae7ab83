import ImportScan.Grammar.Go
import ImportScan.Proofs.Go.Syntax
import ImportScan.Proofs.Pattern.Preferred

/-!
# Quoted paths

The pattern of a path takes the quoted path of a spec (`Spec.prefers_importPath`) and starts nowhere
but at a quote (`head_of_ends_importPath`), so the paths quoted in a list of specs are its paths, in
order, whatever layout stands between them (`Specs.entries_shown`).
-/

namespace ImportScan.Go

open Grammar Pattern Segment Text

variable {a b t w : Text} {s : Point Part}

/-! ## Quoted paths -/

section Paths

/-- A name between two characters. -/
def enclosed (c : Char) (p : Char → Bool) : Pattern Part :=
  char c ++ .part .name (some0 p) ++ char c

theorem importPath_eq : importPath =
    (enclosed '"' (fun c => c != '"' && c != '\n') ||| enclosed backquote (· != backquote)) := rfl

theorem prefers_enclosed {c : Char} {p : Char → Bool} {rest : Text}
    (hs : s.cursor.after = c :: (t ++ c :: rest)) (ht : ∀ x ∈ t, p x = true) (hc : p c = false) :
    ∃ e, (enclosed c p).Prefers s e ∧ e.cursor.after = rest ∧ e.part? .name = some t := by
  let opened := s.skip 1
  let named := (opened.skip t.length).mark .name opened.cursor
  have hopened : opened.cursor.after = t ++ c :: rest := Point.after_skip_of_eq (t := [c]) hs
  have hnamed : named.cursor.after = c :: rest := Point.after_skip_of_eq hopened
  have hopen : (char c : Pattern Part).Prefers s opened := prefers_one hs (by simp)
  have hname : (some0 p).Prefers opened (opened.skip t.length) := by
    apply prefers_run hopened ht
    · rintro x ⟨⟩
      exact hc
    · exact Nat.zero_le _
  have hclose : (char c : Pattern Part).Prefers named (named.skip 1) := prefers_one hnamed (by simp)
  refine ⟨named.skip 1, (hopen.append (hname.part .name)).append hclose, ?_, ?_⟩
  · exact Point.after_skip_of_eq (t := [c]) hnamed
  · exact Point.part?_mark (s := opened.skip t.length) hopened rfl Part.name

theorem Spec.prefers_importPath (spec : Spec) {rest : Text}
    (hs : s.cursor.after = spec.literal ++ rest) : ∃ e, importPath.Prefers s e ∧
      e.cursor.after = rest ∧ e.part? .name = some spec.path.val := by
  have hpath : ∀ c ∈ spec.path.val, c ≠ '"' ∧ c ≠ '\n' ∧ c ≠ backquote := by
    intro c hc
    obtain ⟨hblank, hmark⟩ := spec.path.2 c hc
    refine ⟨?_, ?_, ?_⟩ <;> rintro rfl
    · exact hmark (by decide)
    · exact absurd hblank (by decide)
    · exact hmark (by decide)
  have hafter : s.cursor.after =
      spec.quote.char :: (spec.path.val ++ spec.quote.char :: rest) := by
    rw [hs, literal]
    simp
  rw [importPath_eq]
  cases hq : spec.quote with
  | double =>
    rw [hq] at hafter
    obtain ⟨e, he, hrest, hname⟩ := prefers_enclosed (c := '"')
      (p := fun c => c != '"' && c != '\n') hafter
      (fun c hc => by simp [(hpath c hc).1, (hpath c hc).2.1]) (by decide)
    exact ⟨e, he.or_left, hrest, hname⟩
  | back =>
    rw [hq] at hafter
    have hdouble : (enclosed '"' (fun c => c != '"' && c != '\n')).ends s = [] := by
      have hopen : (char '"' : Pattern Part).ends s = [] := by
        unfold char
        rw [ends_one hafter, if_neg (by decide)]
      unfold enclosed
      rw [ends_append_assoc, ends_append, hopen]
      rfl
    obtain ⟨e, he, hrest, hname⟩ := prefers_enclosed (c := backquote) (p := (· != backquote))
      hafter (fun c hc => by simp [(hpath c hc).2.2]) (by decide)
    exact ⟨e, .or_right hdouble he, hrest, hname⟩

theorem Spec.trim_path (spec : Spec) : trim spec.path.val = spec.path.val :=
  trim_eq_self_of_forall fun c hc => (spec.path.2 c hc).1

theorem exists_of_mem_ends_enclosed {c : Char} {p : Char → Bool} {e : Point Part}
    (he : e ∈ (enclosed c p).ends s) : ∃ name rest, s.cursor.after = c :: (name ++ c :: rest) ∧
      (∀ x ∈ name, p x = true) ∧ e.cursor.after = rest := by
  obtain ⟨m, hm, hclose⟩ := mem_ends_append.1 he
  obtain ⟨opened, hopen, hm⟩ := mem_ends_append.1 hm
  obtain ⟨x, after, hs, hx, rfl⟩ := mem_ends_one.1 hopen
  obtain ⟨named, hname, rfl⟩ := mem_ends_part.1 hm
  obtain ⟨name, after', hafter, hclass, -, rfl⟩ := mem_ends_run.1 hname
  obtain ⟨y, rest, hrest, hy, rfl⟩ := mem_ends_one.1 hclose
  obtain rfl : x = c := eq_of_beq hx
  obtain rfl : y = x := eq_of_beq hy
  have hopened : (s.skip 1).cursor.after = after := Point.after_skip_of_eq (t := [y]) hs
  have hnamed : after' = y :: rest := (Point.after_skip_of_eq hafter).symm.trans hrest
  refine ⟨name, rest, ?_, hclass, Point.after_skip_of_eq (t := [y]) hrest⟩
  rw [hs, ← hopened, hafter, hnamed]

/-- A quoted path stands between two double quotes on one line or between two grave accents. -/
theorem exists_of_mem_ends_importPath {e : Point Part} (he : e ∈ importPath.ends s) :
    ∃ q name rest, s.cursor.after = q :: (name ++ q :: rest) ∧ e.cursor.after = rest ∧
      (q = '"' ∧ '\n' ∉ name ∨ q = backquote ∧ backquote ∉ name) := by
  rw [importPath_eq] at he
  rcases mem_ends_or.1 he with he | he
  · obtain ⟨name, rest, hs, hname, hrest⟩ := exists_of_mem_ends_enclosed he
    exact ⟨'"', name, rest, hs, hrest, .inl ⟨rfl, fun h => absurd (hname _ h) (by decide)⟩⟩
  · obtain ⟨name, rest, hs, hname, hrest⟩ := exists_of_mem_ends_enclosed he
    exact ⟨backquote, name, rest, hs, hrest, .inr ⟨rfl, fun h => absurd (hname _ h) (by decide)⟩⟩

/-- A quoted path starts with a quote. -/
theorem head_of_ends_importPath (h : importPath.ends s ≠ []) :
    ∃ c rest, s.cursor.after = c :: rest ∧ (c = '"' ∨ c = backquote) := by
  obtain ⟨e, he⟩ := List.exists_mem_of_ne_nil _ h
  obtain ⟨q, name, rest, hs, -, hq⟩ := exists_of_mem_ends_importPath he
  exact ⟨q, _, hs, hq.imp And.left And.left⟩

end Paths

/-! ## The paths in a text -/

section Entries

/-- The paths quoted in the text `a ++ b` from the end of `a` on. -/
def entries (a b : Text) : List Text :=
  (importPath.matchesFrom 0 (.between a b)).map fun m => trim (m.partOrEmpty .name)

theorem entries_skip (ht : ∀ c ∈ t, c ≠ '"' ∧ c ≠ backquote) :
    entries a (t ++ b) = entries (a ++ t) b := by
  have hnone : importPath.NoneIn a t b := by
    apply noneIn_of_head (fun s => head_of_ends_importPath)
    rintro c hc (rfl | rfl)
    · exact (ht _ hc).1 rfl
    · exact (ht _ hc).2 rfl
  unfold entries
  rw [matchesFrom_skip hnone]

theorem entries_nil (a : Text) : entries a [] = [] := by
  have hnone : importPath.ends ⟨.between a [], []⟩ = [] := by
    refine ends_end (fun s e he => ?_) a
    obtain ⟨c, rest, hs, -⟩ := head_of_ends_importPath (List.ne_nil_of_mem he)
    simp [hs]
  unfold entries
  rw [matchesFrom_end (Cursor.after_between a []), if_pos rfl, matchAt?_eq_none_iff.2 hnone]
  rfl

theorem entries_literal (spec : Spec) :
    entries a (spec.literal ++ b) = spec.path.val :: entries (a ++ spec.literal) b := by
  obtain ⟨e, he, hrest, hname⟩ :=
    spec.prefers_importPath (s := ⟨.between a (spec.literal ++ b), []⟩) rfl
  obtain ⟨m, hm, htext, hpart⟩ := exists_match_of_prefers he hrest
  have hlength : m.length = spec.literal.length :=
    (after_eq_of_matchAt? hm).2.trans (congrArg List.length htext)
  have hne : spec.literal ≠ [] := List.cons_ne_nil _ _
  unfold entries
  rw [matchesFrom_match hne hm hlength, List.map_cons, Match.partOrEmpty, hpart,
    hname, Option.getD_some, spec.trim_path]

theorem not_quote_of_isLayout (hw : w.IsLayout) : ∀ c ∈ w, c ≠ '"' ∧ c ≠ backquote := by
  intro c hc
  constructor <;> rintro rfl
  · exact hw.not_mem (by decide) (by decide) hc
  · exact hw.not_mem (by decide) (by decide) hc

theorem Spec.not_quote_newNameText (spec : Spec) :
    ∀ c ∈ spec.newNameText, c ≠ '"' ∧ c ≠ backquote := by
  intro c hc
  have hcode := spec.isCode_newNameText c hc
  exact ⟨hcode .doubleQuote (by decide), hcode .backquote (by decide)⟩

theorem showAll_kept_segments (spec : Spec) (before : Text) :
    showAll .kept (spec.segments before) = before ++ spec.text := by
  have hstring : Segment.shown .kept (.string [spec.quote.char] spec.path.val [spec.quote.char]) =
      spec.literal := rfl
  rw [spec.showAll_segments, hstring, List.append_assoc, Spec.text]

theorem entries_text (spec : Spec) :
    entries a (spec.text ++ b) = spec.path.val :: entries (a ++ spec.text) b := by
  rw [Spec.text, List.append_assoc, entries_skip spec.not_quote_newNameText, entries_literal,
    List.append_assoc]

theorem entries_others (others : List Further) :
    entries a (showAll .kept (furtherSegments [] others) ++ b) =
      others.map (·.spec.path.val) ++
        entries (a ++ showAll .kept (furtherSegments [] others)) b := by
  induction others generalizing a with
  | nil => simp [furtherSegments]
  | cons f others ih =>
    have hshown : showAll .kept (furtherSegments [] (f :: others)) =
        f.sep.val.layout ++ (f.spec.text ++ showAll .kept (furtherSegments [] others)) := by
      rw [furtherSegments, List.flatMap_cons, showAll_append, showAll_append, showAll_code,
        showAll_kept_segments, List.append_assoc]
      rfl
    have hlayout := not_quote_of_isLayout f.sep.val.isLayout_layout
    rw [hshown, List.append_assoc, List.append_assoc, entries_skip hlayout, entries_text, ih]
    simp only [List.map_cons, List.cons_append, List.append_assoc]

/-- The paths quoted in a list of specs are its paths. -/
theorem Specs.entries_shown (specs : Specs) :
    entries a (showAll .kept (specs.segments []) ++ b) =
      specs.paths ++ entries (a ++ showAll .kept (specs.segments [])) b := by
  have hshown : showAll .kept (specs.segments []) = specs.lead.layout ++
      (specs.first.text ++ showAll .kept (furtherSegments [] specs.others)) := by
    rw [segments, showAll_append, showAll_append, showAll_code, showAll_kept_segments]
    rfl
  have hlayout := not_quote_of_isLayout specs.lead.isLayout_layout
  rw [hshown, List.append_assoc, List.append_assoc, entries_skip hlayout, entries_text,
    entries_others]
  simp only [paths, List.cons_append, List.append_assoc]

end Entries

end ImportScan.Go
