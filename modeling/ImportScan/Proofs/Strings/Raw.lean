import ImportScan.Proofs.Go.Layout
import ImportScan.Proofs.Grammar.Code
import ImportScan.Proofs.Lexis.LineEnding

/-!
# Raw strings

A string between grave accents knows no escapes, so the next accent ends it. The scan reads it as
any other string: a backslash takes the character behind it along. So a string that ends in an odd
number of backslashes (`Text.EndsEscaped`) goes on to the accent that was to open the next one, and
what stands in that one is read as code. As long as no string ends so, lines that define variables
as raw strings import nothing, and behind one that does the next may (`parse_rawLines`).
-/

namespace ImportScan

open Pattern Text

/-! ## Strings that end in backslashes -/

/-- The text ends in an odd number of backslashes, so the last of them would escape what comes
next. -/
def Text.EndsEscaped (t : Text) : Prop := (t.reverse.takeWhile (· == '\\')).length % 2 = 1

namespace Text

variable {t : Text}

instance (t : Text) : Decidable t.EndsEscaped := inferInstanceAs (Decidable (_ = _))

theorem not_endsEscaped_nil : ¬EndsEscaped [] := by decide

theorem endsEscaped_concat_backslash : EndsEscaped (t ++ ['\\']) ↔ ¬EndsEscaped t := by
  unfold EndsEscaped
  rw [List.reverse_concat, List.takeWhile_cons_of_pos rfl, List.length_cons]
  omega

theorem not_endsEscaped_concat {c : Char} (hc : c ≠ '\\') : ¬EndsEscaped (t ++ [c]) := by
  unfold EndsEscaped
  rw [List.reverse_concat, List.takeWhile_cons_of_neg (by simpa using hc)]
  exact Nat.zero_ne_one

end Text

/-- Behind a text that is not escaped at its end a raw string goes on with what follows; behind one
that is the next character belongs to the string. -/
theorem StringBody.raw_append {t : Text} (ht : backquote ∉ t) :
    (¬EndsEscaped t → ∀ u r, StringBody .backquote true u r →
      StringBody .backquote true (t ++ u) r) ∧
    (EndsEscaped t → ∀ x u r, StringBody .backquote true u r →
      StringBody .backquote true (t ++ x :: u) r) := by
  induction t using List.reverseRecOn with
  | nil => exact ⟨fun _ u r h => h, fun h => absurd h not_endsEscaped_nil⟩
  | append_singleton t c ih =>
    rw [List.mem_append, not_or, List.mem_singleton] at ht
    obtain ⟨hgoes, hescaped⟩ := ih ht.1
    simp only [List.append_assoc, List.singleton_append]
    by_cases hc : c = '\\'
    · subst hc
      rw [endsEscaped_concat_backslash, not_not]
      exact ⟨fun h u r hu => hescaped h '\\' u r hu,
        fun h x u r hu => hgoes h _ r (.escaped x hu)⟩
    · refine ⟨fun _ u r hu => ?_, fun h => absurd h (not_endsEscaped_concat hc)⟩
      by_cases h : EndsEscaped t
      · exact hescaped h c u r hu
      · exact hgoes h _ r (.plain hc (Marker.not_opens_of_head_ne (Ne.symm ht.2)) nofun hu)

namespace Go

open Grammar Segment

/-! ## Lines with raw strings -/

/-- What stands in front of the string. -/
def rawHead : Text := "var s = ".toList

/-- A line that defines a variable as the raw string `r`. -/
def rawLine (r : Text) : Text := rawHead ++ backquote :: (r ++ [backquote, '\n'])

/-- Lines that each define a variable as one of the raw strings. -/
def rawLines (rs : List Text) : Text := rs.flatMap rawLine

/-- What cleaning leaves of a string and what stands in front of it. -/
def shownRaw (contents : StringContents) (u : Text) : Text :=
  rawHead ++ (ofString .backquote (backquote :: u)).shown contents

theorem markerAt?_backquote (t : Text) :
    Lexis.slashedRaw.markerAt? (backquote :: t) = some .backquote := by
  have hothers : ∀ m ∈ Lexis.slashedRaw.openers, backquote = m.head → m.length ≤ 1 := by decide
  exact Lexis.markerAt?_eq_some_iff.2 ⟨by decide, Marker.opens_append _ t,
    fun m hm ho => hothers m hm (Marker.head_of_opens ho)⟩

theorem cleaned_raw_append {u rest : Text} (h : StringBody .backquote true u rest)
    (contents : StringContents) :
    go.lexis.cleaned contents (rawHead ++ backquote :: (u ++ rest)) =
      shownRaw contents u ++ go.lexis.cleaned contents rest := by
  have hsegments : go.lexis.segments (backquote :: (u ++ rest)) =
      ofString .backquote (backquote :: u) :: go.lexis.segments rest :=
    h.segments (markerAt?_backquote _) (by decide) (by decide) (by decide)
  rw [Lexis.cleaned_code_append (by decide), Lexis.cleaned, hsegments, List.flatMap_cons, shownRaw,
    List.append_assoc]
  rfl

theorem shownRaw_kept (u : Text) : shownRaw .kept u = rawHead ++ backquote :: u := by
  rw [shownRaw, shown_kept_ofString]

theorem of_mem_shownRaw {u : Text} {c : Char} (hc : c ∈ shownRaw .blanked u) :
    c ∈ rawHead ∨ c = backquote ∨ isBlank c = true := by
  refine (List.mem_append.1 hc).imp id fun hc => ?_
  exact (mem_shown_blanked_ofString (q := .backquote) hc).imp List.mem_singleton.1 id

/-- Cleaning takes a line off if its string does not end escaped. -/
theorem cleaned_rawLine_append {r : Text} (hr : backquote ∉ r) (hends : ¬EndsEscaped r)
    (contents : StringContents) (rest : Text) :
    go.lexis.cleaned contents (rawLine r ++ rest) =
      shownRaw contents (r ++ [backquote]) ++ '\n' :: go.lexis.cleaned contents rest := by
  have hbody : StringBody .backquote true (r ++ [backquote]) (['\n'] ++ rest) :=
    (StringBody.raw_append hr).1 hends _ _ (.closed _)
  have hline : rawLine r ++ rest =
      rawHead ++ backquote :: (r ++ [backquote] ++ (['\n'] ++ rest)) := by simp [rawLine]
  rw [hline, cleaned_raw_append hbody, Lexis.cleaned_code_append (by decide)]
  rfl

/-- What cleaning leaves of lines whose strings do not end escaped. -/
def shownLines (contents : StringContents) (rs : List Text) : Text :=
  rs.flatMap fun r => shownRaw contents (r ++ [backquote]) ++ ['\n']

theorem shownLines_kept (rs : List Text) : shownLines .kept rs = rawLines rs := by
  refine List.flatMap_congr fun r _ => ?_
  rw [shownRaw_kept, rawLine]
  simp

/-- Cleaning takes off line by line as long as no string ends escaped. -/
theorem cleaned_rawLines_append {rs : List Text} (hrs : ∀ r ∈ rs, backquote ∉ r ∧ ¬EndsEscaped r)
    (contents : StringContents) (rest : Text) :
    go.lexis.cleaned contents (rawLines rs ++ rest) =
      shownLines contents rs ++ go.lexis.cleaned contents rest := by
  induction rs with
  | nil => rfl
  | cons r rs ih =>
    obtain ⟨hraw, hends⟩ := hrs r List.mem_cons_self
    rw [rawLines, List.flatMap_cons, List.append_assoc, cleaned_rawLine_append hraw hends,
      ← rawLines, ih fun r' hr' => hrs r' (List.mem_cons_of_mem r hr'), shownLines, shownLines,
      List.flatMap_cons]
    simp only [List.append_assoc, List.cons_append, List.nil_append]

/-! ## Lines that import nothing -/

theorem headsSolid : ∀ form ∈ go.statements, HeadsSolid (· = 'i') form := by
  have hword : importHead.Needs fun c => isBlank c = false :=
    (needs_word ⟨'i', List.mem_cons_self, by decide⟩).after _
  have hheads {F : Follows} {p : Pattern Part} (hp : IsForm F p) (s : Point Part)
      (h : p.ends s ≠ []) : ∃ w x r, s.cursor.after = w ++ x :: r ∧ AllBlank w ∧
        isBlank x = false ∧ x = 'i' := by
    obtain ⟨e, he⟩ := List.exists_mem_of_ne_nil _ h
    obtain ⟨-, indent, gap, x, rest, hafter, hindent, -⟩ := hp.starts s e he
    exact ⟨indent, 'i', _, hafter, fun c hc => isBlank_of_isGap (hindent c hc), by decide, rfl⟩
  have hsingle : HeadsSolid (· = 'i') singleImport :=
    ⟨((hword.append _).append _).append _, hheads isForm_singleImport⟩
  have hgroup : HeadsSolid (· = 'i') groupImport :=
    ⟨(((hword.append _).append _).append _).append _, hheads isForm_groupImport⟩
  exact List.forall_mem_cons.2 ⟨hsingle, List.forall_mem_singleton.2 hgroup⟩

/-- Lines import nothing if no string ends escaped before the last. -/
theorem imports_rawLines {rs : List Text} {r : Text}
    (hrs : ∀ r ∈ rs, backquote ∉ r ∧ ¬EndsEscaped r) (hr : backquote ∉ r) :
    go.imports (rawLines (rs ++ [r])) = [] := by
  refine imports_eq_nil_of_heads headsSolid ?_
  have hshown (u : Text) : 'i' ∉ shownRaw .blanked u := by
    intro h
    rcases of_mem_shownRaw h with h | h | h
    · exact absurd h (by decide)
    · exact absurd h (by decide)
    · cases h
  have hnil : go.lexis.cleaned .blanked [] = [] := Lexis.cleaned_nil _ _
  have hlast : 'i' ∉ go.lexis.cleaned .blanked (rawLine r) := by
    by_cases h : EndsEscaped r
    · -- the string takes the accent along and has no end
      have hbody := (StringBody.raw_append hr).2 h backquote ['\n'] []
        (.plain (by decide) (by decide) nofun .unclosed)
      have hclean := cleaned_raw_append hbody .blanked
      rw [List.append_nil] at hclean
      rw [rawLine, hclean, hnil, List.append_nil]
      exact hshown _
    · have hclean := cleaned_rawLine_append hr h .blanked []
      rw [List.append_nil] at hclean
      rw [hclean, hnil, List.mem_append, not_or]
      exact ⟨hshown _, by decide⟩
  rintro c hc rfl
  rw [rawLines, List.flatMap_append, List.flatMap_singleton, ← rawLines,
    cleaned_rawLines_append hrs] at hc
  rcases List.mem_append.1 hc with hc | hc
  · obtain ⟨r', -, hc⟩ := List.mem_flatMap.1 hc
    rcases List.mem_append.1 hc with hc | hc
    · exact hshown _ hc
    · exact absurd hc (by decide)
  · exact hlast hc

/-! ## A string read as code -/

/-- What a single import takes: its word, a gap and perhaps a name, and then a quoted path. -/
theorem exists_of_matchAt?_single {c : Cursor} {m : Match Part}
    (hm : singleImport.pattern.matchAt? c = some m) : Starts FollowsSingle c.after ∧
      ∃ head q name, m.text = head ++ q :: (name ++ [q]) ∧ (∀ x ∈ head, x ≠ '\n' ∧ x ≠ '=') ∧
        (q = '"' ∧ '\n' ∉ name ∨ q = backquote ∧ backquote ∉ name) := by
  obtain ⟨-, hstop⟩ := exists_mem_ends_of_matchAt? hm
  refine ⟨(isForm_singleImport.starts _ _ hstop).2, ?_⟩
  obtain ⟨s, hs, hpath⟩ := mem_ends_append.1 hstop
  have htakes : (importHead ++ gaps1 ++ maybe (some1 isDotted ++ gaps1) : Pattern Part).Takes
      fun x => x ≠ '\n' ∧ x ≠ '=' := by
    have hclass {p : Char → Bool} (hp : p '\n' = false ∧ p '=' = false) :
        ∀ x, p x = true → x ≠ '\n' ∧ x ≠ '=' := by
      intro x hx
      constructor <;> rintro rfl
      · exact absurd hx (by simp [hp.1])
      · exact absurd hx (by simp [hp.2])
    have hgap := hclass (p := isGap) ⟨rfl, rfl⟩
    have hdotted := hclass (p := isDotted) ⟨rfl, rfl⟩
    exact ⟨⟨⟨⟨trivial, hgap⟩, takes_text (by decide)⟩, hgap⟩, ⟨hdotted, hgap⟩, trivial⟩
  obtain ⟨head, rest, hafter, hhead, hcursor⟩ := isBehind_of_mem_ends htakes hs
  obtain ⟨q, name, rest', hs', hrest, hq⟩ := exists_of_mem_ends_importPath hpath
  refine ⟨head, q, name, ?_, hhead, hq⟩
  have hall := (after_eq_of_matchAt? hm).1
  dsimp only at hafter hcursor
  rw [hcursor, Cursor.after_skip, hafter, List.drop_left] at hs'
  rw [hafter, hs', hrest] at hall
  have htail : head ++ q :: (name ++ [q]) ++ rest' = m.text ++ rest' := by
    rw [← hall]
    simp
  exact (List.append_cancel_right htail).symm

/-- If the newline behind an opening accent stands in what a single import takes, the accent opens
its path. -/
theorem exists_head_of_newline {z w head name : Text} {q : Char}
    (hhead : ∀ x ∈ head, x ≠ '\n' ∧ x ≠ '=')
    (hq : q = '"' ∧ '\n' ∉ name ∨ q = backquote ∧ backquote ∉ name)
    (h : z ++ '\n' :: w = head ++ q :: (name ++ [q])) :
    ∃ front, z = head ++ backquote :: front ∧ backquote ∉ front := by
  have hqline : q ≠ '\n' := by
    rcases hq with ⟨rfl, -⟩ | ⟨rfl, -⟩ <;> decide
  rcases List.append_eq_append_iff.1 h with ⟨u, hu, hrest⟩ | ⟨u, rfl, hrest⟩
  · cases u with
    | nil => exact absurd (List.cons.inj hrest).1.symm hqline
    | cons y u =>
      obtain ⟨rfl, -⟩ := List.cons.inj hrest
      exact absurd rfl (hhead '\n' (hu ▸ List.mem_append_right z List.mem_cons_self)).1
  · cases u with
    | nil => exact absurd (List.cons.inj hrest).1 hqline
    | cons y u =>
      obtain ⟨rfl, hname⟩ := List.cons.inj hrest
      rcases List.eq_nil_or_concat w with rfl | ⟨w, y, rfl⟩
      · have hlast : name ++ [q] = u ++ ['\n'] := hname
        exact absurd (List.singleton_inj.1 (List.append_inj_right' hlast rfl)) hqline
      · obtain rfl : name = u ++ '\n' :: w := by
          have hlast : name ++ [q] = u ++ '\n' :: w ++ [y] := by simpa using hname
          exact List.append_inj_left' hlast rfl
        rcases hq with ⟨-, hline⟩ | ⟨rfl, hraw⟩
        · exact absurd (List.mem_append_right u List.mem_cons_self) hline
        · exact ⟨u, rfl, fun hmem => hraw (List.mem_append_left _ hmem)⟩

/-- A single import that starts in front of the text of a raw string ends there. -/
theorem length_le_of_matchAt?_single {a b f u v : Text} {x : Char} {m : Match Part}
    (huv : f ++ (rawHead ++ [backquote, '\n']) = u ++ x :: v)
    (hm : singleImport.pattern.matchAt? (.between a (x :: (v ++ b))) = some m) :
    m.length ≤ (x :: v).length := by
  obtain ⟨hstarts, head, q, name, htext, hhead, hq⟩ := exists_of_matchAt?_single hm
  obtain ⟨hafter, hlen⟩ := after_eq_of_matchAt? hm
  rw [Cursor.after_between, ← List.cons_append] at hafter hstarts
  refine Nat.le_of_not_lt fun hlong => ?_
  -- the match takes the newline behind the accent
  obtain ⟨z, y, hz⟩ := (List.eq_nil_or_concat (x :: v)).resolve_left (List.cons_ne_nil x v)
  rw [List.concat_eq_append] at hz
  have hends : f ++ (rawHead ++ [backquote]) ++ ['\n'] = u ++ z ++ [y] := by
    rw [List.append_assoc u, ← hz, ← huv]
    simp
  obtain rfl : '\n' = y := List.singleton_inj.1 (List.append_inj_right' hends rfl)
  have hz' : f ++ rawHead ++ [backquote] = u ++ z := by
    rw [List.append_assoc]
    exact List.append_inj_left' hends rfl
  obtain ⟨w, hw⟩ : x :: v <+: m.text :=
    List.prefix_of_prefix_length_le (List.prefix_append _ b) ⟨_, hafter.symm⟩ (by omega)
  rw [hz, htext, List.append_assoc, List.singleton_append] at hw
  obtain ⟨front, rfl, hfront⟩ := exists_head_of_newline hhead hq hw
  -- so the accent opens its path, and what stands before the accent is all of its head
  obtain rfl : front = [] := by
    rcases List.eq_nil_or_concat front with h | ⟨front, y, rfl⟩
    · exact h
    · rw [List.concat_eq_append, ← List.cons_append, ← List.append_assoc,
        ← List.append_assoc] at hz'
      have hy := List.singleton_inj.1 (List.append_inj_right' hz' rfl)
      exact absurd (by simp [hy]) hfront
  have hhead' : f ++ rawHead = u ++ head := by
    rw [← List.append_assoc] at hz'
    exact List.append_inj_left' hz' rfl
  have hlayout : IsLayout head := by
    rcases List.append_eq_append_iff.1 hhead' with ⟨a, -, hsuffix⟩ | ⟨a, -, rfl⟩
    · have hall : ∀ t ∈ rawHead.tails, '=' ∈ t ∨ ∀ c ∈ t, isGap c = true := by decide
      have hmem : head ∈ rawHead.tails := (List.mem_tails _ _).2 ⟨a, hsuffix.symm⟩
      rcases hall head hmem with h | h
      · exact absurd rfl (hhead '=' h).2
      · exact fun c hc => .inl (h c hc)
    · exact absurd rfl (hhead '=' (List.mem_append_right a (by decide))).2
  rw [hz, List.append_assoc, List.append_assoc] at hstarts
  exact not_starts_cons (by decide) (by decide) _ (hstarts.of_layout_append hlayout).2

/-- A single import on the line behind an opening accent is found. -/
theorem mem_imports_of_accent {t f rest codeFront codeRest : Text} (i : Single)
    (hkept : go.lexis.cleaned .kept t = f ++ (rawHead ++ [backquote, '\n']) ++ (i.text ++ rest))
    (hcode : go.lexis.cleaned .blanked t = codeFront ++ 'i' :: codeRest)
    (hlen : codeFront.length = (f ++ (rawHead ++ [backquote, '\n'])).length) :
    i.path ∈ go.imports t := by
  let front := f ++ (rawHead ++ [backquote, '\n'])
  have hline : EndsLine front := by simp [front, EndsLine]
  obtain ⟨m, hm, htext, hname⟩ := i.spec.exists_match_single i.gap ⟨[], by simp⟩ hline rest
  have hfound : m ∈ singleImport.pattern.matchesIn (go.lexis.cleaned go.strings t) := by
    have hplace : Cursor.atStart (go.lexis.cleaned go.strings t) =
        .between [] (front ++ (i.text ++ rest)) := congrArg Cursor.atStart hkept
    unfold matchesIn
    rw [hplace]
    exact mem_matchesFrom_of_matchAt? hm (Nat.zero_le _) fun u x v m' huv hm' =>
      length_le_of_matchAt?_single huv hm'
  have hstart : startsInCode (go.lexis.cleaned .blanked t).toArray m = true := by
    have hfirst : m.firstOffset = codeFront.length := by
      rw [Match.firstOffset, offset_of_matchAt? hm, Cursor.offset_between, htext, hlen]
      rfl
    unfold startsInCode
    rw [hcode, hfirst, List.getElem?_toArray, List.getElem?_append_right (Nat.le_refl _),
      Nat.sub_self]
    rfl
  refine mem_imports_of_mem_matchesIn (fun _ => rfl) List.mem_cons_self hfound hstart ?_
  simp only [singleImport, Match.partOrEmpty, hname, Option.getD_some, i.spec.trim_path,
    Single.path, List.mem_singleton]

/-- A raw string with an import on a line of its own. -/
def importText (i : Single) : Text := '\n' :: (i.text ++ ['\n'])

/-- Behind a string that ends escaped the next is read as code. -/
theorem mem_imports_importText {rs : List Text} {r : Text}
    (hrs : ∀ r ∈ rs, backquote ∉ r ∧ ¬EndsEscaped r) (hr : backquote ∉ r) (hends : EndsEscaped r)
    (i : Single) : i.path ∈ go.imports (rawLines (rs ++ [r, importText i])) := by
  let front := rawLines rs ++ (rawHead ++ backquote :: (r ++ [backquote, '\n']))
  let inside : Text := r ++ backquote :: '\n' :: (rawHead ++ [backquote])
  let rest : Text := i.text ++ ['\n', backquote, '\n']
  have htext : rawLines (rs ++ [r, importText i]) =
      rawLines rs ++ (rawHead ++ backquote :: (inside ++ '\n' :: rest)) := by
    simp [rawLines, rawLine, importText, inside, rest]
  have hbody : StringBody .backquote true inside ('\n' :: rest) := by
    have hopens := (StringBody.raw_append (t := '\n' :: rawHead) (by decide)).1 (by decide) _ _
      (.closed ('\n' :: rest))
    exact (StringBody.raw_append hr).2 hends _ _ _ hopens
  have hclean (contents : StringContents) :
      go.lexis.cleaned contents (rawLines (rs ++ [r, importText i])) =
        shownLines contents rs ++ shownRaw contents inside ++ ['\n'] ++
          go.lexis.cleaned contents rest := by
    have hline : go.lexis.cleaned contents ('\n' :: rest) =
        ['\n'] ++ go.lexis.cleaned contents rest :=
      Lexis.cleaned_code_append (a := ['\n']) (by decide) contents rest
    rw [htext, cleaned_rawLines_append hrs, cleaned_raw_append hbody, hline]
    simp only [List.append_assoc]
  have hrest : go.lexis.cleaned .kept rest = rest := by
    have hend : go.lexis.cleaned .kept ['\n', backquote, '\n'] = ['\n', backquote, '\n'] := by
      decide +kernel
    have hsegments : showAll .kept i.segments = i.text := showAll_kept_segments i.spec _
    rw [i.cleaned_append .kept (startsUnquoted_cons (by decide) _), hsegments, hend]
  have hcode : go.lexis.cleaned .blanked rest = ['i'] ++ go.lexis.cleaned .blanked (rest.drop 1) :=
    Lexis.cleaned_code_append (a := ['i']) (by decide) .blanked _
  have hkept : go.lexis.cleaned .kept (rawLines (rs ++ [r, importText i])) =
      front ++ (rawHead ++ [backquote, '\n']) ++ (i.text ++ ['\n', backquote, '\n']) := by
    rw [hclean, hrest, shownLines_kept, shownRaw_kept]
    simp [front, inside, rest]
  have hblanked : go.lexis.cleaned .blanked (rawLines (rs ++ [r, importText i])) =
      shownLines .blanked rs ++ shownRaw .blanked inside ++ ['\n'] ++
        'i' :: go.lexis.cleaned .blanked (rest.drop 1) := by
    rw [hclean, hcode]
    rfl
  refine mem_imports_of_accent i hkept hblanked ?_
  have hlength := congrArg List.length (hclean .blanked)
  simp only [htext, Lexis.length_cleaned, List.length_append, List.length_cons, List.length_nil,
    front, inside] at hlength ⊢
  omega

/-! ## Lists of raw strings -/

/-- Lines that define variables as raw strings import nothing if no string but the last ends in an
odd number of backslashes. Whatever raw string then comes next imports nothing either if and only if
the last does not end so. -/
theorem parse_rawLines {rs : List Text} {r : Text}
    (hrs : ∀ r ∈ rs, backquote ∉ r ∧ ¬EndsEscaped r) (hr : backquote ∉ r) :
    Parser.go.parse (rawLines (rs ++ [r])) = .ok [] ∧
      ((∀ next, backquote ∉ next → Parser.go.parse (rawLines (rs ++ [r, next])) = .ok []) ↔
        ¬EndsEscaped r) := by
  have hparse (t : Text) : Parser.go.parse t = .ok (go.imports t) := Parser.parse_eq_imports rfl t
  refine ⟨by rw [hparse, imports_rawLines hrs hr], fun h hends => ?_, fun hends next hnext => ?_⟩
  · let i : Single := ⟨⟨[' '], by decide, by decide⟩, ⟨none, .double, ⟨['x'], by decide⟩⟩⟩
    have hnext := h (importText i) (by decide)
    rw [hparse] at hnext
    have hmem := mem_imports_importText hrs hr hends i
    rw [Except.ok.inj hnext] at hmem
    cases hmem
  · have hall : ∀ r' ∈ rs ++ [r], backquote ∉ r' ∧ ¬EndsEscaped r' :=
      List.forall_mem_append.2 ⟨hrs, List.forall_mem_singleton.2 ⟨hr, hends⟩⟩
    have hnone := imports_rawLines hall hnext
    rw [List.append_assoc, List.singleton_append] at hnone
    rw [hparse, hnone]

/-- A backslash in a raw string swaps code and strings behind it. -/
theorem parse_rawLines_backslash :
    (∀ r ∈ ["import".toList], backquote ∉ r ∧ ¬EndsEscaped r) ∧ backquote ∉ ['\\'] ∧
      EndsEscaped ['\\'] ∧
      Parser.go.parse (rawLines ["import".toList, ['\\'], "\nimport \"x\"\n".toList]) =
        .ok [['x']] ∧
      ¬∀ next, backquote ∉ next →
        Parser.go.parse (rawLines (["import".toList] ++ [['\\'], next])) = .ok [] := by
  have hrs : ∀ r ∈ ["import".toList], backquote ∉ r ∧ ¬EndsEscaped r := by decide
  have hr : backquote ∉ ['\\'] := by decide
  have hends : EndsEscaped ['\\'] := by decide
  exact ⟨hrs, hr, hends, by decide +kernel, fun h => (parse_rawLines hrs hr).2.1 h hends⟩

end Go
end ImportScan
