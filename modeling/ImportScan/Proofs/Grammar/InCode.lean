import ImportScan.Proofs.Grammar.Code
import ImportScan.Proofs.Grammar.Lines
import ImportScan.Proofs.Lexis.Zones

/-!
# Where the statements that count start

A form of statement is sought in a text in which string contents may be kept, and what is found
counts if it starts in code. Asked for the zone of its first solid character, that test is exact
(`zone_of_startsSolid`): white space is all that cleaning leaves of a comment, so no statement
starts in one, and the two cleaned texts differ in nothing but the contents of strings. So names are
never read off a statement that starts in a comment or a string, and none is left out for another
reason (`names_start_in_code`).
-/

namespace ImportScan

open Pattern Text

/-- The first character of the match that is not white space is `c`, at the offset `n`. -/
def Match.StartsSolid (m : Match Part) (n : Nat) (c : Char) : Prop :=
  ∃ w r, m.text = w ++ c :: r ∧ AllBlank w ∧ isBlank c = false ∧ n = m.offset + w.length

/-- Of a comment cleaning leaves white space, and of the contents of a string if told. -/
theorem Zone.isBlank_shown {z : Zone} {contents : StringContents} {c : Char}
    (h : z = .comment ∨ z = .contents ∧ contents = .blanked) :
    isBlank (z.shown contents c) = true := by
  have hblank : isBlank (if c = '\n' then '\n' else ' ') = true := by split <;> rfl
  rcases h with rfl | ⟨rfl, rfl⟩
  · exact hblank
  · exact hblank

namespace Grammar

variable {g : Grammar} {t : Text} {s : Statement} {m : Match Part}

/-- The names that a match of a statement gives to the imports of `t`. -/
def namesFrom (g : Grammar) (t : Text) (s : Statement) (m : Match Part) : List Text :=
  if startsInCode (g.lexis.cleaned .blanked t).toArray m then
    if (g.scopes (g.lexis.cleaned g.strings t)).inside m.offset then [] else s.names m
  else []

theorem imports_eq_flatMap_namesFrom (g : Grammar) (t : Text) :
    g.imports t =
      (g.found (g.lexis.cleaned g.strings t)).flatMap fun f => g.namesFrom t f.1 f.2 := by
  rw [imports_eq]
  induction g.found (g.lexis.cleaned g.strings t) with
  | nil => rfl
  | cons f found ih =>
    rw [List.flatMap_cons, ← ih, List.filter_cons, namesFrom]
    split
    · rw [List.flatMap_cons]
    · rfl

/-- A match that takes more than white space has a first solid character. -/
theorem exists_startsSolid (hneeds : s.pattern.Needs fun c => isBlank c = false) {u : Text}
    (hm : m ∈ s.pattern.matchesIn u) : ∃ n c, m.StartsSolid n c := by
  obtain ⟨c, hc, -, -⟩ := exists_matchAt?_of_mem_matchesFrom hm
  obtain ⟨w, x, r, htext, hw, hx⟩ :=
    exists_first (p := fun c => !isBlank c) (by simpa using hneeds.exists_mem_text hc)
  exact ⟨_, x, w, r, htext, by simpa [AllBlank] using hw, by simpa using hx, rfl⟩

/-- The first solid character of a match stands in the text and in what was searched. It is not in a
comment, and the statement starts in code if and only if it is not in the contents of a string. -/
theorem zone_of_startsSolid (hm : m ∈ s.pattern.matchesIn (g.lexis.cleaned g.strings t)) {n : Nat}
    {c : Char} (hsolid : m.StartsSolid n c) :
    ∃ z, (g.lexis.zones t)[n]? = some z ∧ z ≠ .comment ∧ t[n]? = some c ∧
      (g.lexis.cleaned g.strings t)[n]? = some c ∧
      (g.lexis.cleaned .blanked t)[n]? = some (z.shown .blanked c) ∧
      (startsInCode (g.lexis.cleaned .blanked t).toArray m = true ↔ z ≠ .contents) := by
  obtain ⟨w, r, htext, hw, hc, rfl⟩ := hsolid
  obtain ⟨hfirst, hsearched⟩ := getElem?_firstOffset hm htext hw hc
  rw [hfirst] at hsearched
  have hn : m.offset + w.length < t.length := by
    rw [← g.lexis.length_cleaned g.strings t]
    exact (List.getElem?_eq_some_iff.1 hsearched).1
  obtain ⟨z, d, hz, hd, hshown⟩ := g.lexis.getElem?_cleaned hn
  have hcd : z.shown g.strings d = c := Option.some.inj ((hshown _).symm.trans hsearched)
  have hcomment : z ≠ .comment := by
    intro h
    rw [← hcd, Zone.isBlank_shown (.inl h)] at hc
    cases hc
  obtain rfl : d = c := by
    cases z with
    | comment => exact absurd rfl hcomment
    | code | quote => exact hcd
    | contents =>
      cases hs : g.strings with
      | kept => rwa [hs] at hcd
      | blanked =>
        rw [← hcd, Zone.isBlank_shown (.inr ⟨rfl, hs⟩)] at hc
        cases hc
  refine ⟨z, hz, hcomment, hd, hsearched, hshown .blanked, ?_⟩
  rw [startsInCode, hfirst, List.getElem?_toArray, hshown]
  cases z with
  | comment => exact absurd rfl hcomment
  | code | quote => simp [Zone.shown, hc]
  | contents => simp [Zone.isBlank_shown]

end Grammar

namespace Parser

open Grammar

/-- Whatever a statement looks like, there is more to it than white space. -/
theorem needs_solid {p : Parser} {g : Grammar} (h : p.grammar? = some g) :
    ∀ s ∈ g.statements, s.pattern.Needs fun c => isBlank c = false := by
  by_cases hp : p ∈ lineBased
  · exact fun s hs => ((lineBased_grammar hp h).statements s hs).needs
  have himport : (word "import" : Pattern Part).Needs fun c => isBlank c = false :=
    needs_word ⟨'i', by decide⟩
  have hfrom : (word "from" : Pattern Part).Needs fun c => isBlank c = false :=
    needs_word ⟨'f', by decide⟩
  have hchar {c : Char} (hc : isBlank c = false) :
      (char c : Pattern Part).Needs fun c => isBlank c = false :=
    needs_text (t := [c]) ⟨c, List.mem_singleton_self c, hc⟩
  cases p with
  | go =>
    obtain rfl := Option.some.inj h
    refine List.forall_mem_cons.2 ⟨?_, List.forall_mem_singleton.2 ?_⟩
    · exact himport.after _ |>.append _ |>.append _ |>.append _
    · exact (hchar rfl).after _
  | html =>
    obtain rfl := Option.some.inj h
    exact List.forall_mem_singleton.2 ((hchar rfl).after _ |>.append _ |>.append _)
  | javaScript =>
    obtain rfl := Option.some.inj h
    have hcall (keyword : String) :
        (moduleCall keyword).pattern.Needs fun c => isBlank c = false := (hchar rfl).after _
    refine List.forall_mem_cons.2 ⟨?_, List.forall_mem_cons.2 ⟨?_, List.forall_mem_cons.2
      ⟨hcall _, List.forall_mem_singleton.2 (hcall _)⟩⟩⟩
    · exact himport.after _ |>.append _ |>.append _ |>.append _
    · exact hfrom.after _ |>.append _ |>.append _
  | php =>
    obtain rfl := Option.some.inj h
    exact List.forall_mem_singleton.2 ((hchar rfl).after _)
  | python =>
    obtain rfl := Option.some.inj h
    refine List.forall_mem_cons.2 ⟨?_, List.forall_mem_singleton.2 ?_⟩
    · exact himport.after _ |>.append _ |>.append _
    · exact himport.after _ |>.append _
  | rust =>
    obtain rfl := Option.some.inj h
    refine List.forall_mem_cons.2 ⟨?_, List.forall_mem_singleton.2 ?_⟩
    · exact (hchar rfl).after _
    · exact (needs_word ⟨'e', by decide⟩).after _ |>.append _ |>.append _ |>.append _ |>.append _
  | json | noOp => cases h
  | _ => simp [lineBased] at hp

/-- **Names are read off code**: the imports are the names that the matches of the forms give, and a
match gives names only if its first solid character is neither in a comment nor in the contents of a
string, so that it is the same in the text and in both cleaned texts; and it is left out as not
starting in code only if that character is in the contents of a string. -/
theorem names_start_in_code {p : Parser} {g : Grammar} (h : p.grammar? = some g) (t : Text) :
    p.parse t = .ok ((g.found (g.lexis.cleaned g.strings t)).flatMap fun f =>
        g.namesFrom t f.1 f.2) ∧
      (∀ s m, (s, m) ∈ g.found (g.lexis.cleaned g.strings t) ↔
        s ∈ g.statements ∧ m ∈ s.pattern.matchesIn (g.lexis.cleaned g.strings t)) ∧
      ∀ s ∈ g.statements, ∀ m ∈ s.pattern.matchesIn (g.lexis.cleaned g.strings t),
        ∃ n c z, m.StartsSolid n c ∧ (g.lexis.zones t)[n]? = some z ∧
          (g.namesFrom t s m ≠ [] → z ≠ .comment ∧ z ≠ .contents ∧ t[n]? = some c ∧
            (g.lexis.cleaned g.strings t)[n]? = some c ∧
            (g.lexis.cleaned .blanked t)[n]? = some c) ∧
          (startsInCode (g.lexis.cleaned .blanked t).toArray m = false → z = .contents) := by
  refine ⟨by rw [parse_eq_imports h, imports_eq_flatMap_namesFrom], fun _ _ => mem_found,
    fun s hs m hm => ?_⟩
  obtain ⟨n, c, hsolid⟩ := exists_startsSolid (needs_solid h s hs) hm
  obtain ⟨z, hz, hcomment, ht, hsearched, hcode, hstart⟩ := zone_of_startsSolid hm hsolid
  refine ⟨n, c, z, hsolid, hz, fun hnames => ?_, fun hout => ?_⟩
  · have hin : startsInCode (g.lexis.cleaned .blanked t).toArray m = true := by
      by_contra hout
      exact hnames (if_neg hout)
    have hcontents := hstart.1 hin
    have hsame : z.shown .blanked c = c := by
      cases z with
      | code | quote => rfl
      | comment => exact absurd rfl hcomment
      | contents => exact absurd rfl hcontents
    rw [hsame] at hcode
    exact ⟨hcomment, hcontents, ht, hsearched, hcode⟩
  · by_contra hcontents
    rw [hstart.2 hcontents] at hout
    cases hout

/-- An import in a comment is not found, one in a string is left out, and one behind a comment and
white space gives its name. -/
theorem names_start_in_code_javaScript :
    let g := Grammar.javaScript
    let t : Text := "// import 'c'\nlet s = \"import 'a'\"; /* \" */\timport 'b'".toList
    Parser.javaScript.grammar? = some g ∧
      ∃ m ∈ staticImport.pattern.matchesIn (g.lexis.cleaned g.strings t),
        ∃ m' ∈ staticImport.pattern.matchesIn (g.lexis.cleaned g.strings t),
          (g.namesFrom t staticImport m = [] ∧
            ∃ n c, m.StartsSolid n c ∧ (g.lexis.zones t)[n]? = some .contents) ∧
          (g.namesFrom t staticImport m' = [['b']] ∧
            ∃ n c z, m'.StartsSolid n c ∧ (g.lexis.zones t)[n]? = some z ∧ z ≠ .comment ∧
              z ≠ .contents ∧ t[n]? = some c) := by
  intro g t
  have hform : staticImport ∈ g.statements := List.mem_cons_self
  have hfound : (staticImport.pattern.matchesIn (g.lexis.cleaned g.strings t)).map (fun m =>
      (startsInCode (g.lexis.cleaned .blanked t).toArray m, g.namesFrom t staticImport m)) =
        [(false, []), (true, [['b']])] := by
    decide +kernel
  obtain ⟨m, hm, hout⟩ := List.mem_map.1 (hfound ▸ List.mem_cons_self)
  obtain ⟨m', hm', hin⟩ := List.mem_map.1
    (hfound ▸ List.mem_cons_of_mem _ (List.mem_singleton_self _))
  obtain ⟨hstart, hnone⟩ := Prod.mk.inj hout
  obtain ⟨-, hnames⟩ := Prod.mk.inj hin
  obtain ⟨-, -, hmatches⟩ := names_start_in_code (p := .javaScript) (g := g) rfl t
  obtain ⟨n, c, z, hsolid, hz, -, hcontents⟩ := hmatches _ hform m hm
  obtain ⟨n', c', z', hsolid', hz', hcode, -⟩ := hmatches _ hform m' hm'
  obtain ⟨hcomment', hcontents', ht', -⟩ := hcode (hnames ▸ List.cons_ne_nil _ _)
  obtain rfl := hcontents hstart
  exact ⟨rfl, m, hm, m', hm', ⟨hnone, n, c, hsolid, hz⟩, hnames, n', c', z', hsolid', hz',
    hcomment', hcontents', ht'⟩

end Parser
end ImportScan
