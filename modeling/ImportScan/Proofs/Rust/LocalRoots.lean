import ImportScan.Proofs.Grammar.Code
import ImportScan.Proofs.Pattern.Parts
import ImportScan.Proofs.Rust.Reading

/-!
# Local roots among the names

A use declaration leaves out the roots that lead into the current crate. An external crate item
gives its name as it stands, and `extern crate self as name;` is such an item; so a local root is
imported just where an item of that name stands in the code (`parse_localRoots`). The form of the
item starts at every place where one stands and reads the name to its end
(`ExternCrate.exists_prefers`, `exists_externCrate_of_ends`), and no match runs over such a place,
since none holds the marks behind which a statement may start.
-/

namespace ImportScan.Rust

open Grammar Pattern Text

/-! ## External crate items -/

/-- An external crate item up to its name, with the spaces and tabs between its words. -/
structure ExternCrate where
  indent : Indent
  /-- The space behind the word `pub`, if that stands in front. -/
  visibility : Option Gaps
  before : Gaps
  after : Gaps
  name : Word

namespace ExternCrate

/-- The word `pub` and the space behind it. -/
def visible : Option Gaps → Text
  | none => []
  | some gap => "pub".toList ++ gap.val

/-- The item from its first word on. -/
def body (i : ExternCrate) : Text :=
  visible i.visibility ++ ("extern".toList ++ (i.before.val ++ ("crate".toList ++
    (i.after.val ++ i.name.val))))

/-- The item as it is written. -/
def text (i : ExternCrate) : Text := i.indent.val ++ i.body

/-- The item stands in the code at the start of a line or behind a semicolon or a brace, and its
name ends where a word does. -/
def StandsIn (i : ExternCrate) (code : Text) : Prop :=
  ∃ a b, code = a ++ (i.text ++ b) ∧ (∀ c ∈ a.getLast?, c ∈ ['\n', ';', '{', '}']) ∧ StartsApart b

variable {a b : Text} {s : Point Part}

theorem startsSolid_body (i : ExternCrate) (b : Text) : StartsSolid (i.body ++ b) := by
  unfold body
  cases i.visibility <;> exact startsSolid_cons (by decide) _

theorem takesFirst_visible (v : Option Gaps) (r : Text) :
    (maybe (word "pub" ++ gaps1) : Pattern Part).TakesFirst (visible v)
      ("extern".toList ++ r) := by
  cases v with
  | none => exact .maybe_nil fun s hs => ends_append_eq_nil (ends_text_eq_nil hs (by decide)) _
  | some gap =>
    refine ((takesFirst_text _ _).append (takesFirst_gaps1 gap ?_)).maybe
    exact fun c hc => Option.some.inj hc ▸ by decide

/-- Where a statement may start, the form takes the item and reads its name. -/
theorem exists_prefers (i : ExternCrate) (hstart : mayStart [';', '{', '}'] s.cursor = true)
    (hs : s.cursor.after = i.text ++ b) (hb : StartsApart b) :
    ∃ e, externCrate.pattern.Prefers s e ∧ e.cursor.after = b ∧
      e.part? .name = some i.name.val := by
  have hindent : (gaps0 : Pattern Part).TakesFirst i.indent.val (i.body ++ b) :=
    takesFirst_run i.indent.2 (isGap_eq_false_of_solid (i.startsSolid_body b)) (Nat.zero_le _)
  have hcrate : ∀ c ∈ ("crate".toList ++ (i.after.val ++ (i.name.val ++ b))).head?,
      isGap c = false := fun c hc => Option.some.inj hc ▸ by decide
  have hname : ∀ c ∈ (i.name.val ++ b).head?, isGap c = false :=
    isGap_eq_false_of_solid ((isSolid_word i.name).startsSolid b)
  have hhere := reads_here hstart
  rw [hs, text, List.append_assoc] at hhere
  have hfront := hhere.append hindent
  simp only [body, List.append_assoc] at hfront
  have hkeywords := (((hfront.append (takesFirst_visible i.visibility _)).append
    (takesFirst_text "extern".toList _)).append (takesFirst_gaps1 i.before hcrate)).append
    (takesFirst_text "crate".toList _)
  have hread := hkeywords.append (takesFirst_gaps1 i.after hname)
  -- the name is all that is left
  have hrest := hread.after_skip
  have hrun : (some1 isWord : Pattern Part).Prefers _ _ :=
    prefers_run hrest i.name.2.2 hb (List.length_pos_iff.2 i.name.2.1)
  refine ⟨_, hread.2.append (hrun.part .name), Point.after_skip_of_eq hrest, ?_⟩
  exact Point.part?_mark hrest rfl Part.name

/-! ## Where the form starts -/

theorem takesOnly_gaps1 : (gaps1 : Pattern Part).TakesOnly fun t => ∃ g : Gaps, t = g.val := by
  intro s e he
  obtain ⟨t, rest, hs, ⟨hgaps, hl⟩, hc⟩ := (takesJust_run true isGap 1).takesOnly s e he
  exact ⟨t, rest, hs, ⟨⟨t, List.length_pos_iff.1 hl, hgaps⟩, rfl⟩, hc⟩

theorem takesOnly_visible : (maybe (word "pub" ++ gaps1) : Pattern Part).TakesOnly
    fun t => ∃ v, t = visible v := by
  intro s e he
  rcases mem_ends_or.1 he with he | he
  · obtain ⟨_, rest, hs, ⟨_, _, rfl, rfl, gap, rfl⟩, hc⟩ :=
      ((takesJust_text _).takesOnly.append takesOnly_gaps1) s e he
    exact ⟨_, rest, hs, ⟨some gap, rfl⟩, hc⟩
  · obtain rfl := List.mem_singleton.1 he
    exact ⟨[], _, rfl, ⟨none, rfl⟩, rfl⟩

theorem takesOnly_externEnd : externEnd.TakesOnly fun t => ∃ i : ExternCrate, t = i.body := by
  have hname : (.part .name (some1 isWord) : Pattern Part).TakesOnly fun t => IsWord t := by
    refine TakesOnly.part ?_ _
    intro s e he
    obtain ⟨t, rest, hs, ⟨hword, hl⟩, hc⟩ := (takesJust_run true isWord 1).takesOnly s e he
    exact ⟨t, rest, hs, ⟨List.length_pos_iff.1 hl, hword⟩, hc⟩
  intro s e he
  obtain ⟨_, rest, hs, ⟨_, _, rfl, ⟨v, rfl⟩, _, _, rfl, rfl, _, _, rfl, ⟨before, rfl⟩, _, _, rfl,
    rfl, _, name, rfl, ⟨after, rfl⟩, hname⟩, hc⟩ :=
    (takesOnly_visible.append ((takesJust_text _).takesOnly.append (takesOnly_gaps1.append
      ((takesJust_text _).takesOnly.append (takesOnly_gaps1.append hname))))) s e he
  exact ⟨_, rest, hs, ⟨⟨⟨[], fun c hc => nomatch hc⟩, v, before, after, ⟨name, hname⟩⟩, rfl⟩, hc⟩

/-- Where the form has an end, an item stands, whose name goes on as far as the word does. -/
theorem exists_of_mem_ends {e : Point Part} (he : e ∈ externCrate.pattern.ends s) :
    mayStart [';', '{', '}'] s.cursor = true ∧
      ∃ i : ExternCrate, ∃ b, s.cursor.after = i.text ++ b ∧ StartsApart b := by
  rw [externCrate_ends] at he
  obtain ⟨hstart, g, m, hafter, hg, -, he⟩ := exists_of_mem_ends_indented upfront_externEnd he
  obtain ⟨_, rest, hm, ⟨i, rfl⟩, -⟩ := takesOnly_externEnd m e he
  have hword : IsWord (i.name.val ++ rest.takeWhile isWord) := by
    refine ⟨List.append_ne_nil_of_left_ne_nil i.name.2.1 _, List.forall_mem_append.2
      ⟨i.name.2.2, fun c hc => List.all_eq_true.1 List.all_takeWhile c hc⟩⟩
  refine ⟨hstart, { i with indent := ⟨g, hg⟩, name := ⟨_, hword⟩ }, rest.dropWhile isWord, ?_, ?_⟩
  · rw [hafter, hm]
    simp only [text, body, List.append_assoc, List.takeWhile_append_dropWhile]
  · intro c hc
    have hhead := List.head?_dropWhile_not isWord rest
    rw [hc] at hhead
    exact hhead

/-- A match of the form gives the name of an item that stands in the code. -/
theorem names_of_mem_matchesIn {code : Text} {m : Match Part}
    (hm : m ∈ externCrate.pattern.matchesIn code) :
    ∃ i : ExternCrate, i.StandsIn code ∧ externCrate.names m = [i.name.val] := by
  obtain ⟨d, hd, -, hcode⟩ := exists_matchAt?_of_mem_matchesFrom hm
  obtain ⟨hstart, i, b, hafter, hb⟩ := exists_of_mem_ends (exists_mem_ends_of_matchAt? hd).2
  dsimp only at hstart hafter
  have hplace : d = .between d.before.reverse (i.text ++ b) := by
    rw [Cursor.ext_iff, Cursor.before_between, Cursor.after_between, List.reverse_reverse]
    exact ⟨rfl, hafter⟩
  refine ⟨i, ⟨d.before.reverse, b, ?_, ?_, hb⟩, ?_⟩
  · rw [← hafter]
    exact hcode.symm
  · rw [hplace] at hstart
    exact mayStart_between_iff.1 hstart
  · obtain ⟨e, hprefers, -, hname⟩ := i.exists_prefers (s := ⟨d, []⟩) hstart hafter hb
    have hm : externCrate.pattern.matchAt? d = some ⟨d, e⟩ := by
      rw [matchAt?_eq, hprefers]
      rfl
    obtain rfl := Option.some.inj (hd.symm.trans hm)
    exact congrArg (fun name => [name.getD []]) hname

/-- An item that stands in the code is matched. -/
theorem exists_match_of_standsIn {i : ExternCrate} {code : Text} (hi : i.StandsIn code) :
    ∃ m ∈ externCrate.pattern.matchesIn code, m.text = i.text ∧
      externCrate.names m = [i.name.val] := by
  obtain ⟨a, b, rfl, ha, hb⟩ := hi
  obtain ⟨e, hprefers, hafter, hname⟩ := i.exists_prefers
    (s := ⟨.between a (i.text ++ b), []⟩) (mayStart_between_iff.2 ha) rfl hb
  obtain ⟨m, hm, htext, hparts⟩ := exists_match_of_prefers hprefers hafter
  have hmarks : ∀ z ∈ ['\n', ';', '{', '}'], externCrate.pattern.excludes z = true := by decide
  refine ⟨m, mem_matchesIn_of_excludes (fun z hz => hmarks z (ha z hz)) hm, htext, ?_⟩
  exact congrArg (fun name => [name.getD []]) ((hparts _).trans hname)

end ExternCrate

/-! ## The names that are local roots -/

/-- No use declaration gives a local root. -/
theorem not_mem_names_useDeclaration {m : Match Part} {n : Text} (hn : n ∈ Declaration.ownRoots) :
    n ∉ useDeclaration.names m := by
  intro hmem
  have hforeign : isForeignRoot n = true := (List.mem_filter.1 hmem).2
  have hlocal : ∀ n ∈ Declaration.ownRoots, isForeignRoot n = false := by decide
  rw [hlocal n hn] at hforeign
  cases hforeign

/-- **Local roots stem from external crate items alone**: among the names of a text is one of the
roots that lead into the current crate just if an external crate item of that name stands in its
code. -/
theorem parse_localRoots (t : Text) : ∃ names, Parser.rust.parse t = .ok names ∧
    ∀ n ∈ Declaration.ownRoots, n ∈ names ↔
      ∃ i : ExternCrate, i.name.val = n ∧ i.StandsIn (rust.lexis.cleaned .blanked t) := by
  refine ⟨rust.imports t, rfl, fun n hn => ⟨fun hmem => ?_, ?_⟩⟩
  · rw [imports_eq] at hmem
    obtain ⟨⟨s, m⟩, hs, hn'⟩ := List.mem_flatMap.1 hmem
    obtain ⟨hform, hm⟩ := mem_found.1 (List.mem_filter.1 hs).1
    have hnames : n ∈ s.names m := by
      split at hn'
      · cases hn'
      · exact hn'
    have hforms : s = useDeclaration ∨ s = externCrate := by simpa [rust] using hform
    rcases hforms with rfl | rfl
    · exact absurd hnames (not_mem_names_useDeclaration hn)
    · obtain ⟨i, hi, hname⟩ := ExternCrate.names_of_mem_matchesIn hm
      rw [hname] at hnames
      exact ⟨i, (List.mem_singleton.1 hnames).symm, hi⟩
  · rintro ⟨i, rfl, hi⟩
    obtain ⟨m, hm, htext, hname⟩ := ExternCrate.exists_match_of_standsIn hi
    refine mem_imports_of_mem_matchesIn (fun _ => rfl)
      (List.mem_cons_of_mem _ List.mem_cons_self) hm ?_ (hname ▸ List.mem_singleton_self _)
    -- the item starts with a letter of code behind its indent
    obtain ⟨x, r, hbody, hx⟩ := (i.startsSolid_body []).exists_cons
    rw [List.append_nil] at hbody
    have hfirst := (getElem?_firstOffset hm (htext.trans (congrArg (i.indent.val ++ ·) hbody))
      (fun c hc => isBlank_of_isGap (i.indent.2 c hc)) hx).2
    rw [startsInCode, List.getElem?_toArray, hfirst, Option.any_some, hx]
    rfl

/-- The current crate bound to a name is reported as `self`. -/
theorem parse_localRoots_self : ∃ names,
    Parser.rust.parse "extern crate self as me;\n".toList = .ok names ∧
      "self".toList ∈ Declaration.ownRoots ∧ "self".toList ∈ names := by
  have hroot : "self".toList ∈ Declaration.ownRoots := by decide
  have hcode : rust.lexis.cleaned .blanked "extern crate self as me;\n".toList =
      "extern crate self as me;\n".toList := Lexis.cleaned_eq_self (by decide) _
  let space : Gaps := ⟨[' '], by decide⟩
  let item : ExternCrate := ⟨⟨[], by decide⟩, none, space, space, ⟨"self".toList, by decide⟩⟩
  have hitem : item.StandsIn "extern crate self as me;\n".toList :=
    ⟨[], " as me;\n".toList, rfl, (fun c hc => nomatch hc),
      fun c hc => Option.some.inj hc ▸ by decide⟩
  obtain ⟨names, hparse, hnames⟩ := parse_localRoots "extern crate self as me;\n".toList
  exact ⟨names, hparse, hroot, (hnames _ hroot).2 ⟨item, rfl, hcode.symm ▸ hitem⟩⟩

end ImportScan.Rust
