import ImportScan.Proofs.Text.HasWord

/-!
# Programs of import statements

A program is a sequence of items between line ends and semicolons: imports of modules, imports of
names from a module, and other lines. The gaps inside a statement may go on over line ends behind
backslashes, so an item is one logical line (`OneLine`): it has no line end that is not continued,
no semicolon, and nothing that starts a comment or a string.
-/

namespace ImportScan.Python

open Text

/-! ## Gaps -/

/-- A space or a tab, or the end of a line that goes on on the next. -/
inductive GapPiece where
  | blank (c : Char) (h : isGap c = true)
  | continued

/-- The piece as it is written. -/
def GapPiece.text : GapPiece → Text
  | blank c _ => [c]
  | continued => ['\\', '\n']

/-- A gap that may be empty. -/
abbrev Gap := List GapPiece

/-- The gap as it is written. -/
def Gap.text (g : Gap) : Text := g.flatMap GapPiece.text

/-- A gap with anything in it. -/
abbrev WideGap := { g : Gap // g ≠ [] }

/-- The gap as it is written. -/
def WideGap.text (g : WideGap) : Text := Gap.text g.val

/-! ## Names -/

/-- The words that have a meaning in an import. -/
def keywords : List Text := ["as".toList, "import".toList, "from".toList]

/-- A word that is no keyword. -/
abbrev Ident := { w : Text // IsWord w ∧ w ∉ keywords }

/-- A dotted name. -/
structure Name where
  first : Ident
  others : List Ident

/-- The name as it is written. -/
def Name.text (n : Name) : Text := n.first.val ++ n.others.flatMap fun i => '.' :: i.val

/-! ## Imports of modules -/

/-- Another name, behind the word `as`. -/
structure Renaming where
  before : WideGap
  after : WideGap
  name : Ident

/-- A module to import, perhaps under another name. -/
structure Clause where
  name : Name
  newName : Option Renaming

/-- A further clause and the comma in front of it. -/
structure Further where
  before : Gap
  after : Gap
  clause : Clause

/-- An import of modules. -/
structure ModuleImport where
  gap : WideGap
  first : Clause
  others : List Further

/-- The other name as it is written. -/
def Renaming.text (r : Renaming) : Text :=
  r.before.text ++ "as".toList ++ r.after.text ++ r.name.val

/-- The clause as it is written. -/
def Clause.text (c : Clause) : Text := c.name.text ++ (c.newName.map Renaming.text).getD []

/-- The further clause as it is written, with the comma in front. -/
def Further.text (f : Further) : Text := f.before.text ++ [','] ++ f.after.text ++ f.clause.text

namespace ModuleImport

variable (s : ModuleImport)

/-- The clauses. -/
def body : Text := s.first.text ++ s.others.flatMap Further.text

/-- The import as it is written. -/
def text : Text := "import".toList ++ s.gap.text ++ s.body

/-- The top-level packages of the modules. -/
def packages : List Text := s.first.name.first.val :: s.others.map (·.clause.name.first.val)

end ModuleImport

/-! ## Imports of names -/

/-- What has a meaning between lines or for comments and strings. -/
def marks : Text := ['"', '\'', '#', '\\', ';', '\n']

/-- A module to import names from: a relative one starts with dots. -/
inductive Origin where
  | absolute (name : Name)
  | relative (dots : Nat) (name : Option Name)

/-- What stands behind the word `import` on its line, such as a list of names. -/
abbrev Tail := { t : Text // t.StartsApart ∧ ∀ c ∈ t, c ∉ marks }

/-- An import of names from a module. -/
structure NameImport where
  before : WideGap
  origin : Origin
  after : WideGap
  tail : Tail

/-- The module as it is written. -/
def Origin.text : Origin → Text
  | absolute name => name.text
  | relative dots name => List.replicate (dots + 1) '.' ++ (name.map Name.text).getD []

/-- The top-level package of a module that is not relative. -/
def Origin.packages : Origin → List Text
  | absolute name => [name.first.val]
  | relative _ _ => []

/-- The statement up to the word `import`. -/
def NameImport.core (s : NameImport) : Text :=
  "from".toList ++ s.before.text ++ s.origin.text ++ s.after.text ++ "import".toList

/-- The import as it is written. -/
def NameImport.text (s : NameImport) : Text := s.core ++ s.tail.val

/-! ## Programs -/

/-- A line that starts with none of the words of an import. -/
abbrev Other := { t : Text // (∀ c ∈ t, c ∉ marks) ∧
  ∀ w ∈ (words t).head?, w ≠ "import".toList ∧ w ≠ "from".toList }

/-- A logical line: an import of either form, or any other line. -/
inductive Item where
  | modules (indent : Indent) (s : ModuleImport)
  | names (indent : Indent) (s : NameImport)
  | other (t : Other)

/-- What may stand between two logical lines. -/
inductive Separator where
  | newline
  | semicolon

/-- Logical lines, at least one. -/
structure Program where
  first : Item
  others : List (Separator × Item)

/-- The logical line as it is written. -/
def Item.text : Item → Text
  | modules indent s => indent.val ++ s.text
  | names indent s => indent.val ++ s.text
  | other t => t.val

/-- The packages that the logical line imports. -/
def Item.packages : Item → List Text
  | modules _ s => s.packages
  | names _ s => s.origin.packages
  | other _ => []

/-- The separator as it is written. -/
def Separator.char : Separator → Char
  | newline => '\n'
  | semicolon => ';'

namespace Program

variable (p : Program)

/-- The program as it is written. -/
def text : Text := p.first.text ++ p.others.flatMap fun i => i.1.char :: i.2.text

/-- The packages that the items import, in order. -/
def packages : List Text := p.first.packages ++ p.others.flatMap fun i => i.2.packages

end Program

/-! ## Logical lines -/

/-- Nothing in the text starts a comment, a string or a statement. -/
structure OneLine (t : Text) : Prop where
  unmarked : ∀ c ∈ t, c ≠ '"' ∧ c ≠ '\'' ∧ c ≠ '#' ∧ c ≠ ';'
  continued : ∀ u v, t = u ++ '\n' :: v → u.getLast? = some '\\'

namespace OneLine

variable {t u : Text}

theorem append (ht : OneLine t) (hu : OneLine u) : OneLine (t ++ u) where
  unmarked := by
    intro c hc
    rcases List.mem_append.1 hc with hc | hc
    · exact ht.unmarked c hc
    · exact hu.unmarked c hc
  continued := by
    intro a b h
    rcases List.append_eq_append_iff.1 h with ⟨d, rfl, hd⟩ | ⟨d, hd, hb⟩
    · rw [List.getLast?_append, hu.continued d b hd]
      rfl
    · cases d with
      | nil =>
        rw [List.append_nil] at hd
        subst hd
        exact absurd (hu.continued [] b hb.symm) (by simp)
      | cons x d =>
        obtain ⟨rfl, -⟩ := List.cons.inj hb
        exact ht.continued a d hd

theorem flatMap {α : Type} {f : α → Text} {l : List α} (h : ∀ x ∈ l, OneLine (f x)) :
    OneLine (l.flatMap f) := by
  induction l with
  | nil => exact ⟨fun c hc => (nomatch hc), fun u v h => by simp at h⟩
  | cons x l ih =>
    rw [List.flatMap_cons]
    exact (h x List.mem_cons_self).append (ih fun y hy => h y (List.mem_cons_of_mem x hy))

end OneLine

theorem oneLine_of_unmarked {t : Text} (h : ∀ c ∈ t, c ∉ marks) : OneLine t where
  unmarked := by
    intro c hc
    have := h c hc
    simp only [marks, List.mem_cons, List.not_mem_nil, or_false, not_or] at this
    exact ⟨this.1, this.2.1, this.2.2.1, this.2.2.2.2.1⟩
  continued := by
    rintro u v rfl
    exact absurd (by decide) (h '\n' (by simp))

/-- A class without marks makes logical lines. -/
theorem oneLine_of_class {p : Char → Bool} (hp : ∀ c ∈ marks, p c = false) {t : Text}
    (h : ∀ c ∈ t, p c = true) : OneLine t := by
  refine oneLine_of_unmarked fun c hc hmark => ?_
  have := h c hc
  rw [hp c hmark] at this
  cases this

theorem Gap.oneLine (g : Gap) : OneLine g.text := by
  refine OneLine.flatMap fun p hp => ?_
  cases p with
  | blank c h =>
    refine oneLine_of_class (p := isGap) (by decide) ?_
    intro d hd
    exact List.mem_singleton.1 hd ▸ h
  | continued =>
    refine ⟨by decide, fun u v h => ?_⟩
    cases u with
    | nil => cases h
    | cons x u =>
      cases u with
      | nil => exact (List.cons.inj h).1 ▸ rfl
      | cons y u =>
        have := congrArg List.length h
        simp [GapPiece.text] at this

theorem oneLine_ident (i : Ident) : OneLine i.val := oneLine_of_class (by decide) i.2.1.2

theorem Name.oneLine (n : Name) : OneLine n.text := by
  refine (oneLine_ident n.first).append (.flatMap fun i hi => ?_)
  exact OneLine.append (t := ['.']) (oneLine_of_unmarked (by decide)) (oneLine_ident i)

theorem Renaming.oneLine (r : Renaming) : OneLine r.text :=
  ((r.before.val.oneLine.append (oneLine_of_unmarked (by decide))).append
    r.after.val.oneLine).append (oneLine_ident r.name)

theorem Clause.oneLine (c : Clause) : OneLine c.text := by
  refine c.name.oneLine.append ?_
  cases c.newName with
  | none => exact oneLine_of_unmarked fun c hc => nomatch hc
  | some r => exact r.oneLine

theorem Further.oneLine (f : Further) : OneLine f.text :=
  ((f.before.oneLine.append (oneLine_of_unmarked (by decide))).append f.after.oneLine).append
    f.clause.oneLine

theorem ModuleImport.oneLine (s : ModuleImport) : OneLine s.text := by
  have hbody : OneLine s.body := s.first.oneLine.append (.flatMap fun f hf => f.oneLine)
  exact (OneLine.append (oneLine_of_unmarked (by decide)) s.gap.val.oneLine).append hbody

theorem Origin.oneLine (o : Origin) : OneLine o.text := by
  cases o with
  | absolute name => exact name.oneLine
  | relative dots name =>
    refine OneLine.append (oneLine_of_unmarked fun c hc => ?_) ?_
    · obtain rfl := List.eq_of_mem_replicate hc
      decide
    · cases name with
      | none => exact oneLine_of_unmarked fun c hc => nomatch hc
      | some name => exact name.oneLine

theorem NameImport.oneLine_core (s : NameImport) : OneLine s.core := by
  have hword : OneLine "from".toList ∧ OneLine "import".toList :=
    ⟨oneLine_of_unmarked (by decide), oneLine_of_unmarked (by decide)⟩
  exact (((hword.1.append s.before.val.oneLine).append s.origin.oneLine).append
    s.after.val.oneLine).append hword.2

theorem oneLine_indent (indent : Indent) : OneLine indent.val :=
  oneLine_of_class (by decide) indent.2

theorem Item.oneLine (i : Item) : OneLine i.text := by
  cases i with
  | modules indent s => exact (oneLine_indent indent).append s.oneLine
  | names indent s =>
    exact (oneLine_indent indent).append (s.oneLine_core.append (oneLine_of_unmarked s.tail.2.2))
  | other t => exact oneLine_of_unmarked t.2.1

end ImportScan.Python
