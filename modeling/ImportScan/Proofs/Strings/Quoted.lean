import ImportScan.Proofs.Php.Layout
import ImportScan.Proofs.Rust.Document
import ImportScan.Proofs.Strings.LineString

/-!
# Strings over several lines

A string in double quotes may go on over several lines in Rust and in PHP, but the scan has every
such string end with its line at the latest. So a constant that is defined as a string imports
nothing if the string stands on one line; if it does not, the text is read as what stands behind the
first line of the string alone, and that is read as code (`Parser.parse_quoted_body`).
-/

namespace ImportScan

open Grammar Pattern Text

/-- What stands behind the text of the string. -/
def closing : Text := ['"', ';', '\n']

/-! ## Rust -/

namespace Rust

/-- What use declarations and external crate items start with. -/
def heads : Text := ['#', 'p', 'u', 'e']

theorem heads_useEnd : useEnd.Heads (· ∈ heads) := by
  have hattribute : outerAttribute.Heads (· ∈ heads) :=
    (((heads_text ⟨'#', rfl, by decide⟩).append _).append _).append _
  have hvisibility : visibility.Heads (· ∈ heads) :=
    ((heads_text ⟨'p', rfl, by decide⟩).append _).append _
  exact hattribute.many0_append
    (hvisibility.maybe_append ((heads_text ⟨'u', rfl, by decide⟩).append _))

theorem heads_externEnd : externEnd.Heads (· ∈ heads) :=
  ((heads_text ⟨'p', rfl, by decide⟩).append _).maybe_append
    ((heads_text ⟨'e', rfl, by decide⟩).append _)

theorem hasLineStrings : HasLineStrings rust heads where
  regular := Parser.regular_lexis (p := .rust) rfl
  quote := by decide
  strings := rfl
  statements := by
    have huse : StartsAmong statementMarks heads useDeclaration :=
      { ends := ⟨useEnd, heads_useEnd, useDeclaration_ends⟩
        tests := by simp [useDeclaration]
        names := fun m m' h => by
          dsimp only [useDeclaration]
          rw [partOrEmpty_congr h] }
    have hextern : StartsAmong statementMarks heads externCrate :=
      { ends := ⟨externEnd, heads_externEnd, externCrate_ends⟩
        tests := by simp [externCrate]
        names := fun m m' h => by
          dsimp only [externCrate]
          rw [partOrEmpty_congr h] }
    exact List.forall_mem_cons.2 ⟨huse, List.forall_mem_singleton.2 hextern⟩
  ending := by decide

/-- The front of a constant. -/
def constantHead : Text := "const S: &str = ".toList

/-- A constant that is the string `b`. -/
def constant (b : Text) : Text := constantHead ++ '"' :: (b ++ closing)

/-- The constant imports nothing if its string stays on the line, and otherwise what stands behind
the line does. -/
theorem imports_constant {t : Text} (ht : StaysInString t) :
    rust.imports (constant t) = [] ∧ ∀ rest,
      rust.imports (constant (t ++ '\n' :: rest)) = rust.imports (rest ++ closing) := by
  have hline (closed : Bool) (rest : Text) :
      rust.imports (stringLine constantHead t closed ++ rest) = rust.imports rest :=
    hasLineStrings.imports_stringLine (by decide) ⟨'c', rfl, by decide⟩ ht closed fun _ _ => rfl
  refine ⟨?_, fun rest => ?_⟩
  · have hclosed : constant t = stringLine constantHead t true := (stringLine_closed _ t).symm
    rw [hclosed, ← List.append_nil (stringLine constantHead t true), hline]
    decide +kernel
  · rw [constant, List.append_assoc, List.cons_append, ← stringLine_open, hline]

end Rust

/-! ## PHP -/

namespace Php

theorem hasLineStrings : HasLineStrings php ['u'] where
  regular := Parser.regular_lexis (p := .php) rfl
  quote := by decide
  strings := rfl
  statements := List.forall_mem_singleton.2
    { ends := ⟨word "use" ++ (gaps1 ++ (.part .body (.one (fun c => c == '\\' || isWord c) ++
          some0 (· != ';')) ++ char ';')), (heads_text ⟨'u', rfl, by decide⟩).append _, fun s => by
        simp only [useStatement, ends_append_assoc, statementMarks]⟩
      tests := by simp [useStatement]
      names := fun m m' h => by
        dsimp only [useStatement]
        rw [partOrEmpty_congr h] }
  ending := by decide

/-- The tag that opens a script. -/
def openTag : Text := "<?php\n".toList

/-- The front of an assignment. -/
def assignmentHead : Text := "$s = ".toList

/-- A script that sets a variable to the string `b`. -/
def assignment (b : Text) : Text := openTag ++ (assignmentHead ++ '"' :: (b ++ closing))

/-- Text without braces that says nothing about the next block. -/
theorem starts_of_no_braces {front : Text} (h : ∀ c ∈ front, c ≠ '{' ∧ c ≠ '}' ∧ c ≠ 'n')
    (happart : front.EndsApart) : Starts front := by
  refine ⟨front, ?_, neutral_of_forall happart fun u y v huv hy => ?_⟩
  · rw [braceState, BraceState.run_of_no_braces _ fun c hc => ⟨(h c hc).1, (h c hc).2.1⟩]
    simp
  · exact absurd hy (h y (by simp [huv])).2.2

theorem imports_openTag (t : Text) : php.imports (openTag ++ t) = php.imports t := by
  have hends : EndsLine openTag := by
    intro c hc
    exact (Option.some.inj hc).symm
  have hstarts : Starts openTag := starts_of_no_braces (by decide) fun c hc => hends c hc ▸ rfl
  exact imports_behind_silentLine hasLineStrings.statements (fun _ => openTag)
    (fun contents => Lexis.cleaned_code_append (by decide) contents t)
    (fun rest n => hstarts.inside_append rest n)
    ⟨⟨'<', "?php".toList, ['\n'], rfl, by decide, by decide⟩, hends⟩

/-- The assignment imports nothing if its string stays on the line, and otherwise what stands behind
the line does. -/
theorem imports_assignment {t : Text} (ht : StaysInString t) :
    php.imports (assignment t) = [] ∧ ∀ rest,
      php.imports (assignment (t ++ '\n' :: rest)) = php.imports (rest ++ closing) := by
  have hstarts (closed : Bool) : Starts (shownLine assignmentHead t closed .blanked) :=
    starts_of_no_braces (forall_mem_shownLine (by decide) (by decide) ht closed)
      fun c hc => endsLine_shownLine closed _ c hc ▸ rfl
  have hline (closed : Bool) (rest : Text) :
      php.imports (stringLine assignmentHead t closed ++ rest) = php.imports rest :=
    hasLineStrings.imports_stringLine (by decide) ⟨'$', rfl, by decide⟩ ht closed
      fun rest n => (hstarts closed).inside_append rest n
  refine ⟨?_, fun rest => ?_⟩
  · have hclosed : assignment t = openTag ++ stringLine assignmentHead t true :=
      congrArg (openTag ++ ·) (stringLine_closed _ t).symm
    rw [hclosed, imports_openTag, ← List.append_nil (stringLine assignmentHead t true), hline]
    decide +kernel
  · rw [assignment, imports_openTag, List.append_assoc, List.cons_append, ← stringLine_open, hline]

end Php

/-! ## The text of a string -/

/-- A string in double quotes, without quotes and backslashes, imports nothing in Rust and in PHP if
it stays on its line; if not, what stands behind the line is read by itself. -/
theorem Parser.parse_quoted_body {b : Text} (hb : ∀ c ∈ b, c ≠ '"' ∧ c ≠ '\\') :
    ('\n' ∉ b → Parser.rust.parse (Rust.constant b) = .ok [] ∧
      Parser.php.parse (Php.assignment b) = .ok []) ∧
    ∀ line rest, b = line ++ '\n' :: rest → '\n' ∉ line →
      Parser.rust.parse (Rust.constant b) = Parser.rust.parse (rest ++ closing) ∧
        Parser.php.parse (Php.assignment b) = Parser.php.parse (rest ++ closing) := by
  have hstays {t : Text} (hsub : t ⊆ b) (hline : '\n' ∉ t) : StaysInString t := fun c hc =>
    ⟨(hb c (hsub hc)).1, (hb c (hsub hc)).2, fun h => hline (h ▸ hc)⟩
  refine ⟨fun hline => ?_, fun line rest hbody hline => ?_⟩
  · have ht := hstays (List.Subset.refl b) hline
    exact ⟨congrArg Except.ok (Rust.imports_constant ht).1,
      congrArg Except.ok (Php.imports_assignment ht).1⟩
  · subst hbody
    have ht := hstays (List.subset_append_left line _) hline
    exact ⟨congrArg Except.ok ((Rust.imports_constant ht).2 rest),
      congrArg Except.ok ((Php.imports_assignment ht).2 rest)⟩

/-- The second line of a string is read as code. -/
theorem Parser.parse_quoted_second_line :
    (∀ c ∈ "\nuse foo;\n".toList, c ≠ '"' ∧ c ≠ '\\') ∧
      Parser.rust.parse (Rust.constant "\nuse foo;\n".toList) = .ok ["foo".toList] ∧
      Parser.php.parse (Php.assignment "\nuse foo;\n".toList) = .ok ["foo".toList] := by
  have hb : ∀ c ∈ "\nuse foo;\n".toList, c ≠ '"' ∧ c ≠ '\\' := by decide
  obtain ⟨hrust, hphp⟩ := (parse_quoted_body hb).2 [] "use foo;\n".toList rfl (by simp)
  exact ⟨hb, hrust.trans (by decide +kernel), hphp.trans (by decide +kernel)⟩

end ImportScan
