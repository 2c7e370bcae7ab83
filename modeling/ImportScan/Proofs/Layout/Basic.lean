import ImportScan.Proofs.Grammar.Semicolon
import ImportScan.Proofs.Text.TopLevel

/-!
# Statements on one line and on several

The statements of a text are each ended by a semicolon, with the same character between one and the
next (`layout`): the end of the line, or a space that keeps them on one line. Where every statement
is read apart from those behind it, the text imports the same in either layout (`imports_layout`).
-/

namespace ImportScan

open Text

/-- Texts ended by semicolons, with `c` between one and the next and the end of the line behind the
last. -/
def layout (c : Char) (ts : List Text) : Text := join [';', c] ts ++ [';', '\n']

theorem layout_singleton (c : Char) (t : Text) : layout c [t] = t ++ [';', '\n'] := by
  rw [layout, join_singleton]

theorem layout_cons_cons (c : Char) (t t' : Text) (ts : List Text) :
    layout c (t :: t' :: ts) = t ++ ';' :: c :: layout c (t' :: ts) := by
  rw [layout, join_cons_cons _ _ (List.cons_ne_nil t' ts)]
  simp only [layout, List.append_assoc, List.cons_append, List.nil_append]

/-- Texts that are read apart import the same on one line as each on its own. -/
theorem Grammar.imports_layout {g : Grammar} {ts : List Text} (h : ∀ t ∈ ts, g.ReadsApart t) :
    g.imports (layout ' ' ts) = g.imports (layout '\n' ts) := by
  induction ts with
  | nil => rfl
  | cons t ts ih =>
    have ht := h t List.mem_cons_self
    cases ts with
    | nil => rw [layout_singleton, layout_singleton]
    | cons t' ts =>
      rw [layout_cons_cons, layout_cons_cons, ht ' ' (.inl rfl), ht '\n' (.inr rfl),
        ih fun u hu => h u (List.mem_cons_of_mem t hu)]

end ImportScan
