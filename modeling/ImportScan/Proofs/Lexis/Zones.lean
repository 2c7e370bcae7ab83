import ImportScan.Proofs.Lexis.Marker

/-!
# The zones of a text

Every character of a text belongs to code, to a comment, or to a string, there to its quotes or to
its contents (`Lexis.zones`). What cleaning shows at an offset is told by the zone and the character
there (`cleaned_eq_zipWith`, `getElem?_cleaned`).
-/

namespace ImportScan

/-- What a character of a text belongs to. -/
inductive Zone where
  | code
  | comment
  /-- The opening or the closing quote of a string. -/
  | quote
  /-- What stands between the quotes of a string. -/
  | contents
deriving DecidableEq, Repr

/-- What cleaning shows of a character of the zone. -/
def Zone.shown (contents : StringContents) (z : Zone) (c : Char) : Char :=
  let blank := if c = '\n' then '\n' else ' '
  match z with
  | .code | .quote => c
  | .comment => blank
  | .contents => match contents with
    | .kept => c
    | .blanked => blank

namespace Segment

/-- The zones of the characters of a segment. -/
def zones : Segment → List Zone
  | .code _ => [.code]
  | .comment t => List.replicate t.length .comment
  | .string opener t closer =>
    List.replicate opener.length .quote ++ List.replicate t.length .contents ++
      List.replicate closer.length .quote

@[simp] theorem length_zones (s : Segment) : s.zones.length = s.source.length := by
  cases s <;> simp [zones, source]

private theorem zipWith_zone (contents : StringContents) (z : Zone) (t : Text) :
    List.zipWith (Zone.shown contents) (List.replicate t.length z) t =
      t.map (Zone.shown contents z) := by
  induction t with
  | nil => rfl
  | cons c t ih => rw [List.length_cons, List.replicate_succ, List.zipWith_cons_cons, ih, List.map]

theorem shown_eq_zipWith (contents : StringContents) (s : Segment) :
    s.shown contents = List.zipWith (Zone.shown contents) s.zones s.source := by
  have hkept (z : Zone) (h : ∀ c, z.shown contents c = c) (t : Text) :
      t.map (Zone.shown contents z) = t := by
    rw [List.map_congr_left fun c _ => h c, List.map_id']
  cases s with
  | code c => rfl
  | comment t => exact (zipWith_zone contents .comment t).symm
  | string opener t closer =>
    rw [zones, source, List.zipWith_append (by simp), List.zipWith_append (by simp), zipWith_zone,
      zipWith_zone, zipWith_zone, hkept .quote fun _ => rfl, hkept .quote fun _ => rfl]
    cases contents with
    | kept => rw [hkept .contents fun _ => rfl, shown]
    | blanked => rfl

end Segment

namespace Lexis

/-- The zones of the characters of a text. -/
def zones (lx : Lexis) (t : Text) : List Zone := (lx.segments t).flatMap Segment.zones

@[simp] theorem length_zones (lx : Lexis) (t : Text) : (lx.zones t).length = t.length := by
  conv => rhs; rw [← lx.source_segments t]
  simp only [zones, List.length_flatMap, Segment.length_zones]

/-- Cleaning goes by the zones. -/
theorem cleaned_eq_zipWith (lx : Lexis) (contents : StringContents) (t : Text) :
    lx.cleaned contents t = List.zipWith (Zone.shown contents) (lx.zones t) t := by
  have hall (l : List Segment) : l.flatMap (Segment.shown contents) =
      List.zipWith (Zone.shown contents) (l.flatMap Segment.zones) (l.flatMap Segment.source) := by
    induction l with
    | nil => rfl
    | cons s l ih =>
      rw [List.flatMap_cons, List.flatMap_cons, List.flatMap_cons,
        List.zipWith_append s.length_zones, ih, ← s.shown_eq_zipWith]
  rw [cleaned, zones, hall, source_segments]

/-- What cleaning shows at an offset, told by the zone and the character there. -/
theorem getElem?_cleaned (lx : Lexis) {t : Text} {n : Nat} (hn : n < t.length) :
    ∃ z c, (lx.zones t)[n]? = some z ∧ t[n]? = some c ∧
      ∀ contents, (lx.cleaned contents t)[n]? = some (z.shown contents c) := by
  have hz : n < (lx.zones t).length := by rwa [length_zones]
  refine ⟨(lx.zones t)[n], t[n], List.getElem?_eq_getElem hz, List.getElem?_eq_getElem hn, ?_⟩
  intro contents
  rw [cleaned_eq_zipWith, List.getElem?_zipWith, List.getElem?_eq_getElem hz,
    List.getElem?_eq_getElem hn]

end Lexis
end ImportScan
