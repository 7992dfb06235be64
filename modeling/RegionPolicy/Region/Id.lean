/-!
# Ids

Regions and artifacts are named by whoever writes them, so an id is a text as it was written.
Ids are ordered as texts, by code points, and that order settles ties.

## Main definitions

* `RegionId`, `ArtifactId`.
-/

namespace RegionPolicy

/-- The id of a region. -/
structure RegionId where
  /-- The id as it was written. -/
  text : String
deriving DecidableEq, Repr, Inhabited

namespace RegionId

instance : Ord RegionId := ⟨compareOn text⟩

instance : Std.TransOrd RegionId := inferInstanceAs (Std.TransCmp (compareOn text))

instance : Std.LawfulEqOrd RegionId where
  eq_of_compare {a b} h := by
    have htext : a.text = b.text :=
      Std.LawfulEqOrd.eq_of_compare (show compare a.text b.text = .eq from h)
    cases a
    cases b
    simp_all

end RegionId

/-- The id of an artifact, under which a region's geometry is stored. -/
structure ArtifactId where
  /-- The id as it was written. -/
  text : String
deriving DecidableEq, Repr, Inhabited

namespace ArtifactId

instance : Ord ArtifactId := ⟨compareOn text⟩

instance : Std.TransOrd ArtifactId := inferInstanceAs (Std.TransCmp (compareOn text))

instance : Std.LawfulEqOrd ArtifactId where
  eq_of_compare {a b} h := by
    have htext : a.text = b.text :=
      Std.LawfulEqOrd.eq_of_compare (show compare a.text b.text = .eq from h)
    cases a
    cases b
    simp_all

end ArtifactId

end RegionPolicy
