import RegionPolicy.Collection.SortedMap

/-!
# Walks through a map

The values of a map can point to keys of the map: to one key each, and then there is a chain to
follow, or to several, and then there is a neighbourhood to explore. Links may lead nowhere or in
circles. Both walks use up the entries that they visit, so they end, and they visit nothing twice.

## Main definitions

* `SortedMap.follow` — the chain of values from a key on.
* `SortedMap.explore` — every key that links lead to, nearest first.
-/

set_option linter.unusedSectionVars false

namespace RegionPolicy

universe u v

namespace SortedMap

variable {κ : Type u} {α : Type v} [Ord κ]

theorem contains_of_get? {m : SortedMap κ α} {k : κ} {a : α} (h : m.get? k = some a) :
    m.contains k = true := by
  simp [contains, h]

/-- The values on the way from a key along their links. The chain ends at a value without a link,
or before a key that is missing or was passed already. -/
def follow [Std.TransOrd κ] [Std.LawfulEqOrd κ] (next : α → Option κ) (m : SortedMap κ α) :
    Option κ → List α
  | none => []
  | some k =>
    match _h : m.get? k with
    | none => []
    | some a => a :: follow next (m.erase k) (next a)
termination_by m.size
decreasing_by exact size_erase_lt (contains_of_get? _h)

/-- The keys that links lead to from those waiting, in the order in which they are found, behind
those found before. A key is found once, and links lead on from the keys of the map only. -/
def exploreFrom [DecidableEq κ] [Std.TransOrd κ] [Std.LawfulEqOrd κ] (next : α → List κ)
    (m : SortedMap κ α) (found waiting : List κ) : List κ :=
  match waiting with
  | [] => found.reverse
  | k :: rest =>
    if k ∈ found then exploreFrom next m found rest
    else
      match _h : m.get? k with
      | none => exploreFrom next m (k :: found) rest
      | some a => exploreFrom next (m.erase k) (k :: found) (rest ++ next a)
termination_by (m.size, waiting.length)
decreasing_by
  · exact Prod.Lex.right _ (Nat.lt_succ_self _)
  · exact Prod.Lex.right _ (Nat.lt_succ_self _)
  · exact Prod.Lex.left _ _ (size_erase_lt (contains_of_get? _h))

/-- The keys that links lead to from a key, itself first, the nearer before the farther. -/
def explore [DecidableEq κ] [Std.TransOrd κ] [Std.LawfulEqOrd κ] (next : α → List κ)
    (m : SortedMap κ α) (k : κ) : List κ :=
  exploreFrom next m [] [k]

end SortedMap

end RegionPolicy
