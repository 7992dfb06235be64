/-!
# Feeds

News for someone who looks in now and then. A feed holds a limited number of items; whoever comes
too late finds the latest, and is told how many were lost.

## Main definitions

* `Feed`, `Feed.publish`, `Feed.drain`.
-/

namespace RegionPolicy

universe u

/-- News since someone last looked in. -/
structure Feed (α : Type u) where
  /-- How many items are kept. -/
  capacity : Nat
  /-- Whether anyone looks in at all. -/
  listening : Bool := true
  /-- The news, the oldest first. -/
  sent : List α := []

namespace Feed

variable {α : Type u}

/-- A feed for a wanted number of items, which is rounded up to a power of two. -/
def ofBuffer (buffer : Nat) (listening : Bool) : Feed α where
  capacity := (max buffer 1).nextPowerOfTwo
  listening

/-- The feed with one more item. -/
def publish (f : Feed α) (a : α) : Feed α :=
  if f.listening then { f with sent := f.sent ++ [a] } else f

/-- The feed with more items, in this order. -/
def publishAll (f : Feed α) (as : List α) : Feed α :=
  if f.listening then { f with sent := f.sent ++ as } else f

/-- How many items were lost. -/
def lost (f : Feed α) : Nat := f.sent.length - f.capacity

/-- The items that were kept. -/
def kept (f : Feed α) : List α := f.sent.drop f.lost

/-- The feed once someone has looked in. -/
def drain (f : Feed α) : Feed α := { f with sent := [] }

end Feed

end RegionPolicy
