import WordMachine.Descriptor.Table

/-!
# Tables kept by version

A `TableCache` forgets its rows as soon as they are out of date.  A
`VersionedCache` does not.  It counts how often it was told that its table
changed, keeps the rows with the count at which they were read, and compares the
two counts when the rows are asked for.  So it also keeps them when reading the
table again fails.

The count has 64 bits and wraps.
-/

namespace WordMachine

/-- The rows of a table with the version they were read at. -/
structure VersionedCache (α : Type) where
  /-- The version of the table that is wanted. -/
  version : UInt64 := 0
  /-- The rows read last and their version, if any were read. -/
  snapshot : Option (UInt64 × List α) := none

namespace VersionedCache

variable {α ε : Type} {k : Type → Type} [Monad k]

/-- Whether the table has to be read before its next use. -/
def isStale (c : VersionedCache α) : Bool := !c.snapshot.any (·.1 == c.version)

/-- A cache that has to read its table again. -/
def invalidate (c : VersionedCache α) : VersionedCache α := { c with version := c.version + 1 }

/-- The rows read last, whether they are up to date or not. -/
def lastRows (c : VersionedCache α) : List α := c.snapshot.elim [] (·.2)

/-- A cache that has just read its table. -/
def keep (c : VersionedCache α) (rows : List α) : VersionedCache α :=
  { c with snapshot := some (c.version, rows) }

/-- The rows of the table.  They are read with `parse` if they are not up to date.  A failure leaves
the cache as it was. -/
def rows (c : VersionedCache α) (parse : k (Except ε (List α))) :
    k (Except ε (List α) × VersionedCache α) := do
  if c.isStale then
    match ← parse with
    | .error e => return (.error e, c)
    | .ok rows => return (.ok (c.keep rows).lastRows, c.keep rows)
  else return (.ok c.lastRows, c)

end VersionedCache

end WordMachine
