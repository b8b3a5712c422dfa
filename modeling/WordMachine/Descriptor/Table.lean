import WordMachine.Descriptor.Context
import WordMachine.Fault.Basic

/-!
# Descriptor tables

A table lies in memory as rows of a fixed width, one after the other.  A row of
words with every bit set ends it and is not part of it.  Since a cell that was
never written has every bit set, a table written into fresh memory ends by
itself.

A row is read word by word, and the first word that does not exist ends the
reading with an error.  That bounds the recursion, since every row that was read
moves the address up.

The processor does not read a table at every access.  It keeps what it read
last in a `TableCache` until it is told to forget it.  So a program that edits
a table sees the change only after it writes the table register again.
-/

namespace WordMachine

/-- The value of a table register that means no table is installed. -/
def noTable : Word := Word.allOnes

/-- The row of the guest table that belongs to the host. -/
def hostSlot : Word := 0

/-! ## Reading rows -/

/-- The row of words that ends a table. -/
def terminator (width : Nat) : Vector Word width := Vector.replicate width Word.allOnes

/-- The words from an address on. -/
def Memory.row (m : Memory) (width address : Nat) : Vector Word width :=
  Vector.ofFn fun i => m.get (UInt32.ofNat (address + i))

namespace Memory

variable {m : Memory} {address : UInt64} {width : Nat}

/-- The row at an address, read word by word, or the error of the first word that does not exist. -/
def readRow (m : Memory) (address : UInt64) :
    (width : Nat) → Except MemoryError (Vector Word width)
  | 0 => .ok #v[]
  | width + 1 => do
    let row ← m.readRow address width
    let word ← m.read (address + UInt64.ofNat width)
    return row.push word

/-- An address that stays within the address space does not wrap. -/
theorem toNat_add_ofNat (fits : address.toNat + width ≤ Word.count) :
    (address + UInt64.ofNat width).toNat = address.toNat + width := by
  simp only [Word.count] at fits
  rw [UInt64.toNat_add, UInt64.toNat_ofNat']
  omega

theorem read_of_ge (m : Memory) (outside : Word.count ≤ address.toNat) :
    m.read address = .error (.addressOutOfBounds address) := by
  simp [read, cellAddress, Word.ofAddress?, Nat.not_lt.mpr outside, Except.map]

/-- A row that was read lies within the addresses. -/
theorem fits_of_readRow {row : Vector Word width} (positive : 0 < width)
    (found : m.readRow address width = .ok row) : address.toNat + width ≤ Word.count := by
  induction width with
  | zero => omega
  | succ width ih =>
    rw [readRow] at found
    cases before : m.readRow address width with
    | error e => simp [before, bind, Except.bind] at found
    | ok words =>
      have inside : (address + UInt64.ofNat width).toNat < Word.count := by
        refine Nat.lt_of_not_le fun outside => ?_
        simp [before, read_of_ge m outside, bind, Except.bind] at found
      cases width with
      | zero => exact Nat.succ_le_of_lt (by simpa using inside)
      | succ width =>
        rw [toNat_add_ofNat (ih (Nat.succ_pos width) before)] at inside
        omega

/-- The rows from an address on, up to the terminator. -/
def rows (m : Memory) (width : Nat) (positive : 0 < width) (address : UInt64) :
    Except MemoryError (List (Vector Word width)) :=
  match _ : m.readRow address width with
  | .error e => .error e
  | .ok row =>
    if row = terminator width then .ok []
    else (m.rows width positive (address + UInt64.ofNat width)).map (row :: ·)
termination_by Word.count - address.toNat
decreasing_by
  have fits := fits_of_readRow positive ‹_›
  rw [toNat_add_ofNat fits]
  omega

end Memory

/-! ## The two tables -/

/-- The segments in the rows of a table, or the first row with a defect. -/
def segmentsOfRows (base : Word) : Nat → List (Vector Word Segment.rowWidth) →
    Except FatalError (List Segment)
  | _, [] => .ok []
  | index, row :: rows =>
    match Segment.ofRow row with
    | .error defect => .error (.malformedTable .segment base index defect.message)
    | .ok segment => (segmentsOfRows base (index + 1) rows).map (segment :: ·)

/-- The segment table at an address. -/
def Memory.segmentTable (m : Memory) (base : Word) : Except FatalError (List Segment) := do
  let rows ← (m.rows Segment.rowWidth (Nat.zero_lt_succ 3) base.toUInt64).mapError .memory
  segmentsOfRows base 0 rows

/-- The guest table at an address. -/
def Memory.guestTable (m : Memory) (base : Word) : Except FatalError (List Context) := do
  let rows ← (m.rows Context.rowWidth (Nat.zero_lt_succ 8) base.toUInt64).mapError .memory
  return rows.map Context.ofRow

/-! ## Kept tables -/

/-- The last table read, unless it has to be read again. -/
structure TableCache (α : Type) where
  /-- The rows, if they are up to date. -/
  snapshot : Option (List α) := none

namespace TableCache

variable {α ε : Type}

/-- Whether the table has to be read before its next use. -/
def isStale (c : TableCache α) : Bool := c.snapshot.isNone

/-- A cache that has to read its table again. -/
def invalidate (_ : TableCache α) : TableCache α := {}

/-- The rows, from the cache if it is up to date and from `parse` otherwise.  A failure leaves the
cache as it was. -/
def rows (c : TableCache α) (parse : Unit → Except ε (List α)) :
    Except ε (List α × TableCache α) :=
  match c.snapshot with
  | some rows => .ok (rows, c)
  | none => (parse ()).map fun rows => (rows, ⟨some rows⟩)

end TableCache

end WordMachine
