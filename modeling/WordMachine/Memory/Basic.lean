import Std.Data.ExtTreeMap
import WordMachine.Word
import WordMachine.Text.Numeral

/-!
# Memory

Memory has one cell for each of the `2 ^ 32` addresses.  A cell holds a word.
A cell never written holds `Memory.blank`, the word with every bit set.  Memory
still knows which cells were written, so a cell written with the blank value
differs from one left alone, and two memories are equal exactly when they have
the same written cells with the same contents.

The processor reads and writes through `get` and `set`, which cannot fail.
Everything outside it uses addresses and values of 64 bits and goes through
`read`, `write`, `readRange` and `writeBlock`, which check that they fit.

A write is a `Store`, which changes memory in place.  A store that is refused
halfway would leave the first half written.

The addresses of a block are sums of 64 bits.  A sum that does not fit is an
`overflow`, with which the call ends and does not return, not even an error.
`returned` is what a call returns that has none.
-/

namespace WordMachine

/-! ## Errors -/

/-- Why memory refused an access. -/
inductive MemoryError where
  /-- No cell has this address. -/
  | addressOutOfBounds (address : UInt64)
  /-- The value is wider than a cell. -/
  | dataOutOfBounds (value address : UInt64)
  /-- An image of this many bytes does not hold whole words. -/
  | misalignedImage (length : Nat)
deriving DecidableEq, Repr

/-- The error as text. -/
def MemoryError.message : MemoryError → String
  | addressOutOfBounds address =>
    s!"address {Text.prefixedHex address.toNat} outside the 32-bit address space"
  | dataOutOfBounds value address =>
    s!"value {Text.prefixedHex value.toNat} for address {Text.prefixedHex8 address.toNat} " ++
      "does not fit in 32 bits"
  | misalignedImage length => s!"image length {length} is not a multiple of 4 bytes"

/-- How an access ends that does not come to its end. -/
inductive AccessFailure where
  /-- Memory refused it, and the error is returned. -/
  | refused (error : MemoryError)
  /-- A sum of addresses did not fit, and nothing is returned. -/
  | overflow
deriving DecidableEq, Repr

namespace AccessFailure

/-- The failure as text. -/
def message : AccessFailure → String
  | refused error => error.message
  | overflow => "attempt to add with overflow"

/-- What an access returns that does not overflow. -/
def returned {α : Type} : (x : Except AccessFailure α) → x ≠ .error .overflow → Except MemoryError α
  | .ok a, _ => .ok a
  | .error (.refused e), _ => .error e
  | .error .overflow, returns => absurd rfl returns

theorem returned_of_ok {α : Type} {x : Except AccessFailure α} {a : α} (ok : x = .ok a)
    (returns : x ≠ .error .overflow) : returned x returns = .ok a := by
  subst ok
  rfl

theorem returned_of_refused {α : Type} {x : Except AccessFailure α} {e : MemoryError}
    (failed : x = .error (.refused e)) (returns : x ≠ .error .overflow) :
    returned x returns = .error e := by
  subst failed
  rfl

instance : MonadLift (Except MemoryError) (Except AccessFailure) := ⟨Except.mapError refused⟩

end AccessFailure

/-! ## Cells -/

/-- The memory of the machine. -/
structure Memory where
  /-- The written cells. -/
  cells : Std.ExtTreeMap Word Word compare := ∅

namespace Memory

/-- What a cell holds before it is first written. -/
def blank : Word := Word.allOnes

/-- The memory in which no cell was written. -/
def empty : Memory := {}

instance : Inhabited Memory := ⟨empty⟩

/-- The contents of a cell. -/
def get (m : Memory) (address : Word) : Word := m.cells.getD address blank

/-- The memory after a write to a cell. -/
def set (m : Memory) (address value : Word) : Memory := ⟨m.cells.insert address value⟩

/-- Whether a cell was written. -/
def isWritten (m : Memory) (address : Word) : Bool := m.cells.contains address

/-- The number of written cells. -/
def size (m : Memory) : Nat := m.cells.size

/-- Whether no cell was written. -/
def isEmpty (m : Memory) : Bool := m.cells.isEmpty

/-- The written cells with their contents, in ascending order of address. -/
def toList (m : Memory) : List (Word × Word) := m.cells.toList

/-- The least written address. -/
def lowest? (m : Memory) : Option Word := m.cells.minKey?

/-- The greatest written address. -/
def highest? (m : Memory) : Option Word := m.cells.maxKey?

@[simp] theorem get_empty (a : Word) : empty.get a = blank := by simp [empty, get]

@[simp] theorem get_set_self (m : Memory) (a v : Word) : (m.set a v).get a = v := by
  simp [get, set]

theorem get_set (m : Memory) (a b v : Word) :
    (m.set a v).get b = if a = b then v else m.get b := by
  simp [get, set, Std.ExtTreeMap.getD_insert]

theorem get_set_of_ne (m : Memory) {a b : Word} (v : Word) (h : a ≠ b) :
    (m.set a v).get b = m.get b := by
  simp [get_set, h]

theorem isWritten_set (m : Memory) (a b v : Word) :
    (m.set a v).isWritten b = (a == b || m.isWritten b) := by
  simp [isWritten, set, Std.ExtTreeMap.contains_insert]
  grind

theorem get_of_not_isWritten {m : Memory} {a : Word} (h : m.isWritten a = false) :
    m.get a = blank := by
  simp [get, isWritten] at *
  exact Std.ExtTreeMap.getD_eq_fallback_of_contains_eq_false h

theorem eq_of_toList {m n : Memory} (h : m.toList = n.toList) : m = n := by
  cases m
  cases n
  exact congrArg Memory.mk (Std.ExtTreeMap.ext_toList (.of_eq h))

/-! ## Checked access -/

/-- The cell address that a number names. -/
def cellAddress (address : UInt64) : Except MemoryError Word :=
  match Word.ofAddress? address with
  | some a => .ok a
  | none => .error (.addressOutOfBounds address)

/-- The contents of the cell at an address. -/
def read (m : Memory) (address : UInt64) : Except MemoryError Word :=
  (cellAddress address).map m.get

/-- The contents of consecutive cells, or the error of the first that does not exist. -/
def readRange (m : Memory) (address : UInt64) (length : Nat) : Except MemoryError (List Word) :=
  (List.range length).mapM fun i => m.read (address + UInt64.ofNat i)

/-! ## Stores -/

/-- A call that writes to memory.  One that ends early keeps what it wrote before. -/
abbrev Store := EStateM AccessFailure Memory Unit

/-- The memory that a store leaves, however it ends. -/
def Store.left (s : Store) (m : Memory) : Memory :=
  match s m with
  | .ok _ m => m
  | .error _ m => m

/-- The memory after a store, or how it ends early. -/
def Store.result (s : Store) (m : Memory) : Except AccessFailure Memory :=
  match s m with
  | .ok _ m => .ok m
  | .error e _ => .error e

instance : MonadLift (Except AccessFailure) (EStateM AccessFailure Memory) where
  monadLift x := fun m => match x with
    | .ok a => .ok a m
    | .error e => .error e m

/-- Writes a value at an address.  The address is checked first. -/
def put (address value : UInt64) : Store := do
  let a ← cellAddress address
  match Word.ofAddress? value with
  | some v => modify (·.set a v)
  | none => throw (.refused (.dataOutOfBounds value address))

/-- The number `n` after another. -/
def sum (address : UInt64) (n : Nat) : Except AccessFailure UInt64 :=
  if address.toNat + n < UInt64.size then .ok (address + UInt64.ofNat n) else .error .overflow

/-- Writes words one after the other, the first one `i` cells after `start`. -/
def putEach (start : UInt64) : Nat → List Word → Store
  | _, [] => pure ()
  | i, word :: rest => do
      put (← sum start i) word.toUInt64
      putEach start (i + 1) rest

/-- Places words from `start` on.  The address of the last one is checked before anything is
written, and taken by way of the address after it. -/
def putBlock (start : UInt64) (words : List Word) : Store := do
  unless words.isEmpty do
    let _ ← cellAddress ((← sum start words.length) - 1)
  putEach start 0 words

/-- The memory after a write of a value at an address. -/
def write (m : Memory) (address value : UInt64) : Except AccessFailure Memory :=
  (put address value).result m

/-- The memory after words are placed from `start` on. -/
def writeBlock (m : Memory) (start : UInt64) (words : List Word) : Except AccessFailure Memory :=
  (putBlock start words).result m

/-! ## Blocks that do not overflow -/

variable {m m' : Memory} {start : UInt64} {words : List Word}

theorem sum_of_fits {address : UInt64} {n : Nat} (fits : address.toNat + n < UInt64.size) :
    sum address n = .ok (address + UInt64.ofNat n) := if_pos fits

theorem sum_of_overflows {address : UInt64} {n : Nat} (large : UInt64.size ≤ address.toNat + n) :
    sum address n = .error .overflow := if_neg (Nat.not_lt.mpr large)

theorem put_ne_overflow (address value : UInt64) : put address value m ≠ .error .overflow m' := by
  unfold put
  cases cellAddress address with
  | error e => nofun
  | ok a => cases Word.ofAddress? value <;> nofun

theorem putEach_ne_overflow {i : Nat} (narrow : start.toNat + i + words.length ≤ UInt64.size) :
    putEach start i words m ≠ .error .overflow m' := by
  induction words generalizing i m with
  | nil => nofun
  | cons word rest ih =>
    simp only [List.length_cons] at narrow
    have first (n : Memory) : put _ word.toUInt64 m ≠ .error .overflow n :=
      put_ne_overflow (start + UInt64.ofNat i) word.toUInt64
    rw [putEach, sum_of_fits (by omega)]
    show EStateM.bind (put _ _) (fun _ => putEach start (i + 1) rest) m ≠ _
    unfold EStateM.bind
    cases stored : put (start + UInt64.ofNat i) word.toUInt64 m with
    | error e n =>
      rintro ⟨rfl, rfl⟩
      exact first _ stored
    | ok _ n => exact ih (by omega)

/-- If its end has an address, a block is written once the last address is checked. -/
theorem putBlock_eq_check (some_word : words ≠ [])
    (narrow : start.toNat + words.length < UInt64.size) :
    putBlock start words = (do
      let _ ← cellAddress (start + UInt64.ofNat words.length - 1)
      putEach start 0 words) := by
  rw [putBlock, sum_of_fits narrow, if_neg (by simpa using some_word)]
  rfl

/-- A block whose end has an address does not overflow. -/
theorem putBlock_ne_overflow (narrow : start.toNat + words.length < UInt64.size) :
    putBlock start words m ≠ .error .overflow m' := by
  by_cases none : words = []
  · subst none
    nofun
  rw [putBlock_eq_check none narrow]
  cases cellAddress (start + UInt64.ofNat words.length - 1) with
  | error e => nofun
  | ok _ => exact putEach_ne_overflow (i := 0) (Nat.le_of_lt narrow)

theorem writeBlock_ne_overflow (narrow : start.toNat + words.length < UInt64.size) :
    m.writeBlock start words ≠ .error .overflow := by
  have block (n : Memory) : putBlock start words m ≠ .error .overflow n :=
    putBlock_ne_overflow narrow
  unfold writeBlock Store.result
  cases stored : putBlock start words m with
  | ok _ n => nofun
  | error e n =>
    rintro ⟨rfl⟩
    exact block n stored

end Memory

end WordMachine
