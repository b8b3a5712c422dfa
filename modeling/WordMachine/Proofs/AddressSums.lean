import WordMachine.Proofs.Memory

/-!
# Sums of addresses

Addresses from outside have 64 bits, and `readRange` and `putBlock` add to them
before they compare.

A range is read from its first address on, and the first address without a cell
ends the call, long before a sum overflows.  `readRangeChecked` reads a range with
every sum checked, and there is no difference (`readRangeChecked_eq`).

A block is checked from its end, the address after its last one.  If that address
fits, so does every other sum (`putBlock_ne_overflow`).  But the check overflows
as soon as a block reaches the last number of 64 bits, even if its last address
is that number (`putBlock_of_overflows`).
-/

namespace WordMachine.Memory

/-! ## Ranges -/

/-- Reads the cells with these indices, and checks every sum. -/
def readEachChecked (m : Memory) (address : UInt64) :
    List Nat → Except AccessFailure (List Word)
  | [] => .ok []
  | i :: rest => do
    let word ← m.read (← sum address i)
    return word :: (← readEachChecked m address rest)

/-- Reads a range, and checks every sum. -/
def readRangeChecked (m : Memory) (address : UInt64) (length : Nat) :
    Except AccessFailure (List Word) :=
  m.readEachChecked address (List.range length)

theorem readEachChecked_eq (m : Memory) (address : UInt64) (i n : Nat)
    (below : i = 0 ∨ address.toNat + i ≤ Word.count) :
    m.readEachChecked address (List.range' i n) =
      ((List.range' i n).mapM fun j => m.read (address + UInt64.ofNat j)).mapError .refused := by
  induction n generalizing i with
  | zero => rfl
  | succ n ih =>
    have fits : address.toNat + i < UInt64.size := by
      rcases below with rfl | below
      · exact address.toNat_lt
      · simp only [Word.count, UInt64.size] at *
        omega
    rw [List.range'_succ, List.mapM_cons, readEachChecked, sum_of_fits fits]
    show ((liftM (m.read (address + UInt64.ofNat i)) : Except AccessFailure Word) >>= _) = _
    cases found : m.read (address + UInt64.ofNat i) with
    | error e => rfl
    | ok word =>
      have inside := lt_of_read found
      rw [toNat_sum fits] at inside
      have rest := ih (i + 1) (.inr (by omega))
      show (m.readEachChecked address (List.range' (i + 1) n) >>= _) = _
      rw [rest]
      cases (List.range' (i + 1) n).mapM fun j => m.read (address + UInt64.ofNat j) <;> rfl

/-- No sum that reading a range comes to overflows. -/
theorem readRangeChecked_eq (m : Memory) (address : UInt64) (length : Nat) :
    m.readRangeChecked address length = (m.readRange address length).mapError .refused := by
  rw [readRangeChecked, readRange, List.range_eq_range']
  exact readEachChecked_eq m address 0 length (.inl rfl)

/-! ## The checks -/

/-- The sums that a range and a block from `start` on come to fit, except for the check of a block
that reaches the last number of 64 bits.  A block that is not placed writes nothing. -/
structure ChecksAddresses (m : Memory) (start : UInt64) (words : List Word) : Prop where
  readRange_fits (length : Nat) :
    m.readRangeChecked start length = (m.readRange start length).mapError .refused
  block_fits_iff : (∀ n, putBlock start words m ≠ .error .overflow n) ↔
    start.toNat + words.length < UInt64.size
  overflows (large : UInt64.size ≤ start.toNat + words.length) :
    putBlock start words m = .error .overflow m
  placed (inside : start.toNat + words.length ≤ Word.count) :
    putBlock start words m = .ok () (m.place start.toNat words)
  /-- A block past the last cell is refused for its last address. -/
  refused (narrow : start.toNat + words.length < UInt64.size)
    (past : Word.count < start.toNat + words.length) :
    ∃ last : UInt64, last.toNat = start.toNat + words.length - 1 ∧
      putBlock start words m = .error (.refused (.addressOutOfBounds last)) m

/-- The sums fit, unless the block reaches the last number of 64 bits. -/
theorem checks_addresses (m : Memory) (start : UInt64) {words : List Word}
    (some_word : words ≠ []) : m.ChecksAddresses start words where
  readRange_fits length := readRangeChecked_eq m start length
  block_fits_iff := by
    refine ⟨fun returns => Nat.lt_of_not_le fun large => ?_, fun narrow _ =>
      putBlock_ne_overflow narrow⟩
    exact returns m (putBlock_of_overflows some_word large)
  overflows large := putBlock_of_overflows some_word large
  placed inside := by
    have narrow : start.toNat + words.length < UInt64.size :=
      Nat.lt_of_le_of_lt inside (by decide)
    rw [putBlock_eq some_word narrow, if_pos inside]
  refused narrow past := by
    refine ⟨_, toNat_last (List.length_pos_iff.mpr some_word) narrow, ?_⟩
    rw [putBlock_eq some_word narrow, if_neg (Nat.not_le.mpr past)]

/-- A block across the end of memory is refused for its last address. -/
theorem checks_addresses_acrossEnd :
    ([1, 2] : List Word) ≠ [] ∧
      (∀ n, putBlock 0xFFFFFFFF [1, 2] .empty ≠ .error .overflow n) ∧
      putBlock 0xFFFFFFFF [1, 2] .empty =
        .error (.refused (.addressOutOfBounds 0x100000000)) .empty := by
  have some_word : ([1, 2] : List Word) ≠ [] := List.cons_ne_nil _ _
  have checks := checks_addresses .empty 0xFFFFFFFF some_word
  obtain ⟨last, same, refused⟩ := checks.refused (by decide) (by decide)
  obtain rfl : last = 0x100000000 := UInt64.toNat_inj.mp same
  exact ⟨some_word, checks.block_fits_iff.mpr (by decide), refused⟩

/-- The check of a block at the last number of 64 bits overflows, although the last address of a
block of one word is that number. -/
theorem last_address_overflows :
    putBlock 0xFFFFFFFFFFFFFFFF [1] .empty = .error .overflow .empty ∧
      (0xFFFFFFFFFFFFFFFF : UInt64).toNat + [1].length - 1 < UInt64.size ∧
      putBlock 0xFFFFFFFFFFFFFFFF [1, 2] .empty = .error .overflow .empty := by
  refine ⟨rfl, by decide, rfl⟩

end WordMachine.Memory
