import WordMachine.Descriptor.Table

/-!
# Memory as a map of cells

`Memory.cell?` is what was written to a cell, if anything was.  It tells two
memories apart whenever they differ (`eq_of_cell?`), and `get` and `isWritten`
are read off it.  So a statement that a cell keeps its `cell?` says nothing at
all happened to it.

A block of words that fits is placed word by word.  `place` is the memory then,
and `putBlock_eq` says that writing a block places it, or fails before the first
word.
-/

namespace WordMachine.Memory

/-! ## Cells -/

/-- What was written to a cell, if anything was. -/
def cell? (m : Memory) (a : Word) : Option Word := m.cells[a]?

theorem get_eq_cell? (m : Memory) (a : Word) : m.get a = (m.cell? a).getD blank :=
  Std.ExtTreeMap.getD_eq_getD_getElem?

theorem get_congr {m n : Memory} {a : Word} (h : m.cell? a = n.cell? a) : m.get a = n.get a := by
  rw [get_eq_cell?, get_eq_cell?, h]

theorem cell?_set (m : Memory) (a b v : Word) :
    (m.set a v).cell? b = if a = b then some v else m.cell? b := by
  simp [cell?, set, Std.ExtTreeMap.getElem?_insert]

theorem cell?_set_of_ne (m : Memory) {a b : Word} (v : Word) (h : a ≠ b) :
    (m.set a v).cell? b = m.cell? b := by
  rw [cell?_set, if_neg h]

theorem eq_of_cell? {m n : Memory} (h : ∀ a, m.cell? a = n.cell? a) : m = n := by
  cases m
  cases n
  exact congrArg Memory.mk (Std.ExtTreeMap.ext_getElem? h)

/-! ## Blocks -/

/-- The memory after words are placed from an address on. -/
def place (m : Memory) (address : Nat) : List Word → Memory
  | [] => m
  | w :: ws => (m.set (UInt32.ofNat address) w).place (address + 1) ws

/-- Writing a block changes no cell outside of it. -/
theorem cell?_place_of_outside {m : Memory} {address : Nat} {ws : List Word} {b : Word}
    (fits : address + ws.length ≤ Word.count)
    (outside : b.toNat < address ∨ address + ws.length ≤ b.toNat) :
    (m.place address ws).cell? b = m.cell? b := by
  induction ws generalizing m address with
  | nil => rfl
  | cons w ws ih =>
    simp only [List.length_cons] at fits outside
    have here : (UInt32.ofNat address).toNat = address :=
      UInt32.toNat_ofNat_of_lt' (show address < Word.count by omega)
    rw [place, ih (by omega) (by omega), cell?_set_of_ne]
    intro same
    rw [← same, here] at outside
    omega

theorem cell?_place {m : Memory} {address : Nat} {ws : List Word}
    (fits : address + ws.length ≤ Word.count) {i : Nat} (h : i < ws.length) :
    (m.place address ws).cell? (UInt32.ofNat (address + i)) = some ws[i] := by
  induction ws generalizing m address i with
  | nil => simp at h
  | cons w ws ih =>
    simp only [List.length_cons] at fits h
    cases i with
    | zero =>
      have here : (UInt32.ofNat address).toNat = address :=
        UInt32.toNat_ofNat_of_lt' (show address < Word.count by omega)
      simp only [Nat.add_zero, List.getElem_cons_zero]
      rw [place, cell?_place_of_outside (by omega) (.inl (by omega)), cell?_set, if_pos rfl]
    | succ i =>
      have next : ((m.set (UInt32.ofNat address) w).place (address + 1) ws).cell?
          (UInt32.ofNat (address + 1 + i)) = some ws[i] := ih (by omega) (by omega)
      rw [place, show address + (i + 1) = address + 1 + i by omega, next]
      rfl

/-! ## Writing blocks -/

theorem cellAddress_of_lt {address : UInt64} (h : address.toNat < Word.count) :
    cellAddress address = .ok (UInt32.ofNat address.toNat) := by
  simp [cellAddress, Word.ofAddress?, h]

theorem cellAddress_of_ge {address : UInt64} (h : Word.count ≤ address.toNat) :
    cellAddress address = .error (.addressOutOfBounds address) := by
  simp [cellAddress, Word.ofAddress?, Nat.not_lt.mpr h]

theorem ofAddress?_toUInt64 (w : Word) : Word.ofAddress? w.toUInt64 = some w := by
  have small : w.toNat < Word.count := w.toNat_lt
  simp [Word.ofAddress?, small]

/-- A sum of 64 bits that does not wrap. -/
theorem toNat_sum {address : UInt64} {n : Nat} (narrow : address.toNat + n < UInt64.size) :
    (address + UInt64.ofNat n).toNat = address.toNat + n := by
  simp only [UInt64.size] at narrow
  rw [UInt64.toNat_add, UInt64.toNat_ofNat']
  omega

theorem put_of_inside {address : UInt64} (inside : address.toNat < Word.count) (w : Word)
    (m : Memory) :
    put address w.toUInt64 m = .ok () (m.set (UInt32.ofNat address.toNat) w) := by
  rw [put, cellAddress_of_lt inside, ofAddress?_toUInt64]
  rfl

theorem put_of_outside {address : UInt64} (outside : Word.count ≤ address.toNat) (value : UInt64)
    (m : Memory) : put address value m = .error (.refused (.addressOutOfBounds address)) m := by
  rw [put, cellAddress_of_ge outside]
  rfl

theorem put_of_wide {address value : UInt64} (inside : address.toNat < Word.count)
    (wide : Word.count ≤ value.toNat) (m : Memory) :
    put address value m = .error (.refused (.dataOutOfBounds value address)) m := by
  rw [put, cellAddress_of_lt inside, Word.ofAddress?, if_neg (Nat.not_lt.mpr wide)]
  rfl

theorem putEach_eq {m : Memory} {start : UInt64} {i : Nat} {ws : List Word}
    (fits : start.toNat + i + ws.length ≤ Word.count) :
    putEach start i ws m = .ok () (m.place (start.toNat + i) ws) := by
  induction ws generalizing m i with
  | nil => rfl
  | cons w ws ih =>
    simp only [List.length_cons, Word.count] at fits
    have narrow : start.toNat + i < UInt64.size := by
      simp only [UInt64.size]
      omega
    have here : (start + UInt64.ofNat i).toNat = start.toNat + i := toNat_sum narrow
    have inside : (start + UInt64.ofNat i).toNat < Word.count := by
      rw [here]
      simp only [Word.count]
      omega
    have first := put_of_inside inside w m
    rw [here] at first
    have rest := ih (m := m.set (UInt32.ofNat (start.toNat + i)) w) (i := i + 1)
      (by simp only [Word.count]; omega)
    rw [putEach, sum_of_fits narrow]
    show EStateM.bind (put _ _) (fun _ => putEach start (i + 1) ws) m = _
    simp only [EStateM.bind, first, rest]
    rfl

/-- The address of the last word of a block, if it does not wrap. -/
theorem toNat_last {start : UInt64} {length : Nat} (positive : 0 < length)
    (narrow : start.toNat + length < UInt64.size) :
    (start + UInt64.ofNat length - 1).toNat = start.toNat + length - 1 := by
  have beyond := toNat_sum narrow
  rw [UInt64.toNat_sub_of_le _ _ (UInt64.le_iff_toNat_le.mpr ?_), beyond]
  · rfl
  · rw [beyond]
    exact Nat.le_add_left_of_le positive

/-- A block whose check overflows ends before anything is written. -/
theorem putBlock_of_overflows {m : Memory} {start : UInt64} {ws : List Word} (some_word : ws ≠ [])
    (large : UInt64.size ≤ start.toNat + ws.length) :
    putBlock start ws m = .error .overflow m := by
  rw [putBlock, sum_of_overflows large, if_neg (by simpa using some_word)]
  rfl

/-- A block that is not empty is placed if it fits.  Otherwise it is refused for its last address,
before anything is written. -/
theorem putBlock_eq {m : Memory} {start : UInt64} {ws : List Word} (some_word : ws ≠ [])
    (narrow : start.toNat + ws.length < UInt64.size) :
    putBlock start ws m =
      if start.toNat + ws.length ≤ Word.count then .ok () (m.place start.toNat ws)
      else .error (.refused (.addressOutOfBounds (start + UInt64.ofNat ws.length - 1))) m := by
  have positive : 0 < ws.length := List.length_pos_iff.mpr some_word
  have last := toNat_last positive narrow
  rw [putBlock_eq_check some_word narrow]
  by_cases fits : start.toNat + ws.length ≤ Word.count
  · rw [if_pos fits, cellAddress_of_lt (by rw [last]; omega)]
    exact putEach_eq (i := 0) fits
  · rw [if_neg fits, cellAddress_of_ge (by rw [last]; omega)]
    rfl

theorem writeBlock_eq {m : Memory} {start : UInt64} {ws : List Word} (some_word : ws ≠ [])
    (narrow : start.toNat + ws.length < UInt64.size) :
    m.writeBlock start ws =
      if start.toNat + ws.length ≤ Word.count then .ok (m.place start.toNat ws)
      else .error (.refused (.addressOutOfBounds (start + UInt64.ofNat ws.length - 1))) := by
  unfold writeBlock Store.result
  rw [putBlock_eq some_word narrow]
  by_cases fits : start.toNat + ws.length ≤ Word.count
  · simp only [if_pos fits]
  · simp only [if_neg fits]

/-! ## Reading ranges -/

theorem read_of_lt {address : UInt64} (m : Memory) (inside : address.toNat < Word.count) :
    m.read address = .ok (m.get (UInt32.ofNat address.toNat)) := by
  simp [read, cellAddress_of_lt inside, Except.map]

theorem lt_of_read {m : Memory} {address : UInt64} {w : Word} (found : m.read address = .ok w) :
    address.toNat < Word.count := by
  refine Nat.lt_of_not_le fun outside => ?_
  rw [read_of_ge m outside] at found
  cases found

theorem readRange_of_fits {address : UInt64} {length : Nat}
    (fits : length = 0 ∨ address.toNat + length ≤ Word.count) (m : Memory) :
    m.readRange address length =
      .ok ((List.range length).map fun i => m.get (UInt32.ofNat (address.toNat + i))) := by
  have reads (i n : Nat) (fits : n = 0 ∨ address.toNat + i + n ≤ Word.count) :
      ((List.range' i n).mapM fun j => m.read (address + UInt64.ofNat j)) =
        .ok ((List.range' i n).map fun j => m.get (UInt32.ofNat (address.toNat + j))) := by
    induction n generalizing i with
    | zero => rfl
    | succ n ih =>
      have here : (address + UInt64.ofNat i).toNat = address.toNat + i :=
        toNat_add_ofNat (by omega)
      rw [List.range'_succ, List.mapM_cons, read_of_lt m (by rw [here]; omega),
        ih (i + 1) (by omega), here]
      rfl
  rw [readRange, List.range_eq_range']
  exact reads 0 length (by omega)

/-- A range that reaches past the last cell is refused for the first cell that does not exist. -/
theorem readRange_of_past {address : UInt64} {length : Nat} (positive : 0 < length)
    (past : Word.count < address.toNat + length) (m : Memory) :
    m.readRange address length =
      .error (.addressOutOfBounds (UInt64.ofNat (max address.toNat Word.count))) := by
  have fails (i n : Nat) (here : address.toNat + i ≤ Word.count)
      (past : Word.count < address.toNat + i + n) :
      ((List.range' i n).mapM fun j => m.read (address + UInt64.ofNat j)) =
        .error (.addressOutOfBounds (UInt64.ofNat Word.count)) := by
    induction n generalizing i with
    | zero => omega
    | succ n ih =>
      have sum : (address + UInt64.ofNat i).toNat = address.toNat + i :=
        toNat_add_ofNat (by omega)
      rw [List.range'_succ, List.mapM_cons]
      by_cases inside : address.toNat + i < Word.count
      · rw [read_of_lt m (by rwa [sum]), ih (i + 1) (by omega) (by omega)]
        rfl
      · have last : address + UInt64.ofNat i = UInt64.ofNat Word.count := by
          rw [← UInt64.toNat_inj, sum, Nat.le_antisymm here (Nat.le_of_not_lt inside)]
          rfl
        rw [last, read_of_ge m (Nat.le_refl _)]
        rfl
  rw [readRange, List.range_eq_range']
  rcases Nat.lt_or_ge address.toNat Word.count with below | beyond
  · rw [Nat.max_eq_right (Nat.le_of_lt below)]
    exact fails 0 length (Nat.le_of_lt below) past
  · obtain ⟨n, rfl⟩ := Nat.exists_eq_add_one_of_ne_zero (Nat.ne_of_gt positive)
    have first : address + UInt64.ofNat 0 = address := UInt64.add_zero address
    rw [Nat.max_eq_left beyond, UInt64.ofNat_toNat, List.range'_succ, List.mapM_cons, first,
      read_of_ge m beyond]
    rfl

end WordMachine.Memory
