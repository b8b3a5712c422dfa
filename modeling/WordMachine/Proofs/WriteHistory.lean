import Mathlib.Data.List.Dedup
import Mathlib.Data.List.Induction
import WordMachine.Proofs.History
import WordMachine.Proofs.Memory

/-!
# What writes leave in memory

The owner of a memory writes single values and blocks of words to it.  A
`WriteCall` is one such call, and `leftBy` is the memory that calls leave, one
after the other.  A call that is refused keeps whatever it wrote before.

What memory holds is stated over the list of calls.  `WriteCall.writes` are the
addresses and values that a call names, and a call is accepted if all of them
fit.  `LastWrite` is the value of the last accepted call that covers an address.

An accepted call places its words (`store_of_accepted`), and one that is not
accepted has written nothing by the time it is refused (`store_of_outside`,
`store_of_wide`).  So the written cells are those with a last write
(`cell?_leftBy`).
-/

namespace WordMachine.Memory

/-! ## Calls -/

/-- A call that writes to a memory. -/
inductive WriteCall where
  | word (address value : UInt64)
  | block (address : UInt64) (words : List Word)
deriving DecidableEq, Repr

namespace WriteCall

/-- What a call does to memory. -/
def store : WriteCall → Store
  | word address value => put address value
  | block address words => putBlock address words

/-- The address of the first value. -/
def start : WriteCall → UInt64
  | word address _ => address
  | block address _ => address

/-- The values, in the order of their addresses. -/
def values : WriteCall → List Nat
  | word _ value => [value.toNat]
  | block _ words => words.map (·.toNat)

/-- The addresses that a call names, with their values. -/
def writes (c : WriteCall) : List (Nat × Nat) :=
  c.values.mapIdx fun i value => (c.start.toNat + i, value)

/-- Whether no cell has one of the addresses. -/
def Outside (c : WriteCall) : Prop := ∃ write ∈ c.writes, Word.count ≤ write.1

/-- Whether a value is wider than a cell. -/
def Wide (c : WriteCall) : Prop := ∃ write ∈ c.writes, Word.count ≤ write.2

/-- Whether every value has a cell and fits it. -/
def Accepted (c : WriteCall) : Prop := ¬c.Outside ∧ ¬c.Wide

instance (c : WriteCall) : Decidable c.Outside := inferInstanceAs (Decidable (∃ _ ∈ _, _))

instance (c : WriteCall) : Decidable c.Wide := inferInstanceAs (Decidable (∃ _ ∈ _, _))

instance (c : WriteCall) : Decidable c.Accepted := inferInstanceAs (Decidable (_ ∧ _))

/-- Whether a call writes a value to an address. -/
def Writes (c : WriteCall) (address value : Nat) : Prop :=
  c.Accepted ∧ (address, value) ∈ c.writes

instance (c : WriteCall) (address : Nat) : Decidable (∃ value, c.Writes address value) :=
  decidable_of_iff (c.Accepted ∧ address ∈ c.writes.map (·.1)) (by simp [Writes])

/-- Whether the end of a block can be addressed with 64 bits. -/
def Narrow : WriteCall → Prop
  | word _ _ => True
  | block address words => address.toNat + words.length < UInt64.size

end WriteCall

/-- The memory that calls leave, from the empty one on. -/
def leftBy (calls : List WriteCall) : Memory :=
  calls.foldl (fun m c => c.store.left m) .empty

/-- The value of the last write to an address. -/
def LastWrite (calls : List WriteCall) (address value : Nat) : Prop :=
  Latest calls (·.Writes address value) fun later => ∃ value', later.Writes address value'

/-- The addresses that were written, as often as they were. -/
def written (calls : List WriteCall) : List Nat :=
  (calls.filter fun c => c.Accepted).flatMap fun c => c.writes.map (·.1)

/-! ## The addresses of a call -/

namespace WriteCall

@[simp] theorem start_word (address value : UInt64) : (word address value).start = address := rfl

@[simp] theorem start_block (address : UInt64) (words : List Word) :
    (block address words).start = address := rfl

@[simp] theorem values_word (address value : UInt64) :
    (word address value).values = [value.toNat] := rfl

@[simp] theorem values_block (address : UInt64) (words : List Word) :
    (block address words).values = words.map (·.toNat) := rfl

variable {c : WriteCall} {address value : Nat}

theorem mem_writes :
    (address, value) ∈ c.writes ↔ ∃ i, c.values[i]? = some value ∧ address = c.start.toNat + i := by
  simp only [writes, List.mem_iff_getElem?, List.getElem?_mapIdx, Option.map_eq_some_iff,
    Prod.mk.injEq]
  constructor
  · rintro ⟨i, _, found, rfl, rfl⟩
    exact ⟨i, found, rfl⟩
  · rintro ⟨i, found, rfl⟩
    exact ⟨i, value, found, rfl, rfl⟩

/-- The addresses of a call have cells if that of the last value has one. -/
theorem not_outside_iff :
    ¬c.Outside ↔ c.values = [] ∨ c.start.toNat + c.values.length ≤ Word.count := by
  constructor
  · intro inside
    refine or_iff_not_imp_left.mpr fun some_value => Nat.le_of_not_lt fun past => inside ?_
    have positive : 0 < c.values.length := List.length_pos_iff.mpr some_value
    have last : c.values.length - 1 < c.values.length := by omega
    refine ⟨(c.start.toNat + (c.values.length - 1), c.values[c.values.length - 1]),
      mem_writes.mpr ⟨_, List.getElem?_eq_getElem last, rfl⟩, ?_⟩
    show Word.count ≤ c.start.toNat + (c.values.length - 1)
    omega
  · rintro fits ⟨⟨address, value⟩, named, past⟩
    obtain ⟨i, found, rfl⟩ := mem_writes.mp named
    obtain ⟨before, -⟩ := List.getElem?_eq_some_iff.mp found
    rcases fits with none | fits
    · simp [none] at before
    · have past : Word.count ≤ c.start.toNat + i := past
      omega

theorem wide_iff : c.Wide ↔ ∃ value ∈ c.values, Word.count ≤ value := by
  constructor
  · rintro ⟨⟨address, value⟩, named, wide⟩
    obtain ⟨i, found, -⟩ := mem_writes.mp named
    exact ⟨value, List.mem_of_getElem? found, wide⟩
  · rintro ⟨value, among, wide⟩
    obtain ⟨i, found⟩ := List.mem_iff_getElem?.mp among
    exact ⟨(c.start.toNat + i, value), mem_writes.mpr ⟨i, found, rfl⟩, wide⟩

/-! ## One call -/

theorem store_of_accepted (narrow : c.Narrow) (accepted : c.Accepted) (m : Memory) :
    c.store m = .ok () (m.place c.start.toNat (c.values.map UInt32.ofNat)) := by
  obtain ⟨inside, fits⟩ := accepted
  rw [not_outside_iff] at inside
  rw [wide_iff] at fits
  cases c with
  | word address value =>
    have below : address.toNat < Word.count := Nat.lt_of_succ_le (by simpa using inside)
    have small : value.toNat < Word.count := by simpa using fits
    show put address value m = _
    rw [put, cellAddress_of_lt below, Word.ofAddress?, if_pos small]
    rfl
  | block address words =>
    have same : (words.map (·.toNat)).map UInt32.ofNat = words := by
      rw [List.map_map]
      exact List.map_id'' (fun _ => UInt32.ofNat_toNat) words
    show putBlock address words m = .ok () (m.place address.toNat _)
    rw [values_block, same]
    by_cases none : words = []
    · subst none
      rfl
    · rw [putBlock_eq none narrow, if_pos (by simpa [none] using inside)]

/-- A call that names an address without a cell is refused for one before it writes. -/
theorem store_of_outside (narrow : c.Narrow) (outside : c.Outside) (m : Memory) :
    ∃ address : UInt64, (∃ value, (address.toNat, value) ∈ c.writes) ∧
      Word.count ≤ address.toNat ∧ c.store m = .error (.refused (.addressOutOfBounds address)) m := by
  cases c with
  | word address value =>
    have past : Word.count ≤ address.toNat := by simpa [Outside, writes] using outside
    refine ⟨address, ⟨value.toNat, by simp [writes]⟩, past, ?_⟩
    exact put_of_outside past value m
  | block address words =>
    have exceeds := mt not_outside_iff.mpr (not_not_intro outside)
    simp only [values_block, start_block, List.map_eq_nil_iff, List.length_map, not_or,
      Nat.not_le] at exceeds
    obtain ⟨some_word, past⟩ := exceeds
    have positive : 0 < words.length := List.length_pos_iff.mpr some_word
    have last := toNat_last positive narrow
    refine ⟨address + UInt64.ofNat words.length - 1, ?_, ?_, ?_⟩
    · have before : words.length - 1 < words.length := by omega
      refine ⟨words[words.length - 1].toNat, mem_writes.mpr ⟨words.length - 1, ?_, ?_⟩⟩
      · simp [List.getElem?_eq_getElem before]
      · rw [last]
        exact Nat.add_sub_assoc positive _
    · rw [last]
      exact Nat.le_sub_one_of_lt past
    · exact (putBlock_eq some_word narrow).trans (if_neg (Nat.not_le.mpr past))

/-- Otherwise, a call that names a value wider than a cell is refused for it. -/
theorem store_of_wide (inside : ¬c.Outside) (wide : c.Wide) (m : Memory) :
    ∃ address value : UInt64, (address.toNat, value.toNat) ∈ c.writes ∧
      Word.count ≤ value.toNat ∧ c.store m = .error (.refused (.dataOutOfBounds value address)) m := by
  rw [not_outside_iff] at inside
  rw [wide_iff] at wide
  cases c with
  | word address value =>
    have below : address.toNat < Word.count := Nat.lt_of_succ_le (by simpa using inside)
    have large : Word.count ≤ value.toNat := by simpa using wide
    refine ⟨address, value, by simp [writes], large, ?_⟩
    exact put_of_wide below large m
  | block address words =>
    obtain ⟨_, among, large⟩ := wide
    obtain ⟨w, -, rfl⟩ := List.mem_map.mp among
    exact absurd w.toNat_lt (Nat.not_lt.mpr large)

theorem left_of_not_accepted (narrow : c.Narrow) (refused : ¬c.Accepted) (m : Memory) :
    c.store.left m = m := by
  by_cases outside : c.Outside
  · obtain ⟨address, -, -, error⟩ := store_of_outside narrow outside m
    simp only [Store.left, error]
  · have wide : c.Wide := by simpa [Accepted, outside] using refused
    obtain ⟨address, value, -, -, error⟩ := store_of_wide outside wide m
    simp only [Store.left, error]

/-! ## The cells that a call leaves -/

theorem writes_iff (accepted : c.Accepted) :
    c.Writes address value ↔ ∃ i, c.values[i]? = some value ∧ address = c.start.toNat + i :=
  (and_iff_right accepted).trans mem_writes

theorem Writes.lt (h : c.Writes address value) : address < Word.count ∧ value < Word.count :=
  ⟨Nat.lt_of_not_le fun past => h.1.1 ⟨_, h.2, past⟩,
    Nat.lt_of_not_le fun wide => h.1.2 ⟨_, h.2, wide⟩⟩

theorem Writes.unique {value' : Nat} (h : c.Writes address value) (h' : c.Writes address value') :
    value = value' := by
  obtain ⟨i, found, same⟩ := (writes_iff h.1).mp h
  obtain ⟨j, found', same'⟩ := (writes_iff h.1).mp h'
  obtain rfl : i = j := by omega
  exact Option.some.inj (found.symm.trans found')

theorem left_of_accepted (narrow : c.Narrow) (accepted : c.Accepted) (m : Memory) :
    c.store.left m = m.place c.start.toNat (c.values.map UInt32.ofNat) := by
  simp only [Store.left, store_of_accepted narrow accepted m]

theorem cell?_left_of_writes {a : Word} (narrow : c.Narrow) (writes : c.Writes a.toNat value)
    (m : Memory) : (c.store.left m).cell? a = some (UInt32.ofNat value) := by
  obtain ⟨i, found, same⟩ := (writes_iff writes.1).mp writes
  obtain ⟨before, rfl⟩ := List.getElem?_eq_some_iff.mp found
  have fits : c.start.toNat + c.values.length ≤ Word.count :=
    (not_outside_iff.mp writes.1.1).resolve_left (List.ne_nil_of_length_pos (by omega))
  have there : a = UInt32.ofNat (c.start.toNat + i) := by rw [← same, UInt32.ofNat_toNat]
  rw [left_of_accepted narrow writes.1, there, cell?_place (by simpa using fits)
    (by simpa using before), List.getElem_map]

theorem cell?_left_of_not_writes {a : Word} (narrow : c.Narrow)
    (none : ∀ value, ¬c.Writes a.toNat value) (m : Memory) :
    (c.store.left m).cell? a = m.cell? a := by
  by_cases accepted : c.Accepted
  · rw [left_of_accepted narrow accepted]
    rcases not_outside_iff.mp accepted.1 with empty | fits
    · rw [empty]
      rfl
    · refine cell?_place_of_outside (by simpa using fits) ?_
      by_contra within
      simp only [List.length_map] at within
      have before : a.toNat - c.start.toNat < c.values.length := by omega
      exact none _ ((writes_iff accepted).mpr ⟨_, List.getElem?_eq_getElem before, by omega⟩)
  · rw [left_of_not_accepted narrow accepted]

/-- A cell holds what the call wrote to it.  If it wrote nothing, it holds what it did. -/
theorem cell?_left (narrow : c.Narrow) (m : Memory) (a w : Word) :
    (c.store.left m).cell? a = some w ↔
      c.Writes a.toNat w.toNat ∨ m.cell? a = some w ∧ ¬∃ value, c.Writes a.toNat value := by
  by_cases covered : ∃ value, c.Writes a.toNat value
  · obtain ⟨value, writes⟩ := covered
    rw [cell?_left_of_writes narrow writes, Option.some.injEq]
    constructor
    · rintro rfl
      rw [UInt32.toNat_ofNat_of_lt' writes.lt.2]
      exact .inl writes
    · rintro (own | ⟨-, other⟩)
      · rw [writes.unique own, UInt32.ofNat_toNat]
      · exact absurd ⟨value, writes⟩ other
  · rw [cell?_left_of_not_writes narrow (not_exists.mp covered)]
    simp [not_exists.mp covered]

end WriteCall

/-! ## A list of calls -/

variable {calls : List WriteCall}

theorem leftBy_concat (calls : List WriteCall) (c : WriteCall) :
    leftBy (calls ++ [c]) = c.store.left (leftBy calls) := by
  simp only [leftBy, List.foldl_append, List.foldl_cons, List.foldl_nil]

/-- The written cells hold what was last written to them. -/
theorem cell?_leftBy (narrow : ∀ c ∈ calls, c.Narrow) (a w : Word) :
    (leftBy calls).cell? a = some w ↔ LastWrite calls a.toNat w.toNat := by
  induction calls using List.reverseRecOn with
  | nil => exact iff_of_false (by simp [leftBy, cell?, empty]) not_latest_nil
  | append_singleton calls c ih =>
    rw [leftBy_concat, WriteCall.cell?_left (narrow c (by simp)), LastWrite, latest_concat]
    rw [ih fun c among => narrow c (List.mem_append_left _ among), LastWrite]

theorem LastWrite.lt {address value : Nat} (last : LastWrite calls address value) :
    address < Word.count ∧ value < Word.count := by
  obtain ⟨-, c, -, -, writes, -⟩ := last
  exact writes.lt

theorem read_leftBy_of_last (narrow : ∀ c ∈ calls, c.Narrow) {address : UInt64} {value : Nat}
    (last : LastWrite calls address.toNat value) :
    (leftBy calls).read address = .ok (UInt32.ofNat value) := by
  have inside : (UInt32.ofNat address.toNat).toNat = address.toNat :=
    UInt32.toNat_ofNat_of_lt' last.lt.1
  have small : (UInt32.ofNat value).toNat = value := UInt32.toNat_ofNat_of_lt' last.lt.2
  have written := (cell?_leftBy narrow (UInt32.ofNat address.toNat) (UInt32.ofNat value)).mpr
    (by rwa [inside, small])
  rw [read_of_lt _ last.lt.1, get_eq_cell?, written]
  rfl

theorem read_leftBy_of_none (narrow : ∀ c ∈ calls, c.Narrow) {address : UInt64}
    (inside : address.toNat < Word.count) (none : ∀ value, ¬LastWrite calls address.toNat value) :
    (leftBy calls).read address = .ok blank := by
  have unwritten : (leftBy calls).cell? (UInt32.ofNat address.toNat) = .none := by
    refine Option.eq_none_iff_forall_ne_some.mpr fun w found => ?_
    have last := (cell?_leftBy narrow _ w).mp found
    rw [UInt32.toNat_ofNat_of_lt' inside] at last
    exact none _ last
  rw [read_of_lt _ inside, get_eq_cell?, unwritten]
  rfl

/-! ## The number of written cells -/

theorem mem_written {address : Nat} :
    address ∈ written calls ↔ ∃ c ∈ calls, ∃ value, c.Writes address value := by
  simp only [written, List.mem_flatMap, List.mem_filter, decide_eq_true_eq, List.mem_map,
    Prod.exists, exists_and_right, exists_eq_right, WriteCall.Writes, and_assoc,
    exists_and_left]

/-- The written cells are those that an accepted call covers. -/
theorem mem_cells_leftBy (narrow : ∀ c ∈ calls, c.Narrow) (a : Word) :
    a ∈ (leftBy calls).cells ↔ a.toNat ∈ written calls := by
  rw [mem_written, ← exists_latest_iff, Std.ExtTreeMap.mem_iff_isSome_getElem?,
    Option.isSome_iff_exists]
  constructor
  · rintro ⟨w, found⟩
    exact ⟨w.toNat, (cell?_leftBy narrow a w).mp found⟩
  · rintro ⟨value, last⟩
    refine ⟨UInt32.ofNat value, (cell?_leftBy narrow a _).mpr ?_⟩
    rwa [UInt32.toNat_ofNat_of_lt' (LastWrite.lt last).2]

theorem size_leftBy (narrow : ∀ c ∈ calls, c.Narrow) :
    (leftBy calls).size = (written calls).dedup.length := by
  have same : ((leftBy calls).cells.keys.map (·.toNat)).Perm (written calls).dedup := by
    refine (List.perm_ext_iff_of_nodup ?_ (List.nodup_dedup _)).mpr fun address => ?_
    · exact Std.ExtTreeMap.nodup_keys.map fun a b => UInt32.toNat_inj.mp
    · simp only [List.mem_map, Std.ExtTreeMap.mem_keys, mem_cells_leftBy narrow, List.mem_dedup]
      constructor
      · rintro ⟨a, among, rfl⟩
        exact among
      · intro among
        have inside : address < Word.count := by
          obtain ⟨c, -, value, writes⟩ := mem_written.mp among
          exact writes.lt.1
        have back : (UInt32.ofNat address).toNat = address := UInt32.toNat_ofNat_of_lt' inside
        exact ⟨UInt32.ofNat address, back.symm ▸ among, back⟩
  rw [← same.length_eq, List.length_map, Std.ExtTreeMap.length_keys]
  rfl

/-! ## The total map -/

/-- A call succeeds exactly if every value has a cell and fits it.  Otherwise it says what does not
fit, and memory stays as it was. -/
structure WriteCall.AllOrNothing (c : WriteCall) (m : Memory) : Prop where
  succeeds (inside : ¬c.Outside) (fits : ¬c.Wide) : ∃ n, c.store m = .ok () n
  refused_of_outside (outside : c.Outside) :
    ∃ address : UInt64, (∃ value, (address.toNat, value) ∈ c.writes) ∧
      Word.count ≤ address.toNat ∧ c.store m = .error (.refused (.addressOutOfBounds address)) m
  refused_of_wide (inside : ¬c.Outside) (wide : c.Wide) :
    ∃ address value : UInt64, (address.toNat, value.toNat) ∈ c.writes ∧
      Word.count ≤ value.toNat ∧ c.store m = .error (.refused (.dataOutOfBounds value address)) m

/-- Memory reads as the values that calls wrote last, and blank elsewhere. -/
structure HoldsLast (m : Memory) (calls : List WriteCall) : Prop where
  read_of_last {address : UInt64} {value : Nat} (last : LastWrite calls address.toNat value) :
    ∃ w, m.read address = .ok w ∧ w.toNat = value
  read_of_none {address : UInt64} (inside : address.toNat < Word.count)
    (none : ∀ value, ¬LastWrite calls address.toNat value) : m.read address = .ok blank
  /-- A range is read cell by cell. -/
  readRange_of_fits (address : UInt64) (length : Nat)
    (fits : length = 0 ∨ address.toNat + length ≤ Word.count) :
    ∃ words, m.readRange address length = .ok words ∧
      words.map .ok = (List.range length).map fun i => m.read (address + UInt64.ofNat i)
  readRange_of_past (address : UInt64) (length : Nat) (positive : 0 < length)
    (past : Word.count < address.toNat + length) :
    m.readRange address length =
      .error (.addressOutOfBounds (UInt64.ofNat (max address.toNat Word.count)))
  size_eq : m.size = (written calls).dedup.length

theorem WriteCall.allOrNothing {c : WriteCall} (narrow : c.Narrow) (m : Memory) :
    c.AllOrNothing m where
  succeeds inside fits := ⟨_, store_of_accepted narrow ⟨inside, fits⟩ m⟩
  refused_of_outside outside := store_of_outside narrow outside m
  refused_of_wide inside wide := store_of_wide inside wide m

/-- The words of a range that lies in memory, read one by one. -/
theorem map_get_eq {address : UInt64} {length : Nat}
    (fits : length = 0 ∨ address.toNat + length ≤ Word.count) (m : Memory) :
    ((List.range length).map fun i => m.get (UInt32.ofNat (address.toNat + i))).map .ok =
      (List.range length).map fun i => m.read (address + UInt64.ofNat i) := by
  rw [List.map_map]
  refine List.map_congr_left fun i among => ?_
  have before := List.mem_range.mp among
  have sum : (address + UInt64.ofNat i).toNat = address.toNat + i := toNat_add_ofNat (by omega)
  rw [Function.comp_apply, read_of_lt m (by omega), sum]

/-- Whatever is written to an empty memory, each call is carried out as a whole or not at all, and
memory holds what was written last. -/
theorem holds_last_writes {calls : List WriteCall} (narrow : ∀ c ∈ calls, c.Narrow) :
    (∀ c ∈ calls, ∀ m, c.AllOrNothing m) ∧ (leftBy calls).HoldsLast calls := by
  refine ⟨fun c among m => WriteCall.allOrNothing (narrow c among) m, ?_⟩
  refine ⟨fun {address value} last => ?_, read_leftBy_of_none narrow, fun _ _ fits => ?_,
    fun _ _ positive past => readRange_of_past positive past _, size_leftBy narrow⟩
  · exact ⟨_, read_leftBy_of_last narrow last, UInt32.toNat_ofNat_of_lt' last.lt.2⟩
  · exact ⟨_, readRange_of_fits fits _, map_get_eq fits _⟩

/-- Calls that meet the end of memory, overlap, and are refused. -/
def sampleWrites : List WriteCall :=
  [.block 0xFFFFFFFE [1, 2], .word 0xFFFFFFFE 7, .block 0xFFFFFFFF [5, 6], .word 3 0x100000000,
    .word 0x100000000 8]

/-- The last two cells hold what was written to them, and a range beyond them cannot be read. -/
theorem holds_last_writes_sampleWrites :
    (∀ c ∈ sampleWrites, c.Narrow) ∧
      (leftBy sampleWrites).readRange 0xFFFFFFFE 2 = .ok [7, 2] ∧
      (leftBy sampleWrites).readRange 0xFFFFFFFE 3 = .error (.addressOutOfBounds 0x100000000) ∧
      (leftBy sampleWrites).read 3 = .ok blank ∧ (leftBy sampleWrites).size = 2 ∧
      ∀ m, (WriteCall.block 0xFFFFFFFF [5, 6]).store m =
        .error (.refused (.addressOutOfBounds 0x100000000)) m := by
  have narrow : ∀ c ∈ sampleWrites, c.Narrow := by
    simp [sampleWrites, WriteCall.Narrow, UInt64.size]
  obtain ⟨atomic, holds⟩ := holds_last_writes narrow
  have first : LastWrite sampleWrites (0xFFFFFFFE : UInt64).toNat 7 :=
    ⟨sampleWrites.take 1, sampleWrites[1], sampleWrites.drop 2, rfl,
      ⟨by decide, by decide⟩, by decide⟩
  have second : LastWrite sampleWrites (0xFFFFFFFF : UInt64).toNat 2 :=
    ⟨[], sampleWrites[0], sampleWrites.drop 1, rfl, ⟨by decide, by decide⟩, by decide⟩
  have third (value : Nat) : ¬LastWrite sampleWrites (3 : UInt64).toNat value := by
    rintro ⟨before, c, after, eq, writes, -⟩
    have among : c ∈ sampleWrites := by simp [eq]
    have none : ∀ c ∈ sampleWrites, ¬∃ value, c.Writes (3 : UInt64).toNat value := by decide
    exact none c among ⟨value, writes⟩
  refine ⟨narrow, ?_, holds.readRange_of_past _ 3 (by decide) (by decide),
    holds.read_of_none (by decide) third, holds.size_eq.trans (by decide), fun m => ?_⟩
  · obtain ⟨words, found, each⟩ := holds.readRange_of_fits 0xFFFFFFFE 2 (.inr (by decide))
    obtain ⟨a, readFirst, seven⟩ := holds.read_of_last first
    obtain ⟨b, readSecond, two⟩ := holds.read_of_last second
    obtain rfl : a = 7 := UInt32.toNat_inj.mp seven
    obtain rfl : b = 2 := UInt32.toNat_inj.mp two
    have both : words.map Except.ok = [7, 2].map fun w => (.ok w : Except MemoryError Word) :=
      each.trans (congrArg₂ (fun x y => [x, y]) readFirst readSecond)
    rw [found, List.map_injective_iff.mpr (fun _ _ => Except.ok.inj) both]
  · obtain ⟨address, ⟨value, named⟩, past, refused⟩ :=
      (atomic (.block 0xFFFFFFFF [5, 6]) (by decide) m).refused_of_outside (by decide)
    have either : address.toNat = 0xFFFFFFFF ∨ address.toNat = 0x100000000 := by
      have among := List.mem_map_of_mem (f := Prod.fst) named
      simpa [WriteCall.writes] using among
    rcases either with inside | same
    · rw [inside] at past
      exact absurd past (by decide)
    · rwa [UInt64.toNat_inj.mp (show address.toNat = (0x100000000 : UInt64).toNat from same)]
        at refused

end WordMachine.Memory
