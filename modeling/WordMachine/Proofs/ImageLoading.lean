import Mathlib.Data.Nat.Digits.Defs
import WordMachine.Memory.Image
import WordMachine.Proofs.Memory

/-!
# Images and the memory they load into

An image is read four bytes at a time, and each four bytes write one word with
the least significant byte first (`Image.toNat_eq_ofDigits`).  Reading and
writing are inverse, so an image says the same as its words.

Loading places the words from address zero on.  An image of at most `2 ^ 34`
bytes has no more words than there are cells, so they all find a place
(`Memory.ofImage_eq`).  The cells after the last one stay blank.
-/

namespace WordMachine

/-! ## The number that bytes write -/

/-- A word is the number that its bytes write. -/
theorem Word.ofDigits_toBytes (w : Word) :
    Nat.ofDigits 256 (w.toBytes.map UInt8.toNat) = w.toNat := by
  have small := w.toNat_lt
  simp only [toBytes, List.map_cons, List.map_nil, Nat.ofDigits_cons, Nat.ofDigits_nil, byte0,
    byte1, byte2, byte3, UInt32.toNat_toUInt8, UInt32.toNat_shiftRight, UInt32.reduceToNat,
    Nat.reduceMod, Nat.shiftRight_eq_div_pow, Nat.reducePow]
  omega

namespace Image

theorem drop_toBytes (ws : List Word) (i : Nat) :
    (toBytes ws).drop (4 * i) = toBytes (ws.drop i) := by
  induction ws generalizing i with
  | nil => simp [toBytes]
  | cons w ws ih =>
    cases i with
    | zero => rfl
    | succ i =>
      rw [List.drop_succ_cons, ← ih]
      rfl

/-- Each word of an image is the number that its four bytes write. -/
theorem toNat_eq_ofDigits {bytes : List UInt8} {ws : List Word} (read : ofBytes bytes = .ok ws)
    {i : Nat} (h : i < ws.length) :
    ws[i].toNat = Nat.ofDigits 256 (((bytes.drop (4 * i)).take 4).map UInt8.toNat) := by
  rw [← toBytes_of_ofBytes read, drop_toBytes, List.drop_eq_getElem_cons h]
  exact (Word.ofDigits_toBytes ws[i]).symm

theorem length_of_ofBytes {bytes : List UInt8} {ws : List Word} (read : ofBytes bytes = .ok ws) :
    bytes.length = 4 * ws.length := by
  rw [← toBytes_of_ofBytes read, length_toBytes]

theorem exists_ofBytes {bytes : List UInt8} (whole : 4 ∣ bytes.length) :
    ∃ ws, ofBytes bytes = .ok ws := by
  unfold ofBytes
  rw [if_pos (Nat.mod_eq_zero_of_dvd whole)]
  exact ⟨_, rfl⟩

end Image

/-! ## Loading -/

namespace Memory

/-- An image that has no more words than there are cells is placed from address zero on. -/
theorem ofImage_eq {bytes : List UInt8} {ws : List Word} (read : Image.ofBytes bytes = .ok ws)
    (fits : ws.length ≤ Word.count) : ofImage bytes = .ok (empty.place 0 ws) := by
  have loads : ofImage bytes = empty.writeBlock 0 ws := by
    rw [ofImage, read]
    rfl
  rw [loads]
  by_cases none : ws = []
  · rw [none]
    rfl
  · have narrow : ws.length < UInt64.size := Nat.lt_of_le_of_lt fits (by decide)
    rw [writeBlock_eq none (by simpa using narrow), if_pos (by simpa using fits)]
    rfl

theorem read_place_zero {ws : List Word} (fits : ws.length ≤ Word.count) {i : Nat}
    (h : i < ws.length) : (empty.place 0 ws).read (UInt64.ofNat i) = .ok ws[i] := by
  have address : (UInt64.ofNat i).toNat = i :=
    UInt64.toNat_ofNat_of_lt' (Nat.lt_trans (Nat.lt_of_lt_of_le h fits) (by decide))
  have placed := cell?_place (m := empty) (by rwa [Nat.zero_add]) h
  rw [Nat.zero_add] at placed
  rw [read_of_lt _ (by rw [address]; omega), address, get_eq_cell?, placed]
  rfl

theorem read_place_zero_of_ge {ws : List Word} (fits : ws.length ≤ Word.count) {a : Word}
    (beyond : ws.length ≤ a.toNat) : (empty.place 0 ws).read a.toUInt64 = .ok blank := by
  have untouched := cell?_place_of_outside (m := empty) (by rwa [Nat.zero_add])
    (.inr (by rwa [Nat.zero_add]))
  rw [read_of_lt _ (by exact a.toNat_lt)]
  show Except.ok (get _ (UInt32.ofNat a.toNat)) = _
  rw [UInt32.ofNat_toNat, get_congr untouched, get_empty]

end Memory

/-- Bytes and words of an image say the same, and loading an image places its words.  Words are
read back as they were written.  Bytes are refused exactly if they are no whole number of words,
and otherwise writing what was read gives them again.  An image that is no longer
than memory is loaded with each word at its index, and every other cell reads as never written. -/
theorem Image.words_faithful :
    (∀ ws : List Word, ofBytes (toBytes ws) = .ok ws) ∧
    (∀ bytes : List UInt8,
      (ofBytes bytes = .error (.misalignedImage bytes.length) ↔ ¬4 ∣ bytes.length) ∧
      (4 ∣ bytes.length → ∃ ws, ofBytes bytes = .ok ws ∧ toBytes ws = bytes)) ∧
    (∀ bytes : List UInt8, 4 ∣ bytes.length → bytes.length ≤ 2 ^ 34 →
      ∃ (ws : List Word) (m : Memory), ofBytes bytes = .ok ws ∧ Memory.ofImage bytes = .ok m ∧
        ws.length = bytes.length / 4 ∧
        (∀ (i : Nat) (h : i < ws.length), m.read (UInt64.ofNat i) = .ok ws[i] ∧
          ws[i].toNat = Nat.ofDigits 256 (((bytes.drop (4 * i)).take 4).map UInt8.toNat)) ∧
        ∀ a : Word, ws.length ≤ a.toNat → m.read a.toUInt64 = .ok 0xFFFFFFFF) := by
  refine ⟨ofBytes_toBytes, fun bytes => ⟨?_, fun whole => ?_⟩, fun bytes whole small => ?_⟩
  · rw [ofBytes_eq_error_iff, Nat.dvd_iff_mod_eq_zero]
    exact and_iff_left rfl
  · obtain ⟨ws, read⟩ := exists_ofBytes whole
    exact ⟨ws, read, toBytes_of_ofBytes read⟩
  · obtain ⟨ws, read⟩ := exists_ofBytes whole
    have length := length_of_ofBytes read
    have fits : ws.length ≤ Word.count := by
      simp only [Word.count]
      omega
    refine ⟨ws, _, read, Memory.ofImage_eq read fits, by omega, fun i h => ⟨?_, ?_⟩, ?_⟩
    · exact Memory.read_place_zero fits h
    · exact toNat_eq_ofDigits read h
    · exact fun a beyond => Memory.read_place_zero_of_ge fits beyond

/-- Eight bytes, loaded as two words, and three bytes, which are refused. -/
theorem Image.words_faithful_twoWords :
    ofBytes [1, 2, 3] = .error (.misalignedImage 3) ∧
    ∃ m : Memory, Memory.ofImage [0x78, 0x56, 0x34, 0x12, 1, 0, 0, 0] = .ok m ∧
      m.read 0 = .ok 0x12345678 ∧ m.read 1 = .ok 1 ∧ m.read 2 = .ok 0xFFFFFFFF := by
  obtain ⟨_, refused, loaded⟩ := words_faithful
  obtain ⟨ws, m, read, placed, _, each, rest⟩ :=
    loaded [0x78, 0x56, 0x34, 0x12, 1, 0, 0, 0] (by decide) (by decide)
  have words : ofBytes [0x78, 0x56, 0x34, 0x12, 1, 0, 0, 0] = .ok [0x12345678, 1] := by decide
  obtain rfl := Except.ok.inj (words.symm.trans read)
  refine ⟨(refused [1, 2, 3]).1.mpr (by decide), m, placed, ?_, ?_, rest 2 (by decide)⟩
  · exact (each 0 (by decide)).1
  · exact (each 1 (by decide)).1

end WordMachine
