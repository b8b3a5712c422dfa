import WordMachine.Listing.Next
import WordMachine.Proofs.ListingRows
import WordMachine.Proofs.Memory

/-!
# The words ahead

`Memory.wordsAhead` are the words from an address to the end of memory.  A window
at an address is the start of them, and is shorter than asked for only where
memory ends (`window_eq_take`, `length_window`).  A range that is read is a window
too, but there has to be the whole of it (`readRange_eq`).

The line for the instruction at an address is the one that a listing of all the
words ahead begins with (`line_eq`).  A window of three words shows it, as no
instruction has more of them (`text_line`).  Its text has a question mark for
each word that memory does not have (`count_text_line`), and is never the `??` of
what cannot be shown (`Listing.Line.text_ne_unknownText`).
-/

namespace WordMachine

namespace Word

theorem toNat_add_of_inside {a : Word} {n : Nat} (inside : a.toNat + n < count) :
    (a + UInt32.ofNat n).toNat = a.toNat + n := by
  have small : n < UInt32.size := Nat.lt_of_le_of_lt (Nat.le_add_left _ _) inside
  rw [UInt32.toNat_add, UInt32.toNat_ofNat_of_lt' small]
  exact Nat.mod_eq_of_lt inside

end Word

/-! ## Texts of lines -/

theorem Opcode.mnemonic_not_unknownText (o : Opcode) :
    ¬o.mnemonic.toList <+: unknownText.toList := by
  cases o <;> decide

namespace Listing.Line

/-- The text of a line is never the one for what cannot be shown. -/
theorem text_ne_unknownText (l : Line) : l.text ≠ unknownText := by
  intro same
  cases decoded : Instruction.decode l.word with
  | ok i =>
    have begins : i.opcode.mnemonic.toList <+: l.text.toList := by
      simp only [text, decoded, Instruction.text, String.toList_append, List.append_assoc]
      exact List.prefix_append ..
    rw [same] at begins
    exact i.opcode.mnemonic_not_unknownText begins
  | error e =>
    have marked := l.startsWith_invalidMark_iff.mpr ⟨e, decoded⟩
    rw [same] at marked
    revert marked
    decide

/-- A line shows a question mark for each extra word that its first word calls for and that it does
not have. -/
theorem count_text {l : Line} (few : l.extra.length ≤ extraCount l.word) :
    l.text.toList.count '?' = extraCount l.word - l.extra.length := by
  unfold text extraCount at *
  cases decoded : Instruction.decode l.word with
  | ok i =>
    simp only [decoded] at few ⊢
    exact Listing.count_text few
  | error e =>
    have digits : (Text.hexDigits l.word.toNat).count '?' = 0 :=
      count_of_isAlphanum fun _ => Text.isAlphanum_of_mem_hexDigits
    have text : ("INV: " ++ Text.prefixedHex l.word.toNat).toList =
        "INV: 0x".toList ++ Text.hexDigits l.word.toNat := by
      simp [Text.prefixedHex, Text.hex]
    show ("INV: " ++ Text.prefixedHex l.word.toNat).toList.count '?' = 0 - _
    rw [text, List.count_append, digits, Nat.zero_sub]
    decide

end Listing.Line

namespace Memory

variable {m : Memory} {a : Word} {n : Nat}

/-! ## Words to the end of memory -/

/-- The words from an address to the end of memory. -/
def wordsAhead (m : Memory) (a : Word) : List Word := m.window a Word.count

theorem length_window (m : Memory) (a : Word) (n : Nat) :
    (m.window a n).length = min n (Word.count - a.toNat) := by
  simp [window]

theorem length_wordsAhead (m : Memory) (a : Word) :
    (m.wordsAhead a).length = Word.count - a.toNat :=
  (m.length_window a _).trans (Nat.min_eq_right (Nat.sub_le _ _))

theorem window_eq_take (m : Memory) (a : Word) (n : Nat) :
    m.window a n = (m.wordsAhead a).take n := by
  have all : min Word.count (Word.count - a.toNat) = Word.count - a.toNat :=
    Nat.min_eq_right (Nat.sub_le _ _)
  rw [wordsAhead, window, window, all, ← List.map_take, List.take_range]

/-- The words ahead begin with the one at the address, and go on as those ahead of the next. -/
theorem wordsAhead_eq_cons (m : Memory) (a : Word) :
    m.wordsAhead a = m.get a ::
      if a.toNat + 1 < Word.count then m.wordsAhead (a + UInt32.ofNat 1) else [] := by
  have below : a.toNat < Word.count := a.toNat_lt
  have all (b : Word) : min Word.count (Word.count - b.toNat) = Word.count - b.toNat :=
    Nat.min_eq_right (Nat.sub_le _ _)
  obtain ⟨k, left⟩ : ∃ k, Word.count - a.toNat = k + 1 := ⟨Word.count - a.toNat - 1, by omega⟩
  rw [wordsAhead, window, all, left, List.range_succ_eq_map, List.map_cons]
  congr 1
  · exact congrArg m.get (UInt32.add_zero a)
  · split
    next more =>
      have next : (a + UInt32.ofNat 1).toNat = a.toNat + 1 := Word.toNat_add_of_inside more
      have rest : Word.count - (a + UInt32.ofNat 1).toNat = k := by omega
      rw [wordsAhead, window, all, rest, List.map_map]
      refine List.map_congr_left fun i _ => congrArg m.get ?_
      rw [Nat.succ_eq_one_add, UInt32.ofNat_add, UInt32.add_assoc]
    next last =>
      obtain rfl : k = 0 := by omega
      rfl

/-- What is left of the words ahead after some of them. -/
theorem drop_wordsAhead (m : Memory) (a : Word) (n : Nat) :
    (m.wordsAhead a).drop n =
      if a.toNat + n < Word.count then m.wordsAhead (a + UInt32.ofNat n) else [] := by
  induction n generalizing a with
  | zero =>
    have inside : a.toNat + 0 < Word.count := a.toNat_lt
    rw [if_pos inside]
    exact congrArg m.wordsAhead (UInt32.add_zero a).symm
  | succ n ih =>
    rw [wordsAhead_eq_cons, List.drop_succ_cons]
    by_cases more : a.toNat + 1 < Word.count
    · rw [if_pos more, ih, Word.toNat_add_of_inside more, UInt32.add_assoc, ← UInt32.ofNat_add,
        Nat.add_assoc, Nat.add_comm 1 n]
    · rw [if_neg more, if_neg (by omega), List.drop_nil]

/-! ## Ranges -/

/-- A range is read as a window, and only where there is the whole of it. -/
theorem readRange_eq (m : Memory) (a : Word) (positive : 0 < n) :
    m.readRange a.toUInt64 n = if a.toNat + n ≤ Word.count then .ok (m.window a n)
      else .error (.addressOutOfBounds (UInt64.ofNat Word.count)) := by
  split
  next fits =>
    rw [readRange_of_fits (.inr fits), window, Nat.min_eq_left (by omega)]
    refine congrArg Except.ok (List.map_congr_left fun i _ => congrArg m.get ?_)
    exact (UInt32.ofNat_add ..).trans (congrArg (· + UInt32.ofNat i) (UInt32.ofNat_toNat ..))
  next past =>
    have past : Word.count < a.toUInt64.toNat + n := Nat.lt_of_not_le past
    have below : a.toUInt64.toNat ≤ Word.count := Nat.le_of_lt a.toNat_lt
    rw [readRange_of_past positive past, Nat.max_eq_right below]

/-! ## The line at an address -/

theorem window_longest (m : Memory) (a : Word) :
    m.window a longestInstruction = m.get a :: (m.window a longestInstruction).tail := by
  rw [window_eq_take, wordsAhead_eq_cons]
  rfl

theorem line_eq (m : Memory) (a : Word) :
    m.line a = Listing.lineAt a (m.get a) (m.wordsAhead a).tail := by
  have short := Listing.extraCount_le (m.get a)
  rw [line, window_eq_take, Listing.lineAt, Listing.lineAt, wordsAhead_eq_cons, longestInstruction,
    List.take_succ_cons, List.tail_cons, List.tail_cons, List.take_take, Nat.min_eq_left short]

/-- The text of the line has a question mark for each word that memory does not have. -/
theorem count_text_line (m : Memory) (a : Word) :
    (m.line a).text.toList.count '?' =
      1 + Listing.extraCount (m.get a) - (Word.count - a.toNat) := by
  have length : (m.line a).extra.length =
      min (Listing.extraCount (m.get a)) (Word.count - a.toNat - 1) := by
    rw [line_eq, Listing.lineAt, List.length_take, List.length_tail, length_wordsAhead]
  have word : (m.line a).word = m.get a := rfl
  have below : a.toNat < Word.count := a.toNat_lt
  rw [Listing.Line.count_text (by rw [length, word]; exact Nat.min_le_left _ _), length, word]
  omega

/-- The text of the line is that of the instruction at the start of a window. -/
theorem text_line (m : Memory) (a : Word) :
    (m.line a).text = Listing.firstText (m.window a longestInstruction) := by
  rw [window_longest]
  rfl

/-- A window that memory does not cut off has the whole of its instruction. -/
theorem starts_window {i : Instruction} (fits : a.toNat + longestInstruction ≤ Word.count)
    (decoded : Instruction.decode (m.get a) = .ok i) :
    ∃ extra, Listing.Starts (m.window a longestInstruction) (m.get a) i extra := by
  have short := Listing.extraWords_le (Instruction.obeys_of_decode decoded)
  have length : (m.window a longestInstruction).length = longestInstruction := by
    rw [length_window]
    omega
  rw [window_longest] at length ⊢
  have enough : i.extraWords ≤ (m.window a longestInstruction).tail.length := by
    simp only [List.length_cons, longestInstruction] at length short ⊢
    omega
  exact ⟨_, decoded, List.length_take_of_le enough,
    (List.prefix_cons_inj _).mpr (List.take_prefix _ _)⟩

end Memory

end WordMachine
