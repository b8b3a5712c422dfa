import Mathlib.Data.Nat.Find
import Mathlib.Data.Set.List
import WordMachine.Proofs.Tables

/-!
# Reading tables is exact

A table `HasRows` if a terminator lies right after them within the addresses, and
no terminator lies before it.  Then reading gives exactly these rows, in order,
and otherwise it runs past the last address (`rows_of_hasRows`,
`rows_of_endless`).  A row that is a terminator only in part is a row like
others, and so is one that holds the last address.

Every row is a context.  A row is a segment if it has a kind and, for general
registers, the right size (`Segment.legalRow_iff`).  So a guest table has one
context for each row, and a segment table has one segment for each row or names
the first row that is none.  No segment looks like a terminator, so a list of
segments that is written is read back (`segmentTable_of_written`).
-/

namespace WordMachine

/-! ## Rows that are segments -/

theorem SegmentKind.exists_number_iff (w : Word) :
    (∃ k : SegmentKind, k.number = w) ↔ w.toNat ≤ 3 := by
  constructor
  · rintro ⟨k, rfl⟩
    cases k <;> decide
  · intro small
    obtain h | h | h | h : w.toNat = 0 ∨ w.toNat = 1 ∨ w.toNat = 2 ∨ w.toNat = 3 := by omega
    · exact ⟨.code, UInt32.toNat_inj.mp h.symm⟩
    · exact ⟨.data, UInt32.toNat_inj.mp h.symm⟩
    · exact ⟨.register, UInt32.toNat_inj.mp h.symm⟩
    · exact ⟨.stack, UInt32.toNat_inj.mp h.symm⟩

namespace Segment

variable {row : Vector Word rowWidth} {s : Segment}

/-- Whether a row has a kind and, if it is that of a register segment, the size of one. -/
def LegalRow (row : Vector Word rowWidth) : Prop :=
  ∃ start limit kind privilege : Word, row = #v[start, limit, kind, privilege] ∧
    kind.toNat ≤ 3 ∧ (kind = 2 → limit.toNat + 1 = start.toNat + 31)

theorem number_eq_two {k : SegmentKind} : k.number = 2 ↔ k = .register := by
  cases k <;> decide

theorem eq_words (row : Vector Word rowWidth) : row = #v[row[0], row[1], row[2], row[3]] := by
  refine Vector.ext fun i inside => ?_
  have place : i = 0 ∨ i = 1 ∨ i = 2 ∨ i = 3 := by
    simp only [rowWidth] at inside
    omega
  rcases place with rfl | rfl | rfl | rfl <;> rfl

theorem toRow_of_ofRow (h : ofRow row = .ok s) : s.toRow = row := by
  unfold ofRow at h
  split at h
  next => cases h
  next kind known =>
    have number : kind.number = row[2] := eq_of_beq (List.find?_some known :)
    dsimp only at h
    split at h
    next legal =>
      cases h
      rw [toRow, number]
      exact (eq_words row).symm
    next => cases h

/-- The legal rows are those of segments. -/
theorem legalRow_iff : LegalRow row ↔ row ∈ Set.range toRow := by
  constructor
  · rintro ⟨start, limit, word, privilege, rfl, small, size⟩
    obtain ⟨kind, number⟩ := (SegmentKind.exists_number_iff word).mpr small
    have legal (register : kind = .register) : limit.toNat + 1 - start.toNat = registerSize := by
      have span := size (number.symm.trans (number_eq_two.mpr register))
      simp only [registerSize]
      omega
    refine ⟨⟨start, limit, kind, privilege, legal⟩, ?_⟩
    rw [toRow, number]
  · rintro ⟨s, rfl⟩
    refine ⟨_, _, _, _, rfl, (SegmentKind.exists_number_iff _).mp ⟨s.kind, rfl⟩, fun number => ?_⟩
    have span := s.register_size (number_eq_two.mp number)
    simp only [registerSize] at span
    show s.limit.toNat + 1 = s.start.toNat + 31
    omega

theorem exists_defect (illegal : ¬LegalRow row) : ∃ defect, ofRow row = .error defect := by
  cases read : ofRow row with
  | error defect => exact ⟨defect, rfl⟩
  | ok s => exact absurd (legalRow_iff.mpr ⟨s, toRow_of_ofRow read⟩) illegal

theorem toRow_ne_terminator (s : Segment) : s.toRow ≠ terminator rowWidth := by
  intro same
  have number : s.kind.number = Word.allOnes :=
    congrArg (fun row : Vector Word rowWidth => row[2]) same
  have small := (SegmentKind.exists_number_iff _).mp ⟨s.kind, number⟩
  exact absurd small (by decide)

end Segment

/-! ## The segments in rows -/

section

variable {base : Word} {index : Nat} {rows : List (Vector Word Segment.rowWidth)}

theorem segmentsOfRows_map_toRow (base : Word) (index : Nat) (segments : List Segment) :
    segmentsOfRows base index (segments.map Segment.toRow) = .ok segments := by
  induction segments generalizing index with
  | nil => rfl
  | cons s segments ih =>
    rw [List.map_cons, segmentsOfRows, Segment.ofRow_toRow]
    simp only [ih, Except.map]

theorem map_toRow_of_segmentsOfRows {segments : List Segment}
    (h : segmentsOfRows base index rows = .ok segments) : segments.map Segment.toRow = rows := by
  induction rows generalizing index segments with
  | nil =>
    cases h
    rfl
  | cons row rows ih =>
    rw [segmentsOfRows] at h
    cases read : Segment.ofRow row with
    | error defect => simp [read] at h
    | ok s =>
      cases rest : segmentsOfRows base (index + 1) rows with
      | error e => simp [read, rest, Except.map] at h
      | ok others =>
        simp only [read, rest, Except.map, Except.ok.injEq] at h
        subst h
        rw [List.map_cons, Segment.toRow_of_ofRow read, ih rest]

/-- Whether the row at a place is the first one that is no segment. -/
def FirstIllegal (rows : List (Vector Word Segment.rowWidth)) (j : Nat)
    (row : Vector Word Segment.rowWidth) : Prop :=
  rows[j]? = some row ∧ ¬Segment.LegalRow row ∧
    ∀ i < j, ∀ row', rows[i]? = some row' → Segment.LegalRow row'

theorem exists_firstIllegal (illegal : ¬∀ row ∈ rows, Segment.LegalRow row) :
    ∃ j row, FirstIllegal rows j row := by
  classical
  obtain ⟨row, member, bad⟩ : ∃ row ∈ rows, ¬Segment.LegalRow row := by simpa using illegal
  have some_bad : ∃ j : Nat, ∃ row, rows[j]? = some row ∧ ¬Segment.LegalRow row := by
    obtain ⟨j, here⟩ := List.mem_iff_getElem?.mp member
    exact ⟨j, row, here, bad⟩
  obtain ⟨row, here, bad⟩ := Nat.find_spec some_bad
  refine ⟨Nat.find some_bad, row, here, bad, fun i less row' found => ?_⟩
  by_contra worse
  exact Nat.find_min some_bad less ⟨row', found, worse⟩

/-- The first row that is no segment is the one that is named. -/
theorem FirstIllegal.segmentsOfRows_eq {j : Nat} {row : Vector Word Segment.rowWidth}
    {defect : RowDefect} (h : FirstIllegal rows j row) (bad : Segment.ofRow row = .error defect) :
    segmentsOfRows base index rows =
      .error (.malformedTable .segment base (index + j) defect.message) := by
  induction rows generalizing index j with
  | nil => simp [FirstIllegal] at h
  | cons first rows ih =>
    obtain ⟨here, illegal, good⟩ := h
    rw [segmentsOfRows]
    cases j with
    | zero =>
      obtain rfl : first = row := by simpa using here
      simp only [bad, Nat.add_zero]
    | succ j =>
      obtain ⟨s, rfl⟩ := Segment.legalRow_iff.mp (good 0 (Nat.succ_pos j) first rfl)
      have later : FirstIllegal rows j row :=
        ⟨by simpa using here, illegal, fun i less row' found =>
          good (i + 1) (Nat.succ_lt_succ less) row' (by simpa using found)⟩
      simp only [Segment.ofRow_toRow, ih later, Except.map]
      rw [Nat.add_assoc, Nat.add_comm 1 j]

end

/-! ## The rows of a table -/

namespace Memory

variable {m : Memory} {width address k : Nat} {base : Word}

/-- Whether a terminator lies at a place of a table. -/
def EndsAt (m : Memory) (width address k : Nat) : Prop :=
  address + width * k + width ≤ Word.count ∧
    ∀ j < width, m.get (UInt32.ofNat (address + width * k + j)) = 0xFFFFFFFF

/-- Whether the first terminator lies after `k` rows. -/
def HasRows (m : Memory) (width address k : Nat) : Prop :=
  m.EndsAt width address k ∧ ∀ j < k, ¬m.EndsAt width address j

/-- The first rows of a table. -/
def firstRows (m : Memory) (width address k : Nat) : List (Vector Word width) :=
  (List.range k).map fun j => m.row width (address + width * j)

theorem row_eq_terminator_iff : m.row width address = terminator width ↔
    ∀ j < width, m.get (UInt32.ofNat (address + j)) = 0xFFFFFFFF := by
  constructor
  · intro same j inside
    have word : (m.row width address)[j] = (terminator width)[j] := by rw [same]
    simp only [row, terminator, Vector.getElem_ofFn, Vector.getElem_replicate] at word
    exact word
  · intro same
    refine Vector.ext fun j inside => ?_
    simp only [row, terminator, Vector.getElem_ofFn, Vector.getElem_replicate]
    exact same j inside

/-- The places after the first row. -/
theorem endsAt_succ : m.EndsAt width address (k + 1) ↔ m.EndsAt width (address + width) k := by
  unfold EndsAt
  rw [Nat.mul_succ, Nat.add_comm (width * k), ← Nat.add_assoc]

theorem firstRows_succ (m : Memory) (width address k : Nat) :
    m.firstRows width address (k + 1) =
      m.row width address :: m.firstRows width (address + width) k := by
  simp only [firstRows, List.range_succ_eq_map, List.map_cons, List.map_map, Nat.mul_zero,
    Nat.add_zero]
  congr 1
  refine List.map_congr_left fun j _ => ?_
  simp only [Function.comp, Nat.mul_succ]
  rw [Nat.add_comm (width * j), ← Nat.add_assoc]

/-- The rows before the first terminator are listed. -/
theorem HasRows.listed (h : m.HasRows width address k) :
    m.Listed width address (m.firstRows width address k) := by
  induction k generalizing address with
  | zero =>
    obtain ⟨fits, ends⟩ := h.1
    exact .nil (by simpa using fits) (row_eq_terminator_iff.mpr (by simpa using ends))
  | succ k ih =>
    obtain ⟨ends, first⟩ := h
    have fits : address + width ≤ Word.count := by
      have last := ends.1
      rw [Nat.mul_succ] at last
      omega
    have goesOn : m.row width address ≠ terminator width := fun same =>
      first 0 (Nat.succ_pos k) ⟨by simpa using fits, by simpa using row_eq_terminator_iff.mp same⟩
    rw [firstRows_succ]
    refine .cons fits goesOn (ih ⟨endsAt_succ.mp ends, fun j less => ?_⟩)
    exact mt endsAt_succ.mpr (first (j + 1) (Nat.succ_lt_succ less))

/-- Listed rows are followed by a terminator. -/
theorem Listed.endsAt {rows : List (Vector Word width)} (h : m.Listed width address rows) :
    m.EndsAt width address rows.length := by
  induction h with
  | nil fits ends => exact ⟨by simpa using fits, by simpa using row_eq_terminator_iff.mp ends⟩
  | cons fits goesOn rest ih => exact endsAt_succ.mpr ih

theorem rows_of_hasRows (positive : 0 < width) (h : m.HasRows width base.toNat k) :
    m.rows width positive base.toUInt64 = .ok (m.firstRows width base.toNat k) := by
  rw [toUInt64_eq]
  exact rows_of_listed h.listed

theorem rows_of_endless (positive : 0 < width) (endless : ∀ k, ¬m.EndsAt width base.toNat k) :
    m.rows width positive base.toUInt64 = .error (.addressOutOfBounds 0x100000000) := by
  rw [toUInt64_eq]
  rcases rows_cases (m := m) positive (toNat_le_count base) with ⟨rows, listed, -⟩ | failed
  · exact absurd listed.endsAt (endless _)
  · exact failed

theorem segmentTable_of_listed {rows : List (Vector Word Segment.rowWidth)}
    (listed : m.Listed Segment.rowWidth base.toNat rows) :
    m.segmentTable base = segmentsOfRows base 0 rows := by
  rw [segmentTable, toUInt64_eq, rows_of_listed listed]
  rfl

/-! ## Tables that are written -/

theorem place_append (m : Memory) (address : Nat) (xs ys : List Word) :
    m.place address (xs ++ ys) = (m.place address xs).place (address + xs.length) ys := by
  induction xs generalizing m address with
  | nil => rfl
  | cons x xs ih =>
    rw [List.cons_append, place, place, ih, List.length_cons, Nat.add_right_comm, Nat.add_assoc]

/-- The words of a table. -/
def tableWords (rows : List (Vector Word width)) : List Word :=
  rows.flatMap Vector.toList ++ (terminator width).toList

theorem length_tableWords (rows : List (Vector Word width)) :
    (tableWords rows).length = width * (rows.length + 1) := by
  induction rows with
  | nil => simp [tableWords]
  | cons row rows ih =>
    simp only [tableWords, List.flatMap_cons, List.append_assoc, List.length_append,
      Vector.length_toList, List.length_cons] at *
    rw [ih, Nat.mul_succ width (rows.length + 1), Nat.add_comm]

/-- Rows that are written with a terminator after them are listed. -/
theorem listed_place {rows : List (Vector Word width)} (m : Memory)
    (fits : address + width * (rows.length + 1) ≤ Word.count)
    (goOn : ∀ row ∈ rows, row ≠ terminator width) :
    (m.place address (tableWords rows)).Listed width address rows := by
  induction rows generalizing m address with
  | nil =>
    have fits : address + width ≤ Word.count := by simpa using fits
    exact .nil fits (row_place m fits _)
  | cons row rows ih =>
    rw [List.length_cons, Nat.mul_succ] at fits
    have words : tableWords (row :: rows) = row.toList ++ tableWords rows := by
      simp [tableWords]
    have before : address + width ≤ Word.count := by omega
    rw [words, place_append, Vector.length_toList]
    let written := (m.place address row.toList).place (address + width) (tableWords rows)
    have rest : written.Listed width (address + width) rows :=
      ih (m.place address row.toList) (by omega) fun row' member =>
        goOn row' (List.mem_cons_of_mem row member)
    -- The rows after the first one do not reach into it.
    have first : written.row width address = row := by
      rw [row_congr (n := m.place address row.toList) before fun a _ high => get_congr
        (cell?_place_of_outside (by rw [length_tableWords]; omega) (.inl high))]
      exact row_place m before row
    have listed := Listed.cons before (by rw [first]; exact goOn row List.mem_cons_self) rest
    rwa [first] at listed

theorem segmentTable_of_written (m : Memory) {segments : List Segment}
    (fits : base.toNat + Segment.rowWidth * (segments.length + 1) ≤ Word.count) :
    ∃ n, m.writeBlock base.toUInt64 (tableWords (segments.map Segment.toRow)) = .ok n ∧
      n.segmentTable base = .ok segments := by
  let words := tableWords (segments.map Segment.toRow)
  have length : words.length = Segment.rowWidth * (segments.length + 1) := by
    rw [length_tableWords, List.length_map]
  have start : base.toUInt64.toNat = base.toNat := UInt32.toNat_toUInt64 base
  have some_word : words ≠ [] :=
    List.length_pos_iff.mp (by rw [length]; exact Nat.mul_pos (by decide) (Nat.succ_pos _))
  have narrow : base.toUInt64.toNat + words.length < UInt64.size := by
    rw [start, length]
    simp only [Word.count, UInt64.size] at *
    omega
  have written := writeBlock_eq (m := m) some_word narrow
  rw [start, length, if_pos fits] at written
  have listed : (m.place base.toNat words).Listed Segment.rowWidth base.toNat
      (segments.map Segment.toRow) := by
    refine listed_place m (by simpa using fits) fun row member => ?_
    obtain ⟨s, -, rfl⟩ := List.mem_map.mp member
    exact s.toRow_ne_terminator
  refine ⟨_, written, ?_⟩
  rw [segmentTable_of_listed listed]
  exact segmentsOfRows_map_toRow base 0 segments

/-! ## Both tables -/

/-- What reading the tables at an address comes to. -/
structure TablesExact (m : Memory) (base : Word) : Prop where
  /-- The rows that are read are those before the first terminator. -/
  rows : ∀ width (positive : 0 < width) k, m.HasRows width base.toNat k →
    m.rows width positive base.toUInt64 = .ok (m.firstRows width base.toNat k)
  /-- Without a terminator there is a first word that does not exist. -/
  endless : ∀ width (positive : 0 < width), (∀ k, ¬m.EndsAt width base.toNat k) →
    m.rows width positive base.toUInt64 = .error (.addressOutOfBounds 0x100000000)
  guests : ∀ k, m.HasRows Context.rowWidth base.toNat k →
    ∃ contexts, m.guestTable base = .ok contexts ∧
      contexts.map Context.toRow = m.firstRows Context.rowWidth base.toNat k
  guests_endless : (∀ k, ¬m.EndsAt Context.rowWidth base.toNat k) →
    m.guestTable base = .error (.memory (.addressOutOfBounds 0x100000000))
  segments_iff : ∀ k, m.HasRows Segment.rowWidth base.toNat k →
    ((∃ segments, m.segmentTable base = .ok segments) ↔
      ∀ row ∈ m.firstRows Segment.rowWidth base.toNat k, Segment.LegalRow row)
  segments : ∀ k segments, m.HasRows Segment.rowWidth base.toNat k →
    m.segmentTable base = .ok segments →
    segments.map Segment.toRow = m.firstRows Segment.rowWidth base.toNat k
  /-- The first row that is no segment is named. -/
  malformed : ∀ k, m.HasRows Segment.rowWidth base.toNat k →
    (¬∀ row ∈ m.firstRows Segment.rowWidth base.toNat k, Segment.LegalRow row) →
    ∃ j row defect, FirstIllegal (m.firstRows Segment.rowWidth base.toNat k) j row ∧
      Segment.ofRow row = .error defect ∧
      m.segmentTable base = .error (.malformedTable .segment base j defect.message)
  /-- Whether a row is a segment does not matter then. -/
  segments_endless : (∀ k, ¬m.EndsAt Segment.rowWidth base.toNat k) →
    m.segmentTable base = .error (.memory (.addressOutOfBounds 0x100000000))
  /-- Segments that are written with a terminator after them are read back. -/
  written : ∀ segments : List Segment,
    base.toNat + Segment.rowWidth * (segments.length + 1) ≤ Word.count →
    ∃ n, m.writeBlock base.toUInt64 (tableWords (segments.map Segment.toRow)) = .ok n ∧
      n.segmentTable base = .ok segments

theorem tables_exact (m : Memory) (base : Word) : m.TablesExact base where
  rows _ positive _ h := rows_of_hasRows positive h
  endless _ positive endless := rows_of_endless positive endless
  guests k h := by
    refine ⟨_, guestTable_eq_ok_iff.mpr ⟨_, h.listed, rfl⟩, ?_⟩
    rw [List.map_map]
    exact List.map_id'' (fun row => Context.toRow_ofRow row) _
  guests_endless endless := by
    rw [guestTable, rows_of_endless _ endless]
    rfl
  segments_iff k h := by
    rw [segmentTable_of_listed h.listed]
    constructor
    · rintro ⟨segments, read⟩ row member
      rw [← map_toRow_of_segmentsOfRows read] at member
      obtain ⟨s, -, same⟩ := List.mem_map.mp member
      exact Segment.legalRow_iff.mpr ⟨s, same⟩
    · intro legal
      have each :
          m.firstRows Segment.rowWidth base.toNat k ∈ Set.range (List.map Segment.toRow) := by
        rw [Set.range_list_map]
        exact fun row member => Segment.legalRow_iff.mp (legal row member)
      obtain ⟨segments, same⟩ := each
      exact ⟨segments, by rw [← same, segmentsOfRows_map_toRow]⟩
  segments k segments h read := by
    rw [segmentTable_of_listed h.listed] at read
    exact map_toRow_of_segmentsOfRows read
  malformed k h illegal := by
    obtain ⟨j, row, first⟩ := exists_firstIllegal illegal
    obtain ⟨defect, bad⟩ := Segment.exists_defect first.2.1
    refine ⟨j, row, defect, first, bad, ?_⟩
    rw [segmentTable_of_listed h.listed, first.segmentsOfRows_eq bad, Nat.zero_add]
  segments_endless endless := by
    rw [segmentTable, rows_of_endless _ endless]
    rfl
  written _ fits := segmentTable_of_written m fits

end Memory

end WordMachine
