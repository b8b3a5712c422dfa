import WordMachine.Word

/-!
# Segments

A segment is a range of addresses that the processor may use for one purpose.
The segment table lists them, and each selector of the processor picks one by
its position.

A row of the table has four words: the first address, the last address, the
kind and a privilege level.  A register segment has exactly one word for each
general register, and a `Segment` carries the proof.  `Segment.ofRow` checks a
row, and `Segment.ofRow_toRow` says nothing else is asked of it.
-/

namespace WordMachine

/-- What a segment is for. -/
inductive SegmentKind where
  | code | data | register | stack
deriving DecidableEq, Repr, Inhabited

namespace SegmentKind

/-- All kinds, in the order of their numbers. -/
def all : List SegmentKind := [.code, .data, .register, .stack]

/-- The number of a kind in a table row. -/
def number : SegmentKind → Word
  | code => 0
  | data => 1
  | register => 2
  | stack => 3

/-- The kind with the given number. -/
def ofNumber? (number : Word) : Option SegmentKind := all.find? (·.number == number)

/-- The name of a kind in messages. -/
def name : SegmentKind → String
  | code => "Code"
  | data => "Data"
  | register => "Register"
  | stack => "Stack"

theorem ofNumber?_number (k : SegmentKind) : ofNumber? k.number = some k := by
  cases k <;> decide

end SegmentKind

/-- The size of a register segment, one word for each general register. -/
def Segment.registerSize : Nat := 31

/-- A row of the segment table. -/
structure Segment where
  /-- The first address. -/
  start : Word
  /-- The last address. -/
  limit : Word
  /-- What the segment is for. -/
  kind : SegmentKind
  /-- The privilege level, which the machine stores and does not check. -/
  privilege : Word
  /-- A register segment has one word for each general register. -/
  register_size : kind = .register → limit.toNat + 1 - start.toNat = Segment.registerSize
deriving DecidableEq, Repr

/-- Why a row describes no segment. -/
inductive RowDefect where
  /-- No kind has this number. -/
  | unknownKind (number : Word)
  /-- A register segment of the wrong size. -/
  | registerSpan (size : Nat)
deriving DecidableEq, Repr

namespace Segment

/-- The number of words in a row. -/
abbrev rowWidth : Nat := 4

/-- Whether a segment covers an address. -/
def contains (s : Segment) (address : Nat) : Bool :=
  s.start.toNat ≤ address ∧ address ≤ s.limit.toNat

/-- The number of addresses a segment covers, none if its last address precedes its first. -/
def size (s : Segment) : Nat := s.limit.toNat + 1 - s.start.toNat

/-- The segment that a row describes. -/
def ofRow (row : Vector Word rowWidth) : Except RowDefect Segment :=
  match SegmentKind.ofNumber? row[2] with
  | none => .error (.unknownKind row[2])
  | some kind =>
    let size := row[1].toNat + 1 - row[0].toNat
    if legal : kind = .register → size = registerSize then .ok ⟨row[0], row[1], kind, row[3], legal⟩
    else .error (.registerSpan size)

/-- The row that describes a segment. -/
def toRow (s : Segment) : Vector Word rowWidth := #v[s.start, s.limit, s.kind.number, s.privilege]

theorem ofRow_toRow (s : Segment) : ofRow s.toRow = .ok s := by
  simp only [ofRow, toRow, Vector.getElem_mk, List.getElem_toArray, List.getElem_cons_succ,
    List.getElem_cons_zero, SegmentKind.ofNumber?_number]
  exact dif_pos s.register_size

end Segment

/-- The defect as text. -/
def RowDefect.message : RowDefect → String
  | unknownKind number => s!"unknown segment kind {number.toNat}"
  | registerSpan size => s!"register segment spans {size} words, expected {Segment.registerSize}"

end WordMachine
