import WordMachine.Machine.Basic

/-!
# Tables and translation

Without a segment table, an offset is an address and the general registers lie
in the cells from `flatRegisterBase` on.  With one, each access goes through
the segment that the selector of its address space picks.  The segment must be
of the right kind and cover the offset.  It does not move the offset: the
address is the offset itself.  Only registers are placed relative to the start
of their segment.

Translation reads nothing but the tables and changes nothing but the kept copy
of the segment table.
-/

namespace WordMachine.Machine

/-- The rows of the installed segment table, none in flat memory. -/
def segmentRows : Action FatalError (List Segment) := fun m =>
  if m.processor.isSegmented then
    match m.segments.rows fun _ => m.memory.segmentTable m.processor.segmentTable with
    | .ok (rows, segments) => .ok rows { m with segments }
    | .error e => .error e m
  else .ok [] m

/-- The rows of the installed guest table, none if there is no table. -/
def guestRows : Action FatalError (List Context) := fun m =>
  if m.processor.hasGuestTable then
    match m.guests.rows fun _ => m.memory.guestTable m.processor.guestTable with
    | .ok (rows, guests) => .ok rows { m with guests }
    | .error e => .error e m
  else .ok [] m

/-- The segment an address space uses, if its selector picks one of the right kind. -/
def segmentOf (space : AddressSpace) : Action FatalError (Option Segment) := do
  let p ← processorState
  let rows ← segmentRows
  return rows[(p.selector space).toNat]?.filter (·.kind = space.kind)

/-- The address of an offset in an address space. -/
def translate (space : AddressSpace) (offset : Word) : Action Exception Word := do
  let p ← processorState
  if p.isSegmented then
    let segment ← segmentOf space
    if segment.any (·.contains offset.toNat) then return offset
    else Action.fault (.segmentViolation space.kind offset)
  else return offset

/-! ## General registers -/

/-- The address of a general register. -/
def registerAddress (index : Nat) : Action Exception Word := do
  if registerCount ≤ index then throw (.fatal (.invalidRegister index))
  let p ← processorState
  if p.isSegmented then
    match ← segmentOf .register with
    | none => Action.fault (.segmentViolation .register (UInt32.ofNat index))
    | some segment =>
      let address := segment.start.toUInt64 + UInt64.ofNat index
      match Word.ofAddress? address with
      | some a => return a
      | none => throw (.fatal (.memory (.addressOutOfBounds address)))
  else return flatRegisterBase + UInt32.ofNat index

/-- The value of a general register. -/
def readRegister (index : Nat) : Action Exception Word := do
  readCell (← registerAddress index)

/-- Writes a general register. -/
def writeRegister (index : Nat) (value : Word) : Action Exception Unit := do
  writeCell (← registerAddress index) value

/-! ## Where execution stands -/

/-- The address of the next instruction. -/
def nextInstructionAddress : Action Exception Word := do
  translate .code (← processorState).ip

/-- The address of the top of the stack. -/
def stackTopAddress : Action Exception Word := do
  translate .stack (← processorState).sp

end WordMachine.Machine
