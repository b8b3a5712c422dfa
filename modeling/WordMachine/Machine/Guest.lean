import WordMachine.Machine.Translation

/-!
# Guests

The guest table holds a saved context for each guest and, in row zero, that of
the host.  Entering a guest puts its context in the processor, and leaving puts
the context of the host back.  Saving writes the current context into a row,
after which the table has to be read again.
-/

namespace WordMachine.Machine

/-- The context in a row of the guest table. -/
def slotContext (slot : Word) : Action FatalError Context := do
  let rows ← guestRows
  match rows[slot.toNat]? with
  | some context => return context
  | none => throw (.unknownGuestSlot slot)

/-- The memory with the current context in a row of the guest table.  No sum of addresses
overflows. -/
def savedMemory (m : Machine) (slot : Word) : Except MemoryError Memory :=
  AccessFailure.returned
    (m.memory.writeBlock (m.processor.rowAddress slot) m.processor.toContext.toRow.toList)
    (Memory.writeBlock_ne_overflow (m.processor.rowAddress_narrow slot))

/-- Saves the current context in a row. -/
def saveSlot (slot : Word) : Action FatalError Unit := do
  let _ ← slotContext slot
  fun m =>
    match m.savedMemory slot with
    | .ok memory => .ok () { m with memory, guests := m.guests.invalidate }
    | .error e => .error (.memory e) m

/-- Saves the current context in the row of the host. -/
def saveHostSlot : Action FatalError Unit := saveSlot hostSlot

/-- Enters a guest. -/
def enterGuest (slot : Word) : Action FatalError Unit := do
  let context ← slotContext slot
  modifyProcessor fun p => { p.withContext context with inGuest := true, slot }

/-- Goes back to the host. -/
def leaveGuest : Action FatalError Unit := do
  let context ← slotContext hostSlot
  modifyProcessor fun p => { p.withContext context with inGuest := false, slot := hostSlot }

end WordMachine.Machine
