import WordMachine.Machine.Translation
import WordMachine.Text.Json

/-!
# Reports on a machine

`Processor.text` is the short text of the processor, four lines.
`Machine.dump` is the full report, with the general registers read through the
current mapping.  A register that cannot be read is `null` there.
`Memory.summary` and `Memory.toJson` report on the written cells.
-/

namespace WordMachine

open Text

/-- Whether the host runs or a guest. -/
def Processor.modeText (p : Processor) : String :=
  if p.inGuest then s!"guest {p.slot.toNat}" else "host"

/-- The processor as text. -/
def Processor.text (p : Processor) : String :=
  s!"IP={hex8 p.ip.toNat} SP={hex8 p.sp.toNat} FLAGS={p.flags.text} " ++
    s!"PRIV={p.privilege.toNat} INT={p.interrupt.text}\n" ++
  s!"CS={hex8 p.cs.toNat} DS={hex8 p.ds.toNat} ES={hex8 p.es.toNat} " ++
    s!"SS={hex8 p.ss.toNat} RS={hex8 p.rs.toNat}\n" ++
  s!"SEGTBL={hex8 p.segmentTable.toNat} VMTBL={hex8 p.guestTable.toNat} " ++
    s!"COUNTER={hex8 p.counter.toNat} COMPARE={hex8 p.compare.toNat}\n" ++
  p.modeText

/-- A word in a report. -/
def Text.Json.word (w : Word) : Json := .number w.toNat

/-- The processor as a record. -/
def Processor.toJson (p : Processor) : Json := .record [
  ("ip", .word p.ip),
  ("sp", .word p.sp),
  ("flags", .word p.flags.bits),
  ("privilege_level", .word p.privilege),
  ("cs", .word p.cs),
  ("ds", .word p.ds),
  ("es", .word p.es),
  ("ss", .word p.ss),
  ("rs", .word p.rs),
  ("counter", .word p.counter),
  ("compare", .word p.compare),
  ("interrupt_control", .word p.interrupt.bits),
  ("segtbl", .word p.segmentTable),
  ("vmtbl", .word p.guestTable),
  ("in_vm", .bool p.inGuest),
  ("vm_id", .word p.slot)]

namespace Machine

variable {ε : Type}

/-- The values of the general registers from a number on, with `none` for those that cannot be
read. -/
def registersFrom (index : Nat) : Nat → Action ε (List (Option Word))
  | 0 => pure []
  | count + 1 => do
      let value ← (readRegister index).attempt
      let rest ← registersFrom (index + 1) count
      return value.toOption :: rest

/-- The values of all general registers. -/
def registers : Action ε (List (Option Word)) := registersFrom 0 registerCount

/-- The full report. -/
def report : Action ε Json := do
  let values ← registers
  let m ← get
  let p := m.processor
  return .record [
    ("run_state", .text m.status.name),
    ("cycles", .number m.cycles.toNat),
    ("in_vm", .bool p.inGuest),
    ("vm_id", .word p.slot),
    ("segtbl", .word p.segmentTable),
    ("vmtbl", .word p.guestTable),
    ("state", p.toJson),
    ("registers", .list (values.map fun v => v.elim .null .word))]

/-- The full report as text. -/
def dump : Action ε String := do return (← report).laidOut 0

end Machine

namespace Memory

/-- The written cells in a record. -/
def toJson (m : Memory) : Json := .record [
  ("words", .record (m.toList.map fun (address, word) => (toString address.toNat, .word word)))]

/-- An address that may be missing, in a summary. -/
def addressText (address : Option Word) : String :=
  address.elim "None" fun a => s!"Some({a.toNat})"

/-- How many cells were written, and the least and the greatest of them. -/
def summary (m : Memory) : String :=
  s!"Memory \x7b written_cells: {m.size}, lowest: {addressText m.lowest?}, " ++
    s!"highest: {addressText m.highest?} \x7d"

end Memory

end WordMachine
