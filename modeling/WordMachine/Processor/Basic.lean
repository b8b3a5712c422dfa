import WordMachine.Descriptor.Table

/-!
# The processor

The processor is everything about the machine that is neither memory nor
history: the running context, the timer, the table registers, whether a guest
runs, and whose row of the guest table the running context belongs to.

The ten control registers are fields of the processor under numbers of their
own.  `control` reads them and `setControl` writes them.
-/

namespace WordMachine

/-- The state of the processor. -/
structure Processor extends Context where
  /-- The timer counter. -/
  counter : Word := 0
  /-- The counter value at which the timer fires. -/
  compare : Word := 0
  /-- The interrupt control word. -/
  interrupt : InterruptControl := {}
  /-- The address of the segment table. -/
  segmentTable : Word := noTable
  /-- The address of the guest table. -/
  guestTable : Word := noTable
  /-- Whether a guest runs. -/
  inGuest : Bool := false
  /-- The row of the running guest, or that of the host. -/
  slot : Word := hostSlot
deriving DecidableEq, Repr

namespace Processor

/-- The stack pointer after a reset, just below the registers in flat memory. -/
def initialStackPointer : Word := 0x2000

/-- The processor after a reset. -/
def initial : Processor := { sp := initialStackPointer }

instance : Inhabited Processor := ⟨initial⟩

/-- Whether a segment table is installed. -/
def isSegmented (p : Processor) : Bool := p.segmentTable ≠ noTable

/-- Whether a guest table is installed. -/
def hasGuestTable (p : Processor) : Bool := p.guestTable ≠ noTable

/-- The address of a row of the guest table. -/
def rowAddress (p : Processor) (row : Word) : UInt64 :=
  p.guestTable.toUInt64 + row.toUInt64 * UInt64.ofNat Context.rowWidth

theorem toNat_rowAddress (p : Processor) (row : Word) :
    (p.rowAddress row).toNat = p.guestTable.toNat + Context.rowWidth * row.toNat := by
  have table := p.guestTable.toNat_lt
  have small := row.toNat_lt
  simp only [rowAddress, Context.rowWidth, UInt64.toNat_add, UInt64.toNat_mul,
    UInt32.toNat_toUInt64, UInt64.reduceOfNat, UInt64.reduceToNat]
  omega

/-- The end of a row has an address. -/
theorem rowAddress_narrow (p : Processor) (row : Word) :
    (p.rowAddress row).toNat + Context.rowWidth < UInt64.size := by
  have table := p.guestTable.toNat_lt
  have small := row.toNat_lt
  rw [toNat_rowAddress]
  simp only [Context.rowWidth, UInt64.size]
  omega

/-- The processor with a context put in place of its own. -/
def withContext (p : Processor) (c : Context) : Processor := { p with toContext := c }

/-! ## Control registers -/

/-- The value of a control register. -/
def control (p : Processor) : ControlRegister → Word
  | .segmentTable => p.segmentTable
  | .guestTable => p.guestTable
  | .cs => p.cs
  | .ds => p.ds
  | .es => p.es
  | .rs => p.rs
  | .ss => p.ss
  | .counter => p.counter
  | .compare => p.compare
  | .interrupt => p.interrupt.bits

/-- The processor after a write to a control register. -/
def setControl (p : Processor) (r : ControlRegister) (value : Word) : Processor :=
  match r with
  | .segmentTable => { p with segmentTable := value }
  | .guestTable => { p with guestTable := value }
  | .cs => { p with cs := value }
  | .ds => { p with ds := value }
  | .es => { p with es := value }
  | .rs => { p with rs := value }
  | .ss => { p with ss := value }
  | .counter => { p with counter := value }
  | .compare => { p with compare := value }
  | .interrupt => { p with interrupt := ⟨value⟩ }

theorem control_setControl (p : Processor) (r s : ControlRegister) (value : Word) :
    (p.setControl r value).control s = if r = s then value else p.control s := by
  cases r <;> cases s <;> rfl

/-! ## Timer and interrupts -/

/-- Whether a pending timer interrupt may be delivered. -/
def interruptsEnabled (p : Processor) : Bool := p.interrupt.enabled

/-- The processor with the delivery of interrupts switched on or off. -/
def setInterruptsEnabled (p : Processor) (on : Bool) : Processor :=
  { p with interrupt := p.interrupt.setBits InterruptControl.enabledMask on }

/-- Whether a timer interrupt waits for delivery. -/
def timerPending (p : Processor) : Bool := p.interrupt.timerPending

/-- The processor with no timer interrupt waiting. -/
def clearTimerPending (p : Processor) : Processor :=
  { p with interrupt := p.interrupt.setBits InterruptControl.timerPendingMask false }

/-- The processor one tick later.  A running timer that reaches its compare value becomes pending
and stops. -/
def tick (p : Processor) : Processor :=
  if p.interrupt.timerEnabled then
    let p := { p with counter := p.counter + 1 }
    if p.counter = p.compare then
      let fired := p.interrupt.setBits InterruptControl.timerPendingMask true
      { p with interrupt := fired.setBits InterruptControl.timerEnabledMask false }
    else p
  else p

end Processor

/-! ## Address spaces -/

/-- What an access is for.  Each purpose has a selector of its own. -/
inductive AddressSpace where
  /-- Fetching instructions. -/
  | code
  /-- Memory operands in `ds`. -/
  | data
  /-- Memory operands in `es`. -/
  | extraData
  /-- The stack. -/
  | stack
  /-- The general registers. -/
  | register
deriving DecidableEq, Repr

/-- The kind of segment a selector has to pick. -/
def AddressSpace.kind : AddressSpace → SegmentKind
  | code => .code
  | data | extraData => .data
  | stack => .stack
  | register => .register

/-- The selector of an address space. -/
def Processor.selector (p : Processor) : AddressSpace → Word
  | .code => p.cs
  | .data => p.ds
  | .extraData => p.es
  | .stack => p.ss
  | .register => p.rs

end WordMachine
