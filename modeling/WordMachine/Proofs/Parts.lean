import WordMachine.Machine.Execute

/-!
# The parts of an instruction

What a program sees of a machine is its `Face`, and the rest is `Hidden`.  An
instruction looks at the face and makes a `Change` of it, finds cells and
registers, and leaves to the host what is the host's.  A property of work is
`Compositional` if it holds of such parts and of what is put together from parts
it holds of.

Then it holds of every instruction, one opcode after the other, with two
exceptions that have to be looked at on their own.  Operands may name control
registers, and `VMRESUME` enters a guest.
-/

namespace WordMachine

/-- Whether an exception leaves a guest by a trap. -/
def Exception.IsTrap : Exception → Prop
  | .fault (.guestTrap _ _ _) => True
  | _ => False

namespace Machine

/-! ## What a program sees -/

/-- What a program sees of a machine that reaches everything. -/
structure Face where
  memory : Memory
  ip : Word
  sp : Word
  flags : Flags
  privilege : Word
  counter : Word
  compare : Word
  interrupt : InterruptControl
  status : Status
  cycles : UInt64
  console : Array UInt8

def face (m : Machine) : Face where
  memory := m.memory
  ip := m.processor.ip
  sp := m.processor.sp
  flags := m.processor.flags
  privilege := m.processor.privilege
  counter := m.processor.counter
  compare := m.processor.compare
  interrupt := m.processor.interrupt
  status := m.status
  cycles := m.cycles
  console := m.console

theorem sp_eq_of_face {m n : Machine} (same : m.face = n.face) :
    m.processor.sp = n.processor.sp := congrArg Face.sp same

/-- The tables, what is installed and selected of them, and the guest. -/
structure Hidden where
  segments : TableCache Segment
  guests : TableCache Context
  segmentTable : Word
  guestTable : Word
  selector : AddressSpace → Word
  inGuest : Bool
  slot : Word

def hidden (m : Machine) : Hidden where
  segments := m.segments
  guests := m.guests
  segmentTable := m.processor.segmentTable
  guestTable := m.processor.guestTable
  selector := m.processor.selector
  inGuest := m.processor.inGuest
  slot := m.processor.slot

theorem inGuest_eq_of_hidden {m n : Machine} (same : m.hidden = n.hidden) :
    m.processor.inGuest = n.processor.inGuest := congrArg Hidden.inGuest same

/-! ## Changes -/

/-- What instructions change directly. -/
inductive Change where
  | cell (a v : Word)
  | moveIp (ip : Word)
  | moveSp (sp : Word)
  /-- Drops words from the stack. -/
  | drop (count : Word)
  | setFlags (flags : Flags)
  | setInterrupts (on : Bool)
  | print (v : Word)
  | halt

namespace Change

/-- The machine after a change. -/
def apply (c : Change) (m : Machine) : Machine :=
  match c with
  | cell a v => { m with memory := m.memory.set a v }
  | moveIp ip => { m with processor := { m.processor with ip := ip } }
  | moveSp sp => { m with processor := { m.processor with sp := sp } }
  | drop count => { m with processor := { m.processor with sp := m.processor.sp + count } }
  | setFlags flags => { m with processor := { m.processor with flags := flags } }
  | setInterrupts on => { m with processor := m.processor.setInterruptsEnabled on }
  | print v => m.emit v
  | halt => { m with status := .halted }

/-- What a change does to the face. -/
def onFace (c : Change) (f : Face) : Face :=
  match c with
  | cell a v => { f with memory := f.memory.set a v }
  | moveIp ip => { f with ip := ip }
  | moveSp sp => { f with sp := sp }
  | drop count => { f with sp := f.sp + count }
  | setFlags flags => { f with flags := flags }
  | setInterrupts on =>
    { f with interrupt := f.interrupt.setBits InterruptControl.enabledMask on }
  | print v => { f with console := f.console.push v.toUInt8 }
  | halt => { f with status := .halted }

theorem face_apply (c : Change) (m : Machine) : (c.apply m).face = c.onFace m.face := by
  cases c <;> rfl

theorem hidden_apply (c : Change) (m : Machine) : (c.apply m).hidden = m.hidden := by
  cases c <;> rfl

end Change

/-! ## Compositional properties -/

/-- A property that holds of the parts of instructions, and of what is put together from parts it
holds of. -/
structure Compositional (P : ∀ α : Type, Action Exception α → Prop) : Prop where
  pure {α : Type} (a : α) : P α (Pure.pure a)
  throw {α : Type} {e : Exception} (noTrap : ¬e.IsTrap) : P α (MonadExcept.throw e)
  bind {α β : Type} {x : Action Exception α} {f : α → Action Exception β} (first : P α x)
    (next : ∀ a, P β (f a)) : P β (x >>= f)
  /-- What follows a look at the processor may depend on the face of it. -/
  look {β : Type} {next : Processor → Action Exception β}
    (same : ∀ m n : Machine, m.face = n.face → next m.processor = next n.processor)
    (holds : ∀ p, P β (next p)) : P β (processorState >>= next)
  readCell (a : Word) : P Word (Machine.readCell a)
  change (c : Change) : P Unit fun m => .ok () (c.apply m)
  translate {space : AddressSpace} (memory : space ≠ .register) (offset : Word) :
    P Word (Machine.translate space offset)
  registerAddress (index : Nat) : P Word (Machine.registerAddress index)
  hostOnly (reason : TrapReason) (resumeIp : Word) (extra : List Word) :
    P Unit (Machine.hostOnly reason resumeIp extra)

namespace Compositional

variable {P : ∀ α : Type, Action Exception α → Prop} (h : Compositional P) {i : ResolvedInstruction}
include h

omit h in
theorem ite {α : Type} {c : Prop} [Decidable c] {x y : Action Exception α} (pos : P α x)
    (neg : P α y) : P α (if c then x else y) := by
  split
  · exact pos
  · exact neg

theorem writeCell (a v : Word) : P Unit (Machine.writeCell a v) :=
  h.change (.cell a v)

theorem moveSp (sp : Word) : P Unit (modifyProcessor fun p => { p with sp := sp }) :=
  h.change (.moveSp sp)

theorem moveIp (ip : Word) : P Unit (modifyProcessor fun p => { p with ip := ip }) :=
  h.change (.moveIp ip)

/-! ## Registers and the stack -/

theorem readRegister (index : Nat) : P Word (Machine.readRegister index) :=
  h.bind (h.registerAddress index) fun a => h.readCell a

theorem writeRegister (index : Nat) (v : Word) : P Unit (Machine.writeRegister index v) :=
  h.bind (h.registerAddress index) fun a => h.writeCell a v

theorem push (v : Word) : P Unit (Machine.push v) := by
  refine h.look (fun m n same => by rw [sp_eq_of_face same]) fun p => ?_
  refine h.bind (h.translate (by decide) (p.sp - 1)) fun a => ?_
  exact h.bind (h.writeCell a v) fun _ => h.moveSp (p.sp - 1)

theorem pushAll (words : List Word) : P Unit (Machine.pushAll words) := by
  induction words with
  | nil => exact h.pure ()
  | cons word words ih => exact h.bind (h.push word) fun _ => ih

theorem pop : P Word Machine.pop := by
  refine h.look (fun m n same => by rw [sp_eq_of_face same]) fun p => ?_
  refine h.bind (h.translate (by decide) p.sp) fun a => h.bind (h.readCell a) fun v => ?_
  exact h.bind (h.moveSp (p.sp + 1)) fun _ => h.pure v

/-! ## Operands -/

theorem fetch (offset : Word) : P Word (Machine.fetch offset) :=
  h.bind (h.translate (by decide) offset) fun a => h.readCell a

theorem fetchExtra (cursor : Word) : P (Word × Word) (Machine.fetchExtra cursor) :=
  h.bind (h.fetch cursor) fun _ => h.pure _

theorem operandAddress (d : OperandDescriptor) (literal : Word) :
    P Word (Machine.operandAddress d literal) := by
  have memory : d.kind.space ≠ .register := by cases d.kind <;> decide
  have base : P Word (baseValue d) := by
    unfold baseValue
    split
    · exact h.readRegister _
    · exact h.pure 0
  refine h.bind base fun value => ?_
  refine h.bind (h.translate memory (literal + value)) fun a => ite ?_ (h.pure a)
  exact h.bind (h.readCell a) fun pointer => h.translate memory pointer

theorem resolveMemory (cursor : Word) (d : OperandDescriptor) :
    P (ResolvedOperand × Word) (Machine.resolveMemory cursor d) :=
  h.bind (h.fetchExtra cursor) fun _ => h.bind (h.operandAddress d _) fun a =>
    h.bind (h.readCell a) fun _ => h.pure _

theorem resolve {ip : Word} {position : Nat} {d : OperandDescriptor}
    (control : d.kind = .control → P _ (resolveControl ip position d.register)) (cursor : Word) :
    P (ResolvedOperand × Word) (Machine.resolve ip position cursor d) := by
  unfold Machine.resolve
  cases kind : d.kind with
  | immediate => exact h.bind (h.fetchExtra cursor) fun _ => h.pure _
  | register => exact h.bind (h.readRegister _) fun w => h.pure _
  | control => exact h.bind (control kind) fun o => h.pure _
  | singleDs | singleEs | doubleDs | doubleEs => exact h.resolveMemory cursor d

theorem resolveAll {ip : Word} {ds : List OperandDescriptor}
    (control : ∀ d ∈ ds, d.kind = .control → ∀ position, P _ (resolveControl ip position d.register))
    (position : Nat) (cursor : Word) :
    P (List ResolvedOperand × Word) (Machine.resolveAll ip position cursor ds) := by
  induction ds generalizing position cursor with
  | nil => exact h.pure _
  | cons d ds ih =>
    obtain ⟨first, rest⟩ := List.forall_mem_cons.mp control
    refine h.bind (h.resolve (fun kind => first kind position) cursor) fun o => ?_
    exact h.bind (ih rest _ _) fun os => h.pure _

/-! ## Performing -/

theorem performArithmetic (i : ResolvedInstruction) :
    P Outcome (Machine.performArithmetic i) := by
  unfold Machine.performArithmetic
  split
  · exact h.throw id
  · split
    · exact h.throw id
    · exact h.pure _

theorem performBranch (i : ResolvedInstruction) : P Outcome (Machine.performBranch i) := by
  unfold Machine.performBranch
  split
  · exact h.throw id
  · refine h.look (fun m n same => ?_) fun p => ite (h.pure _) (h.pure _)
    have flags : m.processor.flags = n.processor.flags := congrArg Face.flags same
    rw [flags]

theorem performEnter (i : ResolvedInstruction) : P Outcome (Machine.performEnter i) := by
  refine h.bind (h.readRegister _) fun saved => h.bind (h.push saved) fun _ => ?_
  refine h.look (fun m n same => by rw [sp_eq_of_face same]) fun p => ?_
  exact h.bind (h.writeRegister _ p.sp) fun _ => h.bind (h.moveSp (p.sp - i.first)) fun _ => h.pure _

theorem performLeave : P Outcome Machine.performLeave := by
  refine h.bind (h.readRegister _) fun frame => h.bind (h.moveSp frame) fun _ => ?_
  exact h.bind h.pop fun saved => h.bind (h.writeRegister _ saved) fun _ => h.pure _

theorem performGetArgument (i : ResolvedInstruction) :
    P Outcome (Machine.performGetArgument i) := by
  refine h.bind (h.readRegister _) fun frame => ?_
  exact h.bind (h.translate (by decide) _) fun a => h.bind (h.readCell a) fun v => h.pure _

theorem performSetInterrupts (i : ResolvedInstruction) (on : Bool) :
    P Outcome (Machine.performSetInterrupts i on) := by
  have sets : P Unit (modifyProcessor (·.setInterruptsEnabled on)) := h.change (.setInterrupts on)
  exact h.bind (h.hostOnly _ _ _) fun _ => h.bind sets fun _ => h.pure _

/-- Performing an instruction that does not enter a guest. -/
theorem perform (noResume : i.opcode ≠ .vmResume) : P Outcome (Machine.perform i) := by
  unfold Machine.perform
  cases opcode : i.opcode
  case add | sub | mul | div | mod | or | xor | and | not | shl | shr => exact h.performArithmetic i
  case jmp | jz | jnz | jgt | jge => exact h.performBranch i
  case mov | nop => exact h.pure _
  case halt => exact h.bind (h.hostOnly _ _ _) fun _ => h.pure _
  case print =>
    have prints : P Unit (modify (·.emit i.first)) := h.change (.print i.first)
    exact h.bind (h.hostOnly _ _ _) fun _ => h.bind prints fun _ => h.pure _
  case cmp =>
    have compares : P Unit (modifyProcessor fun p =>
        { p with flags := .comparison i.first i.second }) :=
      h.change (.setFlags (.comparison i.first i.second))
    exact h.bind compares fun _ => h.pure _
  case call => exact h.bind (h.push i.nextIp) fun _ => h.pure _
  case ret | reti => exact h.bind h.pop fun _ => h.pure _
  case retn =>
    have drops : P Unit (modifyProcessor fun p => { p with sp := p.sp + i.first }) :=
      h.change (.drop i.first)
    exact h.bind h.pop fun target => h.bind drops fun _ => h.pure _
  case push => exact h.bind (h.push i.first) fun _ => h.pure _
  case pop => exact h.bind h.pop fun _ => h.pure _
  case enter => exact h.performEnter i
  case leave => exact h.performLeave
  case getArgument => exact h.performGetArgument i
  case int => exact h.throw id
  case vmResume => exact absurd opcode noResume
  case cli => exact h.performSetInterrupts i false
  case sti => exact h.performSetInterrupts i true

/-! ## Carrying out -/

theorem writeResult
    (control : ∀ r v, i.target? = some (.control r) → P Unit (writeBack v (.control r)))
    (o : Outcome) : P Unit (Machine.writeResult i o) := by
  unfold Machine.writeResult
  cases o.result with
  | none => exact h.pure ()
  | some v =>
    cases target : i.target? with
    | none => exact h.throw id
    | some t =>
      cases t with
      | register index => exact h.writeRegister index v
      | cell a => exact h.writeCell a v
      | control r => exact control r v target

theorem follow (i : ResolvedInstruction) (control : Control) : P Unit (Machine.follow i control) := by
  cases control with
  | next => exact h.moveIp i.nextIp
  | jump target => exact h.moveIp target
  | redirected => exact h.pure ()
  | halt =>
    have halts : P Unit (modify fun m => { m with status := .halted }) := h.change .halt
    exact h.bind (h.moveIp i.nextIp) fun _ => halts

end Compositional

/-! ## Preparing -/

/-- Fetches the instruction at an offset and checks its privilege level. -/
def fetchChecked (ip : Word) : Action Exception Instruction := do
  let i ← fetchInstruction ip
  checkPrivilege i
  return i

/-- Preparing is fetching, then resolving. -/
theorem prepare_eq (ip : Word) :
    prepare ip = (do
      let i ← fetchChecked ip
      let (operands, cursor) ← resolveAll ip 0 (ip + 1) i.operands
      return ⟨i.opcode, ip, cursor, operands⟩) := by
  simp only [prepare, fetchChecked, bind_assoc, pure_bind]

/-- Executing is fetching, then resolving, then performing. -/
theorem executeAt_eq (ip : Word) :
    executeAt ip = (do
      let i ← fetchChecked ip
      let (operands, cursor) ← resolveAll ip 0 (ip + 1) i.operands
      let r : ResolvedInstruction := ⟨i.opcode, ip, cursor, operands⟩
      let outcome ← perform r
      writeResult r outcome
      follow r outcome.control) := by
  simp only [executeAt, prepare, fetchChecked, bind_assoc, pure_bind]

/-- Executes an instruction that was fetched at an offset. -/
def complete (ip : Word) (i : Instruction) : Action Exception Unit := do
  checkPrivilege i
  let (operands, cursor) ← resolveAll ip 0 (ip + 1) i.operands
  let r : ResolvedInstruction := ⟨i.opcode, ip, cursor, operands⟩
  let outcome ← perform r
  writeResult r outcome
  follow r outcome.control

theorem executeAt_eq_complete (ip : Word) :
    executeAt ip = fetchInstruction ip >>= complete ip := by
  simp only [executeAt, prepare, bind_assoc, pure_bind]
  rfl

namespace Compositional

variable {P : ∀ α : Type, Action Exception α → Prop} (h : Compositional P)
include h

theorem checkPrivilege (i : Instruction) : P Unit (Machine.checkPrivilege i) := by
  refine h.look (fun m n same => ?_) fun p => ite (h.throw id) (h.pure ())
  have privilege : m.processor.privilege = n.processor.privilege := congrArg Face.privilege same
  rw [privilege]

variable (remembers : ∀ i, P Unit (modify fun m => { m with lastInstruction := some i }))
include remembers

/-- Fetching also makes the machine remember the instruction. -/
theorem fetchInstruction (ip : Word) : P Instruction (Machine.fetchInstruction ip) := by
  refine h.bind (h.fetch ip) fun w => ?_
  split
  · exact h.throw id
  · exact h.bind (remembers _) fun _ => h.pure _

theorem fetchChecked (ip : Word) : P Instruction (Machine.fetchChecked ip) :=
  h.bind (h.fetchInstruction remembers ip) fun i => h.bind (h.checkPrivilege i) fun _ => h.pure i

theorem prepare {ip : Word}
    (control : ∀ position register, P _ (resolveControl ip position register)) :
    P ResolvedInstruction (Machine.prepare ip) := by
  rw [prepare_eq]
  refine h.bind (h.fetchChecked remembers ip) fun i => ?_
  exact h.bind (h.resolveAll (fun d _ _ position => control position _) 0 (ip + 1)) fun os => h.pure _

end Compositional

end Machine

end WordMachine
