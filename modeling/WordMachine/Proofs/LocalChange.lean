import WordMachine.Proofs.Memory
import WordMachine.Proofs.Operand

/-!
# Local changes

Nearly all of what an instruction does is a `LocalChange`: it moves the
instruction and stack pointers, sets flags, and writes cells the running program
can write.  Everything else about the machine stays, the tables and the
selectors among it.  So a local change of a local change is one, and what one
step of work can reach the next one can reach too.

Pushing and popping are local changes, and so is writing a general register.
They fail only with a fault.
-/

namespace WordMachine.Machine

variable {m m' m₁ m₂ : Machine}

/-! ## Local changes -/

/-- Whether the running program can write a cell. -/
def Writable (m : Machine) (a : Word) : Prop := ∃ space, space ≠ .code ∧ m.reaches space a = true

/-- The machine with execution going on elsewhere. -/
def goto (m : Machine) (ip : Word) : Machine := { m with processor := { m.processor with ip := ip } }

/-- The machine with another stack pointer. -/
def withSp (m : Machine) (sp : Word) : Machine :=
  { m with processor := { m.processor with sp := sp } }

/-- The machine with other flags. -/
def withFlags (m : Machine) (flags : Flags) : Machine :=
  { m with processor := { m.processor with flags := flags } }

/-- The machine after a write to a cell. -/
def setCell (m : Machine) (a v : Word) : Machine := { m with memory := m.memory.set a v }

/-- A change of the instruction and stack pointers, the flags, the instruction decoded last, and
cells the running program can write. -/
structure LocalChange (m m' : Machine) : Prop where
  /-- Only the two pointers and the flags of the processor change. -/
  processor : m'.processor =
    { m.processor with
      ip := m'.processor.ip, sp := m'.processor.sp, flags := m'.processor.flags }
  segments : m'.segments = m.segments
  guests : m'.guests = m.guests
  status : m'.status = m.status
  cycles : m'.cycles = m.cycles
  console : m'.console = m.console
  /-- Only cells the running program can write change. -/
  memory : ∀ a, ¬m.Writable a → m'.memory.cell? a = m.memory.cell? a

namespace LocalChange

theorem refl (m : Machine) : LocalChange m m := ⟨rfl, rfl, rfl, rfl, rfl, rfl, fun _ _ => rfl⟩

theorem reaches (h : LocalChange m m') (space : AddressSpace) (a : Word) :
    m'.reaches space a = m.reaches space a := by
  have processor := h.processor
  unfold Machine.reaches segment? keptSegments
  rw [h.segments, processor]
  cases space <;> rfl

theorem writable (h : LocalChange m m') (a : Word) : m'.Writable a ↔ m.Writable a := by
  simp only [Writable, h.reaches]

theorem inGuest (h : LocalChange m m') : m'.processor.inGuest = m.processor.inGuest := by
  rw [h.processor]

theorem slot (h : LocalChange m m') : m'.processor.slot = m.processor.slot := by
  rw [h.processor]

theorem settled (h : LocalChange m m') (settled : m.Settled) : m'.Settled := by
  have processor := h.processor
  unfold Settled at *
  rw [h.segments, processor]
  exact settled

theorem trans (h : LocalChange m m₁) (h₁ : LocalChange m₁ m₂) : LocalChange m m₂ where
  processor := by
    rw [h₁.processor, h.processor]
  segments := h₁.segments.trans h.segments
  guests := h₁.guests.trans h.guests
  status := h₁.status.trans h.status
  cycles := h₁.cycles.trans h.cycles
  console := h₁.console.trans h.console
  memory a outside :=
    (h₁.memory a (mt (h.writable a).mp outside)).trans (h.memory a outside)

theorem remember (m : Machine) (d : Instruction) : LocalChange m (m.remember d) :=
  ⟨rfl, rfl, rfl, rfl, rfl, rfl, fun _ _ => rfl⟩

theorem goto (m : Machine) (ip : Word) : LocalChange m (m.goto ip) :=
  ⟨rfl, rfl, rfl, rfl, rfl, rfl, fun _ _ => rfl⟩

theorem withSp (m : Machine) (sp : Word) : LocalChange m (m.withSp sp) :=
  ⟨rfl, rfl, rfl, rfl, rfl, rfl, fun _ _ => rfl⟩

theorem withFlags (m : Machine) (flags : Flags) : LocalChange m (m.withFlags flags) :=
  ⟨rfl, rfl, rfl, rfl, rfl, rfl, fun _ _ => rfl⟩

theorem setCell {a : Word} (writable : m.Writable a) (v : Word) :
    LocalChange m (m.setCell a v) := by
  refine ⟨rfl, rfl, rfl, rfl, rfl, rfl, fun b outside => ?_⟩
  refine Memory.cell?_set_of_ne _ _ ?_
  rintro rfl
  exact outside writable

end LocalChange

/-! ## The stack and the registers -/

theorem push_eq (settled : m.Settled) (v : Word) :
    push v m =
      if m.reaches .stack (m.processor.sp - 1) then
        .ok () ((m.setCell (m.processor.sp - 1) v).withSp (m.processor.sp - 1))
      else .error (.fault (.segmentViolation .stack (m.processor.sp - 1))) m := by
  show (translate .stack (m.processor.sp - 1) >>= _) m = _
  have eq := translate_eq settled .stack (m.processor.sp - 1)
  split at eq
  next reached => rw [Action.bind_of_ok eq, if_pos reached]; rfl
  next missed => rw [Action.bind_of_error eq, if_neg missed]; rfl

theorem pop_eq (settled : m.Settled) :
    pop m =
      if m.reaches .stack m.processor.sp then
        .ok (m.memory.get m.processor.sp) (m.withSp (m.processor.sp + 1))
      else .error (.fault (.segmentViolation .stack m.processor.sp)) m := by
  show (translate .stack m.processor.sp >>= _) m = _
  have eq := translate_eq settled .stack m.processor.sp
  split at eq
  next reached => rw [Action.bind_of_ok eq, if_pos reached]; rfl
  next missed => rw [Action.bind_of_error eq, if_neg missed]; rfl

theorem writable_of_reaches_stack {a : Word} (h : m.reaches .stack a = true) : m.Writable a :=
  ⟨.stack, by decide, h⟩

theorem push_ends (settled : m.Settled) (v : Word) :
    (push v).Ends m (fun _ m' => LocalChange m m') (fun e m' => LocalChange m m' ∧ e.IsFault) := by
  have eq := push_eq settled v
  split at eq
  next reached =>
    exact .of_ok eq ((LocalChange.setCell (writable_of_reaches_stack reached) v).trans
      (LocalChange.withSp _ _))
  next => exact .of_error eq ⟨.refl m, _, rfl⟩

theorem pop_ends (settled : m.Settled) :
    pop.Ends m (fun _ m' => LocalChange m m') (fun e m' => LocalChange m m' ∧ e.IsFault) := by
  have eq := pop_eq settled
  split at eq
  next => exact .of_ok eq (.withSp m _)
  next => exact .of_error eq ⟨.refl m, _, rfl⟩

theorem writeRegister_ends (settled : m.Settled) {index : Nat} (small : index < registerCount)
    (v : Word) :
    (writeRegister index v).Ends m (fun _ m' => LocalChange m m')
      (fun e m' => LocalChange m m' ∧ e.IsFault) := by
  refine (registerAddress_reads settled small).bind_ends (fun a cell => ?_)
    fun e h => ⟨.refl m, h⟩
  have writable : m.Writable a := ⟨.register, by decide, reaches_of_registerCell? small cell⟩
  exact LocalChange.setCell writable v

end WordMachine.Machine
