import WordMachine.Proofs.AssembledListing
import WordMachine.Proofs.InterruptDelivery

/-!
# One length for every instruction

How many words an instruction has is found in four ways.  `Instruction.length`
counts the modes with an extra word.  The cursor moves past each extra word that
is fetched.  A listing takes as many words as the instruction word calls for, and
assembling writes one for each operand that has one.

`TakesLength` says that all of these agree, and with them everything that depends
on where the next instruction is: where execution falls through to, what `CALL`
pushes, and where a program goes on that was interrupted by `INT`, `HALT` or
`PRINT`.  It holds of every instruction whose operands can be resolved
(`takesLength_of_prepare`), also around the end of the addresses.
-/

namespace WordMachine.Machine

variable {α : Type} {m m' : Machine} {i : ResolvedInstruction} {d : Instruction} {ip : Word}
  {f : Fault}

/-! ## Falling through -/

/-- Work whose outcome, if it has one, is to go on with the next instruction. -/
def FallsThrough (x : Action Exception Outcome) : Prop :=
  ∀ m, x.Ends m (fun o _ => o.control = .next) (fun _ _ => True)

namespace FallsThrough

theorem pure {o : Outcome} (next : o.control = .next) :
    FallsThrough (Pure.pure o : Action Exception Outcome) := fun _ => next

theorem throw (e : Exception) :
    FallsThrough (MonadExcept.throw e : Action Exception Outcome) := fun _ => trivial

theorem bind {x : Action Exception α} {g : α → Action Exception Outcome}
    (last : ∀ a, FallsThrough (g a)) : FallsThrough (x >>= g) :=
  fun m => .bind (.trivial x m) (fun a m' _ => last a m') fun _ _ _ => trivial

/-- An outcome after some work. -/
theorem bind_pure {x : Action Exception α} {o : α → Outcome}
    (next : ∀ a, (o a).control = .next) : FallsThrough (x >>= fun a => Pure.pure (o a)) :=
  bind fun a => pure (next a)

theorem performArithmetic (i : ResolvedInstruction) : FallsThrough (performArithmetic i) := by
  unfold Machine.performArithmetic
  cases ArithmeticOp.ofOpcode? i.opcode with
  | none => exact throw _
  | some a =>
    dsimp only
    cases a.evaluate? i.first i.second with
    | none => exact throw _
    | some v => exact pure rfl

end FallsThrough

/-- Whether an instruction sends execution elsewhere than to the next one. -/
def GoesElsewhere (m : Machine) (i : ResolvedInstruction) : Prop :=
  match Condition.ofOpcode? i.opcode with
  | some c => c.holds m.processor.flags = true
  | none => i.opcode ∈ [.call, .ret, .retn, .reti, .vmResume]

theorem performBranch_control (i : ResolvedInstruction) (m : Machine) :
    (performBranch i).Ends m (fun o _ => m.GoesElsewhere i ∨ o.control = .next)
      (fun _ _ => True) := by
  unfold performBranch GoesElsewhere
  cases Condition.ofOpcode? i.opcode with
  | none => exact .throw trivial
  | some c =>
    refine (processorState_reads m).bind_ends (F := fun _ => False) ?_ fun _ h => h.elim
    rintro _ rfl
    split
    next holds => exact .pure (.inl holds)
    next => exact .pure (.inr rfl)

/-- Performing an instruction goes on with the next one, or halts there, unless it goes
elsewhere. -/
theorem perform_control (i : ResolvedInstruction) (m : Machine) :
    (perform i).Ends m
      (fun o _ => m.GoesElsewhere i ∨ o.control = .next ∨ o.control = .halt)
      (fun _ _ => True) := by
  have next {x : Action Exception Outcome} (falls : FallsThrough x) :
      x.Ends m (fun o _ => m.GoesElsewhere i ∨ o.control = .next ∨ o.control = .halt)
        (fun _ _ => True) :=
    (falls m).imp (fun _ _ next => .inr (.inl next)) fun _ _ _ => trivial
  have elsewhere (x : Action Exception Outcome) (goes : m.GoesElsewhere i) :
      x.Ends m (fun o _ => m.GoesElsewhere i ∨ o.control = .next ∨ o.control = .halt)
        (fun _ _ => True) :=
    (Action.Ends.trivial x m).imp (fun _ _ _ => .inl goes) fun _ _ _ => trivial
  unfold perform
  cases opcode : i.opcode
  case add | sub | mul | div | mod | or | xor | and | not | shl | shr =>
    exact next (.performArithmetic i)
  case mov | nop => exact next (.pure rfl)
  case jmp | jz | jnz | jgt | jge =>
    exact (performBranch_control i m).imp (fun _ _ h => h.imp_right .inl) fun _ _ h => h
  case call | ret | reti | retn | vmResume =>
    exact elsewhere _ (by simp [GoesElsewhere, opcode, Condition.ofOpcode?])
  case halt =>
    exact .bind (.trivial _ _) (fun _ _ _ => .pure (.inr (.inr rfl))) fun _ _ _ => trivial
  case print => exact next (.bind fun _ => .bind_pure fun _ => rfl)
  case cmp | push | pop => exact next (.bind_pure fun _ => rfl)
  case enter =>
    exact next (.bind fun _ => .bind fun _ => .bind fun _ => .bind fun _ => .bind_pure fun _ => rfl)
  case leave =>
    exact next (.bind fun _ => .bind fun _ => .bind fun _ => .bind_pure fun _ => rfl)
  case getArgument => exact next (.bind fun _ => .bind fun _ => .bind_pure fun _ => rfl)
  case int => exact next (.throw _)
  case cli | sti => exact next (.bind fun _ => .bind_pure fun _ => rfl)

theorem carryOut_ip (i : ResolvedInstruction) (m : Machine) :
    (carryOut i).Ends m (fun _ m' => m.GoesElsewhere i ∨ m'.processor.ip = i.nextIp)
      (fun _ _ => True) := by
  refine .bind (perform_control i m) (fun o m₁ goes => ?_) fun _ _ _ => trivial
  refine .bind (.trivial _ _) (fun _ m₂ _ => ?_) fun _ _ _ => trivial
  rcases goes with elsewhere | next | halt
  · exact (Action.Ends.trivial _ _).imp (fun _ _ _ => .inl elsewhere) fun _ _ _ => trivial
  · rw [next]
    exact .inr rfl
  · rw [halt]
    exact .inr rfl

/-- `CALL` pushes the offset of the next instruction. -/
theorem carryOut_of_call (opcode : i.opcode = .call) (called : carryOut i m = .ok () m') :
    m'.processor.sp = m.processor.sp - 1 ∧ m'.memory.get m'.processor.sp = i.nextIp := by
  cases pushed : push i.nextIp m with
  | error e m₁ =>
    have failed : perform i m = .error e m₁ := by
      unfold perform
      rw [opcode]
      exact Action.bind_of_error pushed _
    rw [show carryOut i m = .error e m₁ from Action.bind_of_error failed _] at called
    cases called
  | ok u m₁ =>
    have performed : perform i m = .ok (.jump i.first) m₁ := by
      unfold perform
      rw [opcode]
      exact Action.bind_of_ok pushed _
    rw [show carryOut i m = .ok () (m₁.goto i.first) from Action.bind_of_ok performed _] at called
    cases called
    obtain ⟨rfl, -, -⟩ := push_ok pushed
    exact ⟨rfl, Memory.get_set_self _ _ _⟩

/-! ## Going on after an interruption -/

/-- Whether the instruction at `ip` is interrupted by a fault before it has done anything, and the
program is to go on at an address. -/
structure InterruptedBy (m : Machine) (ip : Word) (d : Instruction) (f : Fault) (address : Word) :
    Prop where
  faulted : executeAt ip m = .error (.fault f) (m.mapped.remember d)
  /-- In the host the address is what the handler finds on top of the stack. -/
  host : ∀ m', m.processor.inGuest = false → deliverFault ip f (m.mapped.remember d) = .ok () m' →
    m'.memory.get m'.processor.sp = address
  /-- A guest is saved with the address, unless the frame lies over its row. -/
  guest : ∀ slot m', m.processor.guest = some slot →
    deliverFault ip f (m.mapped.remember d) = .ok () m' →
    (∀ j < 2 + (f.exit ip).extra.length, ¬m.InRow slot (m'.processor.sp + UInt32.ofNat j)) →
    (m'.rowContext slot).ip = address

theorem interruptedBy_of_executeAt (few : (f.exit ip).extra.length + 2 ≤ Word.count)
    (faulted : executeAt ip m = .error (.fault f) (m.mapped.remember d)) :
    m.InterruptedBy ip d f (f.exit ip).resumeIp := by
  have same : (m.mapped.remember d).processor = m.processor := processor_mapped m
  refine ⟨faulted, fun m' host delivered => ?_, fun slot m' guest delivered apart => ?_⟩
  · have host' : (m.mapped.remember d).processor.inGuest = false := by rw [same, host]
    obtain ⟨m₁, pushed, rfl⟩ := pushed_of_raiseInterrupt host' (by omega)
      (raiseInterrupt_of_deliverFault host' delivered)
    have top := pushed.top
    rw [List.reverse_append, List.length_append] at top
    exact (List.cons.inj top).1
  · have guest' : (m.mapped.remember d).processor.guest = some slot := by rw [same, guest]
    rw [deliverFault_eq_leaveFor guest'] at delivered
    have table : (m.mapped.remember d).processor.guestTable = m.processor.guestTable := by rw [same]
    rw [rowContext_of_leaveFor guest' few delivered fun j small =>
      mt (inRow_congr table slot _).mp (apart j small)]

/-! ## The length -/

/-- Assembling writes one word for each that decoding counts. -/
theorem length_of_assemble {opcode : Opcode} {privilege : UInt8} {operands : List Operand}
    {word : Word} {extra : List Word}
    (assembled : assemble opcode privilege operands = .ok (word :: extra))
    (decoded : Instruction.decode word = .ok d) : (word :: extra).length = d.length := by
  obtain ⟨i, -, -, obeys, -, length, words⟩ := assemble_eq_ok assembled
  obtain ⟨rfl, -⟩ := List.cons.inj words
  have same := Instruction.decode_encode obeys
  rw [decoded] at same
  rw [length, Except.ok.inj same]

/-- A line takes one word for each that decoding counts. -/
theorem length_lineAt_of_decode {word : Word} {extra : List Word}
    (decoded : Instruction.decode word = .ok d) (enough : extra.length = d.extraWords)
    (address : Word) (rest : List Word) :
    (Listing.lineAt address word (extra ++ rest)).length = d.length := by
  have takes : Listing.extraCount word = extra.length := by
    simp only [Listing.extraCount, decoded, enough]
  rw [Listing.lineAt, takes, List.take_left, Instruction.length, ← enough, Nat.add_comm]
  rfl

/-- All that depends on how many words an instruction has agrees on it. -/
structure TakesLength (m : Machine) (ip : Word) (d : Instruction) (i : ResolvedInstruction) :
    Prop where
  /-- The extra word of each operand is the next one, and the cursor comes to the end. -/
  prepared : m.mapped.PreparedFrom ip d i
  fallThrough : ∀ m', executeAt ip m = .ok () m' → ¬m.GoesElsewhere i →
    m'.processor.ip = ip + UInt32.ofNat d.length
  call : ∀ m', i.opcode = .call → executeAt ip m = .ok () m' →
    m'.processor.sp = m.processor.sp - 1 ∧
      m'.memory.get m'.processor.sp = ip + UInt32.ofNat d.length
  int : i.opcode = .int → m.InterruptedBy ip d
    (.softwareInterrupt i.first (ip + UInt32.ofNat d.length)) (ip + UInt32.ofNat d.length)
  halt : i.opcode = .halt → m.processor.inGuest = true → m.InterruptedBy ip d
    (.guestTrap .halt (ip + UInt32.ofNat d.length) []) (ip + UInt32.ofNat d.length)
  print : i.opcode = .print → m.processor.inGuest = true → m.InterruptedBy ip d
    (.guestTrap .hardwareAccess (ip + UInt32.ofNat d.length) [i.first]) (ip + UInt32.ofNat d.length)
  /-- A line of a listing takes the words of the instruction, and the next line starts after
  them. -/
  listed : ∀ address extra rest, extra.length = d.extraWords →
    Listing.lines address (m.memory.get ip :: (extra ++ rest)) =
        ⟨address, m.memory.get ip, extra⟩ :: Listing.lines (address + UInt32.ofNat d.length) rest ∧
      (Listing.lineAt address (m.memory.get ip) (extra ++ rest)).length = d.length
  /-- What is assembled to the instruction has as many words. -/
  assembled : ∀ opcode privilege operands word extra,
    assemble opcode privilege operands = .ok (word :: extra) → Instruction.decode word = .ok d →
    (word :: extra).length = d.length

theorem takesLength_of_prepare (prepared : (prepare ip).outcome m = .ok i) :
    ∃ d, m.TakesLength ip d i := by
  rcases settled_mapped_or_prepare m ip with settled | ⟨e, failed⟩
  · rw [Action.outcome, prepare_mapped] at prepared
    obtain ⟨d, made⟩ := preparedFrom_of_prepare settled prepared
    let m₀ := m.mapped.remember d
    have processor : m₀.processor = m.processor := processor_mapped m
    have decoded := made.decoded
    rw [memory_mapped] at decoded
    have executes : executeAt ip m = carryOut i m₀ :=
      executeAt_of_prepare ((prepare_mapped m ip).trans made.ran)
    have elsewhere : m₀.GoesElsewhere i = m.GoesElsewhere i := by
      unfold GoesElsewhere
      rw [processor]
    have interrupts {f : Fault} (failed : perform i m₀ = .error (.fault f) m₀)
        (few : (f.exit ip).extra.length + 2 ≤ Word.count) :
        m.InterruptedBy ip d f (f.exit ip).resumeIp :=
      interruptedBy_of_executeAt few (executes.trans (Action.bind_of_error failed _))
    refine ⟨d, made, ?_, ?_, ?_, ?_, ?_, ?_, ?_⟩
    · intro m' executed stays
      rw [executes] at executed
      rw [← made.nextIp]
      exact ((carryOut_ip i m₀).ok executed).resolve_left (elsewhere ▸ stays)
    · intro m' opcode executed
      rw [executes] at executed
      rw [← made.nextIp, ← processor]
      exact carryOut_of_call opcode executed
    · intro opcode
      rw [← made.nextIp]
      refine interrupts ?_ (by simp [Fault.exit, Exit.ofInterrupt, Word.count])
      unfold perform
      rw [opcode]
      rfl
    · intro opcode guest
      rw [← made.nextIp]
      exact interrupts (perform_of_guest (processor ▸ guest) (by simp only [perform, opcode]; rfl))
        (by simp [Fault.exit, Word.count])
    · intro opcode guest
      rw [← made.nextIp]
      exact interrupts (perform_of_guest (processor ▸ guest) (by simp only [perform, opcode]; rfl))
        (by simp [Fault.exit, Word.count])
    · intro address extra rest enough
      exact ⟨Listing.lines_of_decode decoded enough address rest,
        length_lineAt_of_decode decoded enough address rest⟩
    · exact fun _ _ _ _ _ => length_of_assemble
  · rw [Action.outcome, failed] at prepared
    cases prepared

/-- A host that is about to execute an instruction of three words, of which the last one is at the
first address. -/
def wrappingHost : Machine where
  processor := { ip := 0xFFFFFFFE }
  memory := Memory.empty.place 0xFFFFFFFE
    [Instruction.encode ⟨.mov, 0, [⟨.singleDs, Fin.last 31⟩, ⟨.immediate, Fin.last 31⟩]⟩, 0x100, 7]

theorem takesLength_of_prepare_wrappingHost :
    (prepare 0xFFFFFFFE).outcome wrappingHost =
        .ok ⟨.mov, 0xFFFFFFFE, 1, [⟨Memory.blank, some (.cell 0x100)⟩, ⟨7, none⟩]⟩ ∧
      ∃ d, d.length = 3 ∧ wrappingHost.TakesLength 0xFFFFFFFE d
        ⟨.mov, 0xFFFFFFFE, 1, [⟨Memory.blank, some (.cell 0x100)⟩, ⟨7, none⟩]⟩ := by
  have prepared : (prepare 0xFFFFFFFE).outcome wrappingHost =
      .ok ⟨.mov, 0xFFFFFFFE, 1, [⟨Memory.blank, some (.cell 0x100)⟩, ⟨7, none⟩]⟩ := by
    decide +kernel
  obtain ⟨d, takes⟩ := takesLength_of_prepare prepared
  have decoded : Instruction.decode (wrappingHost.memory.get 0xFFFFFFFE) =
      .ok ⟨.mov, 0, [⟨.singleDs, Fin.last 31⟩, ⟨.immediate, Fin.last 31⟩]⟩ := by decide +kernel
  have same := takes.prepared.decoded
  rw [memory_mapped, decoded] at same
  obtain rfl := Except.ok.inj same
  exact ⟨prepared, _, rfl, takes⟩

end WordMachine.Machine
