import WordMachine.Proofs.StackSteps
import WordMachine.Proofs.StackWords

/-!
# The frame of an interrupt

In the host an interrupt pushes its extra words and then the address to return
to, and goes on at its vector.  Each word has an offset of its own
(`pushOffset`).  The pushes succeed if all of these can be translated
(`pushAll_of_reaches`), and the first one that cannot decides how they fail
(`pushAll_of_misses`).  Both are inductions on the words, and a push moves the
offsets of the others along.

`Framed` says what a delivered interrupt has left.  The address to return to is
on top, so `RETI` takes it off and goes there, and nothing else happens
(`Framed.reti`).
-/

namespace WordMachine

theorem Word.sub_one_sub_ofNat (a : Word) (n : Nat) :
    a - 1 - UInt32.ofNat n = a - UInt32.ofNat (n + 1) := by
  rw [Word.sub_ofNat_succ]
  grind

namespace Machine

variable {m m' : Machine} {i : ResolvedInstruction} {number : Word} {words : List Word} {k : Nat}

/-! ## Pushing words -/

/-- The offset of a word that is pushed after `k` others. -/
def pushOffset (m : Machine) (k : Nat) : Word := m.processor.sp - UInt32.ofNat (k + 1)

theorem pushOffset_zero (m : Machine) : m.pushOffset 0 = m.processor.sp - 1 := rfl

/-- The offsets after one push. -/
theorem pushOffset_withStack (m : Machine) (memory : Memory) (k : Nat) :
    (m.withStack (m.processor.sp - 1) memory).pushOffset k = m.pushOffset (k + 1) :=
  Word.sub_one_sub_ofNat m.processor.sp (k + 1)

theorem pushOffset_mapped (m : Machine) (k : Nat) : m.mapped.pushOffset k = m.pushOffset k := by
  unfold pushOffset
  rw [processor_mapped]

/-- Words are pushed if each has a cell. -/
theorem pushAll_of_reaches (settled : m.Settled)
    (reached : ∀ k < words.length, m.reaches .stack (m.pushOffset k) = true) :
    ∃ memory, pushAll words m =
      .ok () (m.withStack (m.processor.sp - UInt32.ofNat words.length) memory) := by
  induction words generalizing m with
  | nil =>
    refine ⟨m.memory, ?_⟩
    have same : m.processor.sp - UInt32.ofNat 0 = m.processor.sp := UInt32.sub_zero _
    rw [List.length_nil, same]
    rfl
  | cons word words ih =>
    let next := m.withStack (m.processor.sp - 1) (m.memory.set (m.processor.sp - 1) word)
    have pushed : push word m = .ok () next :=
      push_of_reaches settled (reached 0 (Nat.succ_pos _)) word
    have others (k : Nat) (small : k < words.length) :
        next.reaches .stack (next.pushOffset k) = true := by
      rw [pushOffset_withStack]
      exact reached (k + 1) (Nat.succ_lt_succ small)
    obtain ⟨memory, rest⟩ := ih (m := next) settled others
    refine ⟨memory, (Action.bind_of_ok pushed _).trans (rest.trans ?_)⟩
    rw [List.length_cons, ← Word.sub_one_sub_ofNat]
    rfl

/-- The first word without a cell is the one that is not pushed. -/
theorem pushAll_of_misses (settled : m.Settled) (small : k < words.length)
    (reached : ∀ j < k, m.reaches .stack (m.pushOffset j) = true)
    (missed : m.reaches .stack (m.pushOffset k) = false) :
    (pushAll words).outcome m = .error (.fault (.segmentViolation .stack (m.pushOffset k))) := by
  induction words generalizing m k with
  | nil => cases small
  | cons word words ih =>
    cases k with
    | zero =>
      have failed := push_eq settled word
      rw [if_neg (by rw [← pushOffset_zero, missed]; decide)] at failed
      have stops : pushAll (word :: words) m = _ := Action.bind_of_error failed _
      rw [Action.outcome, stops]
      rfl
    | succ k =>
      let next := m.withStack (m.processor.sp - 1) (m.memory.set (m.processor.sp - 1) word)
      have pushed : push word m = .ok () next :=
        push_of_reaches settled (reached 0 (Nat.succ_pos k)) word
      have rest := ih (m := next) (k := k) settled (Nat.lt_of_succ_lt_succ small)
        (fun j less => by
          rw [pushOffset_withStack]
          exact reached (j + 1) (Nat.succ_lt_succ less))
        (by
          rw [pushOffset_withStack]
          exact missed)
      rw [pushOffset_withStack] at rest
      have goesOn : pushAll (word :: words) m = pushAll words next := Action.bind_of_ok pushed _
      rw [Action.outcome, goesOn]
      exact rest

/-! ## The frame -/

theorem pushFrame_of_ok (pushed : pushAll words m = .ok () m') :
    pushFrame number words m = .ok () m' := by
  simp [pushFrame, EStateM.adaptExcept, pushed]

theorem pushFrame_of_fault {f : Fault} (failed : (pushAll words).outcome m = .error (.fault f)) :
    (pushFrame number words).outcome m = .error (.doubleFault number f) := by
  have ran := Action.eq_error_of_outcome failed
  simp [Action.outcome, pushFrame, EStateM.adaptExcept, ran]

/-- In the host an interrupt reads the segment table, pushes its frame and jumps. -/
theorem raiseInterrupt_eq_mapped (host : m.processor.inGuest = false)
    (known : number ≤ Interrupt.last) (returnIp : Word) (extra : List Word) :
    raiseInterrupt number returnIp extra m = (do
      pushFrame number (extra ++ [returnIp])
      modifyProcessor fun p => { p with ip := Interrupt.vector number } :
        Action FatalError Unit) m.mapped := by
  have host' : m.mapped.processor.inGuest = false := by rw [processor_mapped, host]
  rw [raiseInterrupt_mapped host known, raiseInterrupt_eq_of_host host' known]

/-- What an interrupt leaves that is delivered in the host. -/
structure Framed (m : Machine) (number returnIp : Word) (extra : List Word) (m' : Machine) :
    Prop where
  /-- Of the processor only the stack pointer and the instruction pointer change. -/
  processor : m'.processor =
    { m.processor with sp := m.processor.sp - UInt32.ofNat (extra.length + 1), ip := 2 * number }
  /-- The address to return to is on top, and the first extra word is deepest. -/
  top : m'.top (extra.length + 1) = returnIp :: extra.reverse
  /-- Only the cells of these words are written. -/
  memory : ∀ a, (∀ j < extra.length + 1, a ≠ m'.processor.sp + UInt32.ofNat j) →
    m'.memory.cell? a = m.memory.cell? a
  /-- Nothing else changes, except that the segment table has been read. -/
  others : m' = { m.mapped with processor := m'.processor, memory := m'.memory }

variable {returnIp : Word} {extra : List Word}

theorem framed_of_reaches (settled : m.mapped.Settled) (few : extra.length + 1 < Word.count)
    (host : m.processor.inGuest = false) (known : number ≤ Interrupt.last)
    (reached : ∀ k ≤ extra.length, m.mapped.reaches .stack (m.pushOffset k) = true) :
    ∃ m', raiseInterrupt number returnIp extra m = .ok () m' ∧
      Framed m number returnIp extra m' := by
  have length : (extra ++ [returnIp]).length = extra.length + 1 := by simp
  have found (k : Nat) (small : k < (extra ++ [returnIp]).length) :
      m.mapped.reaches .stack (m.mapped.pushOffset k) = true := by
    rw [pushOffset_mapped]
    exact reached k (by omega)
  obtain ⟨memory, pushed⟩ := pushAll_of_reaches settled found
  rw [length] at pushed
  let stacked := m.mapped.withStack (m.mapped.pushOffset extra.length) memory
  have pushes : Pushed m.mapped (extra ++ [returnIp]) stacked := pushAll_ok (by omega) pushed
  refine ⟨stacked.goto (Interrupt.vector number), ?_, ?_, ?_, ?_, rfl⟩
  · rw [raiseInterrupt_eq_mapped host known]
    exact Action.bind_of_ok (pushFrame_of_ok pushed) _
  · have sp : stacked.processor.sp = m.pushOffset extra.length := pushOffset_mapped m _
    show ({ m.mapped.processor with sp := stacked.processor.sp, ip := number * 2 } : Processor) = _
    rw [sp, processor_mapped, UInt32.mul_comm]
    rfl
  · have top := pushes.top
    rw [List.reverse_append, length] at top
    exact top
  · intro a outside
    rw [← memory_mapped m]
    refine pushes.memory a fun j small => ?_
    rw [length] at small
    exact outside j small

/-- The fault of the double fault is that of the first word without a cell. -/
theorem doubleFault_of_misses (settled : m.mapped.Settled) (host : m.processor.inGuest = false)
    (known : number ≤ Interrupt.last) (small : k ≤ extra.length)
    (reached : ∀ j < k, m.mapped.reaches .stack (m.pushOffset j) = true)
    (missed : m.mapped.reaches .stack (m.pushOffset k) = false) :
    (raiseInterrupt number returnIp extra).outcome m =
      .error (.doubleFault number (.segmentViolation .stack (m.pushOffset k))) := by
  simp only [← pushOffset_mapped m] at reached missed ⊢
  have failed : (pushAll (extra ++ [returnIp])).outcome m.mapped =
      .error (.fault (.segmentViolation .stack (m.mapped.pushOffset k))) :=
    pushAll_of_misses settled (by simp; omega) reached missed
  have framed : (pushFrame number (extra ++ [returnIp])).outcome m.mapped = .error _ :=
    pushFrame_of_fault failed
  rw [Action.outcome, raiseInterrupt_eq_mapped host known,
    Action.bind_of_error (Action.eq_error_of_outcome framed)]

/-! ## Going back -/

theorem Framed.sp (framed : Framed m number returnIp extra m') :
    m'.processor.sp = m.pushOffset extra.length := by
  rw [framed.processor]
  rfl

theorem Framed.mapping (framed : Framed m number returnIp extra m') (space : AddressSpace) :
    SameMapping space m.mapped m' where
  segmented := by
    rw [framed.processor, processor_mapped]
    rfl
  segments := by rw [framed.others]
  selector := by
    rw [framed.processor, processor_mapped]
    cases space <;> rfl

/-- `RETI` goes back to where the interrupt was to return to, and takes nothing else off the
stack. -/
theorem Framed.reti (framed : Framed m number returnIp extra m') (settled : m.mapped.Settled)
    (reached : m.mapped.reaches .stack (m.pushOffset extra.length) = true)
    (opcode : i.opcode = .reti) :
    carryOut i m' = .ok () { m' with processor := { m'.processor with
      ip := returnIp, sp := m.processor.sp - UInt32.ofNat extra.length } } := by
  have mapping := framed.mapping .stack
  have above : m'.processor.sp + 1 = m.processor.sp - UInt32.ofNat extra.length := by
    rw [framed.sp, pushOffset, Word.sub_ofNat_succ]
    grind
  have value : m'.memory.get m'.processor.sp = returnIp := (List.cons.inj framed.top).1
  have reached' : m'.reaches .stack m'.processor.sp = true := by
    rw [mapping.reaches, framed.sp]
    exact reached
  have popped := pop_of_reaches (mapping.settled settled) reached'
  rw [value, above] at popped
  have performed : perform i m' = .ok (.jump returnIp)
      (m'.withStack (m.processor.sp - UInt32.ofNat extra.length) m'.memory) := by
    unfold perform
    rw [opcode]
    exact Action.bind_of_ok popped _
  exact Action.bind_of_ok performed _

/-! ## Every interrupt of the host -/

/-- Whether the word that is pushed after `k` others has an offset outside of the stack segment. -/
def ViolatesStack (m : Machine) (k : Nat) : Prop :=
  (translate .stack (m.pushOffset k)).outcome m =
    .error (.fault (.segmentViolation .stack (m.pushOffset k)))

/-- An interrupt of the host is out of range and nothing happens, or it is delivered with an exact
frame that `RETI` takes back, or the first word without a cell makes it a double fault. -/
theorem raiseInterrupt_exact (host : m.processor.inGuest = false) (number returnIp : Word)
    (extra : List Word) (few : extra.length + 1 < Word.count) :
    (Interrupt.last < number →
      raiseInterrupt number returnIp extra m = .error (.interruptOutOfRange number) m) ∧
    (number ≤ Interrupt.last →
      (∀ k ≤ extra.length, ∃ a, (translate .stack (m.pushOffset k)).outcome m = .ok a) →
      ∃ m', raiseInterrupt number returnIp extra m = .ok () m' ∧
        Framed m number returnIp extra m' ∧
        ∀ i : ResolvedInstruction, i.opcode = .reti →
          carryOut i m' = .ok () { m' with processor := { m'.processor with
            ip := returnIp, sp := m.processor.sp - UInt32.ofNat extra.length } }) ∧
    (number ≤ Interrupt.last → ∀ k ≤ extra.length, m.ViolatesStack k →
      (∀ j < k, ¬m.ViolatesStack j) →
      (raiseInterrupt number returnIp extra).outcome m =
        .error (.doubleFault number (.segmentViolation .stack (m.pushOffset k)))) := by
  rcases settled_mapped_or m with settled | ⟨e, failed⟩
  · have outcome (k : Nat) := outcome_translate settled .stack (m.pushOffset k)
    refine ⟨fun unknown => raiseInterrupt_of_unknown unknown _ _, fun known translates => ?_,
      fun known k small violates first => ?_⟩
    · have reached (k : Nat) (small : k ≤ extra.length) :
          m.mapped.reaches .stack (m.pushOffset k) = true := by
        obtain ⟨a, found⟩ := translates k small
        rw [outcome] at found
        by_contra missed
        rw [if_neg missed] at found
        cases found
      obtain ⟨m', raised, framed⟩ := framed_of_reaches settled few host known reached
      exact ⟨m', raised, framed, fun i => framed.reti settled (reached _ (Nat.le_refl _))⟩
    · have violates_iff (j : Nat) :
          m.ViolatesStack j ↔ m.mapped.reaches .stack (m.pushOffset j) = false := by
        unfold ViolatesStack
        rw [outcome]
        cases m.mapped.reaches .stack (m.pushOffset j) <;> simp [AddressSpace.kind]
      refine doubleFault_of_misses settled host known small (fun j less => ?_)
        ((violates_iff k).mp violates)
      simpa [violates_iff] using first j less
  · -- Without a segment table no offset can be translated, nor does one lie outside of a segment.
    have outcome (k : Nat) : (translate .stack (m.pushOffset k)).outcome m = .error (.fatal e) := by
      rw [Action.outcome, failed]
    refine ⟨fun unknown => raiseInterrupt_of_unknown unknown _ _, fun _ translates => ?_,
      fun _ k _ violates => ?_⟩
    · obtain ⟨a, found⟩ := translates 0 (Nat.zero_le _)
      rw [outcome] at found
      cases found
    · rw [ViolatesStack, outcome] at violates
      cases violates

/-- A host whose stack has room for one more word. -/
def nearlyFullHost : Machine :=
  { pushingHost with processor := { pushingHost.processor with sp := 0x201 } }

theorem raiseInterrupt_exact_samples :
    (raiseInterrupt 33 0x10 [7, 8] pushingHost = .error (.interruptOutOfRange 33) pushingHost) ∧
      (∃ m', raiseInterrupt 9 0x10 [7, 8] pushingHost = .ok () m' ∧
        Framed pushingHost 9 0x10 [7, 8] m' ∧
        carryOut ⟨.reti, 18, 19, []⟩ m' = .ok () { m' with processor := { m'.processor with
          ip := 0x10, sp := 0x2FE } }) ∧
      (raiseInterrupt 9 0x10 [7, 8]).outcome nearlyFullHost =
        .error (.doubleFault 9 (.segmentViolation .stack 0x1FF)) := by
  have few : [(7 : Word), 8].length + 1 < Word.count := by decide
  refine ⟨?_, ?_, ?_⟩
  · exact (raiseInterrupt_exact rfl 33 0x10 [7, 8] few).1 (by decide)
  · have found : ∀ k ≤ 2, (translate .stack (pushingHost.pushOffset k)).outcome pushingHost =
        .ok (pushingHost.pushOffset k) := by decide +kernel
    obtain ⟨m', raised, framed, returns⟩ := (raiseInterrupt_exact (m := pushingHost) rfl 9 0x10
      [7, 8] few).2.1 (by decide) fun k small => ⟨_, found k small⟩
    exact ⟨m', raised, framed, returns _ rfl⟩
  · have violates : nearlyFullHost.ViolatesStack 1 := by
      unfold ViolatesStack
      decide +kernel
    have first : ¬nearlyFullHost.ViolatesStack 0 := by
      unfold ViolatesStack
      decide +kernel
    refine (raiseInterrupt_exact (m := nearlyFullHost) rfl 9 0x10 [7, 8] few).2.2 (by decide) 1
      (by decide) violates fun j less => ?_
    obtain rfl : j = 0 := by omega
    exact first

end Machine

end WordMachine
