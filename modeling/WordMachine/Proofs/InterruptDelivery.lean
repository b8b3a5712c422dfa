import WordMachine.Proofs.Interruption
import WordMachine.Proofs.StackWords

/-!
# What an interrupted step leaves for its handler

A step that is not `Interrupted` completes its instruction.  One that is, and
does not stop the machine, leaves a record of the cause on a stack.  In the host
it is the stack of the host itself: the address to return to is on top, and
below it are the extra words (`HandlerEntered`).  In a guest it is the stack of
the host that the guest is left for: on top is the number of the guest, then
that of the reason, then the extra words, and the row of the guest holds the
address to resume at (`HostEntered`).  `interrupted_step` puts this together
with the tables `Cause.hostRecord?` and `Cause.guestRecord?`.
-/

namespace WordMachine.Machine

variable {m m' : Machine} {slot : Word} {c : Cause} {e : Exit} {running : Bool}

/-! ## Interrupted steps -/

/-- Why the next step does not complete an instruction. -/
inductive Interrupted (m : Machine) : Cause → Prop
  | timer (fires : m.timerFires = true) : Interrupted m .timer
  | instruction {c : Cause} (quiet : m.timerFires = false)
      (broken : m.ready.Broken m.processor.ip c) : Interrupted m c

theorem nextOffset_ready (m : Machine) (ip : Word) : m.ready.nextOffset ip = m.nextOffset ip := by
  unfold nextOffset
  rw [memory_ready]

/-- A step that does not stop the machine could read the segment table. -/
theorem settled_ready (isRunning : m.isRunning = true) (quiet : m.timerFires = false)
    (stepped : step m = .ok running m') : m.ready.Settled := by
  rcases settled_mapped_or_prepare m.begun m.processor.ip with settled | ⟨e, failed⟩
  · exact settled
  · have stops : executeAt m.processor.ip m.begun = .error (.fatal e) m.begun :=
      Action.bind_of_error failed _
    rw [step_of_fatal isRunning quiet stops] at stepped
    cases stepped

/-- Whether an exit tells a handler what is to be told of a cause. -/
def TellsExit (m : Machine) (c : Cause) (e : Exit) : Prop :=
  (m.processor.inGuest = true →
      c.guestRecord? m.processor.ip (m.nextOffset m.processor.ip) = some e.guestRecord) ∧
    (m.processor.inGuest = false →
      c.hostRecord? m.processor.ip (m.nextOffset m.processor.ip) = some e.hostRecord)

/-- A cause determines the exit. -/
theorem Interrupted.exit? (isRunning : m.isRunning = true) (stepped : step m = .ok running m')
    (interrupted : m.Interrupted c) : ∃ e, m.exit? = some e ∧ m.TellsExit c e := by
  cases interrupted with
  | timer fires =>
    exact ⟨.ofInterrupt Interrupt.timer m.processor.ip [], if_pos fires, fun _ => rfl, fun _ => rfl⟩
  | instruction quiet broken =>
    have settled := settled_ready isRunning quiet stepped
    obtain ⟨f, faulted, told⟩ := broken.faults settled
    have outcome : (executeAt m.processor.ip).outcome m.begun = .error (.fault f) := by
      rw [Action.outcome, executeAt_begun]
      exact faulted
    refine ⟨f.exit m.processor.ip, ?_, ?_⟩
    · simp [Machine.exit?, quiet, outcome]
    · unfold Tells at told
      rw [inGuest_ready, nextOffset_ready] at told
      exact told

/-- Every exit has a cause. -/
theorem interrupted_of_exit (isRunning : m.isRunning = true) (stepped : step m = .ok running m')
    (exits : m.exit? = some e) : ∃ c, m.Interrupted c := by
  rcases exit?_cases exits with ⟨fires, -, -⟩ | ⟨quiet, f, -, faulted⟩
  · exact ⟨_, .timer fires⟩
  · rw [executeAt_begun] at faulted
    obtain ⟨c, broken⟩ := broken_of_fault (settled_ready isRunning quiet stepped) faulted
    exact ⟨c, .instruction quiet broken⟩

/-- A step that does not stop the machine completes its instruction or has an exit. -/
theorem completes_or_exit (isRunning : m.isRunning = true) (stepped : step m = .ok running m') :
    (m.timerFires = false ∧ executeAt m.processor.ip m.begun = .ok () m') ∨
      ∃ e, m.exit? = some e := by
  cases step_cases m with
  | idle stopped eq =>
    rw [isRunning] at stopped
    cases stopped
  | timer _ fires eq => exact .inr ⟨_, if_pos fires⟩
  | ok m₁ _ quiet executed eq =>
    rw [eq] at stepped
    cases stepped
    exact .inl ⟨quiet, executed⟩
  | fatal x m₁ _ quiet executed eq =>
    rw [eq] at stepped
    cases stepped
  | fault f m₁ _ quiet executed eq =>
    exact .inr ⟨f.exit m.processor.ip, by simp [exit?, quiet, Action.outcome, executed]⟩

/-! ## In the host -/

/-- What the host comes to that is interrupted. -/
structure HandlerEntered (m : Machine) (r : InterruptRecord) (m' : Machine) : Prop where
  isRunning : m'.isRunning = true
  inGuest : m'.processor.inGuest = false
  slot : m'.processor.slot = m.processor.slot
  /-- Execution goes on at the handler. -/
  ip : m'.processor.ip = 2 * r.number
  /-- The frame lies where the stack ended. -/
  sp : m'.processor.sp = m.atExit.processor.sp - UInt32.ofNat (1 + r.extra.length)
  /-- The address to return to is on top, and the first extra word is deepest. -/
  top : m'.top (1 + r.extra.length) = r.resumeIp :: r.extra.reverse

theorem raiseInterrupt_ok {number returnIp : Word} {extra : List Word}
    (host : m.processor.inGuest = false)
    (raised : raiseInterrupt number returnIp extra m = .ok () m') :
    ∃ m₁, pushFrame number (extra ++ [returnIp]) m = .ok () m₁ ∧
      m' = m₁.goto (Interrupt.vector number) := by
  by_cases unknown : Interrupt.last < number
  · rw [raiseInterrupt_of_unknown unknown] at raised
    cases raised
  · rw [raiseInterrupt_eq_of_host host (UInt32.not_lt.mp unknown)] at raised
    cases pushed : pushFrame number (extra ++ [returnIp]) m with
    | ok u m₁ =>
      rw [Action.bind_of_ok pushed] at raised
      cases raised
      exact ⟨m₁, rfl, rfl⟩
    | error e m₁ =>
      rw [Action.bind_of_error pushed] at raised
      cases raised

theorem pushFrame_ok {number : Word} {words : List Word} (few : words.length ≤ Word.count)
    (pushed : pushFrame number words m = .ok () m') : Pushed m words m' := by
  unfold pushFrame EStateM.adaptExcept at pushed
  cases ran : pushAll words m with
  | ok u m₁ =>
    simp only [ran] at pushed
    cases pushed
    exact pushAll_ok few ran
  | error e m₁ =>
    simp only [ran] at pushed
    cases pushed

theorem pushed_of_raiseInterrupt {number returnIp : Word} {extra : List Word}
    (host : m.processor.inGuest = false) (few : extra.length + 1 ≤ Word.count)
    (raised : raiseInterrupt number returnIp extra m = .ok () m') :
    ∃ m₁, Pushed m (extra ++ [returnIp]) m₁ ∧ m' = m₁.goto (Interrupt.vector number) := by
  obtain ⟨m₁, framed, same⟩ := raiseInterrupt_ok host raised
  exact ⟨m₁, pushFrame_ok (by simpa using few) framed, same⟩

/-- In the host a fault that can be delivered is delivered as an interrupt. -/
theorem raiseInterrupt_of_deliverFault {ip : Word} {f : Fault} (host : m.processor.inGuest = false)
    (delivered : deliverFault ip f m = .ok () m') :
    raiseInterrupt (f.exit ip).number (f.exit ip).resumeIp (f.exit ip).extra m = .ok () m' := by
  cases f with
  | guestTrap reason resumeIp extra =>
    rw [show deliverFault ip (.guestTrap reason resumeIp extra) = raiseTrap reason resumeIp extra
      from rfl, raiseTrap_of_host host] at delivered
    cases delivered
  | _ => exact delivered

theorem ok_of_conclude {x : Action FatalError Unit} (h : conclude x m = .ok running m') :
    x m = .ok () m' := by
  unfold conclude at h
  cases ran : x m with
  | ok u m₁ =>
    simp only [ran] at h
    cases h
    rfl
  | error e m₁ =>
    simp only [ran] at h
    cases h

theorem raiseInterrupt_of_step (isRunning : m.isRunning = true)
    (host : m.processor.inGuest = false) (exits : m.exit? = some e)
    (stepped : step m = .ok running m') :
    raiseInterrupt e.number e.resumeIp e.extra m.atExit = .ok () m' := by
  have host' := (sameMode_atExit exits).inGuest.trans host
  rcases exit?_cases exits with ⟨fires, rfl, same⟩ | ⟨quiet, f, rfl, faulted⟩
  · rw [step_of_timer isRunning fires] at stepped
    rw [same]
    exact ok_of_conclude stepped
  · rw [step_of_fault isRunning quiet faulted] at stepped
    exact raiseInterrupt_of_deliverFault host' (ok_of_conclude stepped)

theorem handlerEntered_of_step (isRunning : m.isRunning = true)
    (host : m.processor.inGuest = false) (exits : m.exit? = some e)
    (few : e.extra.length + 2 ≤ Word.count) (stepped : step m = .ok running m') :
    m.HandlerEntered e.hostRecord m' := by
  have host' := (sameMode_atExit exits).inGuest.trans host
  have raised := raiseInterrupt_of_step isRunning host exits stepped
  obtain ⟨m₁, pushed, rfl⟩ := pushed_of_raiseInterrupt host' (by omega) raised
  have length : (e.extra ++ [e.resumeIp]).length = 1 + e.extra.length := by
    simp [Nat.add_comm]
  have top := pushed.top
  have processor := pushed.processor
  rw [length] at top processor
  refine ⟨?_, ?_, ?_, ?_, ?_, ?_⟩
  · obtain ⟨sp, same⟩ := untouched_atExit exits
    have status : m₁.status = m.status := pushed.status.trans same.status
    show decide (m₁.status = .running) = true
    rw [status]
    exact isRunning
  · show m₁.processor.inGuest = false
    rw [processor]
    exact host'
  · show m₁.processor.slot = _
    rw [processor]
    exact (sameMode_atExit exits).slot
  · show e.number * 2 = 2 * e.number
    rw [UInt32.mul_comm]
  · show m₁.processor.sp = _
    rw [processor]
    rfl
  · rw [List.reverse_append] at top
    exact top

/-! ## In a guest -/

/-- What the host comes to that takes over from a guest. -/
structure HostEntered (m : Machine) (slot : Word) (r : InterruptRecord) (m' : Machine) : Prop where
  isRunning : m'.isRunning = true
  host : m'.processor.RunsHost
  /-- Execution goes on where the host was saved. -/
  ip : m'.processor.ip = if slot = hostSlot then r.resumeIp else (m.rowContext hostSlot).ip
  /-- So does everything else in the context, with the frame on the stack. -/
  context : slot ≠ hostSlot → m'.processor.toContext =
    { m.rowContext hostSlot with
      sp := (m.rowContext hostSlot).sp - UInt32.ofNat (2 + r.extra.length) }
  /-- The guest is on top, the reason below it, and the first extra word is deepest. -/
  top : m'.top (2 + r.extra.length) = slot :: r.number :: r.extra.reverse
  /-- The guest is saved to go on where it is to, unless the frame lies over its row. -/
  resume : (∀ j < 2 + r.extra.length, ¬m.InRow slot (m'.processor.sp + UInt32.ofNat j)) →
    (m'.rowContext slot).ip = r.resumeIp

/-- A guest that was left is saved in its row, unless the frame lies over it. -/
theorem rowContext_of_leaveFor {number : Word} {reason : TrapReason} {resumeIp : Word}
    {extra : List Word} (guest : m.processor.guest = some slot)
    (few : extra.length + 2 ≤ Word.count)
    (left : leaveFor number reason resumeIp extra m = .ok () m')
    (apart : ∀ j < 2 + extra.length, ¬m.InRow slot (m'.processor.sp + UInt32.ofNat j)) :
    m'.rowContext slot = { m.processor.toContext with ip := resumeIp } := by
  obtain ⟨-, rowFits, -, rows, framed⟩ := (leaveFor_ends_of_guest guest).ok left
  have fits : (m.goto resumeIp).RowFits slot := rowFits
  have length : (extra ++ [reason.number, slot]).length = 2 + extra.length := by
    simp [Nat.add_comm]
  have pushed := pushFrame_ok (by omega) framed
  have same : m'.rowContext slot = ((m.goto resumeIp).withSaved slot).rowContext slot := by
    refine rowContext_congr (by rw [pushed.processor]; rfl) fits fun a inRow => ?_
    refine Memory.get_congr (pushed.memory a fun j small outside => ?_)
    rw [length] at small
    exact apart j small (outside ▸ inRow)
  rw [same]
  exact rowContext_withSaved fits

theorem hostEntered_of_step (isRunning : m.isRunning = true)
    (guest : m.processor.guest = some slot) (exits : m.exit? = some e)
    (few : e.extra.length + 2 ≤ Word.count) (stepped : step m = .ok running m') :
    m.HostEntered slot e.guestRecord m' := by
  have guest' := (guest_atExit exits).trans guest
  have left := leaveFor_of_step isRunning guest exits stepped
  obtain ⟨-, rowFits, hostRowFits, rows, framed⟩ := (leaveFor_ends_of_guest guest').ok left
  have fits : (m.atExit.goto e.resumeIp).RowFits slot := rowFits
  have hostFits : (m.atExit.goto e.resumeIp).RowFits hostSlot := hostRowFits
  have table := guestTable_atExit exits
  have memory := memory_atExit exits
  have length : (e.extra ++ [e.reason.number, slot]).length = 2 + e.extra.length := by
    simp [Nat.add_comm]
  have pushed := pushFrame_ok (by omega) framed
  have top := pushed.top
  have processor := pushed.processor
  rw [length] at top processor
  have rows_eq (s : Word) : (m.atExit.goto e.resumeIp).rowContext s = m.rowContext s := by
    unfold rowContext
    rw [rowStart_congr (m := m) (by exact table)]
    show Context.ofRow (m.atExit.memory.row _ _) = _
    rw [memory]
  have host_eq : slot ≠ hostSlot →
      ((m.atExit.goto e.resumeIp).withSaved slot).rowContext hostSlot = m.rowContext hostSlot := by
    intro other
    rw [rowContext_withSaved_of_ne (Ne.symm other) hostFits fits, rows_eq]
  refine ⟨?_, ?_, ?_, ?_, ?_, ?_⟩
  · obtain ⟨sp, same⟩ := untouched_atExit exits
    have status : m'.status = m.status := pushed.status.trans same.status
    show decide (m'.status = .running) = true
    rw [status]
    exact isRunning
  · rw [processor]
    exact ⟨rfl, rfl⟩
  · rw [processor]
    show (((m.atExit.goto e.resumeIp).withSaved slot).rowContext hostSlot).ip = _
    split
    next same =>
      subst same
      rw [rowContext_withSaved hostFits]
      rfl
    next other => rw [host_eq other]
  · intro other
    rw [processor, host_eq other]
    rfl
  · rw [List.reverse_append] at top
    exact top
  · intro apart
    rw [rowContext_of_leaveFor guest' few left fun j small =>
      mt (inRow_congr table slot _).mp (apart j small)]
    rfl

/-! ## The record -/

/-- The words for a handler are few enough not to overwrite each other. -/
theorem few_extra_of_host {ip next : Word} {r : InterruptRecord}
    (told : c.hostRecord? ip next = some r) : r.extra.length + 2 ≤ Word.count := by
  cases c <;> simp only [Cause.hostRecord?, Option.some.injEq, reduceCtorEq] at told <;>
    subst told <;> simp [Word.count]

theorem few_extra_of_guest {ip next : Word} {r : InterruptRecord}
    (told : c.guestRecord? ip next = some r) : r.extra.length + 2 ≤ Word.count := by
  cases c <;> simp only [Cause.guestRecord?, Option.some.injEq, reduceCtorEq] at told <;>
    subst told <;> simp [Word.count]

/-- A step that does not stop the machine completes its instruction unless it is interrupted, and
then the handler finds the record of the cause. -/
theorem interrupted_step (isRunning : m.isRunning = true) (stepped : step m = .ok running m') :
    ((∃ c, m.Interrupted c) ↔
        ¬(m.timerFires = false ∧ executeAt m.processor.ip m.begun = .ok () m')) ∧
      ∀ c, m.Interrupted c →
        (m.processor.inGuest = false → ∃ r,
          c.hostRecord? m.processor.ip (m.nextOffset m.processor.ip) = some r ∧
            m.HandlerEntered r m') ∧
        ∀ slot, m.processor.guest = some slot → ∃ r,
          c.guestRecord? m.processor.ip (m.nextOffset m.processor.ip) = some r ∧
            m.HostEntered slot r m' := by
  refine ⟨⟨?_, ?_⟩, ?_⟩
  · intro ⟨c, interrupted⟩ ⟨quiet, executed⟩
    obtain ⟨e, exits, -⟩ := interrupted.exit? isRunning stepped
    simp [exit?, quiet, Action.outcome, executed] at exits
  · intro incomplete
    rcases completes_or_exit isRunning stepped with complete | ⟨e, exits⟩
    · exact absurd complete incomplete
    · exact interrupted_of_exit isRunning stepped exits
  · intro c interrupted
    obtain ⟨e, exits, inGuest, inHost⟩ := interrupted.exit? isRunning stepped
    constructor
    · intro host
      have told := inHost host
      exact ⟨_, told,
        handlerEntered_of_step isRunning host exits (few_extra_of_host told) stepped⟩
    · intro slot guest
      have told := inGuest (Processor.inGuest_of_guest guest)
      exact ⟨_, told,
        hostEntered_of_step isRunning guest exits (few_extra_of_guest told) stepped⟩

/-- The sample guest when it is about to halt. -/
def stoppingGuest : Machine :=
  { sampleGuest with processor := { sampleGuest.processor with ip := 1 } }

/-- A host that is about to call a handler. -/
def callingHost : Machine :=
  { pushingHost with
    memory := Memory.empty.place 0 [Instruction.encode ⟨.int, 0, [⟨.immediate, Fin.last 31⟩]⟩, 9] }

theorem interrupted_step_samples :
    (∃ m', step stoppingGuest = .ok true m' ∧ stoppingGuest.HostEntered 1 ⟨8, 2, []⟩ m') ∧
      ∃ m', step callingHost = .ok true m' ∧ callingHost.HandlerEntered ⟨6, 2, [9]⟩ m' := by
  constructor
  · have stepped : step.outcome stoppingGuest = .ok true := by decide +kernel
    have halts : (prepare 1).outcome stoppingGuest.ready = .ok ⟨.halt, 1, 2, []⟩ := by
      decide +kernel
    have interrupted : stoppingGuest.Interrupted .halt :=
      .instruction (by decide) (.halt halts rfl (by decide))
    have ran := Action.eq_ok_of_outcome stepped
    obtain ⟨-, inGuest⟩ := (interrupted_step (by decide) ran).2 .halt interrupted
    obtain ⟨r, told, entered⟩ := inGuest 1 rfl
    have record : Cause.guestRecord? 1 (stoppingGuest.nextOffset 1) .halt = some ⟨8, 2, []⟩ := by
      decide +kernel
    obtain rfl := Option.some.inj (record.symm.trans told)
    exact ⟨_, ran, entered⟩
  · have stepped : step.outcome callingHost = .ok true := by decide +kernel
    have calls : (prepare 0).outcome callingHost.ready = .ok ⟨.int, 0, 2, [⟨9, none⟩]⟩ := by
      decide +kernel
    have interrupted : callingHost.Interrupted (.software 9) :=
      .instruction (by decide) (.software calls rfl)
    have ran := Action.eq_ok_of_outcome stepped
    obtain ⟨inHost, -⟩ := (interrupted_step (by decide) ran).2 (.software 9) interrupted
    obtain ⟨r, told, entered⟩ := inHost rfl
    have record : Cause.hostRecord? 0 (callingHost.nextOffset 0) (.software 9) =
        some ⟨6, 2, [9]⟩ := by decide +kernel
    obtain rfl := Option.some.inj (record.symm.trans told)
    exact ⟨_, ran, entered⟩

end WordMachine.Machine
