import WordMachine.Proofs.Guest

/-!
# Leaving a guest and delivering faults

A guest is left in three stages.  Its context is saved in its row of the guest
table, the context of the host is read back from row zero, and a frame is
pushed on the stack of the host.  `leaveFor_ends` follows the stages.  A failure
in the first two leaves the machine `BrokenOff`, still in the guest.  After them
the machine has `Left`, and what follows is a local change of that machine.

A fault in a guest always leaves it (`deliverFault_of_guest`).  A fault in the
host pushes a frame and jumps, which is a local change (`deliverFault_of_host`).
-/

namespace WordMachine.Machine

variable {m m' : Machine} {slot number : Word}

/-! ## Leaving -/

/-- What a guest that was left comes to, before the frame is pushed. -/
inductive Left (m : Machine) (slot : Word) : Machine → Prop
  /-- The guest is saved, and the host goes on with the context in its row. -/
  | intro (ip : Word) (rows : List Context) (host : Context)
      (fits : m.rowStart slot + Context.rowWidth ≤ Word.count)
      (found : rows[hostSlot.toNat]? = some host) :
      Left m slot (((m.goto ip).withSaved slot).toHost rows host)

/-- What a guest that could not be left comes to. -/
inductive BrokenOff (m : Machine) (slot : Word) : Machine → Prop
  /-- It was not even saved. -/
  | unsaved (ip : Word) (guests : TableCache Context) : BrokenOff m slot { m.goto ip with guests }
  /-- It was saved, but the context of the host was not found. -/
  | saved (ip : Word) (guests : TableCache Context)
      (fits : m.rowStart slot + Context.rowWidth ≤ Word.count) :
      BrokenOff m slot { (m.goto ip).withSaved slot with guests }

theorem leaveFor_eq {reason : TrapReason} {resumeIp : Word} {extra : List Word}
    (guest : m.processor.guest = some slot) :
    leaveFor number reason resumeIp extra m = (do
      saveSlot slot
      leaveGuest
      pushFrame number (extra ++ [reason.number, slot]) : Action FatalError Unit)
      (m.goto resumeIp) := by
  have reads : (processorState : Action FatalError Processor) m = .ok m.processor m := rfl
  refine (Action.bind_of_ok reads _).trans ?_
  rw [if_pos (Processor.inGuest_of_guest guest), Processor.slot_of_guest guest]
  rfl

/-- In the host there is nothing to leave. -/
theorem leaveFor_of_host (host : m.processor.inGuest = false) (number : Word) (reason : TrapReason)
    (resumeIp : Word) (extra : List Word) :
    leaveFor number reason resumeIp extra m = .error .notInGuest m := by
  have reads : (processorState : Action FatalError Processor) m = .ok m.processor m := rfl
  refine (Action.bind_of_ok reads _).trans ?_
  rw [if_neg (by simp [host])]
  rfl

/-- How leaving a guest ends, with what `Q` and `E` say of the frame. -/
theorem leaveFor_ends {reason : TrapReason} {resumeIp : Word} {extra : List Word}
    {Q : Unit → Machine → Prop} {E : FatalError → Machine → Prop}
    (guest : m.processor.guest = some slot)
    (frame : ∀ m₁, m.Left slot m₁ → (pushFrame number (extra ++ [reason.number, slot])).Ends m₁ Q E)
    (broken : ∀ e m', m.BrokenOff slot m' → E e m') :
    (leaveFor number reason resumeIp extra).Ends m Q E := by
  unfold Action.Ends
  rw [leaveFor_eq guest]
  refine Action.Ends.bind (saveSlot_ends (m.goto resumeIp) slot) ?_ ?_
  · rintro _ _ ⟨fits, rfl⟩
    refine .bind (leaveGuest_ends ((m.goto resumeIp).withSaved slot)) ?_ ?_
    · rintro _ _ ⟨rows, host, found, rfl⟩
      exact frame _ (.intro resumeIp rows host fits found)
    · rintro e _ ⟨guests, rfl⟩
      exact broken e _ (.saved resumeIp guests fits)
  · rintro e _ ⟨guests, rfl⟩
    exact broken e _ (.unsaved resumeIp guests)

/-! ## Frames -/

/-- A local change that writes nothing but the stack. -/
structure StackChange (m m' : Machine) : Prop extends LocalChange m m' where
  /-- Only cells of the stack change. -/
  stack : ∀ a, m.reaches .stack a = false → m'.memory.cell? a = m.memory.cell? a

theorem StackChange.refl (m : Machine) : StackChange m m := ⟨.refl m, fun _ _ => rfl⟩

theorem StackChange.trans {m₁ m₂ : Machine} (h : StackChange m m₁) (h₁ : StackChange m₁ m₂) :
    StackChange m m₂ where
  toLocalChange := h.toLocalChange.trans h₁.toLocalChange
  stack a outside := by
    rw [h₁.stack a (by rwa [h.reaches]), h.stack a outside]

theorem pushAll_ends (settled : m.Settled) (words : List Word) :
    (pushAll words).Ends m (fun _ m' => StackChange m m') (fun e m' => StackChange m m' ∧
      ∃ offset, e = .fault (.segmentViolation .stack offset) ∧
        m.reaches .stack offset = false) := by
  induction words generalizing m with
  | nil => exact .pure (.refl m)
  | cons word words ih =>
    have first := push_eq settled word
    split at first
    next reached =>
      have change : StackChange m
          ((m.setCell (m.processor.sp - 1) word).withSp (m.processor.sp - 1)) := by
        refine ⟨(LocalChange.setCell (writable_of_reaches_stack reached) word).trans
          (.withSp _ _), fun a outside => Memory.cell?_set_of_ne _ _ ?_⟩
        rintro rfl
        rw [reached] at outside
        cases outside
      unfold Action.Ends
      rw [pushAll, Action.bind_of_ok first]
      refine (ih (change.settled settled)).imp (fun _ _ h => change.trans h) ?_
      rintro e m' ⟨rest, offset, rfl, missed⟩
      exact ⟨change.trans rest, offset, rfl, by rwa [change.reaches] at missed⟩
    next missed =>
      exact .of_error (Action.bind_of_error first _) ⟨.refl m, _, rfl, by simpa using missed⟩

/-- Pushing a frame is a local change, and fails only with a double fault on the stack. -/
theorem pushFrame_ends (settled : m.Settled) (number : Word) (words : List Word) :
    (pushFrame number words).Ends m (fun _ m' => StackChange m m') (fun e m' => StackChange m m' ∧
      ∃ offset, e = .doubleFault number (.segmentViolation .stack offset) ∧
        m.reaches .stack offset = false) := by
  refine Action.Ends.adapt ((pushAll_ends settled words).imp (fun _ _ h => h) ?_)
  rintro e m' ⟨change, offset, rfl, missed⟩
  exact ⟨change, offset, rfl, missed⟩

/-- Pushing a frame before the segment table was read. -/
theorem pushFrame_settles (m : Machine) (number : Word) (words : List Word) :
    (pushFrame number words).Ends m (fun _ m' => ∃ m₀, m.Settles m₀ ∧ LocalChange m₀ m')
      (fun _ m' => ∃ m₀, m.Settles m₀ ∧ LocalChange m₀ m') := by
  cases words with
  | nil => exact .pure ⟨m, .refl, .refl m⟩
  | cons word words =>
    obtain ⟨-, e, -, failed⟩ | ⟨m₀, settles, settled, same⟩ := settle_cases m
    · have pushes : push word m = .error (.fatal e) m :=
        Action.bind_of_error (failed .stack (m.processor.sp - 1)) _
      exact Action.Ends.adapt
        (.of_error (Action.bind_of_error pushes _) ⟨m, .refl, .refl m⟩)
    · have pushes : push word m = push word m₀ := by
        have found := same .stack (m.processor.sp - 1)
        cases settles <;> exact Action.bind_congr found _
      have all : pushFrame number (word :: words) m = pushFrame number (word :: words) m₀ :=
        Action.adapt_congr (Action.bind_congr pushes _)
      unfold Action.Ends
      rw [all]
      exact (pushFrame_ends settled number _).imp (fun _ _ h => ⟨m₀, settles, h.toLocalChange⟩)
        fun _ _ h => ⟨m₀, settles, h.1.toLocalChange⟩

/-! ## Delivery -/

/-- A fault is delivered as a trap or as an interrupt that has a number. -/
theorem deliverFault_cases (ip : Word) (f : Fault) :
    (∃ reason resumeIp extra, f = .guestTrap reason resumeIp extra ∧
        deliverFault ip f = raiseTrap reason resumeIp extra) ∨
      ∃ number returnIp extra, number ≤ Interrupt.last ∧
        deliverFault ip f = raiseInterrupt number returnIp extra := by
  cases f with
  | guestTrap reason resumeIp extra => exact .inl ⟨reason, resumeIp, extra, rfl, rfl⟩
  | segmentViolation kind offset =>
    exact .inr ⟨Interrupt.segmentViolation, ip, [offset, kind.number], by decide, rfl⟩
  | invalidInstruction e => exact .inr ⟨Interrupt.invalidInstruction, ip, [], by decide, rfl⟩
  | invalidGuestSlot slot => exact .inr ⟨Interrupt.invalidInstruction, ip, [], by decide, rfl⟩
  | divideByZero => exact .inr ⟨Interrupt.divideByZero, ip, [], by decide, rfl⟩
  | privilegeViolation required current =>
    exact .inr ⟨Interrupt.privilegeViolation, ip, [], by decide, rfl⟩
  | softwareInterrupt number returnIp =>
    exact .inr ⟨Interrupt.software, returnIp, [number], by decide, rfl⟩

theorem raiseInterrupt_of_guest (guest : m.processor.guest = some slot)
    (known : number ≤ Interrupt.last) (returnIp : Word) (extra : List Word) :
    raiseInterrupt number returnIp extra m =
      leaveFor number (.ofInterrupt number) returnIp extra m := by
  unfold raiseInterrupt
  rw [if_neg (UInt32.not_lt.mpr known)]
  show (if m.processor.inGuest then _ else _ : Action FatalError Unit) m = _
  rw [if_pos (Processor.inGuest_of_guest guest)]

theorem raiseInterrupt_of_unknown (unknown : Interrupt.last < number) (returnIp : Word)
    (extra : List Word) :
    raiseInterrupt number returnIp extra m = .error (.interruptOutOfRange number) m := by
  unfold raiseInterrupt
  rw [if_pos unknown]
  rfl

/-- In the host an interrupt pushes its frame and jumps. -/
theorem raiseInterrupt_eq_of_host (host : m.processor.inGuest = false)
    (known : number ≤ Interrupt.last) (returnIp : Word) (extra : List Word) :
    raiseInterrupt number returnIp extra m = (do
      pushFrame number (extra ++ [returnIp])
      modifyProcessor fun p => { p with ip := Interrupt.vector number } :
        Action FatalError Unit) m := by
  unfold raiseInterrupt
  rw [if_neg (UInt32.not_lt.mpr known)]
  show (if m.processor.inGuest then _ else _ : Action FatalError Unit) m = _
  rw [if_neg (by simp [host])]

/-- In the host an interrupt comes to what pushing its frame comes to, if there is one. -/
theorem raiseInterrupt_ends_of_host {Q : Machine → Prop} {E : FatalError → Machine → Prop}
    (host : m.processor.inGuest = false) {returnIp : Word} {extra : List Word}
    (outOfRange : Interrupt.last < number → E (.interruptOutOfRange number) m)
    (frame : (pushFrame number (extra ++ [returnIp])).Ends m
      (fun _ m' => Q (m'.goto (Interrupt.vector number))) E) :
    (raiseInterrupt number returnIp extra).Ends m (fun _ => Q) E := by
  by_cases unknown : Interrupt.last < number
  · exact .of_error (raiseInterrupt_of_unknown unknown returnIp extra) (outOfRange unknown)
  · unfold Action.Ends
    rw [raiseInterrupt_eq_of_host host (UInt32.not_lt.mp unknown)]
    exact Action.Ends.bind frame (fun _ _ reached => reached) fun _ _ failed => failed

/-- In a guest every fault leaves the guest. -/
theorem deliverFault_of_guest (guest : m.processor.guest = some slot) (ip : Word) (f : Fault) :
    ∃ number reason resumeIp extra,
      deliverFault ip f m = leaveFor number reason resumeIp extra m := by
  obtain ⟨reason, resumeIp, extra, -, eq⟩ | ⟨number, returnIp, extra, known, eq⟩ :=
    deliverFault_cases ip f
  · exact ⟨Interrupt.guestTrap, reason, resumeIp, extra, congrFun eq m⟩
  · refine ⟨number, .ofInterrupt number, returnIp, extra, ?_⟩
    rw [eq, raiseInterrupt_of_guest guest known]

theorem raiseInterrupt_of_host (host : m.processor.inGuest = false) (settled : m.Settled)
    (number returnIp : Word) (extra : List Word) :
    (raiseInterrupt number returnIp extra).Ends m (fun _ m' => LocalChange m m')
      (fun _ m' => LocalChange m m') := by
  refine raiseInterrupt_ends_of_host host (fun _ => .refl m) ?_
  exact (pushFrame_ends settled number _).imp
    (fun _ m₁ pushed => pushed.toLocalChange.trans (.goto m₁ _)) fun _ _ h => h.1.toLocalChange

theorem raiseTrap_of_host (host : m.processor.inGuest = false) (reason : TrapReason)
    (resumeIp : Word) (extra : List Word) :
    raiseTrap reason resumeIp extra m = .error .notInGuest m :=
  leaveFor_of_host host _ reason resumeIp extra

/-- In the host a fault pushes a frame and jumps. -/
theorem deliverFault_of_host (host : m.processor.inGuest = false) (settled : m.Settled) (ip : Word)
    (f : Fault) :
    (deliverFault ip f).Ends m (fun _ m' => LocalChange m m') (fun _ m' => LocalChange m m') := by
  obtain ⟨reason, resumeIp, extra, -, eq⟩ | ⟨number, returnIp, extra, -, eq⟩ :=
    deliverFault_cases ip f
  · rw [eq]
    exact .of_error (raiseTrap_of_host host reason resumeIp extra) (.refl m)
  · rw [eq]
    exact raiseInterrupt_of_host host settled number returnIp extra

end WordMachine.Machine
