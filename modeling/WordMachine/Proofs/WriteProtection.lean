import WordMachine.Proofs.Step

/-!
# Write protection

With a segment table that was read, a step changes only cells of three kinds.

* Cells of the segments selected for data, for the stack and for the registers
  when the step starts.
* The row of the guest table that the step saves, when a guest is entered or
  left.
* Cells of the stack segment of the host, as the selector read back from row
  zero picks it, when a guest is left.

The proof follows the parts of a step, and says of each what it leaves alone.
Instructions and the frames pushed for faults are local changes, so the first
kind covers them.  Saving a row is the second kind, and the frame of a guest
that was left the third.
-/

namespace WordMachine.Machine

variable {m m' : Machine} {slot a : Word} {table : List Segment}

/-! ## Leaving a guest -/

theorem cell?_of_left (h : m.Left slot m') (outside : ¬m.InRow slot a) :
    m'.memory.cell? a = m.memory.cell? a := by
  obtain ⟨ip, rows, host, fits, -⟩ := h
  exact cell?_withSaved (m := m.goto ip) fits outside

theorem cell?_of_brokenOff (h : m.BrokenOff slot m') (outside : ¬m.InRow slot a) :
    m'.memory.cell? a = m.memory.cell? a := by
  cases h with
  | unsaved ip guests => rfl
  | saved ip guests fits => exact cell?_withSaved (m := m.goto ip) fits outside

/-- Whether a cell lies in the stack segment of the host, with the stack selector loaded from row
zero of the guest table that was read last. -/
def InHostStack (m : Machine) (table : List Segment) (a : Word) : Prop :=
  m.processor.RunsHost ∧
    ∃ rows host, m.guests.snapshot = some rows ∧ rows[hostSlot.toNat]? = some host ∧
      m.processor.ss = host.ss ∧ Covers table host.ss .stack a

/-- Leaving a guest writes its row and the stack of the host. -/
theorem leaveFor_writes (number : Word) (reason : TrapReason) (resumeIp : Word) (extra : List Word)
    (segmented : m.processor.isSegmented = true) (kept : m.segments.snapshot = some table)
    (guest : m.processor.guest = some slot) (outside : ¬m.InRow slot a) :
    (leaveFor number reason resumeIp extra).Ends m
      (fun _ m' => m'.memory.cell? a ≠ m.memory.cell? a → m'.InHostStack table a)
      (fun _ m' => m'.memory.cell? a ≠ m.memory.cell? a → m'.InHostStack table a) := by
  refine leaveFor_ends guest (fun m₁ left => ?_)
    fun e m' broken changed => absurd (cell?_of_brokenOff broken outside) changed
  have saved := cell?_of_left left outside
  obtain ⟨ip, rows, host, fits, found⟩ := left
  have settled : (((m.goto ip).withSaved slot).toHost rows host).Settled := by
    intro _
    simp [toHost, withSaved, goto, TableCache.isStale, kept]
  -- The frame is pushed with the selectors of the host, over the segment table kept before.
  have pushed (m' : Machine)
      (change : StackChange (((m.goto ip).withSaved slot).toHost rows host) m')
      (changed : m'.memory.cell? a ≠ m.memory.cell? a) : m'.InHostStack table a := by
    have runsHost : m'.processor.RunsHost := change.sameMode.runsHost ⟨rfl, rfl⟩
    have selector : m'.processor.ss = host.ss := by
      rw [change.processor]
      rfl
    refine ⟨runsHost, rows, host, by rw [change.guests]; rfl, found, selector, ?_⟩
    have reached : (((m.goto ip).withSaved slot).toHost rows host).reaches .stack a = true := by
      by_contra missed
      exact changed ((change.stack a (by simpa using missed)).trans saved)
    exact (reaches_iff_covers (m := ((m.goto ip).withSaved slot).toHost rows host) segmented kept
      .stack a).mp reached
  exact (pushFrame_ends settled number _).imp (fun _ m' h => pushed m' h) fun _ m' h => pushed m' h.1

/-! ## Steps of the host -/

theorem memory_of_effect {i : ResolvedInstruction} (h : Effect i m m') :
    m'.memory = m.memory ∨ i.opcode = .vmResume ∧ ∃ o, performResume i m = .ok o m' := by
  cases h with
  | resume o m' opcode host resumed => exact .inr ⟨opcode, o, resumed⟩
  | control r => cases r <;> exact .inl rfl
  | _ => exact .inl rfl

/-- An instruction of the host writes what the host can write and, if it enters a guest, the row of
the host.  A fault leaves a local change behind, and perhaps the guest table read. -/
theorem executeAt_writes_of_host (settled : m.Settled) (ip : Word) (unwritable : ¬m.Writable a)
    (outside : ∀ i, (prepare ip).outcome m = .ok i → i.opcode = .vmResume → ¬m.InRow hostSlot a) :
    (executeAt ip).Ends m (fun _ m' => m'.memory.cell? a = m.memory.cell? a)
      (fun e m' => m'.memory.cell? a = m.memory.cell? a ∧
        (e.IsFault → ∃ m₁ guests, LocalChange m m₁ ∧ m' = { m₁ with guests })) := by
  refine (executeAt_ends settled ip).imp ?_ ?_
  · rintro _ _ ⟨i, m₁, m₂, ip', prepared, change, effect, rfl⟩
    show m₂.memory.cell? a = m.memory.cell? a
    rw [← change.memory a unwritable]
    rcases memory_of_effect effect with same | ⟨opcode, o, resumed⟩
    · rw [same]
    · exact (performResume_ends m₁ i).ok resumed a
        (mt (change.inRow hostSlot a).mp (outside i prepared opcode))
  · rintro e m' (⟨change, -⟩ | ⟨i, m₁, prepared, opcode, -, change, failed⟩)
    · exact ⟨change.memory a unwritable, fun _ => ⟨m', m'.guests, change, rfl⟩⟩
    rw [← change.memory a unwritable]
    rcases (performResume_ends m₁ i).error failed with ⟨-, guests, rfl⟩ | ⟨⟨e', rfl⟩, same⟩
    · exact ⟨rfl, fun _ => ⟨m₁, guests, change, rfl⟩⟩
    · refine ⟨same a (mt (change.inRow hostSlot a).mp (outside i prepared opcode)), ?_⟩
      rintro ⟨f, fault⟩
      cases fault

/-- A step of the host writes what the host can write and, if it enters a guest, the row of the
host. -/
theorem host_step_writes (settled : m.Settled) (running : m.isRunning = true)
    (host : m.processor.inGuest = false) (unwritable : ¬m.Writable a)
    (outside : m.Resumes → ¬m.InRow hostSlot a) :
    (step.after m).memory.cell? a = m.memory.cell? a := by
  have settled₀ := (settled_begun m).mpr settled
  have host₀ := (inGuest_begun m).trans host
  have unwritable₀ : ¬m.begun.Writable a := mt (writable_begun m a).mp unwritable
  cases fires : m.timerFires with
  | true =>
    rw [Action.after_congr (step_of_timer running fires)]
    have raises := raiseInterrupt_of_host host₀ settled₀ Interrupt.timer m.processor.ip []
    exact after_conclude (raises.imp (fun _ m' h => h.memory a unwritable₀)
      fun _ m' h => h.memory a unwritable₀) fun _ h => h
  | false =>
    have ends := executeAt_writes_of_host settled₀ m.processor.ip unwritable₀
      fun i prepared opcode => mt (inRow_begun m hostSlot a).mp
        (outside ⟨running, host, fires, i, prepared, opcode⟩)
    cases executed : executeAt m.processor.ip m.begun with
    | ok u m' =>
      rw [Action.after_of_ok (step_of_ok running fires executed)]
      exact ends.ok executed
    | error e m' =>
      obtain ⟨same, faulted⟩ := ends.error executed
      cases e with
      | fatal e =>
        rw [Action.after_of_error (step_of_fatal running fires executed)]
        exact same
      | fault f =>
        -- The frame is pushed where the instruction broke off, with the same segments in reach.
        obtain ⟨m₁, guests, change, rfl⟩ := faulted ⟨f, rfl⟩
        have settled₁ : ({ m₁ with guests } : Machine).Settled := change.settled settled₀
        have host₁ : ({ m₁ with guests } : Machine).processor.inGuest = false :=
          change.inGuest.trans host₀
        have unwritable₁ : ¬({ m₁ with guests } : Machine).Writable a :=
          mt (change.writable a).mp unwritable₀
        have delivers := deliverFault_of_host host₁ settled₁ m.processor.ip f
        rw [Action.after_congr (step_of_fault running fires executed)]
        refine after_conclude (R := fun m' => m'.memory.cell? a = m.memory.cell? a)
          (delivers.imp (fun _ m' h => ?_) fun _ m' h => ?_) fun _ h => h
        · exact (h.memory a unwritable₁).trans same
        · exact (h.memory a unwritable₁).trans same

/-! ## Steps -/

/-- With a segment table that was read, each cell a step changes lies in a segment the running
program may write, in the row of the guest table that the step saves, or, when a guest is left, in
the stack segment of the host. -/
theorem written_of_step (segmented : m.processor.isSegmented = true)
    (kept : m.segments.snapshot = some table)
    (written : (step.after m).memory.cell? a ≠ m.memory.cell? a) :
    (∃ space, space ≠ .code ∧ Covers table (m.processor.selector space) space.kind a) ∨
      m.Resumes ∧ m.InRow hostSlot a ∨ m.Exits ∧ m.InRow m.processor.slot a ∨
      m.Exits ∧ (step.after m).InHostStack table a := by
  by_contra! h
  obtain ⟨uncovered, outsideHost, outside, unstacked⟩ := h
  have settled : m.Settled := fun _ => by simp [TableCache.isStale, kept]
  have unwritable : ¬m.Writable a := by
    rintro ⟨space, notCode, reached⟩
    exact uncovered space notCode ((reaches_iff_covers segmented kept space a).mp reached)
  cases running : m.isRunning with
  | false =>
    refine written ?_
    rw [Action.after_of_ok (step_of_not_isRunning running)]
  | true =>
    cases inside : m.processor.inGuest with
    | false => exact written (host_step_writes settled running inside unwritable outsideHost)
    | true =>
      have guest := Processor.guest_of_inGuest inside
      have settled₀ := (settled_begun m).mpr settled
      have unwritable₀ : ¬m.begun.Writable a := mt (writable_begun m a).mp unwritable
      cases step_of_guest running guest with
      | unreadable e unsettled => exact unsettled settled
      | stays m₀ m' settles change eq =>
        obtain rfl := settles.eq settled₀
        rw [Action.after_of_ok eq] at written
        exact written (change.memory a unwritable₀)
      | exits m₀ m₁ number reason resumeIp extra exits settles change eq =>
        obtain rfl := settles.eq settled₀
        have segmented₁ : m₁.processor.isSegmented = true := by
          rw [change.processor, processor_begun]
          exact segmented
        have kept₁ : m₁.segments.snapshot = some table := by
          rw [change.segments]
          exact kept
        have guest₁ := (SameMode.of_begun .refl change).guest.trans guest
        have outside₁ : ¬m₁.InRow m.processor.slot a := by
          rw [change.inRow, inRow_begun]
          exact outside exits
        have leaves := leaveFor_writes number reason resumeIp extra segmented₁ kept₁ guest₁ outside₁
        rw [Action.after_congr eq] at written unstacked
        refine unstacked exits (after_conclude (R := fun m' =>
          m'.memory.cell? a ≠ m₁.memory.cell? a → m'.InHostStack table a) leaves
          (fun _ h => h) ?_)
        rwa [change.memory a unwritable₀]

theorem written_of_step_pushingHost :
    (step.after pushingHost).memory.cell? 0x2FF ≠ pushingHost.memory.cell? 0x2FF ∧
      ((∃ space, space ≠ .code ∧
          Covers sampleSegments (pushingHost.processor.selector space) space.kind 0x2FF) ∨
        pushingHost.Resumes ∧ pushingHost.InRow hostSlot 0x2FF ∨
        pushingHost.Exits ∧ pushingHost.InRow pushingHost.processor.slot 0x2FF ∨
        pushingHost.Exits ∧ (step.after pushingHost).InHostStack sampleSegments 0x2FF) :=
  have written : (step.after pushingHost).memory.cell? 0x2FF ≠ pushingHost.memory.cell? 0x2FF := by
    decide +kernel
  ⟨written, written_of_step rfl rfl written⟩

end WordMachine.Machine
