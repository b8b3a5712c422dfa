import WordMachine.Proofs.Step
import WordMachine.Proofs.Tables

/-!
# A confined guest cannot stop the machine

A guest is `Confined` if the machine has read both tables, the guest has a row
of its own, and no segment it may write reaches the words of the guest table.
Then whatever it executes, it can always be left.  Its row has addresses, and
saving it changes no other row, so that the table can be read again and still
begins with the row of the host (`Memory.guestTable_overwrite`).

A step of a confined guest leaves it confined, or leaves it for the host, or
ends with a double fault, because the stack of the host has no room for the
frame (`confined_step`).  So this holds for runs of any length
(`confined_run`).
-/

namespace WordMachine.Machine

variable {m m' : Machine} {slot : Word} {rows : List Context}

/-- A guest that runs with both tables read, in a row of its own, and with the guest table out of
its reach. -/
structure Confined (m : Machine) (slot : Word) (rows : List Context) : Prop where
  running : m.isRunning = true
  guest : m.processor.guest = some slot
  /-- Its row is not that of the host. -/
  notHost : slot ≠ hostSlot
  /-- A segment table is installed. -/
  segmented : m.processor.isSegmented = true
  /-- The segment table was read. -/
  segmentsKept : m.segments.isStale = false
  /-- The guest table was read. -/
  guestsKept : m.guests.snapshot = some rows
  /-- The guest table is as it was read. -/
  guestTable : m.memory.guestTable m.processor.guestTable = .ok rows
  /-- The guest has a row. -/
  known : slot.toNat < rows.length
  /-- The guest cannot write the words of the guest table, nor those that end it. -/
  apart : ∀ a, m.Writable a → ¬(m.processor.guestTable.toNat ≤ a.toNat ∧
    a.toNat < m.processor.guestTable.toNat + Context.rowWidth * (rows.length + 1))

namespace Confined

theorem settled (h : Confined m slot rows) : m.Settled := fun _ => h.segmentsKept

theorem slot_pos (h : Confined m slot rows) : 0 < slot.toNat := by
  have notHost := h.notHost
  rw [Nat.pos_iff_ne_zero]
  intro zero
  exact notHost (UInt32.toNat_inj.mp zero)

theorem current (h : Confined m slot rows) : m.GuestsCurrent := by
  intro rows' _ kept
  obtain rfl : rows = rows' := Option.some.inj (h.guestsKept.symm.trans kept)
  exact h.guestTable

/-- What the guest does by itself leaves it confined. -/
theorem of_change (h : Confined m slot rows) (change : LocalChange m m') :
    Confined m' slot rows where
  running := by
    rw [isRunning, change.status]
    exact h.running
  guest := by rw [change.guest, h.guest]
  notHost := h.notHost
  segmented := by
    rw [change.processor]
    exact h.segmented
  segmentsKept := by rw [change.segments, h.segmentsKept]
  guestsKept := by rw [change.guests, h.guestsKept]
  guestTable := by
    rw [change.processor]
    refine Memory.guestTable_congr h.guestTable fun a low high => ?_
    exact Memory.get_congr (change.memory a fun writable => h.apart a writable ⟨low, high⟩).symm
  known := h.known
  apart a writable := by
    rw [change.processor]
    exact h.apart a ((change.writable a).mp writable)

theorem begun (h : Confined m slot rows) : Confined m.begun slot rows where
  running := h.running
  guest := by rw [guest_begun, h.guest]
  notHost := h.notHost
  segmented := by
    rw [processor_begun]
    exact h.segmented
  segmentsKept := h.segmentsKept
  guestsKept := h.guestsKept
  guestTable := by
    rw [processor_begun]
    exact h.guestTable
  known := h.known
  apart a writable := by
    rw [processor_begun]
    exact h.apart a ((writable_begun m a).mp writable)

/-- A confined guest can be saved. -/
theorem saveSlot_eq (h : Confined m slot rows) : saveSlot slot m = .ok () (m.withSaved slot) :=
  saveSlot_of_table h.current h.guestTable h.known

/-- After that the context of the host can be put back. -/
theorem leaveGuest_eq (h : Confined m slot rows) :
    ∃ rows' host, leaveGuest (m.withSaved slot) = .ok () ((m.withSaved slot).toHost rows' host) := by
  -- Saving writes one row, so the terminator and the row of the host are still there.
  obtain ⟨rows', read, first⟩ := Memory.guestTable_overwrite (n := (m.withSaved slot).memory)
    h.guestTable h.slot_pos h.known fun _ =>
      get_withSaved (row_fits_of_table h.guestTable h.known)
  obtain ⟨host, found⟩ : ∃ host, rows'[hostSlot.toNat]? = some host := by
    have some_row : rows ≠ [] := by
      rintro rfl
      exact absurd h.known (Nat.not_lt_zero _)
    refine ⟨rows.head some_row, ?_⟩
    rw [show hostSlot.toNat = 0 from rfl, ← List.head?_eq_getElem?, first]
    exact List.head?_eq_some_head some_row
  have known := slotContext_of_table hostSlot (current_withSaved m slot) read found
  exact ⟨rows', host, Action.bind_of_ok known _⟩

/-- A confined guest can be left, unless the stack of the host refuses the frame. -/
theorem leaveFor_ends (h : Confined m slot rows) (number : Word) (reason : TrapReason)
    (resumeIp : Word) (extra : List Word) :
    (leaveFor number reason resumeIp extra).Ends m
      (fun _ m' => m'.isRunning = true ∧ m'.processor.RunsHost)
      (fun e m' => m'.processor.RunsHost ∧ ∃ offset,
        e = .doubleFault number (.segmentViolation .stack offset) ∧
          m'.reaches .stack offset = false) := by
  have moved := h.of_change (.goto m resumeIp)
  obtain ⟨rows', host, leaves⟩ := moved.leaveGuest_eq
  have settled : (((m.goto resumeIp).withSaved slot).toHost rows' host).Settled :=
    fun _ => h.segmentsKept
  unfold Action.Ends
  rw [leaveFor_eq h.guest, Action.bind_of_ok moved.saveSlot_eq, Action.bind_of_ok leaves]
  have atHost {m' : Machine} (change : LocalChange _ m') : m'.processor.RunsHost :=
    change.sameMode.runsHost (runsHost_toHost ((m.goto resumeIp).withSaved slot) rows' host)
  refine (pushFrame_ends settled number _).imp
    (fun _ m' change => ⟨?_, atHost change.toLocalChange⟩) ?_
  · rw [isRunning, change.status]
    exact h.running
  · rintro e m' ⟨change, offset, rfl, missed⟩
    exact ⟨atHost change.toLocalChange, offset, rfl, by rwa [change.reaches]⟩

end Confined

/-! ## Steps -/

/-- How a step of a confined guest ends. -/
inductive ConfinedStep (m : Machine) (slot : Word) (rows : List Context) : Prop
  /-- The guest goes on, and is confined as before. -/
  | stays (outcome : step.outcome m = .ok true) (confined : Confined (step.after m) slot rows)
  /-- The host goes on. -/
  | leaves (outcome : step.outcome m = .ok true) (host : (step.after m).processor.RunsHost)
  /-- The stack of the host has no room for the frame. -/
  | doubleFault (number offset : Word)
      (outcome : step.outcome m = .error (.doubleFault number (.segmentViolation .stack offset)))
      (host : (step.after m).processor.RunsHost)
      (missed : (step.after m).reaches .stack offset = false)

theorem confined_step (h : Confined m slot rows) : m.ConfinedStep slot rows := by
  have settled₀ := h.begun.settled
  cases step_of_guest h.running h.guest with
  | unreadable e unsettled eq => exact absurd h.settled unsettled
  | stays m₀ m' settles change eq =>
    obtain rfl := settles.eq settled₀
    refine .stays (by simp [Action.outcome, eq]) ?_
    rw [Action.after_of_ok eq]
    exact h.begun.of_change change
  | exits m₀ m₁ number reason resumeIp extra exits settles change eq =>
    obtain rfl := settles.eq settled₀
    have ends := conclude_ends
      ((h.begun.of_change change).leaveFor_ends number reason resumeIp extra)
    cases left : conclude (leaveFor number reason resumeIp extra) m₁ with
    | ok running m' =>
      obtain ⟨rfl, running, host⟩ := ends.ok left
      refine .leaves ?_ ?_
      · simp [Action.outcome, eq, left, running]
      · rw [Action.after_of_ok (eq.trans left)]
        exact host
    | error e m' =>
      obtain ⟨m₂, ⟨host, offset, rfl, missed⟩, rfl⟩ := ends.error left
      refine .doubleFault number offset ?_ ?_ ?_
      · simp [Action.outcome, eq, left]
      · rw [Action.after_of_error (eq.trans left)]
        exact host
      · rw [Action.after_of_error (eq.trans left)]
        exact missed

/-! ## Runs -/

/-- A guest that was confined when a run began is confined as long as it runs, and each of its steps
ends as a step of a confined guest does. -/
theorem confined_run (h : Confined m slot rows) (n : Nat)
    (inside : ∀ k ≤ n, (afterSteps k m).processor.inGuest = true) :
    Confined (afterSteps n m) slot rows ∧ (afterSteps n m).ConfinedStep slot rows := by
  have confined : Confined (afterSteps n m) slot rows := by
    induction n with
    | zero => exact h
    | succ n ih =>
      have before := ih fun k small => inside k (by omega)
      have inGuest := inside (n + 1) (Nat.le_refl _)
      -- The other two ways for a step to end are with the host.
      cases confined_step before with
      | stays outcome confined => exact confined
      | leaves outcome host =>
        rw [afterSteps, host.inGuest] at inGuest
        cases inGuest
      | doubleFault number offset outcome host missed =>
        rw [afterSteps, host.inGuest] at inGuest
        cases inGuest
  exact ⟨confined, confined_step confined⟩

theorem confined_sampleGuest : Confined sampleGuest 1 sampleContexts where
  running := by decide
  guest := rfl
  notHost := by decide
  segmented := by decide
  segmentsKept := rfl
  guestsKept := rfl
  guestTable := by decide +kernel
  known := by decide
  apart := by
    rintro a ⟨space, notCode, reached⟩ ⟨low, high⟩
    have below := lt_of_covers_sampleSegments
      ((reaches_iff_covers (by decide) rfl space a).mp reached)
    have table : sampleGuest.processor.guestTable.toNat = 0x500 := rfl
    omega

/-- The sample guest is still confined when it tries to halt. -/
theorem confined_run_sampleGuest :
    Confined sampleGuest 1 sampleContexts ∧
      (∀ k ≤ 1, (afterSteps k sampleGuest).processor.inGuest = true) ∧
      Confined (afterSteps 1 sampleGuest) 1 sampleContexts ∧
      (afterSteps 1 sampleGuest).ConfinedStep 1 sampleContexts :=
  have inside : ∀ k ≤ 1, (afterSteps k sampleGuest).processor.inGuest = true := by decide +kernel
  ⟨confined_sampleGuest, inside, confined_run confined_sampleGuest 1 inside⟩

end WordMachine.Machine
