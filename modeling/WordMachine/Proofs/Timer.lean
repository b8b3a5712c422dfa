import WordMachine.Proofs.GuestContainment
import WordMachine.Proofs.InterruptDelivery

/-!
# The timer

What the timer consists of is its `TimerState`.  A step that delivers the timer
interrupt withdraws it, and every other step lets the timer tick once.  Nothing
else that happens in a step touches the timer (`timer_step`), except a `MOV` to
one of its three control registers (`SetsTimer`).

So the timer of a run is known from the first machine on.  It counts up to its
compare value, which it reaches after `ticksToFire` steps, and then stops and
stays pending until a step begins with interrupts enabled.  That step delivers
the interrupt, and no other step of the run does (`timer_fires_once`).
-/

namespace WordMachine

/-! ## The state of the timer -/

/-- What the timer consists of. -/
structure TimerState where
  counter : Word
  compare : Word
  /-- Whether it counts. -/
  enabled : Bool
  /-- Whether its interrupt waits for delivery. -/
  pending : Bool
deriving DecidableEq, Repr

/-- The timer one tick later. -/
def TimerState.tick (t : TimerState) : TimerState :=
  if t.enabled then
    if t.counter + 1 = t.compare then ⟨t.compare, t.compare, false, true⟩
    else { t with counter := t.counter + 1 }
  else t

/-- The number of ticks after which a timer that counts reaches its compare value.  If it stands at
the value already, it goes all the way around. -/
def TimerState.ticksToFire (t : TimerState) : Nat := (t.compare - t.counter - 1).toNat + 1

/-- A timer that has counted for some ticks reaches its compare value with the next one exactly if
that is the tick to fire. -/
theorem TimerState.reaches_iff (t : TimerState) {k : Nat} (early : k < t.ticksToFire) :
    t.counter + UInt32.ofNat k + 1 = t.compare ↔ k + 1 = t.ticksToFire := by
  have bound := (t.compare - t.counter - 1).toNat_lt
  unfold ticksToFire at early ⊢
  have shift : t.counter + UInt32.ofNat k + 1 = t.compare ↔
      UInt32.ofNat k = t.compare - t.counter - 1 := by
    constructor <;> intro same <;> grind
  rw [shift, ← UInt32.toNat_inj, UInt32.toNat_ofNat']
  omega

/-- The timer of a processor. -/
def Processor.timer (p : Processor) : TimerState :=
  ⟨p.counter, p.compare, p.interrupt.timerEnabled, p.timerPending⟩

namespace InterruptControl

variable {mask : Word}

theorem timerEnabled_setBits (c : InterruptControl) (on : Bool)
    (apart : ~~~mask &&& timerEnabledMask = timerEnabledMask) :
    (c.setBits mask on).timerEnabled = c.timerEnabled := by
  unfold timerEnabled
  rw [Machine.setBits_and c on apart]

theorem timerPending_setBits (c : InterruptControl) (on : Bool)
    (apart : ~~~mask &&& timerPendingMask = timerPendingMask) :
    (c.setBits mask on).timerPending = c.timerPending := by
  unfold timerPending
  rw [Machine.setBits_and c on apart]

theorem setBits_false_and_mask (c : InterruptControl) (mask : Word) :
    (c.setBits mask false).bits &&& mask = 0 := by
  simp [setBits, UInt32.and_assoc]

theorem setBits_true_and_mask (c : InterruptControl) (mask : Word) :
    (c.setBits mask true).bits &&& mask = mask := by
  apply UInt32.eq_of_toBitVec_eq
  ext i inside
  simp [setBits]
  grind

end InterruptControl

namespace Processor

theorem timer_clearTimerPending (p : Processor) :
    p.clearTimerPending.timer = { p.timer with pending := false } := by
  have enabled := @InterruptControl.timerEnabled_setBits InterruptControl.timerPendingMask
    p.interrupt false (by decide)
  have pending := InterruptControl.setBits_false_and_mask p.interrupt
    InterruptControl.timerPendingMask
  simp [timer, clearTimerPending, timerPending, enabled, InterruptControl.timerPending, pending]

theorem timer_setInterruptsEnabled (p : Processor) (on : Bool) :
    (p.setInterruptsEnabled on).timer = p.timer := by
  have enabled := @InterruptControl.timerEnabled_setBits InterruptControl.enabledMask p.interrupt
    on (by decide)
  have pending := @InterruptControl.timerPending_setBits InterruptControl.enabledMask p.interrupt
    on (by decide)
  simp [timer, setInterruptsEnabled, timerPending, enabled, pending]

theorem timer_tick (p : Processor) : p.tick.timer = p.timer.tick := by
  unfold tick TimerState.tick
  by_cases enabled : p.interrupt.timerEnabled = true
  · by_cases fires : p.counter + 1 = p.compare
    · let fired := p.interrupt.setBits InterruptControl.timerPendingMask true
      have stopped := InterruptControl.setBits_false_and_mask fired
        InterruptControl.timerEnabledMask
      have pending := @InterruptControl.timerPending_setBits InterruptControl.timerEnabledMask fired
        false (by decide)
      have waits : fired.timerPending = true := by
        have set := InterruptControl.setBits_true_and_mask p.interrupt
          InterruptControl.timerPendingMask
        unfold InterruptControl.timerPending
        rw [set]
        decide
      simp only [timer, enabled, if_true, fires, timerPending]
      refine congr (congrArg (TimerState.mk p.compare p.compare) ?_) (pending.trans waits)
      simp [InterruptControl.timerEnabled, stopped, fired]
    · simp [timer, enabled, fires, timerPending]
  · simp [timer, enabled]

end Processor

namespace Machine

variable {m m' : Machine} {running : Bool}

/-! ## Steps -/

/-- Whether the next step executes a `MOV` to one of the control registers of the timer. -/
def SetsTimer (m : Machine) : Prop :=
  m.timerFires = false ∧ ∃ i r, (prepare m.processor.ip).outcome m.begun = .ok i ∧
    i.opcode = .mov ∧ i.target? = some (.control r) ∧
    (r = .counter ∨ r = .compare ∨ r = .interrupt)

/-- Whether the next step is taken and does not end with a fatal error. -/
def Succeeds (m : Machine) : Prop :=
  m.isRunning = true ∧ ∃ running m', step m = .ok running m'

theorem timer_begun (m : Machine) :
    m.begun.processor.timer =
      if m.timerFires then { m.processor.timer with pending := false }
      else m.processor.timer.tick := by
  simp only [begun]
  split
  · exact m.processor.timer_clearTimerPending
  · exact m.processor.timer_tick

theorem LocalChange.timer (h : LocalChange m m') : m'.processor.timer = m.processor.timer := by
  rw [h.processor]
  rfl

/-- An instruction that is no `MOV` to a register of the timer leaves the timer alone. -/
theorem timer_of_effect {i : ResolvedInstruction} (effect : Effect i m m')
    (spared : ∀ r, i.opcode = .mov → i.target? = some (.control r) →
      r ≠ .counter ∧ r ≠ .compare ∧ r ≠ .interrupt) :
    m'.processor.timer = m.processor.timer := by
  cases effect with
  | none | halt | print => rfl
  | interrupts on => exact m.processor.timer_setInterruptsEnabled on
  | control r opcode target =>
    obtain ⟨counter, compare, interrupt⟩ := spared r opcode target
    cases r <;> first | contradiction | rfl
  | resume o _ opcode host resumed =>
    have entered := (performResume_enters host).ok resumed
    rw [entered.processor]
    rfl

/-- A step touches the timer only when it begins. -/
theorem timer_step (isRunning : m.isRunning = true) (stepped : step m = .ok running m')
    (spared : ¬m.SetsTimer) : m'.processor.timer = m.begun.processor.timer := by
  rcases completes_or_exit isRunning stepped with ⟨quiet, executed⟩ | ⟨e, exits⟩
  · have settled := settled_ready isRunning quiet stepped
    rw [executeAt_begun] at executed
    obtain ⟨i, m₁, m₂, ip, prepared, change, effect, rfl⟩ :=
      (executeAt_ends settled m.processor.ip).ok executed
    have before : m.ready.processor.timer = m.begun.processor.timer := by rw [processor_ready]
    have kept : m₂.processor.timer = m₁.processor.timer := by
      refine timer_of_effect effect fun r opcode target => ?_
      by_contra named
      refine spared ⟨quiet, i, r, ?_, opcode, target, ?_⟩
      · rw [Action.outcome, prepare_mapped]
        exact prepared
      · simpa only [not_and_or, not_not] using named
    exact kept.trans (change.timer.trans before)
  · obtain ⟨sp, same⟩ := untouched_atExit exits
    have before : m.atExit.processor.timer = m.begun.processor.timer := by
      rw [same.processor]
      rfl
    rw [← before]
    cases inside : m.processor.inGuest with
    | false =>
      have raised := raiseInterrupt_of_step isRunning inside exits stepped
      have host : m.atExit.processor.inGuest = false :=
        (sameMode_atExit exits).inGuest.trans inside
      obtain ⟨m₁, framed, rfl⟩ := raiseInterrupt_ok host raised
      have processor := (pushFrame_ends_processor _ _ _).ok framed
      show m₁.processor.timer = _
      rw [processor]
      rfl
    | true =>
      have guest := Processor.guest_of_inGuest inside
      have left := leaveFor_of_step isRunning guest exits stepped
      obtain ⟨-, -, -, rows, framed⟩ :=
        (leaveFor_ends_of_guest ((guest_atExit exits).trans guest)).ok left
      rw [(pushFrame_ends_processor _ _ _).ok framed]
      rfl

/-! ## Runs -/

/-- The number of steps after which the timer fires. -/
def stepsToFire (m : Machine) : Nat := m.processor.timer.ticksToFire

/-- Whether no step began with interrupts enabled from the one on that follows the firing. -/
def NoneEnabled (m : Machine) (k : Nat) : Prop :=
  ∀ j, m.stepsToFire ≤ j → j < k → (afterSteps j m).processor.interruptsEnabled = false

/-- The timer after a number of steps that is too small for it to fire. -/
def Counts (m : Machine) (k : Nat) : Prop :=
  (afterSteps k m).processor.timer =
    ⟨m.processor.counter + UInt32.ofNat k, m.processor.compare, true, false⟩

/-- The timer after a number of steps in which it has fired. -/
structure Fired (m : Machine) (k : Nat) : Prop where
  counter : (afterSteps k m).processor.counter = m.processor.compare
  compare : (afterSteps k m).processor.compare = m.processor.compare
  stopped : (afterSteps k m).processor.interrupt.timerEnabled = false
  /-- The interrupt waits for the first step that begins with interrupts enabled. -/
  pending : (afterSteps k m).processor.timerPending = true ↔ m.NoneEnabled k

theorem timer_afterSteps {k : Nat} (succeeds : (afterSteps k m).Succeeds)
    (spared : ¬(afterSteps k m).SetsTimer) :
    (afterSteps (k + 1) m).processor.timer =
      if (afterSteps k m).timerFires then
        { (afterSteps k m).processor.timer with pending := false }
      else (afterSteps k m).processor.timer.tick := by
  obtain ⟨isRunning, running, m', stepped⟩ := succeeds
  have after : afterSteps (k + 1) m = m' := Action.after_of_ok stepped
  rw [after, timer_step isRunning stepped spared, timer_begun]

theorem Counts.next {k : Nat} (counts : m.Counts k) (early : k < m.stepsToFire)
    (succeeds : (afterSteps k m).Succeeds) (spared : ¬(afterSteps k m).SetsTimer) :
    (k + 1 < m.stepsToFire → m.Counts (k + 1)) ∧ (k + 1 = m.stepsToFire → m.Fired (k + 1)) := by
  have after := timer_afterSteps succeeds spared
  have reaches := m.processor.timer.reaches_iff early
  have quiet : (afterSteps k m).timerFires = false := by
    have pending := congrArg TimerState.pending counts
    have notPending : (afterSteps k m).processor.timerPending = false := pending
    simp [timerFires, notPending]
  rw [quiet, counts] at after
  constructor
  · intro notYet
    have other : ¬(m.processor.counter + UInt32.ofNat k + 1 = m.processor.compare) := by
      intro same
      have := reaches.mp same
      unfold stepsToFire at notYet
      omega
    have sum : m.processor.counter + UInt32.ofNat k + 1 =
        m.processor.counter + UInt32.ofNat (k + 1) := by
      rw [UInt32.ofNat_add, UInt32.add_assoc]
      rfl
    unfold Counts
    rw [after, ← sum]
    simp [TimerState.tick, other]
  · intro now
    have same : m.processor.counter + UInt32.ofNat k + 1 = m.processor.compare :=
      reaches.mpr now
    have fired : (afterSteps (k + 1) m).processor.timer =
        ⟨m.processor.compare, m.processor.compare, false, true⟩ := by
      rw [after]
      simp [TimerState.tick, same]
    refine ⟨congrArg TimerState.counter fired, congrArg TimerState.compare fired,
      congrArg TimerState.enabled fired, ?_⟩
    have pending : (afterSteps (k + 1) m).processor.timerPending = true :=
      congrArg TimerState.pending fired
    rw [pending]
    refine ⟨fun _ j late soon => ?_, fun _ => rfl⟩
    omega

theorem noneEnabled_succ {k : Nat} (late : m.stepsToFire ≤ k) :
    m.NoneEnabled (k + 1) ↔
      m.NoneEnabled k ∧ (afterSteps k m).processor.interruptsEnabled = false := by
  constructor
  · intro masked
    exact ⟨fun j fired before => masked j fired (by omega), masked k late (by omega)⟩
  · intro ⟨masked, last⟩ j fired before
    by_cases same : j = k
    · rw [same]
      exact last
    · exact masked j fired (by omega)

theorem Fired.next {k : Nat} (fired : m.Fired k) (late : m.stepsToFire ≤ k)
    (succeeds : (afterSteps k m).Succeeds) (spared : ¬(afterSteps k m).SetsTimer) :
    m.Fired (k + 1) := by
  have after := timer_afterSteps succeeds spared
  have stays : (afterSteps k m).processor.timer.tick = (afterSteps k m).processor.timer := by
    have stopped : (afterSteps k m).processor.timer.enabled = false := fired.stopped
    simp [TimerState.tick, stopped]
  rw [stays] at after
  have parts : (afterSteps (k + 1) m).processor.counter = (afterSteps k m).processor.counter ∧
      (afterSteps (k + 1) m).processor.compare = (afterSteps k m).processor.compare ∧
      (afterSteps (k + 1) m).processor.interrupt.timerEnabled =
        (afterSteps k m).processor.interrupt.timerEnabled := by
    split at after <;>
      exact ⟨congrArg TimerState.counter after, congrArg TimerState.compare after,
        congrArg TimerState.enabled after⟩
  obtain ⟨counter, compare, stopped⟩ := parts
  refine ⟨counter.trans fired.counter, compare.trans fired.compare, stopped.trans fired.stopped, ?_⟩
  rw [noneEnabled_succ late, ← fired.pending]
  -- The interrupt stays pending unless this step delivers it.
  cases fires : (afterSteps k m).timerFires with
  | true =>
    rw [fires] at after
    have withdrawn : (afterSteps (k + 1) m).processor.timerPending = false :=
      congrArg TimerState.pending after
    have enabled : (afterSteps k m).processor.interruptsEnabled = true := by
      simp only [timerFires, Bool.and_eq_true] at fires
      exact fires.2
    simp [withdrawn, enabled]
  | false =>
    rw [fires] at after
    have kept : (afterSteps (k + 1) m).processor.timerPending =
        (afterSteps k m).processor.timerPending := congrArg TimerState.pending after
    rw [kept]
    simp only [timerFires, Bool.and_eq_false_iff] at fires
    constructor
    · intro pending
      simp only [pending, Bool.true_eq_false, false_or] at fires
      exact ⟨pending, fires⟩
    · intro ⟨pending, _⟩
      exact pending

/-- Where the timer stands at every point of a run. -/
theorem timer_run {n : Nat} (enabled : m.processor.interrupt.timerEnabled = true)
    (clear : m.processor.timerPending = false) (succeeds : ∀ k < n, (afterSteps k m).Succeeds)
    (spared : ∀ k < n, ¬(afterSteps k m).SetsTimer) (k : Nat) (inRun : k ≤ n) :
    (k < m.stepsToFire → m.Counts k) ∧ (m.stepsToFire ≤ k → m.Fired k) := by
  induction k with
  | zero =>
    constructor
    · intro _
      show m.processor.timer = _
      simp [Processor.timer, enabled, clear]
    · intro late
      unfold stepsToFire TimerState.ticksToFire at late
      omega
  | succ k ih =>
    obtain ⟨counts, fired⟩ := ih (by omega)
    have succeeds := succeeds k (by omega)
    have spared := spared k (by omega)
    by_cases early : k < m.stepsToFire
    · obtain ⟨goesOn, fires⟩ := (counts early).next early succeeds spared
      exact ⟨goesOn, fun late => fires (by omega)⟩
    · have late : m.stepsToFire ≤ k := by omega
      exact ⟨fun before => by omega, fun _ => (fired late).next late succeeds spared⟩

/-! ## Delivery -/

/-- What a step comes to that delivers the timer interrupt. -/
structure DeliversTimer (m m' : Machine) : Prop where
  /-- The step does nothing else; no instruction is executed. -/
  eq : step m = conclude (raiseInterrupt 5 m.processor.ip []) m.begun
  host : m.processor.inGuest = false → m.HandlerEntered ⟨5, m.processor.ip, []⟩ m'
  guest : ∀ slot, m.processor.guest = some slot →
    m.HostEntered slot ⟨11, m.processor.ip, []⟩ m'

theorem deliversTimer (fires : m.timerFires = true) (isRunning : m.isRunning = true)
    (stepped : step m = .ok running m') : m.DeliversTimer m' := by
  have exits : m.exit? = some (.ofInterrupt Interrupt.timer m.processor.ip []) := if_pos fires
  have few :
      (Exit.ofInterrupt Interrupt.timer m.processor.ip []).extra.length + 2 ≤ Word.count := by
    show 2 ≤ Word.count
    decide
  exact ⟨step_of_timer isRunning fires,
    fun host => handlerEntered_of_step isRunning host exits few stepped,
    fun slot guest => hostEntered_of_step isRunning guest exits few stepped⟩

theorem timerFires_iff {n : Nat} (enabled : m.processor.interrupt.timerEnabled = true)
    (clear : m.processor.timerPending = false) (succeeds : ∀ k < n, (afterSteps k m).Succeeds)
    (spared : ∀ k < n, ¬(afterSteps k m).SetsTimer) {k : Nat} (inRun : k < n) :
    (afterSteps k m).timerFires = true ↔ m.stepsToFire ≤ k ∧
      (afterSteps k m).processor.interruptsEnabled = true ∧ m.NoneEnabled k := by
  obtain ⟨counts, fired⟩ := timer_run enabled clear succeeds spared k (by omega)
  simp only [timerFires, Bool.and_eq_true]
  by_cases early : k < m.stepsToFire
  · have notPending : (afterSteps k m).processor.timerPending = false :=
      congrArg TimerState.pending (counts early)
    constructor
    · intro ⟨pending, _⟩
      rw [notPending] at pending
      cases pending
    · intro ⟨late, _⟩
      omega
  · have late : m.stepsToFire ≤ k := by omega
    rw [(fired late).pending]
    exact ⟨fun ⟨masked, on⟩ => ⟨late, on, masked⟩, fun ⟨_, on, masked⟩ => ⟨masked, on⟩⟩

/-- In a run of successful steps that do not write the registers of a running timer, the timer
reaches its compare value after `stepsToFire` steps and stops there.  Its interrupt then waits for
the first step that begins with interrupts enabled.  That step delivers it, and no other does. -/
theorem timer_fires_once {n : Nat} (enabled : m.processor.interrupt.timerEnabled = true)
    (clear : m.processor.timerPending = false) (succeeds : ∀ k < n, (afterSteps k m).Succeeds)
    (spared : ∀ k < n, ¬(afterSteps k m).SetsTimer) :
    (∀ k ≤ n, (k < m.stepsToFire → m.Counts k) ∧ (m.stepsToFire ≤ k → m.Fired k)) ∧
      (m.stepsToFire ≤ n → (afterSteps m.stepsToFire m).processor.timerPending = true) ∧
      (∀ k < n, (afterSteps k m).timerFires = true ↔ m.stepsToFire ≤ k ∧
        (afterSteps k m).processor.interruptsEnabled = true ∧ m.NoneEnabled k) ∧
      (∀ j < n, ∀ k < n, (afterSteps j m).timerFires = true → (afterSteps k m).timerFires = true →
        j = k) ∧
      ∀ k < n, (afterSteps k m).timerFires = true →
        (afterSteps k m).DeliversTimer (afterSteps (k + 1) m) := by
  have fires_iff (k : Nat) (inRun : k < n) := timerFires_iff enabled clear succeeds spared inRun
  refine ⟨fun k inRun => timer_run enabled clear succeeds spared k inRun, ?_, fires_iff, ?_, ?_⟩
  · intro reached
    obtain ⟨-, fired⟩ := timer_run enabled clear succeeds spared m.stepsToFire reached
    exact (fired (Nat.le_refl _)).pending.mpr fun j late soon => by omega
  · intro j inRun k inRun' fires fires'
    obtain ⟨late, on, masked⟩ := (fires_iff j inRun).mp fires
    obtain ⟨late', on', masked'⟩ := (fires_iff k inRun').mp fires'
    -- Whichever comes first begins with interrupts enabled, which the other one rules out.
    rcases Nat.lt_trichotomy j k with before | same | after
    · rw [masked' j late before] at on
      cases on
    · exact same
    · rw [masked k late' after] at on'
      cases on'
  · intro k inRun fires
    obtain ⟨isRunning, running, m', stepped⟩ := succeeds k inRun
    have after : afterSteps (k + 1) m = m' := Action.after_of_ok stepped
    rw [after]
    exact deliversTimer fires isRunning stepped

/-- A host that does nothing until its timer fires, after two steps. -/
def waitingHost : Machine where
  processor := { sp := 0x2000, compare := 2, interrupt := ⟨3⟩ }
  memory := Memory.empty.place 0 (List.replicate 2 Instruction.nop.encode)

theorem timer_fires_once_waitingHost :
    waitingHost.stepsToFire = 2 ∧
      (afterSteps 2 waitingHost).DeliversTimer (afterSteps 3 waitingHost) := by
  have outcomes : ∀ k < 3, (afterSteps k waitingHost).isRunning = true ∧
      step.outcome (afterSteps k waitingHost) = .ok true := by decide +kernel
  have succeeds : ∀ k < 3, (afterSteps k waitingHost).Succeeds := by
    intro k small
    obtain ⟨isRunning, outcome⟩ := outcomes k small
    exact ⟨isRunning, true, _, Action.eq_ok_of_outcome outcome⟩
  have idles : ∀ k < 2, ∃ i, i.opcode = .nop ∧
      (prepare (afterSteps k waitingHost).processor.ip).outcome (afterSteps k waitingHost).begun =
        .ok i := by
    intro k small
    refine ⟨⟨.nop, UInt32.ofNat k, UInt32.ofNat (k + 1), []⟩, rfl, ?_⟩
    revert small
    revert k
    decide +kernel
  have spared : ∀ k < 3, ¬(afterSteps k waitingHost).SetsTimer := by
    intro k small ⟨quiet, i, _, prepared, opcode, _⟩
    by_cases last : k = 2
    · subst last
      revert quiet
      decide +kernel
    · obtain ⟨i', idle, prepared'⟩ := idles k (by omega)
      obtain rfl : i' = i := by simpa using prepared'.symm.trans prepared
      rw [idle] at opcode
      cases opcode
  have fires : (afterSteps 2 waitingHost).timerFires = true := by decide +kernel
  obtain ⟨-, -, -, -, delivers⟩ := timer_fires_once (by decide) (by decide) succeeds spared
  exact ⟨by decide, delivers 2 (by decide) fires⟩

end Machine

end WordMachine
