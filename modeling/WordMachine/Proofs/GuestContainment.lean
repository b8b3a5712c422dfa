import WordMachine.Proofs.Step

/-!
# What a guest cannot touch

While a guest runs, part of the machine belongs to the host: the two table
registers, the compare value, the interrupt control word, the console and the
decision to halt (`HostPart`).  Another part says which guest runs, with which
segments and which privilege level (`GuestPart`).  A guest changes neither.  The
interrupt control word follows the timer, which the guest does not control, and
the guest part is replaced as a whole when the guest is left.

`step_contained` says so of one step, whatever the guest executes and whichever
way the step fails.  `run_contained` says so of every run that stays in the
guest, up to and including the step that leaves it.
-/

namespace WordMachine.Machine

variable {m m' m₁ m₂ : Machine} {slot : Word}

/-! ## The interrupt control word -/

/-- Setting or clearing the bits of a mask leaves the other bits alone. -/
theorem setBits_and (c : InterruptControl) {mask others : Word} (on : Bool)
    (apart : ~~~mask &&& others = others) :
    (c.setBits mask on).bits &&& others = c.bits &&& others := by
  have clear : mask &&& others = 0 := by
    rw [← apart, ← UInt32.and_assoc, UInt32.and_not_self, UInt32.zero_and]
  have distrib : (c.bits ||| mask) &&& others = c.bits &&& others ||| mask &&& others := by
    apply UInt32.eq_of_toBitVec_eq
    ext i inside
    simp [Bool.and_or_distrib_right]
  cases on with
  | true => simp [InterruptControl.setBits, distrib, clear]
  | false => simp [InterruptControl.setBits, UInt32.and_assoc, apart]

/-- Bits of other masks do not decide whether interrupts are enabled. -/
theorem enabled_setBits (c : InterruptControl) {mask : Word} (on : Bool)
    (other : ~~~mask &&& InterruptControl.enabledMask = InterruptControl.enabledMask) :
    (c.setBits mask on).enabled = c.enabled := by
  unfold InterruptControl.enabled
  rw [setBits_and c on other]

/-- The timer does not decide whether interrupts are enabled. -/
theorem interruptsEnabled_begun (m : Machine) :
    m.begun.processor.interruptsEnabled = m.processor.interruptsEnabled := by
  simp only [begun, Processor.interruptsEnabled]
  split
  · exact enabled_setBits _ false (by decide)
  · unfold Processor.tick
    split
    · simp only
      split
      · exact (enabled_setBits _ false (by decide)).trans (enabled_setBits _ true (by decide))
      · rfl
    · rfl

/-! ## The two parts -/

/-- What belongs to the host while a guest runs. -/
structure HostPart where
  segmentTable : Word
  guestTable : Word
  compare : Word
  interrupt : InterruptControl
  console : Array UInt8
  status : Status

/-- What says which guest runs and what it may use. -/
structure GuestPart where
  inGuest : Bool
  slot : Word
  selector : AddressSpace → Word
  privilege : Word

/-- The part of a machine that belongs to the host. -/
def hostPart (m : Machine) : HostPart :=
  ⟨m.processor.segmentTable, m.processor.guestTable, m.processor.compare, m.processor.interrupt,
    m.console, m.status⟩

/-- The part of a machine that says which guest runs. -/
def guestPart (m : Machine) : GuestPart :=
  ⟨m.processor.inGuest, m.processor.slot, m.processor.selector, m.processor.privilege⟩

theorem LocalChange.hostPart (h : LocalChange m m') : m'.hostPart = m.hostPart := by
  unfold Machine.hostPart
  rw [h.processor, h.console, h.status]

theorem LocalChange.guestPart (h : LocalChange m m') : m'.guestPart = m.guestPart := by
  unfold Machine.guestPart
  rw [h.processor]
  congr 1

theorem hostPart_begun (m : Machine) :
    m.begun.hostPart = { m.hostPart with interrupt := m.begun.processor.interrupt } := by
  unfold hostPart
  rw [processor_begun]
  rfl

theorem guestPart_begun (m : Machine) : m.begun.guestPart = m.guestPart := by
  unfold guestPart
  rw [processor_begun]
  congr 1

/-- The host part of a machine stays, and if a guest still runs, it is the same. -/
structure Within (m m' : Machine) : Prop where
  /-- The host part stays, but for the status. -/
  hostPart : m'.hostPart = { m.hostPart with status := m'.status }
  /-- The machine does not halt. -/
  notHalted : m'.status ≠ .halted
  /-- A guest that still runs is the same. -/
  guestPart : m'.processor.inGuest = true → m'.guestPart = m.guestPart

theorem Within.of_change (h : LocalChange m m') (notHalted : m.status ≠ .halted) : Within m m' where
  hostPart := by
    rw [h.hostPart, h.status]
    rfl
  notHalted := by rwa [h.status]
  guestPart _ := h.guestPart

theorem Within.stop (h : Within m m') : Within m { m' with status := .error } where
  hostPart := by
    have same := congrArg (fun p : HostPart => { p with status := .error }) h.hostPart
    exact same
  notHalted := by simp
  guestPart := h.guestPart

theorem Within.trans (h : Within m m₁) (inside : m₁.processor.inGuest = true)
    (h₁ : Within m₁ m₂) : Within m m₂ where
  hostPart := by
    rw [h₁.hostPart, h.hostPart]
  notHalted := h₁.notHalted
  guestPart inGuest := (h₁.guestPart inGuest).trans (h.guestPart inside)

theorem Within.of_settles (h : m.Settles m') (notHalted : m.status ≠ .halted) : Within m m' := by
  cases h <;> exact ⟨rfl, notHalted, fun _ => rfl⟩

/-- Leaving a guest, whether it succeeds or not, stays within the guest. -/
theorem leaveFor_within (number : Word) (reason : TrapReason) (resumeIp : Word) (extra : List Word)
    (guest : m.processor.guest = some slot) (notHalted : m.status ≠ .halted) :
    (leaveFor number reason resumeIp extra).Ends m (fun _ m' => Within m m')
      (fun _ m' => Within m m') := by
  refine leaveFor_ends guest (fun m₁ left => ?_) fun e m' broken => ?_
  · obtain ⟨ip, rows, host, -, -⟩ := left
    have pushed (m₂ m' : Machine)
        (settles : Settles (((m.goto ip).withSaved slot).toHost rows host) m₂)
        (change : LocalChange m₂ m') : Within m m' := by
      have processor := change.processor
      rw [settles.processor] at processor
      have hostPart : m'.hostPart = m.hostPart := by
        rw [change.hostPart]
        cases settles <;> rfl
      refine ⟨?_, ?_, fun inGuest => ?_⟩
      · rw [hostPart, show m'.status = m.status from congrArg HostPart.status hostPart]
        rfl
      · rwa [show m'.status = m.status from congrArg HostPart.status hostPart]
      · rw [processor] at inGuest
        cases inGuest
    exact (pushFrame_settles _ number _).imp (fun _ m' ⟨m₂, settles, h⟩ => pushed m₂ m' settles h)
      fun _ m' ⟨m₂, settles, h⟩ => pushed m₂ m' settles h
  · cases broken with
    | unsaved ip guests => exact ⟨rfl, notHalted, fun _ => rfl⟩
    | saved ip guests => exact ⟨rfl, notHalted, fun _ => rfl⟩

/-! ## Steps -/

/-- A step in a guest stays within the guest, but for the timer. -/
theorem step_within (running : m.isRunning = true) (guest : m.processor.inGuest = true) :
    Within m.begun (step.after m) := by
  have isGuest := Processor.guest_of_inGuest guest
  have notHalted : m.status ≠ .halted := by
    intro halted
    simp [isRunning, halted] at running
  have within {m₀ m₁ : Machine} (settles : m.begun.Settles m₀) (change : LocalChange m₀ m₁) :
      Within m.begun m₁ := by
    have begins : Within m.begun m₀ := .of_settles settles notHalted
    refine begins.trans ?_ (.of_change change begins.notHalted)
    rw [settles.processor, inGuest_begun, guest]
  cases step_of_guest running isGuest with
  | unreadable e unsettled eq =>
    rw [Action.after_of_error eq]
    exact (within .refl (.refl m.begun)).stop
  | stays m₀ m' settles change eq =>
    rw [Action.after_of_ok eq]
    exact within settles change
  | exits m₀ m₁ number reason resumeIp extra exits settles change eq =>
    have left := within settles change
    have guest₁ := (SameMode.of_begun settles change).guest.trans isGuest
    have leaves := leaveFor_within number reason resumeIp extra guest₁ left.notHalted
    rw [Action.after_congr eq]
    exact left.trans (Processor.inGuest_of_guest guest₁) (after_conclude leaves fun _ h => h.stop)

/-- What stays over a run in a guest. -/
structure Contained (m m' : Machine) : Prop where
  segmentTable : m'.processor.segmentTable = m.processor.segmentTable
  guestTable : m'.processor.guestTable = m.processor.guestTable
  compare : m'.processor.compare = m.processor.compare
  /-- Interrupts stay enabled or disabled. -/
  interruptsEnabled : m'.processor.interruptsEnabled = m.processor.interruptsEnabled
  console : m'.console = m.console
  notHalted : m'.status ≠ .halted
  /-- A guest that still runs is the same, with the same selectors and privilege level. -/
  guestPart : m'.processor.inGuest = true → m'.guestPart = m.guestPart

theorem Contained.refl (notHalted : m.status ≠ .halted) : Contained m m :=
  ⟨rfl, rfl, rfl, rfl, rfl, notHalted, fun _ => rfl⟩

theorem Contained.trans (h : Contained m m₁) (inside : m₁.processor.inGuest = true)
    (h₁ : Contained m₁ m₂) : Contained m m₂ where
  segmentTable := h₁.segmentTable.trans h.segmentTable
  guestTable := h₁.guestTable.trans h.guestTable
  compare := h₁.compare.trans h.compare
  interruptsEnabled := h₁.interruptsEnabled.trans h.interruptsEnabled
  console := h₁.console.trans h.console
  notHalted := h₁.notHalted
  guestPart inGuest := (h₁.guestPart inGuest).trans (h.guestPart inside)

/-- The interrupt control word after a step in a guest.  The step either silences the timer, to
deliver its interrupt, or advances it. -/
def nextInterrupt (m : Machine) : InterruptControl :=
  if m.isRunning = false then m.processor.interrupt
  else if m.timerFires then m.processor.clearTimerPending.interrupt
  else m.processor.tick.interrupt

/-- A step in a guest contains it. -/
theorem step_contained (guest : m.processor.inGuest = true) (notHalted : m.status ≠ .halted) :
    Contained m (step.after m) ∧ (step.after m).processor.interrupt = m.nextInterrupt := by
  cases running : m.isRunning with
  | false =>
    rw [Action.after_of_ok (step_of_not_isRunning running)]
    exact ⟨.refl notHalted, by simp [nextInterrupt, running]⟩
  | true =>
    have within := step_within running guest
    have host := within.hostPart
    rw [hostPart_begun] at host
    have interrupt : (step.after m).processor.interrupt = m.begun.processor.interrupt :=
      congrArg HostPart.interrupt host
    refine ⟨⟨congrArg HostPart.segmentTable host, congrArg HostPart.guestTable host,
      congrArg HostPart.compare host, ?_, congrArg HostPart.console host, within.notHalted,
      fun inside => ?_⟩, ?_⟩
    · rw [← interruptsEnabled_begun m]
      exact congrArg InterruptControl.enabled interrupt
    · rw [within.guestPart inside, guestPart_begun]
    · rw [interrupt]
      simp only [begun, nextInterrupt, running, Bool.true_eq_false, if_false]
      split <;> rfl

/-! ## Runs -/

/-- A run in a guest contains it, up to and including the step that leaves the guest.  The interrupt
control word only follows the timer. -/
theorem run_contained (running : m.isRunning = true) (n : Nat)
    (inside : ∀ k < n, (afterSteps k m).processor.inGuest = true) :
    Contained m (afterSteps n m) ∧
      ∀ k < n, (afterSteps (k + 1) m).processor.interrupt = (afterSteps k m).nextInterrupt := by
  induction n with
  | zero =>
    refine ⟨.refl ?_, fun k small => absurd small (Nat.not_lt_zero k)⟩
    intro halted
    simp [isRunning, halted] at running
  | succ n ih =>
    -- The last machine of the run may be the host again, so the step is taken from the one before.
    obtain ⟨contained, interrupts⟩ := ih fun k small => inside k (by omega)
    have inGuest := inside n (by omega)
    obtain ⟨next, interrupt⟩ := step_contained inGuest contained.notHalted
    refine ⟨contained.trans inGuest next, fun k small => ?_⟩
    rcases Nat.lt_succ_iff_lt_or_eq.mp small with before | rfl
    · exact interrupts k before
    · exact interrupt

/-- The second step of the sample guest leaves it. -/
theorem run_contained_sampleGuest :
    sampleGuest.isRunning = true ∧ (∀ k < 2, (afterSteps k sampleGuest).processor.inGuest = true) ∧
      Contained sampleGuest (afterSteps 2 sampleGuest) ∧
      ∀ k < 2, (afterSteps (k + 1) sampleGuest).processor.interrupt =
        (afterSteps k sampleGuest).nextInterrupt :=
  have inside : ∀ k < 2, (afterSteps k sampleGuest).processor.inGuest = true := by decide +kernel
  ⟨by decide, inside, run_contained (by decide) 2 inside⟩

end WordMachine.Machine
