import WordMachine.Proofs.Blind
import WordMachine.Proofs.Step

/-!
# Read isolation

A machine with its segment table read sees no more of its memory than the
segments selected for its address spaces.  On two machines that are the same but
for the cells out of sight, a step has the same result, leaves the same state
and makes the same writes (`step_isolated`).

Two kinds of steps are left out, because they read the guest table, which may
lie out of sight.  They are the steps that enter a guest and the steps that
begin to leave one, whether they get to the end or not.  It is not enough to
leave out the steps that do leave a guest: whether an exit succeeds depends on
the guest table (`not_isolated_when_exit_fails`).
-/

namespace WordMachine.Machine

variable {V : Word → Prop} {m n : Machine}

/-! ## Steps -/

theorem Alike.begun (h : Alike V m n) : Alike V m.begun n.begun where
  eq := by
    rw [h.eq]
    rfl
  visible := h.visible

theorem Alike.timerFires (h : Alike V m n) : n.timerFires = m.timerFires := by
  unfold Machine.timerFires
  rw [h.processor]

theorem Alike.isRunning (h : Alike V m n) : n.isRunning = m.isRunning := by
  rw [h.eq]
  rfl

theorem Sees.begun (h : Sees V m) : Sees V m.begun where
  settled := (settled_begun m).mpr h.settled
  visible space a reached := h.visible space a (by rwa [reaches_begun] at reached)

theorem conclude_blind {x : Action FatalError Unit} (h : Blind V x m) : Blind V (conclude x) m := by
  obtain ⟨writes, same⟩ := h
  refine ⟨writes, fun n alike => ?_⟩
  obtain ⟨last, eq⟩ := same n alike
  refine ⟨last, ?_⟩
  simp only [conclude, eq]
  cases x m <;> rfl

theorem step_blind_of_eq {x : Action FatalError Unit} (h : Blind V x m.begun)
    (eq : ∀ n, Alike V m n → step n = conclude x n.begun) : Blind V step m := by
  obtain ⟨writes, same⟩ := conclude_blind h
  refine ⟨writes, fun n alike => ?_⟩
  rw [eq n alike, eq m (.refl m)]
  exact same n.begun alike.begun

theorem executeAndDeliver_blind (sees : Sees V m) (ip : Word)
    (noResume : ∀ i, (prepare ip).outcome m = .ok i → i.opcode ≠ .vmResume)
    (host : ∀ f, (executeAt ip).outcome m = .error (.fault f) → m.processor.inGuest = false) :
    Blind V (executeAndDeliver ip) m := by
  refine (executeAt_blind sees ip noResume).attempt.bind fun result m' attempted => ?_
  rw [Action.attempt_apply] at attempted
  injection attempted with outcome after
  subst outcome after
  cases executed : executeAt ip m with
  | ok u m' => simpa only [Action.outcome, executed] using .pure ()
  | error e m' =>
    cases e with
    | fatal e => simpa only [Action.outcome, executed] using .throw e
    | fault f =>
      simp only [Action.outcome, Action.after, executed]
      have inHost := host f (by simp [Action.outcome, executed])
      rcases (executeAt_ends sees.settled ip).error executed with
        ⟨change, -⟩ | ⟨i, m₁, prepared, opcode, -⟩
      · exact deliverFault_blind (sees.of_change change) (change.inGuest.trans inHost) ip f
      · exact absurd opcode (noResume i prepared)

/-- A step that neither enters a guest nor begins to leave one does not see what is out of sight. -/
theorem step_blind (sees : Sees V m) (noResume : ¬m.Resumes) (noExit : ¬m.Exits) :
    Blind V step m := by
  cases running : m.isRunning with
  | false =>
    exact .of_ok fun n alike => step_of_not_isRunning (alike.isRunning.trans running)
  | true =>
    cases fires : m.timerFires with
    | true =>
      have host : m.processor.inGuest = false := by
        by_contra guest
        exact noExit ⟨running, by simpa using guest, .inl fires⟩
      refine step_blind_of_eq (raiseInterrupt_blind sees.begun ((inGuest_begun m).trans host)
        Interrupt.timer m.processor.ip []) fun n alike => ?_
      rw [step_of_timer (alike.isRunning.trans running) (alike.timerFires.trans fires),
        alike.processor]
    | false =>
      have host (f : Fault) (faulted : (executeAt m.processor.ip).outcome m.begun =
          .error (.fault f)) : m.processor.inGuest = false := by
        by_contra guest
        exact noExit ⟨running, by simpa using guest, .inr ⟨f, faulted⟩⟩
      have opcode (i : ResolvedInstruction)
          (prepared : (prepare m.processor.ip).outcome m.begun = .ok i) :
          i.opcode ≠ .vmResume := by
        intro opcode
        -- In a guest the same opcode is a fault, which begins an exit.
        cases guest : m.processor.inGuest with
        | false => exact noResume ⟨running, guest, fires, i, prepared, opcode⟩
        | true =>
          have traps := executeAt_outcome_of_guest_resume sees.begun.settled prepared opcode
            ((inGuest_begun m).trans guest)
          rw [host _ traps] at guest
          cases guest
      refine step_blind_of_eq (executeAndDeliver_blind sees.begun m.processor.ip opcode
        fun f faulted => (inGuest_begun m).trans (host f faulted)) fun n alike => ?_
      rw [step_of_not_timer (alike.isRunning.trans running) (alike.timerFires.trans fires),
        alike.processor]

/-! ## Two machines -/

/-- Machines with the same state, memory and the instruction decoded last apart. -/
structure SameState (m n : Machine) : Prop where
  processor : n.processor = m.processor
  segments : n.segments = m.segments
  guests : n.guests = m.guests
  status : n.status = m.status
  cycles : n.cycles = m.cycles
  console : n.console = m.console

/-- Machines that are the same for the running program: in the same state, with the same contents
in the segments selected for the address spaces. -/
structure LooksLike (m n : Machine) : Prop extends SameState m n where
  /-- Cells in sight have the same contents. -/
  memory : ∀ space a, m.reaches space a = true → n.memory.get a = m.memory.get a

theorem LooksLike.refl (m : Machine) : LooksLike m m :=
  ⟨⟨rfl, rfl, rfl, rfl, rfl, rfl⟩, fun _ _ _ => rfl⟩

theorem LooksLike.alike (h : LooksLike m n) :
    Alike (fun a => ∃ space, m.reaches space a = true) m n where
  eq := by
    obtain ⟨⟨processor, segments, guests, status, cycles, console⟩, -⟩ := h
    cases m
    cases n
    simp_all [overlay]
  visible := by
    rintro a ⟨space, reached⟩
    exact h.memory space a reached

theorem SameState.overlay (m : Machine) (memory : Memory) (last : Option Instruction) :
    SameState m (m.overlay memory last) := ⟨rfl, rfl, rfl, rfl, rfl, rfl⟩

/-- With the segment table read, a step that neither enters a guest nor begins to leave one does the
same on all machines that look the same.  It has the same result, leaves the same state and makes
the same writes. -/
theorem step_isolated (kept : m.segments.isStale = false) (noResume : ¬m.Resumes)
    (noExit : ¬m.Exits) :
    ∃ writes : List (Word × Word), (step.after m).memory = m.memory.setAll writes ∧
      ∀ n, LooksLike m n →
        step.outcome n = step.outcome m ∧ SameState (step.after m) (step.after n) ∧
          (step.after n).memory = n.memory.setAll writes := by
  have sees : Sees (fun a => ∃ space, m.reaches space a = true) m :=
    ⟨fun _ => kept, fun space a reached => ⟨space, reached⟩⟩
  obtain ⟨writes, same⟩ := step_blind sees noResume noExit
  have isolated (n : Machine) (looks : LooksLike m n) :
      step.outcome n = step.outcome m ∧ SameState (step.after m) (step.after n) ∧
        (step.after n).memory = n.memory.setAll writes := by
    obtain ⟨last, eq⟩ := same n looks.alike
    cases ran : step m with
    | ok running m' =>
      rw [ran] at eq
      simp only [endOverlay] at eq
      rw [Action.after_of_ok ran, Action.after_of_ok eq]
      exact ⟨by simp [Action.outcome, ran, eq], .overlay m' _ last, rfl⟩
    | error e m' =>
      rw [ran] at eq
      simp only [endOverlay] at eq
      rw [Action.after_of_error ran, Action.after_of_error eq]
      exact ⟨by simp [Action.outcome, ran, eq], .overlay m' _ last, rfl⟩
  obtain ⟨-, -, own⟩ := isolated m (.refl m)
  exact ⟨writes, own, isolated⟩

theorem step_isolated_pushingHost :
    pushingHost.segments.isStale = false ∧ ¬pushingHost.Resumes ∧ ¬pushingHost.Exits ∧
      ∃ writes : List (Word × Word),
        (step.after pushingHost).memory = pushingHost.memory.setAll writes ∧
        ∀ n, LooksLike pushingHost n →
          step.outcome n = step.outcome pushingHost ∧
            SameState (step.after pushingHost) (step.after n) ∧
            (step.after n).memory = n.memory.setAll writes := by
  have kept : pushingHost.segments.isStale = false := rfl
  have noResume : ¬pushingHost.Resumes := by
    rintro ⟨-, -, -, i, prepared, opcode⟩
    have pushes : (prepare pushingHost.processor.ip).outcome pushingHost.begun =
        .ok ⟨.push, 0, 2, [⟨7, none⟩]⟩ := by decide +kernel
    rw [pushes] at prepared
    cases prepared
    cases opcode
  have noExit : ¬pushingHost.Exits := by
    rintro ⟨-, guest, -⟩
    cases guest
  exact ⟨kept, noResume, noExit, step_isolated kept noResume noExit⟩

/-! ## Exits that fail -/

/-- The sample guest when it tries to halt. -/
def haltingGuest : Machine :=
  { sampleGuest with processor := { sampleGuest.processor with ip := 1 } }

/-- The same guest over a guest table without rows. -/
def strandedGuest : Machine :=
  { haltingGuest with
    memory := haltingGuest.memory.place 0x500 (List.replicate Context.rowWidth Word.allOnes) }

/-- A guest that cannot be left sees more than its segments.  Its step neither enters a guest nor
leaves it, and still does not do what a machine does that looks the same. -/
theorem not_isolated_when_exit_fails :
    strandedGuest.processor.isSegmented = true ∧ strandedGuest.segments.isStale = false ∧
      LooksLike strandedGuest haltingGuest ∧ ¬strandedGuest.Resumes ∧
      strandedGuest.processor.inGuest = true ∧
      (step.after strandedGuest).processor.inGuest = true ∧
      step.outcome strandedGuest = .error (.unknownGuestSlot hostSlot) ∧
      step.outcome haltingGuest = .ok true := by
  refine ⟨by decide, rfl, ⟨⟨rfl, rfl, rfl, rfl, rfl, rfl⟩, fun space a reached => ?_⟩, ?_, rfl,
    by decide +kernel, by decide +kernel, by decide +kernel⟩
  · have below := lt_of_covers_sampleSegments
      ((reaches_iff_covers (by decide) rfl space a).mp reached)
    exact (Memory.get_congr (Memory.cell?_place_of_outside (by decide) (.inl (by omega)))).symm
  · rintro ⟨-, host, -⟩
    cases host

end WordMachine.Machine
