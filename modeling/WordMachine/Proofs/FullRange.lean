import WordMachine.Proofs.Parts
import WordMachine.Proofs.SavedContext
import WordMachine.Proofs.Switch

/-!
# Segments that cover everything

A segment table whose segments cover every address is no different from none.
Translation is the identity either way, and if the register segment lies where
the registers lie in flat memory, so do the registers.

The face is all that a program can see of such a machine.  `Twins` are hosts with
the same face and with segments that cover everything, or without any.  Work is
`Uniform` if twins agree on how it ends and stay twins.  That is a compositional
property, so it holds of every instruction that reads no control register and
enters no guest, of a step (`step_agrees`), and of a run.
-/

namespace WordMachine

/-- Whether an instruction neither enters a guest nor names a control register. -/
def Instruction.IsPlain (i : Instruction) : Prop :=
  i.opcode ≠ .vmResume ∧ ∀ d ∈ i.operands, d.kind ≠ .control

namespace Machine

variable {ε ε' α β : Type} {m m' n n' : Machine}

/-! ## Machines that reach everything -/

/-- Whether a selector picks a segment of a kind with these bounds. -/
def Spans (table : List Segment) (selector : Word) (kind : SegmentKind) (start limit : Word) :
    Prop :=
  ∃ s, table[selector.toNat]? = some s ∧ s.kind = kind ∧ s.start = start ∧ s.limit = limit

/-- A machine that keeps a segment table of which it selects segments that cover everything. -/
structure SpansAll (m : Machine) (table : List Segment) : Prop where
  segmented : m.processor.isSegmented = true
  kept : m.segments.snapshot = some table
  code : Spans table m.processor.cs .code 0 0xFFFFFFFF
  data : Spans table m.processor.ds .data 0 0xFFFFFFFF
  extraData : Spans table m.processor.es .data 0 0xFFFFFFFF
  stack : Spans table m.processor.ss .stack 0 0xFFFFFFFF
  /-- The registers lie where they lie in flat memory. -/
  register : Spans table m.processor.rs .register 0x2000 0x201E

/-- A machine that reaches every cell, and whose registers lie as in flat memory. -/
structure FullRange (m : Machine) : Prop where
  settled : m.Settled
  reaches : ∀ space, space ≠ .register → ∀ a, m.reaches space a = true
  register : ∀ index, m.registerCell? index = some (flatRegisterBase + UInt32.ofNat index)

theorem fullRange_of_flat (flat : m.processor.isSegmented = false) : m.FullRange where
  settled := by simp [Settled, flat]
  reaches space _ a := by simp [Machine.reaches, flat]
  register index := by simp [registerCell?, flat]

theorem SpansAll.fullRange {table : List Segment} (h : m.SpansAll table) : m.FullRange where
  settled _ := by simp [TableCache.isStale, h.kept]
  reaches space memory a := by
    have all {selector : Word} {kind : SegmentKind} (spans : Spans table selector kind 0 0xFFFFFFFF) :
        Covers table selector kind a := by
      obtain ⟨s, selected, isKind, start, limit⟩ := spans
      refine ⟨s, selected, isKind, ?_⟩
      have bound := a.toNat_lt
      have last : (0xFFFFFFFF : Word).toNat = 0xFFFFFFFF := rfl
      simp only [Segment.contains, start, limit, last, decide_eq_true_eq]
      exact ⟨Nat.zero_le _, by omega⟩
    rw [reaches_iff_covers h.segmented h.kept]
    cases space with
    | code => exact all h.code
    | data => exact all h.data
    | extraData => exact all h.extraData
    | stack => exact all h.stack
    | register => exact absurd rfl memory
  register index := by
    obtain ⟨s, selected, isKind, start, -⟩ := h.register
    have found : m.segment? .register = some s := by
      simp [segment?, keptSegments, h.segmented, h.kept, Processor.selector, selected,
        AddressSpace.kind, isKind]
    rw [registerCell?, if_pos h.segmented, found]
    simp [start, flatRegisterBase]

theorem FullRange.congr (h : m.FullRange) (same : m'.hidden = m.hidden) : m'.FullRange := by
  simp only [hidden, Hidden.mk.injEq] at same
  obtain ⟨segments, -, table, -, selector, -⟩ := same
  have segmented : m'.processor.isSegmented = m.processor.isSegmented := by
    simp only [Processor.isSegmented, table]
  have found (space : AddressSpace) : m'.segment? space = m.segment? space := by
    simp only [segment?, keptSegments, segmented, segments, selector]
  constructor
  · unfold Settled
    rw [segmented, segments]
    exact h.settled
  · intro space memory a
    rw [Machine.reaches, segmented, found]
    exact h.reaches space memory a
  · intro index
    rw [registerCell?, segmented, found]
    exact h.register index

namespace FullRange

variable (h : m.FullRange)
include h

theorem translate {space : AddressSpace} (memory : space ≠ .register) (offset : Word) :
    Machine.translate space offset m = .ok offset m := by
  rw [translate_eq h.settled, if_pos (h.reaches space memory offset)]

theorem registerAddress {index : Nat} (small : index < registerCount) :
    Machine.registerAddress index m = .ok (flatRegisterBase + UInt32.ofNat index) m := by
  rw [registerAddress_eq h.settled small, h.register]

end FullRange

/-! ## Twins -/

/-- Hosts that reach everything, with the same face. -/
structure Twins (m n : Machine) : Prop where
  face : m.face = n.face
  left : m.FullRange
  right : n.FullRange
  leftHost : m.processor.inGuest = false
  rightHost : n.processor.inGuest = false

namespace Twins

variable (h : Twins m n)
include h

theorem memory : m.memory = n.memory := congrArg Face.memory h.face

theorem ip : m.processor.ip = n.processor.ip := congrArg Face.ip h.face

theorem isRunning : m.isRunning = n.isRunning := by
  have status : m.status = n.status := congrArg Face.status h.face
  rw [Machine.isRunning, status, Machine.isRunning]

theorem timerFires : m.timerFires = n.timerFires := by
  have interrupt : m.processor.interrupt = n.processor.interrupt := congrArg Face.interrupt h.face
  simp only [Machine.timerFires, Processor.timerPending, Processor.interruptsEnabled, interrupt]

/-- A change of the face leaves twins twins. -/
theorem change {u : Machine → Machine} (F : Face → Face) (acts : ∀ m, (u m).face = F m.face)
    (keeps : ∀ m, (u m).hidden = m.hidden) : Twins (u m) (u n) where
  face := by rw [acts, acts, h.face]
  left := h.left.congr (keeps m)
  right := h.right.congr (keeps n)
  leftHost := (inGuest_eq_of_hidden (keeps m)).trans h.leftHost
  rightHost := (inGuest_eq_of_hidden (keeps n)).trans h.rightHost

end Twins

/-- Results that are the same on machines that are twins. -/
inductive Agree : EStateM.Result ε Machine α → EStateM.Result ε Machine α → Prop
  | ok {m n : Machine} (a : α) (twins : Twins m n) : Agree (.ok a m) (.ok a n)
  | error {m n : Machine} (e : ε) (twins : Twins m n) : Agree (.error e m) (.error e n)

theorem Agree.bind {x y : Action ε α} {f g : α → Action ε β} (first : Agree (x m) (y n))
    (next : ∀ a m' n', x m = .ok a m' → Twins m' n' → Agree (f a m') (g a n')) :
    Agree ((x >>= f) m) ((y >>= g) n) := by
  rw [Action.bind_apply, Action.bind_apply]
  cases left : x m <;> cases right : y n <;> rw [left, right] at first <;> cases first
  · exact next _ _ _ left ‹_›
  · exact .error _ ‹_›

/-- Work on whose end twins agree. -/
def Uniform (x : Action ε α) : Prop := ∀ m n, Twins m n → Agree (x m) (x n)

namespace Uniform

variable {x : Action ε α} {f : α → Action ε β}

theorem pure (a : α) : Uniform (Pure.pure a : Action ε α) := fun _ _ twins => .ok a twins

theorem throw (e : ε) : Uniform (MonadExcept.throw e : Action ε α) := fun _ _ twins => .error e twins

theorem bind (first : Uniform x) (next : ∀ a, Uniform (f a)) : Uniform (x >>= f) :=
  fun m n twins => (first m n twins).bind fun a m' n' _ twins => next a m' n' twins

theorem ite {c : Prop} [Decidable c] {y : Action ε α} (pos : Uniform x) (neg : Uniform y) :
    Uniform (if c then x else y) := by
  split
  · exact pos
  · exact neg

theorem adapt {g : ε → ε'} (first : Uniform x) : Uniform (x.adaptExcept g) := by
  intro m n twins
  have same := first m n twins
  simp only [EStateM.adaptExcept]
  cases left : x m <;> cases right : x n <;> rw [left, right] at same <;> cases same
  · exact .ok _ ‹_›
  · exact .error _ ‹_›

/-- A change of the face. -/
theorem change {u : Machine → Machine} (F : Face → Face) (acts : ∀ m, (u m).face = F m.face)
    (keeps : ∀ m, (u m).hidden = m.hidden) : Uniform (fun m => .ok () (u m) : Action ε Unit) :=
  fun _ _ twins => .ok () (twins.change F acts keeps)

/-- What follows a look at the processor may depend on the face of it. -/
theorem look {next : Processor → Action ε β}
    (same : ∀ m n : Machine, m.face = n.face → next m.processor = next n.processor)
    (holds : ∀ p, Uniform (next p)) : Uniform (processorState >>= next) := by
  intro m n twins
  show Agree (next m.processor m) (next n.processor n)
  rw [same m n twins.face]
  exact holds n.processor m n twins

/-- What follows a look at the processor, on machines that are twins. -/
theorem processor {next : Processor → Action ε β}
    (same : ∀ m n, Twins m n → Agree (next m.processor m) (next n.processor n)) :
    Uniform (processorState >>= next) := same

end Uniform

/-! ## Small actions -/

theorem readCell_uniform (a : Word) : Uniform (readCell a : Action ε Word) := by
  intro m n twins
  show Agree (.ok (m.memory.get a) m) (.ok (n.memory.get a) n)
  rw [twins.memory]
  exact .ok _ twins

theorem translate_uniform {space : AddressSpace} (memory : space ≠ .register) (offset : Word) :
    Uniform (translate space offset) := by
  intro m n twins
  rw [twins.left.translate memory, twins.right.translate memory]
  exact .ok offset twins

theorem registerAddress_uniform (index : Nat) : Uniform (registerAddress index) := by
  intro m n twins
  by_cases small : index < registerCount
  · rw [twins.left.registerAddress small, twins.right.registerAddress small]
    exact .ok _ twins
  · have large := Nat.not_lt.mp small
    rw [registerAddress_of_ge large, registerAddress_of_ge large]
    exact .error _ twins

/-- In the host nothing is left to the host. -/
theorem hostOnly_uniform (reason : TrapReason) (resumeIp : Word) (extra : List Word) :
    Uniform (hostOnly reason resumeIp extra) := by
  intro m n twins
  rw [hostOnly_of_host twins.leftHost, hostOnly_of_host twins.rightHost]
  exact .ok () twins

theorem uniform : Compositional fun _ x => Uniform x where
  pure := .pure
  throw _ := .throw _
  bind := .bind
  look := .look
  readCell := readCell_uniform
  change c := .change c.onFace c.face_apply c.hidden_apply
  translate := translate_uniform
  registerAddress := registerAddress_uniform
  hostOnly := hostOnly_uniform

/-! ## Executing -/

theorem fetchChecked_ends (settled : m.Settled) (ip : Word) :
    (fetchChecked ip).Ends m (fun i m' => m' = m.remember i ∧ i.Obeys) (fun _ _ => True) := by
  refine .bind (fetchInstruction_ends settled ip) ?_ fun _ _ _ => trivial
  rintro i _ ⟨rfl, decoded⟩
  refine (checkPrivilege_reads _ i).bind_ends (fun _ _ => ?_) fun _ _ => trivial
  exact .pure ⟨rfl, Instruction.obeys_of_decode decoded⟩

/-- An operand that names no control register is no place for one. -/
theorem target_of_plain {ds : List OperandDescriptor} {os : List ResolvedOperand}
    (resolved : List.Forall₂ m.Resolves ds os) (plain : ∀ d ∈ ds, d.kind ≠ .control)
    (r : ControlRegister) : os[0]?.bind (·.target) ≠ some (.control r) := by
  intro target
  cases resolved with
  | nil => simp at target
  | cons first rest =>
    have control := first.kind_eq_control target
    exact plain _ List.mem_cons_self control

theorem executeAt_agrees (twins : Twins m n) {ip : Word}
    (plain : ∀ i, (fetchChecked ip).outcome m = .ok i → i.IsPlain) :
    Agree (executeAt ip m) (executeAt ip n) := by
  rw [executeAt_eq]
  have fetches := uniform.fetchChecked (fun _ => .change id (fun _ => rfl) fun _ => rfl) ip
  refine Agree.bind (fetches m n twins) fun i m₁ n₁ fetched twins₁ => ?_
  obtain ⟨noResume, noControl⟩ := plain i (by simp [Action.outcome, fetched])
  obtain ⟨-, obeys⟩ := (fetchChecked_ends twins.left.settled ip).ok fetched
  have resolves : Uniform (resolveAll ip 0 (ip + 1) i.operands) :=
    uniform.resolveAll (fun d member control => absurd control (noControl d member)) 0 (ip + 1)
  refine (resolves m₁ n₁ twins₁).bind fun os m₂ n₂ resolved twins₂ => ?_
  have places := ((resolveAll_reads twins₁.left.settled ip obeys 0 (ip + 1)).ok resolved).2.1
  refine Uniform.bind (uniform.perform noResume) (fun o => ?_) m₂ n₂ twins₂
  refine .bind (uniform.writeResult (fun r v target => ?_) o) fun _ => uniform.follow _ _
  exact absurd target (target_of_plain places noControl r)

/-! ## Delivery -/

theorem raiseInterrupt_uniform (number returnIp : Word) (extra : List Word) :
    Uniform (raiseInterrupt number returnIp extra) := by
  have moves : Uniform (modifyProcessor fun p =>
      { p with ip := Interrupt.vector number } : Action FatalError Unit) :=
    .change (fun f => { f with ip := Interrupt.vector number }) (fun _ => rfl) fun _ => rfl
  refine .ite (.bind (.throw _) fun _ => ?_) ?_
  all_goals
    refine .processor fun m n twins => ?_
    rw [twins.leftHost, twins.rightHost]
    exact Uniform.bind (.adapt (uniform.pushAll _)) (fun _ => moves) m n twins

theorem deliverFault_uniform (ip : Word) (f : Fault) : Uniform (deliverFault ip f) := by
  obtain ⟨reason, resumeIp, extra, -, eq⟩ | ⟨number, returnIp, extra, -, eq⟩ :=
    deliverFault_cases ip f
  · intro m n twins
    rw [eq, raiseTrap_of_host twins.leftHost, raiseTrap_of_host twins.rightHost]
    exact .error _ twins
  · rw [eq]
    exact raiseInterrupt_uniform number returnIp extra

/-! ## Steps -/

/-- The instruction that the next step executes, if it gets as far as its operands. -/
def Executes (m : Machine) (i : Instruction) : Prop :=
  m.isRunning = true ∧ m.timerFires = false ∧
    (fetchChecked m.processor.ip).outcome m.begun = .ok i

theorem hidden_begun (m : Machine) : m.begun.hidden = m.hidden := by
  unfold hidden
  rw [processor_begun]
  rfl

theorem Twins.begun (twins : Twins m n) : Twins m.begun n.begun where
  face := by
    have fires := twins.timerFires
    have same := twins.face
    simp only [Machine.face, Face.mk.injEq] at same
    obtain ⟨memory, ip, sp, flags, privilege, counter, compare, interrupt, status, cycles, console⟩ :=
      same
    simp only [Machine.face, Machine.begun, fires]
    split
    · simp [Processor.clearTimerPending, *]
    · simp only [Processor.tick, *]
      split
      · split <;> simp [*]
      · simp [*]
  left := twins.left.congr (hidden_begun m)
  right := twins.right.congr (hidden_begun n)
  leftHost := (inGuest_begun m).trans twins.leftHost
  rightHost := (inGuest_begun n).trans twins.rightHost

theorem conclude_agrees {x : Action FatalError Unit} (agree : Agree (x m) (x n)) :
    Agree (conclude x m) (conclude x n) := by
  unfold conclude
  cases left : x m <;> cases right : x n <;> rw [left, right] at agree <;> cases agree
  case ok.ok u m' n' twins =>
    show Agree (.ok m'.isRunning m') (.ok n'.isRunning n')
    rw [twins.isRunning]
    exact .ok _ twins
  case error.error e m' n' twins =>
    exact .error e (twins.change (u := fun m => { m with status := .error })
      (fun f => { f with status := .error }) (fun _ => rfl) fun _ => rfl)

theorem step_agrees (twins : Twins m n) (plain : ∀ i, m.Executes i → i.IsPlain) :
    Agree (step m) (step n) := by
  have begun := twins.begun
  cases running : m.isRunning with
  | false =>
    rw [step_of_not_isRunning running, step_of_not_isRunning (twins.isRunning ▸ running)]
    exact .ok false twins
  | true =>
    have running' : n.isRunning = true := twins.isRunning ▸ running
    cases fires : m.timerFires with
    | true =>
      rw [step_of_timer running fires, step_of_timer running' (twins.timerFires ▸ fires), twins.ip]
      exact conclude_agrees (raiseInterrupt_uniform _ _ _ _ _ begun)
    | false =>
      rw [step_of_not_timer running fires, step_of_not_timer running' (twins.timerFires ▸ fires),
        ← twins.ip]
      refine conclude_agrees ?_
      have executes := executeAt_agrees begun fun i fetched => plain i ⟨running, fires, fetched⟩
      rw [executeAndDeliver_eq, executeAndDeliver_eq]
      cases left : executeAt m.processor.ip m.begun <;>
        cases right : executeAt m.processor.ip n.begun <;>
        rw [left, right] at executes <;> cases executes
      case ok.ok u m' n' twins' => exact .ok _ twins'
      case error.error e m' n' twins' =>
        cases e with
        | fatal e => exact .error e twins'
        | fault f => exact deliverFault_uniform _ f m' n' twins'

theorem Agree.outcome {x : Action ε α} (agree : Agree (x m) (x n)) :
    x.outcome m = x.outcome n := by
  unfold Action.outcome
  cases left : x m <;> cases right : x n <;> rw [left, right] at agree <;> cases agree <;> rfl

theorem Agree.after {x : Action ε α} (agree : Agree (x m) (x n)) :
    Twins (x.after m) (x.after n) := by
  unfold Action.after
  cases left : x m <;> cases right : x n <;> rw [left, right] at agree <;> cases agree <;> assumption

/-! ## Runs -/

theorem afterSteps_twins (twins : Twins m n) {count : Nat}
    (plain : ∀ k < count, ∀ i, (afterSteps k m).Executes i → i.IsPlain) {k : Nat}
    (known : k ≤ count) : Twins (afterSteps k m) (afterSteps k n) := by
  induction k with
  | zero => exact twins
  | succ k ih => exact (step_agrees (ih (by omega)) (plain k known)).after

/-- Segments that cover everything are flat addressing.  A host with such segments does at every step
what a host without segments does, and keeps the same face, as long as the instructions that are
executed are plain. -/
theorem steps_eq_of_spansAll {table : List Segment} (host : m.processor.inGuest = false)
    (flat : m.processor.isSegmented = false) (host' : n.processor.inGuest = false)
    (spans : n.SpansAll table) (same : m.face = n.face) (count : Nat)
    (plain : ∀ k < count, ∀ i, (afterSteps k m).Executes i → i.IsPlain) :
    (∀ k < count, step.outcome (afterSteps k m) = step.outcome (afterSteps k n)) ∧
      (afterSteps count m).face = (afterSteps count n).face := by
  have twins : Twins m n := ⟨same, fullRange_of_flat flat, spans.fullRange, host, host'⟩
  constructor
  · intro k known
    have before := afterSteps_twins twins plain (Nat.le_of_lt known)
    exact (step_agrees before (plain k known)).outcome
  · exact (afterSteps_twins twins plain (Nat.le_refl count)).face

/-- Segments that cover everything. -/
def wideSegments : List Segment :=
  [⟨0, 0xFFFFFFFF, .code, 0, by decide⟩, ⟨0, 0xFFFFFFFF, .data, 0, by decide⟩,
    ⟨0, 0xFFFFFFFF, .stack, 0, by decide⟩, ⟨0x2000, 0x201E, .register, 0, by decide⟩]

/-- A host in flat memory that is about to push a word. -/
def flatHost : Machine := { memory := pushingHost.memory }

/-- The same host with segments that cover everything, and with its table in the way of the push. -/
def wideHost : Machine :=
  { flatHost with
    processor := { sp := 0x2000, cs := 0, ds := 1, es := 1, ss := 2, rs := 3, segmentTable := 0x1FFF }
    segments := ⟨some wideSegments⟩ }

theorem steps_eq_of_spansAll_wideHost :
    flatHost.processor.inGuest = false ∧ flatHost.processor.isSegmented = false ∧
      wideHost.processor.inGuest = false ∧ wideHost.SpansAll wideSegments ∧
      flatHost.face = wideHost.face ∧ (∀ i, flatHost.Executes i → i.IsPlain) ∧
      (afterSteps 1 flatHost).face = (afterSteps 1 wideHost).face := by
  have pushes : (fetchChecked 0).outcome flatHost.begun =
      .ok ⟨.push, 0, [⟨.immediate, Fin.last 31⟩]⟩ := by decide +kernel
  have plain : ∀ i, flatHost.Executes i → i.IsPlain := by
    rintro i ⟨-, -, fetched⟩
    obtain rfl : _ = i := Except.ok.inj (pushes.symm.trans fetched)
    exact ⟨by decide, by decide⟩
  have spans : wideHost.SpansAll wideSegments := {
    segmented := by decide
    kept := rfl
    code := ⟨_, rfl, rfl, rfl, rfl⟩
    data := ⟨_, rfl, rfl, rfl, rfl⟩
    extraData := ⟨_, rfl, rfl, rfl, rfl⟩
    stack := ⟨_, rfl, rfl, rfl, rfl⟩
    register := ⟨_, rfl, rfl, rfl, rfl⟩ }
  have all : ∀ k < 1, ∀ i, (afterSteps k flatHost).Executes i → i.IsPlain := by
    intro k first
    obtain rfl : k = 0 := by omega
    exact plain
  have flat : flatHost.processor.isSegmented = false := by decide
  have same : flatHost.face = wideHost.face := rfl
  exact ⟨by decide, flat, by decide, spans, same, plain,
    (steps_eq_of_spansAll (by decide) flat (by decide) spans same 1 all).2⟩

end Machine

end WordMachine
