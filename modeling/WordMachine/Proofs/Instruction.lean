import WordMachine.Proofs.LocalChange

/-!
# What an instruction does to a settled machine

What an instruction does beyond a local change is an `Effect`, and no
instruction has more than one.  It happens in the host only: halting, printing,
switching interrupts, writing a control register, and entering a guest.
`executeAt_ends` says that executing an instruction is a local change, then an
effect, then a jump.

A failure of an instruction is a fault that leaves a local change behind, unless
the instruction enters a guest.
-/

namespace WordMachine.Machine

variable {m m' m₁ m₂ : Machine} {i : ResolvedInstruction}

/-! ## What an instruction may do beyond a local change -/

/-- The one change of an instruction that is not local. -/
inductive Effect (i : ResolvedInstruction) (m : Machine) : Machine → Prop
  /-- There is none. -/
  | none : Effect i m m
  /-- The host halts. -/
  | halt : i.opcode = .halt → m.processor.inGuest = false → Effect i m { m with status := .halted }
  /-- The host prints. -/
  | print : i.opcode = .print → m.processor.inGuest = false → Effect i m (m.emit i.first)
  /-- The host switches the delivery of interrupts. -/
  | interrupts (on : Bool) : i.opcode = (if on then .sti else .cli) →
      m.processor.inGuest = false →
      Effect i m { m with processor := m.processor.setInterruptsEnabled on }
  /-- The host writes a control register. -/
  | control (r : ControlRegister) : i.opcode = .mov → i.target? = some (.control r) →
      m.processor.inGuest = false → Effect i m (m.setControl r i.second)
  /-- The host enters a guest. -/
  | resume (o : Outcome) (m' : Machine) : i.opcode = .vmResume → m.processor.inGuest = false →
      performResume i m = .ok o m' → Effect i m m'

/-- How performing an instruction ends if it does not fail. -/
inductive Performed (i : ResolvedInstruction) (m : Machine) : Outcome → Machine → Prop
  /-- With a local change, perhaps with a result. -/
  | plain {o : Outcome} {m' : Machine} (change : LocalChange m m')
      (result : ∀ v, o.result = some v →
        i.opcode.hasResult = true ∧ (i.opcode = .mov → v = i.second))
      (goesOn : o.control ≠ .halt) : Performed i m o m'
  /-- With an effect and no result. -/
  | effect {o : Outcome} {m' : Machine} (effect : Effect i m m') (result : o.result = .none)
      (goesOn : o.control ≠ .halt) : Performed i m o m'
  /-- By halting. -/
  | halt (opcode : i.opcode = .halt) (host : m.processor.inGuest = false) :
      Performed i m { control := .halt } m

/-- Performing has no result and leaves a local change. -/
theorem Performed.local {o : Outcome} (change : LocalChange m m') (result : o.result = .none)
    (goesOn : o.control ≠ .halt) : Performed i m o m' :=
  .plain change (fun v h => by rw [result] at h; cases h) goesOn

/-- Performing has a result and leaves a local change. -/
theorem Performed.value {v : Word} (change : LocalChange m m') (opcode : i.opcode.hasResult = true)
    (move : i.opcode = .mov → v = i.second) : Performed i m (.value v) m' :=
  .plain change (fun _ h => by cases h; exact ⟨opcode, move⟩) (by simp [Outcome.value])

/-! ## Performing -/

theorem hostOnly_of_guest (guest : m.processor.inGuest = true) (reason : TrapReason)
    (resumeIp : Word) (extra : List Word) :
    hostOnly reason resumeIp extra m = .error (.fault (.guestTrap reason resumeIp extra)) m := by
  show (if m.processor.inGuest then _ else _ : Action Exception Unit) m = _
  rw [if_pos guest]
  rfl

theorem hostOnly_of_host (host : m.processor.inGuest = false) (reason : TrapReason)
    (resumeIp : Word) (extra : List Word) : hostOnly reason resumeIp extra m = .ok () m := by
  show (if m.processor.inGuest then _ else _ : Action Exception Unit) m = _
  rw [host]
  rfl

theorem hostOnly_reads (m : Machine) (reason : TrapReason) (resumeIp : Word) (extra : List Word) :
    (hostOnly reason resumeIp extra).Reads m (fun _ => m.processor.inGuest = false)
      Exception.IsFault := by
  cases inside : m.processor.inGuest with
  | true => exact .of_error (hostOnly_of_guest inside _ _ _) ⟨_, rfl⟩
  | false => exact .of_ok (hostOnly_of_host inside _ _ _) rfl

/-- What is for the host only traps in a guest, before it has done anything. -/
theorem perform_of_guest {reason : TrapReason} {resumeIp : Word} {extra : List Word}
    {x : Unit → Action Exception Outcome} (guest : m.processor.inGuest = true)
    (performs : perform i = hostOnly reason resumeIp extra >>= x) :
    perform i m = .error (.fault (.guestTrap reason resumeIp extra)) m := by
  rw [performs]
  exact Action.bind_of_error (hostOnly_of_guest guest reason resumeIp extra) x

theorem performArithmetic_ends (m : Machine) (known : (ArithmeticOp.ofOpcode? i.opcode).isSome)
    (opcode : i.opcode.hasResult = true) (noMove : i.opcode ≠ .mov) :
    (performArithmetic i).Ends m (Performed i m) (fun e m' => LocalChange m m' ∧ e.IsFault) := by
  unfold performArithmetic
  cases op : ArithmeticOp.ofOpcode? i.opcode with
  | none => simp [op] at known
  | some a =>
    cases value : a.evaluate? i.first i.second with
    | none => simp only [value]; exact .throw ⟨.refl m, _, rfl⟩
    | some v =>
      simp only [value]
      exact .pure (.value (.refl m) opcode fun h => absurd h noMove)

theorem performBranch_ends (m : Machine) (known : (Condition.ofOpcode? i.opcode).isSome) :
    (performBranch i).Ends m (Performed i m) (fun e m' => LocalChange m m' ∧ e.IsFault) := by
  unfold performBranch
  cases condition : Condition.ofOpcode? i.opcode with
  | none => simp [condition] at known
  | some c =>
    refine (processorState_reads m).bind_ends (F := Exception.IsFault) ?_ fun e h => ⟨.refl m, h⟩
    rintro _ rfl
    split
    · exact .pure (.local (.refl m) rfl (by simp [Outcome.jump]))
    · exact .pure (.local (.refl m) rfl (by simp [Outcome.next]))

theorem performEnter_ends (settled : m.Settled) :
    (performEnter i).Ends m (Performed i m) (fun e m' => LocalChange m m' ∧ e.IsFault) := by
  refine (readRegister_reads settled (by decide)).bind_ends (fun saved _ => ?_)
    fun e h => ⟨.refl m, h⟩
  refine .bind (push_ends settled saved) (fun _ m₁ pushed => ?_) fun e m₁ h => h
  refine (processorState_reads m₁).bind_ends (F := Exception.IsFault) ?_ fun e h => ⟨pushed, h⟩
  rintro _ rfl
  refine .bind (writeRegister_ends (pushed.settled settled) (by decide) _) (fun _ m₂ written => ?_)
    fun e m₂ h => ⟨pushed.trans h.1, h.2⟩
  have change : LocalChange m (m₂.withSp (m₁.processor.sp - i.first)) :=
    (pushed.trans written).trans (.withSp _ _)
  exact Performed.local (o := .next) change rfl (by simp [Outcome.next])

theorem performLeave_ends (settled : m.Settled) :
    performLeave.Ends m (Performed i m) (fun e m' => LocalChange m m' ∧ e.IsFault) := by
  refine (readRegister_reads settled (by decide)).bind_ends (fun frame _ => ?_)
    fun e h => ⟨.refl m, h⟩
  have moved : LocalChange m (m.withSp frame) := .withSp m frame
  have sets : (modifyProcessor fun p => { p with sp := frame } : Action Exception Unit).Ends m
      (fun _ m' => m' = m.withSp frame) (fun _ _ => False) := rfl
  refine .bind sets ?_ fun _ _ h => h.elim
  rintro _ _ rfl
  refine .bind (pop_ends (moved.settled settled)) (fun saved m₂ popped => ?_)
    fun e m₂ h => ⟨moved.trans h.1, h.2⟩
  have change := moved.trans popped
  refine .bind (writeRegister_ends (change.settled settled) (by decide) saved)
    (fun _ m₃ written => ?_) fun e m₃ h => ⟨change.trans h.1, h.2⟩
  exact .pure (.local (change.trans written) rfl (by simp [Outcome.next]))

theorem performGetArgument_ends (settled : m.Settled) (opcode : i.opcode = .getArgument) :
    (performGetArgument i).Ends m (Performed i m) (fun e m' => LocalChange m m' ∧ e.IsFault) := by
  refine (readRegister_reads settled (by decide)).bind_ends (fun frame _ => ?_)
    fun e h => ⟨.refl m, h⟩
  refine (translate_reads settled .stack (frame + 2 + i.second)).bind_ends (fun a _ => ?_)
    fun e h => ⟨.refl m, h⟩
  refine (readCell_reads m a).bind_ends (F := Exception.IsFault) (fun v _ => ?_)
    fun e h => ⟨.refl m, h⟩
  exact .pure (.value (.refl m) (by simp [opcode, Opcode.hasResult]) (by simp [opcode]))

theorem performSetInterrupts_ends (m : Machine) (on : Bool)
    (opcode : i.opcode = if on then .sti else .cli) :
    (performSetInterrupts i on).Ends m (Performed i m)
      (fun e m' => LocalChange m m' ∧ e.IsFault) := by
  refine (hostOnly_reads m _ _ _).bind_ends (fun _ host => ?_) fun e h => ⟨.refl m, h⟩
  exact Performed.effect (o := .next) (.interrupts on opcode host) rfl (by simp [Outcome.next])

theorem performResume_of_guest (guest : m.processor.inGuest = true) :
    performResume i m = .error (.fault (.guestTrap .vmResume i.ip [i.first])) m :=
  Action.bind_of_error (hostOnly_of_guest guest _ _ _) _

theorem performResume_outcome {o : Outcome} (h : performResume i m = .ok o m') :
    o = { control := .redirected } := by
  have ends : (performResume i).Ends m (fun o _ => o = { control := .redirected })
      (fun _ _ => True) := by
    refine .bind (.trivial _ _) (fun _ _ _ => ?_) fun _ _ h => h
    refine .bind (.trivial _ _) (fun rows _ _ => ?_) fun _ _ h => h
    split
    · exact .throw True.intro
    · refine .bind (.trivial _ _) (fun _ _ _ => ?_) fun _ _ h => h
      refine .bind (.trivial _ _) (fun _ _ _ => ?_) fun _ _ h => h
      exact .bind (.trivial _ _) (fun _ _ _ => .pure rfl) fun _ _ h => h
  exact ends.ok h

/-- Performing `VMRESUME` in the host. -/
theorem performResume_ends_of_host (host : m.processor.inGuest = false)
    (opcode : i.opcode = .vmResume) :
    (performResume i).Ends m (Performed i m) (fun e m' => performResume i m = .error e m') := by
  cases resumed : performResume i m with
  | ok o m' =>
    have goesOn := performResume_outcome resumed
    refine .of_ok resumed (.effect (.resume o m' opcode host resumed) ?_ ?_) <;> simp [goesOn]
  | error e m' => exact .of_error resumed rfl

/-- Performing an instruction other than `VMRESUME` fails only with a fault. -/
theorem perform_ends_of_ne (settled : m.Settled) (noResume : i.opcode ≠ .vmResume) :
    (perform i).Ends m (Performed i m) (fun e m' => LocalChange m m' ∧ e.IsFault) := by
  unfold perform
  cases opcode : i.opcode
  case add | sub | mul | div | mod | or | xor | and | not | shl | shr =>
    exact performArithmetic_ends m (by simp [opcode, ArithmeticOp.ofOpcode?])
      (by simp [opcode, Opcode.hasResult]) (by simp [opcode])
  case jmp | jz | jnz | jgt | jge =>
    exact performBranch_ends m (by simp [opcode, Condition.ofOpcode?])
  case mov =>
    exact .pure (.value (.refl m) (by simp [opcode, Opcode.hasResult]) fun _ => rfl)
  case nop => exact .pure (.local (.refl m) rfl (by simp [Outcome.next]))
  case halt =>
    refine (hostOnly_reads m _ _ _).bind_ends (fun _ host => ?_) fun e h => ⟨.refl m, h⟩
    exact .pure (.halt opcode host)
  case print =>
    refine (hostOnly_reads m _ _ _).bind_ends (fun _ host => ?_) fun e h => ⟨.refl m, h⟩
    exact Performed.effect (o := .next) (.print opcode host) rfl (by simp [Outcome.next])
  case cmp =>
    exact Performed.local (o := .next) (.withFlags m (.comparison i.first i.second)) rfl
      (by simp [Outcome.next])
  case call =>
    refine .bind (push_ends settled i.nextIp) (fun _ m' pushed => ?_) fun e m' h => h
    exact .pure (.local pushed rfl (by simp [Outcome.jump]))
  case ret | reti =>
    refine .bind (pop_ends settled) (fun target m' popped => ?_) fun e m' h => h
    exact .pure (.local popped rfl (by simp [Outcome.jump]))
  case retn =>
    refine .bind (pop_ends settled) (fun target m' popped => ?_) fun e m' h => h
    have change := popped.trans (.withSp m' (m'.processor.sp + i.first))
    exact Performed.local (o := .jump target) change rfl (by simp [Outcome.jump])
  case push =>
    refine .bind (push_ends settled i.first) (fun _ m' pushed => ?_) fun e m' h => h
    exact .pure (.local pushed rfl (by simp [Outcome.next]))
  case pop =>
    refine .bind (pop_ends settled) (fun v m' popped => ?_) fun e m' h => h
    exact .pure (.value popped (by simp [opcode, Opcode.hasResult]) (by simp [opcode]))
  case enter => exact performEnter_ends settled
  case leave => exact performLeave_ends settled
  case getArgument => exact performGetArgument_ends settled opcode
  case int => exact .throw ⟨.refl m, _, rfl⟩
  case vmResume => exact absurd opcode noResume
  case cli => exact performSetInterrupts_ends m false (by simp [opcode])
  case sti => exact performSetInterrupts_ends m true (by simp [opcode])

/-- Performing an instruction fails only with a fault, unless it enters a guest. -/
theorem perform_ends (settled : m.Settled) :
    (perform i).Ends m (Performed i m) (fun e m' => (LocalChange m m' ∧ e.IsFault) ∨
      i.opcode = .vmResume ∧ m.processor.inGuest = false ∧ performResume i m = .error e m') := by
  by_cases opcode : i.opcode = .vmResume
  · rw [perform_of_resume opcode]
    cases guest : m.processor.inGuest with
    | true => exact .of_error (performResume_of_guest guest) (.inl ⟨.refl m, _, rfl⟩)
    | false =>
      exact (performResume_ends_of_host guest opcode).imp (fun _ _ h => h)
        fun _ _ h => .inr ⟨opcode, rfl, h⟩
  · exact (perform_ends_of_ne settled opcode).imp (fun _ _ h => h) fun _ _ h => .inl h

/-! ## Executing -/

/-- Performs an instruction and carries out the outcome. -/
def carryOut (i : ResolvedInstruction) : Action Exception Unit := do
  let o ← perform i
  writeResult i o
  follow i o.control

theorem executeAt_of_prepare {ip : Word} (prepared : prepare ip m = .ok i m') :
    executeAt ip m = carryOut i m' :=
  Action.bind_of_ok prepared _

theorem Prepared.of_change (h : m.Prepared i) (change : LocalChange m m') : m'.Prepared i where
  canReceive t target := by
    have valid := h.canReceive t target
    cases t with
    | register index => exact valid
    | cell a => simpa only [CanReceive, change.reaches] using valid
    | control r => simpa only [CanReceive, change.inGuest] using valid
  hasTarget := h.hasTarget
  eq_mov := h.eq_mov

/-- Writing the result of an instruction. -/
theorem writeResult_ends (settled : m.Settled) (prepared : m.Prepared i) {o : Outcome}
    (change : LocalChange m m') (result : ∀ v, o.result = some v →
      i.opcode.hasResult = true ∧ (i.opcode = .mov → v = i.second)) :
    (writeResult i o).Ends m' (fun _ m₂ => ∃ m₁, LocalChange m m₁ ∧ Effect i m₁ m₂)
      (fun e m₂ => LocalChange m m₂ ∧ e.IsFault) := by
  unfold writeResult
  cases value : o.result with
  | none => exact .pure ⟨m', change, .none⟩
  | some v =>
    obtain ⟨hasResult, move⟩ := result v value
    obtain ⟨t, target⟩ := Option.isSome_iff_exists.mp (prepared.hasTarget hasResult)
    have valid := (prepared.of_change change).canReceive t target
    simp only [target]
    cases t with
    | register index =>
      exact (writeRegister_ends (change.settled settled) valid v).imp
        (fun _ m₁ written => ⟨m₁, change.trans written, .none⟩)
        fun e m₁ h => ⟨change.trans h.1, h.2⟩
    | cell a =>
      have writable : m'.Writable a := by
        rcases valid with data | extra
        · exact ⟨.data, by decide, data⟩
        · exact ⟨.extraData, by decide, extra⟩
      exact ⟨m'.setCell a v, change.trans (.setCell writable v), .none⟩
    | control r =>
      have opcode := prepared.eq_mov r target
      rw [move opcode]
      exact ⟨m', change, .control r opcode target valid⟩

/-- Going on, except by halting, is a jump. -/
theorem follow_eq {control : Control} (goesOn : control ≠ .halt) (i : ResolvedInstruction)
    (m : Machine) : ∃ ip, follow i control m = .ok () (m.goto ip) := by
  cases control with
  | next => exact ⟨i.nextIp, rfl⟩
  | jump target => exact ⟨target, rfl⟩
  | redirected => exact ⟨m.processor.ip, rfl⟩
  | halt => exact absurd rfl goesOn

/-- What follows once an instruction was performed. -/
theorem finish_ends (settled : m.Settled) (prepared : m.Prepared i) {o : Outcome}
    (performed : Performed i m o m') :
    (do writeResult i o; follow i o.control : Action Exception Unit).Ends m'
      (fun _ m' => ∃ m₁ m₂ ip, LocalChange m m₁ ∧ Effect i m₁ m₂ ∧ m' = m₂.goto ip)
      (fun e m' => LocalChange m m' ∧ e.IsFault) := by
  cases performed with
  | halt opcode host => exact ⟨m, _, i.nextIp, .refl m, .halt opcode host, rfl⟩
  | effect effect result goesOn =>
    have nothing : writeResult i o = pure () := by simp [writeResult, result]
    obtain ⟨ip, eq⟩ := follow_eq goesOn i m'
    rw [nothing]
    exact .of_ok eq ⟨m, m', ip, .refl m, effect, rfl⟩
  | plain change result goesOn =>
    refine .bind (writeResult_ends settled prepared change result) ?_ fun e m₁ h => h
    rintro _ m₂ ⟨m₁, change₁, effect⟩
    obtain ⟨ip, eq⟩ := follow_eq goesOn i m₂
    exact .of_ok eq ⟨m₁, m₂, ip, change₁, effect, rfl⟩

/-- In a guest, `VMRESUME` traps. -/
theorem executeAt_outcome_of_guest_resume (settled : m.Settled) {ip : Word}
    (prepared : (prepare ip).outcome m = .ok i) (opcode : i.opcode = .vmResume)
    (guest : m.processor.inGuest = true) :
    (executeAt ip).outcome m = .error (.fault (.guestTrap .vmResume i.ip [i.first])) := by
  cases ran : prepare ip m with
  | error e m' => simp [Action.outcome, ran] at prepared
  | ok j m' =>
    obtain rfl : j = i := by simpa [Action.outcome, ran] using prepared
    obtain ⟨⟨d, rfl⟩, -⟩ := (prepare_ends settled ip).ok ran
    have traps : executeAt ip m =
        .error (.fault (.guestTrap .vmResume j.ip [j.first])) (m.remember d) := by
      refine (Action.bind_of_ok ran _).trans (Action.bind_of_error ?_ _)
      rw [perform_of_resume opcode]
      exact performResume_of_guest guest
    simp [Action.outcome, traps]

/-- What executing an instruction comes to. -/
theorem executeAt_ends (settled : m.Settled) (ip : Word) :
    (executeAt ip).Ends m
      (fun _ m' => ∃ i m₁ m₂ ip', (prepare ip).outcome m = .ok i ∧ LocalChange m m₁ ∧
        Effect i m₁ m₂ ∧ m' = m₂.goto ip')
      (fun e m' => (LocalChange m m' ∧ e.IsFault) ∨
        ∃ i m₁, (prepare ip).outcome m = .ok i ∧ i.opcode = .vmResume ∧
          m.processor.inGuest = false ∧ LocalChange m m₁ ∧ performResume i m₁ = .error e m') := by
  have prepares := prepare_ends settled ip
  cases prepared : prepare ip m with
  | error e m₁ =>
    obtain ⟨unchanged, fault⟩ := prepares.error prepared
    refine .of_error (Action.bind_of_error prepared _) (.inl ⟨?_, fault⟩)
    rcases unchanged with rfl | ⟨d, rfl⟩
    · exact .refl m₁
    · exact .remember m d
  | ok i m₁ =>
    obtain ⟨⟨d, rfl⟩, valid⟩ := prepares.ok prepared
    have outcome : (prepare ip).outcome m = .ok i := by simp [Action.outcome, prepared]
    have change : LocalChange m (m.remember d) := .remember m d
    have settled' := change.settled settled
    have rest : executeAt ip m = (perform i >>= fun o => do
        writeResult i o
        follow i o.control : Action Exception Unit) (m.remember d) :=
      Action.bind_of_ok prepared _
    unfold Action.Ends
    rw [rest]
    refine Action.Ends.bind (perform_ends settled') ?_ ?_
    · intro o m₂ performed
      refine (finish_ends settled' valid performed).imp ?_ fun e m₃ h =>
        .inl ⟨change.trans h.1, h.2⟩
      rintro _ m₃ ⟨m₁, m₂, ip', change₁, effect, rfl⟩
      exact ⟨i, m₁, m₂, ip', outcome, change.trans change₁, effect, rfl⟩
    · rintro e m₂ (⟨rest, fault⟩ | ⟨opcode, host, failed⟩)
      · exact .inl ⟨change.trans rest, fault⟩
      · exact .inr ⟨i, m.remember d, outcome, opcode, host, change, failed⟩

/-- Preparing an instruction either fails because the segment table cannot be read, or goes as on
the machine with the table read. -/
theorem prepare_settle (m : Machine) (ip : Word) :
    (¬m.Settled ∧ ∃ e, m.SegmentsUnreadable e ∧ prepare ip m = .error (.fatal e) m) ∨
    ∃ m₀, m.Settles m₀ ∧ m₀.Settled ∧ prepare ip m = prepare ip m₀ := by
  obtain ⟨unsettled, e, unreadable, failed⟩ | ⟨m₀, settles, settled, same⟩ := settle_cases m
  · have fetches : fetchInstruction ip m = .error (.fatal e) m :=
      Action.bind_of_error (Action.bind_of_error (failed .code ip) _) _
    exact .inl ⟨unsettled, e, unreadable, Action.bind_of_error fetches _⟩
  · have fetches : fetchInstruction ip m = fetchInstruction ip m₀ :=
      Action.bind_congr (Action.bind_congr (same .code ip) _) _
    exact .inr ⟨m₀, settles, settled, Action.bind_congr fetches _⟩

/-- Executing an instruction either fails because the segment table cannot be read, or goes as on
the machine with the table read. -/
theorem executeAt_settle (m : Machine) (ip : Word) :
    (¬m.Settled ∧ ∃ e, m.SegmentsUnreadable e ∧ executeAt ip m = .error (.fatal e) m) ∨
    ∃ m₀, m.Settles m₀ ∧ m₀.Settled ∧ prepare ip m = prepare ip m₀ ∧
      executeAt ip m = executeAt ip m₀ := by
  obtain ⟨unsettled, e, unreadable, failed⟩ | ⟨m₀, settles, settled, same⟩ := prepare_settle m ip
  · exact .inl ⟨unsettled, e, unreadable, Action.bind_of_error failed _⟩
  · exact .inr ⟨m₀, settles, settled, same, Action.bind_congr same _⟩

end WordMachine.Machine
