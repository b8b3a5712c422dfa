import WordMachine.Proofs.Pervasive
import WordMachine.Proofs.Step

/-!
# Bounded runs

A run goes on while the machine runs and its counter of steps is below a bound.
`runTo_eq` is one pass of its loop, which ends in one of four ways: the bound is
reached, the step halts the machine, the step fails, or the run goes on.  The
fuel of `runBelow` is not among them, since a step of a running machine takes the
counter one up, however it ends (`cycles_step`).

A run to a bound can be broken at any smaller one (`runTo_eq_bind`).  From this,
a run with a limit is the run with a part of the limit and then one with the
rest (`runs_compose`).  A machine that stopped is left alone by all of them
(`frozen_of_stopped`).
-/

namespace WordMachine.Machine

variable {m m' : Machine} {bound : Nat}

/-! ## The counter of steps -/

/-- A step counts itself before it does anything else, and nothing else touches the counter. -/
theorem cycle_counted (n : UInt64) : cycle.Preserves fun m => m.cycles = n := by
  have work := preserves_pervasive (R := fun m => m.cycles = n) fun _ _ _ _ _ counted => counted
  have rows := segmentRows_preserves (R := fun m => m.cycles = n) fun _ _ counted => counted
  have parts := work.compositional rows (fun _ _ counted => counted) fun c m counted => by
    cases c <;> exact counted
  refine work.cycle parts (fun r v m counted => ?_) (fun _ _ counted => counted) .attempt
  cases r <;> exact counted

theorem cycles_step (running : m.isRunning = true) : (step.after m).cycles = m.cycles + 1 := by
  have counted := (cycle_counted (m.cycles + 1)).after
    (m := { m with cycles := m.cycles + 1 }) rfl
  unfold Action.after at counted ⊢
  rw [step, if_pos running]
  cases ran : cycle { m with cycles := m.cycles + 1 } <;> simpa only [ran] using counted

theorem toNat_cycles_step (running : m.isRunning = true) (below : m.cycles.toNat < lastCycle) :
    (step.after m).cycles.toNat = m.cycles.toNat + 1 := by
  simp only [lastCycle] at below
  rw [cycles_step running, UInt64.toNat_add]
  exact Nat.mod_eq_of_lt (by simp; omega)

theorem toNat_cycles_of_step (stepped : step m = .ok true m')
    (below : m.cycles.toNat < lastCycle) : m'.cycles.toNat = m.cycles.toNat + 1 := by
  have running : m.isRunning = true := by
    cases stopped : m.isRunning with
    | true => rfl
    | false =>
      rw [step_of_not_isRunning stopped] at stepped
      cases stepped
  have counted := toNat_cycles_step running below
  rwa [Action.after_of_ok stepped] at counted

/-! ## One pass -/

theorem runTo_of_reached (reached : bound ≤ m.cycles.toNat) : runTo bound m = .ok () m := by
  show runBelow bound (bound - m.cycles.toNat) m = _
  rw [Nat.sub_eq_zero_of_le reached]
  rfl

theorem runTo_of_below (small : bound ≤ lastCycle) (below : m.cycles.toNat < bound) :
    runTo bound m =
      match step m with
      | .ok true m' => runTo bound m'
      | .ok false m' => .ok () m'
      | .error e m' => .error e m' := by
  obtain ⟨fuel, fuel_eq⟩ := Nat.exists_eq_add_one_of_ne_zero (Nat.sub_ne_zero_of_lt below)
  show runBelow bound (bound - m.cycles.toNat) m = _
  rw [fuel_eq]
  have pass : runBelow bound (fuel + 1) m =
      (step >>= fun going => if going then runBelow bound fuel else pure ()) m := by
    show (if m.cycles.toNat < bound then step >>= _ else pure () : Action FatalError Unit) m = _
    rw [if_pos below]
  rw [pass, Action.bind_apply]
  cases stepped : step m with
  | error e m' => rfl
  | ok going m' =>
    cases going with
    | false => rfl
    | true =>
      -- The counter went up by one, and so the fuel that is left is what the rest needs.
      have counted := toNat_cycles_of_step stepped (Nat.lt_of_lt_of_le below small)
      have left : fuel = bound - m'.cycles.toNat := by omega
      rw [left]
      rfl

/-- One pass of a run. -/
theorem runTo_eq (small : bound ≤ lastCycle) (m : Machine) :
    runTo bound m =
      if m.cycles.toNat < bound then
        match step m with
        | .ok true m' => runTo bound m'
        | .ok false m' => .ok () m'
        | .error e m' => .error e m'
      else .ok () m := by
  split
  next below => exact runTo_of_below small below
  next reached => exact runTo_of_reached (Nat.le_of_not_lt reached)

theorem runTo_of_stopped (small : bound ≤ lastCycle) (stopped : m.isRunning = false) :
    runTo bound m = .ok () m := by
  rw [runTo_eq small, step_of_not_isRunning stopped]
  split <;> rfl

/-! ## Whole runs -/

/-- How a run to a bound ends. -/
inductive RunEnds (bound : Nat) : Machine → EStateM.Result FatalError Machine Unit → Prop
  | reached {m : Machine} (reached : bound ≤ m.cycles.toNat) : RunEnds bound m (.ok () m)
  | halted {m m' : Machine} (below : m.cycles.toNat < bound) (stepped : step m = .ok false m') :
    RunEnds bound m (.ok () m')
  | failed {m m' : Machine} {e : FatalError} (below : m.cycles.toNat < bound)
    (stepped : step m = .error e m') : RunEnds bound m (.error e m')
  | goesOn {m m' : Machine} {r : EStateM.Result FatalError Machine Unit}
    (below : m.cycles.toNat < bound) (stepped : step m = .ok true m') (rest : RunEnds bound m' r) :
    RunEnds bound m r

/-- Every run ends in one of these ways, since the counter comes nearer to the bound. -/
theorem runEnds_runTo (small : bound ≤ lastCycle) (m : Machine) :
    RunEnds bound m (runTo bound m) := by
  induction left : bound - m.cycles.toNat generalizing m with
  | zero =>
    have reached : bound ≤ m.cycles.toNat := Nat.le_of_sub_eq_zero left
    rw [runTo_of_reached reached]
    exact .reached reached
  | succ left' ih =>
    have below : m.cycles.toNat < bound := by omega
    rw [runTo_of_below small below]
    cases stepped : step m with
    | error e m' => exact .failed below stepped
    | ok going m' =>
      cases going with
      | false => exact .halted below stepped
      | true =>
        have counted := toNat_cycles_of_step stepped (Nat.lt_of_lt_of_le below small)
        exact .goesOn below stepped (ih m' (by omega))

namespace RunEnds

/-- A run that does not fail leaves the counter between where it was and the bound.  If it is not at
the bound, the machine stopped. -/
theorem cycles_of_ok (ends : RunEnds bound m (.ok () m')) (small : bound ≤ lastCycle)
    (le : m.cycles.toNat ≤ bound) :
    m.cycles.toNat ≤ m'.cycles.toNat ∧ m'.cycles.toNat ≤ bound ∧
      (m'.cycles.toNat = bound ∨ m'.isRunning = false) := by
  generalize eq : EStateM.Result.ok () m' = r at ends
  induction ends with
  | reached reached =>
    cases eq
    exact ⟨Nat.le_refl _, le, .inl (Nat.le_antisymm le reached)⟩
  | @halted m m₁ below stepped =>
    cases eq
    have stopped := isRunning_of_step stepped
    cases running : m.isRunning with
    | false =>
      rw [step_of_not_isRunning running] at stepped
      cases stepped
      exact ⟨Nat.le_refl _, le, .inr stopped⟩
    | true =>
      have counted := toNat_cycles_step running (Nat.lt_of_lt_of_le below small)
      rw [Action.after_of_ok stepped] at counted
      exact ⟨by omega, by omega, .inr stopped⟩
  | failed => cases eq
  | goesOn below stepped _ ih =>
    have counted := toNat_cycles_of_step stepped (Nat.lt_of_lt_of_le below small)
    obtain ⟨from_here, to_bound, last⟩ := ih (by omega) eq
    exact ⟨by omega, to_bound, last⟩

/-- A run that fails stops the machine. -/
theorem isRunning_of_error {e : FatalError} (ends : RunEnds bound m (.error e m')) :
    m'.isRunning = false := by
  generalize eq : EStateM.Result.error e m' = r at ends
  induction ends with
  | reached => cases eq
  | halted => cases eq
  | failed below stepped =>
    cases eq
    exact isRunning_of_step_error stepped
  | goesOn _ _ _ ih => exact ih eq

end RunEnds

/-- A run can be broken at any lower bound. -/
theorem runTo_eq_bind {higher : Nat} (le : bound ≤ higher) (small : higher ≤ lastCycle)
    (m : Machine) : runTo higher m = (runTo bound >>= fun _ => runTo higher) m := by
  have ends := runEnds_runTo (Nat.le_trans le small) m
  rw [Action.bind_apply]
  generalize runTo bound m = r at ends ⊢
  induction ends with
  | reached => rfl
  | halted below stepped =>
    rw [runTo_of_below small (Nat.lt_of_lt_of_le below le), stepped]
    exact (runTo_of_stopped small (isRunning_of_step stepped)).symm
  | failed below stepped => rw [runTo_of_below small (Nat.lt_of_lt_of_le below le), stepped]
  | goesOn below stepped _ ih =>
    rw [runTo_of_below small (Nat.lt_of_lt_of_le below le), stepped]
    exact ih

/-- A run to a bound takes as many steps as the counter is below it. -/
theorem after_runTo (small : bound ≤ lastCycle) (m : Machine) :
    (runTo bound).after m = afterSteps (bound - m.cycles.toNat) m := by
  have ends := runEnds_runTo small m
  generalize ran : runTo bound m = r at ends
  unfold Action.after
  rw [ran]
  clear ran
  induction ends with
  | reached reached => rw [Nat.sub_eq_zero_of_le reached]; rfl
  | @halted m m' below stepped =>
    obtain ⟨n, n_eq⟩ := Nat.exists_eq_add_one_of_ne_zero (Nat.sub_ne_zero_of_lt below)
    rw [n_eq, ← afterSteps_step, Action.after_of_ok stepped,
      afterSteps_of_not_isRunning (isRunning_of_step stepped)]
  | @failed m m' e below stepped =>
    obtain ⟨n, n_eq⟩ := Nat.exists_eq_add_one_of_ne_zero (Nat.sub_ne_zero_of_lt below)
    rw [n_eq, ← afterSteps_step, Action.after_of_error stepped,
      afterSteps_of_not_isRunning (isRunning_of_step_error stepped)]
  | @goesOn m m' r below stepped _ ih =>
    have counted := toNat_cycles_of_step stepped (Nat.lt_of_lt_of_le below small)
    have rest : bound - m.cycles.toNat = bound - m'.cycles.toNat + 1 := by omega
    rw [rest, ← afterSteps_step, Action.after_of_ok stepped]
    exact ih

/-! ## Limits -/

/-- The bound that a limit comes to. -/
def boundFor (limit : Nat) (m : Machine) : Nat := min (m.cycles.toNat + limit) lastCycle

theorem boundFor_le (limit : Nat) (m : Machine) : m.boundFor limit ≤ lastCycle :=
  Nat.min_le_right _ _

theorem cycles_le_boundFor (limit : Nat) (m : Machine) : m.cycles.toNat ≤ m.boundFor limit := by
  have last : m.cycles.toNat ≤ lastCycle := Nat.le_of_lt_succ m.cycles.toNat_lt
  unfold boundFor
  omega

theorem runLimited_eq (limit : Nat) (m : Machine) :
    runLimited limit m =
      match runTo (m.boundFor limit) m with
      | .ok () m' => .ok (m'.cycles.toNat - m.cycles.toNat) m'
      | .error e m' => .error e m' := by
  have runs : runLimited limit m = (runTo (m.boundFor limit) >>= fun _ => do
      return (← get).cycles.toNat - m.cycles.toNat) m := rfl
  rw [runs, Action.bind_apply]
  cases runTo (m.boundFor limit) m <;> rfl

theorem after_runLimited_eq (limit : Nat) (m : Machine) :
    (runLimited limit).after m = (runTo (m.boundFor limit)).after m := by
  unfold Action.after
  rw [runLimited_eq]
  cases runTo (m.boundFor limit) m <;> rfl

theorem runLimited_of_stopped (stopped : m.isRunning = false) (limit : Nat) :
    runLimited limit m = .ok 0 m := by
  rw [runLimited_eq, runTo_of_stopped (boundFor_le limit m) stopped]
  simp

/-- No run takes more steps than its limit. -/
theorem le_of_runLimited {limit count : Nat} (ran : runLimited limit m = .ok count m') :
    count ≤ limit := by
  have ends := runEnds_runTo (boundFor_le limit m) m
  rw [runLimited_eq] at ran
  cases eq : runTo (m.boundFor limit) m with
  | error e m₁ =>
    rw [eq] at ran
    cases ran
  | ok u m₁ =>
    rw [eq] at ran ends
    cases ran
    obtain ⟨-, to_bound, -⟩ := ends.cycles_of_ok (boundFor_le limit m) (cycles_le_boundFor limit m)
    unfold boundFor at to_bound
    omega

/-! ## Composition -/

/-- Running with a limit `a` and then with a limit `b` is running with both. -/
structure RunsCompose (m : Machine) (a b : Nat) : Prop where
  /-- The numbers of steps add up, and the first error ends both. -/
  law : runLimited (a + b) m =
    (do
      let i ← runLimited a
      let j ← runLimited b
      return i + j : Action FatalError Nat) m
  /-- The machine is the same even if the second run is started after the first one failed. -/
  after : (runLimited (a + b)).after m = (runLimited b).after ((runLimited a).after m)
  first_le {i : Nat} {m' : Machine} (ran : runLimited a m = .ok i m') : i ≤ a
  second_le {j : Nat} {m' : Machine}
    (ran : runLimited b ((runLimited a).after m) = .ok j m') : j ≤ b

/-- The second bound is that of both, unless the first run ended early. -/
theorem runTo_boundFor {a b : Nat} (room : m.cycles.toNat + a + b ≤ lastCycle)
    (ran : runTo (m.boundFor a) m = .ok () m') :
    runTo (m.boundFor (a + b)) m' = runTo (m'.boundFor b) m' := by
  have ends := runEnds_runTo (boundFor_le a m) m
  rw [ran] at ends
  obtain ⟨-, -, at_bound | stopped⟩ :=
    ends.cycles_of_ok (boundFor_le a m) (cycles_le_boundFor a m)
  · have same : m.boundFor (a + b) = m'.boundFor b := by
      unfold boundFor at *
      omega
    rw [same]
  · rw [runTo_of_stopped (boundFor_le _ _) stopped, runTo_of_stopped (boundFor_le _ _) stopped]

theorem cycles_le_of_runTo {limit : Nat} (ran : runTo (m.boundFor limit) m = .ok () m') :
    m.cycles.toNat ≤ m'.cycles.toNat := by
  have ends := runEnds_runTo (boundFor_le limit m) m
  rw [ran] at ends
  exact (ends.cycles_of_ok (boundFor_le limit m) (cycles_le_boundFor limit m)).1

theorem runLimited_add {a b : Nat} (room : m.cycles.toNat + a + b ≤ lastCycle) :
    runLimited (a + b) m =
      (do
        let i ← runLimited a
        let j ← runLimited b
        return i + j : Action FatalError Nat) m := by
  have lower : m.boundFor a ≤ m.boundFor (a + b) := by
    unfold boundFor
    omega
  rw [runLimited_eq, runTo_eq_bind lower (boundFor_le _ _), Action.bind_apply, Action.bind_apply,
    runLimited_eq]
  cases ran : runTo (m.boundFor a) m with
  | error e m₁ => rfl
  | ok u m₁ =>
    simp only
    rw [runTo_boundFor room ran, Action.bind_apply, runLimited_eq]
    cases ran' : runTo (m₁.boundFor b) m₁ with
    | error e m₂ => rfl
    | ok u m₂ =>
      have first := cycles_le_of_runTo ran
      have second := cycles_le_of_runTo ran'
      have sum : m₂.cycles.toNat - m.cycles.toNat =
          m₁.cycles.toNat - m.cycles.toNat + (m₂.cycles.toNat - m₁.cycles.toNat) := by omega
      simp only [sum]
      rfl

/-- A run that fails stops the machine. -/
theorem isRunning_of_runLimited_error {limit : Nat} {e : FatalError}
    (failed : runLimited limit m = .error e m') : m'.isRunning = false := by
  have ends := runEnds_runTo (boundFor_le limit m) m
  rw [runLimited_eq] at failed
  cases ran : runTo (m.boundFor limit) m with
  | ok u m₁ =>
    rw [ran] at failed
    cases failed
  | error e' m₁ =>
    rw [ran] at failed ends
    cases failed
    exact ends.isRunning_of_error

theorem after_runLimited_add {a b : Nat} (room : m.cycles.toNat + a + b ≤ lastCycle) :
    (runLimited (a + b)).after m = (runLimited b).after ((runLimited a).after m) := by
  have law := runLimited_add room
  cases ran : runLimited a m with
  | error e m₁ =>
    have stopped := isRunning_of_runLimited_error ran
    rw [Action.after_of_error (law.trans (Action.bind_of_error ran _)), Action.after_of_error ran,
      Action.after_of_ok (runLimited_of_stopped stopped b)]
  | ok i m₁ =>
    have rest := law.trans (Action.bind_of_ok ran _)
    rw [Action.after_of_ok ran]
    cases ran' : runLimited b m₁ with
    | error e m₂ =>
      rw [Action.after_of_error (rest.trans (Action.bind_of_error ran' _)),
        Action.after_of_error ran']
    | ok j m₂ =>
      have both : runLimited (a + b) m = .ok (i + j) m₂ := rest.trans (Action.bind_of_ok ran' _)
      rw [Action.after_of_ok both, Action.after_of_ok ran']

/-! ## Stopped machines -/

/-- A way to let a machine go on. -/
inductive RunCall where
  | step
  | run
  | runLimited (limit : Nat)

namespace RunCall

/-- Lets a machine go on. -/
def perform : RunCall → Action FatalError Unit
  | step => Machine.step >>= fun _ => pure ()
  | run => Machine.run >>= fun _ => pure ()
  | runLimited limit => Machine.runLimited limit >>= fun _ => pure ()

/-- Lets a machine go on again and again. -/
def performAll : List RunCall → Action FatalError Unit
  | [] => pure ()
  | call :: calls => do
      call.perform
      performAll calls

theorem perform_of_stopped (stopped : m.isRunning = false) (call : RunCall) :
    call.perform m = .ok () m := by
  cases call with
  | step => exact Action.bind_of_ok (step_of_not_isRunning stopped) _
  | run => exact Action.bind_of_ok (runLimited_of_stopped stopped lastCycle) _
  | runLimited limit => exact Action.bind_of_ok (runLimited_of_stopped stopped limit) _

theorem performAll_of_stopped (stopped : m.isRunning = false) (calls : List RunCall) :
    performAll calls m = .ok () m := by
  induction calls with
  | nil => rfl
  | cons call calls ih => exact (Action.bind_of_ok (perform_of_stopped stopped call) _).trans ih

end RunCall

/-- Bounded runs compose, and a machine that stopped is left as it is by any number of calls. -/
theorem runs_compose :
    (∀ (m : Machine) (a b : Nat), m.cycles.toNat + a + b < UInt64.size → m.RunsCompose a b) ∧
      ∀ m : Machine, m.status = .halted ∨ m.status = .error →
        ∀ calls : List RunCall, RunCall.performAll calls m = .ok () m := by
  refine ⟨fun m a b room => ?_, fun m stopped calls => ?_⟩
  · have small : m.cycles.toNat + a + b ≤ lastCycle := Nat.le_of_lt_succ room
    exact ⟨runLimited_add small, after_runLimited_add small, le_of_runLimited, le_of_runLimited⟩
  · refine RunCall.performAll_of_stopped ?_ calls
    rcases stopped with halted | failed
    · simp [isRunning, halted]
    · simp [isRunning, failed]

/-- A host that installs a segment table whose only row has a kind that does not exist. -/
def misledHost : Machine where
  memory := (Memory.empty.place 0
    [Instruction.encode ⟨.mov, 0, [controlOperand .segmentTable, ⟨.immediate, Fin.last 31⟩]⟩,
      0x10]).place 0x10 [0, 0, 7, 0]

/-- It takes one step.  The next one cannot fetch its instruction, whichever run it is in, and after
that there are no more. -/
theorem runs_compose_misledHost :
    misledHost.cycles.toNat + 1 + 3 < UInt64.size ∧
      (runLimited 1).outcome misledHost = .ok 1 ∧
      (∃ e, (runLimited 3).outcome ((runLimited 1).after misledHost) = .error e ∧
        (runLimited 4).outcome misledHost = .error e) ∧
      ((runLimited 4).after misledHost).status = .error ∧
      RunCall.performAll [.step, .run, .runLimited 7] ((runLimited 4).after misledHost) =
        .ok () ((runLimited 4).after misledHost) := by
  obtain ⟨compose, frozen⟩ := runs_compose
  have room : misledHost.cycles.toNat + 1 + 3 < UInt64.size := by decide
  have first : (runLimited 1).outcome misledHost = .ok 1 := by decide +kernel
  have second : ((runLimited 3).outcome ((runLimited 1).after misledHost)).toOption = none := by
    decide +kernel
  have status : ((runLimited 4).after misledHost).status = .error := by decide +kernel
  refine ⟨room, first, ?_, status, frozen _ (.inr status) _⟩
  cases failed : (runLimited 3).outcome ((runLimited 1).after misledHost) with
  | ok j =>
    rw [failed] at second
    cases second
  | error e =>
    have ran := Action.bind_of_ok (Action.eq_ok_of_outcome first) fun i => do
      let j ← runLimited 3
      return i + j
    have ran' := Action.bind_of_error (Action.eq_error_of_outcome failed) fun j => pure (1 + j)
    refine ⟨e, rfl, ?_⟩
    unfold Action.outcome
    rw [((compose misledHost 1 3 room).law.trans ran).trans ran']

end WordMachine.Machine
