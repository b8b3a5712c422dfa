import Mathlib.Data.Nat.Find
import WordMachine.Proofs.Breakpoints

/-!
# Resuming at a breakpoint

A run that starts at a breakpoint ends there and takes no step.  The way on is a
single step.  A debugger `Resumes` by that step, where it is needed, and by a run
to its end.  Each time it takes a step at least (`Resumes.used`), so breakpoints
only pause: after as many resumes as the machine has steps to take, the debugger
has taken them all.
-/

namespace WordMachine

namespace Machine

/-- If a run has to stop sometime, there is a first time. -/
theorem exists_first_stop {s : Machine} {n : Nat} {breakpoints : Std.ExtTreeSet Word compare}
    (stops : (s.afterSteps n).stopsAt breakpoints = true) :
    ∃ k ≤ n, (∀ j < k, (s.afterSteps j).stopsAt breakpoints = false) ∧
      (s.afterSteps k).stopsAt breakpoints = true := by
  have stop : ∃ k, (s.afterSteps k).stopsAt breakpoints = true := ⟨n, stops⟩
  exact ⟨Nat.find stop, Nat.find_min' stop stops, fun j earlier => by
    simpa using Nat.find_min stop earlier, Nat.find_spec stop⟩

end Machine

namespace Debugger

variable {d d' : Debugger} {s : Machine} {words : List Word} {n r : Nat}

/-! ## Resuming -/

/-- A run that was ticked until it ended. -/
def RunsTo (d d' : Debugger) : Prop := ∃ t, d' = ticks t (after run d) ∧ d'.isRunning = false

/-- The debugger past the breakpoint at which it stands, if it stands at one. -/
def past (d : Debugger) : Debugger := if d.atBreakpoint then after step d else d

/-- Going on until the next stop. -/
def Resumes (d d' : Debugger) : Prop := d.past.RunsTo d'

/-- Going on a number of times, with breakpoints set and removed in between. -/
inductive Resumed (d : Debugger) : Nat → Debugger → Prop
  | start : Resumed d 0 d
  | resume {r : Nat} {d₁ d₂ : Debugger} (before : Resumed d r d₁) (resumes : d₁.Resumes d₂) :
    Resumed d (r + 1) d₂
  | toggle {r : Nat} {d₁ : Debugger} (before : Resumed d r d₁) :
    Resumed d r (after toggleBreakpoint d₁)
  | look {r : Nat} {d₁ : Debugger} (o : Observer) (before : Resumed d r d₁) :
    Resumed d r (o.look d₁)

/-- What a run in use comes to.  It takes a step unless it has to stop at once. -/
theorem RunsTo.used (used : Used words s d) (runs : d.RunsTo d') :
    ∃ k, Used words (s.afterSteps k) d' ∧ (∀ j < k, (s.afterSteps j).isRunning = true) ∧
      (s.stopsAt d.breakpoints = false → 0 < k) := by
  obtain ⟨t, rfl, ended⟩ := runs
  have going := Going.run used
  have running {k : Nat} (clear : ∀ j < k, (s.afterSteps j).stopsAt d.breakpoints = false) (j : Nat)
      (before : j < k) : (s.afterSteps j).isRunning = true := by
    have moves := clear j before
    simp_all [Machine.stopsAt]
  by_cases stop : ∃ j, j < t ∧ (s.afterSteps j).stopsAt d.breakpoints = true
  · obtain ⟨j, before, stops⟩ := stop
    obtain ⟨k, first, clear, stops⟩ := Machine.exists_first_stop stops
    refine ⟨k, (going.stopped clear stops (by omega)).1, running clear, fun moves => ?_⟩
    refine Nat.pos_of_ne_zero fun atOnce => ?_
    subst atOnce
    cases moves.symm.trans stops
  · have clear (j : Nat) (before : j < t) : (s.afterSteps j).stopsAt d.breakpoints = false := by
      by_contra stops
      exact stop ⟨j, before, by simpa using stops⟩
    refine ⟨t, (going.ticks clear).used, running clear, fun _ => ?_⟩
    refine Nat.pos_of_ne_zero fun atOnce => ?_
    subst atOnce
    cases ended

/-- A run of a machine that stops sometime comes to its end. -/
theorem runsTo_of_stopped (used : Used words s d) (stopped : (s.afterSteps n).isRunning = false) :
    ∃ d', d.RunsTo d' := by
  have stops : (s.afterSteps n).stopsAt d.breakpoints = true := by simp [Machine.stopsAt, stopped]
  obtain ⟨k, -, clear, stops⟩ := Machine.exists_first_stop stops
  obtain ⟨-, ended⟩ := (Going.run used).stopped clear stops k.lt_succ_self
  exact ⟨_, _, rfl, ended⟩

theorem Resumes.used (used : Used words s d) (resumes : d.Resumes d') :
    ∃ k, Used words (s.afterSteps k) d' ∧ (∀ j < k, (s.afterSteps j).isRunning = true) ∧
      (s.isRunning = true → 0 < k) := by
  have stops := used.follows.stops
  unfold Resumes past at resumes
  split at resumes
  next stands =>
    obtain ⟨k, used', running, -⟩ := RunsTo.used used.step resumes
    rw [Machine.afterSteps_step] at used'
    cases runs : s.isRunning with
    | true =>
      refine ⟨k + 1, used', fun j before => ?_, fun _ => k.succ_pos⟩
      cases j with
      | zero => exact runs
      | succ j =>
        rw [← Machine.afterSteps_step]
        exact running j (Nat.lt_of_succ_lt_succ before)
    | false =>
      rw [Machine.afterSteps_of_not_isRunning runs] at used'
      exact ⟨0, used', nofun, nofun⟩
  next clear =>
    obtain ⟨k, used', running, moves⟩ := RunsTo.used used resumes
    refine ⟨k, used', running, fun runs => moves ?_⟩
    rw [← stops, used.follows.isRunning, runs]
    simpa using clear

theorem Resumed.used (used : Used words s d) (resumed : d.Resumed r d') :
    ∃ k, Used words (s.afterSteps k) d' ∧ (r ≤ k ∨ (s.afterSteps k).isRunning = false) := by
  induction resumed with
  | start => exact ⟨0, used, .inl (Nat.le_refl 0)⟩
  | toggle before ih =>
    obtain ⟨k, used, far⟩ := ih
    exact ⟨k, used.toggle, far⟩
  | look o before ih =>
    obtain ⟨k, used, far⟩ := ih
    exact ⟨k, used.look o, far⟩
  | resume before resumes ih =>
    obtain ⟨k, used, far⟩ := ih
    obtain ⟨more, used', -, moves⟩ := resumes.used used
    rw [← Machine.afterSteps_add] at used'
    refine ⟨k + more, used', ?_⟩
    cases running : (s.afterSteps k).isRunning with
    | true =>
      have steps := moves running
      rcases far with far | stopped
      · exact .inl (by omega)
      · cases running.symm.trans stopped
    | false =>
      rw [Machine.afterSteps_add, Machine.afterSteps_of_not_isRunning running]
      exact .inr running

/-- A machine that stops sometime can be resumed any number of times. -/
theorem resumed_of_stopped (used : Used words s d) (stopped : (s.afterSteps n).isRunning = false)
    (r : Nat) : ∃ d', d.Resumed r d' := by
  induction r with
  | zero => exact ⟨d, .start⟩
  | succ r ih =>
    obtain ⟨d₁, resumed⟩ := ih
    obtain ⟨k, used₁, -⟩ := resumed.used used
    have stays (m : Nat) (le : n ≤ m) : (s.afterSteps m).isRunning = false := by
      rw [Machine.afterSteps_of_le stopped le, stopped]
    have goesOn : ∃ d₂, d₁.Resumes d₂ := by
      unfold Resumes past
      split
      · refine runsTo_of_stopped (n := n) used₁.step ?_
        rw [Machine.afterSteps_step, ← Machine.afterSteps_add]
        exact stays _ (by omega)
      · refine runsTo_of_stopped (n := n) used₁ ?_
        rw [← Machine.afterSteps_add]
        exact stays _ (by omega)
    obtain ⟨d₂, resumes⟩ := goesOn
    exact ⟨d₂, .resume resumed resumes⟩

/-! ## Breakpoints only pause -/

/-- A run at a breakpoint takes no step. -/
theorem looked_ticks (used : Used words s d) (stands : d.atBreakpoint = true) (t : Nat) :
    d.machine.Looked (ticks t (after run d)).machine := by
  have stops : s.stopsAt d.breakpoints = true := by
    rw [← used.follows.stops, stands, Bool.or_true]
  cases t with
  | zero => exact .inl rfl
  | succ t =>
    obtain ⟨-, idle⟩ := (Going.run used).ends stops
    rw [Nat.add_comm, ticks_add, ticks_of_idle (d := ticks 1 (after run d)) idle]
    exact looked_tick (d := after run d) stands

/-- A debugger that follows `s` after some steps, all of them taken by a running machine. -/
structure Advanced (s : Machine) (k : Nat) (d : Debugger) : Prop where
  running : ∀ j < k, (s.afterSteps j).isRunning = true
  follows : Follows (s.afterSteps k) d

/-- A run takes a step unless it starts at a breakpoint, where it takes none.  With a step first in
that case, every resume takes a step.  So if the machine stops after `n` steps, then `n` resumes
lead there, wherever breakpoints are set on the way, and further ones lead nowhere else. -/
theorem breakpoints_only_pause (used : Used words s d) :
    (d.atBreakpoint = true → ∀ t, d.machine.Looked (ticks t (after run d)).machine) ∧
    (d.machine.isRunning = true → d.atBreakpoint = false →
      ∀ d', d.RunsTo d' → ∃ k > 0, Advanced s k d') ∧
    (d.machine.isRunning = true → ∀ d', d.Resumes d' → ∃ k > 0, Advanced s k d') ∧
    ∀ n, (s.afterSteps n).isRunning = false → ∀ r ≥ n,
      (∃ d', d.Resumed r d') ∧ ∀ d', d.Resumed r d' → Follows (s.afterSteps n) d' := by
  have follows := used.follows
  refine ⟨looked_ticks used, fun running clear d' runs => ?_, fun running d' resumes => ?_,
    fun n stopped r many => ⟨resumed_of_stopped used stopped r, fun d' resumed => ?_⟩⟩
  · obtain ⟨k, used', running', moves⟩ := runs.used used
    have unstopped : s.stopsAt d.breakpoints = false := by
      rw [← follows.stops, running, clear]
      rfl
    exact ⟨k, moves unstopped, running', used'.follows⟩
  · obtain ⟨k, used', running', moves⟩ := resumes.used used
    exact ⟨k, moves (follows.isRunning.symm.trans running), running', used'.follows⟩
  · obtain ⟨k, used', far⟩ := resumed.used used
    have halted : (s.afterSteps k).isRunning = false := by
      rcases far with far | stopped
      · rw [Machine.afterSteps_of_le stopped (Nat.le_trans many far), stopped]
      · exact stopped
    rw [Machine.afterSteps_eq_of_stopped stopped halted]
    exact used'.follows

/-- Resuming at the breakpoint of a program of two steps that remain.  Two resumes lead to the
end. -/
theorem breakpoints_only_pause_pausingProgram :
    let d := after toggleBreakpoint (after step (start pausingProgram))
    let s := Machine.step.after (.startOn pausingProgram)
    Used pausingProgram s d ∧ d.atBreakpoint = true ∧ d.machine.isRunning = true ∧
      d.machine.Looked (ticks 1 (after run d)).machine ∧
      d.Resumes (ticks 2 (after run (after step d))) ∧
      (∃ k > 0, Advanced s k (ticks 2 (after run (after step d)))) ∧
      pausingDebugger.machine.isRunning = true ∧ pausingDebugger.atBreakpoint = false ∧
      pausingDebugger.RunsTo (ticks 2 (after run pausingDebugger)) ∧
      (∃ k > 0, Advanced (.startOn pausingProgram) k (ticks 2 (after run pausingDebugger))) ∧
      (s.afterSteps 2).isRunning = false ∧ ∃ d', d.Resumed 2 d' ∧ Follows (s.afterSteps 2) d' := by
  intro d s
  have used : Used pausingProgram s d := .toggle (.step .start)
  have stands : d.atBreakpoint = true := by decide +kernel
  have running : d.machine.isRunning = true := by decide +kernel
  have past : d.past = after step d := if_pos stands
  have resumes : d.Resumes (ticks 2 (after run (after step d))) :=
    ⟨2, by rw [past], by decide +kernel⟩
  have running₀ : pausingDebugger.machine.isRunning = true := by decide +kernel
  have clear : pausingDebugger.atBreakpoint = false := by decide +kernel
  have runs : pausingDebugger.RunsTo (ticks 2 (after run pausingDebugger)) :=
    ⟨2, rfl, by decide +kernel⟩
  have stopped : (s.afterSteps 2).isRunning = false := by decide +kernel
  obtain ⟨looked, -, resumed, ends⟩ := breakpoints_only_pause used
  obtain ⟨⟨d', twice⟩, leads⟩ := ends 2 stopped 2 (Nat.le_refl 2)
  exact ⟨used, stands, running, looked stands 1, resumes, resumed running _ resumes, running₀, clear,
    runs, (breakpoints_only_pause pausingDebugger_used).2.1 running₀ clear _ runs, stopped, d', twice,
    leads d' twice⟩

/-- A program that halts at once. -/
def haltingProgram : List Word := [Instruction.encode ⟨.halt, 0, []⟩]

/-- With a breakpoint at its one instruction, a run of this program ends before the machine has taken
its step. -/
theorem run_at_breakpoint_takes_no_step :
    let d := after toggleBreakpoint (start haltingProgram)
    let s := Machine.startOn haltingProgram
    Used haltingProgram s d ∧ d.machine.isRunning = true ∧ (s.afterSteps 1).isRunning = false ∧
      d.RunsTo (ticks 1 (after run d)) ∧ ¬∃ k > 0, Advanced s k (ticks 1 (after run d)) := by
  intro d s
  have stopped : (s.afterSteps 1).isRunning = false := by decide +kernel
  have running : (ticks 1 (after run d)).machine.isRunning = true := by decide +kernel
  refine ⟨.toggle .start, by decide +kernel, stopped, ⟨1, rfl, by decide +kernel⟩, ?_⟩
  rintro ⟨k, some_step, advanced⟩
  have same := advanced.follows.isRunning
  rw [running, Machine.afterSteps_of_le stopped some_step, stopped] at same
  cases same

end Debugger

end WordMachine
