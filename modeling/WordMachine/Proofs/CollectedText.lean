import WordMachine.Proofs.Drivers
import WordMachine.Proofs.TextPieces

/-!
# Collected text

What a program prints is collected in pieces.  A debugger collects after every
step, and so one byte at a time.  A session collects when it is asked, after a
step or after a run of many.  Each piece is read as text by itself.

No byte is lost or comes twice: the pieces make up what the machine prints that
takes the same steps by itself (`Drained.collected`).  But the text is that of the
whole only if no piece ends inside a character (`collected_text_iff`).  A
character of more than one byte never comes out of a debugger.
-/

namespace WordMachine

open Text.Utf8

/-! ## Machines -/

namespace Machine

variable {s m m' : Machine}

/-- Steps can as well be taken with the console empty. -/
theorem afterSteps_takeConsole (n : Nat) (m : Machine) :
    m.afterSteps n = printedBefore m.console (m.takeConsole.2.afterSteps n) := by
  have commutes (m : Machine) (bytes : Array UInt8) :
      (printedBefore bytes m).afterSteps n = printedBefore bytes (m.afterSteps n) := by
    induction n with
    | zero => rfl
    | succ n ih =>
      show step.after ((printedBefore bytes m).afterSteps n) = _
      rw [ih, step_printedBefore.after]
      rfl
  rw [← commutes, printedBefore_takeConsole]

namespace Looked

theorem afterSteps (h : Looked s m) (read : s.ReadInGuest) (n : Nat) :
    Looked (s.afterSteps n) (m.afterSteps n) := by
  induction n with
  | zero => exact h
  | succ n ih => exact ih.step (afterSteps_readInGuest read n)

theorem takeConsole (h : Looked s m) : Looked s.takeConsole.2 m.takeConsole.2 := by
  rcases h with rfl | rfl
  · exact .inl rfl
  · refine .inr ?_
    have segments : s.takeConsole.2.mapped.segments = s.mapped.segments :=
      segments_mapped_congr rfl rfl rfl
    rw [mapped_eq s.takeConsole.2, segments, mapped_eq s]
    rfl

end Looked

end Machine

/-! ## Sessions -/

namespace Session

variable {m : Machine} {s s' s₀ : Session} {words : List Word} {n : Nat}
  {pieces : List (List UInt8)} {texts : List String}

/-- What lets the machine of a session take steps. -/
inductive Call where
  | step
  | run (limit : Nat)

namespace Call

/-- The session after a call, whether it failed or not. -/
def after : Call → Session → Session
  | step => Session.after Session.step
  | run limit => Session.after (Session.run limit)

/-- The number of steps a call lets a machine take.  One that has stopped takes them in place. -/
def steps (m : Machine) : Call → Nat
  | step => 1
  | run limit => min limit (Machine.lastCycle - m.cycles.toNat)

end Call

theorem machine_step (s : Session) :
    (after step s).machine =
      if s.machine.isRunning then Machine.step.after s.machine.mapped else s.machine := by
  cases running : s.machine.isRunning with
  | false =>
    have fails : step s = .error .stopped s := by
      show (if s.machine.isRunning then _ else _ : Operation String) s = _
      rw [running]
      rfl
    simp only [after, fails, Bool.false_eq_true, if_false]
  | true =>
    rw [if_pos rfl]
    unfold after Action.after
    rw [step_eq running]
    cases Machine.step s.machine.mapped <;> rfl

theorem machine_load (words : List Word) (s : Session) :
    (after (load (Image.toBytes words)) s).machine = .startOn words := by
  rw [after_congr (load_start words s), after_bind]
  unfold reset Machine.startOn
  cases Machine.initial.load words <;> rfl

/-- What calls lead to, each followed by taking the output.  They are counted in steps, with the
pieces of what was printed and the text of each. -/
inductive Drained (s₀ : Session) : Nat → List (List UInt8) → List String → Session → Prop
  | start : Drained s₀ 0 [] [] s₀
  | call {n : Nat} {pieces : List (List UInt8)} {texts : List String} {s s' : Session}
    {text : String} (c : Call) (before : Drained s₀ n pieces texts s)
    (drains : takeOutput (c.after s) = .ok text s') :
    Drained s₀ (n + c.steps s.machine) (pieces ++ [(c.after s).machine.console.toList])
      (texts ++ [text]) s'

/-- A session from which the output of the machine `m` was taken in pieces. -/
structure Collected (m : Machine) (pieces : List (List UInt8)) (texts : List String)
    (s : Session) : Prop where
  machine : m.takeConsole.2.Looked s.machine
  console : pieces.flatten = m.console.toList
  texts : texts = pieces.map decode

/-- The session after its output was taken. -/
def taken (s : Session) : Session := { s with machine := s.machine.takeConsole.2 }

theorem takeOutput_eq (s : Session) :
    takeOutput s = .ok (decode s.machine.console.toList) s.taken := rfl

theorem Call.looked (c : Call) (read : m.ReadInGuest) (looked : m.Looked s.machine) :
    (m.afterSteps (c.steps s.machine)).Looked (c.after s).machine := by
  cases c with
  | run limit =>
    show Machine.Looked _ (Session.after (Session.run limit) s).machine
    rw [machine_run, Machine.after_runLimited_min]
    exact looked.afterSteps read _
  | step =>
    show Machine.Looked _ (Session.after Session.step s).machine
    rw [machine_step]
    split
    next => exact looked.look.step read
    next stopped =>
      have idle : m.isRunning = false := looked.isRunning.symm.trans (by simpa using stopped)
      rw [Machine.afterSteps_of_not_isRunning idle]
      exact looked

theorem Collected.call {text : String} (h : Collected m pieces texts s) (read : m.ReadInGuest)
    (c : Call) (drains : takeOutput (c.after s) = .ok text s') :
    Collected (m.afterSteps (c.steps s.machine))
      (pieces ++ [(c.after s).machine.console.toList]) (texts ++ [text]) s' := by
  have looked := c.looked (m := m.takeConsole.2) read h.machine
  have console : (c.after s).machine.console =
      (m.takeConsole.2.afterSteps (c.steps s.machine)).console := by rw [looked.eq]
  have apart := Machine.afterSteps_takeConsole (c.steps s.machine) m
  rw [takeOutput_eq] at drains
  obtain ⟨rfl, rfl⟩ := EStateM.Result.ok.inj drains
  refine ⟨?_, ?_, ?_⟩
  · rw [apart]
    exact looked.takeConsole
  · rw [List.flatten_append, h.console, console, apart]
    simp [Machine.printedBefore, Machine.aside]
  · rw [h.texts, List.map_append]
    rfl

/-- The pieces are those of what the machine prints that takes as many steps by itself. -/
theorem Drained.collected (starts : s₀.machine = .startOn words)
    (drained : Drained s₀ n pieces texts s) :
    Collected ((Machine.startOn words).afterSteps n) pieces texts s := by
  induction drained with
  | start =>
    obtain ⟨memory, eq⟩ := Machine.startOn_eq words
    refine ⟨.inl ?_, ?_, rfl⟩
    · rw [starts]
      show _ = (Machine.startOn words).takeConsole.2
      rw [eq]
      rfl
    · show _ = (Machine.startOn words).console.toList
      rw [eq]
      rfl
  | call c before drains ih =>
    rw [Machine.afterSteps_add]
    exact ih.call (Machine.afterSteps_readInGuest (Machine.startOn_readInGuest words) _) c drains

end Session

/-! ## Reading in pieces -/

/-- A debugger reads byte by byte what the program prints, and a session reads it in the pieces that
are taken from it.  Either comes to the text of the whole exactly if no character is cut, as in plain
text. -/
theorem collected_text_iff (words : List Word) :
    (∀ (s : Machine) (d : Debugger), Debugger.Used words s d →
      d.output = String.join (s.console.toList.map fun b => decode [b]) ∧
      (d.output = decode s.console.toList ↔ KeepsCharacters (s.console.toList.map fun b => [b])) ∧
      ((∀ b ∈ s.console.toList, b < 0x80) → d.output = decode s.console.toList)) ∧
    ∀ (s₀ s : Session) (n : Nat) (pieces : List (List UInt8)) (texts : List String),
      Session.Drained (Session.after (Session.load (Image.toBytes words)) s₀) n pieces texts s →
      let printed := ((Machine.startOn words).afterSteps n).console.toList
      pieces.flatten = printed ∧ texts = pieces.map decode ∧
      (String.join texts = decode printed ↔ KeepsCharacters pieces) ∧
      ((∀ b ∈ printed, b < 0x80) → String.join texts = decode printed) := by
  constructor
  · intro s d used
    have output := used.follows.output
    have flatten : (s.console.toList.map fun b => [b]).flatten = s.console.toList := by
      rw [← List.flatMap_def, List.flatMap_singleton']
    have pieces := join_decode_iff (s.console.toList.map fun b => [b])
    rw [List.map_map, flatten] at pieces
    refine ⟨output, by rw [output]; exact pieces, fun ascii => ?_⟩
    rw [output]
    exact pieces.mpr (keepsCharacters_of_ascii (by rwa [flatten]))
  · intro s₀ s n pieces texts drained
    have collected := drained.collected (Session.machine_load words s₀)
    have whole := join_decode_iff pieces
    rw [collected.console, ← collected.texts] at whole
    refine ⟨collected.console, collected.texts, whole, fun ascii => ?_⟩
    exact whole.mpr (keepsCharacters_of_ascii (by rwa [collected.console]))

/-- A program that prints the two bytes of one character. -/
def accentProgram : List Word :=
  [Instruction.encode ⟨.print, 0, [⟨.immediate, Fin.last 31⟩]⟩, 0xC3,
    Instruction.encode ⟨.print, 0, [⟨.immediate, Fin.last 31⟩]⟩, 0xA9,
    Instruction.encode ⟨.halt, 0, []⟩]

/-- The debugger after both. -/
def accentDebugger : Debugger :=
  Debugger.after Debugger.step (Debugger.after Debugger.step (.start accentProgram))

/-- The session before them. -/
def accentSession : Session := Session.after (Session.load (Image.toBytes accentProgram)) {}

theorem accentDebugger_used :
    Debugger.Used accentProgram ((Machine.startOn accentProgram).afterSteps 2) accentDebugger :=
  .step (.step .start)

theorem console_accentProgram :
    ((Machine.startOn accentProgram).afterSteps 2).console.toList = [0xC3, 0xA9] := by
  decide +kernel

/-- A session that runs both steps before its output is taken has the character, and the debugger has
two replacement characters. -/
theorem collected_text_iff_accentProgram :
    Debugger.Used accentProgram ((Machine.startOn accentProgram).afterSteps 2) accentDebugger ∧
      accentDebugger.output = String.ofList [replacement, replacement] ∧
      ∃ texts s, Session.Drained accentSession 2 [[0xC3, 0xA9]] texts s ∧
        String.join texts = String.ofList ['é'] := by
  have console := console_accentProgram
  have output := ((collected_text_iff accentProgram).1 _ _ accentDebugger_used).1
  rw [console] at output
  have begins : Session.Drained accentSession 0 [] [] accentSession := .start
  have drained := begins.call (.run 2) (Session.takeOutput_eq _)
  have steps : (Session.Call.run 2).steps accentSession.machine = 2 := by decide +kernel
  have piece : ((Session.Call.run 2).after accentSession).machine.console.toList = [0xC3, 0xA9] := by
    decide +kernel
  rw [steps, piece] at drained
  obtain ⟨-, texts_eq, -, -⟩ := (collected_text_iff accentProgram).2 {} _ _ _ _ drained
  refine ⟨accentDebugger_used, output.trans (by decide +kernel), _, _, drained, ?_⟩
  rw [texts_eq]
  decide +kernel

/-- What the program prints is one character, but neither the debugger nor a session that takes the
output after each step comes to it. -/
theorem character_lost_by_cut :
    let printed := ((Machine.startOn accentProgram).afterSteps 2).console.toList
    decode printed = String.ofList ['é'] ∧
      Debugger.Used accentProgram ((Machine.startOn accentProgram).afterSteps 2) accentDebugger ∧
      accentDebugger.output ≠ decode printed ∧
      ∃ texts s, Session.Drained accentSession 2 [[0xC3], [0xA9]] texts s ∧
        String.join texts ≠ decode printed := by
  intro printed
  have console : printed = [0xC3, 0xA9] := console_accentProgram
  have apart : String.join ([[0xC3], [0xA9]].map decode) ≠ decode [0xC3, 0xA9] := by
    decide +kernel
  have output : accentDebugger.output = String.join (printed.map fun b => decode [b]) :=
    accentDebugger_used.follows.output
  have begins : Session.Drained accentSession 0 [] [] accentSession := .start
  have drained := (begins.call .step (Session.takeOutput_eq _)).call .step (Session.takeOutput_eq _)
  have texts_eq := (drained.collected (Session.machine_load accentProgram {})).texts
  have first : (Session.Call.after .step accentSession).machine.console.toList = [0xC3] := by
    decide +kernel
  have second : (Session.Call.after .step
      (Session.Call.after .step accentSession).taken).machine.console.toList = [0xA9] := by
    decide +kernel
  rw [first, second] at drained texts_eq
  refine ⟨by rw [console]; decide +kernel, accentDebugger_used, ?_, _, _, drained, ?_⟩
  · rw [output, console]
    exact apart
  · rw [texts_eq, console]
    exact apart

end WordMachine
