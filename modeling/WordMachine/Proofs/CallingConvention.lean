import WordMachine.Proofs.StackSteps
import WordMachine.Proofs.StackWords

/-!
# The calling convention

A caller pushes the arguments and executes `CALL`, and the callee starts with
`ENTER`.  The frame pointer then points to the frame of the call, which is the
old frame pointer, the address to return to, and the arguments, the last one
first (`HasFrame`).  The rest of the stack is below.

What the callee does next may be anything that leaves the frame and the mapping
of the stack and of the registers as they are (`KeepsFrame`).  After that the
frame still serves its purpose (`Serves`): `GETARGUMENT` finds the arguments,
and `LEAVE` and `RETN` go back to the caller.

All of this needs room for the frame on the stack, away from the cell of the
frame pointer (`HasRoom`).  The registers are cells too, and a frame over that
cell would lose its own address.
-/

namespace WordMachine.Machine

variable {m m' m₁ : Machine} {i : ResolvedInstruction} {cell frame v : Word}

/-! ## Frames -/

/-- Whether the frame pointer of a machine points to words that can be reached. -/
structure HasFrame (m : Machine) (cell frame : Word) (words : List Word) : Prop where
  settled : m.Settled
  found : m.registerCell? framePointer = some cell
  pointer : m.memory.get cell = frame
  holds : m.memory.wordsFrom frame words.length = words
  reached : ∀ j < words.length, m.reaches .stack (frame + UInt32.ofNat j) = true
  /-- The frame pointer is none of them itself. -/
  apart : ∀ j < words.length, frame + UInt32.ofNat j ≠ cell

theorem HasFrame.get {words : List Word} (h : m.HasFrame cell frame words) {j : Nat}
    (word : words[j]? = some v) : m.memory.get (frame + UInt32.ofNat j) = v := by
  obtain ⟨small, -⟩ := List.getElem?_eq_some_iff.mp word
  have there := Memory.wordsFrom_getElem? m.memory frame small
  rw [h.holds, word] at there
  exact (Option.some.inj there).symm

/-- The value of the frame pointer. -/
theorem HasFrame.readPointer {words : List Word} (h : m.HasFrame cell frame words) :
    (readRegister framePointer).outcome m = .ok frame := by
  rw [Action.outcome, readRegister_of_cell h.settled (by decide) h.found, h.pointer]

/-- Whether the frame of a machine, and where it is found, are the same in another. -/
structure KeepsFrame (size : Nat) (m m' : Machine) : Prop where
  stack : SameMapping .stack m m'
  registers : SameMapping .register m m'
  pointer : (readRegister framePointer).outcome m' = (readRegister framePointer).outcome m
  words : ∀ frame, (readRegister framePointer).outcome m = .ok frame →
    m'.memory.wordsFrom frame size = m.memory.wordsFrom frame size

theorem HasFrame.kept {words : List Word} {size : Nat} (h : m.HasFrame cell frame words)
    (length : words.length = size) (kept : KeepsFrame size m m') :
    m'.HasFrame cell frame words := by
  have settled := kept.stack.settled h.settled
  have found : m'.registerCell? framePointer = some cell := by
    rw [kept.registers.registerCell?]
    exact h.found
  have pointer := kept.pointer
  rw [h.readPointer, Action.outcome, readRegister_of_cell settled (by decide) found] at pointer
  refine ⟨settled, found, Except.ok.inj pointer, ?_, fun j small => ?_, h.apart⟩
  · rw [length, kept.words frame h.readPointer, ← length, h.holds]
  · rw [kept.stack.reaches]
    exact h.reached j small

/-! ## What a frame is good for -/

/-- Whether execution is back at an offset, with the stack and the frame pointer as they were. -/
structure Returns (m : Machine) (ip : Word) (m' : Machine) : Prop where
  isRunning : m'.isRunning = true
  ip : m'.processor.ip = ip
  sp : m'.processor.sp = m.processor.sp
  pointer : (readRegister framePointer).outcome m' = (readRegister framePointer).outcome m

/-- Whether the frame of a call serves its purpose.  The call was made by `caller`, with the given
words as arguments. -/
structure Serves (caller : Machine) (words : List Word) (returnIp : Word) (m : Machine) : Prop where
  /-- `GETARGUMENT` reads the arguments, the last one first. -/
  getArgument : ∀ (index : Nat) x i, words.reverse[index]? = some x →
    m.Performs i → i.opcode = .getArgument → i.second = UInt32.ofNat index →
    ∃ place a, i.target? = some place ∧ m.placeCell? place = some a ∧
      m.Completes i.nextIp m.processor.sp (m.memory.set a x)
  /-- `LEAVE` and `RETN` return to the caller. -/
  returns : ∀ leave retn, m.Performs leave → leave.opcode = .leave →
    (step.after m).Performs retn → retn.opcode = .retn →
    retn.first = UInt32.ofNat words.length →
    step m = .ok true (step.after m) ∧ step (step.after m) = .ok true (afterSteps 2 m) ∧
      caller.Returns returnIp (afterSteps 2 m)

section

variable {words : List Word} {saved returnIp : Word}

theorem HasFrame.leave (h : m.HasFrame cell frame (saved :: words)) (performs : m.Performs i)
    (opcode : i.opcode = .leave) :
    m.Completes i.nextIp (frame + 1) (m.memory.set cell saved) := by
  have start : frame = frame + UInt32.ofNat 0 := by simp
  have saves : m.memory.get frame = saved := by
    rw [start]
    exact h.get rfl
  have reached : m.reaches .stack frame = true := by
    rw [start]
    exact h.reached 0 (by simp)
  have left := @Performs.leave m i cell performs opcode
  rw [mapped_of_settled h.settled, h.pointer, saves] at left
  exact left h.found reached

/-- The return address is still there after `LEAVE`, as the frame pointer lies elsewhere. -/
theorem HasFrame.retn (h : m.HasFrame cell frame (saved :: returnIp :: words)) {ip : Word}
    (left : m.Completes ip (frame + 1) (m.memory.set cell saved))
    (performs : (step.after m).Performs i) (opcode : i.opcode = .retn) :
    (step.after m).Completes returnIp (frame + 2 + i.first) (m.memory.set cell saved) := by
  have second : frame + 1 = frame + UInt32.ofNat 1 := rfl
  have reached : (step.after m).mapped.reaches .stack (frame + 1) = true := by
    rw [left.reaches, mapped_of_settled h.settled, second]
    exact h.reached 1 (by simp)
  have target : (m.memory.set cell saved).get (frame + 1) = returnIp := by
    rw [second, Memory.get_set_of_ne _ _ (h.apart 1 (by simp)).symm]
    exact h.get rfl
  have returned := performs.retn opcode
  have two : frame + 1 + 1 = frame + 2 := by grind
  rw [left.sp, left.memory, target, two] at returned
  exact returned reached

theorem HasFrame.serves {caller : Machine}
    (h : m.HasFrame cell frame (saved :: returnIp :: words.reverse))
    (sp : frame + UInt32.ofNat (words.length + 2) = caller.processor.sp)
    (pointer : (readRegister framePointer).outcome caller = .ok saved) :
    caller.Serves words returnIp m := by
  constructor
  · intro index x i word performs opcode second
    obtain ⟨small, -⟩ := List.getElem?_eq_some_iff.mp word
    have offset : m.memory.get cell + 2 + i.second = frame + UInt32.ofNat (index + 2) := by
      rw [h.pointer, second, UInt32.ofNat_add]
      grind
    have value : m.memory.get (frame + UInt32.ofNat (index + 2)) = x := h.get (by simpa using word)
    have reached := h.reached (index + 2) (by simpa using small)
    rw [← offset] at reached value
    have gets := @Performs.getArgument m i cell performs opcode
    rw [mapped_of_settled h.settled, value] at gets
    exact gets h.found reached
  · intro leave retn leaves isLeave returns isRetn argument
    have left := h.leave leaves isLeave
    have returned := h.retn left returns isRetn
    have found : (step.after m).mapped.registerCell? framePointer = some cell := by
      rw [left.registerCell?, mapped_of_settled h.settled]
      exact h.found
    have reads := returned.readRegister (by decide) found
    rw [Memory.get_set_self] at reads
    have back : frame + 2 + retn.first = caller.processor.sp := by
      rw [argument, ← sp, UInt32.ofNat_add]
      grind
    exact ⟨left.stepped, returned.stepped, returned.isRunning, returned.ip, returned.sp.trans back,
      reads.trans pointer.symm⟩

end

/-! ## Calling -/

/-- Whether the stack has room for words that leave the frame pointer, at `cell`, alone. -/
structure HasRoom (m : Machine) (size : Nat) (cell : Word) : Prop where
  /-- The cells below the stack lie in the stack segment. -/
  stack : ∀ j < size, (translate .stack (m.processor.sp - UInt32.ofNat (j + 1))).outcome m =
    .ok (m.processor.sp - UInt32.ofNat (j + 1))
  register : (registerAddress framePointer).outcome m = .ok cell
  apart : ∀ j < size, m.processor.sp - UInt32.ofNat (j + 1) ≠ cell

/-- A run that pushes words, calls, and enters. -/
structure Calls (m : Machine) (words : List Word) (call enter : ResolvedInstruction) : Prop where
  pushes : ∀ (j : Nat) word, words[j]? = some word →
    ∃ i, (afterSteps j m).Performs i ∧ i.opcode = .push ∧ i.first = word
  calls : (afterSteps words.length m).Performs call ∧ call.opcode = .call
  enters : (afterSteps (words.length + 1) m).Performs enter ∧ enter.opcode = .enter

namespace HasRoom

variable {size : Nat}

theorem settled (room : m.HasRoom size cell) (some_word : 0 < size) : m.mapped.Settled := by
  rcases settled_mapped_or m with settled | ⟨e, failed⟩
  · exact settled
  · have found := room.stack 0 some_word
    rw [Action.outcome, failed] at found
    cases found

theorem reaches (room : m.HasRoom size cell) {j : Nat} (small : j < size) :
    m.mapped.reaches .stack (m.processor.sp - UInt32.ofNat (j + 1)) = true := by
  have found := room.stack j small
  rw [Action.outcome, translate_mapped, translate_eq (room.settled (by omega))] at found
  by_contra missed
  rw [if_neg missed] at found
  cases found

theorem registerCell? (room : m.HasRoom size cell) (some_word : 0 < size) :
    m.mapped.registerCell? framePointer = some cell := by
  have small : framePointer < registerCount := by decide
  have found := room.register
  rw [Action.outcome, registerAddress_mapped m small,
    registerAddress_eq (room.settled some_word) small] at found
  cases there : m.mapped.registerCell? framePointer with
  | none =>
    rw [there] at found
    cases found
  | some a =>
    rw [there] at found
    exact congrArg some (Except.ok.inj found)

theorem readRegister (room : m.HasRoom size cell) (some_word : 0 < size) :
    (readRegister framePointer).outcome m = .ok (m.memory.get cell) := by
  have small : framePointer < registerCount := by decide
  have address : registerAddress framePointer m = .ok cell m.mapped := by
    rw [registerAddress_mapped m small]
    exact registerAddress_of_cell (room.settled some_word) small (room.registerCell? some_word)
  have read : Machine.readRegister framePointer m = .ok (m.mapped.memory.get cell) m.mapped :=
    Action.bind_of_ok address _
  rw [Action.outcome, read, memory_mapped]

end HasRoom

/-- In flat memory the stack has room everywhere. -/
theorem hasRoom_of_flat (flat : m.processor.isSegmented = false) {size : Nat}
    (apart : ∀ j < size, m.processor.sp - UInt32.ofNat (j + 1) ≠
      flatRegisterBase + UInt32.ofNat framePointer) :
    m.HasRoom size (flatRegisterBase + UInt32.ofNat framePointer) := by
  have settled : m.Settled := fun segmented => by rw [flat] at segmented; cases segmented
  refine ⟨fun j _ => ?_, ?_, apart⟩
  · rw [Action.outcome, translate_eq settled, if_pos (by simp [Machine.reaches, flat])]
  · have cell : m.registerCell? framePointer =
        some (flatRegisterBase + UInt32.ofNat framePointer) := by
      simp [Machine.registerCell?, flat]
    rw [Action.outcome, registerAddress_of_cell settled (by decide) cell]

section

variable {words : List Word} {size : Nat}

/-- Words that there is room for do not lie in the cell of the frame pointer. -/
theorem Stacked.apart (stacked : Stacked m words m₁) (room : m.HasRoom size cell)
    (fits : words.length ≤ size) (j : Nat) (small : j < words.length) :
    m₁.processor.sp + UInt32.ofNat j ≠ cell := by
  rw [stacked.sp, Word.sub_ofNat_add_ofNat _ small]
  exact room.apart _ (by omega)

theorem Stacked.reaches (stacked : Stacked m words m₁) (room : m.HasRoom size cell)
    (fits : words.length ≤ size) (j : Nat) (small : j < words.length) :
    m.mapped.reaches .stack (m₁.processor.sp + UInt32.ofNat j) = true := by
  rw [stacked.sp, Word.sub_ofNat_add_ofNat _ small]
  exact room.reaches (by omega)

/-- What steps that push words come to. -/
structure Piled (m : Machine) (words : List Word) (m' : Machine) : Prop
    extends Stacked m words m' where
  mapping : ∀ space, SameMapping space m.mapped m'.mapped

/-- Another step that pushes a word. -/
theorem Piled.next {ip : Word} (piled : m.Piled words m₁) (few : words.length + 1 ≤ Word.count)
    (completes : m₁.Completes ip (m₁.processor.sp - 1)
      (m₁.memory.set (m₁.processor.sp - 1) v)) : m.Piled (words ++ [v]) (step.after m₁) :=
  ⟨piled.toStacked.push few completes.sp completes.memory,
    fun space => (piled.mapping space).trans (completes.mapping_mapped space)⟩

/-- The next word has a cell, too. -/
theorem Piled.reaches_next (piled : m.Piled words m₁) (room : m.HasRoom size cell)
    (more : words.length < size) :
    m₁.mapped.reaches .stack (m₁.processor.sp - 1) = true := by
  have next : m₁.processor.sp - 1 = m.processor.sp - UInt32.ofNat (words.length + 1) := by
    rw [piled.sp, Word.sub_ofNat_succ]
  rw [(piled.mapping .stack).reaches, next]
  exact room.reaches more

/-- `ENTER` puts the old frame pointer on top, and the frame is complete. -/
theorem Piled.enter (piled : m.Piled words m₁) (few : words.length + 1 ≤ Word.count)
    (room : m.HasRoom size cell) (more : words.length < size) (performs : m₁.Performs i)
    (opcode : i.opcode = .enter) :
    step m₁ = .ok true (step.after m₁) ∧
      (step.after m₁).HasFrame cell (m₁.processor.sp - 1)
        (m.memory.get cell :: words.reverse) := by
  have found : m₁.mapped.registerCell? framePointer = some cell := by
    rw [(piled.mapping .register).registerCell?]
    exact room.registerCell? (by omega)
  have old : m₁.memory.get cell = m.memory.get cell :=
    Memory.get_congr (piled.memory cell fun j small => (piled.apart room (by omega) j small).symm)
  have completes := performs.enter opcode found (piled.reaches_next room more)
  rw [old] at completes
  -- The words of the frame are complete before the frame pointer is moved.
  let saved := m₁.withStack (m₁.processor.sp - 1)
    (m₁.memory.set (m₁.processor.sp - 1) (m.memory.get cell))
  have stacked : Stacked m (words ++ [m.memory.get cell]) saved :=
    piled.toStacked.push few rfl rfl
  have size_eq : (m.memory.get cell :: words.reverse).length =
      (words ++ [m.memory.get cell]).length := by simp
  have fits : (words ++ [m.memory.get cell]).length ≤ size := by
    rw [List.length_append]
    exact more
  have settled := mapped_of_settled completes.settled
  refine ⟨completes.stepped, completes.settled, ?_, ?_, ?_, ?_, ?_⟩
  · rw [← settled, completes.registerCell?]
    exact found
  · rw [completes.memory, Memory.get_set_self]
  · have top := stacked.top
    rw [List.reverse_concat] at top
    rw [completes.memory, size_eq]
    refine (Memory.wordsFrom_congr fun j small => ?_).trans top
    exact Memory.get_set_of_ne _ _ (stacked.apart room fits j small).symm
  · rw [size_eq]
    intro j small
    rw [← settled, completes.reaches, (piled.mapping .stack).reaches]
    exact stacked.reaches room fits j small
  · rw [size_eq]
    exact stacked.apart room fits

end

section

variable {words : List Word} {call enter : ResolvedInstruction}

theorem Calls.piled (calls : m.Calls words call enter) (fits : words.length + 2 ≤ Word.count)
    (room : m.HasRoom (words.length + 2) cell) {k : Nat} (inRun : k ≤ words.length) :
    m.Piled (words.take k) (afterSteps k m) ∧
      ∀ j < k, step (afterSteps j m) = .ok true (afterSteps (j + 1) m) := by
  induction k with
  | zero => exact ⟨⟨.refl m, fun space => .refl space _⟩, fun j before => by omega⟩
  | succ k ih =>
    obtain ⟨piled, stepped⟩ := ih (by omega)
    have word : words[k]? = some words[k] := List.getElem?_eq_getElem _
    obtain ⟨i, performs, opcode, first⟩ := calls.pushes k _ word
    have length : (words.take k).length = k := List.length_take_of_le (by omega)
    have completes := performs.push opcode (piled.reaches_next room (by omega))
    rw [first] at completes
    refine ⟨?_, Nat.forall_lt_succ_right.mpr ⟨stepped, completes.stepped⟩⟩
    rw [List.take_succ_eq_append_getElem (by omega)]
    exact piled.next (by omega) completes

/-- `CALL` puts the return address on top of the arguments. -/
theorem Calls.called (calls : m.Calls words call enter) (fits : words.length + 2 ≤ Word.count)
    (room : m.HasRoom (words.length + 2) cell) :
    m.Piled (words ++ [call.nextIp]) (afterSteps (words.length + 1) m) ∧
      ∀ j < words.length + 1, step (afterSteps j m) = .ok true (afterSteps (j + 1) m) := by
  obtain ⟨piled, stepped⟩ := calls.piled fits room (Nat.le_refl _)
  rw [List.take_length] at piled
  obtain ⟨performs, opcode⟩ := calls.calls
  have completes := performs.call opcode (piled.reaches_next room (by omega))
  exact ⟨piled.next (by omega) completes,
    Nat.forall_lt_succ_right.mpr ⟨stepped, completes.stepped⟩⟩

theorem Calls.hasFrame (calls : m.Calls words call enter) (fits : words.length + 2 ≤ Word.count)
    (room : m.HasRoom (words.length + 2) cell) :
    (afterSteps (words.length + 2) m).HasFrame cell
        (m.processor.sp - UInt32.ofNat (words.length + 2))
        (m.memory.get cell :: call.nextIp :: words.reverse) ∧
      ∀ j < words.length + 2, step (afterSteps j m) = .ok true (afterSteps (j + 1) m) := by
  obtain ⟨piled, stepped⟩ := calls.called fits room
  obtain ⟨performs, opcode⟩ := calls.enters
  have length : (words ++ [call.nextIp]).length = words.length + 1 := by simp
  have frame : (afterSteps (words.length + 1) m).processor.sp - 1 =
      m.processor.sp - UInt32.ofNat (words.length + 2) := by
    rw [piled.sp, length]
    exact (Word.sub_ofNat_succ _ _).symm
  obtain ⟨last, entered⟩ := piled.enter (by omega) room (by omega) performs opcode
  rw [frame, List.reverse_concat] at entered
  exact ⟨entered, Nat.forall_lt_succ_right.mpr ⟨stepped, last⟩⟩

end

/-- The calling convention.  Pushing arguments, `CALL` and `ENTER` all succeed, and as long as the
callee keeps the frame, the frame serves to read the arguments and to return to the caller. -/
theorem call_serves {words : List Word} {call enter : ResolvedInstruction}
    (few : words.length + 2 < Word.count) (room : m.HasRoom (words.length + 2) cell)
    (calls : m.Calls words call enter) :
    (∀ j < words.length + 2, step (afterSteps j m) = .ok true (afterSteps (j + 1) m)) ∧
      ∀ count, KeepsFrame (words.length + 2) (afterSteps (words.length + 2) m)
          (afterSteps count (afterSteps (words.length + 2) m)) →
        m.Serves words call.nextIp (afterSteps count (afterSteps (words.length + 2) m)) := by
  obtain ⟨frame, stepped⟩ := calls.hasFrame (by omega) room
  refine ⟨stepped, fun count kept => ?_⟩
  refine (frame.kept (by simp) kept).serves ?_ ?_
  · grind
  · exact room.readRegister (by omega)

/-- A host that calls a function of two arguments.  The function reads the first one. -/
def framingHost : Machine where
  processor := { sp := 0x2000 }
  memory := (Memory.empty.place 0
      [Instruction.encode ⟨.push, 0, [⟨.immediate, Fin.last 31⟩]⟩, 11,
        Instruction.encode ⟨.push, 0, [⟨.immediate, Fin.last 31⟩]⟩, 22,
        Instruction.encode ⟨.call, 0, [⟨.immediate, Fin.last 31⟩]⟩, 0x10]).place 0x10
      [Instruction.encode ⟨.enter, 0, [⟨.immediate, Fin.last 31⟩]⟩, 3,
        Instruction.encode
          ⟨.getArgument, 0, [⟨.register, ⟨5, by decide⟩⟩, ⟨.immediate, Fin.last 31⟩]⟩, 1,
        Instruction.encode ⟨.leave, 0, []⟩,
        Instruction.encode ⟨.retn, 0, [⟨.immediate, Fin.last 31⟩]⟩, 2]

theorem call_serves_framingHost :
    (readRegister 5).outcome (afterSteps 5 framingHost) = .ok 11 ∧
      framingHost.Returns 6 (afterSteps 7 framingHost) := by
  have room : framingHost.HasRoom 4 (flatRegisterBase + UInt32.ofNat framePointer) :=
    hasRoom_of_flat (by decide) (by decide +kernel)
  have pushes : ∀ (j : Nat) word, [11, 22][j]? = some word →
      ∃ i, (afterSteps j framingHost).Performs i ∧ i.opcode = .push ∧ i.first = word := by
    intro j word found
    match j with
    | 0 =>
      cases found
      exact ⟨⟨.push, 0, 2, [⟨11, none⟩]⟩, by decide +kernel, rfl, rfl⟩
    | 1 =>
      cases found
      exact ⟨⟨.push, 2, 4, [⟨22, none⟩]⟩, by decide +kernel, rfl, rfl⟩
    | j + 2 => cases found
  have calls : framingHost.Calls [11, 22] ⟨.call, 4, 6, [⟨0x10, none⟩]⟩
      ⟨.enter, 0x10, 0x12, [⟨3, none⟩]⟩ :=
    ⟨pushes, ⟨by decide +kernel, rfl⟩, ⟨by decide +kernel, rfl⟩⟩
  obtain ⟨-, serves⟩ := call_serves (by decide) room calls
  -- Reading an argument is all that the function does, and it keeps the frame.
  have entered : framingHost.Serves [11, 22] 6 (afterSteps 4 framingHost) :=
    serves 0 ⟨.refl _ _, .refl _ _, rfl, fun _ _ => rfl⟩
  have gets : (afterSteps 4 framingHost).Performs
      ⟨.getArgument, 0x12, 0x14, [⟨Memory.blank, some (.register 5)⟩, ⟨1, none⟩]⟩ := by
    decide +kernel
  obtain ⟨place, a, target, found, completes⟩ := entered.getArgument 1 11 _ rfl gets rfl rfl
  have flat : (afterSteps 4 framingHost).mapped = afterSteps 4 framingHost :=
    mapped_of_flat (by decide +kernel)
  have mapping := completes.mapping
  rw [flat] at mapping
  have pointer : (readRegister framePointer).outcome (afterSteps 4 framingHost) = .ok 0x1FFC := by
    decide +kernel
  have kept : KeepsFrame 4 (afterSteps 4 framingHost) (afterSteps 5 framingHost) := by
    refine ⟨mapping .stack, mapping .register, by decide +kernel, fun frame there => ?_⟩
    rw [pointer] at there
    cases there
    decide +kernel
  have called : framingHost.Serves [11, 22] 6 (afterSteps 5 framingHost) := serves 1 kept
  obtain ⟨-, -, returned⟩ := called.returns ⟨.leave, 0x14, 0x15, []⟩
    ⟨.retn, 0x15, 0x17, [⟨2, none⟩]⟩ (by decide +kernel) rfl (by decide +kernel) rfl rfl
  have cell : a = 0x2005 := by
    cases target
    have there : (afterSteps 4 framingHost).registerCell? 5 = some 0x2005 := by decide +kernel
    exact Option.some.inj (found.symm.trans there)
  have mapped : (afterSteps 4 framingHost).mapped.registerCell? 5 = some 0x2005 := by
    rw [flat]
    decide +kernel
  have reads := completes.readRegister (by decide) mapped
  rw [cell, Memory.get_set_self] at reads
  exact ⟨reads, returned⟩

end WordMachine.Machine
