import WordMachine.Assembly.Program

/-!
# The layout of a program

A program is built by calls, and each call adds words at its end or none.  The
log of the calls keeps what each one was answered and the program before and
after it.

`Adds` gives the rules: what a call to a program of a given size is answered,
and what it adds.  An address in an answer is a size there, a number without
bound.  The program computes it as a word, which is the same as long as there
are fewer words than addresses (`perform_adds`).

No call changes what earlier calls added, so an address that was reported stays
the place of the words it was reported for (`layout_of_calls`).
-/

namespace WordMachine.Program

/-! ## Calls -/

/-- A call to a program under construction. -/
inductive Call where
  /-- Adds an instruction.  Its privilege level is zero where none is given. -/
  | emit (opcode : Opcode) (privilege : UInt8) (operands : List Operand)
  /-- Adds words as they are. -/
  | data (words : List Word)
  /-- Fills the program up to an address. -/
  | padTo (address : Word)
  /-- Asks for the address of the next word. -/
  | here
deriving DecidableEq, Repr

/-- The answer to a call. -/
inductive Answer where
  /-- An address. -/
  | address (a : Word)
  /-- The reason why an instruction was not added. -/
  | refused (error : EncodeError)
  /-- Nothing to report. -/
  | done
deriving DecidableEq, Repr

/-- The answer to a call, and the program after it. -/
def perform (p : Program) : Call → Answer × Program
  | .emit opcode privilege operands =>
    match p.emit opcode privilege operands with
    | .ok (address, q) => (.address address, q)
    | .error e => (.refused e, p)
  | .data words => (.address (p.data words).1, (p.data words).2)
  | .padTo address => (.done, p.padTo address)
  | .here => (.address p.here, p)

/-- The program after calls. -/
def performAll (p : Program) (calls : List Call) : Program :=
  calls.foldl (fun p c => (p.perform c).2) p

/-- A call that was made. -/
structure Entry where
  /-- The call. -/
  call : Call
  /-- The program before it. -/
  before : Program
  /-- The answer. -/
  answer : Answer
  /-- The program after it. -/
  after : Program

/-- The words that a call added. -/
def Entry.added (e : Entry) : List Word := e.after.words.drop e.before.size

/-- What happens when calls are made one after the other. -/
def log (p : Program) : List Call → List Entry
  | [] => []
  | c :: cs => ⟨c, p, (p.perform c).1, (p.perform c).2⟩ :: (p.perform c).2.log cs

/-- A call to a program of `size` words is answered so, and adds these words. -/
inductive Adds (size : Nat) : Call → Answer → List Word → Prop
  | emitted {opcode : Opcode} {privilege : UInt8} {operands : List Operand} {words : List Word}
      {a : Word} (assembled : assemble opcode privilege operands = .ok words)
      (address : a.toNat = size) : Adds size (.emit opcode privilege operands) (.address a) words
  | refused {opcode : Opcode} {privilege : UInt8} {operands : List Operand} {e : EncodeError}
      (failed : assemble opcode privilege operands = .error e) :
      Adds size (.emit opcode privilege operands) (.refused e) []
  | data {words : List Word} {a : Word} (address : a.toNat = size) :
      Adds size (.data words) (.address a) words
  | padded {address : Word} :
      Adds size (.padTo address) .done
        (List.replicate (address.toNat - size) Instruction.nop.encode)
  | here {a : Word} (address : a.toNat = size) : Adds size .here (.address a) []

/-! ## One call -/

theorem toNat_here {p : Program} (small : p.size < Word.count) : p.here.toNat = p.size :=
  UInt32.toNat_ofNat_of_lt' small

/-- A call adds words at the end of a program.  It is answered by the rules if the next address is
a word. -/
theorem perform_adds (p : Program) (c : Call) :
    ∃ words, (p.perform c).2.words = p.words ++ words ∧
      (p.size < Word.count → Adds p.size c (p.perform c).1 words) := by
  cases c with
  | emit opcode privilege operands =>
    cases assembled : assemble opcode privilege operands with
    | error e =>
      refine ⟨[], ?_, fun _ => ?_⟩
      · simp [perform, emit, assembled, Except.map]
      · simpa [perform, emit, assembled, Except.map] using .refused assembled
    | ok words =>
      refine ⟨words, ?_, fun small => ?_⟩
      · simp [perform, emit, assembled, Except.map, Program.data]
      · simpa [perform, emit, assembled, Except.map, Program.data] using
          .emitted assembled (toNat_here small)
  | data words => exact ⟨words, rfl, fun small => .data (toNat_here small)⟩
  | padTo address =>
    refine ⟨_, words_padTo p address, fun small => ?_⟩
    rw [toNat_here small]
    exact .padded
  | here => exact ⟨[], (List.append_nil _).symm, fun small => .here (toNat_here small)⟩

theorem Adds.refused_eq {size : Nat} {c : Call} {e : EncodeError} {words : List Word}
    (h : Adds size c (.refused e) words) : words = [] := by
  cases h
  rfl

theorem Adds.toNat_eq {size : Nat} {c : Call} {a : Word} {words : List Word}
    (h : Adds size c (.address a) words) : a.toNat = size := by
  cases h with
  | emitted _ address | data address | here address => exact address

/-! ## All calls -/

theorem performAll_cons (p : Program) (c : Call) (calls : List Call) :
    p.performAll (c :: calls) = (p.perform c).2.performAll calls :=
  rfl

/-- Calls only add words. -/
theorem prefix_performAll (p : Program) (calls : List Call) :
    p.words <+: (p.performAll calls).words := by
  induction calls generalizing p with
  | nil => exact List.prefix_refl _
  | cons c calls ih =>
    obtain ⟨words, grown, -⟩ := p.perform_adds c
    exact .trans ⟨words, grown.symm⟩ (ih _)

theorem map_call_log (p : Program) (calls : List Call) : (p.log calls).map (·.call) = calls := by
  induction calls generalizing p with
  | nil => rfl
  | cons c calls ih => rw [log, List.map_cons, ih]

/-- Where a call stands in the final program, and what it added. -/
structure Entry.Placed (e : Entry) (final : Program) : Prop where
  adds : Adds e.before.size e.call e.answer e.added
  grown : e.after.words = e.before.words ++ e.added
  kept : e.after.words <+: final.words

theorem placed_of_perform {p final : Program} {c : Call} (small : final.size < Word.count)
    (kept : (p.perform c).2.words <+: final.words) :
    Entry.Placed ⟨c, p, (p.perform c).1, (p.perform c).2⟩ final := by
  obtain ⟨words, grown, adds⟩ := p.perform_adds c
  have added : Entry.added ⟨c, p, (p.perform c).1, (p.perform c).2⟩ = words := by
    simp [Entry.added, grown, size]
  have below : p.size ≤ final.size := by
    refine List.IsPrefix.length_le (.trans ⟨words, grown.symm⟩ kept)
  exact ⟨added ▸ adds (Nat.lt_of_le_of_lt below small), added ▸ grown, kept⟩

/-- Every call stands where it was put, and the final program is what they added. -/
theorem placed_of_mem_log {p : Program} {calls : List Call}
    (small : (p.performAll calls).size < Word.count) :
    (p.performAll calls).words = p.words ++ (p.log calls).flatMap (·.added) ∧
      ∀ e ∈ p.log calls, e.Placed (p.performAll calls) := by
  induction calls generalizing p with
  | nil => exact ⟨(List.append_nil _).symm, List.forall_mem_nil _⟩
  | cons c calls ih =>
    rw [performAll_cons] at small ⊢
    obtain ⟨later, each⟩ := ih small
    have first := placed_of_perform small (prefix_performAll (p.perform c).2 calls)
    refine ⟨?_, List.forall_mem_cons.mpr ⟨first, each⟩⟩
    rw [log, List.flatMap_cons, ← List.append_assoc, ← first.grown]
    exact later

namespace Entry.Placed

variable {e : Entry} {final : Program}

/-- The words of a call lie at the address that it was answered. -/
theorem added_prefix (placed : e.Placed final) {a : Word} (answer : e.answer = .address a) :
    e.added <+: final.words.drop a.toNat := by
  have adds := placed.adds
  rw [answer] at adds
  obtain ⟨rest, eq⟩ := placed.kept
  rw [adds.toNat_eq, ← eq, placed.grown, List.append_assoc, size, List.drop_left]
  exact List.prefix_append ..

/-- A call that is refused changes nothing. -/
theorem eq_of_refused (placed : e.Placed final) {error : EncodeError}
    (answer : e.answer = .refused error) : e.after = e.before := by
  have adds := placed.adds
  rw [answer] at adds
  have same := placed.grown
  rw [adds.refused_eq, List.append_nil] at same
  cases ha : e.after
  cases hb : e.before
  simp_all

end Entry.Placed

/-- A program that is built by calls from nothing holds what they added, in order.  Each call adds
what the rules say, and is answered by them.  The words of a call lie at the address that it was
answered, whatever was called after it.  A call that is refused changes nothing, and what fills a
program up are `NOP`s of privilege level zero. -/
theorem layout_of_calls {calls : List Call} (small : (performAll {} calls).size < Word.count) :
    (log {} calls).map (·.call) = calls ∧
    (performAll {} calls).words = (log {} calls).flatMap (·.added) ∧
    (∀ e ∈ log {} calls,
      Adds e.before.size e.call e.answer e.added ∧
      e.after.words = e.before.words ++ e.added ∧
      (∀ a, e.answer = .address a → e.added <+: (performAll {} calls).words.drop a.toNat) ∧
      (∀ error, e.answer = .refused error → e.after = e.before)) ∧
    Instruction.decode Instruction.nop.encode = .ok ⟨.nop, 0, []⟩ := by
  obtain ⟨whole, each⟩ := placed_of_mem_log small
  refine ⟨map_call_log _ _, whole, fun e made => ?_, Instruction.decode_encode (by decide)⟩
  have placed := each e made
  exact ⟨placed.adds, placed.grown, fun _ => placed.added_prefix, fun _ => placed.eq_of_refused⟩

/-- A jump over padding, an instruction that is refused, and data behind another one. -/
def paddedCalls : List Call :=
  [.emit .jmp 0 [.immediate 4], .padTo 4, .emit .add 0 [.immediate 1, .immediate 2],
    .emit .halt 2 [], .padTo 3, .data [1, 2], .here]

theorem layout_of_calls_paddedCalls :
    (performAll {} paddedCalls).words = [0x40, 4, 0x21, 0x21, 0x222, 1, 2] ∧
    (log {} paddedCalls).map (·.answer) = [.address 0, .done,
      .refused (.illegalOperand 1 .add .immediate), .address 4, .done, .address 5, .address 7] ∧
    (log {} paddedCalls).flatMap (·.added) = [0x40, 4, 0x21, 0x21, 0x222, 1, 2] := by
  have words : (performAll {} paddedCalls).words = [0x40, 4, 0x21, 0x21, 0x222, 1, 2] := by decide +kernel
  have small : (performAll {} paddedCalls).size < Word.count := by
    rw [size, words]
    decide
  obtain ⟨_, whole, _⟩ := layout_of_calls small
  exact ⟨words, by decide +kernel, whole.symm.trans words⟩

end WordMachine.Program
