import WordMachine.Assembly.Operand

/-!
# Programs under construction

A program is a sequence of words that starts at address zero and grows at its
end.  Each way to grow it reports the address of what it added, so that later
instructions can refer to it.
-/

namespace WordMachine

/-- A program under construction. -/
structure Program where
  /-- The words so far. -/
  words : List Word := []
deriving DecidableEq, Repr

namespace Program

/-- The address of the next word. -/
def here (p : Program) : Word := UInt32.ofNat p.words.length

/-- The number of words. -/
def size (p : Program) : Nat := p.words.length

/-- Whether there are no words yet. -/
def isEmpty (p : Program) : Bool := p.words.isEmpty

/-- The program with words added, and their address. -/
def data (p : Program) (words : List Word) : Word × Program := (p.here, ⟨p.words ++ words⟩)

/-- The program with an instruction added, and its address. -/
def emit (p : Program) (opcode : Opcode) (privilege : UInt8) (operands : List Operand) :
    Except EncodeError (Word × Program) :=
  (assemble opcode privilege operands).map p.data

/-- The program with one word added. -/
def push (p : Program) (word : Word) : Program := ⟨p.words ++ [word]⟩

/-- Below an address, one more word moves the next address by one. -/
theorem toNat_here_push {p : Program} {address : Word} (below : p.here < address) (word : Word) :
    (p.push word).here.toNat = p.here.toNat + 1 := by
  have next : (p.push word).here = p.here + 1 := by simp [here, push, UInt32.ofNat_add]
  have small := address.toNat_lt
  rw [UInt32.lt_iff_toNat_lt] at below
  rw [next, UInt32.toNat_add, UInt32.toNat_one, Nat.mod_eq_of_lt (by omega)]

/-- The program filled up with `NOP` to an address, one after the other.  A program that already
reaches it stays as it is. -/
def padTo (p : Program) (address : Word) : Program :=
  if _ : p.here < address then (p.push Instruction.nop.encode).padTo address else p
termination_by address.toNat - p.here.toNat
decreasing_by
  have below : p.here < address := ‹_›
  rw [toNat_here_push below]
  exact Nat.sub_succ_lt_self _ _ (UInt32.lt_iff_toNat_lt.mp below)

/-- Filling up adds as many words as there are addresses left. -/
theorem words_padTo (p : Program) (address : Word) :
    (p.padTo address).words =
      p.words ++ List.replicate (address.toNat - p.here.toNat) Instruction.nop.encode := by
  fun_induction padTo p address with
  | case1 p below ih =>
    have left := Nat.sub_pos_of_lt (UInt32.lt_iff_toNat_lt.mp below)
    rw [ih, toNat_here_push below, push, List.append_assoc, List.singleton_append,
      ← List.replicate_succ, Nat.sub_add_eq, Nat.sub_add_cancel left]
  | case2 p reached =>
    rw [Nat.sub_eq_zero_of_le (UInt32.le_iff_toNat_le.mp (UInt32.not_lt.mp reached))]
    simp

end Program

end WordMachine
