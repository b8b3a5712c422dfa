import WordMachine.Isa.Register

/-!
# Contexts

A context is what a processor needs to go on where it stopped: the selectors,
the instruction and stack pointers, the flags and the privilege level.  The
guest table lists saved contexts, nine words to a row.  Row zero belongs to the
host.

Every row is a context and every context has a row, so saving and restoring
lose nothing (`Context.ofRow_toRow`).
-/

namespace WordMachine

/-- A saved context. -/
structure Context where
  /-- The code selector. -/
  cs : Word := 0
  /-- The data selector. -/
  ds : Word := 0
  /-- The extra data selector. -/
  es : Word := 0
  /-- The stack selector. -/
  ss : Word := 0
  /-- The register selector. -/
  rs : Word := 0
  /-- The instruction pointer, an offset in the code segment. -/
  ip : Word := 0
  /-- The stack pointer, an offset in the stack segment. -/
  sp : Word := 0
  /-- The outcome of the last comparison. -/
  flags : Flags := {}
  /-- The privilege level. -/
  privilege : Word := 0
deriving DecidableEq, Repr, Inhabited

namespace Context

/-- The number of words in a row. -/
abbrev rowWidth : Nat := 9

/-- The context in a row. -/
def ofRow (row : Vector Word rowWidth) : Context :=
  ⟨row[0], row[1], row[2], row[3], row[4], row[5], row[6], ⟨row[7]⟩, row[8]⟩

/-- The row of a context. -/
def toRow (c : Context) : Vector Word rowWidth :=
  #v[c.cs, c.ds, c.es, c.ss, c.rs, c.ip, c.sp, c.flags.bits, c.privilege]

theorem ofRow_toRow (c : Context) : ofRow c.toRow = c := rfl

theorem toRow_ofRow (row : Vector Word rowWidth) : (ofRow row).toRow = row := by
  ext i hi
  match i, hi with
  | 0, _ | 1, _ | 2, _ | 3, _ | 4, _ | 5, _ | 6, _ | 7, _ | 8, _ => rfl

end Context

end WordMachine
