import WordMachine.Proofs.Step

/-!
# Saving a slot

A context is saved in its row of the guest table.  The machine forgets the
table, and reads it again from memory when it is used next.  Then the row holds
the context that was saved, and the other rows are as they were
(`saveSlot_replaces`).

One context has no row of its own.  If every bit of it is set, its row is the
row that ends a table, and the table read next stops before it.  So a save can
lose rows (`rows_lost_by_save`).
-/

namespace WordMachine.Machine

variable {m : Machine} {slot : Word} {rows : List Context}

/-- The guest table is read again after a save. -/
theorem guestRows_withSaved {rows' : List Context}
    (table : (m.withSaved slot).memory.guestTable m.processor.guestTable = .ok rows') :
    guestRows.outcome (m.withSaved slot) = .ok rows' := by
  have read := guestRows_of_table (current_withSaved m slot) table
  simp only [Action.outcome, read]

/-- Saving the context of the processor in a row that the table has succeeds and writes no other
cell than those of the row.  The table read next has the context in that row and is otherwise the
same, unless every bit of the context is set.  Then it ends before the row. -/
theorem saveSlot_replaces (table : m.memory.guestTable m.processor.guestTable = .ok rows)
    (current : m.GuestsCurrent) (known : slot.toNat < rows.length) :
    ∃ m', saveSlot slot m = .ok () m' ∧ m'.processor = m.processor ∧
      (∀ a, ¬m.InRow slot a → m'.memory.cell? a = m.memory.cell? a) ∧
      (m.processor.toContext.toRow ≠ terminator Context.rowWidth →
        guestRows.outcome m' = .ok (rows.set slot.toNat m.processor.toContext)) ∧
      (m.processor.toContext.toRow = terminator Context.rowWidth →
        guestRows.outcome m' = .ok (rows.take slot.toNat)) := by
  refine ⟨m.withSaved slot, saveSlot_of_table current table known, rfl, ?_, ?_, ?_⟩
  · exact fun a outside => cell?_withSaved (row_fits_of_table table known) outside
  · exact fun goesOn => guestRows_withSaved (guestTable_withSaved table known goesOn)
  · exact fun ends => guestRows_withSaved (guestTable_withSaved_of_ends table known ends)

/-- The sample guest is saved in row one. -/
theorem saveSlot_replaces_sampleGuest :
    sampleGuest.memory.guestTable sampleGuest.processor.guestTable = .ok sampleContexts ∧
      sampleGuest.GuestsCurrent ∧ (1 : Word).toNat < sampleContexts.length ∧
      sampleGuest.processor.toContext.toRow ≠ terminator Context.rowWidth ∧
      ∃ m', saveSlot 1 sampleGuest = .ok () m' ∧ m'.processor = sampleGuest.processor ∧
        (∀ a, ¬sampleGuest.InRow 1 a → m'.memory.cell? a = sampleGuest.memory.cell? a) ∧
        guestRows.outcome m' = .ok (sampleContexts.set 1 sampleGuest.processor.toContext) := by
  have table : sampleGuest.memory.guestTable sampleGuest.processor.guestTable =
      .ok sampleContexts := by decide +kernel
  have current : sampleGuest.GuestsCurrent := by
    intro rows _ kept
    obtain rfl : sampleContexts = rows := Option.some.inj kept
    exact table
  have known : (1 : Word).toNat < sampleContexts.length := by decide
  have goesOn : sampleGuest.processor.toContext.toRow ≠ terminator Context.rowWidth := by decide
  obtain ⟨m', saved, processor, rest, replaced, -⟩ := saveSlot_replaces table current known
  exact ⟨table, current, known, goesOn, m', saved, processor, rest, replaced goesOn⟩

/-! ## A context that ends the table -/

/-- A host with every bit of its context set, over the table of the sample guest. -/
def saturatedHost : Machine :=
  { sampleGuest with
    processor := { toContext := .ofRow (terminator Context.rowWidth), guestTable := 0x500 } }

/-- Saving that host in row one succeeds, and takes the row from the table. -/
theorem rows_lost_by_save :
    saturatedHost.memory.guestTable saturatedHost.processor.guestTable = .ok sampleContexts ∧
      saturatedHost.guests.snapshot = some sampleContexts ∧
      (1 : Word).toNat < sampleContexts.length ∧
      (saveSlot 1).outcome saturatedHost = .ok () ∧
      ∃ rows, guestRows.outcome ((saveSlot 1).after saturatedHost) = .ok rows ∧
        rows.length ≠ sampleContexts.length ∧
        rows[(1 : Word).toNat]? ≠ some saturatedHost.processor.toContext :=
  ⟨by decide +kernel, rfl, by decide, by decide +kernel, sampleContexts.take 1, by decide +kernel,
    by decide, by decide⟩

end WordMachine.Machine
