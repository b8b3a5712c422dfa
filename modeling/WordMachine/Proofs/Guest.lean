import WordMachine.Machine.Run
import WordMachine.Proofs.Instruction
import WordMachine.Proofs.Tables

/-!
# Saving, entering and leaving

The rows of the guest table lie one after the other, and `rowStart` is where a
row starts.  Saving a context places it in its row, or fails before it writes
(`saveSlot_ends`).  Entering a guest writes nothing but the row of the host
(`performResume_ends`), and going back to the host writes nothing at all
(`leaveGuest_ends`).

Entering and leaving set both of what the processor says about who runs, and
everything else keeps both (`SameMode`).

While the table that is kept lies in memory (`GuestsCurrent`), the actions are
those of the table in memory (`guestRows_of_table`, `saveSlot_of_table`).
-/

namespace WordMachine

/-! ## Who runs -/

namespace Processor

variable {p : Processor} {slot : Word}

/-- The row of the running guest, if one runs. -/
def guest (p : Processor) : Option Word := if p.inGuest then some p.slot else none

theorem guest_of_inGuest (inside : p.inGuest = true) : p.guest = some p.slot := if_pos inside

theorem inGuest_of_guest (guest : p.guest = some slot) : p.inGuest = true := by
  unfold Processor.guest at guest
  split at guest
  · assumption
  · cases guest

theorem slot_of_guest (guest : p.guest = some slot) : p.slot = slot := by
  rw [guest_of_inGuest (inGuest_of_guest guest)] at guest
  exact Option.some.inj guest

/-- Whether the host runs, with the row of the host as its own. -/
structure RunsHost (p : Processor) : Prop where
  inGuest : p.inGuest = false
  slot : p.slot = hostSlot

end Processor

namespace Machine

variable {m m' m₁ : Machine} {slot : Word} {rows : List Context}

/-- Whether the same goes on, the host or a guest, with the same row as its own. -/
structure SameMode (m m' : Machine) : Prop where
  inGuest : m'.processor.inGuest = m.processor.inGuest
  slot : m'.processor.slot = m.processor.slot

namespace SameMode

theorem refl (m : Machine) : SameMode m m := ⟨rfl, rfl⟩

theorem trans (h : SameMode m m₁) (h₁ : SameMode m₁ m') : SameMode m m' :=
  ⟨h₁.inGuest.trans h.inGuest, h₁.slot.trans h.slot⟩

theorem of_processor (same : m'.processor = m.processor) : SameMode m m' := by
  constructor <;> rw [same]

theorem guest (h : SameMode m m') : m'.processor.guest = m.processor.guest := by
  unfold Processor.guest
  rw [h.inGuest, h.slot]

theorem runsHost (h : SameMode m m') (host : m.processor.RunsHost) : m'.processor.RunsHost :=
  ⟨h.inGuest.trans host.inGuest, h.slot.trans host.slot⟩

end SameMode

theorem LocalChange.sameMode (h : LocalChange m m') : SameMode m m' := ⟨h.inGuest, h.slot⟩

theorem Settles.sameMode (h : m.Settles m') : SameMode m m' := .of_processor h.processor

/-! ## Rows -/

/-- The address of a row of the guest table. -/
def rowStart (m : Machine) (slot : Word) : Nat :=
  m.processor.guestTable.toNat + Context.rowWidth * slot.toNat

/-- Whether a cell belongs to a row of the guest table. -/
def InRow (m : Machine) (slot a : Word) : Prop :=
  m.rowStart slot ≤ a.toNat ∧ a.toNat < m.rowStart slot + Context.rowWidth

/-- The machine with its context saved in a row.  The guest table has to be read again. -/
def withSaved (m : Machine) (slot : Word) : Machine :=
  { m with
    memory := m.memory.place (m.rowStart slot) m.processor.toContext.toRow.toList, guests := {} }

theorem length_toRow (c : Context) : c.toRow.toList.length = Context.rowWidth :=
  Vector.length_toList

/-- A local change leaves the guest table where it is. -/
theorem LocalChange.inRow (h : LocalChange m m') (slot a : Word) :
    m'.InRow slot a ↔ m.InRow slot a := by
  unfold InRow rowStart
  rw [h.processor]

theorem LocalChange.guest (h : LocalChange m m') : m'.processor.guest = m.processor.guest :=
  h.sameMode.guest

theorem cell?_withSaved (fits : m.rowStart slot + Context.rowWidth ≤ Word.count) {a : Word}
    (outside : ¬m.InRow slot a) : (m.withSaved slot).memory.cell? a = m.memory.cell? a := by
  have length := length_toRow m.processor.toContext
  unfold InRow at outside
  refine Memory.cell?_place_of_outside (by rw [length]; exact fits) ?_
  rw [length]
  omega

/-! ## Looking up -/

theorem guestRows_ends (m : Machine) :
    guestRows.Ends m
      (fun rows m' => (rows = [] ∧ m' = m) ∨ m' = { m with guests := ⟨some rows⟩ })
      (fun _ m' => m' = m) := by
  unfold Action.Ends guestRows TableCache.rows
  cases m.processor.hasGuestTable with
  | false => exact .inl ⟨rfl, rfl⟩
  | true =>
    cases kept : m.guests.snapshot with
    | some rows =>
      have same : m.guests = ⟨some rows⟩ := congrArg TableCache.mk kept
      exact .inr (by rw [← same])
    | none =>
      cases parsed : m.memory.guestTable m.processor.guestTable with
      | error e => rfl
      | ok rows => exact .inr rfl

theorem slotContext_ends (m : Machine) (slot : Word) :
    (slotContext slot).Ends m
      (fun context m' => ∃ rows, rows[slot.toNat]? = some context ∧
        m' = { m with guests := ⟨some rows⟩ })
      (fun _ m' => ∃ guests, m' = { m with guests }) := by
  refine .bind (guestRows_ends m) (fun rows m' read => ?_) fun e m' h => ⟨m.guests, h⟩
  rcases read with ⟨rfl, rfl⟩ | rfl
  · exact .throw ⟨m'.guests, rfl⟩
  · cases found : rows[slot.toNat]? with
    | none => exact .throw ⟨_, rfl⟩
    | some context => exact .pure ⟨rows, found, rfl⟩

/-! ## Tables as they lie in memory -/

/-- Whether the guest table that is kept, if one is, lies in memory. -/
def GuestsCurrent (m : Machine) : Prop :=
  ∀ rows, m.processor.hasGuestTable = true → m.guests.snapshot = some rows →
    m.memory.guestTable m.processor.guestTable = .ok rows

theorem hasGuestTable_of_guestTable
    (table : m.memory.guestTable m.processor.guestTable = .ok rows) :
    m.processor.hasGuestTable = true := by
  simpa [Processor.hasGuestTable] using Memory.ne_noTable_of_guestTable table

theorem guestRows_of_uninstalled (uninstalled : m.processor.hasGuestTable = false) :
    guestRows m = .ok [] m := by
  simp [guestRows, uninstalled]

theorem guestRows_of_table (current : m.GuestsCurrent)
    (table : m.memory.guestTable m.processor.guestTable = .ok rows) :
    guestRows m = .ok rows { m with guests := ⟨some rows⟩ } := by
  have installed := hasGuestTable_of_guestTable table
  unfold guestRows TableCache.rows
  rw [if_pos installed]
  cases kept : m.guests.snapshot with
  | none => simp [table, Except.map]
  | some rows' =>
    obtain rfl : rows' = rows := by
      simpa [table] using (current rows' installed kept).symm
    have same : m.guests = ⟨some rows'⟩ := congrArg TableCache.mk kept
    simp [← same]

theorem guestRows_of_unreadable {e : FatalError} (current : m.GuestsCurrent)
    (installed : m.processor.hasGuestTable = true)
    (unreadable : m.memory.guestTable m.processor.guestTable = .error e) :
    guestRows m = .error e m := by
  unfold guestRows TableCache.rows
  rw [if_pos installed]
  cases kept : m.guests.snapshot with
  | none => simp [unreadable, Except.map]
  | some rows =>
    have table := current rows installed kept
    rw [unreadable] at table
    cases table

theorem slotContext_of_table (slot : Word) {context : Context} (current : m.GuestsCurrent)
    (table : m.memory.guestTable m.processor.guestTable = .ok rows)
    (found : rows[slot.toNat]? = some context) :
    slotContext slot m = .ok context { m with guests := ⟨some rows⟩ } := by
  refine (Action.bind_of_ok (guestRows_of_table current table) _).trans ?_
  simp only [found]
  rfl

/-! ## Saving -/

/-- The memory with the context in a row, if the row has addresses. -/
theorem savedMemory_eq (m : Machine) (slot : Word) :
    m.savedMemory slot =
      if m.rowStart slot + Context.rowWidth ≤ Word.count then .ok (m.withSaved slot).memory
      else .error (.addressOutOfBounds
        (m.processor.rowAddress slot + UInt64.ofNat Context.rowWidth - 1)) := by
  have words := length_toRow m.processor.toContext
  have start : (m.processor.rowAddress slot).toNat = m.rowStart slot :=
    m.processor.toNat_rowAddress slot
  have written := Memory.writeBlock_eq (m := m.memory)
    (show m.processor.toContext.toRow.toList ≠ [] by simp [Context.toRow])
    (m.processor.rowAddress_narrow slot)
  rw [words, start] at written
  by_cases fits : m.rowStart slot + Context.rowWidth ≤ Word.count
  · rw [if_pos fits] at written ⊢
    exact AccessFailure.returned_of_ok written _
  · rw [if_neg fits] at written ⊢
    exact AccessFailure.returned_of_refused written _

/-- Saving a context whose row is known places it if the row has addresses. -/
theorem saveSlot_eq {context : Context} (known : slotContext slot m = .ok context m') :
    saveSlot slot m =
      if m'.rowStart slot + Context.rowWidth ≤ Word.count then .ok () (m'.withSaved slot)
      else .error (.memory (.addressOutOfBounds
        (m'.processor.rowAddress slot + UInt64.ofNat Context.rowWidth - 1))) m' := by
  refine (Action.bind_of_ok known _).trans ?_
  by_cases fits : m'.rowStart slot + Context.rowWidth ≤ Word.count
  · simp only [savedMemory_eq, if_pos fits]
    rfl
  · simp only [savedMemory_eq, if_neg fits]

/-- Saving places the context in its row, or fails before it writes. -/
theorem saveSlot_ends (m : Machine) (slot : Word) :
    (saveSlot slot).Ends m
      (fun _ m' => m.rowStart slot + Context.rowWidth ≤ Word.count ∧ m' = m.withSaved slot)
      (fun _ m' => ∃ guests, m' = { m with guests }) := by
  have looks := slotContext_ends m slot
  cases known : slotContext slot m with
  | error e m' => exact .of_error (Action.bind_of_error known _) (looks.error known)
  | ok context m' =>
    obtain ⟨rows, -, rfl⟩ := looks.ok known
    have eq := saveSlot_eq known
    split at eq
    next fits => exact .of_ok eq ⟨fits, rfl⟩
    next => exact .of_error eq ⟨_, rfl⟩

/-- After a save no table is kept. -/
theorem current_withSaved (m : Machine) (slot : Word) : (m.withSaved slot).GuestsCurrent := by
  intro rows _ kept
  cases kept

/-- A row of a table that lies in memory has addresses. -/
theorem row_fits_of_table (table : m.memory.guestTable m.processor.guestTable = .ok rows)
    (known : slot.toNat < rows.length) : m.rowStart slot + Context.rowWidth ≤ Word.count := by
  have fits := Memory.fits_of_guestTable table
  simp only [rowStart, Context.rowWidth] at *
  omega

theorem saveSlot_of_table (current : m.GuestsCurrent)
    (table : m.memory.guestTable m.processor.guestTable = .ok rows)
    (known : slot.toNat < rows.length) : saveSlot slot m = .ok () (m.withSaved slot) := by
  have found := slotContext_of_table slot current table (List.getElem?_eq_getElem known)
  exact (saveSlot_eq found).trans (if_pos (row_fits_of_table table known))

/-- Saving touches no cell outside the row. -/
theorem get_withSaved (fits : m.rowStart slot + Context.rowWidth ≤ Word.count) {a : Word}
    (outside : a.toNat < m.processor.guestTable.toNat + Context.rowWidth * slot.toNat ∨
      m.processor.guestTable.toNat + Context.rowWidth * (slot.toNat + 1) ≤ a.toNat) :
    m.memory.get a = (m.withSaved slot).memory.get a := by
  refine (Memory.get_congr (cell?_withSaved fits ?_)).symm
  rintro ⟨low, high⟩
  simp only [rowStart, Context.rowWidth] at *
  omega

/-- Saving a context replaces its row of the table, unless the row is the one that ends a table. -/
theorem guestTable_withSaved (table : m.memory.guestTable m.processor.guestTable = .ok rows)
    (known : slot.toNat < rows.length)
    (goesOn : m.processor.toContext.toRow ≠ terminator Context.rowWidth) :
    (m.withSaved slot).memory.guestTable m.processor.guestTable =
      .ok (rows.set slot.toNat m.processor.toContext) := by
  have fits := row_fits_of_table table known
  have saved := Memory.guestTable_set table known (fun _ => get_withSaved fits)
    (Memory.row_place m.memory fits m.processor.toContext.toRow) goesOn
  rwa [Context.ofRow_toRow] at saved

/-- Saving a context whose row is the one that ends a table ends the table there. -/
theorem guestTable_withSaved_of_ends
    (table : m.memory.guestTable m.processor.guestTable = .ok rows)
    (known : slot.toNat < rows.length)
    (ends : m.processor.toContext.toRow = terminator Context.rowWidth) :
    (m.withSaved slot).memory.guestTable m.processor.guestTable =
      .ok (rows.take slot.toNat) := by
  have fits := row_fits_of_table table known
  exact Memory.guestTable_take table known (fun _ before => get_withSaved fits (.inl before))
    ((Memory.row_place m.memory fits m.processor.toContext.toRow).trans ends)

/-! ## Entering -/

/-- Whether the cells outside the row of the host are as they were. -/
def KeepsRest (m m' : Machine) : Prop :=
  ∀ a, ¬m.InRow hostSlot a → m'.memory.cell? a = m.memory.cell? a

theorem saveHostSlot_ends (m : Machine) :
    (liftM saveHostSlot : Action Exception Unit).Ends m (fun _ m' => m.KeepsRest m')
      (fun e m' => (∃ e', e = .fatal e') ∧ m.KeepsRest m') := by
  refine .lift ((saveSlot_ends m hostSlot).imp ?_ ?_)
  · rintro _ _ ⟨fits, rfl⟩ a outside
    exact cell?_withSaved fits outside
  · rintro e _ ⟨guests, rfl⟩
    exact ⟨⟨e, rfl⟩, fun _ _ => rfl⟩

theorem enterGuest_ends (m : Machine) (slot : Word) :
    (liftM (enterGuest slot) : Action Exception Unit).Ends m (fun _ m' => m'.memory = m.memory)
      (fun e m' => (∃ e', e = .fatal e') ∧ m'.memory = m.memory) := by
  refine .lift (.bind (slotContext_ends m slot) ?_ ?_)
  · rintro context _ ⟨rows, -, rfl⟩
    exact rfl
  · rintro e _ ⟨guests, rfl⟩
    exact ⟨⟨e, rfl⟩, rfl⟩

/-- Entering a guest writes nothing but the row of the host, and fails with a fault only before
that. -/
theorem performResume_ends (m : Machine) (i : ResolvedInstruction) :
    (performResume i).Ends m (fun _ m' => m.KeepsRest m')
      (fun e m' => (e.IsFault ∧ ∃ guests, m' = { m with guests }) ∨
        (∃ e', e = .fatal e') ∧ m.KeepsRest m') := by
  refine (hostOnly_reads m _ _ _).bind_ends (fun _ _ => ?_) fun e h => .inl ⟨h, m.guests, rfl⟩
  have looks : (liftM guestRows : Action Exception (List Context)).Ends m
      (fun _ m' => ∃ guests, m' = { m with guests }) (fun e m' => (∃ e', e = .fatal e') ∧ m' = m) := by
    refine .lift ((guestRows_ends m).imp ?_ fun e m' h => ⟨⟨e, rfl⟩, h⟩)
    rintro rows m' (⟨-, rfl⟩ | rfl)
    · exact ⟨m'.guests, rfl⟩
    · exact ⟨_, rfl⟩
  refine .bind looks ?_ ?_
  · rintro rows _ ⟨guests, rfl⟩
    split
    · exact .throw (.inl ⟨⟨_, rfl⟩, guests, rfl⟩)
    -- The instruction pointer moves on, so that the host goes on after the instruction.
    have moves : (modifyProcessor fun p => { p with ip := i.nextIp } : Action Exception Unit).Ends
        { m with guests } (fun _ m' => m' = Machine.goto { m with guests } i.nextIp)
        (fun _ _ => False) := rfl
    refine .bind moves ?_ fun _ _ h => h.elim
    rintro _ _ rfl
    refine .bind (saveHostSlot_ends _) (fun _ m₂ saved => ?_) fun e m₂ h => .inr h
    refine .bind (enterGuest_ends m₂ i.first) (fun _ m₃ entered => .pure ?_) ?_
    · intro a outside
      rw [entered, saved a outside]
      rfl
    · rintro e m₃ ⟨fatal, same⟩
      refine .inr ⟨fatal, fun a outside => ?_⟩
      rw [same, saved a outside]
      rfl
  · rintro e _ ⟨fatal, rfl⟩
    exact .inr ⟨fatal, fun _ _ => rfl⟩

/-! ## Leaving -/

/-- The machine with the context of the host put back. -/
def toHost (m : Machine) (rows : List Context) (host : Context) : Machine :=
  { m with
    processor := { m.processor.withContext host with inGuest := false, slot := hostSlot }
    guests := ⟨some rows⟩ }

theorem runsHost_toHost (m : Machine) (rows : List Context) (host : Context) :
    (m.toHost rows host).processor.RunsHost := ⟨rfl, rfl⟩

theorem leaveGuest_ends (m : Machine) :
    leaveGuest.Ends m
      (fun _ m' => ∃ rows host, rows[hostSlot.toNat]? = some host ∧ m' = m.toHost rows host)
      (fun _ m' => ∃ guests, m' = { m with guests }) := by
  refine .bind (slotContext_ends m hostSlot) ?_ fun e m' h => h
  rintro host _ ⟨rows, found, rfl⟩
  exact ⟨rows, host, found, rfl⟩

end Machine

end WordMachine
