import WordMachine.Proofs.Delivery

/-!
# Contexts in the guest table

`rowContext` is the context that lies in a row of the guest table.  Saving puts
the current context there (`rowContext_withSaved`) and leaves the other rows
alone (`rowContext_withSaved_of_ne`).

A table that was read earlier may differ from what lies in memory.  But saving
makes the machine forget it (`current_withSaved`), so what is looked up after a
save is what lies in the row (`slotContext_ends_of_current`).  Entering a guest
and leaving one both save first.  Hence the guest is entered with the context in its row (`Entered`,
`performResume_enters`), and the host goes on with the context in row zero
(`leaveFor_ends_of_guest`), whatever was kept before.
-/

namespace WordMachine.Machine

variable {m m' : Machine} {slot slot' : Word} {i : ResolvedInstruction}

/-! ## The context in a row -/

/-- The context that lies in a row of the guest table. -/
def rowContext (m : Machine) (slot : Word) : Context :=
  Context.ofRow (m.memory.row Context.rowWidth (m.rowStart slot))

/-- Whether a row of the guest table lies within the addresses. -/
def RowFits (m : Machine) (slot : Word) : Prop :=
  m.rowStart slot + Context.rowWidth ≤ Word.count

theorem rowStart_congr (table : m'.processor.guestTable = m.processor.guestTable) (slot : Word) :
    m'.rowStart slot = m.rowStart slot := by
  unfold rowStart
  rw [table]

theorem inRow_congr (table : m'.processor.guestTable = m.processor.guestTable) (slot a : Word) :
    m'.InRow slot a ↔ m.InRow slot a := by
  unfold InRow
  rw [rowStart_congr table]

/-- A row whose words stay keeps its context. -/
theorem rowContext_congr (table : m'.processor.guestTable = m.processor.guestTable)
    (fits : m.RowFits slot) (same : ∀ a, m.InRow slot a → m'.memory.get a = m.memory.get a) :
    m'.rowContext slot = m.rowContext slot := by
  unfold rowContext
  rw [rowStart_congr table, Memory.row_congr fits fun a low high => same a ⟨low, high⟩]

theorem not_inRow_of_ne (ne : slot ≠ slot') {a : Word} (inRow : m.InRow slot a) :
    ¬m.InRow slot' a := by
  have apart : slot.toNat ≠ slot'.toNat := fun same => ne (UInt32.toNat_inj.mp same)
  unfold InRow rowStart at *
  simp only [Context.rowWidth] at *
  omega

theorem rowContext_withSaved (fits : m.RowFits slot) :
    (m.withSaved slot).rowContext slot = m.processor.toContext := by
  show Context.ofRow ((m.memory.place (m.rowStart slot) m.processor.toContext.toRow.toList).row
    Context.rowWidth (m.rowStart slot)) = _
  rw [Memory.row_place _ fits, Context.ofRow_toRow]

theorem rowContext_withSaved_of_ne (ne : slot ≠ slot') (fits : m.RowFits slot)
    (fits' : m.RowFits slot') : (m.withSaved slot').rowContext slot = m.rowContext slot :=
  rowContext_congr rfl fits fun _ inRow =>
    Memory.get_congr (cell?_withSaved fits' (not_inRow_of_ne ne inRow))

/-! ## Looking up a context -/

/-- If the machine knows the table as it lies in memory, what is looked up is what lies in the row. -/
theorem slotContext_ends_of_current (current : m.GuestsCurrent) (slot : Word) :
    (slotContext slot).Ends m
      (fun context m' => context = m.rowContext slot ∧ m.RowFits slot ∧
        ∃ rows, m.memory.guestTable m.processor.guestTable = .ok rows ∧
          m' = { m with guests := ⟨some rows⟩ })
      (fun _ m' => ∃ guests, m' = { m with guests }) := by
  cases installed : m.processor.hasGuestTable with
  | false =>
    exact .of_error (Action.bind_of_ok (guestRows_of_uninstalled installed) _) ⟨m.guests, rfl⟩
  | true =>
    cases table : m.memory.guestTable m.processor.guestTable with
    | error e =>
      have fails := guestRows_of_unreadable current installed table
      exact .of_error (Action.bind_of_error fails _) ⟨m.guests, rfl⟩
    | ok rows =>
      cases found : rows[slot.toNat]? with
      | none =>
        refine .of_error (e := .unknownGuestSlot slot) ?_ ⟨⟨some rows⟩, rfl⟩
        refine (Action.bind_of_ok (guestRows_of_table current table) _).trans ?_
        simp only [found]
        rfl
      | some context =>
        have known : slot.toNat < rows.length := (List.getElem?_eq_some_iff.mp found).1
        exact .of_ok (slotContext_of_table slot current table found)
          ⟨Memory.eq_ofRow_of_guestTable table found, row_fits_of_table table known, rows, rfl, rfl⟩

/-! ## Entering -/

/-- The machine with a guest entered. -/
def toGuest (m : Machine) (rows : List Context) (slot : Word) (context : Context) : Machine :=
  { m with
    processor := { m.processor.withContext context with inGuest := true, slot }
    guests := ⟨some rows⟩ }

/-- The host as it is saved before the guest is entered, to go on after the instruction. -/
def suspended (m : Machine) (i : ResolvedInstruction) : Machine :=
  (m.goto i.nextIp).withSaved hostSlot

/-- What entering a guest comes to: the host is saved, and the guest goes on with the context in
its row. -/
inductive Entered (m : Machine) (i : ResolvedInstruction) : Machine → Prop
  /-- The only way to enter. -/
  | intro (rows : List Context) (notHost : i.first ≠ hostSlot) (hostFits : m.RowFits hostSlot)
      (fits : m.RowFits i.first)
      (table : (m.suspended i).memory.guestTable m.processor.guestTable = .ok rows) :
      Entered m i ((m.suspended i).toGuest rows i.first ((m.suspended i).rowContext i.first))

/-- Entering a guest replaces the context. -/
theorem Entered.processor (h : m.Entered i m') :
    m'.processor =
      { m.processor.withContext (m.rowContext i.first) with inGuest := true, slot := i.first } := by
  obtain ⟨rows, notHost, hostFits, fits, -⟩ := h
  have same : (m.suspended i).rowContext i.first = m.rowContext i.first :=
    rowContext_withSaved_of_ne notHost fits hostFits
  rw [same]
  rfl

theorem Entered.status (h : m.Entered i m') : m'.status = m.status := by
  obtain ⟨rows, -, -, -, -⟩ := h
  rfl

theorem Entered.settled (h : m.Entered i m') (settled : m.Settled) : m'.Settled := by
  obtain ⟨rows, -, -, -, -⟩ := h
  exact settled

theorem Entered.notHost (h : m.Entered i m') : i.first ≠ hostSlot := by
  obtain ⟨rows, notHost, -, -, -⟩ := h
  exact notHost

theorem Entered.hostFits (h : m.Entered i m') : m.RowFits hostSlot := by
  obtain ⟨rows, -, hostFits, -, -⟩ := h
  exact hostFits

/-- While a guest runs, the host waits in row zero, to go on after the instruction. -/
theorem Entered.rowContext_host (h : m.Entered i m') :
    m'.rowContext hostSlot = { m.processor.toContext with ip := i.nextIp } := by
  obtain ⟨rows, -, hostFits, -, -⟩ := h
  exact rowContext_withSaved (m := m.goto i.nextIp) hostFits

/-- In the host `VMRESUME` looks at the guest table it knows, and goes on only if that has the slot. -/
theorem performResume_of_rows {rows : List Context} (host : m.processor.inGuest = false)
    (known : guestRows m = .ok rows m') :
    performResume i m =
      if i.first = hostSlot ∨ rows.length ≤ i.first.toNat then
        .error (.fault (.invalidGuestSlot i.first)) m'
      else (do
        saveHostSlot
        enterGuest i.first
        return { control := .redirected } : Action Exception Outcome) (m'.goto i.nextIp) := by
  refine (Action.bind_of_ok (hostOnly_of_host host _ _ _) _).trans ?_
  refine (Action.bind_of_ok (Action.lift_of_ok known) _).trans ?_
  split <;> rfl

theorem performResume_of_unreadable {e : FatalError} (host : m.processor.inGuest = false)
    (unreadable : guestRows m = .error e m') : performResume i m = .error (.fatal e) m' :=
  (Action.bind_of_ok (hostOnly_of_host host _ _ _) _).trans
    (Action.bind_of_error (Action.lift_of_error unreadable) _)

/-- What `VMRESUME` does once the slot was checked. -/
theorem saveAndEnter_ends (m : Machine) (slot : Word) :
    (do
      saveHostSlot
      enterGuest slot
      return { control := .redirected } : Action Exception Outcome).Ends m
      (fun _ m' => ∃ rows, m.RowFits hostSlot ∧ m.RowFits slot ∧
        (m.withSaved hostSlot).memory.guestTable m.processor.guestTable = .ok rows ∧
        m' = (m.withSaved hostSlot).toGuest rows slot ((m.withSaved hostSlot).rowContext slot))
      (fun _ m' => SameMode m m') := by
  have saves : (liftM saveHostSlot : Action Exception Unit).Ends m
      (fun _ m' => m.RowFits hostSlot ∧ m' = m.withSaved hostSlot) (fun _ m' => SameMode m m') := by
    refine .lift ((saveSlot_ends m hostSlot).imp (fun _ _ h => h) ?_)
    rintro e _ ⟨guests, rfl⟩
    exact .of_processor rfl
  refine .bind saves ?_ fun _ _ h => h
  rintro _ _ ⟨hostFits, rfl⟩
  have enters : (liftM (enterGuest slot) : Action Exception Unit).Ends (m.withSaved hostSlot)
      (fun _ m' => ∃ rows, m.RowFits slot ∧
        (m.withSaved hostSlot).memory.guestTable m.processor.guestTable = .ok rows ∧
        m' = (m.withSaved hostSlot).toGuest rows slot ((m.withSaved hostSlot).rowContext slot))
      (fun _ m' => SameMode m m') := by
    refine .lift (.bind (slotContext_ends_of_current (current_withSaved m hostSlot) slot) ?_ ?_)
    · rintro _ _ ⟨rfl, fits, rows, table, rfl⟩
      exact ⟨rows, fits, table, rfl⟩
    · rintro e _ ⟨guests, rfl⟩
      exact .of_processor rfl
  refine .bind enters ?_ fun _ _ h => h
  rintro _ _ ⟨rows, fits, table, rfl⟩
  exact .pure ⟨rows, hostFits, fits, table, rfl⟩

/-- A guest is entered with the context in its row.  If it is not entered, the host stays. -/
theorem performResume_enters (host : m.processor.inGuest = false) :
    (performResume i).Ends m (fun _ m' => m.Entered i m') (fun _ m' => SameMode m m') := by
  have reads := guestRows_ends m
  cases looked : guestRows m with
  | error e m₁ =>
    obtain rfl := reads.error looked
    exact .of_error (performResume_of_unreadable host looked) (.refl _)
  | ok rows m₁ =>
    have eq := performResume_of_rows (i := i) host looked
    obtain ⟨guests, rfl⟩ : ∃ guests, m₁ = { m with guests } := by
      rcases reads.ok looked with ⟨-, rfl⟩ | rfl
      · exact ⟨m₁.guests, rfl⟩
      · exact ⟨_, rfl⟩
    split at eq
    next => exact .of_error eq (.of_processor rfl)
    next passed =>
      obtain ⟨notHost, -⟩ := not_or.mp passed
      unfold Action.Ends
      rw [eq]
      refine Action.Ends.imp (saveAndEnter_ends (Machine.goto { m with guests } i.nextIp) i.first)
        ?_ fun _ _ stays => ⟨stays.inGuest, stays.slot⟩
      rintro _ _ ⟨rows', hostFits, fits, table, rfl⟩
      exact .intro rows' notHost hostFits fits table

/-! ## Leaving -/

/-- The host goes on with the context in row zero. -/
theorem leaveGuest_ends_of_current (current : m.GuestsCurrent) :
    leaveGuest.Ends m
      (fun _ m' => m.RowFits hostSlot ∧ ∃ rows, m' = m.toHost rows (m.rowContext hostSlot))
      (fun _ _ => True) := by
  refine .bind (slotContext_ends_of_current current hostSlot) ?_ fun _ _ _ => True.intro
  rintro _ _ ⟨rfl, fits, rows, -, rfl⟩
  exact ⟨fits, rows, rfl⟩

theorem translate_ends_processor (m : Machine) (space : AddressSpace) (offset : Word) :
    (translate space offset).Ends m (fun _ m' => m'.processor = m.processor)
      (fun _ _ => True) := by
  obtain ⟨-, e, -, failed⟩ | ⟨m₀, settles, settled, same⟩ := settle_cases m
  · exact .of_error (failed space offset) True.intro
  · have eq := (same space offset).trans (translate_eq settled space offset)
    split at eq
    next => exact .of_ok eq settles.processor
    next => exact .of_error eq True.intro

theorem push_ends_processor (m : Machine) (v : Word) :
    (push v).Ends m
      (fun _ m' => m'.processor = { m.processor with sp := m.processor.sp - 1 })
      (fun _ _ => True) := by
  have reads : (processorState : Action Exception Processor).Reads m (· = m.processor)
      Exception.IsFault := processorState_reads m
  refine reads.bind_ends ?_ fun _ _ => True.intro
  rintro _ rfl
  refine .bind (translate_ends_processor m .stack _) (fun a m₁ same => ?_) fun _ _ h => h
  show { m₁.processor with sp := m.processor.sp - 1 } = _
  rw [same]

/-- Pushing words moves the stack pointer down by their number. -/
theorem pushAll_ends_processor (m : Machine) (words : List Word) :
    (pushAll words).Ends m
      (fun _ m' => m'.processor =
        { m.processor with sp := m.processor.sp - UInt32.ofNat words.length })
      (fun _ _ => True) := by
  induction words generalizing m with
  | nil => exact .pure (by simp)
  | cons word words ih =>
    refine .bind (push_ends_processor m word) (fun _ m₁ pushed => ?_) fun _ _ h => h
    refine (ih m₁).imp (fun _ m' rest => ?_) fun _ _ h => h
    rw [rest, pushed]
    have down : m.processor.sp - 1 - UInt32.ofNat words.length =
        m.processor.sp - UInt32.ofNat (words.length + 1) := by
      rw [UInt32.ofNat_add]
      grind
    simp [down]

/-- A frame moves nothing but the stack pointer. -/
theorem pushFrame_ends_processor (m : Machine) (number : Word) (words : List Word) :
    (pushFrame number words).Ends m
      (fun _ m' => m'.processor =
        { m.processor with sp := m.processor.sp - UInt32.ofNat words.length })
      (fun _ _ => True) :=
  Action.Ends.adapt (pushAll_ends_processor m words)

/-- A guest that was left is saved, and a frame is pushed on the stack of the host, which goes on with
the context in row zero. -/
theorem leaveFor_ends_of_guest {number : Word} {reason : TrapReason} {resumeIp : Word}
    {extra : List Word} (guest : m.processor.guest = some slot) :
    (leaveFor number reason resumeIp extra).Ends m
      (fun _ m' => saveSlot slot (m.goto resumeIp) = .ok () ((m.goto resumeIp).withSaved slot) ∧
        m.RowFits slot ∧ m.RowFits hostSlot ∧
        ∃ rows, (pushFrame number (extra ++ [reason.number, slot]))
          (((m.goto resumeIp).withSaved slot).toHost rows
            (((m.goto resumeIp).withSaved slot).rowContext hostSlot)) = .ok () m')
      (fun _ _ => True) := by
  unfold Action.Ends
  rw [leaveFor_eq guest]
  have saves := saveSlot_ends (m.goto resumeIp) slot
  cases saved : saveSlot slot (m.goto resumeIp) with
  | error e m₁ =>
    rw [Action.bind_of_error saved]
    exact True.intro
  | ok u m₁ =>
    obtain ⟨fits, rfl⟩ := saves.ok saved
    rw [Action.bind_of_ok saved]
    have leaves := leaveGuest_ends_of_current (current_withSaved (m.goto resumeIp) slot)
    refine Action.Ends.bind leaves ?_ fun _ _ h => h
    rintro _ _ ⟨hostFits, rows, rfl⟩
    cases pushed : pushFrame number (extra ++ [reason.number, slot])
        (((m.goto resumeIp).withSaved slot).toHost rows
          (((m.goto resumeIp).withSaved slot).rowContext hostSlot)) with
    | ok u m' => exact .of_ok pushed ⟨rfl, fits, hostFits, rows, pushed⟩
    | error e m' => exact .of_error pushed True.intro

/-- After a guest other than row zero was left, the host goes on with the context that lay in row
zero, its stack pointer below the frame. -/
theorem processor_of_leaveFor {number : Word} {reason : TrapReason} {resumeIp : Word}
    {extra : List Word} (guest : m.processor.guest = some slot) (notHost : slot ≠ hostSlot)
    (left : leaveFor number reason resumeIp extra m = .ok () m') :
    m'.processor =
      { m.processor.withContext
          { m.rowContext hostSlot with
            sp := (m.rowContext hostSlot).sp - UInt32.ofNat (2 + extra.length) } with
        inGuest := false, slot := hostSlot } := by
  obtain ⟨-, fits, hostFits, rows, pushed⟩ := (leaveFor_ends_of_guest guest).ok left
  have same : ((m.goto resumeIp).withSaved slot).rowContext hostSlot = m.rowContext hostSlot :=
    rowContext_withSaved_of_ne notHost.symm hostFits fits
  rw [same] at pushed
  rw [(pushFrame_ends_processor _ _ _).ok pushed]
  have words : (extra ++ [reason.number, slot]).length = 2 + extra.length := by
    simp [Nat.add_comm]
  rw [words]
  rfl

end WordMachine.Machine
