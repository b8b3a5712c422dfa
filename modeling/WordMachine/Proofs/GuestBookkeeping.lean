import Mathlib.Logic.Relation
import WordMachine.Proofs.Console
import WordMachine.Proofs.Switch

/-!
# What is kept for the running guest

A run starts with a machine that was switched on (`PoweredOn`) and takes steps,
while something else may write to memory between them (`Moves`, `Runs`).

The processor says twice who runs, with the mode and with the row that is its
own.  The two are `Linked`: they are set together when a guest is entered, and
reset together when it is left.  A step that fails halfway changes neither or
both, so this holds of every machine on a run (`PoweredOn.linked`).

While a guest runs, the machine keeps the guest table as it was read when the
guest was entered, and that table has a row for the guest (`KeepsTable`).  One
invariant carries this through a run (`Bookkept`), and it speaks of running
machines only.  A step that enters a guest has just read the table
(`bookkept_of_enters`), a step that leaves it ends in the host or stops the
machine, and every other step is a local change, which leaves the kept table
alone (`step_bookkept`).  Saving the guest looks at the kept table and not at
memory.  So it cannot fail, whatever was written over the table since
(`KeepsTable.saveSlot_eq`).
-/

namespace WordMachine.Machine

variable {m m' m₀ : Machine} {slot : Word} {rows : List Context} {i : ResolvedInstruction}

/-! ## Runs -/

/-- A machine as it is when it is switched on, with an image or without. -/
inductive PoweredOn : Machine → Prop
  | empty : PoweredOn .initial
  | image {bytes : List UInt8} {m : Machine} (loaded : ofImage bytes = .ok m) : PoweredOn m

/-- One move of a run. -/
inductive Moves (m : Machine) : Machine → Prop
  /-- The machine takes a step, which may fail. -/
  | step (sink : Sink) : Moves m ((stepTo sink).after m)
  /-- Something else writes to memory. -/
  | edit (memory : Memory) : Moves m { m with memory }

/-- A run from one machine to another. -/
abbrev Runs : Machine → Machine → Prop := Relation.ReflTransGen Moves

theorem moves_step (m : Machine) : Moves m (step.after m) := by
  have moves : Moves m ((stepTo .buffer).after m) := .step .buffer
  rwa [stepTo_buffer] at moves

theorem runs_afterSteps (m : Machine) (n : Nat) : Runs m (afterSteps n m) := by
  induction n with
  | zero => exact .refl
  | succ n ih => exact ih.tail (moves_step _)

theorem PoweredOn.runsHost (on : PoweredOn m) : m.processor.RunsHost := by
  cases on with
  | empty => exact ⟨rfl, rfl⟩
  | @image bytes _ loaded =>
    unfold ofImage at loaded
    cases image : Memory.ofImage bytes with
    | error e => simp [image, Except.map] at loaded
    | ok memory =>
      simp only [image, Except.map, Except.ok.injEq] at loaded
      subst loaded
      exact ⟨rfl, rfl⟩

/-! ## The mode and the row -/

/-- Whether a guest runs exactly if the row of the processor is not that of the host. -/
def Linked (m : Machine) : Prop := m.processor.inGuest = true ↔ m.processor.slot ≠ hostSlot

theorem linked_of_runsHost (host : m.processor.RunsHost) : m.Linked := by
  simp [Linked, host.inGuest, host.slot]

theorem linked_of_guest (guest : m.processor.guest = some slot) (notHost : slot ≠ hostSlot) :
    m.Linked := by
  simp [Linked, Processor.inGuest_of_guest guest, Processor.slot_of_guest guest, notHost]

theorem Linked.of_sameMode (h : m.Linked) (same : SameMode m m') : m'.Linked := by
  unfold Linked at *
  rwa [same.inGuest, same.slot]

theorem step_linked (h : m.Linked) : (step.after m).Linked := by
  cases inside : m.processor.inGuest with
  | true =>
    rcases step_mode_of_guest inside with same | host
    · exact h.of_sameMode same
    · exact linked_of_runsHost host
  | false =>
    rcases step_mode_of_host inside with same | ⟨i, -, guest, notHost⟩
    · exact h.of_sameMode same
    · exact linked_of_guest guest notHost

theorem Moves.linked (moves : Moves m m') (h : m.Linked) : m'.Linked := by
  cases moves with
  | step sink =>
    obtain same | ⟨byte, text, prints, -, refused⟩ := stepTo_cases sink m
    · rw [Action.after_congr same]
      exact step_linked h
    · -- The byte was refused before the instruction did anything else.
      obtain ⟨-, i, prepared, -⟩ := printed?_eq_some_iff.mp prints
      obtain ⟨untouched, -⟩ := prepare_untouched (Action.eq_ok_of_outcome prepared)
      have same := m.sameMode_begun.trans (.of_processor untouched.processor)
      rw [Action.after_of_error refused]
      exact h.of_sameMode ⟨same.inGuest, same.slot⟩
  | edit memory => exact h

/-- On every run, whether it goes on or was stopped, the mode and the row are linked. -/
theorem PoweredOn.linked (on : PoweredOn m₀) (runs : Runs m₀ m) : m.Linked := by
  induction runs with
  | refl => exact linked_of_runsHost on.runsHost
  | tail _ moves ih => exact moves.linked ih

/-! ## The table that is kept -/

/-- The machine keeps a table that has a row for the guest.  It lay in memory, at the address where
the guest table still is, when the guest was entered on a run from `m₀`. -/
structure KeepsTable (m₀ m : Machine) (slot : Word) (rows : List Context) : Prop where
  notHost : slot ≠ hostSlot
  kept : m.guests.snapshot = some rows
  known : slot.toNat < rows.length
  parsed : ∃ m₁, Runs m₀ m₁ ∧ Runs m₁ m ∧ m₁.processor.inGuest = true ∧
    m₁.processor.slot = slot ∧ m₁.processor.guestTable = m.processor.guestTable ∧
    m₁.memory.guestTable m₁.processor.guestTable = .ok rows

theorem KeepsTable.moves (h : KeepsTable m₀ m slot rows) (moves : Moves m m')
    (guests : m'.guests = m.guests)
    (table : m'.processor.guestTable = m.processor.guestTable) : KeepsTable m₀ m' slot rows := by
  obtain ⟨m₁, before, since, inside, in_slot, same, parsed⟩ := h.parsed
  exact ⟨h.notHost, by rw [guests, h.kept], h.known, m₁, before, since.tail moves, inside, in_slot,
    same.trans table.symm, parsed⟩

/-- The kept table lay in memory, so a guest table is installed and its rows have addresses. -/
theorem KeepsTable.fits (h : KeepsTable m₀ m slot rows) :
    m.processor.guestTable ≠ noTable ∧ m.RowFits slot := by
  obtain ⟨m₁, -, -, -, -, same, parsed⟩ := h.parsed
  refine ⟨same ▸ Memory.ne_noTable_of_guestTable parsed, ?_⟩
  unfold RowFits
  rw [← rowStart_congr same slot]
  exact row_fits_of_table parsed h.known

/-- Saving looks at the kept table and not at memory, so it does not fail. -/
theorem KeepsTable.saveSlot_eq (h : KeepsTable m₀ m slot rows) (guests : m'.guests = m.guests)
    (table : m'.processor.guestTable = m.processor.guestTable) :
    saveSlot slot m' = .ok () (m'.withSaved slot) := by
  obtain ⟨installed, fits⟩ := h.fits
  have kept : m'.guests.snapshot = some rows := by rw [guests, h.kept]
  have reads : guestRows m' = .ok rows m' := by
    simp [guestRows, TableCache.rows, Processor.hasGuestTable, table, installed, kept]
  obtain ⟨context, at_slot⟩ : ∃ context, rows[slot.toNat]? = some context :=
    ⟨_, List.getElem?_eq_getElem h.known⟩
  have found : slotContext slot m' = .ok context m' := by
    refine (Action.bind_of_ok reads _).trans ?_
    simp only [at_slot]
    rfl
  have fits' : m'.rowStart slot + Context.rowWidth ≤ Word.count := by
    rw [rowStart_congr table]
    exact fits
  exact (Machine.saveSlot_eq found).trans (if_pos fits')

/-- The invariant of a run from `m₀`.  A machine that stopped may be stuck halfway out of a guest. -/
def Bookkept (m₀ m : Machine) : Prop :=
  m.isRunning = true → m.processor.inGuest = true →
    ∃ rows, KeepsTable m₀ m m.processor.slot rows

theorem Bookkept.of_stopped (stopped : m.isRunning = false) : Bookkept m₀ m := by
  intro running
  rw [stopped] at running
  cases running

theorem Bookkept.of_host (host : m.processor.inGuest = false) : Bookkept m₀ m := by
  intro _ inside
  rw [host] at inside
  cases inside

/-! ## Entering -/

/-- `VMRESUME` looks the guest up last, in the table that is kept from then on. -/
theorem performResume_known (m : Machine) (i : ResolvedInstruction) :
    (performResume i).Ends m
      (fun _ m' => ∃ rows, m'.guests.snapshot = some rows ∧ i.first.toNat < rows.length)
      (fun _ _ => True) := by
  have enters (m : Machine) : (liftM (enterGuest i.first) : Action Exception Unit).Ends m
      (fun _ m' => ∃ rows, m'.guests.snapshot = some rows ∧ i.first.toNat < rows.length)
      (fun _ _ => True) := by
    refine .lift (.bind (slotContext_ends m i.first) ?_ fun _ _ _ => True.intro)
    rintro context _ ⟨rows, found, rfl⟩
    exact ⟨rows, rfl, (List.getElem?_eq_some_iff.mp found).1⟩
  refine .bind (.trivial _ _) (fun _ _ _ => ?_) fun _ _ h => h
  refine .bind (.trivial _ _) (fun rows _ _ => ?_) fun _ _ h => h
  split
  · exact .throw True.intro
  · refine .bind (.trivial _ _) (fun _ _ _ => ?_) fun _ _ h => h
    refine .bind (.trivial _ _) (fun _ m₁ _ => ?_) fun _ _ h => h
    exact .bind (enters m₁) (fun _ _ known => .pure known) fun _ _ h => h

/-- A host that enters a guest keeps the table it has just read. -/
theorem bookkept_of_enters (runs : Runs m₀ m) (host : m.processor.inGuest = false)
    (inside : (step.after m).processor.inGuest = true) : Bookkept m₀ (step.after m) := by
  obtain ⟨i, executes⟩ := executesResume_of_enters host inside
  obtain ⟨m₁, o, same, -, resumed⟩ := executes.resumed_of_step inside
  have host₁ : m₁.processor.inGuest = false := by rw [same.processor, inGuest_begun, host]
  obtain ⟨rows', kept', known'⟩ := (performResume_known m₁ i).ok resumed
  have entered := (performResume_enters host₁).ok resumed
  have runs' : Runs m₀ (step.after m) := runs.tail (moves_step m)
  generalize step.after m = m' at *
  obtain ⟨rows, notHost, -, -, table⟩ := entered
  obtain rfl : rows = rows' := Option.some.inj kept'
  exact fun _ _ => ⟨rows, notHost, rfl, known', _, runs', .refl, rfl, rfl, rfl, table⟩

/-! ## Steps and runs -/

/-- A guest that is about to be left has not changed the table that is kept. -/
theorem guests_atExit {e : Exit} (inside : m.processor.inGuest = true) (exits : m.exit? = some e) :
    m.atExit.guests = m.guests := by
  rcases exit?_cases exits with ⟨-, -, same⟩ | ⟨-, f, -, executed⟩
  · rw [same]
    rfl
  obtain ⟨-, x, -, failed⟩ | ⟨m₀, settles, settled, -, same⟩ :=
    executeAt_settle m.begun m.processor.ip
  · rw [executed] at failed
    cases failed
  have inside₀ : m₀.processor.inGuest = true := by rw [settles.processor, inGuest_begun, inside]
  rw [same] at executed
  rw [((executeAt_ends_of_guest settled inside₀ _).error executed).1.guests]
  cases settles <;> rfl

/-- A step in a guest stays there with the kept table, or goes to the host, or stops the machine. -/
theorem bookkept_of_guest (running : m.isRunning = true) (inside : m.processor.inGuest = true)
    (h : KeepsTable m₀ m m.processor.slot rows) : Bookkept m₀ (step.after m) := by
  have guest := Processor.guest_of_inGuest inside
  cases step_of_guest running guest with
  | unreadable e _ eq =>
    rw [Action.after_of_error eq]
    exact .of_stopped rfl
  | stays m₁ m' settles change eq =>
    have moves : Moves m m' := Action.after_of_ok eq ▸ moves_step m
    have guests : m'.guests = m.guests := by
      rw [change.guests]
      cases settles <;> rfl
    have table : m'.processor.guestTable = m.processor.guestTable := by
      rw [change.processor, settles.processor, processor_begun]
    rw [Action.after_of_ok eq]
    refine fun _ _ => ⟨rows, ?_⟩
    rw [(SameMode.of_begun settles change).slot]
    exact h.moves moves guests table
  | exits m₁ m₂ number reason resumeIp extra _ settles change eq =>
    have guest₂ := (SameMode.of_begun settles change).guest.trans guest
    exact (leaves_or_stops guest₂ eq).elim .of_host .of_stopped

theorem step_bookkept (runs : Runs m₀ m) (h : Bookkept m₀ m) : Bookkept m₀ (step.after m) := by
  cases running : m.isRunning with
  | false =>
    rw [Action.after_of_ok (step_of_not_isRunning running)]
    exact h
  | true =>
    cases mode : m.processor.inGuest with
    | true =>
      obtain ⟨rows, keeps⟩ := h running mode
      exact bookkept_of_guest running mode keeps
    | false =>
      cases inside : (step.after m).processor.inGuest with
      | false => exact .of_host inside
      | true => exact bookkept_of_enters runs mode inside

theorem Moves.bookkept (moves : Moves m m') (runs : Runs m₀ m) (h : Bookkept m₀ m) :
    Bookkept m₀ m' := by
  cases moves with
  | step sink =>
    obtain same | ⟨byte, text, -, -, refused⟩ := stepTo_cases sink m
    · rw [Action.after_congr same]
      exact step_bookkept runs h
    · rw [Action.after_of_error refused]
      exact .of_stopped rfl
  | edit memory =>
    intro running inside
    obtain ⟨rows, keeps⟩ := h running inside
    exact ⟨rows, keeps.moves (.edit memory) rfl rfl⟩

theorem PoweredOn.bookkept (on : PoweredOn m₀) (runs : Runs m₀ m) : Bookkept m₀ m := by
  induction runs with
  | refl => exact .of_host on.runsHost.inGuest
  | tail runs moves ih => exact moves.bookkept runs ih

/-- On every run a running machine is in a guest exactly if its slot is not that of the host.  The
machine then keeps the table that lay at the address of the guest table when the guest was entered,
with a row for the guest, so the guest can be saved.  In particular the saving half of every exit
succeeds. -/
theorem guest_bookkeeping (on : PoweredOn m₀) (runs : Runs m₀ m) (running : m.isRunning = true) :
    (m.processor.inGuest = true ↔ m.processor.slot ≠ hostSlot) ∧
      (m.processor.inGuest = true →
        m.processor.guestTable ≠ noTable ∧ (∃ rows, KeepsTable m₀ m m.processor.slot rows) ∧
          saveSlot m.processor.slot m = .ok () (m.withSaved m.processor.slot) ∧
          ∀ e, m.exit? = some e →
            saveSlot m.processor.slot (m.atExit.goto e.resumeIp) =
              .ok () ((m.atExit.goto e.resumeIp).withSaved m.processor.slot) ∧
            step m = conclude (do
              leaveGuest
              pushFrame e.number (e.extra ++ [e.reason.number, m.processor.slot]))
              ((m.atExit.goto e.resumeIp).withSaved m.processor.slot)) := by
  refine ⟨on.linked runs, fun inside => ?_⟩
  obtain ⟨rows, keeps⟩ := on.bookkept runs running inside
  refine ⟨keeps.fits.1, ⟨rows, keeps⟩, keeps.saveSlot_eq rfl rfl, fun e exits => ?_⟩
  have guest := Processor.guest_of_inGuest inside
  have saves : saveSlot m.processor.slot (m.atExit.goto e.resumeIp) = _ :=
    keeps.saveSlot_eq (guests_atExit inside exits) (guestTable_atExit exits)
  refine ⟨saves, ?_⟩
  rw [step_of_exit running guest exits]
  refine conclude_congr ((leaveFor_eq ((guest_atExit exits).trans guest)).trans ?_)
  exact Action.bind_of_ok saves _

/-- A program that installs the guest table behind it and enters the guest in row one.  Both rows are
zero. -/
def enteringProgram : List Word :=
  [Instruction.encode ⟨.mov, 0, [controlOperand .guestTable, ⟨.immediate, Fin.last 31⟩]⟩, 0x10,
    Instruction.encode ⟨.vmResume, 0, [⟨.immediate, Fin.last 31⟩]⟩, 1] ++
    List.replicate 30 0

/-- The machine with that program loaded. -/
def enteringHost : Machine := { memory := Memory.empty.place 0 enteringProgram }

/-- After two steps the guest runs, and leaves for the instruction at address zero, which is not for
guests. -/
theorem guest_bookkeeping_enteringHost :
    PoweredOn enteringHost ∧ Runs enteringHost (afterSteps 2 enteringHost) ∧
      (afterSteps 2 enteringHost).isRunning = true ∧
      (afterSteps 2 enteringHost).processor.inGuest = true ∧
      (afterSteps 2 enteringHost).processor.slot = 1 ∧
      (∃ rows, KeepsTable enteringHost (afterSteps 2 enteringHost) 1 rows) ∧
      ∃ e, (afterSteps 2 enteringHost).exit? = some e ∧
        saveSlot 1 ((afterSteps 2 enteringHost).atExit.goto e.resumeIp) =
          .ok () (((afterSteps 2 enteringHost).atExit.goto e.resumeIp).withSaved 1) := by
  have loads : ofImage (Image.toBytes enteringProgram) = .ok enteringHost := by
    rw [ofImage_toBytes]
    unfold load
    rw [Memory.writeBlock_eq (by decide) (by decide)]
    rfl
  have runs := runs_afterSteps enteringHost 2
  have running : (afterSteps 2 enteringHost).isRunning = true := by decide +kernel
  have inside : (afterSteps 2 enteringHost).processor.inGuest = true := by decide +kernel
  have in_slot : (afterSteps 2 enteringHost).processor.slot = 1 := by decide +kernel
  have exits : (afterSteps 2 enteringHost).exit?.isSome = true := by decide +kernel
  obtain ⟨e, exits⟩ := Option.isSome_iff_exists.mp exits
  obtain ⟨-, bookkept⟩ := guest_bookkeeping (.image loads) runs running
  obtain ⟨-, keeps, -, saves⟩ := bookkept inside
  rw [in_slot] at keeps saves
  exact ⟨.image loads, runs, running, inside, in_slot, keeps, e, exits, (saves e exits).1⟩

end WordMachine.Machine
