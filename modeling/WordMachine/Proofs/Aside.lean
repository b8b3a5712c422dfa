import WordMachine.Proofs.Pervasive

/-!
# Changes aside from the work

Most of what a machine does takes no notice of the segment table that is kept,
and none of it takes notice of what was printed before.  `aside` is the machine
with these two changed.  Everything that looks at the processor only comes to the
same on it, and so does switching between host and guest (`pervasive_aside`).
-/

namespace WordMachine.Machine

/-- The machine with another copy of the segment table, and other bytes printed. -/
def aside (keep : TableCache Segment → TableCache Segment) (print : Array UInt8 → Array UInt8)
    (m : Machine) : Machine :=
  { m with segments := keep m.segments, console := print m.console }

/-- The machine with another copy of the segment table. -/
def withSegments (segments : TableCache Segment) : Machine → Machine := aside (fun _ => segments) id

/-- The machine with bytes printed before those it printed. -/
def printedBefore (bytes : Array UInt8) : Machine → Machine := aside id (bytes ++ ·)

section

variable {ε α : Type} {keep : TableCache Segment → TableCache Segment}
  {print : Array UInt8 → Array UInt8}

theorem guestRows_aside : guestRows.Commutes (aside keep print) := by
  intro m
  have same : (aside keep print m).processor.hasGuestTable = m.processor.hasGuestTable := rfl
  unfold guestRows
  by_cases installed : m.processor.hasGuestTable = true
  · rw [if_pos (same.trans installed), if_pos installed]
    simp only [aside]
    cases m.guests.rows fun _ => m.memory.guestTable m.processor.guestTable <;> rfl
  · rw [if_neg (same ▸ installed), if_neg installed]
    rfl

/-- Switching takes no notice of these changes. -/
theorem pervasive_aside : Pervasive fun _ _ x => x.Commutes (aside keep print) where
  pure := .pure
  throw := .throw
  bind := .bind
  adapt _ := .adapt
  look holds m := holds m.processor m
  modifyProcessor _ _ := rfl
  guestRows := guestRows_aside
  saveSlot slot found := by
    refine .bind found fun _ m => ?_
    have same : (aside keep print m).savedMemory slot = m.savedMemory slot := rfl
    simp only [same]
    cases m.savedMemory slot <;> rfl

/-- Writing a control register other than that of the segment table. -/
theorem writeBack_aside {r : ControlRegister} (other : r ≠ .segmentTable) (v : Word) :
    (writeBack v (.control r)).Commutes (aside keep print) := by
  refine .update (u := (·.setControl r v)) fun m => ?_
  cases r <;> first | exact absurd rfl other | rfl

end

end WordMachine.Machine
