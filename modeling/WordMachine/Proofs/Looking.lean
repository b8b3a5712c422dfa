import WordMachine.Machine.Report
import WordMachine.Proofs.Aside
import WordMachine.Proofs.Mapping
import WordMachine.Proofs.Switch

/-!
# Looking at a machine

What an offset translates to, what the general registers hold and which
instruction is next can be asked of a machine between its steps.  Answering may
take reading the segment table.  So a look changes the machine, but it always
leaves the machine that is `mapped`, whatever it looked for and whether it found
it or not (`Looks`).

A later step does not notice.  The host finds an address before it does anything
else, and so reads the same table itself.  A guest has nothing left to read,
because the host read the table for the instruction that entered it
(`ReadInGuest`).  So a machine that was `Looked` at takes the same steps, and
after the first of them there is no difference any more (`Looked.step`).
-/

namespace WordMachine.Machine

variable {ε ε' α β : Type} {m m' s : Machine}

/-! ## What looks do -/

/-- Work that reads the segment table if it can, and changes nothing else. -/
def Looks (x : Action ε α) : Prop :=
  ∀ m, x.Ends m (fun _ m' => m' = m.mapped) (fun _ m' => m' = m.mapped)

theorem mapped_mapped (m : Machine) : m.mapped.mapped = m.mapped := by
  rcases mapped_cases m with ⟨e, -, same⟩ | ⟨-, settled, -⟩
  · rw [same, same]
  · exact mapped_of_settled settled

namespace Looks

variable {x : Action ε α}

theorem after (looks : Looks x) (m : Machine) : x.after m = m.mapped :=
  Action.Ends.after (R := (· = m.mapped)) (looks m)

/-- A second look changes nothing. -/
theorem preserves (looks : Looks x) (m : Machine) : x.Preserves (· = m.mapped) := by
  rintro _ rfl
  simpa only [mapped_mapped] using looks m.mapped

theorem bind {f : α → Action ε β} (first : Looks x)
    (next : ∀ (a : α) (m : Machine), (f a).Preserves (· = m.mapped)) : Looks (x >>= f) :=
  fun m => .bind (first m) (fun a m' same => next a m m' same) fun _ _ same => same

theorem attempt (looks : Looks x) : Looks (x.attempt : Action ε' (Except ε α)) :=
  fun m => .of_ok (Action.attempt_apply x m) (looks.after m)

end Looks

theorem translate_looks (space : AddressSpace) (offset : Word) : Looks (translate space offset) := by
  intro m
  rcases mapped_cases m with ⟨e, failed, same⟩ | ⟨-, settled, -⟩
  · exact .of_error (translate_of_unreadable failed space offset) same.symm
  · have found := (translate_mapped m space offset).trans (translate_eq settled space offset)
    split at found
    · exact .of_ok found rfl
    · exact .of_error found rfl

theorem registerAddress_looks {index : Nat} (small : index < registerCount) :
    Looks (registerAddress index) := by
  intro m
  rcases mapped_cases m with ⟨e, failed, same⟩ | ⟨-, settled, -⟩
  · exact .of_error (registerAddress_of_unreadable failed small) same.symm
  · have found := (registerAddress_mapped m small).trans (registerAddress_eq settled small)
    split at found
    · exact .of_ok found rfl
    · exact .of_error found rfl

theorem nextInstructionAddress_looks : Looks nextInstructionAddress :=
  fun m => translate_looks .code m.processor.ip m

theorem stackTopAddress_looks : Looks stackTopAddress :=
  fun m => translate_looks .stack m.processor.sp m

theorem readRegister_looks {index : Nat} (small : index < registerCount) :
    Looks (readRegister index) :=
  (registerAddress_looks small).bind fun _ _ _ same => same

theorem registersFrom_preserves (m : Machine) {index count : Nat}
    (small : index + count ≤ registerCount) :
    (registersFrom index count : Action ε _).Preserves (· = m.mapped) := by
  induction count generalizing index with
  | zero => exact .pure _
  | succ count ih =>
    have register : index < registerCount := by omega
    exact .bind ((readRegister_looks register).preserves m).attempt fun _ =>
      .bind (ih (by omega)) fun _ => .pure _

theorem registers_looks : Looks (registers : Action ε _) :=
  (readRegister_looks (by decide)).attempt.bind fun _ m =>
    .bind (registersFrom_preserves m (Nat.le_refl registerCount)) fun _ => .pure _

theorem dump_looks : Looks (dump : Action ε String) := by
  have reports : Looks (report : Action ε Text.Json) :=
    registers_looks.bind fun _ _ => .bind (fun _ same => same) fun _ => .pure _
  exact reports.bind fun _ _ => .pure _

/-! ## Later steps -/

/-- While a guest runs, the segment table has been read. -/
def ReadInGuest (m : Machine) : Prop :=
  m.isRunning = true → m.processor.inGuest = true → m.Settled

theorem readInGuest_of_host (host : m.processor.inGuest = false) : m.ReadInGuest := by
  intro _ inside
  rw [host] at inside
  cases inside

theorem readInGuest_of_stopped (stopped : m.isRunning = false) : m.ReadInGuest := by
  intro running
  rw [stopped] at running
  cases running

theorem step_readInGuest (read : m.ReadInGuest) : (step.after m).ReadInGuest := by
  cases running : m.isRunning with
  | false =>
    rw [Action.after_of_ok (step_of_not_isRunning running)]
    exact read
  | true =>
    cases mode : m.processor.inGuest with
    | false =>
      -- Only `VMRESUME` enters a guest, and it was fetched through the segment table.
      intro _ inside
      obtain ⟨i, executes⟩ := executesResume_of_enters mode inside
      obtain ⟨m₁, o, same, settled, resumed⟩ := executes.resumed_of_step inside
      have host₁ : m₁.processor.inGuest = false := by rw [same.processor, inGuest_begun, mode]
      exact ((performResume_enters host₁).ok resumed).settled settled
    | true =>
      have settled : m.Settled := read running mode
      have guest := Processor.guest_of_inGuest mode
      cases step_of_guest running guest with
      | unreadable e unsettled eq => exact absurd settled unsettled
      | stays m₁ m' settles change eq =>
        obtain rfl := settles.eq ((settled_begun m).mpr settled)
        rw [Action.after_of_ok eq]
        exact fun _ _ => change.settled ((settled_begun m).mpr settled)
      | exits m₁ m₂ number reason resumeIp extra _ settles change eq =>
        have guest₂ := (SameMode.of_begun settles change).guest.trans guest
        exact (leaves_or_stops guest₂ eq).elim readInGuest_of_host readInGuest_of_stopped

theorem afterSteps_readInGuest (read : m.ReadInGuest) (n : Nat) : (afterSteps n m).ReadInGuest := by
  induction n with
  | zero => exact read
  | succ n ih => exact step_readInGuest ih

/-- Whether a machine is another one, but perhaps looked at. -/
def Looked (s m : Machine) : Prop := m = s ∨ m = s.mapped

namespace Looked

theorem eq (h : Looked s m) : m = { s with segments := m.segments } := by
  rcases h with rfl | rfl
  · rfl
  · exact mapped_eq s

theorem withSegments_eq (h : Looked s m) (segments : TableCache Segment) :
    m.withSegments segments = s.withSegments segments := by
  rw [h.eq]
  rfl

theorem look (h : Looked s m) : Looked s m.mapped := by
  rcases h with rfl | rfl
  · exact .inr rfl
  · exact .inr (mapped_mapped s)

theorem trans (h : Looked s m) (h' : Looked m m') : Looked s m' := by
  rcases h' with rfl | rfl
  · exact h
  · exact h.look

/-- The next step of a running machine comes to the same. -/
theorem step_eq (h : Looked s m) (read : s.ReadInGuest) (running : s.isRunning = true) :
    Machine.step m = Machine.step s := by
  rcases h with rfl | rfl
  · rfl
  cases inside : s.processor.inGuest with
  | false => exact (step_mapped running inside).symm
  | true => rw [mapped_of_settled (read running inside)]

theorem isRunning (h : Looked s m) : m.isRunning = s.isRunning := by
  rcases h with rfl | rfl
  · rfl
  · exact isRunning_mapped s

theorem step (h : Looked s m) (read : s.ReadInGuest) :
    Looked (Machine.step.after s) (Machine.step.after m) := by
  cases running : s.isRunning with
  | true => exact .inl (Action.after_congr (h.step_eq read running))
  | false =>
    rw [Action.after_of_ok (step_of_not_isRunning running),
      Action.after_of_ok (step_of_not_isRunning (h.isRunning.trans running))]
    exact h

end Looked

end WordMachine.Machine
