import WordMachine.Proofs.Action
import WordMachine.Proofs.Delivery
import WordMachine.Proofs.Parts

/-!
# Properties of everything a step does

A property of work is `Pervasive` if it holds of the parts of switching between
host and guest, whatever the processor holds, and of what is put together from
parts it holds of.  Then it holds of entering and leaving guests.  If it holds of
pushing a frame as well, it holds of delivering faults.  And if it holds of the
parts of instructions, it holds of everything that a step does (`cycle`).
-/

namespace WordMachine.Machine

/-- A property that holds of the parts of switching, and of what is put together from parts it holds
of. -/
structure Pervasive (P : ∀ ε α : Type, Action ε α → Prop) : Prop where
  pure {ε α : Type} (a : α) : P ε α (Pure.pure a)
  throw {ε α : Type} (e : ε) : P ε α (MonadExcept.throw e)
  bind {ε α β : Type} {x : Action ε α} {f : α → Action ε β} (first : P ε α x)
    (next : ∀ a, P ε β (f a)) : P ε β (x >>= f)
  adapt {ε ε' α : Type} {x : Action ε α} (f : ε → ε') (holds : P ε α x) :
    P ε' α (x.adaptExcept f)
  look {ε β : Type} {next : Processor → Action ε β} (holds : ∀ p, P ε β (next p)) :
    P ε β (processorState >>= next)
  /-- Switching leaves the register of the segment table. -/
  modifyProcessor {ε : Type} {f : Processor → Processor}
    (spared : ∀ p, (f p).segmentTable = p.segmentTable) : P ε Unit (Machine.modifyProcessor f)
  guestRows : P FatalError _ Machine.guestRows
  saveSlot (slot : Word) (found : P FatalError _ (Machine.slotContext slot)) :
    P FatalError Unit (Machine.saveSlot slot)

theorem segmentTable_tick (p : Processor) : p.tick.segmentTable = p.segmentTable := by
  unfold Processor.tick
  split
  · simp only
    split <;> rfl
  · rfl

namespace Pervasive

variable {P : ∀ ε α : Type, Action ε α → Prop} (h : Pervasive P)
include h

omit h in
theorem ite {ε α : Type} {c : Prop} [Decidable c] {x y : Action ε α} (pos : P ε α x)
    (neg : P ε α y) : P ε α (if c then x else y) := by
  split
  · exact pos
  · exact neg

theorem lift {α : Type} {x : Action FatalError α} (holds : P FatalError α x) :
    P Exception α (liftM x) := h.adapt Exception.fatal holds

theorem hostOnly (reason : TrapReason) (resumeIp : Word) (extra : List Word) :
    P Exception Unit (Machine.hostOnly reason resumeIp extra) :=
  h.look fun _ => ite (h.throw _) (h.pure ())

theorem resolveControl (ip : Word) (position : Nat) (register : Fin 32) :
    P Exception _ (Machine.resolveControl ip position register) := by
  unfold Machine.resolveControl
  split
  · exact h.throw _
  · exact h.look fun _ => ite (h.throw _) (h.pure _)

/-! ## Switching -/

theorem slotContext (slot : Word) : P FatalError Context (Machine.slotContext slot) := by
  refine h.bind h.guestRows fun rows => ?_
  split
  · exact h.pure _
  · exact h.throw _

theorem savesSlot (slot : Word) : P FatalError Unit (Machine.saveSlot slot) :=
  h.saveSlot slot (h.slotContext slot)

theorem enterGuest (slot : Word) : P FatalError Unit (Machine.enterGuest slot) :=
  h.bind (h.slotContext slot) fun _ => h.modifyProcessor fun _ => rfl

theorem leaveGuest : P FatalError Unit Machine.leaveGuest :=
  h.bind (h.slotContext hostSlot) fun _ => h.modifyProcessor fun _ => rfl

theorem performResume (i : ResolvedInstruction) : P Exception Outcome (Machine.performResume i) := by
  refine h.bind (h.hostOnly _ _ _) fun _ => h.bind (h.lift h.guestRows) fun rows => ?_
  refine ite (h.bind (h.throw _) fun _ => ?_) ?_
  all_goals
    exact h.bind (h.modifyProcessor fun _ => rfl) fun _ =>
      h.bind (h.lift (h.savesSlot hostSlot)) fun _ =>
        h.bind (h.lift (h.enterGuest i.first)) fun _ => h.pure _

/-! ## Delivery -/

section

variable (pushes : ∀ number words, P FatalError Unit (pushFrame number words))
include pushes

theorem leaveFor (number : Word) (reason : TrapReason) (resumeIp : Word) (extra : List Word) :
    P FatalError Unit (Machine.leaveFor number reason resumeIp extra) := by
  refine h.look fun p => ite ?_ (h.throw _)
  exact h.bind (h.modifyProcessor fun _ => rfl) fun _ => h.bind (h.savesSlot _) fun _ =>
    h.bind h.leaveGuest fun _ => pushes _ _

theorem raiseInterrupt (number returnIp : Word) (extra : List Word) :
    P FatalError Unit (Machine.raiseInterrupt number returnIp extra) := by
  -- A number that no interrupt has is refused first.
  refine ite (h.bind (h.throw _) fun _ => ?_) ?_
  all_goals
    refine h.look fun p => ite (h.leaveFor pushes _ _ _ _) ?_
    exact h.bind (pushes _ _) fun _ => h.modifyProcessor fun _ => rfl

theorem deliverFault (ip : Word) (f : Fault) :
    P FatalError Unit (Machine.deliverFault ip f) := by
  obtain ⟨reason, resumeIp, extra, -, eq⟩ | ⟨number, returnIp, extra, -, eq⟩ :=
    deliverFault_cases ip f
  · rw [eq]
    exact h.leaveFor pushes _ _ _ _
  · rw [eq]
    exact h.raiseInterrupt pushes _ _ _

end

/-! ## Instructions -/

section

variable (rows : P FatalError _ segmentRows)
include rows

theorem segmentOf (space : AddressSpace) : P FatalError _ (Machine.segmentOf space) :=
  h.look fun _ => h.bind rows fun _ => h.pure _

theorem translate (space : AddressSpace) (offset : Word) :
    P Exception Word (Machine.translate space offset) :=
  h.look fun _ => ite
    (h.bind (h.lift (h.segmentOf rows space)) fun _ => ite (h.pure _) (h.throw _)) (h.pure _)

theorem registerAddress (index : Nat) : P Exception Word (Machine.registerAddress index) := by
  -- A number that no register has is refused first.
  refine ite (h.bind (h.throw _) fun _ => ?_) ?_
  all_goals
    refine h.look fun p => ite ?_ (h.pure _)
    refine h.bind (h.lift (h.segmentOf rows .register)) fun segment => ?_
    split
    · exact h.throw _
    · simp only
      split
      · exact h.pure _
      · exact h.throw _

/-- A pervasive property is compositional if it holds of reading the segment table and of what is
done to cells and to the face. -/
theorem compositional (reads : ∀ a, P Exception Word (readCell a))
    (changes : ∀ c : Change, P Exception Unit fun m => .ok () (c.apply m)) :
    Compositional (P Exception) where
  pure := h.pure
  throw _ := h.throw _
  bind := h.bind
  look _ := h.look
  readCell := reads
  change := changes
  translate _ := h.translate rows _
  registerAddress := h.registerAddress rows
  hostOnly := h.hostOnly

end

section

variable (parts : Compositional (P Exception))
  (control : ∀ r v, P Exception Unit (writeBack v (.control r)))
include parts

theorem pushFrame (number : Word) (words : List Word) :
    P FatalError Unit (Machine.pushFrame number words) :=
  h.adapt _ (parts.pushAll words)

include control

theorem complete (ip : Word) (i : Instruction) : P Exception Unit (Machine.complete ip i) := by
  have performs (i : ResolvedInstruction) : P Exception Outcome (perform i) := by
    by_cases opcode : i.opcode = .vmResume
    · rw [perform_of_resume opcode]
      exact h.performResume i
    · exact parts.perform opcode
  refine h.bind (parts.checkPrivilege i) fun _ => ?_
  refine h.bind (parts.resolveAll (fun d _ _ position => h.resolveControl ip position _) 0 (ip + 1))
    fun os => h.bind (performs _) fun o => ?_
  exact h.bind (parts.writeResult (fun r v _ => control r v) o) fun _ => parts.follow _ o.control

variable (remembers : ∀ i, P Exception Unit (modify fun m => { m with lastInstruction := some i }))
include remembers

theorem executeAt (ip : Word) : P Exception Unit (Machine.executeAt ip) := by
  rw [executeAt_eq_complete]
  exact h.bind (parts.fetchInstruction remembers ip) fun i => h.complete parts control ip i

/-- What a step does on a running machine. -/
theorem cycle (attempt : ∀ {α : Type} {x : Action Exception α}, P Exception α x →
    P FatalError (Except Exception α) x.attempt) : P FatalError Unit Machine.cycle := by
  have pushes := h.pushFrame parts
  refine h.look fun p => ite ?_ ?_
  · exact h.bind (h.modifyProcessor fun _ => rfl) fun _ => h.raiseInterrupt pushes _ _ _
  · refine h.bind (h.modifyProcessor segmentTable_tick) fun _ => ?_
    refine h.bind (attempt (h.executeAt parts control remembers p.ip)) fun r => ?_
    split
    · exact h.pure ()
    · exact h.throw _
    · exact h.deliverFault pushes _ _

end

end Pervasive

/-! ## What a step keeps -/

variable {R : Machine → Prop}

/-- Work keeps what does not depend on what switching changes. -/
theorem preserves_pervasive
    (unmoved : ∀ (m : Machine) (p : Processor) (memory : Memory) (guests : TableCache Context),
      p.segmentTable = m.processor.segmentTable → R m →
        R { m with processor := p, memory := memory, guests := guests }) :
    Pervasive fun _ _ x => x.Preserves R where
  pure := .pure
  throw := .throw
  bind := .bind
  adapt _ := .adapt
  look holds m := holds m.processor m
  modifyProcessor spared m holds := unmoved m _ m.memory m.guests (spared m.processor) holds
  guestRows m holds := by
    unfold Action.Ends guestRows
    cases m.processor.hasGuestTable with
    | false => exact holds
    | true =>
      cases m.guests.rows fun _ => m.memory.guestTable m.processor.guestTable with
      | ok found => exact unmoved m m.processor m.memory found.2 rfl holds
      | error e => exact holds
  saveSlot slot found := by
    refine .bind found fun _ m holds => ?_
    unfold Action.Ends
    simp only
    cases m.savedMemory slot with
    | ok memory => exact unmoved m m.processor memory m.guests.invalidate rfl holds
    | error e => exact holds

theorem segmentRows_preserves
    (unmoved : ∀ (m : Machine) (segments : TableCache Segment), R m →
      R { m with segments := segments }) : segmentRows.Preserves R := by
  intro m holds
  unfold Action.Ends segmentRows
  cases m.processor.isSegmented with
  | false => exact holds
  | true =>
    cases m.segments.rows fun _ => m.memory.segmentTable m.processor.segmentTable with
    | ok found => exact unmoved m found.2 holds
    | error e => exact holds

end WordMachine.Machine
