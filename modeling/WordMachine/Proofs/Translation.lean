import WordMachine.Machine.Translation
import WordMachine.Proofs.Action

/-!
# What translation finds

Translation reads the segment table the first time it needs it.  After that it
looks at nothing but the processor and the kept table, and the machine is
*settled*.  On a settled machine the segment of an address space is a function
of the machine, `segment?`, and so are the offsets that translate (`reaches`)
and the cells of the general registers (`registerCell?`).  The three equations
`translate_eq`, `registerAddress_eq` and `segmentRows_eq` say that the actions
compute exactly these.

A machine that is not settled either fails at the first translation, with the
error of the table, or goes on as the machine with the table read
(`settle_cases`).
-/

namespace WordMachine.Machine

variable {m m' : Machine} {space : AddressSpace} {offset : Word}

/-! ## Settled machines -/

/-- Whether the next translation can do without reading the segment table. -/
def Settled (m : Machine) : Prop :=
  m.processor.isSegmented = true → m.segments.isStale = false

instance (m : Machine) : Decidable m.Settled := inferInstanceAs (Decidable (_ → _))

theorem not_settled_iff {m : Machine} :
    ¬m.Settled ↔ m.processor.isSegmented = true ∧ m.segments.snapshot = none := by
  simp only [Settled, Bool.not_eq_false, Classical.not_imp, TableCache.isStale,
    Option.isNone_iff_eq_none]

/-- The segments a machine knows of, none in flat memory. -/
def keptSegments (m : Machine) : List Segment :=
  if m.processor.isSegmented then m.segments.snapshot.getD [] else []

/-- The segment an address space uses, if its selector picks one of the right kind. -/
def segment? (m : Machine) (space : AddressSpace) : Option Segment :=
  m.keptSegments[(m.processor.selector space).toNat]?.filter (·.kind = space.kind)

/-- Whether an offset is an address in an address space. -/
def reaches (m : Machine) (space : AddressSpace) (offset : Word) : Bool :=
  !m.processor.isSegmented || (m.segment? space).any (·.contains offset.toNat)

/-- The cell of a general register, if the registers have cells. -/
def registerCell? (m : Machine) (index : Nat) : Option Word :=
  if m.processor.isSegmented then
    (m.segment? .register).map fun s => s.start + UInt32.ofNat index
  else some (flatRegisterBase + UInt32.ofNat index)

/-- Whether a selector picks a segment of a kind that covers an address. -/
def Covers (table : List Segment) (selector : Word) (kind : SegmentKind) (a : Word) : Prop :=
  ∃ s, table[selector.toNat]? = some s ∧ s.kind = kind ∧ s.contains a.toNat = true

/-- With a segment table, an address space is what its selector covers. -/
theorem reaches_iff_covers {table : List Segment} (segmented : m.processor.isSegmented = true)
    (kept : m.segments.snapshot = some table) (space : AddressSpace) (a : Word) :
    m.reaches space a = true ↔ Covers table (m.processor.selector space) space.kind a := by
  simp only [reaches, segmented, segment?, keptSegments, kept, if_true, Option.getD_some,
    Bool.not_true, Bool.false_or, Option.any_eq_true, Option.filter_eq_some_iff, decide_eq_true_eq,
    Covers, and_assoc]

theorem kind_of_segment? {s : Segment} (h : m.segment? space = some s) : s.kind = space.kind := by
  simpa using (Option.filter_eq_some_iff.mp h).2

theorem segmentRows_eq (settled : m.Settled) : segmentRows m = .ok m.keptSegments m := by
  unfold segmentRows keptSegments
  cases segmented : m.processor.isSegmented with
  | false => rfl
  | true =>
    cases kept : m.segments.snapshot with
    | none => simp [Settled, segmented, TableCache.isStale, kept] at settled
    | some rows => simp [TableCache.rows, kept]

theorem segmentOf_eq (settled : m.Settled) (space : AddressSpace) :
    segmentOf space m = .ok (m.segment? space) m := by
  show (segmentRows >>= _) m = _
  rw [Action.bind_of_ok (segmentRows_eq settled)]
  rfl

theorem translate_eq (settled : m.Settled) (space : AddressSpace) (offset : Word) :
    translate space offset m =
      if m.reaches space offset then .ok offset m
      else .error (.fault (.segmentViolation space.kind offset)) m := by
  show (if m.processor.isSegmented then _ else _ : Action Exception Word) m = _
  cases segmented : m.processor.isSegmented with
  | false => simp [reaches, segmented]; rfl
  | true =>
    simp only [if_true, reaches, segmented, Bool.not_true, Bool.false_or]
    rw [Action.bind_of_ok (Action.lift_of_ok (segmentOf_eq settled space))]
    split <;> rfl

/-! ## Cells of the general registers -/

/-- A number that no register has is refused. -/
theorem registerAddress_of_ge {index : Nat} (large : registerCount ≤ index) (m : Machine) :
    registerAddress index m = .error (.fatal (.invalidRegister index)) m := by
  show (if registerCount ≤ index then _ else _ : Action Exception Word) m = _
  rw [if_pos large]
  rfl

/-- A register segment has a cell for each general register. -/
theorem toNat_registerCell {s : Segment} (h : s.kind = .register) {index : Nat}
    (small : index < registerCount) :
    (s.start + UInt32.ofNat index).toNat = s.start.toNat + index ∧
      s.start.toNat + index ≤ s.limit.toNat := by
  have size := s.register_size h
  have limit := s.limit.toNat_lt
  simp only [Segment.registerSize, registerCount] at size small
  have index_eq : (UInt32.ofNat index).toNat = index := by
    rw [UInt32.toNat_ofNat']
    omega
  rw [UInt32.toNat_add, index_eq]
  omega

/-- The sum is taken in 64 bits, so it does not wrap, and it is an address. -/
theorem ofAddress?_registerCell {s : Segment} (h : s.kind = .register) {index : Nat}
    (small : index < registerCount) :
    Word.ofAddress? (s.start.toUInt64 + UInt64.ofNat index) =
      some (s.start + UInt32.ofNat index) := by
  obtain ⟨address_eq, fits⟩ := toNat_registerCell h small
  have limit := s.limit.toNat_lt
  have wide : (s.start.toUInt64 + UInt64.ofNat index).toNat = s.start.toNat + index := by
    simp only [registerCount] at small
    simp [UInt64.toNat_add]
    omega
  have narrow : (s.start.toUInt64 + UInt64.ofNat index).toUInt32 =
      s.start + UInt32.ofNat index := by
    apply UInt32.toNat_inj.mp
    rw [UInt64.toNat_toUInt32, wide, address_eq]
    omega
  simp only [Word.ofAddress?, wide, narrow, Word.count]
  rw [if_pos (by omega)]

theorem registerAddress_eq (settled : m.Settled) {index : Nat} (small : index < registerCount) :
    registerAddress index m =
      match m.registerCell? index with
      | some address => .ok address m
      | none => .error (.fault (.segmentViolation .register (UInt32.ofNat index))) m := by
  have some_register : ¬registerCount ≤ index := by omega
  show ((if registerCount ≤ index then _ else _ : Action Exception Word)) m = _
  rw [if_neg some_register]
  show (if m.processor.isSegmented then _ else _ : Action Exception Word) m = _
  cases segmented : m.processor.isSegmented with
  | false => simp [registerCell?, segmented]; rfl
  | true =>
    simp only [if_true, registerCell?, segmented]
    rw [Action.bind_of_ok (Action.lift_of_ok (segmentOf_eq settled .register))]
    cases found : m.segment? .register with
    | none => rfl
    | some s =>
      simp only [ofAddress?_registerCell (kind_of_segment? found) small]
      rfl

/-- The cell of a register lies in the register segment. -/
theorem reaches_of_registerCell? {index : Nat} {a : Word} (small : index < registerCount)
    (h : m.registerCell? index = some a) : m.reaches .register a = true := by
  unfold reaches
  cases segmented : m.processor.isSegmented with
  | false => rfl
  | true =>
    simp only [registerCell?, segmented, if_true, Option.map_eq_some_iff] at h
    obtain ⟨s, found, rfl⟩ := h
    obtain ⟨address_eq, fits⟩ := toNat_registerCell (kind_of_segment? found) small
    simp [found, Segment.contains, address_eq, fits]

/-! ## Machines that still have to read their table -/

theorem translate_congr {m m' : Machine} (found : segmentOf space m = segmentOf space m')
    (same : m.processor = m'.processor) (segmented : m.processor.isSegmented = true)
    (offset : Word) : translate space offset m = translate space offset m' := by
  show (if m.processor.isSegmented then _ else _ : Action Exception Word) m =
    (if m'.processor.isSegmented then _ else _ : Action Exception Word) m'
  rw [← same, segmented, if_pos rfl]
  exact Action.bind_congr (Action.lift_congr found) _

/-- A machine with its segment table read, if that is needed. -/
inductive Settles (m : Machine) : Machine → Prop
  /-- It is not needed. -/
  | refl : Settles m m
  /-- It is needed, and succeeds. -/
  | read (segments : TableCache Segment) (unsettled : ¬m.Settled) :
      Settles m { m with segments }

/-- A settled machine stays as it is. -/
theorem Settles.eq (h : m.Settles m') (settled : m.Settled) : m' = m := by
  cases h with
  | refl => rfl
  | read segments unsettled => exact absurd settled unsettled

theorem Settles.processor (h : m.Settles m') : m'.processor = m.processor := by
  cases h <;> rfl

theorem Settles.status (h : m.Settles m') : m'.status = m.status := by
  cases h <;> rfl

/-- Whether a segment table is installed that fails to be read. -/
def SegmentsUnreadable (m : Machine) (e : FatalError) : Prop :=
  m.processor.isSegmented = true ∧ m.memory.segmentTable m.processor.segmentTable = .error e

/-- The table is read if nothing is kept of it, and kept if it can be read. -/
theorem segmentRows_of_stale (segmented : m.processor.isSegmented = true)
    (stale : m.segments.snapshot = none) :
    segmentRows m =
      match m.memory.segmentTable m.processor.segmentTable with
      | .ok table => .ok table { m with segments := ⟨some table⟩ }
      | .error e => .error e m := by
  unfold segmentRows
  rw [if_pos segmented]
  cases m.memory.segmentTable m.processor.segmentTable <;>
    simp [TableCache.rows, stale, Except.map]

theorem isSegmented_of_unreadable {e : FatalError} (failed : segmentRows m = .error e m') :
    m.processor.isSegmented = true := by
  cases segmented : m.processor.isSegmented with
  | true => rfl
  | false => simp [segmentRows, segmented] at failed

theorem segmentOf_of_unreadable {e : FatalError} (failed : segmentRows m = .error e m)
    (space : AddressSpace) : segmentOf space m = .error e m := Action.bind_of_error failed _

theorem translate_of_unreadable {e : FatalError} (failed : segmentRows m = .error e m)
    (space : AddressSpace) (offset : Word) : translate space offset m = .error (.fatal e) m := by
  show (if m.processor.isSegmented then _ else _ : Action Exception Word) m = _
  rw [if_pos (isSegmented_of_unreadable failed)]
  exact Action.bind_of_error (Action.lift_of_error (segmentOf_of_unreadable failed space)) _

theorem registerAddress_of_unreadable {e : FatalError} (failed : segmentRows m = .error e m)
    {index : Nat} (small : index < registerCount) :
    registerAddress index m = .error (.fatal e) m := by
  unfold registerAddress
  rw [if_neg (Nat.not_le.mpr small)]
  show (if m.processor.isSegmented then _ else _ : Action Exception Word) m = _
  rw [if_pos (isSegmented_of_unreadable failed)]
  exact Action.bind_of_error (Action.lift_of_error (segmentOf_of_unreadable failed .register)) _

/-- A translation either fails because the segment table cannot be read, or finds what it finds on
the machine with the table read. -/
theorem settle_cases (m : Machine) :
    (¬m.Settled ∧ ∃ e, m.SegmentsUnreadable e ∧
        ∀ space offset, translate space offset m = .error (.fatal e) m) ∨
    ∃ m₀, m.Settles m₀ ∧ m₀.Settled ∧
      ∀ space offset, translate space offset m = translate space offset m₀ := by
  by_cases settled : m.Settled
  · exact .inr ⟨m, .refl, settled, fun _ _ => rfl⟩
  obtain ⟨segmented, stale⟩ := not_settled_iff.mp settled
  have read := segmentRows_of_stale segmented stale
  cases parsed : m.memory.segmentTable m.processor.segmentTable with
  | error e =>
    -- A table that cannot be read is not kept, so nothing changes.
    rw [parsed] at read
    exact .inl ⟨settled, e, ⟨segmented, parsed⟩, translate_of_unreadable read⟩
  | ok rows =>
    rw [parsed] at read
    have kept : segmentRows { m with segments := ⟨some rows⟩ } =
        .ok rows { m with segments := ⟨some rows⟩ } := by
      simp [segmentRows, segmented, TableCache.rows]
    have found (space : AddressSpace) :
        segmentOf space m = segmentOf space { m with segments := ⟨some rows⟩ } := by
      show (segmentRows >>= _) m = (segmentRows >>= _) _
      rw [Action.bind_of_ok read, Action.bind_of_ok kept]
    exact .inr ⟨_, .read ⟨some rows⟩ settled, fun _ => rfl,
      fun space offset => translate_congr (found space) rfl segmented offset⟩

end WordMachine.Machine
