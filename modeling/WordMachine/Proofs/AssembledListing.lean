import WordMachine.Assembly.Program
import WordMachine.Listing.Basic
import WordMachine.Proofs.Assembly

/-!
# The listing of an assembled program

A program made of instructions alone is listed as it was written: one line for
each instruction, in the order they were added.  The listing finds the
instructions again because assembling and listing agree on how many words an
instruction has.  An assembled instruction decodes to its operand bytes, and
those ask for as many extra words as assembling wrote
(`Listing.lines_assembled`).  So the rest of the words starts where the next
instruction was put, and the lines follow by induction on what was written
(`Program.lines_emitAll`).

`Written.text` is the assembly text of what was written, read off the written
operands.  The listing reads it off operand bytes and extra words.
-/

namespace WordMachine

/-! ## What was written, as text -/

/-- A written operand as text. -/
def Operand.text : Operand → String
  | immediate value => Text.prefixedHex value.toNat
  | register index => s!"r{index}"
  | memory segment base address indirect =>
    let name := match segment with
      | .ds => "ds"
      | .es => "es"
    let base := base.elim "" fun r => s!"r{r}"
    let address := Text.prefixedHex address.toNat
    if indirect then s!"{name}:{base}[{address}]" else s!"{name}:{base}({address})"
  | control r => r.name

/-- An instruction as it is written. -/
structure Written where
  /-- The operation. -/
  opcode : Opcode
  /-- The least privilege level that may execute it. -/
  privilege : UInt8
  /-- The operands. -/
  operands : List Operand
deriving DecidableEq, Repr

/-- The written instruction as text.  A privilege level other than zero is noted at the end. -/
def Written.text (w : Written) : String :=
  w.opcode.mnemonic ++
    (if w.operands = [] then "" else " " ++ ", ".intercalate (w.operands.map Operand.text)) ++
    (if w.privilege = 0 then "" else s!"  ; pl {w.privilege.toNat}")

/-- The program with written instructions added one after the other, and the addresses reported
for them. -/
def Program.emitAll (p : Program) : List Written → Except EncodeError (List Word × Program)
  | [] => .ok ([], p)
  | w :: ws => do
      let (address, p) ← p.emit w.opcode w.privilege w.operands
      let (addresses, p) ← p.emitAll ws
      return (address :: addresses, p)

/-- A written instruction in a program: the address reported for it, and its words. -/
structure Emitted where
  /-- What was written. -/
  written : Written
  /-- The address reported for it. -/
  address : Word
  /-- Its words. -/
  words : List Word
deriving DecidableEq, Repr

/-- The line for a written instruction in the listing of a program that starts at `base`. -/
def Emitted.render (base : Word) (e : Emitted) : String :=
  let raw := " ".intercalate (e.words.map fun w => Text.hex8 w.toNat)
  Text.prefixedHex8 (base + e.address).toNat ++ ":\t" ++ Text.padRight Listing.Line.rawWidth raw ++
    "\t" ++ e.written.text

/-! ## Operand bytes read as they were written -/

namespace Operand

variable {o : Operand} {d : OperandDescriptor}

/-- An operand byte with the extra word of a written operand reads as the operand was written. -/
theorem Describes.text_eq (h : o.Describes d) : d.text o.extraWord? = o.text := by
  have kind := h.kind
  unfold OperandDescriptor.text
  rw [kind]
  cases o with
  | immediate value => rfl
  | register index =>
    obtain ⟨_, same⟩ := generalRegister_eq_ok h.register
    simp only [Operand.kind, same]
    rfl
  | memory segment base address indirect =>
    rw [h.base?_eq]
    cases segment <;> cases indirect <;> rfl
  | control r =>
    have same : _ = d.register := Except.ok.inj h.register
    simp only [Operand.kind, ← same, ControlRegister.ofIndex?_index]
    rfl

theorem texts_eq {os : List Operand} {ds : List OperandDescriptor}
    (describe : List.Forall₂ Describes os ds) :
    OperandDescriptor.texts ds (os.filterMap extraWord?) = os.map text := by
  induction describe with
  | nil => rfl
  | @cons o d os ds first rest ih =>
    have reads := first.text_eq
    have takes := isSome_extraWord? o
    rw [← first.kind] at takes
    cases extra : o.extraWord? with
    | none =>
      rw [extra] at reads takes
      simp [OperandDescriptor.texts, extra, ← takes, reads, ih]
    | some w =>
      rw [extra] at reads takes
      simp [OperandDescriptor.texts, extra, ← takes, reads, ih]

end Operand

/-- An instruction that describes what was written reads as it was written. -/
theorem Instruction.text_eq {i : Instruction} {w : Written} (opcode : i.opcode = w.opcode)
    (privilege : i.privilege = w.privilege)
    (describe : List.Forall₂ Operand.Describes w.operands i.operands) :
    i.text (w.operands.filterMap Operand.extraWord?) = w.text := by
  have none : i.operands = [] ↔ w.operands = [] := by
    rw [← List.length_eq_zero_iff, ← List.length_eq_zero_iff, describe.length_eq]
  simp only [Instruction.text, Written.text, Operand.texts_eq describe, opcode, privilege,
    List.isEmpty_iff, none]

/-! ## One instruction at the start of the words -/

namespace Listing

variable {w : Written} {words : List Word}

/-- An instruction takes as many words as it has, if there are as many, and what follows it is
listed from the address after them. -/
theorem lines_of_decode {word : Word} {i : Instruction} (decoded : Instruction.decode word = .ok i)
    {extra : List Word} (enough : extra.length = i.extraWords) (address : Word) (rest : List Word) :
    lines address (word :: (extra ++ rest)) =
      ⟨address, word, extra⟩ :: lines (address + UInt32.ofNat i.length) rest := by
  have takes : extraCount word = extra.length := by simp only [extraCount, decoded, enough]
  rw [lines, lineAt, takes, List.take_left, List.drop_left, Instruction.length, ← enough,
    UInt32.ofNat_add, UInt32.add_assoc]
  rfl

/-- An assembled instruction takes one line, and what follows it is listed from the address after
its words. -/
theorem lines_assembled (h : assemble w.opcode w.privilege w.operands = .ok words)
    (address : Word) (rest : List Word) :
    ∃ l : Line, lines address (words ++ rest) =
        l :: lines (address + UInt32.ofNat words.length) rest ∧
      l.address = address ∧ l.words = words ∧ l.text = w.text ∧
      ∃ i : Instruction, Instruction.decode l.word = .ok i := by
  obtain ⟨i, opcode, privilege, obey, describe, length, rfl⟩ := assemble_eq_ok h
  have decoded := Instruction.decode_encode obey
  refine ⟨⟨address, i.encode, w.operands.filterMap Operand.extraWord?⟩, ?_, rfl, rfl, ?_, i,
    decoded⟩
  · rw [length]
    exact lines_of_decode decoded (Operand.length_extraWords describe) address rest
  · simp only [Line.text, decoded]
    exact Instruction.text_eq opcode privilege describe

/-- A line of an instruction is rendered in three columns. -/
theorem Line.render_of_decode {l : Line} {i : Instruction}
    (decoded : Instruction.decode l.word = .ok i) :
    l.render = Text.prefixedHex8 l.address.toNat ++ ":\t" ++
      Text.padRight rawWidth (" ".intercalate (l.words.map fun w => Text.hex8 w.toNat)) ++
      "\t" ++ l.text := by
  have unmarked : ¬l.text.startsWith invalidMark = true := by
    simp [l.startsWith_invalidMark_iff, decoded]
  rw [render, if_neg unmarked]
  rfl

end Listing

/-! ## The whole listing -/

namespace Program

theorem emit_eq_ok {p q : Program} {w : Written} {address : Word}
    (h : p.emit w.opcode w.privilege w.operands = .ok (address, q)) :
    ∃ words, assemble w.opcode w.privilege w.operands = .ok words ∧
      address = p.here ∧ q = ⟨p.words ++ words⟩ := by
  unfold emit at h
  cases assembled : assemble w.opcode w.privilege w.operands with
  | error e => simp [assembled, Except.map] at h
  | ok words =>
    simp only [assembled, Except.map, data, Except.ok.injEq, Prod.mk.injEq] at h
    exact ⟨words, rfl, h.1.symm, h.2.symm⟩

theorem emitAll_cons_eq_ok {p q : Program} {w : Written} {ws : List Written}
    {addresses : List Word} (h : p.emitAll (w :: ws) = .ok (addresses, q)) :
    ∃ words later, assemble w.opcode w.privilege w.operands = .ok words ∧
      addresses = p.here :: later ∧ emitAll ⟨p.words ++ words⟩ ws = .ok (later, q) := by
  rw [emitAll] at h
  cases first : p.emit w.opcode w.privilege w.operands with
  | error e => simp [first, bind, Except.bind] at h
  | ok result =>
    obtain ⟨address, p'⟩ := result
    obtain ⟨words, assembled, rfl, rfl⟩ := emit_eq_ok first
    cases rest : emitAll ⟨p.words ++ words⟩ ws with
    | error e => simp [first, rest, bind, Except.bind] at h
    | ok result =>
      obtain ⟨later, p''⟩ := result
      simp only [first, rest, bind, Except.bind, pure, Except.pure, Except.ok.injEq,
        Prod.mk.injEq] at h
      obtain ⟨rfl, rfl⟩ := h
      exact ⟨words, later, assembled, rfl, rest⟩

/-- A line shows a written instruction in the listing of a program that starts at `base`. -/
structure Shows (base : Word) (e : Emitted) (l : Listing.Line) : Prop where
  address : l.address = base + e.address
  words : l.words = e.words
  text : l.text = e.written.text
  decodes : ∃ i : Instruction, Instruction.decode l.word = .ok i

/-- What instructions add to a program is listed as one line for each, from the address where
they are added. -/
theorem lines_emitAll {p q : Program} {ws : List Written} {addresses : List Word}
    (h : p.emitAll ws = .ok (addresses, q)) (base : Word) :
    ∃ es : List Emitted, es.map (·.written) = ws ∧ es.map (·.address) = addresses ∧
      q.words = p.words ++ es.flatMap (·.words) ∧
      (∀ e ∈ es, assemble e.written.opcode e.written.privilege e.written.operands = .ok e.words) ∧
      List.Forall₂ (Shows base) es (Listing.lines (base + p.here) (es.flatMap (·.words))) := by
  -- The invariant is that the lines to come start at `base + p.here`, where `p` is what has been
  -- written so far.
  induction ws generalizing p addresses with
  | nil =>
    cases h
    exact ⟨[], rfl, rfl, by simp, by simp, by simp [Listing.lines]⟩
  | cons w ws ih =>
    obtain ⟨words, later, assembled, rfl, rest⟩ := emitAll_cons_eq_ok h
    obtain ⟨es, writes, reports, grown, each, shown⟩ := ih rest
    obtain ⟨l, takes, address, raw, text, decodes⟩ :=
      Listing.lines_assembled assembled (base + p.here) (es.flatMap (·.words))
    have next : base + p.here + UInt32.ofNat words.length = base + here ⟨p.words ++ words⟩ := by
      simp [here, UInt32.ofNat_add, UInt32.add_assoc]
    refine ⟨⟨w, p.here, words⟩ :: es, by simp [writes], by simp [reports], ?_, ?_, ?_⟩
    · rw [grown, List.flatMap_cons, List.append_assoc]
    · intro e mem
      obtain rfl | mem := List.mem_cons.mp mem
      · exact assembled
      · exact each e mem
    · rw [List.flatMap_cons, takes, next]
      exact .cons ⟨address, raw, text, decodes⟩ shown

theorem Shows.render_eq {base : Word} {e : Emitted} {l : Listing.Line} (h : Shows base e l) :
    l.render = e.render base := by
  obtain ⟨i, decoded⟩ := h.decodes
  rw [Listing.Line.render_of_decode decoded, h.address, h.words, h.text]
  rfl

theorem map_render_of_shows {base : Word} {es : List Emitted} {ls : List Listing.Line}
    (shown : List.Forall₂ (Shows base) es ls) :
    ls.map (fun l => l.render ++ "\n") = es.map (fun e => e.render base ++ "\n") := by
  induction shown with
  | nil => rfl
  | cons first _ ih => rw [List.map_cons, List.map_cons, first.render_eq, ih]

theorem unmarked_of_shows {base : Word} {es : List Emitted} {ls : List Listing.Line}
    (shown : List.Forall₂ (Shows base) es ls) :
    ∀ l ∈ ls, (∃ i, Instruction.decode l.word = .ok i) ∧
      ¬Listing.invalidMark.toList <+: l.text.toList := by
  induction shown with
  | nil => simp
  | @cons e l _ _ first _ ih =>
    refine List.forall_mem_cons.mpr ⟨⟨first.decodes, ?_⟩, ih⟩
    obtain ⟨i, decoded⟩ := first.decodes
    rw [← String.startsWith_string_iff, l.startsWith_invalidMark_iff]
    simp [decoded]

/-- The listing of a program made of instructions alone has one line for each, in order.  The line
shows the address reported for the instruction, its words, and what was written.  No line is that
of a word that is no instruction. -/
theorem listing_of_emitAll {p : Program} {ws : List Written} {addresses : List Word}
    (h : emitAll {} ws = .ok (addresses, p)) (base : Word) :
    ∃ es : List Emitted, es.map (·.written) = ws ∧ es.map (·.address) = addresses ∧
      es.flatMap (·.words) = p.words ∧
      (∀ e ∈ es, assemble e.written.opcode e.written.privilege e.written.operands = .ok e.words) ∧
      Listing.render base p.words =
        Listing.header ++ String.join (es.map fun e => e.render base ++ "\n") ∧
      (Listing.lines base p.words).length = ws.length ∧
      ∀ l ∈ Listing.lines base p.words, (∃ i, Instruction.decode l.word = .ok i) ∧
        ¬Listing.invalidMark.toList <+: l.text.toList := by
  obtain ⟨es, rfl, reports, grown, each, shown⟩ := lines_emitAll h base
  have whole : es.flatMap (·.words) = p.words := by
    rw [grown]
    rfl
  have start : base + here {} = base := UInt32.add_zero base
  rw [start, whole] at shown
  refine ⟨es, rfl, reports, whole, each, ?_, ?_, unmarked_of_shows shown⟩
  · rw [Listing.render, map_render_of_shows shown]
  · rw [← shown.length_eq, List.length_map]

/-- `MOV ds:r3(0x5), 0x7`, a privileged `CLI` and `MOV r4, SEGTBL`, listed from just
below the end of the address space. -/
theorem listing_of_emitAll_sample :
    ∃ p : Program,
      emitAll {} [⟨.mov, 0, [.memory .ds (some 3) 5 false, .immediate 7]⟩, ⟨.cli, 2, []⟩,
        ⟨.mov, 0, [.register 4, .control .segmentTable]⟩] = .ok ([0, 3, 4], p) ∧
      (Listing.lines 0xFFFFFFFE p.words).length = 3 := by
  have emitted : emitAll {} [⟨.mov, 0, [.memory .ds (some 3) 5 false, .immediate 7]⟩,
      ⟨.cli, 2, []⟩, ⟨.mov, 0, [.register 4, .control .segmentTable]⟩] =
      .ok ([0, 3, 4], ⟨[0x00430020, 5, 7, 0x00000263, 0xC0240020]⟩) := by decide
  obtain ⟨es, _, _, _, _, _, lines, _⟩ := listing_of_emitAll emitted 0xFFFFFFFE
  exact ⟨_, emitted, lines⟩

end Program

end WordMachine
