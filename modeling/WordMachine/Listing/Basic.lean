import WordMachine.Instruction.Basic

/-!
# Listings

A listing shows words as assembly text, one line for each instruction.  A line
takes the instruction word and the extra words it calls for, or as many of them
as there are; a missing one is written `?`.  A word that is no instruction gets
a line of its own, with a mark in front of it and its bytes as characters beside
it.  The mark is told by the text, since no mnemonic begins with it.

The words of a listing are the words it was made from (`words_lines`), and the
length of each line's instruction is the number of words it takes unless the
words run out.
-/

namespace WordMachine

/-! ## Text of an instruction -/

namespace OperandDescriptor

/-- The operand as text, with its extra word if there is one. -/
def text (d : OperandDescriptor) (extra : Option Word) : String :=
  let literal := extra.elim "?" fun w => Text.prefixedHex w.toNat
  let base := d.base?.elim "" fun r => s!"r{r}"
  match d.kind with
  | .immediate => literal
  | .register => s!"r{d.register.val}"
  | .singleDs => s!"ds:{base}({literal})"
  | .singleEs => s!"es:{base}({literal})"
  | .doubleDs => s!"ds:{base}[{literal}]"
  | .doubleEs => s!"es:{base}[{literal}]"
  | .control => (ControlRegister.ofIndex? d.register).elim s!"sr{d.register.val}" (·.name)

/-- Operands as text, each with the next extra word if its mode takes one. -/
def texts : List OperandDescriptor → List Word → List String
  | [], _ => []
  | d :: ds, extra =>
    if d.kind.hasExtraWord then d.text extra.head? :: texts ds extra.tail
    else d.text none :: texts ds extra

end OperandDescriptor

/-- The instruction as text.  A privilege level other than zero is noted at the end. -/
def Instruction.text (i : Instruction) (extra : List Word) : String :=
  let operands := ", ".intercalate (OperandDescriptor.texts i.operands extra)
  i.opcode.mnemonic ++ (if i.operands.isEmpty then "" else " " ++ operands) ++
    (if i.privilege = 0 then "" else s!"  ; pl {i.privilege.toNat}")

namespace Listing

/-! ## Lines -/

/-- The mark that the text of a line begins with where its word is no instruction. -/
def invalidMark : String := "INV"

/-- One line of a listing. -/
structure Line where
  /-- The address of the first word. -/
  address : Word
  /-- The first word. -/
  word : Word
  /-- The extra words, as far as there are any. -/
  extra : List Word
deriving DecidableEq, Repr

/-- The number of extra words a word calls for. -/
def extraCount (word : Word) : Nat :=
  match Instruction.decode word with
  | .ok i => i.extraWords
  | .error _ => 0

/-- The line for a word and what follows it. -/
def lineAt (address word : Word) (rest : List Word) : Line :=
  ⟨address, word, rest.take (extraCount word)⟩

/-- The lines for words that start at an address. -/
def lines (address : Word) : List Word → List Line
  | [] => []
  | word :: rest =>
    lineAt address word rest ::
      lines (address + 1 + UInt32.ofNat (extraCount word)) (rest.drop (extraCount word))
termination_by words => words.length

namespace Line

/-- The words of a line. -/
def words (l : Line) : List Word := l.word :: l.extra

/-- The number of words of a line. -/
def length (l : Line) : Nat := l.words.length

/-- The text of a line. -/
def text (l : Line) : String :=
  match Instruction.decode l.word with
  | .ok i => i.text l.extra
  | .error _ => s!"INV: {Text.prefixedHex l.word.toNat}"

/-- The bytes of the words as characters, with a point for those that cannot be printed. -/
def characters (l : Line) : String :=
  String.ofList <| l.words.flatMap fun w => w.toBytes.map fun b =>
    if 0x20 ≤ b ∧ b < 0x7F then Char.ofNat b.toNat else '.'

/-- The width of the column of raw words, enough for three. -/
def rawWidth : Nat := 27

/-- The line as it is printed. -/
def render (l : Line) : String :=
  let raw := " ".intercalate (l.words.map fun w => Text.hex8 w.toNat)
  let columns := s!"{Text.prefixedHex8 l.address.toNat}:\t{Text.padRight rawWidth raw}\t{l.text}"
  if l.text.startsWith invalidMark then s!"{columns}\t|{l.characters}|" else columns

end Line

theorem words_lines (address : Word) (words : List Word) :
    (lines address words).flatMap Line.words = words := by
  fun_induction lines address words with
  | case1 => rfl
  | case2 address word rest ih => simp [ih, lineAt, Line.words]

end Listing

/-! ## The mark of a word that is no instruction -/

/-- No mnemonic begins with the mark, and the mark begins with no mnemonic. -/
theorem Opcode.mnemonic_not_invalidMark (o : Opcode) :
    ¬Listing.invalidMark.toList <+: o.mnemonic.toList ∧
      ¬o.mnemonic.toList <+: Listing.invalidMark.toList := by
  cases o <;> decide

theorem Instruction.text_not_invalidMark (i : Instruction) (extra : List Word) :
    ¬Listing.invalidMark.toList <+: (i.text extra).toList := by
  intro marked
  have begins : i.opcode.mnemonic.toList <+: (i.text extra).toList := by
    simp only [text, String.toList_append, List.append_assoc]
    exact List.prefix_append ..
  obtain ⟨longer, shorter⟩ := i.opcode.mnemonic_not_invalidMark
  exact (List.prefix_or_prefix_of_prefix marked begins).elim longer shorter

namespace Listing

/-- The text of a line has the mark exactly if the word is no instruction. -/
theorem Line.startsWith_invalidMark_iff (l : Line) :
    l.text.startsWith invalidMark = true ↔ ∃ e, Instruction.decode l.word = .error e := by
  rw [String.startsWith_string_iff]
  unfold text
  cases decoded : Instruction.decode l.word with
  | ok i => simpa using i.text_not_invalidMark l.extra
  | error e =>
    refine iff_of_true ?_ ⟨e, rfl⟩
    show _ <+: ("INV: " ++ Text.prefixedHex l.word.toNat).toList
    rw [String.toList_append]
    exact ⟨':' :: ' ' :: _, rfl⟩

/-! ## Whole listings -/

/-- The lines above every listing. -/
def header : String := "; VM32 Disassembly\n; -----------------\n\n"

/-- The listing of words that start at an address. -/
def render (base : Word) (words : List Word) : String :=
  header ++ String.join ((lines base words).map fun l => l.render ++ "\n")

/-- The line for the instruction at the start of words. -/
def first? : List Word → Option Line
  | [] => none
  | word :: rest => some (lineAt 0 word rest)

/-- The text of the instruction at the start of words, empty if there are none. -/
def firstText (words : List Word) : String := (first? words).elim "" Line.text

end Listing

end WordMachine
