import Mathlib.Data.List.Forall2
import WordMachine.Proofs.AssembledListing
import WordMachine.Proofs.InstructionFormat
import WordMachine.Proofs.Numerals

/-!
# The text of an instruction

The text of an instruction says which instruction it is.  Its pieces are written
one after the other, and each one ends before a character that it cannot have,
so the text can be cut in one way only (`Text.eq_of_append_eq`).  An operand
begins with a character that tells its mode from the others, or has a bracket
that does (`OperandDescriptor.modeOf_text`).  Then its base register and its
literal are in their own places (`OperandDescriptor.agrees_of_text`).

Two instructions with the same text may still differ in bits that mean nothing,
such as the register number of a literal.  `OperandDescriptor.Agrees` compares
what is left (`Listing.firstText_unambiguous`).
-/

namespace WordMachine

/-! ## Where a piece of text ends -/

namespace Text

/-- Whether a character can stand in a mnemonic or an operand.  Blanks and commas lie between. -/
def isInner (c : Char) : Bool := c.isAlphanum || ['?', ':', '(', ')', '[', ']'].contains c

/-- Whether a piece of text made of such characters, standing before this, ends there. -/
def Ends (p : Char → Bool) (rest : List Char) : Prop := rest.takeWhile p = []

theorem ends_cons {p : Char → Bool} {c : Char} (other : p c = false) (rest : List Char) :
    Ends p (c :: rest) := by
  simp [Ends, other]

theorem isInner_of_isAlphanum {c : Char} (h : c.isAlphanum = true) : isInner c = true := by
  simp [isInner, h]

/-- A piece of text ends in one place only. -/
theorem eq_of_append_eq {p : Char → Bool} {a b x y : List Char} (inside : ∀ c ∈ a, p c = true)
    (inside' : ∀ c ∈ b, p c = true) (ends : Ends p x) (ends' : Ends p y)
    (same : a ++ x = b ++ y) : a = b ∧ x = y := by
  have cut := congrArg (List.takeWhile p) same
  rw [List.takeWhile_append_of_pos inside, List.takeWhile_append_of_pos inside', ends, ends',
    List.append_nil, List.append_nil] at cut
  rw [cut] at same
  exact ⟨cut, List.append_cancel_left same⟩

end Text

namespace OperandDescriptor

variable {d d' : OperandDescriptor} {extra extra' : Option Word}

/-! ## The pieces of an operand -/

/-- The text of a literal. -/
def literalText (extra : Option Word) : List Char :=
  extra.elim ['?'] fun w => '0' :: 'x' :: Text.hexDigits w.toNat

/-- The text of a register. -/
def registerText (index : Nat) : List Char := 'r' :: (toString index).toList

/-- The text of a base register, if there is one. -/
def baseText (d : OperandDescriptor) : List Char := d.base?.elim [] registerText

/-- The text of a memory operand, with the letter of its segment and its brackets. -/
def memoryText (d : OperandDescriptor) (segment opening closing : Char) (extra : Option Word) :
    List Char :=
  segment :: 's' :: ':' :: (d.baseText ++ opening :: (literalText extra ++ [closing]))

/-- The text of an operand in characters. -/
theorem toList_text (d : OperandDescriptor) (extra : Option Word) :
    (d.text extra).toList =
      match d.kind with
      | .immediate => literalText extra
      | .register => registerText d.register
      | .singleDs => d.memoryText 'd' '(' ')' extra
      | .singleEs => d.memoryText 'e' '(' ')' extra
      | .doubleDs => d.memoryText 'd' '[' ']' extra
      | .doubleEs => d.memoryText 'e' '[' ']' extra
      | .control => (ControlRegister.ofIndex? d.register).elim
          ('s' :: registerText d.register) (·.name.toList) := by
  have literal : (extra.elim "?" fun w => Text.prefixedHex w.toNat).toList =
      literalText extra := by
    cases extra <;> simp [Text.prefixedHex, Text.hex, literalText]
  have base : (d.base?.elim "" fun r => s!"r{r}").toList = d.baseText := by
    unfold baseText
    cases d.base? <;> simp [registerText, toString]
  unfold text
  cases d.kind with
  | immediate => exact literal
  | register => simp [registerText, toString]
  | singleDs | singleEs | doubleDs | doubleEs => simp [memoryText, ← literal, ← base, toString]
  | control =>
    cases ControlRegister.ofIndex? d.register with
    | none => simp [registerText, toString]
    | some r => rfl

/-! ## The characters of an operand -/

theorem isAlphanum_of_mem_registerText {index : Nat} {c : Char} (h : c ∈ registerText index) :
    c.isAlphanum = true := by
  rcases List.mem_cons.mp h with rfl | digit
  · decide
  · exact Text.isAlphanum_of_mem_decimal digit

theorem isAlphanum_of_mem_baseText {c : Char} (h : c ∈ d.baseText) : c.isAlphanum = true := by
  unfold baseText at h
  cases base : d.base? with
  | none => simp [base] at h
  | some index => exact isAlphanum_of_mem_registerText (by simpa [base] using h)

theorem isAlphanum_of_mem_name {r : ControlRegister} {c : Char} (h : c ∈ r.name.toList) :
    c.isAlphanum = true := by
  have all : r.name.toList.all Char.isAlphanum = true := by cases r <;> decide
  exact List.all_eq_true.mp all c h

/-- A literal consists of letters and digits, or is a question mark. -/
theorem isAlphanum_of_mem_literalText {c : Char} (h : c ∈ literalText extra) :
    c.isAlphanum = true ∨ c = '?' := by
  cases extra with
  | none => exact .inr (List.mem_singleton.mp h)
  | some w =>
    simp only [literalText, Option.elim_some, List.mem_cons] at h
    rcases h with rfl | rfl | digit
    · exact .inl (by decide)
    · exact .inl (by decide)
    · exact .inl (Text.isAlphanum_of_mem_hexDigits digit)

theorem isInner_of_mem_literalText {c : Char} (h : c ∈ literalText extra) :
    Text.isInner c = true := by
  rcases isAlphanum_of_mem_literalText h with alphanum | rfl
  · exact Text.isInner_of_isAlphanum alphanum
  · decide

theorem isInner_of_mem_memoryText {segment opening closing c : Char}
    (marks : [segment, opening, closing].all Text.isInner = true)
    (h : c ∈ d.memoryText segment opening closing extra) : Text.isInner c = true := by
  have marks := List.all_eq_true.mp marks
  simp only [memoryText, List.mem_cons, List.mem_append, List.not_mem_nil, or_false] at h
  rcases h with rfl | rfl | rfl | base | rfl | literal | rfl
  · exact marks _ (by simp)
  · decide
  · decide
  · exact Text.isInner_of_isAlphanum (isAlphanum_of_mem_baseText base)
  · exact marks _ (by simp)
  · exact isInner_of_mem_literalText literal
  · exact marks _ (by simp)

theorem isInner_of_mem_text {c : Char} (h : c ∈ (d.text extra).toList) :
    Text.isInner c = true := by
  rw [toList_text] at h
  cases kind : d.kind with
  | immediate => exact isInner_of_mem_literalText (by simpa [kind] using h)
  | register =>
    exact Text.isInner_of_isAlphanum (isAlphanum_of_mem_registerText (by simpa [kind] using h))
  | singleDs | singleEs | doubleDs | doubleEs =>
    simp only [kind] at h
    exact isInner_of_mem_memoryText (by decide) h
  | control =>
    simp only [kind] at h
    cases known : ControlRegister.ofIndex? d.register with
    | none =>
      rw [known, Option.elim_none, List.mem_cons] at h
      rcases h with rfl | digit
      · decide
      · exact Text.isInner_of_isAlphanum (isAlphanum_of_mem_registerText digit)
    | some r =>
      rw [known, Option.elim_some] at h
      exact Text.isInner_of_isAlphanum (isAlphanum_of_mem_name h)

/-! ## What an operand says -/

/-- The mode that a text has the form of. -/
def modeOf (text : List Char) : OperandKind :=
  match text.head? with
  | some 'r' => .register
  | some 'd' => if '[' ∈ text then .doubleDs else .singleDs
  | some 'e' => if '[' ∈ text then .doubleEs else .singleEs
  | some '0' | some '?' => .immediate
  | _ => .control

theorem mem_memoryText_iff {segment opening closing : Char} :
    '[' ∈ d.memoryText segment opening closing extra ↔
      '[' = segment ∨ '[' = opening ∨ '[' = closing := by
  have base : '[' ∉ d.baseText := fun h => absurd (isAlphanum_of_mem_baseText h) (by decide)
  have literal : '[' ∉ literalText extra := fun h =>
    absurd (isAlphanum_of_mem_literalText h) (by decide)
  simp [memoryText, base, literal]

/-- The text of an operand shows its mode. -/
theorem modeOf_text (named : d.isNamed = true) (extra : Option Word) :
    modeOf (d.text extra).toList = d.kind := by
  rw [toList_text]
  cases kind : d.kind with
  | immediate => cases extra <;> rfl
  | register => rfl
  | singleDs | singleEs | doubleDs | doubleEs =>
    simp only [modeOf, mem_memoryText_iff]
    simp [memoryText]
  | control =>
    simp only [isNamed, kind] at named
    obtain ⟨r, known⟩ := Option.isSome_iff_exists.mp named
    rw [known]
    cases r <;> rfl

/-- Two operands that differ at most in the register number of a literal, which means nothing. -/
structure Agrees (d d' : OperandDescriptor) : Prop where
  kind : d'.kind = d.kind
  register : d.kind ≠ .immediate → d'.register = d.register

theorem literalText_inj (same : literalText extra = literalText extra') : extra = extra' := by
  cases extra with
  | none => cases extra' <;> simp_all [literalText]
  | some w =>
    cases extra' with
    | none => simp [literalText] at same
    | some w' =>
      simp only [literalText, Option.elim_some, List.cons.injEq, true_and] at same
      exact congrArg some (UInt32.toNat_inj.mp (Text.hexDigits_inj same))

theorem registerText_inj {m n : Nat} (same : registerText m = registerText n) : m = n := by
  simp only [registerText, List.cons.injEq, true_and] at same
  exact Text.decimal_inj same

theorem register_eq_of_baseText (same : d.baseText = d'.baseText) : d'.register = d.register := by
  refine Fin.ext ?_
  unfold baseText base? at same
  by_cases none : d.register.val = noRegister
  · by_cases none' : d'.register.val = noRegister
    · rw [none, none']
    · simp [none, none', registerText] at same
  · by_cases none' : d'.register.val = noRegister
    · simp [none, none', registerText] at same
    · rw [if_neg none, if_neg none'] at same
      exact (registerText_inj same).symm

theorem name_inj {r r' : ControlRegister} (same : r.name = r'.name) : r = r' := by
  revert same
  cases r <;> cases r' <;> decide

/-- A memory operand says its base register and its literal. -/
theorem memoryText_inj {segment opening closing : Char} (mark : opening.isAlphanum = false)
    (same : d.memoryText segment opening closing extra =
      d'.memoryText segment opening closing extra') :
    d'.register = d.register ∧ extra = extra' := by
  simp only [memoryText, List.cons.injEq, true_and] at same
  obtain ⟨base, rest⟩ := Text.eq_of_append_eq (fun _ => isAlphanum_of_mem_baseText)
    (fun _ => isAlphanum_of_mem_baseText) (Text.ends_cons mark _) (Text.ends_cons mark _) same
  obtain ⟨literal, -⟩ := List.append_inj' (List.cons_eq_cons.mp rest).2 rfl
  exact ⟨register_eq_of_baseText base, literalText_inj literal⟩

/-- An operand says its mode, its register unless it is a literal, and its extra word if it takes
one. -/
theorem agrees_of_text (named : d.isNamed = true) (named' : d'.isNamed = true)
    (same : d.text extra = d'.text extra') :
    d.Agrees d' ∧ (d.kind.hasExtraWord = true → extra = extra') := by
  have same := congrArg String.toList same
  have kind : d'.kind = d.kind := by rw [← modeOf_text named', ← same, modeOf_text named]
  rw [toList_text, toList_text, kind] at same
  cases mode : d.kind with
  | immediate =>
    simp only [mode] at same
    exact ⟨⟨kind, fun other => absurd mode other⟩, fun _ => literalText_inj same⟩
  | register =>
    simp only [mode] at same
    refine ⟨⟨kind, fun _ => Fin.ext (registerText_inj same).symm⟩, fun takes => ?_⟩
    exact absurd takes (by decide)
  | singleDs | singleEs | doubleDs | doubleEs =>
    simp only [mode] at same
    obtain ⟨register, literal⟩ := memoryText_inj (by decide) same
    exact ⟨⟨kind, fun _ => register⟩, fun _ => literal⟩
  | control =>
    simp only [isNamed, kind, mode] at named named'
    obtain ⟨r, known⟩ := Option.isSome_iff_exists.mp named
    obtain ⟨r', known'⟩ := Option.isSome_iff_exists.mp named'
    simp only [mode, known, known', Option.elim_some, String.toList_inj] at same
    refine ⟨⟨kind, fun _ => Fin.ext ?_⟩, fun takes => absurd takes (by decide)⟩
    obtain rfl := name_inj same
    have index : r.index = d.register.val := eq_of_beq (List.find?_some known :)
    have index' : r.index = d'.register.val := eq_of_beq (List.find?_some known' :)
    rw [← index, index']


theorem Agrees.eq_or_immediate (h : d.Agrees d') : d' = d ∨ d.kind = .immediate := by
  by_cases literal : d.kind = .immediate
  · exact .inr literal
  · obtain ⟨kind, register⟩ := d
    obtain ⟨kind', register'⟩ := d'
    obtain rfl : kind' = kind := h.kind
    obtain rfl : register' = register := h.register literal
    exact .inl rfl

/-- A register number that means nothing is not shown. -/
theorem Agrees.text_eq (h : d.Agrees d') (extra : Option Word) : d.text extra = d'.text extra := by
  rcases h.eq_or_immediate with rfl | literal
  · rfl
  · rw [← String.toList_inj, toList_text, toList_text, h.kind, literal]

theorem Agrees.sameByte (h : d.Agrees d') : SameByte d.toByte d'.toByte := by
  rcases h.eq_or_immediate with rfl | literal
  · exact .inl rfl
  · right
    rw [toByte_shiftRight, toByte_shiftRight, h.kind, literal]
    exact ⟨rfl, rfl⟩

/-! ## What the operands say -/

/-- Each operand shows its own extra word, and leaves the others to those after it. -/
theorem texts_cons (d : OperandDescriptor) (ds : List OperandDescriptor) (extra : List Word) :
    texts (d :: ds) extra =
      d.text (if d.kind.hasExtraWord then extra.head? else none) ::
        texts ds (if d.kind.hasExtraWord then extra.tail else extra) := by
  rw [texts]
  split <;> rfl

@[simp] theorem length_texts (ds : List OperandDescriptor) (extra : List Word) :
    (texts ds extra).length = ds.length := by
  induction ds generalizing extra with
  | nil => rfl
  | cons d ds ih => rw [texts_cons, List.length_cons, ih, List.length_cons]

theorem isInner_of_mem_texts {ds : List OperandDescriptor} {extra : List Word} {t : String}
    (h : t ∈ texts ds extra) : ∀ c ∈ t.toList, Text.isInner c = true := by
  induction ds generalizing extra with
  | nil => cases h
  | cons d ds ih =>
    rw [texts_cons] at h
    rcases List.mem_cons.mp h with rfl | later
    · exact fun _ => isInner_of_mem_text
    · exact ih later

/-- The operands of an instruction say their modes, their registers and the extra words. -/
theorem agrees_of_texts {ds ds' : List OperandDescriptor} {extra extra' : List Word}
    (named : ∀ d ∈ ds, d.isNamed = true) (named' : ∀ d ∈ ds', d.isNamed = true)
    (enough : extra.length = ds.countP (·.kind.hasExtraWord))
    (enough' : extra'.length = ds'.countP (·.kind.hasExtraWord))
    (same : texts ds extra = texts ds' extra') :
    List.Forall₂ Agrees ds ds' ∧ extra = extra' := by
  induction ds generalizing ds' extra extra' with
  | nil =>
    obtain rfl : ds' = [] := by simpa using (congrArg List.length same).symm
    rw [List.length_eq_zero_iff.mp enough, List.length_eq_zero_iff.mp enough']
    exact ⟨.nil, rfl⟩
  | cons d ds ih =>
    cases ds' with
    | nil =>
      rw [texts_cons] at same
      cases same
    | cons d' ds' =>
      rw [texts_cons, texts_cons, List.cons.injEq] at same
      obtain ⟨first, rest⟩ := same
      obtain ⟨named, others⟩ := List.forall_mem_cons.mp named
      obtain ⟨named', others'⟩ := List.forall_mem_cons.mp named'
      obtain ⟨agree, word⟩ := agrees_of_text named named' first
      rw [agree.kind] at word rest
      cases takes : d.kind.hasExtraWord with
      | false =>
        simp only [List.countP_cons, takes, agree.kind] at enough enough'
        obtain ⟨agreeing, words⟩ := ih others others' enough enough' (by simpa [takes] using rest)
        exact ⟨.cons agree agreeing, words⟩
      | true =>
        simp only [List.countP_cons, takes, agree.kind] at enough enough'
        obtain ⟨w, extra, rfl⟩ := List.exists_cons_of_length_eq_add_one enough
        obtain ⟨w', extra', rfl⟩ := List.exists_cons_of_length_eq_add_one enough'
        obtain ⟨agreeing, rfl⟩ := ih others others' (by simpa using enough)
          (by simpa using enough') (by simpa [takes] using rest)
        obtain rfl : w = w' := by simpa [takes] using word
        exact ⟨.cons agree agreeing, rfl⟩

theorem texts_of_agrees {ds ds' : List OperandDescriptor} (agreeing : List.Forall₂ Agrees ds ds')
    (extra : List Word) : texts ds extra = texts ds' extra := by
  induction agreeing generalizing extra with
  | nil => rfl
  | cons first _ ih => rw [texts_cons, texts_cons, first.text_eq, first.kind, ih]

end OperandDescriptor

/-! ## The text of an instruction in pieces -/

namespace Opcode

theorem isAlphanum_of_mem_mnemonic {o : Opcode} {c : Char} (h : c ∈ o.mnemonic.toList) :
    c.isAlphanum = true := by
  have all : o.mnemonic.toList.all Char.isAlphanum = true := by cases o <;> decide
  exact List.all_eq_true.mp all c h

theorem find?_mnemonic (o : Opcode) : all.find? (·.mnemonic == o.mnemonic) = some o := by
  cases o <;> decide

theorem mnemonic_inj {o o' : Opcode} (same : o.mnemonic = o'.mnemonic) : o = o' := by
  have found := find?_mnemonic o
  rw [same, find?_mnemonic] at found
  exact (Option.some.inj found).symm

end Opcode

namespace Instruction

/-- The text of the operands after the first one. -/
def laterText (texts : List String) : List Char := texts.flatMap fun t => ',' :: ' ' :: t.toList

/-- The text of the operands. -/
def operandText : List String → List Char
  | [] => []
  | t :: ts => ' ' :: (t.toList ++ laterText ts)

/-- The note about the privilege level. -/
def noteText (privilege : UInt8) : List Char :=
  if privilege = 0 then []
  else ' ' :: ' ' :: ';' :: ' ' :: 'p' :: 'l' :: ' ' :: (toString privilege.toNat).toList

theorem toList_intercalate (t : String) (ts : List String) :
    (", ".intercalate (t :: ts)).toList = t.toList ++ laterText ts := by
  induction ts generalizing t with
  | nil => simp [laterText]
  | cons t' ts ih => simp [String.intercalate_cons_cons, ih, laterText]

theorem toList_text (i : Instruction) (extra : List Word) :
    (i.text extra).toList = i.opcode.mnemonic.toList ++
      (operandText (OperandDescriptor.texts i.operands extra) ++ noteText i.privilege) := by
  have note : (if i.privilege = 0 then "" else s!"  ; pl {i.privilege.toNat}").toList =
      noteText i.privilege := by
    unfold noteText
    split <;> simp [toString]
  have operands : (if i.operands.isEmpty then ""
      else " " ++ ", ".intercalate (OperandDescriptor.texts i.operands extra)).toList =
      operandText (OperandDescriptor.texts i.operands extra) := by
    cases i.operands with
    | nil => rfl
    | cons d ds =>
      rw [OperandDescriptor.texts_cons]
      show (" " ++ ", ".intercalate (_ :: _)).toList = _
      rw [String.toList_append, toList_intercalate]
      rfl
  rw [text, String.toList_append, String.toList_append, note, operands, List.append_assoc]

theorem ends_noteText (privilege : UInt8) : Text.Ends Text.isInner (noteText privilege) := by
  unfold noteText
  split
  · rfl
  · exact Text.ends_cons (by decide) _

theorem ends_laterText (ts : List String) {rest : List Char} (ends : Text.Ends Text.isInner rest) :
    Text.Ends Text.isInner (laterText ts ++ rest) := by
  cases ts with
  | nil => exact ends
  | cons t ts => exact Text.ends_cons (by decide) _

theorem ends_operandText (ts : List String) {rest : List Char}
    (ends : Text.Ends Text.isInner rest) : Text.Ends Text.isInner (operandText ts ++ rest) := by
  cases ts with
  | nil => exact ends
  | cons t ts => exact Text.ends_cons (by decide) _

theorem noteText_inj {p q : UInt8} (same : noteText p = noteText q) : p = q := by
  unfold noteText at same
  by_cases zero : p = 0
  · by_cases zero' : q = 0
    · rw [zero, zero']
    · simp [zero, zero'] at same
  · by_cases zero' : q = 0
    · simp [zero, zero'] at same
    · rw [if_neg zero, if_neg zero'] at same
      simp only [List.cons.injEq, true_and] at same
      exact UInt8.toNat_inj.mp (Text.decimal_inj same)

theorem comma_noteText {p : UInt8} {rest : List Char} : noteText p ≠ ',' :: rest := by
  unfold noteText
  split <;> simp

/-- The operands and the privilege level can be told from what follows the mnemonic. -/
theorem pieces_inj {t t' : String} {ts ts' : List String} {p q : UInt8}
    (inner : ∀ u ∈ t :: ts, ∀ c ∈ u.toList, Text.isInner c = true)
    (inner' : ∀ u ∈ t' :: ts', ∀ c ∈ u.toList, Text.isInner c = true)
    (same : t.toList ++ (laterText ts ++ noteText p) =
      t'.toList ++ (laterText ts' ++ noteText q)) : t :: ts = t' :: ts' ∧ p = q := by
  induction ts generalizing t t' ts' with
  | nil =>
    obtain ⟨text, rest⟩ := Text.eq_of_append_eq (inner t (by simp)) (inner' t' (by simp))
      (ends_laterText [] (ends_noteText p)) (ends_laterText ts' (ends_noteText q)) same
    cases ts' with
    | nil => exact ⟨by rw [String.toList_inj.mp text], noteText_inj rest⟩
    | cons u' us' => exact absurd rest comma_noteText
  | cons u us ih =>
    obtain ⟨text, rest⟩ := Text.eq_of_append_eq (inner t (by simp)) (inner' t' (by simp))
      (ends_laterText (u :: us) (ends_noteText p)) (ends_laterText ts' (ends_noteText q)) same
    cases ts' with
    | nil => exact absurd rest.symm comma_noteText
    | cons u' us' =>
      simp only [laterText, List.flatMap_cons, List.cons_append, List.append_assoc,
        List.cons.injEq, true_and] at rest
      obtain ⟨later, privilege⟩ := ih (List.forall_mem_cons.mp inner).2
        (List.forall_mem_cons.mp inner').2 rest
      exact ⟨by rw [String.toList_inj.mp text, later], privilege⟩

theorem operandText_inj {ts ts' : List String} {p q : UInt8}
    (inner : ∀ u ∈ ts, ∀ c ∈ u.toList, Text.isInner c = true)
    (inner' : ∀ u ∈ ts', ∀ c ∈ u.toList, Text.isInner c = true)
    (length : ts.length = ts'.length)
    (same : operandText ts ++ noteText p = operandText ts' ++ noteText q) :
    ts = ts' ∧ p = q := by
  cases ts with
  | nil =>
    obtain rfl := List.length_eq_zero_iff.mp length.symm
    exact ⟨rfl, noteText_inj same⟩
  | cons t ts =>
    obtain ⟨t', ts', rfl⟩ := List.exists_cons_of_length_eq_add_one length.symm
    simp only [operandText, List.cons_append, List.append_assoc, List.cons.injEq, true_and] at same
    exact pieces_inj inner inner' same

theorem isNamed_of_mem {i : Instruction} (obeys : i.Obeys) {d : OperandDescriptor}
    (h : d ∈ i.operands) : d.isNamed = true := by
  obtain ⟨k, at_k⟩ := List.mem_iff_getElem?.mp h
  exact (accepts_of_obeys obeys at_k).2

/-- An instruction says its opcode, its privilege level, its operands and its extra words. -/
theorem agrees_of_text {i j : Instruction} (obeys : i.Obeys) (obeys' : j.Obeys)
    {extra extra' : List Word} (enough : extra.length = i.extraWords)
    (enough' : extra'.length = j.extraWords) (same : i.text extra = j.text extra') :
    i.opcode = j.opcode ∧ i.privilege = j.privilege ∧
      List.Forall₂ OperandDescriptor.Agrees i.operands j.operands ∧ extra = extra' := by
  have same := congrArg String.toList same
  rw [toList_text, toList_text] at same
  obtain ⟨mnemonic, rest⟩ := Text.eq_of_append_eq
    (fun _ h => Text.isInner_of_isAlphanum (Opcode.isAlphanum_of_mem_mnemonic h))
    (fun _ h => Text.isInner_of_isAlphanum (Opcode.isAlphanum_of_mem_mnemonic h))
    (ends_operandText _ (ends_noteText _)) (ends_operandText _ (ends_noteText _)) same
  have opcode := Opcode.mnemonic_inj (String.toList_inj.mp mnemonic)
  have arity : i.operands.length = j.operands.length := by
    rw [length_of_operandsObey obeys, length_of_operandsObey obeys', opcode]
  obtain ⟨operands, privilege⟩ := operandText_inj
    (fun _ => OperandDescriptor.isInner_of_mem_texts)
    (fun _ => OperandDescriptor.isInner_of_mem_texts) (by simpa using arity) rest
  obtain ⟨agreeing, words⟩ := OperandDescriptor.agrees_of_texts
    (fun _ => isNamed_of_mem obeys) (fun _ => isNamed_of_mem obeys') enough enough' operands
  exact ⟨opcode, privilege, agreeing, words⟩

theorem text_of_agrees {i j : Instruction} (opcode : i.opcode = j.opcode)
    (privilege : i.privilege = j.privilege)
    (agreeing : List.Forall₂ OperandDescriptor.Agrees i.operands j.operands)
    (extra : List Word) : i.text extra = j.text extra := by
  rw [← String.toList_inj, toList_text, toList_text, opcode, privilege,
    OperandDescriptor.texts_of_agrees agreeing]

theorem sameByte_of_agrees {i j : Instruction}
    (agreeing : List.Forall₂ OperandDescriptor.Agrees i.operands j.operands) (k : Nat) :
    OperandDescriptor.SameByte (i.operandByte k) (j.operandByte k) := by
  unfold operandByte
  generalize i.operands = ds, j.operands = ds' at agreeing
  induction agreeing generalizing k with
  | nil => exact .inl rfl
  | cons first _ ih =>
    cases k with
    | zero => exact first.sameByte
    | succ k => exact ih k

end Instruction

/-! ## The text of the words an instruction starts -/

namespace Listing

/-- Words that start with an instruction and all its extra words. -/
structure Starts (words : List Word) (w : Word) (i : Instruction) (extra : List Word) : Prop where
  decodes : Instruction.decode w = .ok i
  enough : extra.length = i.extraWords
  begins : w :: extra <+: words

theorem firstText_of_decode {w : Word} {i : Instruction} (decoded : Instruction.decode w = .ok i)
    (rest : List Word) : firstText (w :: rest) = i.text (rest.take i.extraWords) := by
  simp [firstText, first?, lineAt, Line.text, extraCount, decoded]

/-- The text has the mark exactly if the first word is no instruction. -/
theorem startsWith_firstText_iff (w : Word) (rest : List Word) :
    (firstText (w :: rest)).startsWith invalidMark = true ↔
      ∃ e, Instruction.decode w = .error e :=
  (lineAt 0 w rest).startsWith_invalidMark_iff

variable {u v : List Word} {w w' : Word} {i j : Instruction} {extra extra' : List Word}

theorem Starts.firstText_eq (h : Starts u w i extra) : firstText u = i.text extra := by
  obtain ⟨decodes, enough, rest, rfl⟩ := h
  rw [List.cons_append, firstText_of_decode decodes, ← enough, List.take_left]

/-- The text of an instruction says everything about it but the bits that mean nothing.  Two
instructions have the same text exactly if they have the same opcode, privilege level and extra
words and their operands have the same modes and registers.  So their words have the same bytes, up
to the bytes beyond the arity and the register numbers of literals.  And a word that is no
instruction has another text. -/
theorem firstText_unambiguous (first : Starts u w i extra) (second : Starts v w' j extra') :
    (firstText u = firstText v ↔ i.opcode = j.opcode ∧ i.privilege = j.privilege ∧
      List.Forall₂ OperandDescriptor.Agrees i.operands j.operands ∧ extra = extra') ∧
    (firstText u = firstText v → w'.byte0 = w.byte0 ∧ w'.byte1 = w.byte1 ∧
      (0 < i.opcode.arity → OperandDescriptor.SameByte w.byte2 w'.byte2) ∧
      (1 < i.opcode.arity → OperandDescriptor.SameByte w.byte3 w'.byte3)) ∧
    ∀ (bad : Word) (e : DecodeError) (rest : List Word), Instruction.decode bad = .error e →
      firstText u ≠ firstText (bad :: rest) := by
  have told (same : firstText u = firstText v) := by
    rw [first.firstText_eq, second.firstText_eq] at same
    exact Instruction.agrees_of_text (Instruction.obeys_of_decode first.decodes)
      (Instruction.obeys_of_decode second.decodes) first.enough second.enough same
  refine ⟨⟨told, ?_⟩, fun same => ?_, fun bad e rest refused same => ?_⟩
  · rintro ⟨opcode, privilege, agreeing, rfl⟩
    rw [first.firstText_eq, second.firstText_eq]
    exact Instruction.text_of_agrees opcode privilege agreeing extra
  · obtain ⟨opcode, privilege, agreeing, -⟩ := told same
    obtain ⟨code, level, -⟩ := Instruction.bytes_of_decode first.decodes
    obtain ⟨code', level', -⟩ := Instruction.bytes_of_decode second.decodes
    obtain ⟨byte2, byte3⟩ := Instruction.operandByte_of_decode first.decodes
    obtain ⟨byte2', byte3'⟩ := Instruction.operandByte_of_decode second.decodes
    refine ⟨?_, ?_, fun taken => ?_, fun taken => ?_⟩
    · rw [← code, ← code', opcode]
    · rw [← level, ← level', privilege]
    · rw [if_pos taken] at byte2
      rw [← opcode, if_pos taken] at byte2'
      rw [← byte2, ← byte2']
      exact Instruction.sameByte_of_agrees agreeing 0
    · rw [if_pos taken] at byte3
      rw [← opcode, if_pos taken] at byte3'
      rw [← byte3, ← byte3']
      exact Instruction.sameByte_of_agrees agreeing 1
  · have marked := (startsWith_firstText_iff bad rest).mpr ⟨e, refused⟩
    rw [← same, first.firstText_eq, String.startsWith_string_iff] at marked
    exact i.text_not_invalidMark extra marked

/-- Two words of `PUSH 0x7` that differ in bits that mean nothing, and a word that is no
instruction. -/
theorem firstText_unambiguous_push :
    firstText [0x00090050, 7, 1] = firstText [0xAB1F0050, 7] ∧
    firstText [0x00090050, 7, 1] ≠ firstText [0x05] := by
  have first : Starts [0x00090050, 7, 1] 0x00090050 ⟨.push, 0, [⟨.immediate, 9⟩]⟩ [7] :=
    ⟨rfl, rfl, ⟨[1], rfl⟩⟩
  have second : Starts [0xAB1F0050, 7] 0xAB1F0050 ⟨.push, 0, [⟨.immediate, 31⟩]⟩ [7] :=
    ⟨rfl, rfl, ⟨[], rfl⟩⟩
  obtain ⟨same, -, other⟩ := firstText_unambiguous first second
  exact ⟨same.mpr ⟨rfl, rfl, .cons ⟨rfl, nofun⟩ .nil, rfl⟩, other 0x05 (.invalidOpcode 5) [] rfl⟩

end Listing

end WordMachine
