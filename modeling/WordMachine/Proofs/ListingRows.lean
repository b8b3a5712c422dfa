import WordMachine.Proofs.InstructionText

/-!
# A listing read back

A printed listing has a row for each line below its header, and a row has three
or four columns with tabs between.  `rows?` reads the rows off the text, and
`Row.words` the words off a row.  What is read is what was printed
(`rows?_render`, `words_row`), because no column has a tab or a line end in it
(`unbroken_columns`).

The rows show the words that were listed, from the first to the last
(`rows_show_words`).  A row has fewer words than its instruction only at the
end, and then there is a question mark for each word that is missing
(`count_text`).
-/

namespace WordMachine.Listing

/-! ## Rows -/

/-- A line of a printed listing, cut at its tabs. -/
structure Row where
  /-- The address column. -/
  address : List Char
  /-- The column of raw words. -/
  raw : List Char
  /-- The instruction as text. -/
  text : List Char
  /-- The bytes as characters, where there is such a column. -/
  characters : Option (List Char)
deriving DecidableEq, Repr

/-- The row of a printed line, if it has three or four columns. -/
def Row.ofLine? (line : List Char) : Option Row :=
  match line.splitOn '\t' with
  | [address, raw, text] => some ⟨address, raw, text, none⟩
  | [address, raw, text, characters] => some ⟨address, raw, text, some characters⟩
  | _ => none

/-- The words that a row shows: those whose numerals stand in the raw column. -/
def Row.words (r : Row) : List Word :=
  (r.raw.splitOn ' ').filterMap fun numeral =>
    (Text.readNatural? 16 Word.count numeral).map UInt32.ofNat

/-- The rows of a printed listing, which come after the three lines of the header. -/
def rows? (listing : String) : Option (List Row) :=
  ((listing.toList.splitOn '\n').drop 3).dropLast.mapM Row.ofLine?

/-! ## Which words a line has -/

theorem extraWords_le {i : Instruction} (obeys : i.Obeys) : i.extraWords ≤ 2 := by
  refine Nat.le_trans List.countP_le_length ?_
  rw [Instruction.length_of_operandsObey obeys]
  exact i.opcode.arity_le

theorem extraCount_le (w : Word) : extraCount w ≤ 2 := by
  unfold extraCount
  split
  next i decoded => exact extraWords_le (Instruction.obeys_of_decode decoded)
  next => exact Nat.zero_le _

/-- A line stands at the address of its first word, and only the last one has fewer extra words
than its first word calls for. -/
theorem line_of_lines {base : Word} {ws : List Word} {earlier later : List Line} {l : Line}
    (cut : lines base ws = earlier ++ l :: later) :
    l.address = base + UInt32.ofNat (earlier.flatMap Line.words).length ∧
      l.extra.length ≤ extraCount l.word ∧
      (l.extra.length < extraCount l.word → later = []) := by
  fun_induction lines base ws generalizing earlier with
  | case1 => simp at cut
  | case2 address word rest ih =>
    cases earlier with
    | nil =>
      obtain ⟨rfl, rfl⟩ := List.cons_eq_cons.mp cut
      refine ⟨(UInt32.add_zero address).symm, List.length_take_le _ _, fun short => ?_⟩
      have none : rest.drop (extraCount word) = [] := by
        simp only [lineAt, List.length_take] at short
        exact List.drop_eq_nil_of_le (by omega)
      rw [none, lines]
    | cons l' earlier =>
      obtain ⟨rfl, tail⟩ := List.cons_eq_cons.mp cut
      obtain ⟨address_eq, rest_of⟩ := ih tail
      refine ⟨?_, rest_of⟩
      have full : extraCount word ≤ rest.length := by
        refine Nat.le_of_not_lt fun short => ?_
        rw [List.drop_eq_nil_of_le (Nat.le_of_lt short), lines] at tail
        simp at tail
      rw [address_eq, List.flatMap_cons, List.length_append, Line.words, List.length_cons, lineAt,
        List.length_take, Nat.min_eq_left full, UInt32.ofNat_add, UInt32.ofNat_add]
      ac_rfl

/-! ## What stands in the columns of a line -/

/-- Text that is in one column of one line. -/
def Unbroken (text : List Char) : Prop := '\t' ∉ text ∧ '\n' ∉ text

/-- The raw words of a line, in eight digits each. -/
def Line.numerals (l : Line) : List (List Char) :=
  l.words.map fun w => Text.padLeft 8 '0' (Text.hexDigits w.toNat)

/-- The bytes of a line as characters, between bars. -/
def Line.barred (l : Line) : List Char := '|' :: (l.characters.toList ++ ['|'])

/-- The column of raw words, filled up to its width. -/
def Line.rawColumn (l : Line) : List Char :=
  [' '].intercalate l.numerals ++
    List.replicate (rawWidth - ([' '].intercalate l.numerals).length) ' '

/-- The row of a line. -/
def Line.row (l : Line) : Row where
  address := (Text.prefixedHex8 l.address.toNat ++ ":").toList
  raw := l.rawColumn
  text := l.text.toList
  characters := match Instruction.decode l.word with
    | .ok _ => none
    | .error _ => some l.barred

/-- The columns of a row. -/
def Row.columns (r : Row) : List (List Char) := r.address :: r.raw :: r.text :: r.characters.toList

theorem toList_raw (l : Line) :
    (Text.padRight Line.rawWidth
      (" ".intercalate (l.words.map fun w => Text.hex8 w.toNat))).toList = l.rawColumn := by
  have numerals : (" ".intercalate (l.words.map fun w => Text.hex8 w.toNat)).toList =
      [' '].intercalate l.numerals := by
    simp [String.toList_intercalate, Line.numerals, Text.hex8, Function.comp_def]
  rw [Text.padRight, String.toList_append, String.toList_ofList, ← String.length_toList, numerals]
  rfl

/-- A line is printed as the columns of its row, with tabs between. -/
theorem toList_render (l : Line) : l.render.toList = ['\t'].intercalate l.row.columns := by
  have marked := l.startsWith_invalidMark_iff
  unfold Line.render
  cases decoded : Instruction.decode l.word with
  | ok i =>
    rw [if_neg (by simp [marked, decoded])]
    simp [decoded, Row.columns, toList_raw, Line.row, toString, List.intercalate_cons_cons]
  | error e =>
    rw [if_pos (by simp [marked, decoded])]
    simp [decoded, Row.columns, toList_raw, Line.row, Line.barred, toString,
      List.intercalate_cons_cons]

/-! ## No column is broken -/

theorem mem_intercalate {α : Type} {x separator : α} {ls : List (List α)}
    (h : x ∈ [separator].intercalate ls) : x = separator ∨ ∃ l ∈ ls, x ∈ l := by
  induction ls with
  | nil => simp at h
  | cons l ls ih =>
    cases ls with
    | nil => exact .inr ⟨l, by simp, by simpa using h⟩
    | cons l' ls =>
      rw [List.intercalate_cons_cons, List.append_assoc, List.mem_append, List.mem_append,
        List.mem_singleton] at h
      rcases h with here | rfl | later
      · exact .inr ⟨l, by simp, here⟩
      · exact .inl rfl
      · refine (ih later).imp_right ?_
        rintro ⟨l, mem, here⟩
        exact ⟨l, by simp [mem], here⟩

/-- Whether a character can stand in a column of numerals or in the text of a line. -/
def isPlain (c : Char) : Bool := Text.isInner c || [' ', ',', ';'].contains c

theorem isPlain_of_isInner {c : Char} (h : Text.isInner c = true) : isPlain c = true := by
  simp [isPlain, h]

theorem isPlain_of_isAlphanum {c : Char} (h : c.isAlphanum = true) : isPlain c = true :=
  isPlain_of_isInner (Text.isInner_of_isAlphanum h)

theorem unbroken_of_isPlain {text : List Char} (plain : ∀ c ∈ text, isPlain c = true) :
    Unbroken text :=
  ⟨fun h => absurd (plain _ h) (by decide), fun h => absurd (plain _ h) (by decide)⟩

theorem isPlain_of_mem_operandText {ts : List String}
    (inner : ∀ t ∈ ts, ∀ c ∈ t.toList, Text.isInner c = true) {c : Char}
    (h : c ∈ Instruction.operandText ts) : isPlain c = true := by
  cases ts with
  | nil => cases h
  | cons t ts =>
    simp only [Instruction.operandText, Instruction.laterText, List.mem_cons, List.mem_append,
      List.mem_flatMap] at h
    rcases h with rfl | first | ⟨u, mem, rfl | rfl | later⟩
    · decide
    · exact isPlain_of_isInner (inner t (by simp) c first)
    · decide
    · decide
    · exact isPlain_of_isInner (inner u (by simp [mem]) c later)

theorem isPlain_of_mem_noteText {privilege : UInt8} {c : Char}
    (h : c ∈ Instruction.noteText privilege) : isPlain c = true := by
  unfold Instruction.noteText at h
  split at h
  · cases h
  · have h : c ∈ "  ; pl ".toList ++ (toString privilege.toNat).toList := h
    rcases List.mem_append.mp h with fixed | digit
    · exact List.all_eq_true.mp (by decide) c fixed
    · exact isPlain_of_isAlphanum (Text.isAlphanum_of_mem_decimal digit)

theorem isPlain_of_mem_text {i : Instruction} {extra : List Word} {c : Char}
    (h : c ∈ (i.text extra).toList) : isPlain c = true := by
  rw [Instruction.toList_text, List.mem_append, List.mem_append] at h
  rcases h with mnemonic | operands | note
  · exact isPlain_of_isAlphanum (Opcode.isAlphanum_of_mem_mnemonic mnemonic)
  · exact isPlain_of_mem_operandText (fun _ => OperandDescriptor.isInner_of_mem_texts) operands
  · exact isPlain_of_mem_noteText note

theorem unbroken_address (n : Nat) : Unbroken (Text.prefixedHex8 n ++ ":").toList := by
  refine unbroken_of_isPlain fun c h => ?_
  simp only [Text.prefixedHex8, Text.hex8, String.toList_append, String.toList_ofList,
    List.mem_append] at h
  rcases h with (zero | digit) | colon
  · exact List.all_eq_true.mp (by decide) c zero
  · exact isPlain_of_isAlphanum (Text.isAlphanum_of_mem_padLeft digit)
  · exact List.all_eq_true.mp (by decide) c colon

theorem isAlphanum_of_mem_numerals {l : Line} {numeral : List Char} (mem : numeral ∈ l.numerals)
    {c : Char} (h : c ∈ numeral) : c.isAlphanum = true := by
  obtain ⟨w, -, rfl⟩ := List.mem_map.mp mem
  exact Text.isAlphanum_of_mem_padLeft h

theorem unbroken_rawColumn (l : Line) : Unbroken l.rawColumn := by
  refine unbroken_of_isPlain fun c h => ?_
  rcases List.mem_append.mp h with numerals | filled
  · rcases mem_intercalate numerals with rfl | ⟨numeral, mem, digit⟩
    · decide
    · exact isPlain_of_isAlphanum (isAlphanum_of_mem_numerals mem digit)
  · rw [List.eq_of_mem_replicate filled]
    decide

theorem unbroken_text (l : Line) : Unbroken l.text.toList := by
  refine unbroken_of_isPlain fun c h => ?_
  unfold Line.text at h
  split at h
  · exact isPlain_of_mem_text h
  · have h : c ∈ ("INV: 0x" ++ Text.hex l.word.toNat).toList := by
      simpa [Text.prefixedHex, toString] using h
    simp only [Text.hex, String.toList_append, String.toList_ofList, List.mem_append] at h
    rcases h with fixed | digit
    · exact List.all_eq_true.mp (by decide) c fixed
    · exact isPlain_of_isAlphanum (Text.isAlphanum_of_mem_hexDigits digit)

private theorem visible_byte_all : ∀ n : Fin 256,
    let b := UInt8.ofFin n
    let c := if 0x20 ≤ b ∧ b < 0x7F then Char.ofNat b.toNat else '.'
    c ≠ '\t' ∧ c ≠ '\n' := by
  decide +kernel

theorem unbroken_barred (l : Line) : Unbroken l.barred := by
  suffices h : ∀ c ∈ l.barred, c ≠ '\t' ∧ c ≠ '\n' from
    ⟨fun tab => (h _ tab).1 rfl, fun line_end => (h _ line_end).2 rfl⟩
  intro c h
  simp only [Line.barred, Line.characters, String.toList_ofList, List.mem_cons, List.mem_append,
    List.mem_flatMap, List.mem_map, List.not_mem_nil, or_false] at h
  rcases h with rfl | ⟨w, -, b, -, rfl⟩ | rfl
  · decide
  · simpa using visible_byte_all b.toFin
  · decide

theorem unbroken_columns (l : Line) : ∀ column ∈ l.row.columns, Unbroken column := by
  intro column mem
  simp only [Row.columns, List.mem_cons, Option.mem_toList, Line.row] at mem
  rcases mem with rfl | rfl | rfl | bytes
  · exact unbroken_address _
  · exact unbroken_rawColumn l
  · exact unbroken_text l
  · split at bytes
    · cases bytes
    · cases bytes
      exact unbroken_barred l

/-! ## Reading the rows -/

theorem Row.ofLine?_columns (r : Row) (unbroken : ∀ column ∈ r.columns, Unbroken column) :
    Row.ofLine? (['\t'].intercalate r.columns) = some r := by
  have cut : (['\t'].intercalate r.columns).splitOn '\t' = r.columns :=
    List.splitOn_intercalate _ (fun column mem => (unbroken column mem).1) (by simp [columns])
  obtain ⟨address, raw, text, characters⟩ := r
  rw [ofLine?, cut]
  cases characters <;> rfl

/-- Blanks at the end are empty pieces. -/
theorem splitOn_append_blanks (text : List Char) (k : Nat) :
    (text ++ List.replicate k ' ').splitOn ' ' = text.splitOn ' ' ++ List.replicate k [] := by
  induction k with
  | zero => simp
  | succ k ih =>
    rw [List.replicate_succ', ← List.append_assoc, List.splitOn_append_cons_self, ih]
    simp [List.replicate_succ']

/-- The numerals of a line are read as its words. -/
theorem filterMap_numerals (l : Line) :
    l.numerals.filterMap (fun numeral =>
      (Text.readNatural? 16 Word.count numeral).map UInt32.ofNat) = l.words := by
  rw [Line.numerals, List.filterMap_map]
  refine (List.filterMap_congr fun w _ => ?_).trans List.filterMap_some
  have small : w.toNat < Word.count := w.toNat_lt
  rw [Function.comp_apply, Text.readNatural?_padLeft small, Option.map_some, UInt32.ofNat_toNat]

/-- The raw words of a row are those of its line. -/
theorem words_row (l : Line) : l.row.words = l.words := by
  have cut : ([' '].intercalate l.numerals).splitOn ' ' = l.numerals := by
    refine List.splitOn_intercalate _ (fun numeral mem h => ?_) (by simp [Line.numerals, Line.words])
    exact absurd (isAlphanum_of_mem_numerals mem h) (by decide)
  show (l.rawColumn.splitOn ' ').filterMap _ = _
  -- The blanks that fill the column up are no numerals.
  rw [Line.rawColumn, splitOn_append_blanks, cut, List.filterMap_append, filterMap_numerals,
    List.filterMap_replicate]
  exact List.append_nil _

theorem ofLine?_render (l : Line) : Row.ofLine? l.render.toList = some l.row := by
  rw [toList_render]
  exact l.row.ofLine?_columns (unbroken_columns l)

theorem splitOn_rendered (ls : List Line) :
    (ls.flatMap fun l => l.render.toList ++ ['\n']).splitOn '\n' =
      ls.map (·.render.toList) ++ [[]] := by
  induction ls with
  | nil => rfl
  | cons l ls ih =>
    have whole : '\n' ∉ l.render.toList := by
      rw [toList_render]
      intro h
      rcases mem_intercalate h with tab | ⟨column, mem, inside⟩
      · exact absurd tab (by decide)
      · exact (unbroken_columns l column mem).2 inside
    rw [List.flatMap_cons, List.append_assoc, List.singleton_append,
      List.splitOn_append_cons_self_of_not_mem whole, ih]
    rfl

theorem mapM_ofLine? (ls : List Line) :
    (ls.map (·.render.toList)).mapM Row.ofLine? = some (ls.map (·.row)) := by
  induction ls with
  | nil => rfl
  | cons l ls ih => simp [List.mapM_cons, ofLine?_render, ih]

/-- The rows of a printed listing are those of its lines. -/
theorem rows?_render (base : Word) (ws : List Word) :
    rows? (render base ws) = some ((lines base ws).map (·.row)) := by
  have above : header.toList = "; VM32 Disassembly".toList ++
      '\n' :: ("; -----------------".toList ++ '\n' :: ([] ++ ['\n'])) := by decide
  have below : (String.join ((lines base ws).map fun l => l.render ++ "\n")).toList =
      (lines base ws).flatMap fun l => l.render.toList ++ ['\n'] := by
    simp [String.toList_join, List.flatMap_map]
  have cut : (render base ws).toList.splitOn '\n' =
      "; VM32 Disassembly".toList :: "; -----------------".toList :: [] ::
        ((lines base ws).map (·.render.toList) ++ [[]]) := by
    rw [render, String.toList_append, above, below]
    simp only [List.append_assoc, List.cons_append]
    rw [List.splitOn_append_cons_self_of_not_mem (by decide),
      List.splitOn_append_cons_self_of_not_mem (by decide),
      List.splitOn_append_cons_self_of_not_mem (by decide), List.nil_append, splitOn_rendered]
  rw [rows?, cut, List.drop_succ_cons, List.drop_succ_cons, List.drop_succ_cons, List.drop_zero,
    List.dropLast_concat, mapM_ofLine?]

/-! ## Operands that are cut off -/

/-- Letters and digits are no question marks. -/
theorem count_of_isAlphanum {text : List Char} (each : ∀ c ∈ text, c.isAlphanum = true) :
    text.count '?' = 0 :=
  List.count_eq_zero.mpr fun h => absurd (each _ h) (by decide)

theorem count_literalText (extra : Option Word) :
    (OperandDescriptor.literalText extra).count '?' = if extra = none then 1 else 0 := by
  cases extra with
  | none => rfl
  | some w =>
    have digits : (Text.hexDigits w.toNat).count '?' = 0 :=
      count_of_isAlphanum fun _ => Text.isAlphanum_of_mem_hexDigits
    simp [OperandDescriptor.literalText, digits]

/-- An operand shows a question mark where it takes an extra word and has none. -/
theorem count_operand {d : OperandDescriptor} (extra : Option Word) :
    (d.text extra).toList.count '?' =
      if d.kind.hasExtraWord = true ∧ extra = none then 1 else 0 := by
  have register (index : Nat) : (OperandDescriptor.registerText index).count '?' = 0 :=
    count_of_isAlphanum fun _ => OperandDescriptor.isAlphanum_of_mem_registerText
  have base : d.baseText.count '?' = 0 :=
    count_of_isAlphanum fun _ => OperandDescriptor.isAlphanum_of_mem_baseText
  rw [OperandDescriptor.toList_text]
  cases d.kind with
  | immediate => simpa [OperandKind.hasExtraWord] using count_literalText extra
  | register => simp [OperandKind.hasExtraWord, register]
  | singleDs | singleEs | doubleDs | doubleEs =>
    simp [OperandDescriptor.memoryText, OperandKind.hasExtraWord, List.count_append, base,
      count_literalText]
  | control =>
    cases ControlRegister.ofIndex? d.register with
    | none => simp [OperandKind.hasExtraWord, register]
    | some r =>
      have name := count_of_isAlphanum fun _ =>
        OperandDescriptor.isAlphanum_of_mem_name (r := r)
      simp [OperandKind.hasExtraWord, name]

/-- There is one question mark for each extra word that is missing. -/
theorem count_texts {ds : List OperandDescriptor} {extra : List Word}
    (few : extra.length ≤ ds.countP (·.kind.hasExtraWord)) :
    ((OperandDescriptor.texts ds extra).map (·.toList.count '?')).sum =
      ds.countP (·.kind.hasExtraWord) - extra.length := by
  induction ds generalizing extra with
  | nil => simp [OperandDescriptor.texts]
  | cons d ds ih =>
    rw [OperandDescriptor.texts_cons, List.map_cons, List.sum_cons, count_operand]
    cases takes : d.kind.hasExtraWord with
    | false =>
      simp only [List.countP_cons, takes] at few ⊢
      simpa using ih few
    | true =>
      simp only [List.countP_cons, takes, if_true] at few ⊢
      cases extra with
      | nil =>
        simp [ih]
        omega
      | cons w extra =>
        have few : extra.length ≤ ds.countP (·.kind.hasExtraWord) := by simpa using few
        simp [ih few]

theorem count_text {i : Instruction} {extra : List Word} (few : extra.length ≤ i.extraWords) :
    (i.text extra).toList.count '?' = i.extraWords - extra.length := by
  have mnemonic : i.opcode.mnemonic.toList.count '?' = 0 :=
    count_of_isAlphanum fun _ => Opcode.isAlphanum_of_mem_mnemonic
  have note : (Instruction.noteText i.privilege).count '?' = 0 := by
    have digits : (toString i.privilege.toNat).toList.count '?' = 0 :=
      count_of_isAlphanum fun _ => Text.isAlphanum_of_mem_decimal
    unfold Instruction.noteText
    split
    · rfl
    · simpa using digits
  have operands (ts : List String) :
      (Instruction.operandText ts).count '?' = (ts.map (·.toList.count '?')).sum := by
    cases ts with
    | nil => rfl
    | cons t ts =>
      simp [Instruction.operandText, Instruction.laterText, List.count_flatMap,
        Function.comp_def]
  rw [Instruction.toList_text, List.count_append, List.count_append, mnemonic, note, operands,
    count_texts few, Nat.zero_add, Nat.add_zero]
  rfl

/-! ## What the rows show -/

/-- A row shows an instruction and its extra words, or a word that is no instruction.  Extra words
that the instruction calls for and does not have are shown as question marks. -/
structure Row.Shows (r : Row) (l : Line) : Prop where
  address : r.address = (Text.prefixedHex8 l.address.toNat ++ ":").toList
  words : r.words = l.words
  length : 1 ≤ r.words.length ∧ r.words.length ≤ 3
  instruction : ∀ i, Instruction.decode l.word = .ok i →
    r.text = (i.text l.extra).toList ∧ r.words.length ≤ i.length ∧
      r.text.count '?' = i.length - r.words.length
  invalid : ∀ e, Instruction.decode l.word = .error e →
    r.words = [l.word] ∧ r.text = ("INV: " ++ Text.prefixedHex l.word.toNat).toList ∧
      r.characters = some l.barred
  marked_iff : invalidMark.toList <+: r.text ↔ ∃ e, Instruction.decode l.word = .error e
  barred_iff : r.characters.isSome = true ↔ ∃ e, Instruction.decode l.word = .error e

theorem Line.shows_row {l : Line} (few : l.extra.length ≤ extraCount l.word) : l.row.Shows l := by
  have words := words_row l
  refine ⟨rfl, words, ?_, fun i decoded => ?_, fun e refused => ?_, ?_, ?_⟩
  · have most := extraCount_le l.word
    rw [words, Line.words, List.length_cons]
    omega
  · have few : l.extra.length ≤ i.extraWords := by simpa [extraCount, decoded] using few
    have text : l.row.text = (i.text l.extra).toList := by
      simp only [Line.row, Line.text, decoded]
    rw [words, text, count_text few, Line.words, List.length_cons, Instruction.length]
    exact ⟨rfl, by omega, by omega⟩
  · have none : l.extra = [] := by simpa [extraCount, refused] using few
    rw [words, Line.words, none]
    refine ⟨rfl, ?_, ?_⟩
    · simp only [Line.row, Line.text, refused]
      rfl
    · simp only [Line.row, refused]
  · exact String.startsWith_string_iff.symm.trans l.startsWith_invalidMark_iff
  · simp only [Line.row]
    cases Instruction.decode l.word <;> simp

/-- A listing loses nothing.  Its rows, which can be read off the printed text, show the words it
was made from, each word once and in order.  A row stands at the address of its first word.  It has
fewer words than its instruction only if nothing comes after it. -/
theorem rows_show_words (base : Word) (ws : List Word) :
    header.toList <+: (render base ws).toList ∧
    ∃ rs : List Row, rows? (render base ws) = some rs ∧ rs.flatMap Row.words = ws ∧
      ∀ earlier r later, rs = earlier ++ r :: later → ∃ w extra,
        r.Shows ⟨base + UInt32.ofNat (earlier.flatMap Row.words).length, w, extra⟩ ∧
        ∀ i, Instruction.decode w = .ok i → r.words.length < i.length → later = [] := by
  have words (ls : List Line) : (ls.map (·.row)).flatMap Row.words = ls.flatMap Line.words := by
    simp only [List.flatMap_map, words_row]
  refine ⟨?_, _, rows?_render base ws, ?_, fun earlier r later placed => ?_⟩
  · rw [render, String.toList_append]
    exact List.prefix_append ..
  · rw [words, words_lines]
  · obtain ⟨before, after, cut, rfl, shown⟩ := List.map_eq_append_iff.mp placed
    obtain ⟨l, rest, rfl, rfl, rfl⟩ := List.map_eq_cons_iff.mp shown
    obtain ⟨address, few, last⟩ := line_of_lines cut
    refine ⟨l.word, l.extra, ?_, fun i decoded short => ?_⟩
    · rw [words, ← address]
      exact Line.shows_row few
    · rw [words_row, Line.words, List.length_cons, Instruction.length] at short
      rw [last (by simp only [extraCount, decoded]; omega), List.map_nil]

/-- `PUSH` without its literal after a word that is no instruction, across the end of the address
space. -/
example : rows? (render 0xFFFFFFFF [0x48454C05, 0x00090050]) = some
    [⟨"0xffffffff:".toList, "48454c05                   ".toList, "INV: 0x48454c05".toList,
      some "|.LEH|".toList⟩,
     ⟨"0x00000000:".toList, "00090050                   ".toList, "PUSH ?".toList, none⟩] := by
  decide +kernel

end WordMachine.Listing
