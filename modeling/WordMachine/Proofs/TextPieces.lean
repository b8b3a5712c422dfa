import WordMachine.Text.Utf8

/-!
# Text read in pieces

Bytes that arrive in pieces may be read piece by piece.  A cut `Splits` a
character if the bytes before it leave one unfinished and the byte after it goes
on with that one.  Where no cut does, the pieces are the text (`decodeFrom_append`).
Where one does, each side has a replacement character, and the text read in pieces
is longer than the whole (`length_append_of_splits`).  Further cuts never make it
shorter, so reading in pieces is reading the whole exactly if no cut splits a
character (`join_decode_iff`).
-/

namespace WordMachine.Text.Utf8

variable {s : Started} {b : UInt8} {bytes before after : List UInt8} {pieces : List (List UInt8)}

/-! ## Unfinished characters -/

/-- The characters that bytes complete, and the character they leave unfinished. -/
def advanceAll : Option Started → List UInt8 → List Char × Option Started
  | pending, [] => ([], pending)
  | pending, b :: bytes =>
    ((advance pending b).1 ++ (advanceAll (advance pending b).2 bytes).1,
      (advanceAll (advance pending b).2 bytes).2)

/-- The character that bytes leave unfinished. -/
def unfinished (bytes : List UInt8) : Option Started := (advanceAll none bytes).2

theorem decodeFrom_advanceAll (pending : Option Started) (before after : List UInt8) :
    decodeFrom pending (before ++ after) =
      (advanceAll pending before).1 ++ decodeFrom (advanceAll pending before).2 after := by
  induction before generalizing pending with
  | nil => rfl
  | cons b before ih => simp only [List.cons_append, decodeFrom, advanceAll, ih, List.append_assoc]

/-- Only the bytes that follow the first one of a character go on with it. -/
structure Started.Bounded (s : Started) : Prop where
  low : 0x80 ≤ s.low
  high : s.high ≤ 0xBF

theorem bounded_usual {bits more : Nat} : Started.Bounded { bits, more } :=
  ⟨UInt8.le_refl _, UInt8.le_refl _⟩

/-- The bounds for the byte after the first one, which are stricter than usual after one value. -/
theorem bounded_strict {bits more : Nat} {c c' : Prop} [Decidable c] [Decidable c']
    {low high : UInt8} (least : 0x80 ≤ low) (greatest : high ≤ 0xBF) :
    Started.Bounded
      { bits, more, low := if c then low else 0x80, high := if c' then high else 0xBF } := by
  constructor
  · show 0x80 ≤ if c then low else 0x80
    split
    · exact least
    · exact UInt8.le_refl _
  · show (if c' then high else 0xBF) ≤ 0xBF
    split
    · exact greatest
    · exact UInt8.le_refl _

theorem bounded_start (started : (start b).2 = some s) : s.Bounded := by
  unfold start at started
  split at started
  · cases started
  split at started
  · cases started
  split at started
  · obtain rfl := Option.some.inj started
    exact bounded_usual
  split at started
  · obtain rfl := Option.some.inj started
    exact bounded_strict (by decide) (by decide)
  split at started
  · obtain rfl := Option.some.inj started
    exact bounded_strict (by decide) (by decide)
  · cases started

theorem bounded_advance {pending : Option Started} (started : (advance pending b).2 = some s) :
    s.Bounded := by
  cases pending with
  | none => exact bounded_start started
  | some p =>
    by_cases continues : p.low ≤ b ∧ b ≤ p.high
    · simp only [advance, if_pos continues] at started
      cases more : p.more with
      | zero => simp [more] at started
      | succ n =>
        simp only [more] at started
        obtain rfl := Option.some.inj started
        exact bounded_usual
    · simp only [advance, if_neg continues] at started
      exact bounded_start started

theorem bounded_advanceAll {pending : Option Started} (bounded : ∀ s, pending = some s → s.Bounded)
    (bytes : List UInt8) (left : (advanceAll pending bytes).2 = some s) : s.Bounded := by
  induction bytes generalizing pending with
  | nil => exact bounded s left
  | cons b bytes ih => exact ih (fun _ started => bounded_advance started) left

theorem bounded_unfinished (left : unfinished bytes = some s) : s.Bounded :=
  bounded_advanceAll (fun _ started => by cases started) bytes left

/-! ## Single cuts -/

/-- Whether a cut between bytes lies inside a character: the bytes before it leave one unfinished,
and the byte after it goes on with that one. -/
def Splits (before after : List UInt8) : Prop :=
  ∃ s b rest, unfinished before = some s ∧ after = b :: rest ∧ s.low ≤ b ∧ b ≤ s.high

theorem Splits.append (splits : Splits before after) (bytes : List UInt8) :
    Splits before (after ++ bytes) := by
  obtain ⟨s, b, rest, left, rfl, continues⟩ := splits
  exact ⟨s, b, rest ++ bytes, left, rfl, continues⟩

/-- A byte that does not go on with a character is read afresh. -/
theorem decodeFrom_of_breaks (breaks : ¬(s.low ≤ b ∧ b ≤ s.high)) (bytes : List UInt8) :
    decodeFrom (some s) (b :: bytes) = replacement :: decodeFrom none (b :: bytes) := by
  simp only [decodeFrom, advance, if_neg breaks, List.cons_append]

/-- A byte that goes on with a character starts none. -/
theorem decodeFrom_of_continues (bounded : s.Bounded) (low : s.low ≤ b) (high : b ≤ s.high)
    (bytes : List UInt8) : decodeFrom none (b :: bytes) = replacement :: decodeFrom none bytes := by
  have least : ¬b < 0x80 := UInt8.not_lt.mpr (UInt8.le_trans bounded.low low)
  have greatest : b < 0xC2 :=
    UInt8.lt_of_le_of_lt (UInt8.le_trans high bounded.high) (by decide)
  simp only [decodeFrom, advance, start, if_neg least, if_pos greatest, List.cons_append,
    List.nil_append]

/-- Going on with a character gives at most one character before the bytes that follow. -/
theorem length_of_continues (low : s.low ≤ b) (high : b ≤ s.high)
    (rest : ∀ s : Started, s.Bounded →
      (decodeFrom (some s) bytes).length ≤ (decodeFrom none bytes).length + 1) :
    (decodeFrom (some s) (b :: bytes)).length ≤ (decodeFrom none bytes).length + 1 := by
  simp only [decodeFrom, advance, if_pos (And.intro low high)]
  cases s.more with
  | zero => simp
  | succ more => exact rest _ bounded_usual

/-- An unfinished character adds at most one character. -/
theorem length_decodeFrom_le (bounded : s.Bounded) (bytes : List UInt8) :
    (decodeFrom (some s) bytes).length ≤ (decodeFrom none bytes).length + 1 := by
  induction bytes generalizing s with
  | nil => exact Nat.le_refl 1
  | cons b bytes ih =>
    by_cases continues : s.low ≤ b ∧ b ≤ s.high
    · have less := length_of_continues continues.1 continues.2 fun s bounded => ih (s := s) bounded
      rw [decodeFrom_of_continues bounded continues.1 continues.2]
      exact Nat.le_succ_of_le less
    · rw [decodeFrom_of_breaks continues]
      exact Nat.le_refl _

/-- What the bytes before a cut come to by themselves. -/
theorem decodeFrom_before (before : List UInt8) :
    decodeFrom none before = (advanceAll none before).1 ++ decodeFrom (unfinished before) [] := by
  have whole := decodeFrom_advanceAll none before []
  rwa [List.append_nil] at whole

/-- A cut between characters can be read on both sides. -/
theorem decodeFrom_append (whole : ¬Splits before after) :
    decodeFrom none (before ++ after) = decodeFrom none before ++ decodeFrom none after := by
  rw [decodeFrom_advanceAll, decodeFrom_before, List.append_assoc]
  congr 1
  show decodeFrom (unfinished before) after = _
  cases left : unfinished before with
  | none => rfl
  | some s =>
    cases after with
    | nil => rfl
    | cons b after =>
      exact decodeFrom_of_breaks (fun continues =>
        whole ⟨s, b, after, left, rfl, continues⟩) after

/-- A cut inside a character makes the text longer. -/
theorem length_append_of_splits (splits : Splits before after) :
    (decodeFrom none (before ++ after)).length <
      (decodeFrom none before).length + (decodeFrom none after).length := by
  obtain ⟨s, b, rest, left, rfl, low, high⟩ := splits
  have bounded := bounded_unfinished left
  have less : (decodeFrom (some s) (b :: rest)).length ≤ (decodeFrom none rest).length + 1 :=
    length_of_continues low high fun _ bounded => length_decodeFrom_le bounded rest
  have split := decodeFrom_before before
  rw [left] at split
  rw [decodeFrom_advanceAll, split, decodeFrom_of_continues bounded low high,
    show (advanceAll none before).2 = some s from left]
  have single : (decodeFrom (some s) []).length = 1 := rfl
  rw [List.length_append, List.length_append, List.length_cons, single]
  omega

theorem length_append_le (before after : List UInt8) :
    (decodeFrom none (before ++ after)).length ≤
      (decodeFrom none before).length + (decodeFrom none after).length := by
  by_cases splits : Splits before after
  · exact Nat.le_of_lt (length_append_of_splits splits)
  · exact Nat.le_of_eq (by rw [decodeFrom_append splits, List.length_append])

/-! ## Pieces -/

/-- Whether no character is cut by reading bytes in pieces. -/
def KeepsCharacters (pieces : List (List UInt8)) : Prop :=
  ∀ before after, pieces = before ++ after → ¬Splits before.flatten after.flatten

theorem join_decode (pieces : List (List UInt8)) :
    String.join (pieces.map decode) = String.ofList (pieces.flatMap (decodeFrom none)) := by
  induction pieces with
  | nil => rfl
  | cons piece pieces ih =>
    rw [List.map_cons, String.join_cons, ih, List.flatMap_cons, String.ofList_append]
    rfl

/-- Reading in pieces never makes a text shorter. -/
theorem length_flatten_le (pieces : List (List UInt8)) :
    (decodeFrom none pieces.flatten).length ≤ (pieces.flatMap (decodeFrom none)).length := by
  induction pieces with
  | nil => exact Nat.le_refl 0
  | cons piece pieces ih =>
    have first := length_append_le piece pieces.flatten
    rw [List.flatten_cons, List.flatMap_cons, List.length_append]
    omega

/-- The bytes read so far can be taken as one piece. -/
theorem decodeFrom_pieces (bytes : List UInt8)
    (whole : ∀ before after, pieces = before ++ after →
      ¬Splits (bytes ++ before.flatten) after.flatten) :
    decodeFrom none (bytes ++ pieces.flatten) =
      decodeFrom none bytes ++ pieces.flatMap (decodeFrom none) := by
  induction pieces generalizing bytes with
  | nil => simp
  | cons piece pieces ih =>
    have first : ¬Splits bytes piece := by
      intro splits
      have none_before := whole [] (piece :: pieces) rfl
      rw [List.flatten_nil, List.append_nil] at none_before
      exact none_before (splits.append pieces.flatten)
    have rest := ih (bytes ++ piece) fun before after same => by
      have moved := whole (piece :: before) after (by rw [same]; rfl)
      rwa [List.flatten_cons, ← List.append_assoc] at moved
    rw [List.flatten_cons, ← List.append_assoc, rest, decodeFrom_append first, List.flatMap_cons,
      List.append_assoc]

/-- Reading in pieces is reading the whole exactly if no cut lies inside a character. -/
theorem join_decode_iff (pieces : List (List UInt8)) :
    String.join (pieces.map decode) = decode pieces.flatten ↔ KeepsCharacters pieces := by
  rw [join_decode, decode, String.ofList_inj]
  constructor
  · rintro same before after rfl splits
    have longer := length_append_of_splits splits
    have left := length_flatten_le before
    have right := length_flatten_le after
    have lengths := congrArg List.length same
    rw [List.flatMap_append, List.flatten_append, List.length_append] at lengths
    omega
  · intro whole
    exact (decodeFrom_pieces [] whole).symm

/-! ## Single bytes -/

theorem unfinished_of_ascii (ascii : ∀ b ∈ bytes, b < 0x80) : unfinished bytes = none := by
  unfold unfinished
  induction bytes with
  | nil => rfl
  | cons b bytes ih =>
    obtain ⟨first, rest⟩ := List.forall_mem_cons.mp ascii
    simp only [advanceAll, advance, start, if_pos first]
    exact ih rest

/-- No cut splits a character of plain text. -/
theorem keepsCharacters_of_ascii (ascii : ∀ b ∈ pieces.flatten, b < 0x80) :
    KeepsCharacters pieces := by
  rintro before after rfl ⟨s, b, rest, left, -⟩
  have none_left : unfinished before.flatten = none := unfinished_of_ascii fun b mem =>
    ascii b (by rw [List.flatten_append]; exact List.mem_append_left _ mem)
  cases none_left.symm.trans left

/-- The bytes of a character of more than one byte are no text by themselves. -/
example : ¬KeepsCharacters [[0xC3], [0xA9]] := fun keeps =>
  keeps [[0xC3]] [[0xA9]] rfl
    ⟨{ bits := 3, more := 0 }, 0xA9, [], by decide, rfl, by decide, by decide⟩

end WordMachine.Text.Utf8
