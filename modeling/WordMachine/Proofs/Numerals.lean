import Mathlib.Data.String.Basic
import Mathlib.Tactic.IntervalCases
import WordMachine.Text.Numeral

/-!
# Numerals are read as they were written

A hexadecimal numeral is read back as its number (`readNatural?_hexDigits`), also
if it was filled up with zeros, so no two numbers have the same numeral.  All
characters of a numeral, decimal or hexadecimal, are digits or letters.
-/

namespace WordMachine.Text

variable {base bound m n : Nat}

/-! ## Digits -/

theorem digitValue?_digitChar (h : n < 16) : digitValue? (Nat.digitChar n) = some n := by
  interval_cases n <;> decide

theorem isAlphanum_digitChar (h : n < 16) : (Nat.digitChar n).isAlphanum = true := by
  interval_cases n <;> decide

theorem hexDigits_ne_nil (n : Nat) : hexDigits n ≠ [] := by
  unfold hexDigits
  split <;> simp

/-- A digit of a hexadecimal numeral is the digit of a number below sixteen. -/
theorem exists_digit_of_mem_hexDigits {c : Char} (h : c ∈ hexDigits n) :
    ∃ d < 16, c = Nat.digitChar d := by
  fun_induction hexDigits n with
  | case1 n small => exact ⟨n, small, List.mem_singleton.mp h⟩
  | case2 n large ih =>
    rcases List.mem_append.mp h with high | low
    · exact ih high
    · exact ⟨n % 16, Nat.mod_lt _ (by decide), List.mem_singleton.mp low⟩

theorem isAlphanum_of_mem_hexDigits {c : Char} (h : c ∈ hexDigits n) : c.isAlphanum = true := by
  obtain ⟨d, small, rfl⟩ := exists_digit_of_mem_hexDigits h
  exact isAlphanum_digitChar small

theorem isAlphanum_of_mem_padLeft {width : Nat} {c : Char}
    (h : c ∈ padLeft width '0' (hexDigits n)) : c.isAlphanum = true := by
  rcases List.mem_append.mp h with filled | written
  · rw [List.eq_of_mem_replicate filled]
    decide
  · exact isAlphanum_of_mem_hexDigits written

theorem isAlphanum_of_mem_decimal {c : Char} (h : c ∈ (toString n).toList) :
    c.isAlphanum = true := by
  rw [Nat.toString_eq_ofList_toDigits, String.toList_ofList] at h
  have digit := Nat.isDigit_of_mem_toDigits (by decide) (by decide) h
  simp [Char.isAlphanum, digit]

theorem decimal_inj (same : (toString m).toList = (toString n).toList) : m = n := by
  simp only [Nat.toString_eq_ofList_toDigits, String.toList_ofList] at same
  rw [← Nat.ofDigitChars_ten_toDigits (n := m), same, Nat.ofDigitChars_ten_toDigits]

/-! ## Reading -/

theorem readDigits?_append (base bound acc : Nat) (cs ds : List Char) :
    readDigits? base bound acc (cs ++ ds) =
      (readDigits? base bound acc cs).bind (readDigits? base bound · ds) := by
  induction cs generalizing acc with
  | nil => rfl
  | cons c cs ih =>
    simp only [List.cons_append, readDigits?]
    cases digitValue? c with
    | none => rfl
    | some d =>
      by_cases fits : d < base ∧ acc * base + d < bound
      · simp [fits, ih]
      · simp [fits]

theorem readDigits?_digit (acc : Nat) {d : Nat} (h : d < 16) (fits : acc * 16 + d < bound) :
    readDigits? 16 bound acc [Nat.digitChar d] = some (acc * 16 + d) := by
  simp [readDigits?, digitValue?_digitChar h, h, fits]

theorem readDigits?_hexDigits (small : n < bound) :
    readDigits? 16 bound 0 (hexDigits n) = some n := by
  fun_induction hexDigits n with
  | case1 n digit => simpa using readDigits?_digit 0 digit (by omega)
  | case2 n large ih =>
    have whole : n / 16 * 16 + n % 16 = n := Nat.div_add_mod' n 16
    rw [readDigits?_append, ih (by omega), Option.bind_some,
      readDigits?_digit _ (Nat.mod_lt _ (by decide)) (by omega), whole]

/-- Zeros in front change nothing. -/
theorem readDigits?_zeros (positive : 0 < bound) (k : Nat) (cs : List Char) :
    readDigits? 16 bound 0 (List.replicate k '0' ++ cs) = readDigits? 16 bound 0 cs := by
  induction k with
  | zero => rfl
  | succ k ih =>
    have zero : readDigits? 16 bound 0 ['0'] = some 0 :=
      readDigits?_digit 0 (d := 0) (by decide) positive
    rw [List.replicate_succ, List.cons_append, ← List.singleton_append, readDigits?_append, zero,
      Option.bind_some, ih]

/-- Characters that begin with a digit have no sign in front. -/
theorem readNatural?_of_digit {c : Char} (h : c.isAlphanum = true) (cs : List Char) :
    readNatural? base bound (c :: cs) = readDigits? base bound 0 (c :: cs) := by
  have unsigned : c ≠ '+' := by
    rintro rfl
    exact absurd h (by decide)
  unfold readNatural?
  split
  next digits eq => exact absurd (List.cons_eq_cons.mp eq).1 unsigned
  next => simp

/-- A hexadecimal numeral is read back, however far it is filled up with zeros. -/
theorem readNatural?_padLeft (small : n < bound) (width : Nat) :
    readNatural? 16 bound (padLeft width '0' (hexDigits n)) = some n := by
  have positive : 0 < bound := by omega
  have reads : readDigits? 16 bound 0 (padLeft width '0' (hexDigits n)) = some n := by
    rw [padLeft, readDigits?_zeros positive, readDigits?_hexDigits small]
  cases shape : padLeft width '0' (hexDigits n) with
  | nil =>
    simp only [padLeft, List.append_eq_nil_iff] at shape
    exact absurd shape.2 (hexDigits_ne_nil n)
  | cons c cs =>
    have first : c ∈ padLeft width '0' (hexDigits n) := by simp [shape]
    rw [readNatural?_of_digit (isAlphanum_of_mem_padLeft first), ← shape, reads]

theorem hexDigits_inj (h : hexDigits m = hexDigits n) : m = n := by
  have left : readDigits? 16 (m + n + 1) 0 (hexDigits m) = some m :=
    readDigits?_hexDigits (by omega)
  have right : readDigits? 16 (m + n + 1) 0 (hexDigits n) = some n :=
    readDigits?_hexDigits (by omega)
  rw [h, right] at left
  exact (Option.some.inj left).symm

end WordMachine.Text
