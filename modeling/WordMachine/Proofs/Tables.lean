import WordMachine.Descriptor.Table
import WordMachine.Proofs.Memory

/-!
# Tables in memory

`Memory.Listed` says which rows lie in memory from an address on.  It has one
rule for the terminator and one for a row before it.  Reading a table gives the
rows that are listed (`rows_of_listed`), and it succeeds with no others
(`listed_of_rows`).

The facts about guest tables follow by induction on the listing.  A context of
a table is what lies in its row (`eq_ofRow_of_guestTable`), and a table keeps
its contexts as long as its words stay (`guestTable_congr`).  A table in which
one row is overwritten is still a table, perhaps a shorter one, since the new
row may be a terminator.  If it is one, the rows before it are the table
(`guestTable_take`), and if it is none, the rows after it stay as well
(`guestTable_set`).  The first row stays in either case, if it is not the one
overwritten (`guestTable_overwrite`).

A guest table cannot be read only if it runs past the last address
(`guestTable_eq_error`).  A segment table may have a row with a defect instead
(`segmentTable_eq_error`).
-/

namespace WordMachine.Memory

variable {m n : Memory} {width address : Nat} {rows : List (Vector Word width)}

/-! ## Rows -/

theorem row_congr (fits : address + width ≤ Word.count)
    (same : ∀ a : Word, address ≤ a.toNat → a.toNat < address + width → m.get a = n.get a) :
    m.row width address = n.row width address := by
  ext i inside
  simp only [row, Vector.getElem_ofFn]
  have here : (UInt32.ofNat (address + i)).toNat = address + i :=
    UInt32.toNat_ofNat_of_lt' (show address + i < Word.count by omega)
  rw [same _ (by omega) (by omega)]

/-- Words placed as a row are the row there. -/
theorem row_place (m : Memory) (fits : address + width ≤ Word.count) (row : Vector Word width) :
    (m.place address row.toList).row width address = row := by
  ext i inside
  have words : row.toList.length = width := Vector.length_toList
  have placed : (m.place address row.toList).cell? (UInt32.ofNat (address + i)) = some row[i] := by
    rw [cell?_place (by rwa [words]) (by rwa [words])]
    simp
  simp only [Memory.row, Vector.getElem_ofFn, get_eq_cell?, placed, Option.getD_some]

theorem row_succ (m : Memory) (width address : Nat) :
    m.row (width + 1) address =
      (m.row width address).push (m.get (UInt32.ofNat (address + width))) := by
  ext i inside
  simp only [row, Vector.getElem_ofFn, Vector.getElem_push]
  split
  next => rfl
  next last =>
    obtain rfl : i = width := by omega
    rfl

/-! ## Reading rows -/

/-- A row that lies within the addresses is read. -/
theorem readRow_of_fits {address : UInt64} (m : Memory)
    (fits : address.toNat + width ≤ Word.count) :
    m.readRow address width = .ok (m.row width address.toNat) := by
  induction width with
  | zero =>
    have empty : m.row 0 address.toNat = #v[] := by simp
    rw [empty]
    rfl
  | succ width ih =>
    have last : (address + UInt64.ofNat width).toNat = address.toNat + width :=
      toNat_add_ofNat (by omega)
    have word := read_of_lt m (last ▸ show address.toNat + width < Word.count by omega)
    rw [readRow, ih (by omega), word, last, row_succ]
    rfl

/-- A row that reaches past the last address is not read. -/
theorem readRow_of_not_fits {address : UInt64} (m : Memory) (inside : address.toNat ≤ Word.count)
    (past : Word.count < address.toNat + width) :
    m.readRow address width = .error (.addressOutOfBounds (UInt64.ofNat Word.count)) := by
  induction width with
  | zero => omega
  | succ width ih =>
    rw [readRow]
    by_cases before : Word.count < address.toNat + width
    · rw [ih before]
      rfl
    · -- The last word is the first that does not exist.
      have last : (address + UInt64.ofNat width).toNat = address.toNat + width :=
        toNat_add_ofNat (by omega)
      have outside : address + UInt64.ofNat width = UInt64.ofNat Word.count := by
        apply UInt64.toNat_inj.mp
        rw [last, show (UInt64.ofNat Word.count).toNat = Word.count from rfl]
        omega
      rw [readRow_of_fits m (by omega), outside]
      rfl

theorem toNat_ofNat_of_le (inside : address ≤ Word.count) :
    (UInt64.ofNat address).toNat = address :=
  UInt64.toNat_ofNat_of_lt' (show address < UInt64.size by
    simp only [Word.count, UInt64.size] at *
    omega)

/-- Rows go on as long as there are words for another one. -/
theorem rows_eq {positive : 0 < width} (inside : address ≤ Word.count) :
    m.rows width positive (UInt64.ofNat address) =
      if Word.count < address + width then .error (.addressOutOfBounds (UInt64.ofNat Word.count))
      else if m.row width address = terminator width then .ok []
      else (m.rows width positive (UInt64.ofNat (address + width))).map
        (m.row width address :: ·) := by
  have here := toNat_ofNat_of_le inside
  rw [rows]
  by_cases past : Word.count < address + width
  · have fails : m.readRow (UInt64.ofNat address) width = _ :=
      readRow_of_not_fits m (by omega) (by omega)
    rw [if_pos past]
    split
    next e failed =>
      rw [fails] at failed
      cases failed
      rfl
    next row found =>
      rw [fails] at found
      cases found
  · have reads : m.readRow (UInt64.ofNat address) width = _ := readRow_of_fits m (by omega)
    rw [if_neg past, UInt64.ofNat_add]
    split
    next e failed =>
      rw [reads] at failed
      cases failed
    next row found =>
      rw [reads, here] at found
      cases found
      rfl

/-! ## Listed rows -/

/-- The rows from an address on, up to a terminator. -/
inductive Listed (m : Memory) (width : Nat) : Nat → List (Vector Word width) → Prop
  /-- A terminator ends the rows. -/
  | nil {address : Nat} (fits : address + width ≤ Word.count)
      (ends : m.row width address = terminator width) : Listed m width address []
  /-- A row that is no terminator comes before the others. -/
  | cons {address : Nat} {rows : List (Vector Word width)} (fits : address + width ≤ Word.count)
      (goesOn : m.row width address ≠ terminator width)
      (rest : Listed m width (address + width) rows) :
      Listed m width address (m.row width address :: rows)

theorem rows_of_listed {positive : 0 < width} (h : m.Listed width address rows) :
    m.rows width positive (UInt64.ofNat address) = .ok rows := by
  induction h with
  | nil fits ends => rw [rows_eq (by omega), if_neg (by omega), if_pos ends]
  | cons fits goesOn rest ih =>
    rw [rows_eq (by omega), if_neg (by omega), if_neg goesOn, ih]
    rfl

/-- Either rows are listed and are read, or reading runs past the last address. -/
theorem rows_cases (positive : 0 < width) (inside : address ≤ Word.count) :
    (∃ rows, m.Listed width address rows ∧
        m.rows width positive (UInt64.ofNat address) = .ok rows) ∨
      m.rows width positive (UInt64.ofNat address) =
        .error (.addressOutOfBounds (UInt64.ofNat Word.count)) := by
  induction left : Word.count - address using Nat.strongRecOn generalizing address with
  | _ left ih =>
    rw [rows_eq inside]
    split
    next past => exact .inr rfl
    next fits =>
      split
      next ends => exact .inl ⟨[], .nil (by omega) ends, rfl⟩
      next goesOn =>
        have more : address + width ≤ Word.count := by omega
        rcases ih _ (by omega) more rfl with ⟨rows, listed, read⟩ | failed
        · refine .inl ⟨_, .cons (by omega) goesOn listed, ?_⟩
          rw [read]
          rfl
        · rw [failed]
          exact .inr rfl

theorem listed_of_rows {positive : 0 < width} (inside : address ≤ Word.count)
    (h : m.rows width positive (UInt64.ofNat address) = .ok rows) :
    m.Listed width address rows := by
  rcases rows_cases positive inside with ⟨rows', listed, read⟩ | failed
  · rw [read] at h
    cases h
    exact listed
  · rw [failed] at h
    cases h

namespace Listed

theorem fits (h : m.Listed width address rows) :
    address + width * (rows.length + 1) ≤ Word.count := by
  induction h with
  | nil fits => simpa using fits
  | cons fits goesOn rest ih =>
    simp only [List.length_cons, Nat.mul_add] at *
    omega

/-- A listed row is what lies at its place. -/
theorem eq_row (h : m.Listed width address rows) {k : Nat} {row : Vector Word width}
    (found : rows[k]? = some row) : row = m.row width (address + width * k) := by
  induction h generalizing k with
  | nil => simp at found
  | @cons address rows fits goesOn rest ih =>
    cases k with
    | zero => simpa using found.symm
    | succ k =>
      rw [ih (by simpa using found)]
      congr 1
      rw [Nat.mul_succ]
      omega

/-- Rows stay listed as long as their words and those of the terminator stay. -/
theorem congr (h : m.Listed width address rows)
    (same : ∀ a : Word, address ≤ a.toNat → a.toNat < address + width * (rows.length + 1) →
      m.get a = n.get a) : n.Listed width address rows := by
  induction h with
  | @nil address fits ends =>
    have row := row_congr fits fun a low high => same a low (by simpa using high)
    exact .nil fits (row ▸ ends)
  | @cons address rows fits goesOn rest ih =>
    simp only [List.length_cons, Nat.mul_add] at same ih
    have row := row_congr fits fun a low high => same a low (by omega)
    rw [row]
    exact .cons fits (row ▸ goesOn) (ih fun a low high => same a (by omega) (by omega))

/-- Overwriting one row by another that is no terminator replaces that row. -/
theorem set (h : m.Listed width address rows) {k : Nat} (inside : k < rows.length)
    (same : ∀ a : Word, a.toNat < address + width * k ∨ address + width * (k + 1) ≤ a.toNat →
      m.get a = n.get a)
    (goesOn : n.row width (address + width * k) ≠ terminator width) :
    n.Listed width address (rows.set k (n.row width (address + width * k))) := by
  induction h generalizing k with
  | nil => simp at inside
  | @cons address rows fits notEnd rest ih =>
    cases k with
    | zero =>
      simp only [Nat.mul_zero, Nat.add_zero, Nat.mul_one, Nat.zero_add] at same goesOn ⊢
      exact .cons fits goesOn (rest.congr fun a low high => same a (.inr (by omega)))
    | succ k =>
      simp only [Nat.mul_add, Nat.mul_one] at same goesOn ih ⊢
      have row := row_congr fits fun a low high => same a (.inl (by omega))
      have place : address + (width * k + width) = address + width + width * k := by omega
      rw [place] at goesOn ⊢
      rw [List.set_cons_succ, row]
      refine .cons fits (row ▸ notEnd) (ih (by simpa using inside) (fun a outside => ?_) goesOn)
      exact same a (by omega)

/-- Overwriting one row by a terminator ends the rows there. -/
theorem take (h : m.Listed width address rows) {k : Nat} (inside : k < rows.length)
    (same : ∀ a : Word, a.toNat < address + width * k → m.get a = n.get a)
    (ends : n.row width (address + width * k) = terminator width) :
    n.Listed width address (rows.take k) := by
  induction h generalizing k with
  | nil => simp at inside
  | @cons address rows fits goesOn rest ih =>
    cases k with
    | zero => exact .nil fits (by simpa using ends)
    | succ k =>
      have place : address + width * (k + 1) = address + width + width * k := by
        rw [Nat.mul_succ]
        omega
      rw [place] at same ends
      have row := row_congr fits fun a low high => same a (by omega)
      rw [List.take_succ_cons, row]
      exact .cons fits (row ▸ goesOn) (ih (by simpa using inside) same ends)

/-- As long as the terminator stays there is a table, perhaps a shorter one. -/
theorem exists_of_terminator (h : m.Listed width address rows)
    (same : ∀ a : Word, address + width * rows.length ≤ a.toNat →
      a.toNat < address + width * (rows.length + 1) → m.get a = n.get a) :
    ∃ rows', n.Listed width address rows' := by
  induction h with
  | @nil address fits ends =>
    have row := row_congr fits fun a low high => same a (by simpa using low) (by simpa using high)
    exact ⟨[], .nil fits (row ▸ ends)⟩
  | @cons address rows fits goesOn rest ih =>
    -- A row that changed may have become a terminator itself.
    by_cases ends : n.row width address = terminator width
    · exact ⟨[], .nil fits ends⟩
    · simp only [List.length_cons, Nat.mul_add] at same ih
      obtain ⟨rows', listed⟩ := ih fun a low high => same a (by omega) (by omega)
      exact ⟨_, .cons fits ends listed⟩

/-- The first row stays as long as its words stay. -/
theorem head?_congr {rows' : List (Vector Word width)} (h : m.Listed width address rows)
    (h' : n.Listed width address rows')
    (same : ∀ a : Word, address ≤ a.toNat → a.toNat < address + width → m.get a = n.get a) :
    rows'.head? = rows.head? := by
  cases h with
  | nil fits ends =>
    have row := row_congr fits same
    cases h' with
    | nil => rfl
    | cons _ goesOn => exact absurd (row ▸ ends) goesOn
  | cons fits goesOn =>
    have row := row_congr fits same
    cases h' with
    | nil _ ends => exact absurd (row.trans ends) goesOn
    | cons => simp [row]

end Listed

/-! ## Tables that cannot be read -/

/-- Reading rows fails only at the end of the address space. -/
theorem rows_eq_error {positive : 0 < width} {e : MemoryError} (inside : address ≤ Word.count)
    (h : m.rows width positive (UInt64.ofNat address) = .error e) :
    e = .addressOutOfBounds (UInt64.ofNat Word.count) := by
  rcases rows_cases positive inside with ⟨rows, -, read⟩ | failed
  · rw [read] at h
    cases h
  · rw [failed] at h
    cases h
    rfl

theorem toNat_le_count (base : Word) : base.toNat ≤ Word.count := Nat.le_of_lt base.toNat_lt

theorem toUInt64_eq (base : Word) : base.toUInt64 = UInt64.ofNat base.toNat :=
  UInt64.toNat_inj.mp (toNat_ofNat_of_le (toNat_le_count base)).symm

theorem segmentsOfRows_eq_error {base : Word} {index : Nat}
    {rows : List (Vector Word Segment.rowWidth)} {e : FatalError}
    (h : segmentsOfRows base index rows = .error e) :
    ∃ row reason, e = .malformedTable .segment base row reason := by
  induction rows generalizing index with
  | nil => cases h
  | cons row rows ih =>
    rw [segmentsOfRows] at h
    cases read : Segment.ofRow row with
    | error defect =>
      simp only [read, Except.error.injEq] at h
      exact ⟨index, defect.message, h.symm⟩
    | ok segment =>
      simp only [read] at h
      cases rest : segmentsOfRows base (index + 1) rows with
      | error e' =>
        simp only [rest, Except.map, Except.error.injEq] at h
        subst h
        exact ih rest
      | ok segments => simp [rest, Except.map] at h

/-- A segment table cannot be read if it runs past the last address, or a row has a defect. -/
theorem segmentTable_eq_error {base : Word} {e : FatalError} (h : m.segmentTable base = .error e) :
    e = .memory (.addressOutOfBounds (UInt64.ofNat Word.count)) ∨
      ∃ row reason, e = .malformedTable .segment base row reason := by
  rw [segmentTable, toUInt64_eq] at h
  cases read : m.rows Segment.rowWidth (Nat.zero_lt_succ 3) (UInt64.ofNat base.toNat) with
  | error e' =>
    rw [rows_eq_error (toNat_le_count base) read] at read
    rw [read] at h
    cases h
    exact .inl rfl
  | ok rows =>
    rw [read] at h
    exact .inr (segmentsOfRows_eq_error h)

/-- A guest table cannot be read if it runs past the last address. -/
theorem guestTable_eq_error {base : Word} {e : FatalError} (h : m.guestTable base = .error e) :
    e = .memory (.addressOutOfBounds (UInt64.ofNat Word.count)) := by
  rw [guestTable, toUInt64_eq] at h
  cases read : m.rows Context.rowWidth (Nat.zero_lt_succ 8) (UInt64.ofNat base.toNat) with
  | error e' =>
    rw [rows_eq_error (toNat_le_count base) read] at read
    rw [read] at h
    cases h
    rfl
  | ok rows =>
    rw [read] at h
    cases h

/-! ## Guest tables -/

variable {base : Word} {contexts : List Context}

theorem guestTable_eq_ok_iff :
    m.guestTable base = .ok contexts ↔
      ∃ rows, m.Listed Context.rowWidth base.toNat rows ∧ contexts = rows.map Context.ofRow := by
  rw [guestTable, toUInt64_eq]
  cases read : m.rows Context.rowWidth (Nat.zero_lt_succ 8) (UInt64.ofNat base.toNat) with
  | error e =>
    constructor
    · intro h
      cases h
    · rintro ⟨rows, listed, _⟩
      rw [rows_of_listed listed] at read
      cases read
  | ok rows =>
    constructor
    · intro h
      cases h
      exact ⟨rows, listed_of_rows (toNat_le_count base) read, rfl⟩
    · rintro ⟨rows', listed, rfl⟩
      rw [rows_of_listed listed] at read
      cases read
      rfl

theorem fits_of_guestTable (h : m.guestTable base = .ok contexts) :
    base.toNat + Context.rowWidth * (contexts.length + 1) ≤ Word.count := by
  obtain ⟨rows, listed, rfl⟩ := guestTable_eq_ok_iff.mp h
  simpa using listed.fits

/-- There is no guest table at the address that means none is installed. -/
theorem ne_noTable_of_guestTable (h : m.guestTable base = .ok contexts) : base ≠ noTable := by
  rintro rfl
  have fits := fits_of_guestTable h
  have high : noTable.toNat = 0xFFFFFFFF := rfl
  simp only [Context.rowWidth, Word.count] at fits
  omega

theorem guestTable_congr (h : m.guestTable base = .ok contexts)
    (same : ∀ a : Word, base.toNat ≤ a.toNat →
      a.toNat < base.toNat + Context.rowWidth * (contexts.length + 1) → m.get a = n.get a) :
    n.guestTable base = .ok contexts := by
  obtain ⟨rows, listed, rfl⟩ := guestTable_eq_ok_iff.mp h
  exact guestTable_eq_ok_iff.mpr ⟨rows, listed.congr (by simpa using same), rfl⟩

/-- A context of a guest table is what lies in its row. -/
theorem eq_ofRow_of_guestTable (h : m.guestTable base = .ok contexts) {k : Nat} {context : Context}
    (found : contexts[k]? = some context) :
    context = Context.ofRow (m.row Context.rowWidth (base.toNat + Context.rowWidth * k)) := by
  obtain ⟨rows, listed, rfl⟩ := guestTable_eq_ok_iff.mp h
  simp only [List.getElem?_map, Option.map_eq_some_iff] at found
  obtain ⟨row, found, rfl⟩ := found
  rw [listed.eq_row found]

/-- A guest table with one row overwritten by a row that is no terminator. -/
theorem guestTable_set (h : m.guestTable base = .ok contexts) {k : Nat}
    (inside : k < contexts.length)
    (same : ∀ a : Word, a.toNat < base.toNat + Context.rowWidth * k ∨
      base.toNat + Context.rowWidth * (k + 1) ≤ a.toNat → m.get a = n.get a)
    {row : Vector Word Context.rowWidth}
    (placed : n.row Context.rowWidth (base.toNat + Context.rowWidth * k) = row)
    (goesOn : row ≠ terminator Context.rowWidth) :
    n.guestTable base = .ok (contexts.set k (Context.ofRow row)) := by
  obtain ⟨rows, listed, rfl⟩ := guestTable_eq_ok_iff.mp h
  subst placed
  refine guestTable_eq_ok_iff.mpr ⟨_, listed.set (by simpa using inside) same goesOn, ?_⟩
  rw [List.map_set]

/-- A guest table with one row overwritten by the row that ends a table. -/
theorem guestTable_take (h : m.guestTable base = .ok contexts) {k : Nat}
    (inside : k < contexts.length)
    (same : ∀ a : Word, a.toNat < base.toNat + Context.rowWidth * k → m.get a = n.get a)
    (ends : n.row Context.rowWidth (base.toNat + Context.rowWidth * k) =
      terminator Context.rowWidth) :
    n.guestTable base = .ok (contexts.take k) := by
  obtain ⟨rows, listed, rfl⟩ := guestTable_eq_ok_iff.mp h
  refine guestTable_eq_ok_iff.mpr ⟨_, listed.take (by simpa using inside) same ends, ?_⟩
  rw [List.map_take]

/-- A guest table with a row after the first overwritten is a guest table with the same first
row. -/
theorem guestTable_overwrite (h : m.guestTable base = .ok contexts) {slot : Nat}
    (guest : 0 < slot) (inside : slot < contexts.length)
    (same : ∀ a : Word, a.toNat < base.toNat + Context.rowWidth * slot ∨
      base.toNat + Context.rowWidth * (slot + 1) ≤ a.toNat → m.get a = n.get a) :
    ∃ contexts', n.guestTable base = .ok contexts' ∧ contexts'.head? = contexts.head? := by
  obtain ⟨rows, listed, rfl⟩ := guestTable_eq_ok_iff.mp h
  simp only [Context.rowWidth, List.length_map] at *
  obtain ⟨rows', listed'⟩ : ∃ rows', n.Listed 9 base.toNat rows' :=
    listed.exists_of_terminator fun a low high => same a (.inr (by omega))
  -- The overwritten row may end the table now, but the first row comes before it.
  refine ⟨rows'.map Context.ofRow, guestTable_eq_ok_iff.mpr ⟨rows', listed', rfl⟩, ?_⟩
  have first := listed.head?_congr listed' fun a low high => same a (.inl (by omega))
  simp only [List.head?_map, first]

end WordMachine.Memory
