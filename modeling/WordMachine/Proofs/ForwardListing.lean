import WordMachine.Proofs.Observers
import WordMachine.Proofs.Window

/-!
# The debugger's listing

A debugger lists forward from the next instruction, and at each line it looks at a
window of three words.  The listing of an image goes through all the words it is
given.  The two come to the same lines, up to the last word of memory
(`linesFrom_eq`): a window is wide enough for every line, and where memory ends
both have the same words left (`Memory.lines_wordsAhead`).

The lines stand one after the other and do not reach past the end of memory
(`Listing.toNat_address`, `Listing.ascending`), so the address of the first line is
that of no other, and only the first row has the pointer (`listing_of_next`).
-/

namespace WordMachine

/-! ## Where the lines stand -/

namespace Listing

variable {base : Word} {ws : List Word} {earlier later : List Line} {l : Line}

/-- If the words fit into memory, a line stands where the words of the earlier lines end, and its
own words fit as well. -/
theorem toNat_address (fits : base.toNat + ws.length ≤ Word.count)
    (cut : lines base ws = earlier ++ l :: later) :
    l.address.toNat = base.toNat + (earlier.flatMap Line.words).length ∧
      l.address.toNat + l.length ≤ base.toNat + ws.length := by
  have shown := congrArg List.length (words_lines base ws)
  rw [cut, List.flatMap_append, List.flatMap_cons, List.length_append, List.length_append] at shown
  have positive : 0 < l.length := Nat.succ_pos _
  have length : l.words.length = l.length := rfl
  have stands : l.address.toNat = base.toNat + (earlier.flatMap Line.words).length := by
    rw [(line_of_lines cut).1]
    exact Word.toNat_add_of_inside (by omega)
  exact ⟨stands, by omega⟩

/-- The addresses of the lines increase. -/
theorem ascending (fits : base.toNat + ws.length ≤ Word.count)
    (cut : lines base ws = earlier ++ later) :
    later.Pairwise fun l l' => l.address < l'.address := by
  induction later generalizing earlier with
  | nil => exact .nil
  | cons l later ih =>
    have beyond : lines base ws = (earlier ++ [l]) ++ later := by simpa using cut
    refine .cons (fun l' mem => ?_) (ih beyond)
    obtain ⟨between, rest, rfl⟩ := List.append_of_mem mem
    rw [← List.append_assoc] at beyond
    have here := (toNat_address fits cut).1
    have there := (toNat_address fits beyond).1
    have positive : 0 < l.words.length := Nat.succ_pos _
    simp only [List.flatMap_append, List.flatMap_cons, List.flatMap_nil, List.append_nil,
      List.length_append] at there
    exact UInt32.lt_iff_toNat_lt.mpr (by omega)

/-- Where addresses increase, only the first line has the address of the first. -/
theorem head_address_iff {ls : List Line} (ascends : ls.Pairwise fun l l' => l.address < l'.address)
    {k : Nat} (inside : k < ls.length) :
    ls.head?.map (·.address) = some ls[k].address ↔ k = 0 := by
  cases ls with
  | nil => exact absurd inside (Nat.not_lt_zero k)
  | cons l rest =>
    cases k with
    | zero => exact iff_of_true rfl rfl
    | succ k =>
      have inside : k < rest.length := Nat.lt_of_succ_lt_succ inside
      have beyond := (List.pairwise_cons.mp ascends).1 rest[k] (List.getElem_mem inside)
      refine iff_of_false (fun same => ?_) (Nat.succ_ne_zero k)
      exact UInt32.ne_of_lt beyond (Option.some.inj same)

end Listing

/-! ## All the words ahead -/

namespace Memory

/-- The listing of the words ahead begins with the line at the address, and goes on after it while
there is memory. -/
theorem lines_wordsAhead (m : Memory) (a : Word) :
    Listing.lines a (m.wordsAhead a) = m.line a ::
      let length := (m.line a).length
      if a.toNat + length < Word.count then
        Listing.lines (a + UInt32.ofNat length) (m.wordsAhead (a + UInt32.ofNat length))
      else [] := by
  have whole := m.length_wordsAhead a
  have rest := m.drop_wordsAhead a (1 + Listing.extraCount (m.get a))
  rw [← List.drop_drop, List.drop_one] at rest
  have starts : m.wordsAhead a = m.get a :: (m.wordsAhead a).tail := by
    rw [wordsAhead_eq_cons, List.tail_cons]
  have length : (m.line a).length =
      1 + min (Listing.extraCount (m.get a)) (Word.count - a.toNat - 1) := by
    rw [line_eq, Listing.lineAt, Listing.Line.length, Listing.Line.words, List.length_cons,
      List.length_take, List.length_tail, whole, Nat.add_comm]
  have after (k : Nat) : a + 1 + UInt32.ofNat k = a + UInt32.ofNat (1 + k) := by
    rw [UInt32.ofNat_add, UInt32.add_assoc]
    rfl
  rw [starts, Listing.lines, ← line_eq, rest, after]
  congr 1
  -- The extra words are all there, or the line takes what is left of memory.
  by_cases inside : a.toNat + (1 + Listing.extraCount (m.get a)) < Word.count
  · rw [if_pos inside, length, Nat.min_eq_left (by omega), if_pos inside]
  · rw [if_neg inside, if_neg (by omega), Listing.lines]

end Memory

/-! ## The listing from an address on -/

namespace Debugger

/-- The lines from an address on are the first ones of the listing of all the words ahead. -/
theorem linesFrom_eq (m : Memory) (count : Nat) (a : Word) :
    linesFrom m count a = (Listing.lines a (m.wordsAhead a)).take count := by
  induction count generalizing a with
  | zero => rfl
  | succ count ih =>
    rw [linesFrom, m.lines_wordsAhead, List.take_succ_cons, ih]
    congr 1
    dsimp only
    split
    · rfl
    · exact List.take_nil.symm

variable {d : Debugger} {s : Word}

theorem listing_eq (next : Machine.nextInstructionAddress.outcome d.machine = .ok s) (count : Nat) :
    listing count d = (linesFrom d.machine.memory count s, d.mapped) := by
  have looked := currentAddress_eq d
  rw [next] at looked
  have same : d.mapped.machine.memory = d.machine.memory := d.machine.memory_mapped
  rw [listing, ← same]
  simp only [bind, StateT.bind, looked]
  rfl

/-- The rows of the lines.  The pointer tells the address of the first line, which is that of no
other. -/
theorem disassemblyRows_eq {count : Nat} {rows : List Listing.Line}
    (lists : listing count d = (rows, d.mapped))
    (ascends : rows.Pairwise fun l l' => l.address < l'.address) :
    disassemblyRows count d = (rows.mapIdx fun k l =>
      let mark := if d.breakpoints.contains l.address then "●" else " "
      let pointer := if k = 0 then "▶ " else "  "
      s!"{mark} {pointer}{Text.hex8 l.address.toNat}: {l.text}", d.mapped) := by
  have unfolded : disassemblyRows count d =
      let (rows, d) := listing count d
      (rows.map (d.disassemblyRow (rows.head?.map (·.address))), d) := rfl
  rw [unfolded, lists]
  refine congrArg (·, d.mapped) (List.ext_getElem (by simp) fun k here _ => ?_)
  rw [List.length_map] at here
  have pointer : (if rows.head?.map (·.address) = some rows[k].address then "▶ " else "  ") =
      if k = 0 then "▶ " else "  " :=
    if_congr (Listing.head_address_iff ascends here) rfl rfl
  rw [List.getElem_map, List.getElem_mapIdx, disassemblyRow]
  dsimp only
  rw [pointer]
  rfl

/-- Where the next instruction is mapped, the debugger lists the first lines of the image that
begins there and goes to the end of memory, each with the address and the text that the listing of
that image has.  There are fewer lines than asked for only if they take all the words.  Addresses
increase, and no line wraps around.  The first row has the pointer, and no other row has. -/
theorem listing_of_next (next : Machine.nextInstructionAddress.outcome d.machine = .ok s)
    (count : Nat) :
    let image := d.machine.memory.wordsAhead s
    ∃ rows printed, listing count d = (rows, d.mapped) ∧
      rows = (Listing.lines s image).take count ∧
      Listing.rows? (Listing.render s image) = some printed ∧
      rows.map Listing.Line.row = printed.take count ∧
      (rows.length < count → s.toNat + (rows.flatMap Listing.Line.words).length = Word.count) ∧
      (rows.Pairwise fun l l' => l.address < l'.address) ∧
      (∀ l ∈ rows, l.address.toNat + l.length ≤ Word.count) ∧
      disassemblyRows count d = (rows.mapIdx fun k l =>
        let mark := if d.breakpoints.contains l.address then "●" else " "
        let pointer := if k = 0 then "▶ " else "  "
        s!"{mark} {pointer}{Text.hex8 l.address.toNat}: {l.text}", d.mapped) := by
  intro image
  have below : s.toNat < Word.count := s.toNat_lt
  have length : image.length = Word.count - s.toNat := d.machine.memory.length_wordsAhead s
  have fits : s.toNat + image.length ≤ Word.count := by omega
  have lists : listing count d = ((Listing.lines s image).take count, d.mapped) := by
    rw [listing_eq next, linesFrom_eq]
  have begins : Listing.lines s image = [] ++ Listing.lines s image := rfl
  have ascends : ((Listing.lines s image).take count).Pairwise fun l l' => l.address < l'.address :=
    (Listing.ascending fits begins).take
  refine ⟨_, _, lists, rfl, Listing.rows?_render s image, List.map_take, fun few => ?_, ascends,
    fun l mem => ?_, disassemblyRows_eq lists ascends⟩
  · rw [List.length_take] at few
    have all : (Listing.lines s image).length ≤ count := by omega
    rw [List.take_of_length_le all, Listing.words_lines, length]
    omega
  · obtain ⟨earlier, later, cut⟩ := List.append_of_mem (List.mem_of_mem_take mem)
    exact Nat.le_trans (Listing.toNat_address fits cut).2 fits

/-- The last three words of memory: a HALT and an instruction that is cut off. -/
def lastWords : Memory :=
  let move : Instruction := ⟨.mov, 0, [⟨.singleDs, Fin.last 31⟩, ⟨.immediate, Fin.last 31⟩]⟩
  ((Memory.empty.set 0xFFFFFFFD (Instruction.encode ⟨.halt, 0, []⟩)).set 0xFFFFFFFE
    (Instruction.encode move)).set 0xFFFFFFFF 7

/-- A debugger whose next instruction is the HALT. -/
def atLastWords : Debugger where
  machine := { Machine.initial with
    memory := lastWords
    processor := { Machine.initial.processor with ip := 0xFFFFFFFD } }

/-- Asked for four lines, it has two, which take all the words. -/
theorem listing_of_next_atLastWords :
    Machine.nextInstructionAddress.outcome atLastWords.machine = .ok 0xFFFFFFFD ∧
      ∃ rows, listing 4 atLastWords = (rows, atLastWords.mapped) ∧
        rows.map (fun l => (l.address, l.text)) =
          [(0xFFFFFFFD, "HALT"), (0xFFFFFFFE, "MOV ds:(0x7), ?")] ∧
        0xFFFFFFFD + (rows.flatMap Listing.Line.words).length = Word.count := by
  have next : Machine.nextInstructionAddress.outcome atLastWords.machine = .ok 0xFFFFFFFD := by
    decide +kernel
  obtain ⟨rows, printed, lists, -, -, -, whole, -⟩ := listing_of_next next 4
  have shown : rows.map (fun l => (l.address, l.text)) =
      [(0xFFFFFFFD, "HALT"), (0xFFFFFFFE, "MOV ds:(0x7), ?")] := by
    have texts : (listing 4 atLastWords).1.map (fun l => (l.address, l.text)) =
      [(0xFFFFFFFD, "HALT"), (0xFFFFFFFE, "MOV ds:(0x7), ?")] := by decide +kernel
    rwa [lists] at texts
  have few : rows.length = 2 := by simpa using congrArg List.length shown
  exact ⟨next, rows, lists, shown, whole (by omega)⟩

end Debugger

end WordMachine
