import WordMachine.Debugger.Basic

/-!
# The screen of the debugger

The screen has two columns of panels.  The left one, 55 parts in 100 wide, has
the disassembly, the registers and the status.  The right one has the memory,
the output and the keys.  The disassembly and the memory take the height that
the other panels leave.

A panel is a box with its title in the upper edge.  Its lines are cut or filled
up with blanks to the inner width, and those beyond the inner height are left
out.  Only the output goes on in the next line where it reaches the edge.
-/

namespace WordMachine

open Text

/-! ## Panels -/

/-- A titled box of lines. -/
structure Panel where
  /-- The title. -/
  title : String
  /-- The width with both borders. -/
  width : Nat
  /-- The height with both borders. -/
  height : Nat
  /-- The lines inside. -/
  lines : List String

namespace Panel

/-- A line cut or filled up with a character to a width. -/
def fit (width : Nat) (fill : Char) (line : String) : String :=
  let chars := line.toList.take width
  String.ofList (chars ++ List.replicate (width - chars.length) fill)

/-- The rows of a panel. -/
def rows (p : Panel) : List String :=
  let inner := p.width - 2
  let row (i : Nat) : String := "│" ++ fit inner ' ' (p.lines[i]?.getD "") ++ "│"
  ["┌" ++ fit inner '─' p.title ++ "┐"] ++ (List.range (p.height - 2)).map row ++
    ["└" ++ fit inner '─' "" ++ "┘"]

theorem length_fit (width : Nat) (fill : Char) (line : String) :
    (fit width fill line).toList.length = width := by
  have cut : (line.toList.take width).length ≤ width := by
    rw [List.length_take]
    exact Nat.min_le_left width _
  simp only [fit, String.toList_ofList, List.length_append, List.length_replicate]
  omega

end Panel

namespace Debugger

/-! ## Contents of the panels -/

/-- A line of the disassembly. -/
def disassemblyRow (d : Debugger) (current : Option Word) (line : Listing.Line) : String :=
  let mark := if d.breakpoints.contains line.address then "●" else " "
  let pointer := if current = some line.address then "▶ " else "  "
  s!"{mark} {pointer}{hex8 line.address.toNat}: {line.text}"

/-- The disassembly from the next instruction on. -/
def disassemblyRows (count : Nat) : Operation (List String) := do
  let lines ← listing count
  let d ← get
  return lines.map (d.disassemblyRow (lines.head?.map (·.address)))

/-- One general register with its value. -/
def registerText (index : Nat) (value : Option Word) : String :=
  let text := value.elim "--------" fun w => hex8 w.toNat
  s!"r{padRight 2 (toString index)} {text}  "

/-- The general registers from a number on, four to a row. -/
def registerRowsFrom (index : Nat) : List (Option Word) → List String
  | a :: b :: c :: d :: rest =>
    String.join [registerText index a, registerText (index + 1) b, registerText (index + 2) c,
      registerText (index + 3) d] :: registerRowsFrom (index + 4) rest
  | [] => []
  | rest => [String.join ((rest.zipIdx index).map fun (value, i) => registerText i value)]

/-- A flag as a digit. -/
def flagDigit (flag : Bool) : String := if flag then "1" else "0"

/-- The rows on the state of the processor. -/
def processorRows (m : Machine) : List String :=
  let p := m.processor
  let pointers := s!"IP {hex8 p.ip.toNat}  SP {hex8 p.sp.toNat}  PL {p.privilege.toNat}  " ++
    s!"Z={flagDigit p.flags.zero} GE={flagDigit p.flags.greaterEqual}"
  let control (r : ControlRegister) : String := s!"{r.name} {hex (p.control r).toNat} "
  let progress := s!"Cycles: {m.cycles.toNat}   Mode: {p.modeText}   State: {m.status.name}"
  [pointers, String.join (ControlRegister.all.map control), progress]

/-- The registers. -/
def registerRows : Operation (List String) := do
  let values ← registers
  return registerRowsFrom 0 values ++ processorRows (← get).machine

/-- Four cells of memory from an address on.  Beyond the end, cells look blank. -/
def memoryRow (m : Memory) (address : Word) : String :=
  let cell (i : Nat) : String :=
    hex8 ((m.read (address.toUInt64 + UInt64.ofNat i)).toOption.getD Memory.blank).toNat
  let cells := " ".intercalate ((List.range 4).map cell)
  s!"{hex8 address.toNat}: {cells}"

/-- A number of rows of memory from an address on, or fewer where memory ends. -/
def memoryRows (m : Memory) (scroll : Word) (count : Nat) : List String :=
  (List.range count).filterMap fun row =>
    let address := scroll.toNat + row * 4
    if address < Word.count then some (memoryRow m (UInt32.ofNat address)) else none

/-- A line in pieces of a width.  The last piece may be shorter. -/
def pieces (width : Nat) (line : List Char) : List (List Char) :=
  if line.length ≤ width ∨ width = 0 then [line]
  else line.take width :: pieces width (line.drop width)
termination_by line.length
decreasing_by simp only [List.length_drop]; omega

/-- The output in lines that fit a width. -/
def outputRows (width : Nat) (output : String) : List String :=
  (output.splitOn "\n").flatMap fun line => (pieces width line.toList).map String.ofList

/-- What the keys do. -/
def helpRows : List String :=
  ["s: Step  r: Run  p: Pause  b: Breakpoint",
    "x: Reset  ↑↓ PgUp PgDn: Scroll memory  q: Quit"]

/-! ## The whole screen -/

/-- The rows of the screen of a width and a height. -/
def screen (width height : Nat) : Operation (List String) := do
  let left := 55 * width / 100
  let right := width - left
  let disassembly ← disassemblyRows (height - 18)
  let registers ← registerRows
  let d ← get
  let leftPanels : List Panel := [
    ⟨" Disassembly ", left, height - 16, disassembly⟩,
    ⟨" Registers ", left, 13, registers⟩,
    ⟨" Status ", left, 3, [d.status]⟩]
  let rightPanels : List Panel := [
    ⟨" Memory ", right, height - 10, memoryRows d.machine.memory d.scroll (height - 12)⟩,
    ⟨" Output ", right, 6, outputRows (right - 2) d.output⟩,
    ⟨" Help ", right, 4, helpRows⟩]
  return List.zipWith (· ++ ·) (leftPanels.flatMap Panel.rows) (rightPanels.flatMap Panel.rows)

end Debugger

end WordMachine
