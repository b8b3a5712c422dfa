/-!
# JSON text

The values that reports are made of, and two ways to write them.  The compact
form has no blanks.  The laid out form puts each element of a list and each
field of a record on a line of its own, indented by two blanks a level.
-/

namespace WordMachine.Text

/-- A value in a report. -/
inductive Json where
  /-- No value. -/
  | null
  /-- A truth value. -/
  | bool (value : Bool)
  /-- A natural number. -/
  | number (value : Nat)
  /-- A text of characters that need no escape. -/
  | text (value : String)
  /-- A list. -/
  | list (items : List Json)
  /-- A record, with its fields in order. -/
  | record (fields : List (String × Json))

namespace Json

/-- A text in quotes. -/
def quoted (text : String) : String := "\"" ++ text ++ "\""

mutual

/-- The compact form. -/
def compact : Json → String
  | null => "null"
  | bool b => if b then "true" else "false"
  | number n => toString n
  | text t => quoted t
  | list items => "[" ++ ",".intercalate (compactItems items) ++ "]"
  | record fields => "\x7b" ++ ",".intercalate (compactFields fields) ++ "\x7d"

/-- The compact forms of the items of a list. -/
def compactItems : List Json → List String
  | [] => []
  | item :: items => compact item :: compactItems items

/-- The compact forms of the fields of a record. -/
def compactFields : List (String × Json) → List String
  | [] => []
  | (name, value) :: fields => (quoted name ++ ":" ++ compact value) :: compactFields fields

end

/-- The start of a line at a level. -/
def lineStart (level : Nat) : String := "\n" ++ String.ofList (List.replicate (2 * level) ' ')

/-- Lines between two brackets.  Without any, the brackets stand next to each other. -/
def bracketed (left right : String) (level : Nat) (lines : List String) : String :=
  if lines.isEmpty then left ++ right
  else
    left ++ lineStart (level + 1) ++ ("," ++ lineStart (level + 1)).intercalate lines ++
      lineStart level ++ right

mutual

/-- The laid out form of a value that starts on a line of the given level. -/
def laidOut (level : Nat) : Json → String
  | null => "null"
  | bool b => if b then "true" else "false"
  | number n => toString n
  | text t => quoted t
  | list items => bracketed "[" "]" level (laidOutItems (level + 1) items)
  | record fields => bracketed "\x7b" "\x7d" level (laidOutFields (level + 1) fields)

/-- The laid out forms of the items of a list. -/
def laidOutItems (level : Nat) : List Json → List String
  | [] => []
  | item :: items => laidOut level item :: laidOutItems level items

/-- The laid out forms of the fields of a record. -/
def laidOutFields (level : Nat) : List (String × Json) → List String
  | [] => []
  | (name, value) :: fields =>
    (quoted name ++ ": " ++ laidOut level value) :: laidOutFields level fields

end

end Json

end WordMachine.Text
