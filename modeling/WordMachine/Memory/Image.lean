import WordMachine.Memory.Basic

/-!
# Memory images

An image is a sequence of bytes without a header.  It holds the words to be
placed from address zero on, four bytes to a word, the least significant first.

Reading and writing are inverse: `ofBytes_toBytes` in one direction, and in the
other `toBytes_of_ofBytes`.  A sequence of bytes is refused exactly when its
length is not a multiple of four (`ofBytes_eq_error_iff`).  A file that could
not be read gives a reason instead (`FileError`).
-/

namespace WordMachine

/-- Why a file could not be read. -/
inductive FileError where
  /-- There is nothing at the path. -/
  | notFound
  /-- The file may not be read. -/
  | permissionDenied
  /-- A name is looked up in a file. -/
  | notDirectory
  /-- The path leads to a directory. -/
  | isDirectory
  /-- A name or the path is too long. -/
  | nameTooLong
  /-- Another reason. -/
  | other (text : String)
deriving DecidableEq, Repr

namespace FileError

/-- The reasons that have a number of their own. -/
def numbered : List FileError :=
  [.notFound, .permissionDenied, .notDirectory, .isDirectory, .nameTooLong]

/-- The number of a reason, if it has one. -/
def number? : FileError → Option Nat
  | notFound => some 2
  | permissionDenied => some 13
  | notDirectory => some 20
  | isDirectory => some 21
  | nameTooLong => some 36
  | other _ => none

/-- The reason with the given number. -/
def ofNumber? (number : Nat) : Option FileError := numbered.find? (·.number? == some number)

/-- A reason in words. -/
def description : FileError → String
  | notFound => "No such file or directory"
  | permissionDenied => "Permission denied"
  | notDirectory => "Not a directory"
  | isDirectory => "Is a directory"
  | nameTooLong => "File name too long"
  | other text => text

/-- The reason as text, with its number if it has one. -/
def message (e : FileError) : String :=
  e.description ++ e.number?.elim "" fun n => s!" (os error {n})"

end FileError

/-- Why an image could not be loaded. -/
inductive ImageError where
  /-- The file could not be read. -/
  | io (text : String)
  /-- The contents are no image, or do not fit. -/
  | memory (error : MemoryError)
deriving DecidableEq, Repr

/-- The error as text. -/
def ImageError.message : ImageError → String
  | io text => s!"I/O error: {text}"
  | memory error => error.message

namespace Image

/-- The words in bytes taken four at a time.  A shorter rest is dropped. -/
def words : List UInt8 → List Word
  | a :: b :: c :: d :: rest => .ofBytes a b c d :: words rest
  | _ => []

/-- The words of an image. -/
def ofBytes (bytes : List UInt8) : Except MemoryError (List Word) :=
  if bytes.length % 4 = 0 then .ok (words bytes) else .error (.misalignedImage bytes.length)

/-- The image of words. -/
def toBytes (ws : List Word) : List UInt8 := ws.flatMap Word.toBytes

/-- The words of an image file, given its contents or the reason why there are none. -/
def ofFile (file : Except FileError (List UInt8)) : Except ImageError (List Word) :=
  match file with
  | .error e => .error (.io e.message)
  | .ok bytes => (ofBytes bytes).mapError .memory

theorem words_toBytes (ws : List Word) : words (toBytes ws) = ws := by
  induction ws with
  | nil => rfl
  | cons w ws ih =>
    show Word.ofBytes w.byte0 w.byte1 w.byte2 w.byte3 :: words (toBytes ws) = w :: ws
    rw [Word.ofBytes_bytes, ih]

theorem toBytes_words {bytes : List UInt8} (h : bytes.length % 4 = 0) :
    toBytes (words bytes) = bytes := by
  fun_induction words bytes with
  | case1 a b c d rest ih =>
    simp only [List.length_cons] at h
    have := ih (by omega)
    simp_all [toBytes, Word.toBytes_ofBytes]
  | case2 rest short =>
    match rest with
    | [] => rfl
    | [_] | [_, _] | [_, _, _] => simp at h
    | a :: b :: c :: d :: rest => exact absurd rfl (short a b c d rest)

theorem length_toBytes (ws : List Word) : (toBytes ws).length = 4 * ws.length := by
  induction ws with
  | nil => rfl
  | cons w ws ih => simp_all [toBytes, Word.toBytes]; omega

theorem ofBytes_toBytes (ws : List Word) : ofBytes (toBytes ws) = .ok ws := by
  simp [ofBytes, length_toBytes, words_toBytes]

theorem ofBytes_eq_error_iff (bytes : List UInt8) (e : MemoryError) :
    ofBytes bytes = .error e ↔ bytes.length % 4 ≠ 0 ∧ e = .misalignedImage bytes.length := by
  unfold ofBytes
  split <;> simp_all [eq_comm]

theorem toBytes_of_ofBytes {bytes : List UInt8} {ws : List Word} (h : ofBytes bytes = .ok ws) :
    toBytes ws = bytes := by
  unfold ofBytes at h
  split at h
  · cases h
    exact toBytes_words ‹_›
  · cases h

end Image

/-- The memory that holds an image from address zero on. -/
def Memory.ofImage (bytes : List UInt8) : Except AccessFailure Memory := do
  let words ← Image.ofBytes bytes
  empty.writeBlock 0 words

end WordMachine
