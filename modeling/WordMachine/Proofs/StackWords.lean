import WordMachine.Proofs.Mapping

/-!
# Words on the stack

`Memory.wordsFrom` lists the contents of consecutive cells, around the end of
the addresses if need be.  The words on top of the stack are those from the
stack pointer on, the topmost first (`Machine.top`).

A push writes the cell below the top and nothing else (`push_ok`).  So after
words were pushed the stack holds them in reverse, above what it held before,
and no cell outside of them was written (`Stacked`).  They may not be more than
there are addresses, or the last ones would overwrite the first.
-/

namespace WordMachine

/-! ## Addresses around a start -/

theorem Word.add_ofNat_inj {a : Word} {i j : Nat} (hi : i < Word.count) (hj : j < Word.count)
    (same : a + UInt32.ofNat i = a + UInt32.ofNat j) : i = j := by
  have offsets : UInt32.ofNat i = UInt32.ofNat j := (UInt32.add_right_inj a).mp same
  have values := congrArg UInt32.toNat offsets
  simp only [UInt32.toNat_ofNat', Word.count] at values hi hj
  omega

theorem Word.add_ofNat_succ (a : Word) (n : Nat) :
    a + UInt32.ofNat (n + 1) = a + 1 + UInt32.ofNat n := by
  rw [UInt32.ofNat_add]
  grind

theorem Word.sub_ofNat_succ (a : Word) (n : Nat) :
    a - UInt32.ofNat (n + 1) = a - UInt32.ofNat n - 1 := by
  rw [UInt32.ofNat_add]
  grind

theorem Word.sub_ofNat_add_ofNat (a : Word) {j n : Nat} (small : j < n) :
    a - UInt32.ofNat n + UInt32.ofNat j = a - UInt32.ofNat (n - 1 - j + 1) := by
  have sum : n = n - 1 - j + 1 + j := by omega
  rw [sum, UInt32.ofNat_add, ← sum]
  grind

/-! ## Consecutive cells -/

namespace Memory

variable {m m' : Memory}

/-- The contents of consecutive cells from an address on. -/
def wordsFrom (m : Memory) : Word → Nat → List Word
  | _, 0 => []
  | a, n + 1 => m.get a :: m.wordsFrom (a + 1) n

@[simp] theorem length_wordsFrom (m : Memory) (a : Word) (n : Nat) :
    (m.wordsFrom a n).length = n := by
  induction n generalizing a with
  | zero => rfl
  | succ n ih => simp [wordsFrom, ih]

theorem wordsFrom_getElem? (m : Memory) (a : Word) {n j : Nat} (small : j < n) :
    (m.wordsFrom a n)[j]? = some (m.get (a + UInt32.ofNat j)) := by
  induction n generalizing a j with
  | zero => omega
  | succ n ih =>
    cases j with
    | zero => simp [wordsFrom]
    | succ j =>
      rw [wordsFrom, List.getElem?_cons_succ, ih (a + 1) (by omega), Word.add_ofNat_succ]

theorem wordsFrom_congr {a : Word} {n : Nat}
    (same : ∀ j < n, m'.get (a + UInt32.ofNat j) = m.get (a + UInt32.ofNat j)) :
    m'.wordsFrom a n = m.wordsFrom a n := by
  apply List.ext_getElem? fun j => ?_
  by_cases small : j < n
  · rw [wordsFrom_getElem? m' a small, wordsFrom_getElem? m a small, same j small]
  · rw [List.getElem?_eq_none (by simp; omega), List.getElem?_eq_none (by simp; omega)]

end Memory

namespace Machine

variable {m m' m₁ m₂ : Machine}

/-- The words on top of the stack, the topmost first. -/
def top (m : Machine) (n : Nat) : List Word := m.memory.wordsFrom m.processor.sp n

/-! ## Pushing -/

/-- What pushing words comes to, as far as the stack goes. -/
structure Stacked (m : Machine) (words : List Word) (m' : Machine) : Prop where
  sp : m'.processor.sp = m.processor.sp - UInt32.ofNat words.length
  /-- The last word is on top. -/
  top : m'.top words.length = words.reverse
  /-- Only the cells of the words change. -/
  memory : ∀ a, (∀ j < words.length, a ≠ m'.processor.sp + UInt32.ofNat j) →
    m'.memory.cell? a = m.memory.cell? a

theorem Stacked.refl (m : Machine) : Stacked m [] m := ⟨by simp, rfl, fun _ _ => rfl⟩

/-- Another word on top. -/
theorem Stacked.push {words : List Word} {v : Word} (stacked : Stacked m words m₁)
    (few : words.length + 1 ≤ Word.count) (sp : m₂.processor.sp = m₁.processor.sp - 1)
    (memory : m₂.memory = m₁.memory.set (m₁.processor.sp - 1) v) :
    Stacked m (words ++ [v]) m₂ := by
  have length : (words ++ [v]).length = words.length + 1 := by simp
  have above (j : Nat) : m₁.processor.sp + UInt32.ofNat j =
      m₂.processor.sp + UInt32.ofNat (j + 1) := by
    rw [sp, Word.add_ofNat_succ]
    grind
  -- The cell of the word is none of those that hold the others.
  have apart (j : Nat) (small : j < words.length) :
      m₁.processor.sp + UInt32.ofNat j ≠ m₁.processor.sp - 1 := by
    intro same
    have start : m₁.processor.sp - 1 = m₂.processor.sp + UInt32.ofNat 0 := by
      rw [sp]
      grind
    rw [above, start] at same
    have := Word.add_ofNat_inj (by omega) (by omega) same
    omega
  refine ⟨?_, ?_, ?_⟩
  · rw [sp, stacked.sp, length, Word.sub_ofNat_succ]
  · have others := stacked.top
    have kept : m₂.memory.wordsFrom m₁.processor.sp words.length =
        m₁.memory.wordsFrom m₁.processor.sp words.length := by
      refine Memory.wordsFrom_congr fun j small => ?_
      rw [memory]
      exact Memory.get_set_of_ne _ _ (apart j small).symm
    have next : m₂.processor.sp + 1 = m₁.processor.sp := by
      rw [sp]
      grind
    unfold Machine.top at others ⊢
    rw [length, Memory.wordsFrom, next, kept, others, List.reverse_concat, memory, sp,
      Memory.get_set_self]
  · intro a outside
    rw [length] at outside
    have first := outside 0 (by omega)
    rw [memory, Memory.cell?_set_of_ne _ _ ?_]
    · refine stacked.memory a fun j small => ?_
      rw [above]
      exact outside (j + 1) (by omega)
    · intro same
      apply first
      rw [sp, same]
      grind

theorem push_ok {v : Word} (pushed : push v m = .ok () m') :
    m' = (m.mapped.setCell (m.processor.sp - 1) v).withSp (m.processor.sp - 1) ∧
      m.mapped.Settled ∧ m.mapped.reaches .stack (m.processor.sp - 1) = true := by
  rcases settled_mapped_or m with settled | ⟨e, failed⟩
  · rw [push_mapped] at pushed
    have eq := push_eq settled v
    rw [processor_mapped] at eq
    split at eq
    next reached =>
      rw [eq] at pushed
      cases pushed
      exact ⟨rfl, settled, reached⟩
    next =>
      rw [eq] at pushed
      cases pushed
  · have fails : push v m = .error (.fatal e) m :=
      Action.bind_of_error (failed .stack (m.processor.sp - 1)) _
    rw [fails] at pushed
    cases pushed

/-- What pushing words comes to. -/
structure Pushed (m : Machine) (words : List Word) (m' : Machine) : Prop
    extends Stacked m words m' where
  /-- Only the stack pointer of the processor changes. -/
  processor : m'.processor =
    { m.processor with sp := m.processor.sp - UInt32.ofNat words.length }
  status : m'.status = m.status

theorem Pushed.append {words rest : List Word} (pushed : Pushed m words m₁)
    (few : words.length + rest.length ≤ Word.count) (more : pushAll rest m₁ = .ok () m') :
    Pushed m (words ++ rest) m' := by
  induction rest generalizing words m₁ with
  | nil =>
    cases more
    rw [List.append_nil]
    exact pushed
  | cons word rest ih =>
    rw [List.length_cons] at few
    cases first : Machine.push word m₁ with
    | error e m₂ =>
      rw [pushAll, Action.bind_of_error first] at more
      cases more
    | ok u m₂ =>
      rw [pushAll, Action.bind_of_ok first] at more
      obtain ⟨rfl, -, -⟩ := push_ok first
      let next := (m₁.mapped.setCell (m₁.processor.sp - 1) word).withSp (m₁.processor.sp - 1)
      have memory : next.memory = m₁.memory.set (m₁.processor.sp - 1) word := by
        rw [← memory_mapped m₁]
        rfl
      have stacked : Stacked m (words ++ [word]) next :=
        pushed.toStacked.push (by omega) rfl memory
      have pushes : Pushed m (words ++ [word]) next := by
        refine ⟨stacked, ?_, ?_⟩
        · have sp : m₁.processor.sp - 1 = m.processor.sp - UInt32.ofNat (words ++ [word]).length :=
            stacked.sp
          show ({ m₁.mapped.processor with sp := m₁.processor.sp - 1 } : Processor) = _
          rw [processor_mapped, sp, pushed.processor]
        · show m₁.mapped.status = _
          rw [mapped_eq]
          exact pushed.status
      have all := ih pushes (by simp; omega) more
      rwa [List.append_assoc] at all

theorem pushAll_ok {words : List Word} (few : words.length ≤ Word.count)
    (pushed : pushAll words m = .ok () m') : Pushed m words m' := by
  have start : Pushed m [] m := ⟨.refl m, by simp, rfl⟩
  exact start.append (by simpa using few) pushed

end Machine

end WordMachine
