import Mathlib.Data.List.Basic
import Mathlib.Data.List.Induction

/-!
# What came last

A history lists what happened, the oldest first.  `Latest` says that something of
a kind happened and that nothing since then made up for it.  The newest entry
either is of the kind, or leaves what was the latest before it, or ends it
(`latest_concat`).
-/

namespace WordMachine

variable {α β : Type} {history : List α} {x : α} {hit ends : α → Prop}

/-- Whether a hit happened, and nothing since then that ends it. -/
def Latest (history : List α) (hit ends : α → Prop) : Prop :=
  ∃ before x after, history = before ++ x :: after ∧ hit x ∧ ∀ y ∈ after, ¬ends y

theorem not_latest_nil : ¬Latest [] hit ends := by
  rintro ⟨before, x, after, eq, -⟩
  simp at eq

theorem latest_concat :
    Latest (history ++ [x]) hit ends ↔ hit x ∨ Latest history hit ends ∧ ¬ends x := by
  constructor
  · rintro ⟨before, y, after, eq, found, quiet⟩
    rcases after.eq_nil_or_concat' with rfl | ⟨after, last, rfl⟩
    · obtain ⟨-, same⟩ := List.append_inj' eq rfl
      rw [List.singleton_inj] at same
      exact .inl (same ▸ found)
    · rw [← List.cons_append, ← List.append_assoc] at eq
      obtain ⟨rest, same⟩ := List.append_inj' eq rfl
      rw [List.singleton_inj] at same
      refine .inr ⟨⟨before, y, after, rest, found, fun z old => ?_⟩, ?_⟩
      · exact quiet z (List.mem_append_left _ old)
      · exact same ▸ quiet last (by simp)
  · rintro (found | ⟨⟨before, y, after, rfl, found, quiet⟩, last⟩)
    · exact ⟨history, x, [], rfl, found, nofun⟩
    · refine ⟨before, y, after ++ [x], by simp, found, fun z later => ?_⟩
      rcases List.mem_append.mp later with old | new
      · exact quiet z old
      · rw [List.mem_singleton.mp new]
        exact last

/-- If only hits end hits, the latest is there as soon as there is one. -/
theorem exists_latest_iff {hit : β → α → Prop} :
    (∃ b, Latest history (hit b) fun x => ∃ b, hit b x) ↔ ∃ x ∈ history, ∃ b, hit b x := by
  constructor
  · rintro ⟨b, before, x, after, rfl, found, -⟩
    exact ⟨x, by simp, b, found⟩
  · induction history using List.reverseRecOn with
    | nil => nofun
    | append_singleton history last ih =>
      rintro ⟨x, happened, found⟩
      by_cases covers : ∃ b, hit b last
      · obtain ⟨b, found⟩ := covers
        exact ⟨b, latest_concat.mpr (.inl found)⟩
      · have old : x ∈ history := by
          rcases List.mem_append.mp happened with old | new
          · exact old
          · rw [List.mem_singleton.mp new] at found
            exact absurd found covers
        obtain ⟨b, before⟩ := ih ⟨x, old, found⟩
        exact ⟨b, latest_concat.mpr (.inr ⟨before, covers⟩)⟩

end WordMachine
