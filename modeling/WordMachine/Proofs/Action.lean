import WordMachine.Machine.Basic

/-!
# How work ends

Work on a machine ends with a value or with a failure, and with a machine in
either case.  `Action.Ends` states what holds of all three.  Statements about
work are proved from statements about its parts by `Ends.bind`, and weakened by
`Ends.imp`.

Much of what an instruction does only looks at the machine.  `Action.Reads`
says that work leaves the machine as it was, and what its value or its failure
is like.  Looking twice is looking (`Reads.bind`), and what follows a look
starts on the same machine (`Reads.bind_ends`).

What holds of a machine may hold through all of some work (`Action.Preserves`).
And work may take no notice of a change of the machine, and come to the same
whether the change is made before it or after (`Action.Commutes`).
-/

namespace WordMachine.Action

variable {ε ε' α β : Type} {m m' : Machine}

/-! ## Running the parts -/

theorem bind_apply (x : Action ε α) (f : α → Action ε β) (m : Machine) :
    (x >>= f) m = match x m with
      | .ok a m' => f a m'
      | .error e m' => .error e m' := by
  show EStateM.bind x f m = _
  unfold EStateM.bind
  cases x m <;> rfl

theorem bind_of_ok {x : Action ε α} {a : α} (h : x m = .ok a m') (f : α → Action ε β) :
    (x >>= f) m = f a m' := by
  rw [bind_apply, h]

theorem bind_of_error {x : Action ε α} {e : ε} (h : x m = .error e m') (f : α → Action ε β) :
    (x >>= f) m = .error e m' := by
  rw [bind_apply, h]

theorem bind_congr {x : Action ε α} (h : x m = x m') (f : α → Action ε β) :
    (x >>= f) m = (x >>= f) m' := by
  rw [bind_apply, bind_apply, h]

theorem lift_of_ok {x : Action FatalError α} {a : α} (h : x m = .ok a m') :
    (liftM x : Action Exception α) m = .ok a m' := by
  show (x.adaptExcept Exception.fatal) m = _
  simp [EStateM.adaptExcept, h]

theorem lift_of_error {x : Action FatalError α} {e : FatalError} (h : x m = .error e m') :
    (liftM x : Action Exception α) m = .error (.fatal e) m' := by
  show (x.adaptExcept Exception.fatal) m = _
  simp [EStateM.adaptExcept, h]

theorem adapt_congr {x : Action ε α} {f : ε → ε'} (h : x m = x m') :
    x.adaptExcept f m = x.adaptExcept f m' := by
  simp [EStateM.adaptExcept, h]

theorem lift_congr {x : Action FatalError α} (h : x m = x m') :
    (liftM x : Action Exception α) m = (liftM x : Action Exception α) m' :=
  adapt_congr h

theorem after_of_ok {x : Action ε α} {a : α} (h : x m = .ok a m') : x.after m = m' := by
  simp [after, h]

theorem after_of_error {x : Action ε α} {e : ε} (h : x m = .error e m') : x.after m = m' := by
  simp [after, h]

theorem eq_ok_of_outcome {x : Action ε α} {a : α} (h : x.outcome m = .ok a) :
    x m = .ok a (x.after m) := by
  unfold outcome at h
  unfold after
  cases eq : x m with
  | ok b m' =>
    obtain rfl : b = a := by simpa [eq] using h
    rfl
  | error e m' => simp [eq] at h

theorem eq_error_of_outcome {x : Action ε α} {e : ε} (h : x.outcome m = .error e) :
    x m = .error e (x.after m) := by
  unfold outcome at h
  unfold after
  cases eq : x m with
  | ok b m' => simp [eq] at h
  | error d m' =>
    obtain rfl : d = e := by simpa [eq] using h
    rfl

theorem after_congr {x y : Action ε α} (h : x m = y m') : x.after m = y.after m' := by
  simp [after, h]

/-! ## What holds at the end -/

/-- What holds when work ends: `Q` of its value and the machine then, or `E` of its failure and
the machine then. -/
def Ends (x : Action ε α) (m : Machine) (Q : α → Machine → Prop) (E : ε → Machine → Prop) : Prop :=
  match x m with
  | .ok a m' => Q a m'
  | .error e m' => E e m'

namespace Ends

variable {x : Action ε α} {Q Q' : α → Machine → Prop} {E E' : ε → Machine → Prop}

theorem of_ok {a : α} (h : x m = .ok a m') (holds : Q a m') : x.Ends m Q E := by
  simpa [Ends, h] using holds

theorem of_error {e : ε} (h : x m = .error e m') (holds : E e m') : x.Ends m Q E := by
  simpa [Ends, h] using holds

theorem ok {a : α} (ends : x.Ends m Q E) (h : x m = .ok a m') : Q a m' := by
  simpa [Ends, h] using ends

theorem error {e : ε} (ends : x.Ends m Q E) (h : x m = .error e m') : E e m' := by
  simpa [Ends, h] using ends

theorem imp (ends : x.Ends m Q E) (ok : ∀ a m', Q a m' → Q' a m')
    (error : ∀ e m', E e m' → E' e m') : x.Ends m Q' E' := by
  unfold Ends at *
  split at ends
  · exact ok _ _ ends
  · exact error _ _ ends

theorem and (ends : x.Ends m Q E) (ends' : x.Ends m Q' E') :
    x.Ends m (fun a m' => Q a m' ∧ Q' a m') (fun e m' => E e m' ∧ E' e m') := by
  unfold Ends at *
  split at ends <;> simp_all

theorem outcome (ends : x.Ends m Q E) :
    x.Ends m (fun a m' => Q a m' ∧ x.outcome m = .ok a) E := by
  unfold Ends Action.outcome at *
  split at ends <;> simp_all

theorem bind {f : α → Action ε β} {R : β → Machine → Prop} (first : x.Ends m Q E')
    (ok : ∀ a m', Q a m' → (f a).Ends m' R E) (error : ∀ e m', E' e m' → E e m') :
    (x >>= f).Ends m R E := by
  unfold Ends at first
  split at first
  next a m' h => simpa only [Ends, bind_of_ok h] using ok a m' first
  next e m' h => simpa only [Ends, bind_of_error h] using error e m' first

theorem adapt {f : ε → ε'} {E : ε' → Machine → Prop} (ends : x.Ends m Q fun e => E (f e)) :
    Ends (x.adaptExcept f) m Q E := by
  unfold Ends at *
  cases ran : x m <;> simpa [EStateM.adaptExcept, ran] using ends

/-- Work of the host level inside an instruction. -/
theorem lift {x : Action FatalError α} {E : Exception → Machine → Prop}
    (ends : x.Ends m Q fun e => E (.fatal e)) : (liftM x : Action Exception α).Ends m Q E :=
  ends.adapt

theorem trivial (x : Action ε α) (m : Machine) :
    x.Ends m (fun _ _ => True) (fun _ _ => True) := by
  unfold Ends
  split <;> exact True.intro

theorem after {R : Machine → Prop} (ends : x.Ends m (fun _ => R) (fun _ => R)) :
    R (x.after m) := by
  unfold Ends at ends
  unfold Action.after
  split at ends <;> simp_all

theorem pure {a : α} (holds : Q a m) : (Pure.pure a : Action ε α).Ends m Q E := holds

theorem throw {e : ε} (holds : E e m) : (MonadExcept.throw e : Action ε α).Ends m Q E := holds

end Ends

/-! ## Looking at the machine -/

/-- Work that leaves the machine as it was, with a value of which `V` holds or a failure of which
`F` holds. -/
def Reads (x : Action ε α) (m : Machine) (V : α → Prop) (F : ε → Prop) : Prop :=
  x.Ends m (fun a m' => m' = m ∧ V a) (fun e m' => m' = m ∧ F e)

namespace Reads

variable {x : Action ε α} {V V' : α → Prop} {F F' : ε → Prop}

theorem of_ok {a : α} (h : x m = .ok a m) (holds : V a) : x.Reads m V F :=
  Ends.of_ok h ⟨rfl, holds⟩

theorem of_error {e : ε} (h : x m = .error e m) (holds : F e) : x.Reads m V F :=
  Ends.of_error h ⟨rfl, holds⟩

theorem imp (reads : x.Reads m V F) (ok : ∀ a, V a → V' a) (error : ∀ e, F e → F' e) :
    x.Reads m V' F' :=
  Ends.imp reads (fun _ _ h => ⟨h.1, ok _ h.2⟩) (fun _ _ h => ⟨h.1, error _ h.2⟩)

theorem bind_ends {f : α → Action ε β} {Q : β → Machine → Prop} {E : ε → Machine → Prop}
    (first : x.Reads m V F) (ok : ∀ a, V a → (f a).Ends m Q E) (error : ∀ e, F e → E e m) :
    (x >>= f).Ends m Q E := by
  refine Ends.bind first ?_ ?_
  · rintro a _ ⟨rfl, holds⟩
    exact ok a holds
  · rintro e _ ⟨rfl, holds⟩
    exact error e holds

theorem bind {f : α → Action ε β} {W : β → Prop} (first : x.Reads m V F)
    (ok : ∀ a, V a → (f a).Reads m W F) : (x >>= f).Reads m W F :=
  bind_ends first ok fun _ h => ⟨rfl, h⟩

theorem pure {a : α} (holds : V a) : (Pure.pure a : Action ε α).Reads m V F := ⟨rfl, holds⟩

theorem throw {e : ε} (holds : F e) : (MonadExcept.throw e : Action ε α).Reads m V F :=
  ⟨rfl, holds⟩

end Reads

/-! ## What work keeps -/

/-- Work that keeps what holds of the machine, whether it fails or not. -/
def Preserves (x : Action ε α) (R : Machine → Prop) : Prop :=
  ∀ m, R m → x.Ends m (fun _ => R) (fun _ => R)

namespace Preserves

variable {x : Action ε α} {R : Machine → Prop}

theorem pure (a : α) : (Pure.pure a : Action ε α).Preserves R := fun _ holds => holds

theorem throw (e : ε) : (MonadExcept.throw e : Action ε α).Preserves R := fun _ holds => holds

theorem bind {f : α → Action ε β} (first : x.Preserves R) (next : ∀ a, (f a).Preserves R) :
    (x >>= f).Preserves R :=
  fun m holds => Ends.bind (first m holds) (fun a m' h => next a m' h) fun _ _ h => h

theorem ite {c : Prop} [Decidable c] {y : Action ε α} (pos : x.Preserves R)
    (neg : y.Preserves R) : Preserves (if c then x else y) R := by
  split
  · exact pos
  · exact neg

theorem adapt {f : ε → ε'} (first : x.Preserves R) : Preserves (x.adaptExcept f) R :=
  fun m holds => Ends.adapt (first m holds)

theorem after (preserves : x.Preserves R) (holds : R m) : R (x.after m) :=
  Ends.after (preserves m holds)

theorem attempt (preserves : x.Preserves R) :
    (x.attempt : Action ε' (Except ε α)).Preserves R :=
  fun m holds => Ends.of_ok (attempt_apply x m) (preserves.after holds)

end Preserves

/-! ## Changes that work takes no notice of -/

/-- What work comes to, with the machine changed. -/
def changed (g : Machine → Machine) : EStateM.Result ε Machine α → EStateM.Result ε Machine α
  | .ok a m => .ok a (g m)
  | .error e m => .error e (g m)

/-- Work that comes to the same whether the machine is changed before it or after. -/
def Commutes (x : Action ε α) (g : Machine → Machine) : Prop := ∀ m, x (g m) = changed g (x m)

namespace Commutes

variable {x : Action ε α} {g : Machine → Machine}

theorem pure (a : α) : (Pure.pure a : Action ε α).Commutes g := fun _ => rfl

theorem throw (e : ε) : (MonadExcept.throw e : Action ε α).Commutes g := fun _ => rfl

theorem bind {f : α → Action ε β} (first : x.Commutes g) (next : ∀ a, (f a).Commutes g) :
    (x >>= f).Commutes g := by
  intro m
  rw [bind_apply, bind_apply, first m]
  cases x m with
  | ok a m' => exact next a m'
  | error e m' => rfl

theorem ite {c : Prop} [Decidable c] {y : Action ε α} (pos : x.Commutes g) (neg : y.Commutes g) :
    Commutes (if c then x else y) g := by
  split
  · exact pos
  · exact neg

theorem adapt {f : ε → ε'} (first : x.Commutes g) : Commutes (x.adaptExcept f) g := by
  intro m
  simp only [EStateM.adaptExcept, first m]
  cases x m <;> rfl

/-- Work of the host level inside an instruction. -/
theorem lift {x : Action FatalError α} (first : x.Commutes g) :
    (liftM x : Action Exception α).Commutes g := first.adapt

theorem attempt (first : x.Commutes g) : (x.attempt : Action ε' (Except ε α)).Commutes g := by
  intro m
  unfold Action.attempt
  rw [first m]
  cases x m <;> rfl

/-- A change that cannot fail. -/
theorem update {u : Machine → Machine} (same : ∀ m, u (g m) = g (u m)) :
    Commutes (fun m => .ok () (u m) : Action ε Unit) g :=
  fun m => congrArg (EStateM.Result.ok ()) (same m)

theorem outcome (commutes : x.Commutes g) (m : Machine) : x.outcome (g m) = x.outcome m := by
  unfold Action.outcome
  rw [commutes m]
  cases x m <;> rfl

theorem after (commutes : x.Commutes g) (m : Machine) : x.after (g m) = g (x.after m) := by
  unfold Action.after
  rw [commutes m]
  cases x m <;> rfl

end Commutes

end WordMachine.Action
