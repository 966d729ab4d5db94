import Mathlib.Logic.Basic

/-!
Inversion rules for computations in `Except`.

A successful run of a `do` block in `Except` is a chain of successful binds;
`bind_eq_ok` peels one of them off, and the `throw` and `error` rules close a
branch that cannot succeed.  A failing run is the dual: `bind_eq_error` says
which bind failed.  `failIf` writes an early error return as one more bind, so
that a block of such tests stays a plain chain of binds.

`Ensures x post` is the postcondition rule of the monad: every result `x`
succeeds with satisfies `post`.  It goes through `pure`, `throw`, binds, maps and
conditionals by `simp`, so a frame property of a `do` block (a field that no
successful path changes, say) is proved by splitting the block's `match`es and
simplifying the rest.
-/

namespace Except

variable {ε α β : Type}

/-- `if (cond) return error;`: fail with `err` when `cond` holds. -/
def failIf (cond : Bool) (err : ε) : Except ε Unit := if cond then .error err else .ok ()

@[simp]
theorem failIf_eq_ok {cond : Bool} {err : ε} {u : Unit} : failIf cond err = .ok u ↔ cond = false := by
  cases cond <;> simp [failIf]

@[simp]
theorem failIf_false {err : ε} : failIf false err = .ok () := rfl

@[simp]
theorem failIf_true {err : ε} : failIf true err = .error err := rfl

@[simp]
theorem bind_eq_ok {x : Except ε α} {f : α → Except ε β} {b : β} :
    (x >>= f) = .ok b ↔ ∃ a, x = .ok a ∧ f a = .ok b := by
  cases x <;> simp [bind, Except.bind]

@[simp]
theorem bind_eq_error {x : Except ε α} {f : α → Except ε β} {e : ε} :
    (x >>= f) = .error e ↔ x = .error e ∨ ∃ a, x = .ok a ∧ f a = .error e := by
  cases x <;> simp [bind, Except.bind]

@[simp]
theorem ok_bind {a : α} {f : α → Except ε β} : (Except.ok a >>= f) = f a := rfl

@[simp]
theorem error_bind {e : ε} {f : α → Except ε β} : (Except.error e >>= f) = .error e := rfl

@[simp]
theorem pure_eq_ok {a b : α} : (pure a : Except ε α) = .ok b ↔ a = b := by
  simp [pure, Except.pure]

@[simp]
theorem throw_ne_ok {e : ε} {b : α} : (throw e : Except ε α) ≠ .ok b := by
  simp [throw, throwThe, MonadExceptOf.throw]

@[simp]
theorem throw_bind {e : ε} {f : α → Except ε β} : (throw e >>= f : Except ε β) = throw e := rfl

/-- `if (cond) throw e;` followed by `rest`: the run succeeds when the test
fails and `rest` succeeds. -/
theorem ite_throw_eq_ok {c : Prop} [Decidable c] {e : ε} {k : α → Except ε β} {rest : Except ε β} {b : β} :
    (if c then throw e >>= k else rest) = .ok b ↔ ¬c ∧ rest = .ok b := by
  by_cases holds : c <;> simp [holds]

@[simp]
theorem map_eq_ok {x : Except ε α} {f : α → β} {b : β} :
    (f <$> x) = .ok b ↔ ∃ a, x = .ok a ∧ f a = b := by
  cases x <;> simp [Functor.map, Except.map]

@[simp]
theorem map_eq_ok' {x : Except ε α} {f : α → β} {b : β} :
    x.map f = .ok b ↔ ∃ a, x = .ok a ∧ f a = b := by
  cases x <;> simp [Except.map]

/-- A successful `Unit` computation has only one result. -/
@[simp]
theorem exists_eq_ok_unit {x : Except ε Unit} : (∃ u, x = .ok u) ↔ x = .ok () :=
  ⟨fun ⟨(), succeeded⟩ => succeeded, fun succeeded => ⟨(), succeeded⟩⟩

theorem toBool_eq_true {x : Except ε α} : x.toBool = true ↔ ∃ a, x = .ok a := by
  cases x <;> simp [Except.toBool]

/-! ### Postconditions -/

/-- Every result the computation succeeds with satisfies `post`. -/
def Ensures (x : Except ε α) (post : α → Prop) : Prop := ∀ a, x = .ok a → post a

theorem Ensures.of_eq_ok {x : Except ε α} {post : α → Prop} (ensures : x.Ensures post) {a : α} (succeeded : x = .ok a) :
    post a :=
  ensures a succeeded

theorem Ensures.mono {x : Except ε α} {post post' : α → Prop} (ensures : x.Ensures post)
    (weaker : ∀ a, post a → post' a) : x.Ensures post' :=
  fun a succeeded => weaker a (ensures a succeeded)

@[simp] theorem ensures_ok {a : α} {post : α → Prop} : (Except.ok a : Except ε α).Ensures post ↔ post a :=
  ⟨fun ensures => ensures a rfl, fun holds _ succeeded => by cases succeeded; exact holds⟩

@[simp] theorem ensures_pure {a : α} {post : α → Prop} : (pure a : Except ε α).Ensures post ↔ post a :=
  ensures_ok

@[simp] theorem ensures_error {e : ε} {post : α → Prop} : (Except.error e : Except ε α).Ensures post :=
  fun _ failed => by cases failed

@[simp] theorem ensures_throw {e : ε} {post : α → Prop} : (throw e : Except ε α).Ensures post :=
  ensures_error

@[simp] theorem ensures_true {x : Except ε α} : x.Ensures (fun _ => True) :=
  fun _ _ => trivial

@[simp] theorem ensures_bind {x : Except ε α} {f : α → Except ε β} {post : β → Prop} :
    (x >>= f).Ensures post ↔ x.Ensures fun a => (f a).Ensures post := by
  cases x <;> simp [bind, Except.bind]

@[simp] theorem ensures_map {x : Except ε α} {f : α → β} {post : β → Prop} :
    (f <$> x).Ensures post ↔ x.Ensures fun a => post (f a) := by
  cases x <;> simp [Functor.map, Except.map]

@[simp] theorem ensures_map' {x : Except ε α} {f : α → β} {post : β → Prop} :
    (x.map f).Ensures post ↔ x.Ensures fun a => post (f a) := by
  cases x <;> simp [Except.map]

@[simp] theorem ensures_ite {c : Prop} [Decidable c] {x y : Except ε α} {post : α → Prop} :
    (if c then x else y).Ensures post ↔ (c → x.Ensures post) ∧ (¬c → y.Ensures post) := by
  by_cases holds : c <;> simp [holds]

end Except
