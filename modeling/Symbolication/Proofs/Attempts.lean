import Symbolication.Host

namespace Symbolication

variable {α β : Type}

theorem map_eq_ok_iff {ε : Type} {x : Except ε α} {f : α → β} {b : β} :
    x.map f = .ok b ↔ ∃ a, x = .ok a ∧ f a = b := by
  cases x <;> simp [Except.map]

theorem map_eq_error_iff {ε : Type} {x : Except ε α} {f : α → β} {e : ε} :
    x.map f = .error e ↔ x = .error e := by
  cases x <;> simp [Except.map]

theorem mapError_eq_ok_iff {ε ε' : Type} {x : Except ε α} {f : ε → ε'} {a : α} :
    x.mapError f = .ok a ↔ x = .ok a := by
  constructor
  · intro h
    cases x with
    | error e => cases h
    | ok b => exact congrArg Except.ok (Except.ok.inj h)
  · rintro rfl
    rfl

theorem bind_eq_ok_iff {ε : Type} {x : Except ε α} {f : α → Except ε β} {b : β} :
    (x >>= f) = .ok b ↔ ∃ a, x = .ok a ∧ f a = .ok b := by
  cases x <;> simp [bind, Except.bind]

theorem bind_eq_error_iff {ε : Type} {x : Except ε α} {f : α → Except ε β} {e : ε} :
    (x >>= f) = .error e ↔ x = .error e ∨ ∃ a, x = .ok a ∧ f a = .error e := by
  cases x <;> simp [bind, Except.bind]

namespace Traced

@[simp] theorem calls_pure (a : α) : (pure a : Traced α).calls = [] := rfl

@[simp] theorem calls_bind (x : Traced α) (f : α → Traced β) :
    (x >>= f).calls = x.calls ++ (f x.value).calls := by
  simp [calls]

@[simp] theorem value_map (f : α → β) (x : Traced α) : (f <$> x).value = f x.value := rfl

@[simp] theorem events_map (f : α → β) (x : Traced α) : (f <$> x).events = x.events :=
  List.append_nil _

@[simp] theorem calls_map (f : α → β) (x : Traced α) : (f <$> x).calls = x.calls := by
  rw [calls, events_map, calls]

@[simp] theorem events_log (level : Level) (message : Text) :
    (log level message).events = [.record ⟨level, message⟩] := rfl

@[simp] theorem calls_log (level : Level) (message : Text) : (log level message).calls = [] := rfl

@[simp] theorem calls_call (argv : List Text) : (event (.call argv)).calls = [argv] := rfl

@[simp] theorem value_mapM (f : α → Traced β) (as : List α) :
    (as.mapM f).value = as.map fun a => (f a).value := by
  induction as with
  | nil => rfl
  | cons a as ih => simp [List.mapM_cons, ih]

@[simp] theorem calls_mapM (f : α → Traced β) (as : List α) :
    (as.mapM f).calls = as.flatMap fun a => (f a).calls := by
  induction as with
  | nil => rfl
  | cons a as ih => simp [List.mapM_cons, ih]

end Traced

namespace Attempt

@[simp] theorem run_lift_bind (x : Traced α) (f : α → Attempt β) :
    ((liftM x : Attempt α) >>= f).run = x >>= fun a => (f a).run :=
  ExceptT.run_bind_lift x f

@[simp] theorem value_pure (a : α) : (pure a : Attempt α).run.value = .ok a := rfl

@[simp] theorem calls_pure (a : α) : (pure a : Attempt α).run.calls = [] := rfl

@[simp] theorem value_throw (e : Halt) : (throw e : Attempt α).run.value = .error e := rfl

@[simp] theorem calls_throw (e : Halt) : (throw e : Attempt α).run.calls = [] := rfl

@[simp] theorem value_bind (x : Attempt α) (f : α → Attempt β) :
    (x >>= f).run.value = x.run.value.bind fun a => (f a).run.value := by
  rw [ExceptT.run_bind, Traced.value_bind]
  cases x.run.value <;> rfl

theorem value_bind_eq_ok_iff {x : Attempt α} {f : α → Attempt β} {b : β} :
    (x >>= f).run.value = .ok b ↔ ∃ a, x.run.value = .ok a ∧ (f a).run.value = .ok b := by
  rw [value_bind]
  exact bind_eq_ok_iff

theorem value_bind_eq_error_iff {x : Attempt α} {f : α → Attempt β} {e : Halt} :
    (x >>= f).run.value = .error e ↔
      x.run.value = .error e ∨ ∃ a, x.run.value = .ok a ∧ (f a).run.value = .error e := by
  rw [value_bind]
  exact bind_eq_error_iff

theorem calls_bind_of_ok {x : Attempt α} {a : α} (h : x.run.value = .ok a) (f : α → Attempt β) :
    (x >>= f).run.calls = x.run.calls ++ (f a).run.calls := by
  rw [ExceptT.run_bind, Traced.calls_bind, h]

theorem calls_bind_of_error {x : Attempt α} {e : Halt} (h : x.run.value = .error e)
    (f : α → Attempt β) : (x >>= f).run.calls = x.run.calls := by
  rw [ExceptT.run_bind, Traced.calls_bind, h]
  simp

theorem calls_bind_of_quiet (x : Attempt α) {f : α → Attempt β} (h : ∀ a, (f a).run.calls = []) :
    (x >>= f).run.calls = x.run.calls := by
  cases hx : x.run.value with
  | ok a => rw [calls_bind_of_ok hx, h, List.append_nil]
  | error e => exact calls_bind_of_error hx f

@[simp] theorem value_map (f : α → β) (x : Attempt α) :
    (f <$> x).run.value = x.run.value.map f := by
  rw [ExceptT.run_map, Traced.value_map]

@[simp] theorem calls_map (f : α → β) (x : Attempt α) : (f <$> x).run.calls = x.run.calls := by
  rw [ExceptT.run_map, Traced.calls_map]

theorem value_mapM_of_ok {f : α → Attempt β} {g : α → β} {as : List α}
    (h : ∀ a ∈ as, (f a).run.value = .ok (g a)) : (as.mapM f).run.value = .ok (as.map g) := by
  induction as with
  | nil => rfl
  | cons a as ih =>
      obtain ⟨ha, has⟩ := List.forall_mem_cons.mp h
      rw [List.mapM_cons, value_bind, ha, List.map_cons]
      change ((as.mapM f) >>= fun bs => pure (g a :: bs)).run.value = _
      rw [value_bind, ih has]
      rfl

@[simp] theorem value_adapt (x : Attempt α) (g : Halt → Halt) :
    (ExceptT.adapt g x).run.value = x.run.value.mapError g := rfl

@[simp] theorem calls_adapt (x : Attempt α) (g : Halt → Halt) :
    (ExceptT.adapt g x).run.calls = x.run.calls :=
  Traced.calls_map (Except.mapError g) x.run

end Attempt

end Symbolication
