import Symbolication.Proofs.Report

namespace Symbolication

variable {α β : Type}

namespace Traced

theorem records_bind (x : Traced α) (f : α → Traced β) :
    (x >>= f).records = x.records ++ (f x.value).records := by
  simp [records]

def Calm (x : Traced α) : Prop := ∀ r ∈ x.records, r.level ≠ .error

@[simp] theorem calm_pure (a : α) : (pure a : Traced α).Calm := List.forall_mem_nil _

@[simp] theorem calm_bind {x : Traced α} {f : α → Traced β} :
    (x >>= f).Calm ↔ x.Calm ∧ (f x.value).Calm := by
  simp only [Calm, records_bind, List.forall_mem_append]

@[simp] theorem calm_log {level : Level} {message : Text} :
    (log level message).Calm ↔ level ≠ .error :=
  List.forall_mem_singleton

@[simp] theorem calm_call (argv : List Text) : (event (.call argv)).Calm := List.forall_mem_nil _

@[simp] theorem calm_map {f : α → β} {x : Traced α} : (f <$> x).Calm ↔ x.Calm := by
  rw [Calm, records, events_map]
  rfl

theorem calm_mapM {f : α → Traced β} {as : List α} (h : ∀ a ∈ as, (f a).Calm) :
    (as.mapM f).Calm := by
  induction as with
  | nil => exact calm_pure _
  | cons a as ih =>
      obtain ⟨ha, has⟩ := List.forall_mem_cons.mp h
      rw [List.mapM_cons, calm_bind, calm_bind]
      exact ⟨ha, ih has, calm_pure _⟩

end Traced

namespace Attempt

@[simp] theorem calm_pure (a : α) : (pure a : Attempt α).run.Calm := Traced.calm_pure _

@[simp] theorem calm_throw (e : Halt) : (throw e : Attempt α).run.Calm := Traced.calm_pure _

theorem calm_bind {x : Attempt α} {f : α → Attempt β} (hx : x.run.Calm)
    (hf : ∀ a, (f a).run.Calm) : (x >>= f).run.Calm := by
  rw [ExceptT.run_bind, Traced.calm_bind]
  refine ⟨hx, ?_⟩
  cases x.run.value with
  | ok a => exact hf a
  | error e => exact Traced.calm_pure _

theorem calm_adapt {x : Attempt α} (h : x.run.Calm) (g : Halt → Halt) :
    (ExceptT.adapt g x).run.Calm :=
  Traced.calm_map.mpr h

end Attempt

theorem Host.calm_probe (host : Host) (command : Text) : (host.probe command).run.Calm := by
  simp only [probe, Attempt.run_lift_bind, Traced.calm_bind, Traced.calm_log, Traced.calm_call]
  split
  · simp
  · simp
  · split <;> simp

theorem Host.calm_run (host : Host) (command : Text) (arguments : List Text) :
    (host.run command arguments).run.Calm := by
  simp only [run, Attempt.run_lift_bind, Traced.calm_bind, Traced.calm_log, Traced.calm_call]
  split
  · simp
  · simp
  · split
    · simp
    · split <;> simp

theorem calm_locate (host : Host) (names : List Text) : (locate host names).run.Calm := by
  induction names with
  | nil => exact Attempt.calm_pure _
  | cons c cs ih =>
      rw [locate]
      apply Attempt.calm_bind (host.calm_probe c)
      intro usable
      split <;> simp [ih]

theorem calm_findSymbolizer (host : Host) (extra : List Text) :
    (findSymbolizer host extra).run.Calm := by
  rw [findSymbolizer]
  apply Attempt.calm_bind (calm_locate host _)
  intro found
  split <;> simp

theorem Artifact.calm_chooseSuffix (override : Option Text) (report : Text) :
    (chooseSuffix override report).Calm := by
  cases override <;> simp [chooseSuffix]

namespace Pool

theorem calm_oneByOne {tasks : List (Attempt α)} (h : ∀ t ∈ tasks, t.run.Calm) :
    (oneByOne tasks).run.Calm := by
  induction tasks with
  | nil => exact Attempt.calm_pure _
  | cons task tasks ih =>
      obtain ⟨htask, htasks⟩ := List.forall_mem_cons.mp h
      rw [oneByOne]
      apply Attempt.calm_bind htask
      intro a
      apply Attempt.calm_bind (ih htasks)
      intro rest
      exact Attempt.calm_pure _

theorem calm_sideBySide {tasks : List (Attempt α)} (h : ∀ t ∈ tasks, t.run.Calm)
    (order : List (Fin tasks.length)) : (sideBySide tasks order).run.Calm := by
  simp only [sideBySide, ExceptT.run_mk, finished, Traced.calm_bind, Traced.calm_pure, and_true]
  apply Traced.calm_mapM
  intro i _
  simp [h _ (List.getElem_mem _)]

end Pool

variable {host : Host} {command : Text}

theorem Job.calm_resolve (host : Host) (command : Text) (job : Job) :
    (job.resolve host command).run.Calm := by
  have hblocks : (job.blocks host command).run.Calm := by
    rw [blocks, Attempt.run_lift_bind, Traced.calm_bind]
    refine ⟨by simp, ?_⟩
    apply Attempt.calm_bind (Attempt.calm_adapt (host.calm_run _ _) _)
    intro output
    dsimp only
    split <;> simp
  exact Attempt.calm_bind hblocks fun _ => Attempt.calm_pure _

theorem calm_resolveAll (workers : Int) (jobs : List Job) :
    (resolveAll host command workers jobs).run.Calm := by
  have htasks : ∀ t ∈ jobs.map (Job.resolve host command), t.run.Calm :=
    List.forall_mem_map.mpr fun job _ => job.calm_resolve host command
  rw [resolveAll_eq, ExceptT.run_map, Traced.calm_map]
  split
  · exact Pool.calm_oneByOne htasks
  · exact Pool.calm_sideBySide htasks _

theorem Report.calm_symbolicate (directory : Path) (override : Option Text) (workers : Int)
    (report : Text) : (symbolicate host command directory override workers report).run.Calm := by
  simp only [symbolicate, Attempt.run_lift_bind, Traced.calm_bind]
  refine ⟨by simp, ?_⟩
  split
  · exact Attempt.calm_pure _
  · rw [Attempt.run_lift_bind, Traced.calm_bind]
    refine ⟨Artifact.calm_chooseSuffix _ _, ?_⟩
    exact Attempt.calm_bind (calm_resolveAll _ _) fun _ => Attempt.calm_pure _

end Symbolication
