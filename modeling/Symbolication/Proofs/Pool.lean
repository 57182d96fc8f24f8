import Mathlib.Data.List.FinRange
import Symbolication.Proofs.Jobs

namespace Symbolication

section Sequences

variable {ι ε α : Type} {result : ι → Except ε α}

structure FirstToFail (result : ι → Except ε α) (items earlier : List ι) (item : ι) (e : ε) :
    Prop where
  place : ∃ later, items = earlier ++ item :: later
  earlier_ok : ∀ i ∈ earlier, ∃ a, result i = .ok a
  fails : result item = .error e

theorem mapM_id_eq_ok_iff {rs : List (Except ε α)} {as : List α} :
    rs.mapM id = .ok as ↔ rs = as.map .ok := by
  constructor
  · intro h
    induction rs generalizing as with
    | nil =>
        obtain rfl : [] = as := Except.ok.inj h
        rfl
    | cons r rs ih =>
        rw [List.mapM_cons] at h
        cases r with
        | error e => cases h
        | ok a =>
            cases hr : rs.mapM id with
            | error e =>
                rw [hr] at h
                cases h
            | ok bs =>
                rw [hr] at h
                obtain rfl : a :: bs = as := Except.ok.inj h
                rw [ih hr]
                rfl
  · rintro rfl
    induction as with
    | nil => rfl
    | cons a as ih =>
        rw [List.map_cons, List.mapM_cons, ih]
        rfl

theorem firstToFail_cons_of_error {i : ι} {items : List ι} {e e' : ε} (hi : result i = .error e') :
    (∃ earlier item, FirstToFail result (i :: items) earlier item e) ↔ e' = e := by
  constructor
  · rintro ⟨earlier, item, ⟨later, h⟩, hok, hfail⟩
    cases earlier with
    | nil =>
        obtain ⟨rfl, -⟩ := List.cons.inj h
        exact Except.error.inj (hi.symm.trans hfail)
    | cons j earlier =>
        obtain ⟨rfl, -⟩ := List.cons.inj h
        obtain ⟨a, ha⟩ := hok _ (List.mem_cons_self ..)
        rw [hi] at ha
        cases ha
  · rintro rfl
    exact ⟨[], i, ⟨items, rfl⟩, List.forall_mem_nil _, hi⟩

theorem firstToFail_cons_of_ok {i : ι} {items : List ι} {a : α} {e : ε} (hi : result i = .ok a) :
    (∃ earlier item, FirstToFail result (i :: items) earlier item e) ↔
      ∃ earlier item, FirstToFail result items earlier item e := by
  constructor
  · rintro ⟨earlier, item, ⟨later, h⟩, hok, hfail⟩
    cases earlier with
    | nil =>
        obtain ⟨rfl, -⟩ := List.cons.inj h
        rw [hi] at hfail
        cases hfail
    | cons j earlier =>
        obtain ⟨rfl, hitems⟩ := List.cons.inj h
        exact ⟨earlier, item, ⟨later, hitems⟩, (List.forall_mem_cons.mp hok).2, hfail⟩
  · rintro ⟨earlier, item, ⟨later, rfl⟩, hok, hfail⟩
    exact ⟨i :: earlier, item, ⟨later, rfl⟩, List.forall_mem_cons.mpr ⟨⟨a, hi⟩, hok⟩, hfail⟩

theorem mapM_id_eq_error_iff {items : List ι} {e : ε} :
    (items.map result).mapM id = .error e ↔ ∃ earlier item, FirstToFail result items earlier item e := by
  induction items with
  | nil =>
      constructor
      · intro h
        cases h
      · rintro ⟨earlier, item, ⟨later, h⟩, -, -⟩
        exact absurd h (by simp)
  | cons i items ih =>
      rw [List.map_cons, List.mapM_cons]
      cases hi : result i with
      | error e' =>
          rw [firstToFail_cons_of_error hi]
          exact ⟨Except.error.inj, congrArg _⟩
      | ok a =>
          rw [firstToFail_cons_of_ok hi, ← ih]
          cases (items.map result).mapM id with
          | error e' => exact ⟨id, id⟩
          | ok as =>
              constructor
              · intro h
                cases h
              · intro h
                cases h

theorem ok_of_map_eq {items : List ι} {as : List α} (h : items.map result = as.map .ok) :
    (∀ i ∈ items, ∃ a ∈ as, result i = .ok a) ∧ ∀ a ∈ as, ∃ i ∈ items, result i = .ok a := by
  have hmem (r : Except ε α) : r ∈ as.map .ok ↔ ∃ i ∈ items, result i = r := by
    rw [← h, List.mem_map]
  constructor
  · intro i hi
    obtain ⟨a, ha, he⟩ := List.mem_map.mp ((hmem _).mpr ⟨i, hi, rfl⟩)
    exact ⟨a, ha, he.symm⟩
  · intro a ha
    exact (hmem _).mp (List.mem_map_of_mem ha)

end Sequences

namespace Pool

variable {α : Type}

theorem value_oneByOne (tasks : List (Attempt α)) :
    (oneByOne tasks).run.value = (tasks.map fun t => t.run.value).mapM id := by
  induction tasks with
  | nil => rfl
  | cons task tasks ih =>
      simp only [oneByOne, Attempt.value_bind, ih, Attempt.value_pure, List.map_cons, List.mapM_cons]
      rfl

theorem calls_oneByOne_of_ok {tasks : List (Attempt α)} (h : ∀ t ∈ tasks, ∃ a, t.run.value = .ok a)
    (later : List (Attempt α)) :
    (oneByOne (tasks ++ later)).run.calls =
      (tasks.flatMap fun t => t.run.calls) ++ (oneByOne later).run.calls := by
  induction tasks with
  | nil => rfl
  | cons task tasks ih =>
      obtain ⟨⟨a, ha⟩, h⟩ := List.forall_mem_cons.mp h
      simp only [List.cons_append, oneByOne, List.flatMap_cons, List.append_assoc]
      rw [Attempt.calls_bind_of_ok ha, Attempt.calls_bind_of_quiet _ (fun _ => rfl), ih h]

theorem calls_oneByOne_of_error {task : Attempt α} {e : Halt} (h : task.run.value = .error e)
    (later : List (Attempt α)) : (oneByOne (task :: later)).run.calls = task.run.calls := by
  rw [oneByOne, Attempt.calls_bind_of_error h]

theorem get?_pairs {κ ν : Type} [DecidableEq κ] (f : κ → ν) {ks : List κ} {k : κ} (h : k ∈ ks) :
    Table.get? (ks.map fun k => (k, f k)) k = some (f k) := by
  induction ks with
  | nil => cases h
  | cons j ks ih =>
      by_cases hj : j = k
      · simp [Table.get?, hj]
      · have hk : k ∈ ks := (List.mem_cons.mp h).resolve_left (Ne.symm hj)
        simpa [Table.get?, hj] using ih hk

theorem value_sideBySide (tasks : List (Attempt α)) {order : List (Fin tasks.length)}
    (h : order.Perm (List.finRange tasks.length)) :
    (sideBySide tasks order).run.value = (tasks.map fun t => t.run.value).mapM id := by
  have hdone : (finished tasks order).value = order.map fun i => (i, tasks[i].run.value) := by
    simp [finished]
  have hget (i : Fin tasks.length) :
      Table.get? (finished tasks order).value i = some tasks[i].run.value := by
    rw [hdone]
    exact get?_pairs _ (h.mem_iff.mpr (List.mem_finRange i))
  have hall : (List.finRange tasks.length).filterMap (Table.get? (finished tasks order).value) =
      tasks.map fun t => t.run.value := by
    rw [funext hget, List.filterMap_eq_map']
    conv_rhs => rw [← List.map_getElem_finRange tasks, List.map_map]
    rfl
  change collect (finished tasks order).value = _
  rw [collect, hall]

theorem calls_sideBySide (tasks : List (Attempt α)) {order : List (Fin tasks.length)}
    (h : order.Perm (List.finRange tasks.length)) :
    (sideBySide tasks order).run.calls.Perm (tasks.flatMap fun t => t.run.calls) := by
  have hcalls : (sideBySide tasks order).run.calls = order.flatMap fun i => tasks[i].run.calls := by
    simp [sideBySide, finished]
  rw [hcalls]
  refine (h.flatMap_right _).trans (.of_eq ?_)
  conv_rhs => rw [← List.map_getElem_finRange tasks, List.flatMap_map]
  rfl

end Pool

variable {host : Host} {command : Text}

theorem resolveAll_eq (workers : Int) (jobs : List Job) :
    resolveAll host command workers jobs = (fun tables => tables.foldl Table.merge []) <$>
      if workers ≤ 1 ∨ jobs.length ≤ 1 then Pool.oneByOne (jobs.map (Job.resolve host command))
      else Pool.sideBySide (jobs.map (Job.resolve host command)) (host.finish _) := by
  simp only [resolveAll, List.length_map, bind_pure_comp]
  split <;> rfl

theorem value_resolveAll (workers : Int) (jobs : List Job) :
    (resolveAll host command workers jobs).run.value =
      ((jobs.map fun job : Job => (job.resolve host command).run.value).mapM id).map
        fun tables => tables.foldl Table.merge [] := by
  rw [resolveAll_eq, Attempt.value_map]
  split
  · rw [Pool.value_oneByOne, List.map_map]
    rfl
  · rw [Pool.value_sideBySide _ (host.finish_perm _), List.map_map]
    rfl

theorem value_resolveAll_eq_ok_iff {workers : Int} {jobs : List Job} {table : Replacements} :
    (resolveAll host command workers jobs).run.value = .ok table ↔
      ∃ tables : List Replacements, tables.foldl Table.merge [] = table ∧
        (jobs.map fun job : Job => (job.resolve host command).run.value) = tables.map .ok := by
  rw [value_resolveAll, map_eq_ok_iff]
  simp only [mapM_id_eq_ok_iff, and_comm]

theorem value_resolveAll_eq_error_iff {workers : Int} {jobs : List Job} {e : Halt} :
    (resolveAll host command workers jobs).run.value = .error e ↔ ∃ earlier job,
      FirstToFail (fun job : Job => (job.resolve host command).run.value) jobs earlier job e := by
  rw [value_resolveAll, map_eq_error_iff, mapM_id_eq_error_iff]

theorem nodup_keys_of_resolved {jobs : List Job} {tables : List Replacements}
    (h : (jobs.map fun job : Job => (job.resolve host command).run.value) = tables.map .ok) :
    ∀ u ∈ tables, (Table.keys u).Nodup := by
  intro u hu
  obtain ⟨job, -, hjob⟩ := (ok_of_map_eq h).2 u hu
  obtain ⟨bs, -, rfl⟩ := Job.replacements_of_value_resolve hjob
  exact Job.nodup_keys_replacements _ _

theorem flatMap_calls_resolve (host : Host) (command : Text) (jobs : List Job) :
    (jobs.map (Job.resolve host command)).flatMap (fun task => task.run.calls) =
      jobs.map (Job.call command) := by
  rw [List.flatMap_map, List.map_eq_flatMap]
  simp only [Job.calls_resolve]

theorem calls_resolveAll_of_ok {workers : Int} {jobs : List Job}
    (hseq : workers ≤ 1 ∨ jobs.length ≤ 1)
    (h : ∀ job ∈ jobs, ∃ table, (job.resolve host command).run.value = .ok table) :
    (resolveAll host command workers jobs).run.calls = jobs.map (Job.call command) := by
  rw [resolveAll_eq, Attempt.calls_map, if_pos hseq]
  have hcalls := Pool.calls_oneByOne_of_ok (List.forall_mem_map.mpr h) []
  rw [flatMap_calls_resolve, List.append_nil] at hcalls
  rw [hcalls]
  exact List.append_nil _

theorem calls_resolveAll_of_error {workers : Int} {jobs earlier : List Job} {job : Job} {e : Halt}
    (hseq : workers ≤ 1 ∨ jobs.length ≤ 1)
    (h : FirstToFail (fun job : Job => (job.resolve host command).run.value) jobs earlier job e) :
    (resolveAll host command workers jobs).run.calls = (earlier ++ [job]).map (Job.call command) := by
  obtain ⟨⟨later, rfl⟩, hok, hfail⟩ := h
  rw [resolveAll_eq, Attempt.calls_map, if_pos hseq, List.map_append, List.map_cons,
    Pool.calls_oneByOne_of_ok (List.forall_mem_map.mpr hok), flatMap_calls_resolve,
    Pool.calls_oneByOne_of_error hfail, Job.calls_resolve]
  simp

theorem calls_resolveAll_perm {workers : Int} {jobs : List Job}
    (hpool : ¬(workers ≤ 1 ∨ jobs.length ≤ 1)) :
    (resolveAll host command workers jobs).run.calls.Perm (jobs.map (Job.call command)) := by
  rw [resolveAll_eq, Attempt.calls_map, if_neg hpool, ← flatMap_calls_resolve host]
  exact Pool.calls_sideBySide _ (host.finish_perm _)

theorem resolve_of_value_resolveAll {workers : Int} {jobs : List Job} {table : Replacements}
    (h : (resolveAll host command workers jobs).run.value = .ok table) :
    ∀ job ∈ jobs, ∃ t, (job.resolve host command).run.value = .ok t := by
  intro job hjob
  obtain ⟨tables, -, htables⟩ := value_resolveAll_eq_ok_iff.mp h
  obtain ⟨t, -, ht⟩ := (ok_of_map_eq htables).1 job hjob
  exact ⟨t, ht⟩

theorem calls_resolveAll_perm_of_ok {workers : Int} {jobs : List Job} {table : Replacements}
    (h : (resolveAll host command workers jobs).run.value = .ok table) :
    (resolveAll host command workers jobs).run.calls.Perm (jobs.map (Job.call command)) := by
  by_cases hseq : workers ≤ 1 ∨ jobs.length ≤ 1
  · exact .of_eq (calls_resolveAll_of_ok hseq (resolve_of_value_resolveAll h))
  · exact calls_resolveAll_perm hseq

end Symbolication
