import Mathlib.Data.List.Rotate
import Symbolication.Proofs.Report

namespace Symbolication

variable {host host' : Host} {command : Text}

structure WorkersAgree (host host' : Host) (command : Text) (workers workers' : Int)
    (jobs : List Job) : Prop where
  value_eq : (resolveAll host' command workers' jobs).run.value =
    (resolveAll host command workers jobs).run.value
  value_eq_error_iff : ∀ e, (resolveAll host command workers jobs).run.value = .error e ↔
    ∃ earlier job, FirstToFail (fun job : Job => (job.resolve host command).run.value) jobs
      earlier job e
  calls_sideBySide : 1 < workers → 1 < jobs.length →
    (resolveAll host command workers jobs).run.calls.Perm (jobs.map (Job.call command))
  calls_of_error : workers ≤ 1 ∨ jobs.length ≤ 1 → ∀ earlier job e,
    FirstToFail (fun job : Job => (job.resolve host command).run.value) jobs earlier job e →
    (resolveAll host command workers jobs).run.calls = (earlier ++ [job]).map (Job.call command)
  calls_of_ok : workers ≤ 1 ∨ jobs.length ≤ 1 → ∀ table,
    (resolveAll host command workers jobs).run.value = .ok table →
    (resolveAll host command workers jobs).run.calls = jobs.map (Job.call command)
  calls_perm : ∀ table, (resolveAll host command workers jobs).run.value = .ok table →
    (resolveAll host' command workers' jobs).run.calls.Perm
      (resolveAll host command workers jobs).run.calls

theorem value_resolveAll_congr (h : host'.spawn = host.spawn) (command : Text)
    (workers workers' : Int) (jobs : List Job) :
    (resolveAll host' command workers' jobs).run.value =
      (resolveAll host command workers jobs).run.value := by
  rw [value_resolveAll, value_resolveAll]
  simp only [Job.resolve_congr h]

theorem workersAgree (h : host'.spawn = host.spawn) (workers workers' : Int) (jobs : List Job) :
    WorkersAgree host host' command workers workers' jobs := by
  have hvalue := value_resolveAll_congr h command workers workers' jobs
  constructor
  case value_eq => exact hvalue
  case value_eq_error_iff => exact fun e => value_resolveAll_eq_error_iff
  case calls_sideBySide =>
    intro hworkers hjobs
    apply calls_resolveAll_perm
    rintro (hw | hj)
    · exact absurd hworkers (not_lt.mpr hw)
    · exact absurd hjobs (not_lt.mpr hj)
  case calls_of_error => exact fun hseq earlier job e hfail => calls_resolveAll_of_error hseq hfail
  case calls_of_ok =>
    intro hseq table hok
    apply calls_resolveAll_of_ok hseq
    exact resolve_of_value_resolveAll hok
  case calls_perm =>
    intro table hok
    have hall := calls_resolveAll_perm_of_ok hok
    have hall' := calls_resolveAll_perm_of_ok (hvalue.trans hok)
    exact hall'.trans hall.symm

namespace Report

theorem value_symbolicate_congr (h : host'.spawn = host.spawn) (directory : Path)
    (override : Option Text) (workers workers' : Int) (report : Text) :
    (symbolicate host' command directory override workers' report).run.value =
      (symbolicate host command directory override workers report).run.value := by
  rw [value_symbolicate, value_symbolicate, value_resolveAll_congr h command workers workers']

theorem workers_invisible (h : host'.spawn = host.spawn) (command : Text) (directory : Path)
    (workers workers' : Int) :
    (∀ suffix groups,
      WorkersAgree host host' command workers workers' (jobs directory suffix groups)) ∧
    ∀ override report,
      (symbolicate host' command directory override workers' report).run.value =
        (symbolicate host command directory override workers report).run.value := by
  constructor
  · intro suffix groups
    exact workersAgree h workers workers' _
  · intro override report
    exact value_symbolicate_congr h directory override workers workers' report

def patchyHost : Host := .answering fun argv =>
  if argv.length = 8 then .exited 0 (spell "p\n\n") []
  else .exited argv.length [] (spell "bad")

def rotatedHost : Host :=
  { patchyHost with
    finish n := (List.finRange n).rotate 1
    finish_perm _ := List.rotate_perm _ _ }

theorem workers_invisible_patchyHost :
    WorkersAgree patchyHost rotatedHost (spell "sym") 1 4 (jobs ⟨.relative, []⟩ (spell ".debug")
      (Groups.ofText (spell "[+0x1](k)[+0x1](m)[+0x2](m)[+0x1](n)[+0x2](n)[+0x3](n)"))) ∧
    (symbolicate rotatedHost (spell "sym") ⟨.relative, []⟩ none 4
        (spell "[+0x1](k)[+0x1](m)[+0x2](m)[+0x1](n)[+0x2](n)[+0x3](n)")).run.value =
      .error (.failure (.invoke (some (spell "m"))
        ⟨spell "sym exited with code 9: bad", some 9, spell "bad"⟩)) := by
  have hspawn : rotatedHost.spawn = patchyHost.spawn := rfl
  obtain ⟨hagree, hvalue⟩ := workers_invisible hspawn (spell "sym") ⟨.relative, []⟩ 1 4
  exact ⟨hagree _ _, (hvalue none _).trans (by decide)⟩

end Report

end Symbolication
