import Symbolication.Proofs.Diagnosis
import Symbolication.Proofs.Partition
import Symbolication.Proofs.Paths

namespace Symbolication

variable {host : Host} {command : Text}

theorem calls_resolveAll_of_failed {workers : Int} {jobs : List Job} {e : Halt}
    (hseq : workers ≤ 1 ∨ jobs.length ≤ 1)
    (h : (resolveAll host command workers jobs).run.value = .error e) :
    (resolveAll host command workers jobs).run.calls ≠ [] ∧
      (resolveAll host command workers jobs).run.calls <+: jobs.map (Job.call command) := by
  obtain ⟨earlier, job, hfirst⟩ := value_resolveAll_eq_error_iff.mp h
  rw [calls_resolveAll_of_error hseq hfirst]
  obtain ⟨⟨later, rfl⟩, -, -⟩ := hfirst
  have hprefix : earlier ++ [job] <+: earlier ++ job :: later := ⟨later, by simp⟩
  exact ⟨by simp, hprefix.map _⟩

theorem mem_calls_resolveAll {workers : Int} {jobs : List Job} {argv : List Text}
    (h : argv ∈ (resolveAll host command workers jobs).run.calls) :
    argv ∈ jobs.map (Job.call command) := by
  by_cases hseq : workers ≤ 1 ∨ jobs.length ≤ 1
  · cases hvalue : (resolveAll host command workers jobs).run.value with
    | ok table => exact (calls_resolveAll_perm_of_ok hvalue).subset h
    | error e => exact (calls_resolveAll_of_failed hseq hvalue).2.subset h
  · exact (calls_resolveAll_perm hseq).subset h

theorem exists_refused_call {workers : Int} {jobs : List Job} {reason : Text}
    (h : (resolveAll host command workers jobs).run.value = .error (.refused reason)) :
    ∃ argv ∈ (resolveAll host command workers jobs).run.calls,
      host.spawn argv = .refused reason := by
  obtain ⟨earlier, job, hfirst⟩ := value_resolveAll_eq_error_iff.mp h
  have hspawn : host.spawn (job.call command) = .refused reason :=
    Job.failsWith_refused_iff.mp (Job.value_resolve_eq_error_iff.mp hfirst.fails)
  refine ⟨job.call command, ?_, hspawn⟩
  by_cases hseq : workers ≤ 1 ∨ jobs.length ≤ 1
  · rw [calls_resolveAll_of_error hseq hfirst]
    exact List.mem_map_of_mem List.mem_concat_self
  · obtain ⟨later, hplace⟩ := hfirst.place
    have hjob : job ∈ jobs := hplace ▸ List.mem_append_right _ (List.mem_cons_self ..)
    exact (calls_resolveAll_perm hseq).symm.subset (List.mem_map_of_mem hjob)

namespace Report

variable {directory : Path} {override : Option Text} {workers : Int} {report : Text}

def callFor (command : Text) (directory : Path) (override : Option Text) (report module : Text) :
    List Text :=
  [command, spell "-C", spell "-f", spell "-a", spell "-p", spell "-e",
    (Artifact.path directory module (Artifact.suffix override report)).toText] ++
    offsetsOf module (markers report)

def callsFor (command : Text) (directory : Path) (override : Option Text) (report : Text) :
    List (List Text) :=
  (modules report).map (callFor command directory override report)

theorem map_call_jobs (command : Text) (directory : Path) (override : Option Text) (report : Text) :
    (jobs directory (Artifact.suffix override report) (Groups.ofText report)).map
      (Job.call command) = callsFor command directory override report := by
  rw [jobs_ofText, List.map_map]
  rfl

theorem length_jobs_ofText (directory : Path) (override : Option Text) (report : Text) :
    (jobs directory (Artifact.suffix override report) (Groups.ofText report)).length =
      (modules report).length := by
  rw [jobs_ofText, List.length_map]

theorem calls_symbolicate_of_ok {result : Text} (hseq : workers ≤ 1 ∨ (modules report).length ≤ 1)
    (h : (symbolicate host command directory override workers report).run.value = .ok result) :
    (symbolicate host command directory override workers report).run.calls =
      callsFor command directory override report := by
  rw [← length_jobs_ofText directory override] at hseq
  obtain ⟨table, htable, -⟩ := value_symbolicate_eq_ok h
  rw [calls_symbolicate, calls_resolveAll_of_ok hseq (resolve_of_value_resolveAll htable),
    map_call_jobs]

theorem calls_symbolicate_of_error {e : Halt} (hseq : workers ≤ 1 ∨ (modules report).length ≤ 1)
    (h : (symbolicate host command directory override workers report).run.value = .error e) :
    (symbolicate host command directory override workers report).run.calls ≠ [] ∧
      (symbolicate host command directory override workers report).run.calls <+:
        callsFor command directory override report := by
  rw [← length_jobs_ofText directory override] at hseq
  rw [value_symbolicate, map_eq_error_iff] at h
  rw [calls_symbolicate, ← map_call_jobs]
  exact calls_resolveAll_of_failed hseq h

theorem mem_calls_symbolicate {argv : List Text}
    (h : argv ∈ (symbolicate host command directory override workers report).run.calls) :
    ∃ m ∈ modules report, argv = callFor command directory override report m := by
  rw [calls_symbolicate] at h
  have hcall := mem_calls_resolveAll h
  rw [map_call_jobs] at hcall
  obtain ⟨m, hm, rfl⟩ := List.mem_map.mp hcall
  exact ⟨m, hm, rfl⟩

theorem drop_callFor (command : Text) (directory : Path) (override : Option Text)
    (report module : Text) :
    (callFor command directory override report module).drop 7 =
      offsetsOf module (markers report) := rfl

theorem flatMap_offsetsOf_perm (report : Text) :
    ((modules report).flatMap fun m => offsetsOf m (markers report)).Perm
      ((markers report).map Marker.offset) := by
  have hperm := (Groups.pairs_perm (markers report)).map Prod.snd
  rw [Groups.ofMarkers_eq, List.flatMap_map, List.map_flatMap, List.map_map] at hperm
  simp only [List.map_map, Function.comp_def, List.map_id'] at hperm
  exact hperm

structure CallsOnce (host : Host) (command : Text) (directory : Path) (override : Option Text)
    (workers : Int) (report : Text) : Prop where
  suits : Artifact.Suits report override (Artifact.suffix override report)
  mem_modules : ∀ m, m ∈ modules report ↔ ∃ n ∈ markers report, n.module = m
  modules_ordered : (modules report).Pairwise fun m m' =>
    ((markers report).map Marker.module).idxOf m < ((markers report).map Marker.module).idxOf m'
  calls_of_ok : ∀ result,
    (symbolicate host command directory override workers report).run.value = .ok result →
      (symbolicate host command directory override workers report).run.calls =
        callsFor command directory override report
  calls_of_error : ∀ e,
    (symbolicate host command directory override workers report).run.value = .error e →
      (symbolicate host command directory override workers report).run.calls ≠ [] ∧
      (symbolicate host command directory override workers report).run.calls <+:
        callsFor command directory override report
  offsets_perm : ∀ result,
    (symbolicate host command directory override workers report).run.value = .ok result →
      ((symbolicate host command directory override workers report).run.calls.flatMap
        fun argv => argv.drop 7).Perm ((markers report).map Marker.offset)
  offsets_hex : ∀ argv ∈ (symbolicate host command directory override workers report).run.calls,
    ∀ o ∈ argv.drop 7, ∃ digits, digits ≠ [] ∧ (∀ d ∈ digits, isHexDigit d) ∧
      o = spell "0x" ++ digits

theorem symbolicate_callsOnce (host : Host) (command : Text) (directory : Path)
    (override : Option Text) (hseq : workers ≤ 1 ∨ (modules report).length ≤ 1) :
    CallsOnce host command directory override workers report := by
  constructor
  case suits => exact Artifact.suits_suffix override report
  case mem_modules =>
    intro m
    rw [modules, List.mem_eraseDups, List.mem_map]
  case modules_ordered => exact pairwise_idxOf_eraseDups _
  case calls_of_ok => exact fun result h => calls_symbolicate_of_ok hseq h
  case calls_of_error => exact fun e h => calls_symbolicate_of_error hseq h
  case offsets_perm =>
    intro result h
    rw [calls_symbolicate_of_ok hseq h, callsFor, List.flatMap_map]
    simp only [drop_callFor]
    exact flatMap_offsetsOf_perm report
  case offsets_hex =>
    intro argv hargv o ho
    obtain ⟨m, -, rfl⟩ := mem_calls_symbolicate hargv
    rw [drop_callFor] at ho
    obtain ⟨n, hn, rfl⟩ := List.mem_map.mp ho
    exact (valid_of_mem_markers (List.mem_of_mem_filter hn)).offset

theorem symbolicate_callsOnce_terseHost :
    CallsOnce terseHost (spell "sym") ⟨.relative, [spell "d"]⟩ none 1
      (spell "[+0xA](m)[+0x2](-n)[+0xa](m)") ∧
    (symbolicate terseHost (spell "sym") ⟨.relative, [spell "d"]⟩ none 1
      (spell "[+0xA](m)[+0x2](-n)[+0xa](m)")).run.calls =
        [[spell "sym", spell "-C", spell "-f", spell "-a", spell "-p", spell "-e",
            spell "d/m.debug", spell "0xA", spell "0xa"],
          [spell "sym", spell "-C", spell "-f", spell "-a", spell "-p", spell "-e",
            spell "d/-n.debug", spell "0x2"]] := by
  have hseq : (1 : Int) ≤ 1 ∨ (modules (spell "[+0xA](m)[+0x2](-n)[+0xa](m)")).length ≤ 1 :=
    .inl (le_refl 1)
  have h := symbolicate_callsOnce terseHost (spell "sym") ⟨.relative, [spell "d"]⟩ none hseq
  exact ⟨h, (h.calls_of_ok (spell "m+p\np-n+rm+q") (by decide)).trans (by decide)⟩

end Report

end Symbolication
