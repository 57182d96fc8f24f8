import Symbolication.Proofs.Blocks
import Symbolication.Proofs.Report

namespace Symbolication

theorem SystemError.text_eq (errno : Int) (reason : Text) (file? : Option Text) :
    SystemError.text ⟨errno, reason, file?⟩ =
      spell "[Errno " ++ Text.integer errno ++ spell "] " ++ reason ++
        file?.elim [] fun file => spell ": " ++ quoted file := by
  cases file? <;> rfl

variable {host : Host} {command : Text}

namespace Host

theorem value_run_of_unavailable {arguments : List Text} {e : SystemError}
    (h : host.spawn (command :: arguments) = .unavailable e) :
    (host.run command arguments).run.value = .error (.failure (.invoke none
      { message := spell "cannot run " ++ command ++ spell ": " ++ e.text })) := by
  simp [run, h]

theorem value_run_of_refused {arguments : List Text} {reason : Text}
    (h : host.spawn (command :: arguments) = .refused reason) :
    (host.run command arguments).run.value = .error (.refused reason) := by
  simp [run, h]

theorem value_run_of_failed {arguments : List Text} {code : Int} {stdout stderr : List UInt8}
    (h : host.spawn (command :: arguments) = .exited code stdout stderr) (hcode : code ≠ 0) :
    (host.run command arguments).run.value = .error (.failure (.invoke none
      { message := command ++ spell " exited with code " ++ Text.integer code ++ spell ": " ++
          complaint stderr
        status := some code
        stderr := complaint stderr })) := by
  simp [run, h, hcode]

end Host

namespace Job

def Served (host : Host) (command : Text) (job : Job) : Prop :=
  ∃ stdout stderr, host.spawn (job.call command) = .exited 0 stdout stderr ∧
    (Block.split (Utf8.decodeLossy stdout)).length = job.offsets.length

inductive FailsWith (host : Host) (command : Text) (job : Job) : Halt → Prop where
  | unavailable {errno : Int} {reason : Text} {file? : Option Text}
      (spawned : host.spawn (job.call command) = .unavailable ⟨errno, reason, file?⟩) :
      FailsWith host command job (.failure (.invoke (some job.module)
        { message := spell "cannot run " ++ command ++ spell ": " ++
            (spell "[Errno " ++ Text.integer errno ++ spell "] " ++ reason ++
              file?.elim [] fun file => spell ": " ++ quoted file)
          status := none
          stderr := [] }))
  | refused {reason : Text} (spawned : host.spawn (job.call command) = .refused reason) :
      FailsWith host command job (.refused reason)
  | failed {code : Int} {stdout stderr : List UInt8} {complaint : Text}
      (spawned : host.spawn (job.call command) = .exited code stdout stderr) (bad : code ≠ 0)
      (stripped : Strips isBlank (Utf8.decodeLossy stderr) complaint) :
      FailsWith host command job (.failure (.invoke (some job.module)
        { message := command ++ spell " exited with code " ++ Text.integer code ++ spell ": " ++
            complaint
          status := some code
          stderr := complaint }))
  | miscounted {stdout stderr : List UInt8}
      (spawned : host.spawn (job.call command) = .exited 0 stdout stderr)
      (other : (Block.split (Utf8.decodeLossy stdout)).length ≠ job.offsets.length) :
      FailsWith host command job (.failure (.malformed job.module job.offsets.length
        (Block.split (Utf8.decodeLossy stdout)).length))

theorem served_or_failsWith (host : Host) (command : Text) (job : Job) :
    job.Served host command ∨ ∃ e, job.FailsWith host command e := by
  cases h : host.spawn (job.call command) with
  | unavailable e => exact .inr ⟨_, .unavailable h⟩
  | refused reason => exact .inr ⟨_, .refused h⟩
  | exited code stdout stderr =>
      by_cases hcode : code = 0
      · subst hcode
        by_cases hl : (Block.split (Utf8.decodeLossy stdout)).length = job.offsets.length
        · exact .inl ⟨stdout, stderr, h, hl⟩
        · exact .inr ⟨_, .miscounted h hl⟩
      · exact .inr ⟨_, .failed h hcode (strips_trim _ _)⟩

theorem FailsWith.value_blocks {job : Job} {e : Halt} (h : job.FailsWith host command e) :
    (job.blocks host command).run.value = .error e := by
  simp only [blocks, Attempt.run_lift_bind, Traced.value_bind, Attempt.value_bind,
    Attempt.value_adapt]
  cases h with
  | unavailable spawned =>
      rw [Host.value_run_of_unavailable spawned, SystemError.text_eq]
      rfl
  | refused spawned =>
      rw [Host.value_run_of_refused spawned]
      rfl
  | failed spawned bad stripped =>
      rw [Host.value_run_of_failed spawned bad, Host.complaint, stripped.trim_eq]
      rfl
  | miscounted spawned other =>
      rw [Host.value_run_of_exited spawned]
      simp [Except.mapError, Except.bind, other]

theorem served_iff {job : Job} :
    job.Served host command ↔ ∃ bs, (job.blocks host command).run.value = .ok bs := by
  constructor
  · rintro ⟨stdout, stderr, spawned, hl⟩
    exact ⟨_, value_blocks_eq_ok_iff.mpr ⟨stdout, stderr, spawned, rfl, hl⟩⟩
  · rintro ⟨bs, hbs⟩
    obtain ⟨stdout, stderr, spawned, rfl, hl⟩ := value_blocks_eq_ok_iff.mp hbs
    exact ⟨stdout, stderr, spawned, hl⟩

theorem value_blocks_eq_error_iff {job : Job} {e : Halt} :
    (job.blocks host command).run.value = .error e ↔ job.FailsWith host command e := by
  constructor
  · intro h
    rcases job.served_or_failsWith host command with hs | ⟨e', he'⟩
    · obtain ⟨bs, hbs⟩ := served_iff.mp hs
      rw [hbs] at h
      cases h
    · obtain rfl : e' = e := Except.error.inj (he'.value_blocks.symm.trans h)
      exact he'
  · exact FailsWith.value_blocks

theorem value_resolve_eq_error_iff {job : Job} {e : Halt} :
    (job.resolve host command).run.value = .error e ↔ job.FailsWith host command e := by
  rw [value_resolve, map_eq_error_iff, value_blocks_eq_error_iff]

theorem served_iff_resolve {job : Job} :
    job.Served host command ↔ ∃ table, (job.resolve host command).run.value = .ok table := by
  simp only [served_iff, value_resolve, map_eq_ok_iff]
  exact ⟨fun ⟨bs, h⟩ => ⟨_, bs, h, rfl⟩, fun ⟨_, bs, h, _⟩ => ⟨bs, h⟩⟩

theorem FailsWith.names {job : Job} {failure : Failure}
    (h : job.FailsWith host command (.failure failure)) :
    failure.module? = some job.module ∧
      (failure.stage = spell "invoke" ∨ failure.stage = spell "parse output") := by
  cases h with
  | unavailable _ => exact ⟨rfl, .inl rfl⟩
  | failed _ _ _ => exact ⟨rfl, .inl rfl⟩
  | miscounted _ _ => exact ⟨rfl, .inr rfl⟩

theorem failsWith_refused_iff {job : Job} {reason : Text} :
    job.FailsWith host command (.refused reason) ↔
      host.spawn (job.call command) = .refused reason := by
  constructor
  · intro h
    cases h with
    | refused spawned => exact spawned
  · exact .refused

end Job

theorem Failure.describe_of_module {e : Failure} {m : Text} (h : e.module? = some m) (hm : m ≠ []) :
    e.describe = e.stage ++ spell " failed for module " ++ m ++ spell ": " ++ e.message := by
  cases m with
  | nil => exact absurd rfl hm
  | cons g m => simp [describe, subject, h, spell]

namespace Report

def modules (report : Text) : List Text := ((markers report).map Marker.module).eraseDups

theorem ne_nil_of_mem_modules {report m : Text} (h : m ∈ modules report) : m ≠ [] := by
  obtain ⟨n, hn, rfl⟩ := List.mem_map.mp (List.mem_eraseDups.mp h)
  exact (valid_of_mem_markers hn).module_ne_nil

def jobOf (directory : Path) (override : Option Text) (report module : Text) : Job :=
  ⟨module, offsetsOf module (markers report),
    Artifact.path directory module (Artifact.suffix override report)⟩

variable {directory : Path} {override : Option Text} {workers : Int} {report : Text}

theorem jobs_ofText (directory : Path) (override : Option Text) (report : Text) :
    jobs directory (Artifact.suffix override report) (Groups.ofText report) =
      (modules report).map (jobOf directory override report) := by
  rw [jobs, Groups.ofText_eq, List.map_map]
  rfl

theorem length_offsetsOf (module report : Text) : (offsetsOf module (markers report)).length =
    (markers report).countP fun n => n.module = module := by
  rw [offsetsOf, List.length_map, List.countP_eq_length_filter]

theorem value_symbolicate_eq_error_iff {e : Halt} :
    (symbolicate host command directory override workers report).run.value = .error e ↔
      ∃ earlier m later, modules report = earlier ++ m :: later ∧
        (∀ k ∈ earlier, (jobOf directory override report k).Served host command) ∧
        (jobOf directory override report m).FailsWith host command e := by
  rw [value_symbolicate, map_eq_error_iff, jobs_ofText, value_resolveAll_eq_error_iff]
  constructor
  · rintro ⟨earlier, job, ⟨later, hplace⟩, hok, hfail⟩
    obtain ⟨ms, rest, hms, rfl, hrest⟩ := List.map_eq_append_iff.mp hplace
    obtain ⟨m, later, rfl, rfl, rfl⟩ := List.map_eq_cons_iff.mp hrest
    refine ⟨ms, m, later, hms, ?_, Job.value_resolve_eq_error_iff.mp hfail⟩
    intro k hk
    exact Job.served_iff_resolve.mpr (hok _ (List.mem_map_of_mem hk))
  · rintro ⟨earlier, m, later, hplace, hserved, hfail⟩
    refine ⟨earlier.map (jobOf directory override report), jobOf directory override report m, ?_⟩
    constructor
    · exact ⟨later.map (jobOf directory override report),
        by rw [hplace, List.map_append, List.map_cons]⟩
    · exact List.forall_mem_map.mpr fun k hk => Job.served_iff_resolve.mp (hserved k hk)
    · exact Job.value_resolve_eq_error_iff.mpr hfail

theorem exists_failed_of_symbolicate {failure : Failure}
    (h : (symbolicate host command directory override workers report).run.value =
      .error (.failure failure)) :
    ∃ m ∈ modules report,
      (jobOf directory override report m).FailsWith host command (.failure failure) ∧
      (failure.stage = spell "invoke" ∨ failure.stage = spell "parse output") ∧
      failure.describe =
        failure.stage ++ spell " failed for module " ++ m ++ spell ": " ++ failure.message := by
  obtain ⟨earlier, m, later, hplace, -, hfail⟩ := value_symbolicate_eq_error_iff.mp h
  have hmem : m ∈ modules report := by simp [hplace]
  obtain ⟨hmodule, hstage⟩ := hfail.names
  exact ⟨m, hmem, hfail, hstage,
    Failure.describe_of_module hmodule (ne_nil_of_mem_modules hmem)⟩

theorem exists_value_symbolicate_iff :
    (∃ result, (symbolicate host command directory override workers report).run.value = .ok result) ↔
      ∀ m ∈ modules report, (jobOf directory override report m).Served host command := by
  constructor
  · rintro ⟨result, h⟩ m hm
    obtain ⟨table, htable, -⟩ := value_symbolicate_eq_ok h
    apply Job.served_iff_resolve.mpr
    apply resolve_of_value_resolveAll htable
    rw [jobs_ofText]
    exact List.mem_map_of_mem hm
  · intro hserved
    cases h : (symbolicate host command directory override workers report).run.value with
    | ok result => exact ⟨result, rfl⟩
    | error e =>
        obtain ⟨earlier, m, later, hplace, -, hfail⟩ := value_symbolicate_eq_error_iff.mp h
        have hm : m ∈ modules report := by simp [hplace]
        obtain ⟨bs, hbs⟩ := Job.served_iff.mp (hserved m hm)
        rw [Job.value_blocks_eq_error_iff.mpr hfail] at hbs
        cases hbs

structure Diagnosed (host : Host) (command : Text) (directory : Path) (override : Option Text)
    (workers : Int) (report : Text) : Prop where
  asks : ∀ m, (jobOf directory override report m).call command = command :: Job.arguments
      (Artifact.path directory m (Artifact.suffix override report)) (offsetsOf m (markers report)) ∧
    (jobOf directory override report m).offsets.length =
      (markers report).countP fun n => n.module = m
  ok_iff : (∃ result,
      (symbolicate host command directory override workers report).run.value = .ok result) ↔
    ∀ m ∈ modules report, (jobOf directory override report m).Served host command
  error_iff : ∀ e,
    (symbolicate host command directory override workers report).run.value = .error e ↔
      ∃ earlier m later, modules report = earlier ++ m :: later ∧
        (∀ k ∈ earlier, (jobOf directory override report k).Served host command) ∧
        (jobOf directory override report m).FailsWith host command e
  refused_iff : ∀ reason,
    (symbolicate host command directory override workers report).run.value =
        .error (.refused reason) ↔
      ∃ earlier m later, modules report = earlier ++ m :: later ∧
        (∀ k ∈ earlier, (jobOf directory override report k).Served host command) ∧
        host.spawn ((jobOf directory override report m).call command) = .refused reason
  names : ∀ m failure, (jobOf directory override report m).FailsWith host command (.failure failure) →
    failure.module? = some m ∧
      (failure.stage = spell "invoke" ∨ failure.stage = spell "parse output")

theorem symbolicate_diagnosed (host : Host) (command : Text) (directory : Path)
    (override : Option Text) (workers : Int) (report : Text) :
    Diagnosed host command directory override workers report where
  asks m := ⟨rfl, length_offsetsOf m report⟩
  ok_iff := exists_value_symbolicate_iff
  error_iff _ := value_symbolicate_eq_error_iff
  refused_iff _ := by
    rw [value_symbolicate_eq_error_iff]
    simp only [Job.failsWith_refused_iff]
  names _ _ h := h.names

def unevenHost : Host := .answering fun argv =>
  if argv[6]? = some (spell "d/m.debug") then .exited 0 (spell "f\n\n") []
  else if argv[6]? = some (spell "d/n.debug") then .exited (-9) [] (spell " \tout of memory\r\n")
  else .unavailable ⟨11, spell "Resource temporarily unavailable", none⟩

theorem symbolicate_diagnosed_unevenHost :
    Diagnosed unevenHost (spell "sym") ⟨.relative, [spell "d"]⟩ none 1
      (spell "[+0x1](m)[+0x2](n)[+0x3](o)") ∧
    (symbolicate unevenHost (spell "sym") ⟨.relative, [spell "d"]⟩ none 1
        (spell "[+0x1](m)[+0x2](n)[+0x3](o)")).run.value =
      .error (.failure (.invoke (some (spell "n"))
        { message := spell "sym exited with code -9: out of memory"
          status := some (-9)
          stderr := spell "out of memory" })) ∧
    (symbolicate unevenHost (spell "sym") ⟨.relative, [spell "d"]⟩ none 4
        (spell "[+0x1](m)[+0x3](o)[+0x2](n)")).run.value =
      .error (.failure (.invoke (some (spell "o"))
        { message := spell "cannot run sym: [Errno 11] Resource temporarily unavailable"
          status := none
          stderr := [] })) := by
  refine ⟨symbolicate_diagnosed _ _ _ _ _ _, ?_, ?_⟩
  · refine ((symbolicate_diagnosed unevenHost (spell "sym") _ _ _ _).error_iff _).mpr
      ⟨[spell "m"], spell "n", [spell "o"], by decide +kernel, ?_, ?_⟩
    · exact List.forall_mem_singleton.mpr ⟨spell "f\n\n", [], by decide +kernel, by decide +kernel⟩
    · have spawned : unevenHost.spawn ((jobOf ⟨.relative, [spell "d"]⟩ none
          (spell "[+0x1](m)[+0x2](n)[+0x3](o)") (spell "n")).call (spell "sym")) =
          .exited (-9) [] (spell " \tout of memory\r\n") := by decide +kernel
      have hmessage : spell "sym exited with code -9: out of memory" =
          spell "sym" ++ spell " exited with code " ++ Text.integer (-9) ++ spell ": " ++
            spell "out of memory" := by decide +kernel
      have stripped : Strips isBlank (Utf8.decodeLossy (spell " \tout of memory\r\n"))
          (spell "out of memory") := by
        refine ⟨⟨spell " \t", spell "\r\n", ?_⟩, ?_, ?_⟩ <;> decide +kernel
      rw [hmessage]
      exact .failed spawned (by decide +kernel) stripped
  · refine ((symbolicate_diagnosed unevenHost (spell "sym") _ _ _ _).error_iff _).mpr
      ⟨[spell "m"], spell "o", [spell "n"], by decide +kernel, ?_, ?_⟩
    · exact List.forall_mem_singleton.mpr ⟨spell "f\n\n", [], by decide +kernel, by decide +kernel⟩
    · have spawned : unevenHost.spawn ((jobOf ⟨.relative, [spell "d"]⟩ none
          (spell "[+0x1](m)[+0x3](o)[+0x2](n)") (spell "o")).call (spell "sym")) =
          .unavailable ⟨11, spell "Resource temporarily unavailable", none⟩ := by decide +kernel
      have hmessage : spell "cannot run sym: [Errno 11] Resource temporarily unavailable" =
          spell "cannot run " ++ spell "sym" ++ spell ": " ++ (spell "[Errno " ++ Text.integer 11 ++
            spell "] " ++ spell "Resource temporarily unavailable" ++ []) := by decide +kernel
      rw [hmessage]
      exact .unavailable spawned

def strictHost : Host := .answering fun argv =>
  if argv.any (·.contains (.char '\x00')) then .refused (spell "embedded null byte")
  else .exited 0 (spell "f\n\n") []

theorem symbolicate_nul_in_name :
    (∀ result, (symbolicate strictHost (spell "sym") ⟨.relative, [spell "d"]⟩ none 1
        (spell "[+0x1](a\x00b)")).run.value ≠ .ok result) ∧
    (∀ failure, (symbolicate strictHost (spell "sym") ⟨.relative, [spell "d"]⟩ none 1
        (spell "[+0x1](a\x00b)")).run.value ≠ .error (.failure failure)) ∧
    (symbolicate strictHost (spell "sym") ⟨.relative, [spell "d"]⟩ none 1
        (spell "[+0x1](a\x00b)")).run.value = .error (.refused (spell "embedded null byte")) := by
  have hrefused : (symbolicate strictHost (spell "sym") ⟨.relative, [spell "d"]⟩ none 1
      (spell "[+0x1](a\x00b)")).run.value = .error (.refused (spell "embedded null byte")) := by
    decide +kernel
  rw [hrefused]
  exact ⟨nofun, nofun, rfl⟩

end Report

end Symbolication
