import Symbolication.Proofs.Attempts
import Symbolication.Proofs.Tables
import Symbolication.Report

namespace Symbolication

variable {host : Host} {command : Text}

namespace Host

theorem calls_run (arguments : List Text) :
    (host.run command arguments).run.calls = [command :: arguments] := by
  cases h : host.spawn (command :: arguments) with
  | unavailable e => simp [run, h]
  | refused reason => simp [run, h]
  | exited code stdout stderr =>
      by_cases hc : code = 0
      · by_cases he : complaint stderr = [] <;> simp [run, h, hc, he]
      · simp [run, h, hc]

theorem value_run_of_exited {arguments : List Text} {stdout stderr : List UInt8}
    (h : host.spawn (command :: arguments) = .exited 0 stdout stderr) :
    (host.run command arguments).run.value = .ok (Utf8.decodeLossy stdout) := by
  by_cases he : complaint stderr = [] <;> simp [run, h, he, Except.map]

theorem exited_of_value_run {arguments : List Text} {output : Text}
    (h : (host.run command arguments).run.value = .ok output) :
    ∃ stdout stderr, host.spawn (command :: arguments) = .exited 0 stdout stderr ∧
      Utf8.decodeLossy stdout = output := by
  cases hs : host.spawn (command :: arguments) with
  | unavailable e => simp [run, hs] at h
  | refused reason => simp [run, hs] at h
  | exited code stdout stderr =>
      by_cases hc : code = 0
      · subst hc
        rw [value_run_of_exited hs] at h
        exact ⟨stdout, stderr, rfl, Except.ok.inj h⟩
      · simp [run, hs, hc] at h

theorem run_congr {host' : Host} (h : host'.spawn = host.spawn) : host'.run = host.run := by
  funext command arguments
  simp only [run, h]

def answering (spawn : List Text → Outcome) : Host where
  spawn := spawn
  isDirectory _ := .ok true
  installation := ⟨spell "/debug", [spell "libreoffice-core (default: /debug)."]⟩
  finish n := (List.finRange n).reverse
  finish_perm _ := List.reverse_perm _

end Host

namespace Job

def call (command : Text) (job : Job) : List Text := command :: arguments job.artifact job.offsets

theorem calls_blocks (job : Job) : (job.blocks host command).run.calls = [job.call command] := by
  simp only [blocks, Attempt.run_lift_bind, Traced.calls_bind, Traced.calls_log, List.nil_append]
  rw [Attempt.calls_bind_of_quiet, Attempt.calls_adapt, Host.calls_run]
  · rfl
  · intro output
    split <;> simp

theorem value_blocks_eq_ok_iff {job : Job} {bs : List Text} :
    (job.blocks host command).run.value = .ok bs ↔
      ∃ stdout stderr, host.spawn (job.call command) = .exited 0 stdout stderr ∧
        Block.split (Utf8.decodeLossy stdout) = bs ∧ bs.length = job.offsets.length := by
  simp only [blocks, Attempt.run_lift_bind, Traced.value_bind, Attempt.value_bind,
    Attempt.value_adapt]
  constructor
  · intro h
    cases hr : (host.run command (arguments job.artifact job.offsets)).run.value with
    | error e => simp [hr, Except.mapError, Except.bind] at h
    | ok output =>
        obtain ⟨stdout, stderr, hs, rfl⟩ := Host.exited_of_value_run hr
        simp only [hr, Except.mapError, Except.bind] at h
        split at h
        · simp at h
        · next hl =>
            simp only [Attempt.value_pure, Except.ok.injEq] at h
            subst h
            exact ⟨stdout, stderr, hs, rfl, not_not.mp hl⟩
  · rintro ⟨stdout, stderr, hs, rfl, hl⟩
    rw [Host.value_run_of_exited hs]
    simp [Except.mapError, Except.bind, hl]

theorem calls_resolve (job : Job) : (job.resolve host command).run.calls = [job.call command] := by
  simp [resolve, calls_blocks]

theorem value_resolve (job : Job) :
    (job.resolve host command).run.value = (job.blocks host command).run.value.map job.replacements := by
  simp [resolve]

theorem resolve_congr {host' : Host} (h : host'.spawn = host.spawn) (job : Job) :
    job.resolve host' command = job.resolve host command := by
  simp only [resolve, blocks, Host.run_congr h]

theorem replacements_of_value_resolve {job : Job} {table : Replacements}
    (h : (job.resolve host command).run.value = .ok table) :
    ∃ bs, (job.blocks host command).run.value = .ok bs ∧ job.replacements bs = table := by
  rw [value_resolve] at h
  exact map_eq_ok_iff.mp h

theorem get?_replacements (job : Job) {bs : List Text} (h : bs.length = job.offsets.length)
    (offset : Text) :
    Table.get? (job.replacements bs) (Marker.spelling ⟨offset, job.module⟩) =
      bs[job.offsets.idxOf offset]?.map (replacement job.module) := by
  have hinj (a b : Text) (hab : Marker.spelling ⟨a, job.module⟩ = Marker.spelling ⟨b, job.module⟩) :
      a = b := by
    simpa [Marker.spelling] using hab
  rw [replacements, Table.get?_ofFirst]
  exact Table.get?_zip hinj (replacement job.module) job.offsets h offset

theorem offset_of_get?_replacements {job : Job} {bs : List Text} {k v : Text}
    (h : Table.get? (job.replacements bs) k = some v) :
    ∃ offset ∈ job.offsets, Marker.spelling ⟨offset, job.module⟩ = k := by
  rw [replacements, Table.get?_ofFirst] at h
  obtain ⟨⟨offset, block⟩, hmem, he⟩ := List.mem_map.mp (Table.mem_of_get? h)
  exact ⟨offset, (List.of_mem_zip hmem).1, congrArg Prod.fst he⟩

theorem nodup_keys_replacements (job : Job) (bs : List Text) :
    (Table.keys (job.replacements bs)).Nodup :=
  Table.nodup_keys_ofFirst _

end Job

end Symbolication
