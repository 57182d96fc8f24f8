import Symbolication.Proofs.Search
import Symbolication.Proofs.Workers

namespace Symbolication

variable {host host' : Host} {command : Text}

theorem Host.probe_congr (spawn : host'.spawn = host.spawn)
    (probes : host'.probeArguments = host.probeArguments) : host'.probe = host.probe := by
  funext command
  simp only [probe, spawn, probes]

theorem locate_congr (h : host'.probe = host.probe) (names : List Text) :
    locate host' names = locate host names := by
  induction names with
  | nil => rfl
  | cons c cs ih => rw [locate, locate, h, ih]

theorem findSymbolizer_congr (h : host'.probe = host.probe) (extra : List Text) :
    findSymbolizer host' extra = findSymbolizer host extra := by
  rw [findSymbolizer, findSymbolizer, locate_congr h]

theorem resolveAll_congr (h : host'.spawn = host.spawn) {workers : Int} {jobs : List Job}
    (hseq : workers ≤ 1 ∨ jobs.length ≤ 1) :
    resolveAll host' command workers jobs = resolveAll host command workers jobs := by
  rw [resolveAll_eq, resolveAll_eq, if_pos hseq, if_pos hseq, funext (Job.resolve_congr h)]

namespace Report

variable {directory : Path} {override : Option Text} {workers : Int} {report : Text}

theorem symbolicate_congr (h : host'.spawn = host.spawn) (hseq : workers ≤ 1) :
    symbolicate host' command directory override workers report =
      symbolicate host command directory override workers report := by
  simp only [symbolicate, resolveAll_congr h (.inl hseq)]

end Report

namespace Command

variable {o : Options} {input : List UInt8} {workers : Int} {directory : Path} {report : Text}

theorem resolve_congr (spawn : host'.spawn = host.spawn)
    (probes : host'.probeArguments = host.probeArguments) (hseq : workers ≤ 1) :
    resolve host' o directory workers report = resolve host o directory workers report := by
  simp only [resolve, findSymbolizer_congr (Host.probe_congr spawn probes),
    Report.symbolicate_congr spawn hseq]

section Runs

variable (spawn : host'.spawn = host.spawn) (probes : host'.probeArguments = host.probeArguments)
  (installation : host'.installation = host.installation)
  (alike : ∀ e, host'.isDirectory (o.path host) = .error e ↔
    host.isDirectory (o.path host) = .error e)

include spawn probes installation alike

end Runs

def printed (o : Options) (s : Session) : List Record := s.records.filter o.shows

end Command

end Symbolication
