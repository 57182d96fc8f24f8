import Symbolication.Proofs.Calls
import Symbolication.Proofs.Endings

namespace Symbolication

variable {host : Host}

theorem Report.value_symbolicate_ne_locate {command : Text} {directory : Path}
    {override : Option Text} {workers : Int} {report : Text} (cs : List Text) :
    (symbolicate host command directory override workers report).run.value ≠
      .error (.failure (.locate cs)) := by
  intro h
  obtain ⟨-, m, -, -, -, hfail⟩ := value_symbolicate_eq_error_iff.mp h
  have hmodule : none = some m := hfail.names.1
  cases hmodule

namespace Command

variable {o : Options} {input : List UInt8} {workers : Int} {present : Bool}

theorem value_resolve_of_found {directory : Path} {report command : Text}
    (h : (findSymbolizer host o.symbolizers).run.value = .ok command) :
    (resolve host o directory workers report).run.value =
      (Report.symbolicate host command directory o.suffix workers report).run.value := by
  rw [resolve, Attempt.value_bind, h]
  rfl

theorem calls_resolve_of_found {directory : Path} {report command : Text}
    (h : (findSymbolizer host o.symbolizers).run.value = .ok command) :
    (resolve host o directory workers report).run.calls =
      (findSymbolizer host o.symbolizers).run.calls ++
        (Report.symbolicate host command directory o.suffix workers report).run.calls :=
  Attempt.calls_bind_of_ok h _

theorem value_resolve_of_missed {directory : Path} {report : Text} {e : Halt}
    (h : (findSymbolizer host o.symbolizers).run.value = .error e) :
    (resolve host o directory workers report).run.value = .error e := by
  rw [resolve, Attempt.value_bind, h]
  rfl

theorem calls_resolve_of_missed {directory : Path} {report : Text} {e : Halt}
    (h : (findSymbolizer host o.symbolizers).run.value = .error e) :
    (resolve host o directory workers report).run.calls =
      (findSymbolizer host o.symbolizers).run.calls :=
  Attempt.calls_bind_of_error h _

theorem value_resolve_eq_locate_iff {directory : Path} {report : Text} {cs : List Text} :
    (resolve host o directory workers report).run.value = .error (.failure (.locate cs)) ↔
      (∀ b ∈ candidates o.symbolizers, host.Unusable b) ∧ cs = candidates o.symbolizers := by
  rw [resolve, Attempt.value_bind_eq_error_iff, value_findSymbolizer_eq_failure_iff,
    Failure.locate.injEq]
  constructor
  · rintro (hmissed | ⟨command, -, hreport⟩)
    · exact hmissed
    · exact absurd hreport (Report.value_symbolicate_ne_locate cs)
  · exact .inl

-- A word of a command line has been an argument of a process before, so no process refuses it:
-- `refused` is for names that are handed over in another way.
inductive Locates (host : Host) (o : Options) (workers : Int) (input : List UInt8) (s : Session) :
    Prop where
  | found {before after : List Text} {command : Text}
      (place : candidates o.symbolizers = before ++ command :: after)
      (unusable : ∀ b ∈ before, host.Unusable b) (usable : host.Usable command)
      (calls : s.calls = (before ++ [command]).map host.probing ++
        (Report.symbolicate host command (o.path host) o.suffix workers
          (Utf8.decode input)).run.calls)
      (runs : ∀ argv ∈ (Report.symbolicate host command (o.path host) o.suffix workers
          (Utf8.decode input)).run.calls,
        ∃ m ∈ Report.modules (Utf8.decode input),
          argv = Report.callFor command (o.path host) o.suffix (Utf8.decode input) m)
      (of_ok : ∀ text, (Report.symbolicate host command (o.path host) o.suffix workers
        (Utf8.decode input)).run.value = .ok text →
          s.ending = .exit 0 ∧ s.output = Utf8.encode text)
      (of_failure : ∀ e, (Report.symbolicate host command (o.path host) o.suffix workers
        (Utf8.decode input)).run.value = .error (.failure e) →
          s.ending = .exit 1 ∧ EndsInError s e.describe)
      (of_refused : ∀ reason, (Report.symbolicate host command (o.path host) o.suffix workers
        (Utf8.decode input)).run.value = .error (.refused reason) →
          s.ending = .fault (.refused reason))
  | missed (unusable : ∀ b ∈ candidates o.symbolizers, host.Unusable b)
      (calls : s.calls = (candidates o.symbolizers).map host.probing)
      (ending : s.ending = .exit 1)
      (error : EndsInError s (Failure.locate (candidates o.symbolizers)).describe)
  | refused {before after : List Text} {name reason : Text}
      (place : candidates o.symbolizers = before ++ name :: after)
      (unusable : ∀ b ∈ before, host.Unusable b)
      (refused : host.spawn (host.probing name) = .refused reason)
      (calls : s.calls = (before ++ [name]).map host.probing)
      (ending : s.ending = .fault (.refused reason))

theorem locates_run {arguments : List Text} (h : Options.ofArguments arguments = .ok o)
    (asked : o.workers = some workers) (enough : 1 ≤ workers)
    (lookup : host.isDirectory (o.path host) = .ok present) (wanted : ¬o.summary) :
    Locates host o workers input (run host arguments input) := by
  have hcalls : (run host arguments input).calls =
      (resolve host o (o.path host) workers (Utf8.decode input)).run.calls :=
    calls_run_of_report h asked enough lookup wanted
  obtain ⟨found, probes, hsearch, hprobes, hvalue⟩ := exists_searches host o.symbolizers
  cases hsearch with
  | found place unusable usable =>
      rw [calls_resolve_of_found hvalue, hprobes] at hcalls
      refine .found place unusable usable hcalls ?_ ?_ ?_ ?_
      · exact fun argv => Report.mem_calls_symbolicate
      · intro text htext
        rw [← value_resolve_of_found hvalue] at htext
        exact run_of_report h asked enough lookup wanted htext
      · intro e he
        rw [← value_resolve_of_found hvalue] at he
        exact ⟨(run_of_report h asked enough lookup wanted he).1,
          endsInError_of_missed h asked enough lookup wanted he⟩
      · intro reason hreason
        rw [← value_resolve_of_found hvalue] at hreason
        exact (run_of_report h asked enough lookup wanted hreason).1
  | missed unusable =>
      have hmissed : (resolve host o (o.path host) workers (Utf8.decode input)).run.value =
          .error (.failure (.locate (candidates o.symbolizers))) := value_resolve_of_missed hvalue
      rw [calls_resolve_of_missed hvalue, hprobes] at hcalls
      exact .missed unusable hcalls (run_of_report h asked enough lookup wanted hmissed).1
        (endsInError_of_missed h asked enough lookup wanted hmissed)
  | @refused before after name reason place unusable refused =>
      have hmissed : (resolve host o (o.path host) workers (Utf8.decode input)).run.value =
          .error (.refused reason) := value_resolve_of_missed hvalue
      rw [calls_resolve_of_missed hvalue, hprobes] at hcalls
      exact .refused place unusable refused hcalls
        (run_of_report h asked enough lookup wanted hmissed).1

structure LocatesFirst (host : Host) (o : Options) (workers : Int) (input : List UInt8)
    (s : Session) : Prop where
  candidates_nodup : (candidates o.symbolizers).Nodup
  candidates_named : [] ∉ candidates o.symbolizers
  unusable_iff : ∀ c, host.Unusable c ↔
    ¬host.Usable c ∧ ∀ reason, host.spawn (host.probing c) ≠ .refused reason
  course : Locates host o workers input s
  missed_iff : ∀ cs, (resolve host o (o.path host) workers (Utf8.decode input)).run.value =
      .error (.failure (.locate cs)) ↔
    (∀ b ∈ candidates o.symbolizers, host.Unusable b) ∧ cs = candidates o.symbolizers
  message : (Failure.locate (candidates o.symbolizers)).message =
    spell "no usable symbolizer found (tried: " ++ Text.join (spell ", ") (candidates o.symbolizers) ++
      spell ")"

theorem run_locatesFirst {arguments : List Text} (host : Host) (input : List UInt8)
    (h : Options.ofArguments arguments = .ok o) (asked : o.workers = some workers)
    (enough : 1 ≤ workers) (lookup : host.isDirectory (o.path host) = .ok present)
    (wanted : ¬o.summary) : LocatesFirst host o workers input (run host arguments input) := by
  constructor
  case candidates_nodup => exact nodup_candidates _
  case candidates_named => exact nil_notMem_candidates _
  case unusable_iff => exact fun c => Host.unusable_iff
  case course => exact locates_run h asked enough lookup wanted
  case missed_iff => exact fun cs => value_resolve_eq_locate_iff
  case message => rw [Failure.message, if_neg (candidates_ne_nil _)]

def pickyHost : Host := .answering fun argv =>
  if argv.head? = some (spell "x") then 
    .unavailable ⟨2, spell "No such file or directory", some (spell "x")⟩
  else if argv = [spell "llvm-symbolizer-15", spell "--version"] then .exited 1 [] []
  else .exited 0 (spell "p\n\n") []

def pickyOptions : Options :=
  { directory := some (spell "d"), symbolizers := [spell "x", [], spell "llvm-symbolizer-15"] }

theorem run_locatesFirst_pickyHost :
    LocatesFirst pickyHost pickyOptions 1 (spell "[+0x1](m)")
      (run pickyHost [spell "d", spell "--symbolizer", spell "x", spell "--symbolizer=",
        spell "--symbolizer=llvm-symbolizer-15"] (spell "[+0x1](m)")) ∧
    (run pickyHost [spell "d", spell "--symbolizer", spell "x", spell "--symbolizer=",
      spell "--symbolizer=llvm-symbolizer-15"] (spell "[+0x1](m)")).calls =
        [[spell "x", spell "--version"], [spell "llvm-symbolizer-15", spell "--version"],
          [spell "llvm-symbolizer-14", spell "--version"],
          [spell "llvm-symbolizer-14", spell "-C", spell "-f", spell "-a", spell "-p", spell "-e",
            spell "d/m.debug", spell "0x1"]] := by
  have h : Options.ofArguments [spell "d", spell "--symbolizer", spell "x", spell "--symbolizer=",
      spell "--symbolizer=llvm-symbolizer-15"] = .ok pickyOptions := by decide +kernel
  refine ⟨run_locatesFirst pickyHost _ h rfl (le_refl 1) rfl (by decide), ?_⟩
  rw [run, h]
  decide +kernel

end Command

end Symbolication
