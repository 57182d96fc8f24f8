import Symbolication.Proofs.Candidates
import Symbolication.Proofs.Records
import Symbolication.Proofs.Sheet

namespace Symbolication.Command

variable {host : Host} {o : Options} {input : List UInt8}

theorem calm_summarize (directory : Path) (suffix : Option Text) (report : Text) :
    (summarize directory suffix report).Calm := by
  simp only [summarize, Traced.calm_bind]
  refine ⟨by simp, ?_⟩
  split
  · exact Traced.calm_pure _
  · exact Traced.calm_bind.mpr ⟨Artifact.calm_chooseSuffix _ _, Traced.calm_pure _⟩

theorem calm_resolve (directory : Path) (workers : Int) (report : Text) :
    (resolve host o directory workers report).run.Calm :=
  Attempt.calm_bind (calm_findSymbolizer host _) fun _ => Report.calm_symbolicate _ _ _ _

theorem calls_conclude (outcome : Except Halt Text) : (conclude outcome).calls = [] := by
  rcases outcome with (failure | reason) | text <;> simp [conclude]

def missingDirectory (host : Host) (o : Options) : Record :=
  ⟨.warning, spell "Debug directory does not exist: " ++ (o.path host).toText⟩

def notice (host : Host) (o : Options) : List Event :=
  match host.isDirectory (o.path host) with
  | .ok false => [.record (missingDirectory host o)]
  | _ => []

theorem notice_eq (host : Host) (o : Options) :
    notice host o = [] ∨ notice host o = [.record (missingDirectory host o)] := by
  rw [notice]
  split
  · exact .inr rfl
  · exact .inl rfl

theorem calls_notice (host : Host) (o : Options) : (notice host o).filterMap Event.call? = [] := by
  rcases notice_eq host o with h | h <;> rw [h] <;> rfl

theorem calm_notice (host : Host) (o : Options) :
    ∀ r ∈ (notice host o).filterMap Event.record?, r.level ≠ .error := by
  rcases notice_eq host o with h | h <;> simp [h, Event.record?, missingDirectory]

theorem perform_of_lookup {workers : Int} {present : Bool} (asked : o.workers = some workers)
    (enough : 1 ≤ workers) (lookup : host.isDirectory (o.path host) = .ok present) :
    perform host o input = (⟨notice host o, ()⟩ : Traced Unit) >>= fun _ =>
      if o.summary then
        (fun text => ⟨.exit 0, Utf8.encode text⟩) <$>
          summarize (o.path host) o.suffix (Utf8.decode input)
      else (resolve host o (o.path host) workers (Utf8.decode input)).run >>= conclude := by
  have hworkers : ¬workers < 1 := by omega
  rw [perform, asked, ← bind_pure_comp]
  dsimp only
  rw [if_neg hworkers, notice, lookup]
  cases present <;> rfl

inductive Course (host : Host) (o : Options) (input : List UInt8) :
    Ending → List UInt8 → List Event → Prop where
  | incomparable (unset : o.workers = none) : Course host o input (.fault .incomparable) [] []
  | tooFew {workers : Int} (asked : o.workers = some workers) (few : workers < 1) :
      Course host o input (.exit 1) [] [.record
        ⟨.error, spell "--workers must be at least 1, got " ++ Text.integer workers⟩]
  | unsearchable {workers : Int} {e : SystemError} (asked : o.workers = some workers)
      (enough : 1 ≤ workers) (lookup : host.isDirectory (o.path host) = .error e) :
      Course host o input (.fault (.unsearchable e)) [] []
  | summarized {workers : Int} {present : Bool} (asked : o.workers = some workers)
      (enough : 1 ≤ workers) (lookup : host.isDirectory (o.path host) = .ok present)
      (wanted : o.summary) :
      Course host o input (.exit 0)
        (Utf8.encode (summarize (o.path host) o.suffix (Utf8.decode input)).value)
        (notice host o ++ (summarize (o.path host) o.suffix (Utf8.decode input)).events)
  | resolved {workers : Int} {present : Bool} {text : Text} (asked : o.workers = some workers)
      (enough : 1 ≤ workers) (lookup : host.isDirectory (o.path host) = .ok present)
      (wanted : ¬o.summary)
      (found : (resolve host o (o.path host) workers (Utf8.decode input)).run.value = .ok text) :
      Course host o input (.exit 0) (Utf8.encode text)
        (notice host o ++ (resolve host o (o.path host) workers (Utf8.decode input)).run.events)
  | failed {workers : Int} {present : Bool} {failure : Failure} (asked : o.workers = some workers)
      (enough : 1 ≤ workers) (lookup : host.isDirectory (o.path host) = .ok present)
      (wanted : ¬o.summary)
      (missed : (resolve host o (o.path host) workers (Utf8.decode input)).run.value =
        .error (.failure failure)) :
      Course host o input (.exit 1) []
        (notice host o ++ (resolve host o (o.path host) workers (Utf8.decode input)).run.events ++
          [.record ⟨.error, failure.describe⟩])
  | refused {workers : Int} {present : Bool} {reason : Text} (asked : o.workers = some workers)
      (enough : 1 ≤ workers) (lookup : host.isDirectory (o.path host) = .ok present)
      (wanted : ¬o.summary)
      (halted : (resolve host o (o.path host) workers (Utf8.decode input)).run.value =
        .error (.refused reason)) :
      Course host o input (.fault (.refused reason)) []
        (notice host o ++ (resolve host o (o.path host) workers (Utf8.decode input)).run.events)

theorem course_perform (host : Host) (o : Options) (input : List UInt8) :
    Course host o input (perform host o input).value.ending (perform host o input).value.output
      (perform host o input).events := by
  cases asked : o.workers with
  | none =>
      rw [perform, asked]
      exact .incomparable asked
  | some workers =>
      by_cases few : workers < 1
      · rw [perform, asked]
        dsimp only
        rw [if_pos few]
        exact .tooFew asked few
      · have enough : 1 ≤ workers := by omega
        cases lookup : host.isDirectory (o.path host) with
        | error e =>
            rw [perform, asked]
            dsimp only
            rw [if_neg few, lookup]
            exact .unsearchable asked enough lookup
        | ok present =>
            rw [perform_of_lookup asked enough lookup]
            by_cases wanted : o.summary
            · rw [if_pos wanted, Traced.value_bind, Traced.value_map, Traced.events_bind,
                Traced.events_map]
              exact .summarized asked enough lookup wanted
            · rw [if_neg wanted, Traced.value_bind, Traced.value_bind, Traced.events_bind,
                Traced.events_bind]
              cases h : (resolve host o (o.path host) workers (Utf8.decode input)).run.value with
              | ok text =>
                  rw [conclude, Traced.events_pure, List.append_nil]
                  exact .resolved asked enough lookup wanted h
              | error halt =>
                  cases halt with
                  | failure failure =>
                      rw [← List.append_assoc]
                      exact .failed asked enough lookup wanted h
                  | refused reason =>
                      rw [conclude, Traced.events_pure, List.append_nil]
                      exact .refused asked enough lookup wanted h

def Session.records (s : Session) : List Record := s.events.filterMap Event.record?

theorem run_eq {arguments : List Text} (h : Options.ofArguments arguments = .ok o) :
    run host arguments input =
      ⟨(perform host o input).value.ending, (perform host o input).value.output,
        ((perform host o input).records.filter o.shows).flatMap fun r => showStrays (line r),
        (perform host o input).events⟩ := by
  rw [run, h]

theorem calls_run {arguments : List Text} (h : Options.ofArguments arguments = .ok o) :
    (run host arguments input).calls = (perform host o input).calls := by
  rw [run_eq h]
  rfl

theorem records_run {arguments : List Text} (h : Options.ofArguments arguments = .ok o) :
    (run host arguments input).records = (perform host o input).records := by
  rw [run_eq h]
  rfl

theorem course_run {arguments : List Text} (h : Options.ofArguments arguments = .ok o) :
    Course host o input (run host arguments input).ending (run host arguments input).output
      (run host arguments input).events := by
  rw [run_eq h]
  exact course_perform host o input

structure EndsInError (s : Session) (message : Text) : Prop where
  output : s.output = []
  records : ∃ earlier, s.records = earlier ++ [⟨.error, message⟩] ∧ ∀ r ∈ earlier, r.level ≠ .error
  diagnostics : ∃ earlier, s.diagnostics = earlier ++ showStrays (line ⟨.error, message⟩)

inductive Complaint (host : Host) (o : Options) (input : List UInt8) (calls : List (List Text)) :
    Text → Prop where
  | workers {workers : Int} (asked : o.workers = some workers) (few : workers < 1)
      (idle : calls = []) :
      Complaint host o input calls (spell "--workers must be at least 1, got " ++ Text.integer workers)
  | locate {failure : Failure}
      (missed : (findSymbolizer host o.symbolizers).run.value = .error (.failure failure))
      (describe_eq : failure.describe = spell "locate failed: " ++ failure.message) :
      Complaint host o input calls failure.describe
  | symbolicate {workers : Int} {command m : Text} {failure : Failure}
      (asked : o.workers = some workers)
      (found : (findSymbolizer host o.symbolizers).run.value = .ok command)
      (missed : (Report.symbolicate host command (o.path host) o.suffix workers
        (Utf8.decode input)).run.value = .error (.failure failure))
      (mem : m ∈ Report.modules (Utf8.decode input))
      (stage : failure.stage = spell "invoke" ∨ failure.stage = spell "parse output")
      (describe_eq : failure.describe =
        failure.stage ++ spell " failed for module " ++ m ++ spell ": " ++ failure.message) :
      Complaint host o input calls failure.describe

structure Completes (host : Host) (o : Options) (input : List UInt8) (s : Session) : Prop where
  calm : ∀ r ∈ s.records, r.level ≠ .error
  summary : o.summary → s.output = Utf8.encode ((sheet (o.path host)
    (Artifact.suffix o.suffix (Utf8.decode input)) (Utf8.decode input)).flatMap Sheet.writeRow)
  report : ¬o.summary → ∃ workers command text, o.workers = some workers ∧
    (findSymbolizer host o.symbolizers).run.value = .ok command ∧
    (Report.symbolicate host command (o.path host) o.suffix workers (Utf8.decode input)).run.value =
      .ok text ∧ s.output = Utf8.encode text

theorem Options.shows_of_severe (o : Options) {r : Record}
    (h : severity .warning ≤ severity r.level) : o.shows r = true := by
  have hthreshold : severity o.threshold ≤ severity .warning := by
    rw [threshold]
    split
    · decide
    · split <;> decide
  exact decide_eq_true (hthreshold.trans h)

theorem diagnostics_run {arguments : List Text} {message : Text} {earlier : List Record}
    (h : Options.ofArguments arguments = .ok o)
    (records : (run host arguments input).records = earlier ++ [⟨.error, message⟩]) :
    (run host arguments input).diagnostics =
      ((earlier.filter o.shows).flatMap fun r => showStrays (line r)) ++
        showStrays (line ⟨.error, message⟩) := by
  have hsevere : severity .warning ≤ severity .error := by decide
  rw [records_run h] at records
  rw [run_eq h, records, List.filter_append, List.flatMap_append,
    List.filter_cons_of_pos (o.shows_of_severe hsevere)]
  exact congrArg _ (List.append_nil _)

theorem endsInError_run {arguments : List Text} {message : Text}
    (h : Options.ofArguments arguments = .ok o) (output : (run host arguments input).output = [])
    (earlier : List Record)
    (records : (run host arguments input).records = earlier ++ [⟨.error, message⟩])
    (calm : ∀ r ∈ earlier, r.level ≠ .error) :
    EndsInError (run host arguments input) message := by
  constructor
  case output => exact output
  case records => exact ⟨earlier, records, calm⟩
  case diagnostics => exact ⟨_, diagnostics_run h records⟩

section Reports

variable {arguments : List Text} {workers : Int} {present : Bool}
  (h : Options.ofArguments arguments = .ok o) (asked : o.workers = some workers)
  (enough : 1 ≤ workers) (lookup : host.isDirectory (o.path host) = .ok present)
  (wanted : ¬o.summary)

include asked enough lookup wanted

theorem value_perform_of_report : (perform host o input).value =
    (conclude (resolve host o (o.path host) workers (Utf8.decode input)).run.value).value := by
  rw [perform_of_lookup asked enough lookup, if_neg wanted]
  rfl

include h

theorem calls_run_of_report : (run host arguments input).calls =
    (resolve host o (o.path host) workers (Utf8.decode input)).run.calls := by
  have hnotice : (⟨notice host o, ()⟩ : Traced Unit).calls = [] := calls_notice host o
  rw [calls_run h, perform_of_lookup asked enough lookup, if_neg wanted, Traced.calls_bind,
    Traced.calls_bind, hnotice, calls_conclude, List.nil_append, List.append_nil]

theorem run_of_report {outcome : Except Halt Text}
    (hvalue : (resolve host o (o.path host) workers (Utf8.decode input)).run.value = outcome) :
    (run host arguments input).ending = (conclude outcome).value.ending ∧
      (run host arguments input).output = (conclude outcome).value.output := by
  rw [run_eq h, value_perform_of_report asked enough lookup wanted, hvalue]
  exact ⟨rfl, rfl⟩

theorem endsInError_of_missed {failure : Failure}
    (hvalue : (resolve host o (o.path host) workers (Utf8.decode input)).run.value =
      .error (.failure failure)) : EndsInError (run host arguments input) failure.describe := by
  have hrecords : (run host arguments input).records =
      ((notice host o).filterMap Event.record? ++
        (resolve host o (o.path host) workers (Utf8.decode input)).run.records) ++
          [⟨.error, failure.describe⟩] := by
    rw [records_run h, perform_of_lookup asked enough lookup, if_neg wanted, Traced.records_bind,
      Traced.records_bind, hvalue, List.append_assoc]
    rfl
  obtain ⟨-, houtput⟩ := run_of_report h asked enough lookup wanted hvalue
  refine endsInError_run h houtput _ hrecords ?_
  exact List.forall_mem_append.mpr ⟨calm_notice host o, calm_resolve _ _ _⟩

end Reports

theorem complaint_of_missed {workers : Int} {failure : Failure} {calls : List (List Text)}
    (asked : o.workers = some workers)
    (missed : (resolve host o (o.path host) workers (Utf8.decode input)).run.value =
      .error (.failure failure)) :
    Complaint host o input calls failure.describe := by
  rcases Attempt.value_bind_eq_error_iff.mp missed with hlocate | ⟨command, found, hreport⟩
  · apply Complaint.locate hlocate
    rw [(value_findSymbolizer_eq_failure_iff.mp hlocate).2]
    rfl
  · obtain ⟨m, mem, -, stage, describe_eq⟩ := Report.exists_failed_of_symbolicate hreport
    exact .symbolicate asked found hreport mem stage describe_eq

theorem complains_run {arguments : List Text} (h : Options.ofArguments arguments = .ok o)
    (failed : (run host arguments input).ending = .exit 1) :
    ∃ message, EndsInError (run host arguments input) message ∧
      Complaint host o input (run host arguments input).calls message := by
  have hcourse : Course host o input (run host arguments input).ending _ _ := course_run h
  rw [failed] at hcourse
  generalize houtput : (run host arguments input).output = output at hcourse
  generalize hevents : (run host arguments input).events = events at hcourse
  cases hcourse with
  | tooFew asked few =>
      have hrecords := congrArg (List.filterMap Event.record?) hevents
      refine ⟨_, endsInError_run h houtput [] hrecords (List.forall_mem_nil _),
        .workers asked few ?_⟩
      rw [Session.calls, hevents]
      rfl
  | failed asked enough lookup wanted missed =>
      exact ⟨_, endsInError_of_missed h asked enough lookup wanted missed,
        complaint_of_missed asked missed⟩

theorem completes_run {arguments : List Text} (h : Options.ofArguments arguments = .ok o)
    (done : (run host arguments input).ending = .exit 0) :
    Completes host o input (run host arguments input) := by
  have hcourse : Course host o input (run host arguments input).ending _ _ := course_run h
  rw [done] at hcourse
  generalize houtput : (run host arguments input).output = output at hcourse
  generalize hevents : (run host arguments input).events = events at hcourse
  cases hcourse with
  | summarized asked enough lookup wanted =>
      constructor
      case calm =>
        rw [Session.records, hevents, List.filterMap_append]
        exact List.forall_mem_append.mpr ⟨calm_notice host o, calm_summarize _ _ _⟩
      case summary =>
        intro _
        rw [houtput, value_summarize_eq_sheet]
      case report => exact fun h => absurd wanted h
  | resolved asked enough lookup wanted found =>
      constructor
      case calm =>
        rw [Session.records, hevents, List.filterMap_append]
        exact List.forall_mem_append.mpr ⟨calm_notice host o, calm_resolve _ _ _⟩
      case summary => exact fun h => absurd h wanted
      case report =>
        intro _
        obtain ⟨command, hcommand, htext⟩ := Attempt.value_bind_eq_ok_iff.mp found
        exact ⟨_, command, _, asked, hcommand, htext, houtput⟩

end Symbolication.Command
