import Symbolication.Proofs.Arguments
import Symbolication.Proofs.Calls
import Symbolication.Proofs.Endings

namespace Symbolication.Command

variable {host : Host} {o : Options} {input : List UInt8}

inductive Collapses (host : Host) (o : Options) (input : List UInt8) : Fault → Prop where
  | incomparable (unset : o.workers = none) : Collapses host o input .incomparable
  | unsearchable {workers : Int} {e : SystemError} (asked : o.workers = some workers)
      (enough : 1 ≤ workers) (lookup : host.isDirectory (o.path host) = .error e) :
      Collapses host o input (.unsearchable e)
  | unprobed {workers : Int} {present : Bool} {reason : Text} (asked : o.workers = some workers)
      (enough : 1 ≤ workers) (lookup : host.isDirectory (o.path host) = .ok present)
      (wanted : ¬o.summary)
      (halted : (findSymbolizer host o.symbolizers).run.value = .error (.refused reason)) :
      Collapses host o input (.refused reason)
  | uncalled {workers : Int} {present : Bool} {command reason : Text}
      (asked : o.workers = some workers) (enough : 1 ≤ workers)
      (lookup : host.isDirectory (o.path host) = .ok present) (wanted : ¬o.summary)
      (found : (findSymbolizer host o.symbolizers).run.value = .ok command)
      (halted : (Report.symbolicate host command (o.path host) o.suffix workers
        (Utf8.decode input)).run.value = .error (.refused reason)) :
      Collapses host o input (.refused reason)

theorem exists_refused_of_resolve {directory : Path} {workers : Int} {report reason : Text}
    (h : (resolve host o directory workers report).run.value = .error (.refused reason)) :
    ∃ argv ∈ (resolve host o directory workers report).run.calls,
      host.spawn argv = .refused reason := by
  rcases Attempt.value_bind_eq_error_iff.mp h with hfind | ⟨command, hfound, hreport⟩
  · rw [resolve, Attempt.calls_bind_of_error hfind]
    exact exists_refused_probe hfind
  · rw [Report.value_symbolicate, map_eq_error_iff] at hreport
    obtain ⟨argv, hargv, hspawn⟩ := exists_refused_call hreport
    refine ⟨argv, ?_, hspawn⟩
    rw [resolve, Attempt.calls_bind_of_ok hfound, Report.calls_symbolicate]
    exact List.mem_append_right _ hargv

theorem Collapses.ending_perform {f : Fault} (h : Collapses host o input f) :
    (perform host o input).value.ending = .fault f := by
  cases h with
  | incomparable unset =>
      rw [perform, unset]
      rfl
  | unsearchable asked enough lookup =>
      rw [perform, asked]
      dsimp only
      rw [if_neg (by omega), lookup]
      rfl
  | unprobed asked enough lookup wanted halted =>
      rw [value_perform_of_report asked enough lookup wanted, resolve,
        Attempt.value_bind_eq_error_iff.mpr (.inl halted)]
      rfl
  | uncalled asked enough lookup wanted found halted =>
      rw [value_perform_of_report asked enough lookup wanted, resolve,
        Attempt.value_bind_eq_error_iff.mpr (.inr ⟨_, found, halted⟩)]
      rfl

namespace Course

variable {ending : Ending} {output : List UInt8} {events : List Event} {f : Fault}

theorem endings (h : Course host o input ending output events) :
    ending = .exit 0 ∨ ending = .exit 1 ∨ ∃ f, ending = .fault f := by
  cases h with
  | incomparable _ => exact .inr (.inr ⟨_, rfl⟩)
  | tooFew _ _ => exact .inr (.inl rfl)
  | unsearchable _ _ _ => exact .inr (.inr ⟨_, rfl⟩)
  | summarized _ _ _ _ => exact .inl rfl
  | resolved _ _ _ _ _ => exact .inl rfl
  | failed _ _ _ _ _ => exact .inr (.inl rfl)
  | refused _ _ _ _ _ => exact .inr (.inr ⟨_, rfl⟩)

theorem output_eq_nil (h : Course host o input ending output events) (hne : ending ≠ .exit 0) :
    output = [] := by
  cases h with
  | summarized _ _ _ _ => exact absurd rfl hne
  | resolved _ _ _ _ _ => exact absurd rfl hne
  | _ => rfl

theorem collapses (h : Course host o input (.fault f) output events) : Collapses host o input f := by
  cases h with
  | incomparable unset => exact .incomparable unset
  | unsearchable asked enough lookup => exact .unsearchable asked enough lookup
  | refused asked enough lookup wanted halted =>
      rcases Attempt.value_bind_eq_error_iff.mp halted with halted | ⟨command, found, halted⟩
      · exact .unprobed asked enough lookup wanted halted
      · exact .uncalled asked enough lookup wanted found halted

theorem calm_of_fault (h : Course host o input (.fault f) output events) :
    ∀ r ∈ events.filterMap Event.record?, r.level ≠ .error := by
  cases h with
  | incomparable unset => exact List.forall_mem_nil _
  | unsearchable asked enough lookup => exact List.forall_mem_nil _
  | refused asked enough lookup wanted halted =>
      rw [List.filterMap_append]
      exact List.forall_mem_append.mpr ⟨calm_notice host o, calm_resolve _ _ _⟩

end Course

theorem ending_eq_fault_iff {arguments : List Text} {f : Fault}
    (h : Options.ofArguments arguments = .ok o) :
    (run host arguments input).ending = .fault f ↔ Collapses host o input f := by
  constructor
  · intro hfault
    have hcourse : Course host o input (run host arguments input).ending _ _ := course_run h
    rw [hfault] at hcourse
    exact hcourse.collapses
  · intro hcollapses
    rw [run_eq h]
    exact hcollapses.ending_perform

-- What a run that ends in a fault has done by then.
inductive Quits (host : Host) (arguments : List Text) (events : List Event) : Fault → Prop where
  | incomparable {name : Text} (joined : name ++ spell "=--" ∈ arguments) (idle : events = []) :
      Quits host arguments events .incomparable
  | unsearchable {e : SystemError} (idle : events = []) :
      Quits host arguments events (.unsearchable e)
  | refused {argv : List Text} {reason : Text} (tried : argv ∈ events.filterMap Event.call?)
      (spawned : host.spawn argv = .refused reason) :
      Quits host arguments events (.refused reason)

theorem Course.quits {arguments : List Text} {output : List UInt8} {events : List Event} {f : Fault}
    (h : Options.ofArguments arguments = .ok o)
    (hcourse : Course host o input (.fault f) output events) : Quits host arguments events f := by
  cases hcourse with
  | incomparable unset =>
      have hname : ∃ name, name ++ spell "=--" ∈ arguments := by
        by_contra hno
        exact Options.workers_ne_none h (not_exists.mp hno) unset
      obtain ⟨name, joined⟩ := hname
      exact .incomparable joined rfl
  | unsearchable asked enough lookup => exact .unsearchable rfl
  | refused asked enough lookup wanted halted =>
      obtain ⟨argv, hargv, spawned⟩ := exists_refused_of_resolve halted
      refine .refused ?_ spawned
      rw [List.filterMap_append, calls_notice]
      exact hargv

structure AllOrNothing (host : Host) (arguments : List Text) (input : List UInt8) (s : Session) :
    Prop where
  endings : s.ending = .exit 0 ∨ s.ending = .exit 1 ∨ s.ending = .exit 2 ∨
    ∃ f, s.ending = .fault f
  output : s.ending ≠ .exit 0 → s.output = []
  success : ∀ o, Options.ofArguments arguments = .ok o → s.ending = .exit 0 →
    Completes host o input s
  failure : s.ending = .exit 1 → ∃ o message, Options.ofArguments arguments = .ok o ∧
    EndsInError s message ∧ Complaint host o input s.calls message
  misuse : s.ending = .exit 2 ↔ ∃ e, Options.ofArguments arguments = .error (.misuse e)
  of_misuse : s.ending = .exit 2 → s.output = [] ∧ s.calls = []
  help : Options.ofArguments arguments = .error .help →
    s.ending = .exit 0 ∧ s.output = Utf8.encode (help host.installation.shown) ∧ s.events = []
  fault_iff : ∀ f, s.ending = .fault f ↔
    ∃ o, Options.ofArguments arguments = .ok o ∧ Collapses host o input f
  of_fault : ∀ f, s.ending = .fault f →
    (∀ r ∈ s.records, r.level ≠ .error) ∧ Quits host arguments s.events f

theorem run_allOrNothing (host : Host) (arguments : List Text) (input : List UInt8) :
    AllOrNothing host arguments input (run host arguments input) := by
  cases h : Options.ofArguments arguments with
  | error stop =>
      cases stop with
      | help =>
          have hrun : run host arguments input =
              ⟨.exit 0, Utf8.encode (help host.installation.shown), [], []⟩ := by rw [run, h]
          constructor <;> simp [hrun, h]
      | misuse e =>
          have hrun : run host arguments input = ⟨.exit 2, [], showStrays e.report, []⟩ := by
            rw [run, h]
          constructor <;> simp [hrun, h, Session.calls]
  | ok o =>
      have hcourse : Course host o input (run host arguments input).ending _ _ := course_run h
      have hmisuse : (run host arguments input).ending ≠ .exit 2 := by
        rcases hcourse.endings with hending | hending | ⟨f, hending⟩ <;> simp [hending]
      constructor
      case endings =>
        rcases hcourse.endings with hending | hending | hending
        · exact .inl hending
        · exact .inr (.inl hending)
        · exact .inr (.inr (.inr hending))
      case output => exact hcourse.output_eq_nil
      case success =>
        intro o' ho' done
        obtain rfl := Except.ok.inj (h.symm.trans ho')
        exact completes_run h done
      case failure =>
        intro failed
        obtain ⟨message, herror, hcomplaint⟩ := complains_run h failed
        exact ⟨o, message, h, herror, hcomplaint⟩
      case misuse => simp [hmisuse, h]
      case of_misuse => exact fun h2 => absurd h2 hmisuse
      case help =>
        intro hhelp
        rw [h] at hhelp
        cases hhelp
      case fault_iff =>
        intro f
        rw [ending_eq_fault_iff h]
        constructor
        · exact fun hf => ⟨o, h, hf⟩
        · rintro ⟨o', ho', hf⟩
          rwa [Except.ok.inj (h.symm.trans ho')]
      case of_fault =>
        intro f hf
        rw [hf] at hcourse
        exact ⟨hcourse.calm_of_fault, hcourse.quits h⟩

def lostHost : Host :=
  { Report.strictHost with
    isDirectory := fun p => .error ⟨36, spell "File name too long", some p.toText⟩ }

theorem run_faults_uncaught :
    (∀ status, (run Report.strictHost [spell "--workers=--"] []).ending ≠ .exit status) ∧
    (∀ status, (run Report.strictHost [spell "d"] (spell "[+0x1](a\x00b)")).ending ≠ .exit status) ∧
    ∀ status, (run lostHost [spell "d"] []).ending ≠ .exit status := by
  have hread : Options.ofArguments [spell "d"] = .ok { directory := some (spell "d") } := by
    decide +kernel
  refine ⟨fun status h => ?_, fun status h => ?_, fun status h => ?_⟩
  · rw [run, Options.ofArguments_workers_separator] at h
    cases h
  · have hending : (run Report.strictHost [spell "d"] (spell "[+0x1](a\x00b)")).ending =
        .fault (.refused (spell "embedded null byte")) := by
      rw [run, hread]
      decide +kernel
    rw [hending] at h
    cases h
  · have hending : (run lostHost [spell "d"] []).ending = .fault (.unsearchable
        ⟨36, spell "File name too long", some (spell "d")⟩) := by
      rw [run, hread]
      decide +kernel
    rw [hending] at h
    cases h

end Symbolication.Command
