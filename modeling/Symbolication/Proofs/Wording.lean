import Symbolication.Proofs.Blocks
import Symbolication.Proofs.Printable
import Symbolication.Proofs.Search

namespace Symbolication

def lineBreaks : List Char :=
  ['\n', '\x0B', '\x0C', '\r', '\x1C', '\x1D', '\x1E', '\u0085', '\u2028', '\u2029']

theorem notPrintable_lineBreak {c : Char} (h : c ∈ lineBreaks) : ¬isPrintable (.char c) := by
  have hall : lineBreaks.all (fun c => !isPrintable (.char c)) = true := by decide +kernel
  simpa using List.all_eq_true.mp hall c h

def Unbroken (t : Text) : Prop := ∀ c ∈ lineBreaks, Glyph.char c ∉ t

def IsLine (t : Text) : Prop := ∃ body, t = body ++ [.char '\n'] ∧ Unbroken body

section Described

variable {g : Glyph}

theorem Failure.printable_stage (e : Failure) : Printable e.stage := by
  cases e with
  | locate _ => exact printable_spell (by decide)
  | invoke _ _ => exact printable_spell (by decide)
  | malformed _ _ _ => exact printable_spell (by decide)

theorem Failure.mem_describe_of_module {e : Failure} {m : Text} (h : e.module? = some m) (hm : m ≠ [])
    (hg : ¬isPrintable g) : g ∈ e.describe ↔ g ∈ m ∨ g ∈ e.message := by
  rw [describe_of_module h hm]
  simp (disch := decide) only [List.mem_append, e.printable_stage.notMem hg, notMem_spell hg,
    false_or, or_false]

theorem Failure.describe_locate {names : List Text} (h : names ≠ []) :
    (locate names).describe = spell "locate failed: " ++
      spell "no usable symbolizer found (tried: " ++ Text.join (spell ", ") names ++ spell ")" := by
  rw [describe, message, if_neg h, ← List.append_assoc, ← List.append_assoc]
  rfl

theorem Failure.mem_describe_locate {names : List Text} (h : names ≠ []) (hg : ¬isPrintable g) :
    g ∈ (locate names).describe ↔ ∃ name ∈ names, g ∈ name := by
  have hcomma : g ∉ spell ", " := notMem_spell hg (by decide)
  rw [describe_locate h]
  simp (disch := decide) only [List.mem_append, notMem_spell hg, false_or, or_false]
  constructor
  · exact fun hmem => (Block.mem_intercalate hmem).resolve_left hcomma
  · rintro ⟨name, hname, hmem⟩
    exact Block.mem_intercalate_of_mem hname hmem

theorem notMem_file (hg : ¬isPrintable g) (file? : Option Text) :
    g ∉ file?.elim [] fun file => spell ": " ++ quoted file := by
  cases file? with
  | none => exact List.not_mem_nil
  | some file =>
      simp (disch := decide) only [Option.elim_some, List.mem_append, notMem_spell hg,
        (printable_quoted file).notMem hg, or_self, not_false_iff]

namespace Job

def excerpts (host : Host) (command : Text) (job : Job) : List Text :=
  match host.spawn (job.call command) with
  | .unavailable e => [job.module, command, e.reason]
  | .refused _ => []
  | .exited code _ stderr =>
      if code = 0 then [job.module] else [job.module, command, trim isBlank (Utf8.decodeLossy stderr)]

theorem FailsWith.mem_describe_iff {host : Host} {command : Text} {job : Job} {failure : Failure}
    (h : job.FailsWith host command (.failure failure)) (hm : job.module ≠ [])
    (hg : ¬isPrintable g) :
    g ∈ failure.describe ↔ ∃ t ∈ job.excerpts host command, g ∈ t := by
  rw [Failure.mem_describe_of_module h.names.1 hm hg, excerpts]
  cases h with
  | @unavailable errno _ file? spawned =>
      simp (disch := decide) only [spawned, Failure.message, List.mem_append, notMem_spell hg,
        (printable_integer errno).notMem hg, notMem_file hg file?, List.exists_mem_cons_iff,
        List.not_mem_nil, false_and, exists_false, false_or, or_false]
  | @failed code _ _ _ spawned bad stripped =>
      simp (disch := decide) only [spawned, if_neg bad, stripped.trim_eq, Failure.message,
        List.mem_append, notMem_spell hg, (printable_integer code).notMem hg,
        List.exists_mem_cons_iff, List.not_mem_nil, false_and, exists_false, or_false]
  | @miscounted stdout _ spawned other =>
      simp (disch := decide) only [spawned, if_true, Failure.message, List.mem_append, notMem_spell hg,
        (printable_integer _).notMem hg, List.exists_mem_cons_iff, List.not_mem_nil, false_and,
        exists_false, or_false]

end Job

end Described

section Shown

theorem showStrays_append (s t : Text) : showStrays (s ++ t) = showStrays s ++ showStrays t :=
  List.flatMap_append

theorem mem_showStrays_iff {c : Char} (hc : ¬isPrintable (.char c)) {t : Text} :
    Glyph.char c ∈ showStrays t ↔ Glyph.char c ∈ t := by
  rw [showStrays, List.mem_flatMap]
  constructor
  · rintro ⟨g, hg, hmem⟩
    cases g with
    | char d =>
        rw [List.mem_singleton.mp hmem]
        exact hg
    | stray low => exact absurd hmem ((printable_codeEscape _).notMem hc)
  · exact fun h => ⟨_, h, List.mem_singleton_self _⟩

namespace Command

theorem showStrays_line_error (message : Text) : showStrays (line ⟨.error, message⟩) =
    spell "[ERROR] " ++ showStrays message ++ spell "\n" := by
  rw [line, showStrays_append, showStrays_append, showStrays_append, showStrays_append]
  rfl

theorem ended_lines (rs : List Record) : (rs.flatMap fun r => showStrays (line r)) = [] ∨
    (rs.flatMap fun r => showStrays (line r)).getLast? = some (.char '\n') := by
  cases rs using List.reverseRecOn with
  | nil => exact .inl rfl
  | append_singleton rs r =>
      have hend : showStrays (spell "\n") = [.char '\n'] := rfl
      rw [List.flatMap_append, List.flatMap_singleton, line, showStrays_append, hend,
        ← List.append_assoc]
      exact .inr List.getLast?_concat

theorem isLine_error_iff {message : Text} :
    IsLine (showStrays (line ⟨.error, message⟩)) ↔ Unbroken message := by
  rw [showStrays_line_error]
  constructor
  · rintro ⟨body, hbody, hunbroken⟩ c hc hmem
    obtain ⟨rfl, -⟩ := List.append_inj' hbody rfl
    have hshown : .char c ∈ showStrays message :=
      (mem_showStrays_iff (notPrintable_lineBreak hc)).mpr hmem
    exact hunbroken c hc (List.mem_append_right _ hshown)
  · intro h
    refine ⟨_, rfl, fun c hc hmem => ?_⟩
    rcases List.mem_append.mp hmem with hmem | hmem
    · exact notMem_spell (notPrintable_lineBreak hc) (by decide) hmem
    · exact h c hc ((mem_showStrays_iff (notPrintable_lineBreak hc)).mp hmem)

end Command

end Shown

namespace Command

variable {host : Host} {o : Options} {input : List UInt8} {workers : Int} {present : Bool}
  {failure : Failure}

inductive Blames (host : Host) (o : Options) (report : Text) (failure : Failure) :
    List Text → Prop where
  | locate (unusable : ∀ b ∈ candidates o.symbolizers, host.Unusable b)
      (describe_eq : failure.describe = spell "locate failed: " ++
        spell "no usable symbolizer found (tried: " ++
          Text.join (spell ", ") (candidates o.symbolizers) ++ spell ")") :
      Blames host o report failure (candidates o.symbolizers)
  | module {command m : Text} (found : (findSymbolizer host o.symbolizers).run.value = .ok command)
      (mem : m ∈ Report.modules report)
      (fails : (Report.jobOf (o.path host) o.suffix report m).FailsWith host command
        (.failure failure))
      (stage : failure.stage = spell "invoke" ∨ failure.stage = spell "parse output")
      (describe_eq : failure.describe =
        failure.stage ++ spell " failed for module " ++ m ++ spell ": " ++ failure.message) :
      Blames host o report failure
        ((Report.jobOf (o.path host) o.suffix report m).excerpts host command)

theorem exists_blames {report : Text}
    (missed : (resolve host o (o.path host) workers report).run.value =
      .error (.failure failure)) : ∃ excerpts, Blames host o report failure excerpts := by
  rcases Attempt.value_bind_eq_error_iff.mp missed with hlocate | ⟨command, found, hreport⟩
  · obtain ⟨unusable, rfl⟩ := value_findSymbolizer_eq_failure_iff.mp hlocate
    exact ⟨_, .locate unusable (Failure.describe_locate (candidates_ne_nil _))⟩
  · obtain ⟨m, mem, fails, stage, describe_eq⟩ := Report.exists_failed_of_symbolicate hreport
    exact ⟨_, .module found mem fails stage describe_eq⟩

theorem Blames.mem_describe_iff {report : Text} {excerpts : List Text}
    (h : Blames host o report failure excerpts) {g : Glyph} (hg : ¬isPrintable g) :
    g ∈ failure.describe ↔ ∃ t ∈ excerpts, g ∈ t := by
  cases h with
  | locate unusable describe_eq =>
      rw [describe_eq, ← Failure.describe_locate (candidates_ne_nil _)]
      exact Failure.mem_describe_locate (candidates_ne_nil _) hg
  | module found mem fails stage describe_eq =>
      exact fails.mem_describe_iff (Report.ne_nil_of_mem_modules mem) hg

theorem Blames.unbroken_iff {report : Text} {excerpts : List Text}
    (h : Blames host o report failure excerpts) :
    Unbroken failure.describe ↔ ∀ t ∈ excerpts, Unbroken t := by
  have hrepeats : ∀ c ∈ lineBreaks, Glyph.char c ∈ failure.describe ↔ ∃ t ∈ excerpts, Glyph.char c ∈ t :=
    fun c hc => h.mem_describe_iff (notPrintable_lineBreak hc)
  constructor
  · exact fun hd t ht c hc hmem => hd c hc ((hrepeats c hc).mpr ⟨t, ht, hmem⟩)
  · intro hexcerpts c hc hmem
    obtain ⟨t, ht, hmem⟩ := (hrepeats c hc).mp hmem
    exact hexcerpts t ht c hc hmem

structure Worded (host : Host) (o : Options) (report : Text) (failure : Failure) (s : Session) :
    Prop where
  ending : s.ending = .exit 1
  error : EndsInError s failure.describe
  written : ∃ earlier, s.diagnostics = earlier ++ showStrays (line ⟨.error, failure.describe⟩) ∧
    (earlier = [] ∨ earlier.getLast? = some (.char '\n'))
  line_eq : showStrays (line ⟨.error, failure.describe⟩) =
    spell "[ERROR] " ++ showStrays failure.describe ++ spell "\n"
  blames : ∃ excerpts, Blames host o report failure excerpts
  repeats : ∀ excerpts, Blames host o report failure excerpts → ∀ c ∈ lineBreaks,
    Glyph.char c ∈ failure.describe ↔ ∃ t ∈ excerpts, Glyph.char c ∈ t
  isLine_iff : ∀ excerpts, Blames host o report failure excerpts →
    (IsLine (showStrays (line ⟨.error, failure.describe⟩)) ↔ ∀ t ∈ excerpts, Unbroken t)

theorem run_worded {arguments : List Text} (h : Options.ofArguments arguments = .ok o)
    (asked : o.workers = some workers) (enough : 1 ≤ workers)
    (lookup : host.isDirectory (o.path host) = .ok present) (wanted : ¬o.summary)
    (missed : (resolve host o (o.path host) workers (Utf8.decode input)).run.value =
      .error (.failure failure)) :
    Worded host o (Utf8.decode input) failure (run host arguments input) := by
  have herror := endsInError_of_missed h asked enough lookup wanted missed
  constructor
  case ending => exact (run_of_report h asked enough lookup wanted missed).1
  case error => exact herror
  case written =>
    obtain ⟨earlier, hrecords, -⟩ := herror.records
    exact ⟨_, diagnostics_run h hrecords, ended_lines _⟩
  case line_eq => exact showStrays_line_error _
  case blames => exact exists_blames missed
  case repeats => exact fun _ hb c hc => hb.mem_describe_iff (notPrintable_lineBreak hc)
  case isLine_iff => exact fun _ hb => isLine_error_iff.trans hb.unbroken_iff

def hoarseHost (complaint : String) : Host := .answering fun argv =>
  if argv.tail = [spell "--version"] then .exited 0 [] [] else .exited 1 [] (spell complaint)

def hoarseFailure (complaint : String) : Failure :=
  .invoke (some (spell "m"))
    { message := spell "llvm-symbolizer-14" ++ spell " exited with code 1: " ++ spell complaint
      status := some 1
      stderr := spell complaint }

theorem run_worded_hoarseHost :
    Worded (hoarseHost "\nboom\n") { quiet := true } (Utf8.decode (spell "[+0x1](m)"))
        (hoarseFailure "boom") (run (hoarseHost "\nboom\n") [spell "-q"] (spell "[+0x1](m)")) ∧
      (run (hoarseHost "\nboom\n") [spell "-q"] (spell "[+0x1](m)")).diagnostics =
        spell "[ERROR] invoke failed for module m: " ++ spell "llvm-symbolizer-14" ++
          spell " exited with code 1: " ++ spell "boom\n" := by
  have h : Options.ofArguments [spell "-q"] = .ok { quiet := true } := by decide +kernel
  refine ⟨run_worded h rfl (le_refl 1) rfl (by decide) (by decide +kernel), ?_⟩
  rw [run, h]
  decide +kernel

theorem run_newline_in_complaint :
    (resolve (hoarseHost "a\nb") { quiet := true }
        (Options.path { quiet := true } (hoarseHost "a\nb")) 1
        (Utf8.decode (spell "[+0x1](m)"))).run.value = .error (.failure (hoarseFailure "a\nb")) ∧
      ¬Unbroken (hoarseFailure "a\nb").describe ∧
      (run (hoarseHost "a\nb") [spell "-q"] (spell "[+0x1](m)")).diagnostics =
        spell "[ERROR] invoke failed for module m: " ++ spell "llvm-symbolizer-14" ++
          spell " exited with code 1: " ++ spell "a\nb\n" := by
  have h : Options.ofArguments [spell "-q"] = .ok { quiet := true } := by decide +kernel
  refine ⟨by decide +kernel, ?_, ?_⟩
  · intro hunbroken
    exact hunbroken '\n' (List.mem_cons_self ..) (by decide +kernel)
  · rw [run, h]
    decide +kernel

end Command

end Symbolication
