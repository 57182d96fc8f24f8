import Mathlib.Data.List.Forall2
import Symbolication.Proofs.Calls
import Symbolication.Proofs.Endings

namespace Symbolication.Command

open Report Sheet

open Block (newline)

variable {host : Host} {o : Options} {input : List UInt8} {command : Text} {directory : Path}
  {override : Option Text} {workers : Int} {present : Bool} {report result : Text}
  {table : Replacements}

theorem calls_summarize (directory : Path) (override : Option Text) (report : Text) :
    (summarize directory override report).calls = [] := by
  simp only [summarize, Traced.calls_bind, Traced.calls_log, List.nil_append]
  split
  · rfl
  · simp [Artifact.calls_chooseSuffix]

theorem calls_run_of_summary {arguments : List Text} (h : Options.ofArguments arguments = .ok o)
    (wanted : o.summary) : (run host arguments input).calls = [] := by
  have hcourse : Course host o input (run host arguments input).ending _ _ := course_run h
  rw [Session.calls]
  generalize (run host arguments input).ending = ending at hcourse
  generalize (run host arguments input).output = output at hcourse
  generalize (run host arguments input).events = events at hcourse ⊢
  cases hcourse with
  | incomparable unset => rfl
  | tooFew asked few => rfl
  | unsearchable asked enough lookup => rfl
  | summarized asked enough lookup wanted =>
      rw [List.filterMap_append, calls_notice]
      exact calls_summarize _ _ _
  | resolved asked enough lookup unwanted found => exact absurd wanted unwanted
  | failed asked enough lookup unwanted missed => exact absurd wanted unwanted
  | refused asked enough lookup unwanted halted => exact absurd wanted unwanted

theorem run_of_summary {arguments : List Text} (h : Options.ofArguments arguments = .ok o)
    (wanted : o.summary) (asked : o.workers = some workers) (enough : 1 ≤ workers)
    (lookup : host.isDirectory (o.path host) = .ok present) :
    (run host arguments input).ending = .exit 0 ∧ (run host arguments input).output =
      Utf8.encode ((sheet (o.path host) (Artifact.suffix o.suffix (Utf8.decode input))
        (Utf8.decode input)).flatMap writeRow) := by
  rw [run_eq h, perform_of_lookup asked enough lookup, if_pos wanted, ← value_summarize_eq_sheet]
  exact ⟨rfl, rfl⟩

def entriesOf (report module : Text) (table : Replacements) : Replacements :=
  table.filter fun e =>
    e.1 ∈ (offsetsOf module (markers report)).map fun offset => Marker.spelling ⟨offset, module⟩

inductive RowOfCall (report : Text) (table : Replacements) : List Text → List Text → Prop where
  | mk {module artifact : Text} {argv : List Text} (flag : argv[5]? = some (spell "-e"))
      (operand : argv[6]? = some artifact)
      (entries : (entriesOf report module table).length = (argv.drop 7).toFinset.card) :
      RowOfCall report table
        [module, Text.decimal (argv.drop 7).length, Text.decimal (argv.drop 7).toFinset.card,
          artifact] argv

theorem length_entriesOf (h : (resolveAll host command workers (jobs directory
      (Artifact.suffix override report) (Groups.ofText report))).run.value = .ok table)
    {m : Text} (hm : m ∈ modules report) :
    (entriesOf report m table).length = (offsetsOf m (markers report)).toFinset.card := by
  have hjob : jobOf directory override report m ∈
      jobs directory (Artifact.suffix override report) (Groups.ofText report) := by
    rw [jobs_ofText]
    exact List.mem_map_of_mem hm
  exact length_filter_of_value_resolveAll h hjob

theorem length_eq_sum_distinct (h : (resolveAll host command workers (jobs directory
      (Artifact.suffix override report) (Groups.ofText report))).run.value = .ok table) :
    table.length = ((callsFor command directory override report).map
      fun argv => (argv.drop 7).toFinset.card).sum := by
  rw [jobs_ofText] at h
  have hmodules : (((modules report).map (jobOf directory override report)).map Job.module).Nodup := by
    have hid : Job.module ∘ jobOf directory override report = id := rfl
    rw [List.map_map, hid, List.map_id]
    exact nodup_eraseDups _
  rw [length_of_value_resolveAll hmodules ?_ h, List.map_map, callsFor, List.map_map]
  · rfl
  · intro job hjob offset hoffset
    obtain ⟨m, -, rfl⟩ := List.mem_map.mp hjob
    obtain ⟨n, hn, rfl⟩ := List.mem_map.mp hoffset
    exact (valid_of_mem_markers (List.mem_of_mem_filter hn)).bracket_notMem_offset

theorem sum_length_callsFor (command : Text) (directory : Path) (override : Option Text)
    (report : Text) : ((callsFor command directory override report).map
      fun argv => (argv.drop 7).length).sum = (spans report).length := by
  have hmarkers : (spans report).length = (markers report).length := by
    rw [← map_marker_spans, List.length_map]
  rw [hmarkers, ← Groups.sum_occurrences, ← Groups.ofText, tallies_ofText, List.map_map, callsFor,
    List.map_map]
  rfl

theorem rowOfCall (h : (resolveAll host command workers (jobs directory
      (Artifact.suffix override report) (Groups.ofText report))).run.value = .ok table) :
    List.Forall₂ (RowOfCall report table)
      (sheet directory (Artifact.suffix override report) report)
      (callsFor command directory override report) := by
  rw [sheet, callsFor, List.forall₂_map_left_iff, List.forall₂_map_right_iff, List.forall₂_same]
  intro m hm
  have hentries : (entriesOf report m table).length =
      ((callFor command directory override report m).drop 7).toFinset.card := length_entriesOf h hm
  rw [← length_offsetsOf]
  exact .mk rfl rfl hentries

structure Foretold (host : Host) (command : Text) (directory : Path) (override : Option Text)
    (workers : Int) (report result : Text) (table : Replacements) : Prop where
  value_resolveAll : (resolveAll host command workers (jobs directory
    (Artifact.suffix override report) (Groups.ofText report))).run.value = .ok table
  result_eq : result = substitute table report
  keys_nodup : (Table.keys table).Nodup
  printed : (summarize directory override report).value =
    (sheet directory (Artifact.suffix override report) report).flatMap writeRow
  rows_calls : List.Forall₂ (RowOfCall report table)
    (sheet directory (Artifact.suffix override report) report)
    (symbolicate host command directory override workers report).run.calls
  sum_occurrences : ((symbolicate host command directory override workers report).run.calls.map
    fun argv => (argv.drop 7).length).sum = (spans report).length
  sum_distinct : ((symbolicate host command directory override workers report).run.calls.map
    fun argv => (argv.drop 7).toFinset.card).sum = table.length
  idle : (summarize directory override report).calls = []
  idle_run : ∀ (host' : Host) arguments o input, Options.ofArguments arguments = .ok o →
    o.summary → (run host' arguments input).calls = []
  of_run : ∀ (host' : Host) arguments o input workers' present,
    Options.ofArguments arguments = .ok o → o.summary → o.workers = some workers' → 1 ≤ workers' →
    host'.isDirectory (o.path host') = .ok present → o.path host' = directory →
    o.suffix = override → Utf8.decode input = report →
    (run host' arguments input).ending = .exit 0 ∧ (run host' arguments input).output =
      Utf8.encode ((sheet directory (Artifact.suffix override report) report).flatMap writeRow)

theorem summary_foretells (hseq : workers ≤ 1 ∨ (modules report).length ≤ 1)
    (h : (symbolicate host command directory override workers report).run.value = .ok result) :
    ∃ table, Foretold host command directory override workers report result table := by
  obtain ⟨table, htable, hresult⟩ := value_symbolicate_eq_ok h
  have hcalls := calls_symbolicate_of_ok hseq h
  refine ⟨table, ?_⟩
  constructor
  case value_resolveAll => exact htable
  case result_eq => exact hresult.symm
  case keys_nodup => exact nodup_keys_of_value_resolveAll htable
  case printed => exact value_summarize_eq_sheet _ _ _
  case rows_calls => exact hcalls ▸ rowOfCall htable
  case sum_occurrences => exact hcalls ▸ sum_length_callsFor _ _ _ _
  case sum_distinct => exact hcalls ▸ (length_eq_sum_distinct htable).symm
  case idle => exact calls_summarize _ _ _
  case idle_run => exact fun host' arguments o input hread wanted => calls_run_of_summary hread wanted
  case of_run =>
    rintro host' arguments o input workers' present hread wanted asked enough lookup rfl rfl rfl
    exact run_of_summary hread wanted asked enough lookup

theorem summary_foretells_terseHost :
    ∃ table, Foretold terseHost (spell "sym") ⟨.relative, [spell "d"]⟩ none 1
      (spell "[+0x1](m)[+0x2](n)[+0x1](m)") (spell "m+p\npn+rm+p\np") table ∧
      (summarize ⟨.relative, [spell "d"]⟩ none (spell "[+0x1](m)[+0x2](n)[+0x1](m)")).value =
        spell "m\t2\t1\td/m.debug\nn\t1\t1\td/n.debug\n" ∧ table.length = 2 := by
  have hseq : (1 : Int) ≤ 1 ∨ (modules (spell "[+0x1](m)[+0x2](n)[+0x1](m)")).length ≤ 1 :=
    .inl (le_refl 1)
  have h : (symbolicate terseHost (spell "sym") ⟨.relative, [spell "d"]⟩ none 1
      (spell "[+0x1](m)[+0x2](n)[+0x1](m)")).run.value = .ok (spell "m+p\npn+rm+p\np") := by
    decide +kernel
  obtain ⟨table, htable⟩ := summary_foretells hseq h
  exact ⟨table, htable, htable.printed.trans (by decide +kernel),
    htable.sum_distinct.symm.trans (by decide +kernel)⟩

structure Tabulates (host : Host) (o : Options) (report : Text) (s : Session) : Prop where
  ending : s.ending = .exit 0
  output : s.output = ((sheet (o.path host) (Artifact.suffix o.suffix report) report).map
    (·.map Utf8.encode)).flatMap writeRow
  read_iff : Sheet.read? s.output =
      some ((sheet (o.path host) (Artifact.suffix o.suffix report) report).map
        (·.map Utf8.encode)) ↔
    ∀ m ∈ modules report, tab ∉ m ∧ newline ∉ m

theorem run_tabulates {arguments : List Text} (host : Host) (input : List UInt8)
    (h : Options.ofArguments arguments = .ok o) (wanted : o.summary)
    (asked : o.workers = some workers) (enough : 1 ≤ workers)
    (lookup : host.isDirectory (o.path host) = .ok present)
    (hdirectory : Bare (o.directory.getD host.installation.directory))
    (hsuffix : ∀ s, o.suffix = some s → Bare s) :
    Tabulates host o (Utf8.decode input) (run host arguments input) := by
  obtain ⟨hending, houtput⟩ := run_of_summary h wanted asked enough lookup
  constructor
  case ending => exact hending
  case output => rw [houtput, Utf8.encode_flatMap_writeRow]
  case read_iff =>
    rw [houtput]
    exact read?_encode_sheet_iff (fun c => Path.bare_of_mem_ofText hdirectory)
      (Artifact.bare_suffix hsuffix _)

theorem run_tabulates_twoModules :
    Tabulates terseHost { directory := some (spell "d"), summary := true }
        (Utf8.decode (spell "[+0x1](a)[+0x2](b)[+0x1](a)[+0x3](a)"))
        (run terseHost [spell "d", spell "--summary"] (spell "[+0x1](a)[+0x2](b)[+0x1](a)[+0x3](a)")) ∧
      Sheet.read? (run terseHost [spell "d", spell "--summary"]
          (spell "[+0x1](a)[+0x2](b)[+0x1](a)[+0x3](a)")).output =
        some [[spell "a", spell "3", spell "2", spell "d/a.debug"],
          [spell "b", spell "1", spell "1", spell "d/b.debug"]] := by
  have h : Options.ofArguments [spell "d", spell "--summary"] =
      .ok { directory := some (spell "d"), summary := true } := by decide +kernel
  have hdirectory : Bare (spell "d" : Text) := (printable_spell (by decide)).bare
  have htabulates := run_tabulates terseHost (spell "[+0x1](a)[+0x2](b)[+0x1](a)[+0x3](a)") h rfl rfl
    (le_refl 1) rfl hdirectory (by simp)
  refine ⟨htabulates, ?_⟩
  rw [htabulates.output]
  decide +kernel

theorem run_newline_in_name :
    modules (Utf8.decode (spell "[+0x1](a\nb)")) = [spell "a\nb"] ∧
      Sheet.read? (run terseHost [spell "d", spell "--summary"] (spell "[+0x1](a\nb)")).output =
        some [[spell "a"], [spell "b", spell "1", spell "1", spell "d/a"], [spell "b.debug"]] ∧
      Sheet.read? (run terseHost [spell "d", spell "--summary"] (spell "[+0x1](a\nb)")).output ≠
        some ((sheet ⟨.relative, [spell "d"]⟩ (spell ".debug")
          (Utf8.decode (spell "[+0x1](a\nb)"))).map (·.map Utf8.encode)) := by
  have h : Options.ofArguments [spell "d", spell "--summary"] =
      .ok { directory := some (spell "d"), summary := true } := by decide +kernel
  have hread : Sheet.read? (run terseHost [spell "d", spell "--summary"]
      (spell "[+0x1](a\nb)")).output =
        some [[spell "a"], [spell "b", spell "1", spell "1", spell "d/a"], [spell "b.debug"]] := by
    rw [run, h]
    decide +kernel
  refine ⟨by decide +kernel, hread, ?_⟩
  rw [hread]
  decide +kernel

end Symbolication.Command
