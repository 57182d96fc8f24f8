import Symbolication.Proofs.Gaps
import Symbolication.Proofs.Pool
import Symbolication.Report

namespace Symbolication

variable {host : Host} {command : Text} {directory : Path}

namespace Artifact

theorem value_chooseSuffix (override : Option Text) (report : Text) :
    (chooseSuffix override report).value = suffix override report := by
  cases override <;> rfl

theorem calls_chooseSuffix (override : Option Text) (report : Text) :
    (chooseSuffix override report).calls = [] := by
  cases override <;> rfl

end Artifact

namespace Report

theorem substitute_nil (report : Text) : substitute [] report = report := by
  simpa [substitute, Table.get?] using splice_spelling_self report

theorem value_symbolicate (override : Option Text) (workers : Int) (report : Text) :
    (symbolicate host command directory override workers report).run.value =
      (resolveAll host command workers
        (jobs directory (Artifact.suffix override report) (Groups.ofText report))).run.value.map
        (substitute · report) := by
  simp only [symbolicate, Attempt.run_lift_bind, Traced.value_bind]
  split
  · next h =>
      rw [h, value_resolveAll]
      exact congrArg Except.ok (substitute_nil report).symm
  · simp only [Attempt.run_lift_bind, Traced.value_bind, Artifact.value_chooseSuffix, bind_pure_comp,
      Attempt.value_map]

theorem calls_symbolicate (override : Option Text) (workers : Int) (report : Text) :
    (symbolicate host command directory override workers report).run.calls =
      (resolveAll host command workers
        (jobs directory (Artifact.suffix override report) (Groups.ofText report))).run.calls := by
  simp only [symbolicate, Attempt.run_lift_bind, Traced.calls_bind, Traced.calls_log, List.nil_append]
  split
  · next h =>
      have hnone : (resolveAll host command workers []).run.calls = [] :=
        calls_resolveAll_of_ok (.inr (Nat.zero_le _)) (by simp)
      rw [h]
      exact hnone.symm
  · simp only [Attempt.run_lift_bind, Traced.calls_bind, Artifact.calls_chooseSuffix,
      Artifact.value_chooseSuffix, List.nil_append, bind_pure_comp, Attempt.calls_map]

def IsBlockFor (host : Host) (command : Text) (directory : Path) (suffix : Text) (groups : Groups)
    (m : Marker Glyph) (block : Text) : Prop :=
  ∃ offsets stdout stderr, Table.get? groups m.module = some offsets ∧
    host.spawn (command :: Job.arguments (Artifact.path directory m.module suffix) offsets) =
      .exited 0 stdout stderr ∧
    (Block.split (Utf8.decodeLossy stdout)).length = offsets.length ∧
    (Block.split (Utf8.decodeLossy stdout))[offsets.idxOf m.offset]? = some block

variable {suffix : Text} {report : Text}

theorem eq_of_spelling {m : Marker Glyph} (hm : m ∈ markers report) {g : Text × List Text}
    (hg : g ∈ Groups.ofText report) {offset : Text} (ho : offset ∈ g.2)
    (h : Marker.spelling ⟨offset, g.1⟩ = m.spelling) :
    g = (m.module, offsetsOf m.module (markers report)) := by
  obtain ⟨-, hoffsets⟩ := Groups.eq_offsetsOf_of_mem hg
  rw [hoffsets] at ho
  have hmem : (⟨offset, g.1⟩ : Marker Glyph) ∈ markers report := Groups.mem_offsetsOf.mp ho
  obtain rfl := (valid_of_mem_markers hmem).spelling_inj (valid_of_mem_markers hm) h
  exact Prod.ext rfl hoffsets

theorem get?_of_resolve {m : Marker Glyph} (hm : m ∈ markers report) {t : Replacements}
    (h : ((Job.ofGroup directory suffix (m.module, offsetsOf m.module (markers report))).resolve
      host command).run.value = .ok t) :
    ∃ block, IsBlockFor host command directory suffix (Groups.ofText report) m block ∧
      Table.get? t m.spelling = some (Job.replacement m.module block) := by
  obtain ⟨bs, hbs, rfl⟩ := Job.replacements_of_value_resolve h
  obtain ⟨stdout, stderr, hspawn, rfl, hlen⟩ := Job.value_blocks_eq_ok_iff.mp hbs
  obtain ⟨block, hblock⟩ : ∃ block, (Block.split (Utf8.decodeLossy stdout))[
      (offsetsOf m.module (markers report)).idxOf m.offset]? = some block := by
    have hidx := List.idxOf_lt_length_iff.mpr (Groups.mem_offsetsOf.mpr hm)
    exact ⟨_, List.getElem?_eq_getElem (hidx.trans_le hlen.ge)⟩
  refine ⟨block, ⟨_, stdout, stderr, Groups.get?_ofText hm, hspawn, hlen, hblock⟩, ?_⟩
  exact (Job.get?_replacements _ hlen m.offset).trans (congrArg (Option.map _) hblock)

theorem get?_resolveAll {workers : Int} {table : Replacements}
    (h : (resolveAll host command workers
      (jobs directory suffix (Groups.ofText report))).run.value = .ok table)
    {m : Marker Glyph} (hm : m ∈ markers report) :
    ∃ block, IsBlockFor host command directory suffix (Groups.ofText report) m block ∧
      Table.get? table m.spelling = some (Job.replacement m.module block) := by
  obtain ⟨tables, rfl, hresolved⟩ := value_resolveAll_eq_ok_iff.mp h
  obtain ⟨hjobs, htables⟩ := ok_of_map_eq hresolved
  have hgroup := Table.mem_of_get? (Groups.get?_ofText hm)
  obtain ⟨t, ht, hvalue⟩ := hjobs _ (List.mem_map_of_mem hgroup)
  obtain ⟨block, hblock, hfound⟩ := get?_of_resolve hm hvalue
  refine ⟨block, hblock, Table.get?_foldl_merge ?_ ?_ ⟨t, ht, hfound⟩⟩
  · exact nodup_keys_of_resolved hresolved
  · intro u hu w hw
    obtain ⟨job, hmem, hjob⟩ := htables u hu
    obtain ⟨g, hg, rfl⟩ := List.mem_map.mp hmem
    obtain ⟨bs, -, rfl⟩ := Job.replacements_of_value_resolve hjob
    -- Only the job for the marker's own module can have put its spelling into a table.
    obtain ⟨offset, ho, hspelling⟩ := Job.offset_of_get?_replacements hw
    obtain rfl := eq_of_spelling hm hg ho hspelling
    rw [hvalue] at hjob
    rw [← Except.ok.inj hjob, hfound] at hw
    exact (Option.some.inj hw).symm

theorem value_symbolicate_eq_ok {override : Option Text} {workers : Int} {result : Text}
    (h : (symbolicate host command directory override workers report).run.value = .ok result) :
    ∃ table, (resolveAll host command workers
        (jobs directory (Artifact.suffix override report) (Groups.ofText report))).run.value =
          .ok table ∧ substitute table report = result := by
  rw [value_symbolicate] at h
  exact map_eq_ok_iff.mp h

theorem exists_blocks_of_value_symbolicate {override : Option Text} {workers : Int} {result : Text}
    (h : (symbolicate host command directory override workers report).run.value = .ok result) :
    ∃ (block : Marker Glyph → Text) (table : Replacements),
      (resolveAll host command workers (jobs directory
        (Artifact.suffix override report) (Groups.ofText report))).run.value = .ok table ∧
      (∀ m ∈ markers report, IsBlockFor host command directory (Artifact.suffix override report)
          (Groups.ofText report) m (block m) ∧
        Table.get? table m.spelling = some (Job.replacement m.module (block m))) ∧
      result = splice (fun m => Job.replacement m.module (block m)) report := by
  obtain ⟨table, htable, hsub⟩ := value_symbolicate_eq_ok h
  have hfound (m : Marker Glyph) : ∃ block, m ∈ markers report →
      IsBlockFor host command directory (Artifact.suffix override report) (Groups.ofText report) m
        block ∧ Table.get? table m.spelling = some (Job.replacement m.module block) := by
    by_cases hm : m ∈ markers report
    · obtain ⟨block, hblock⟩ := get?_resolveAll htable hm
      exact ⟨block, fun _ => hblock⟩
    · exact ⟨[], fun h => absurd h hm⟩
  choose block hblock using hfound
  refine ⟨block, table, htable, hblock, ?_⟩
  rw [← hsub, substitute]
  apply splice_congr
  intro m hm
  rw [(hblock m hm).2]
  rfl

theorem mem_markers_of_mem_spans {p : Span Glyph} (h : p ∈ spans report) :
    p.marker ∈ markers report := by
  rw [← map_marker_spans]
  exact List.mem_map_of_mem h

structure Symbolicated (host : Host) (command : Text) (directory : Path) (override : Option Text)
    (workers : Int) (report result : Text) (block : Marker Glyph → Text) (table : Replacements) :
    Prop where
  length_gaps : (gaps report (spans report)).length = (spans report).length + 1
  report_eq : report = weave (gaps report (spans report))
    ((spans report).map fun p => p.marker.spelling)
  result_eq : result = weave (gaps report (spans report))
    ((spans report).map fun p => Job.replacement p.marker.module (block p.marker))
  isBlockFor : ∀ p ∈ spans report, IsBlockFor host command directory
    (Artifact.suffix override report) (Groups.ofText report) p.marker (block p.marker)
  value_resolveAll : (resolveAll host command workers (jobs directory
    (Artifact.suffix override report) (Groups.ofText report))).run.value = .ok table
  get?_table : ∀ p ∈ spans report, Table.get? table p.marker.spelling =
    some (Job.replacement p.marker.module (block p.marker))
  calls_perm : (symbolicate host command directory override workers report).run.calls.Perm
    ((Groups.ofText report).map fun g => command ::
      Job.arguments (Artifact.path directory g.1 (Artifact.suffix override report)) g.2)
  of_unmarked : spans report = [] → result = report ∧
    (symbolicate host command directory override workers report).run.calls = []

theorem symbolicate_weaves (host : Host) (command : Text) (directory : Path)
    (override : Option Text) (workers : Int) (report result : Text)
    (h : (symbolicate host command directory override workers report).run.value = .ok result) :
    ∃ block table,
      Symbolicated host command directory override workers report result block table := by
  obtain ⟨block, table, htable, hblock, hresult⟩ := exists_blocks_of_value_symbolicate h
  have hperm := calls_resolveAll_perm_of_ok htable
  rw [← calls_symbolicate] at hperm
  refine ⟨block, table, ?_⟩
  constructor
  case length_gaps => exact length_gaps _ _
  case report_eq => rw [← splice_eq_weave, splice_spelling_self]
  case result_eq => rw [hresult, splice_eq_weave]
  case isBlockFor => exact fun p hp => (hblock _ (mem_markers_of_mem_spans hp)).1
  case value_resolveAll => exact htable
  case get?_table => exact fun p hp => (hblock _ (mem_markers_of_mem_spans hp)).2
  case calls_perm =>
    rw [jobs, List.map_map] at hperm
    exact hperm
  case of_unmarked =>
    intro hnone
    have hmarkers : markers report = [] := by rw [← map_marker_spans, hnone, List.map_nil]
    have hgroups : Groups.ofText report = [] := by rw [Groups.ofText, hmarkers]; rfl
    constructor
    · rw [hresult, splice_eq_weave, hnone]
      exact List.append_nil _
    · rw [hgroups] at hperm
      exact hperm.eq_nil

def terseHost : Host := .answering fun argv =>
  .exited 0 (spell (if argv.length = 8 then "r\n\n" else "p\np\n\nq\n\n")) []

theorem symbolicate_weaves_terseHost :
    ∃ block table, Symbolicated terseHost (spell "sym") ⟨.relative, []⟩ none 4
      (spell "x[+0x[+0x1](m)y[+0x2](n[)[+0x1](m)") (spell "x[+0xm+p\npyn[+rm+p\np") block table :=
  symbolicate_weaves _ _ _ _ _ _ _ (by decide)

end Report

end Symbolication
