import Symbolication.Proofs.Blocks
import Symbolication.Proofs.Report
import Symbolication.Proofs.Utf8

namespace Symbolication

structure AnswersWith (host : Host) (command : Text) (f : Path → Text → Text) : Prop where
  ne_nil : ∀ artifact offset, f artifact offset ≠ []
  no_return : ∀ artifact offset, Block.carriageReturn ∉ f artifact offset
  no_blankLine : ∀ artifact offset, ¬[Block.newline, Block.newline] <:+: f artifact offset
  no_newline_end : ∀ artifact offset, (f artifact offset).getLast? ≠ some Block.newline
  answers : ∀ artifact offsets, offsets ≠ [] → ∃ stdout stderr,
    host.spawn (command :: Job.arguments artifact offsets) = .exited 0 stdout stderr ∧
      Utf8.decodeLossy stdout =
        offsets.flatMap fun offset => f artifact offset ++ [Block.newline, Block.newline]

variable {host : Host} {command : Text} {directory : Path} {f : Path → Text → Text}

theorem AnswersWith.split (h : AnswersWith host command f) (artifact : Path) (offsets : List Text) :
    Block.split (offsets.flatMap fun offset => f artifact offset ++ [Block.newline, Block.newline]) =
      offsets.map (f artifact) := by
  apply Block.split_answers
  · exact h.ne_nil artifact
  · exact fun offset => ⟨h.no_blankLine artifact offset, h.no_newline_end artifact offset⟩
  · exact h.no_return artifact

theorem AnswersWith.value_blocks (h : AnswersWith host command f) (job : Job)
    (hjob : job.offsets ≠ []) :
    (job.blocks host command).run.value = .ok (job.offsets.map (f job.artifact)) := by
  obtain ⟨stdout, stderr, hspawn, hout⟩ := h.answers job.artifact job.offsets hjob
  rw [Job.value_blocks_eq_ok_iff]
  exact ⟨stdout, stderr, hspawn, by rw [hout, h.split], List.length_map _⟩

namespace Report

def resolveAlone (host : Host) (command : Text) (directory : Path) (suffix : Text)
    (m : Marker Glyph) : Attempt Text := do
  let blocks ← Job.blocks host command
    ⟨m.module, [m.offset], Artifact.path directory m.module suffix⟩
  return Job.replacement m.module blocks.flatten

def symbolicateSingly (host : Host) (command : Text) (directory : Path) (override : Option Text)
    (report : Text) : Attempt Text := do
  let texts ← (spans report).mapM fun p =>
    resolveAlone host command directory (Artifact.suffix override report) p.marker
  return weave (gaps report (spans report)) texts

theorem value_resolveAlone (h : AnswersWith host command f) (suffix : Text) (m : Marker Glyph) :
    (resolveAlone host command directory suffix m).run.value =
      .ok (Job.replacement m.module (f (Artifact.path directory m.module suffix) m.offset)) := by
  simp only [resolveAlone, Attempt.value_bind]
  rw [h.value_blocks _ (List.cons_ne_nil _ _)]
  simp [Except.bind]

def answered (f : Path → Text → Text) (directory : Path) (override : Option Text)
    (report : Text) : Text :=
  weave (gaps report (spans report)) ((spans report).map fun p =>
    Job.replacement p.marker.module (f (Artifact.path directory p.marker.module
      (Artifact.suffix override report)) p.marker.offset))

theorem value_symbolicateSingly (h : AnswersWith host command f) (directory : Path)
    (override : Option Text) (report : Text) :
    (symbolicateSingly host command directory override report).run.value =
      .ok (answered f directory override report) := by
  rw [symbolicateSingly, Attempt.value_bind,
    Attempt.value_mapM_of_ok fun p _ => value_resolveAlone h _ p.marker]
  rfl

theorem resolveAll_ne_error (h : AnswersWith host command f) (suffix report : Text)
    (workers : Int) (e : Halt) :
    (resolveAll host command workers
      (jobs directory suffix (Groups.ofText report))).run.value ≠ .error e := by
  intro he
  obtain ⟨earlier, job, ⟨later, hplace⟩, -, hfail⟩ := value_resolveAll_eq_error_iff.mp he
  have hmem : job ∈ jobs directory suffix (Groups.ofText report) := by
    rw [hplace]
    exact List.mem_append_right _ (List.mem_cons_self ..)
  obtain ⟨g, hg, rfl⟩ := List.mem_map.mp hmem
  have hblocks := h.value_blocks (Job.ofGroup directory suffix g) (Groups.offsets_ne_nil hg)
  rw [Job.value_resolve, hblocks] at hfail
  cases hfail

theorem IsBlockFor.eq (h : AnswersWith host command f) {report suffix : Text} {m : Marker Glyph}
    (hm : m ∈ markers report) {block : Text}
    (hblock : IsBlockFor host command directory suffix (Groups.ofText report) m block) :
    block = f (Artifact.path directory m.module suffix) m.offset := by
  obtain ⟨offsets, stdout, stderr, hget, hspawn, -, hfound⟩ := hblock
  obtain rfl : offsetsOf m.module (markers report) = offsets :=
    Option.some.inj ((Groups.get?_ofText hm).symm.trans hget)
  have hoffset := Groups.mem_offsetsOf.mpr hm
  obtain ⟨stdout', stderr', hspawn', hout⟩ := h.answers (Artifact.path directory m.module suffix)
    (offsetsOf m.module (markers report)) (List.ne_nil_of_mem hoffset)
  obtain ⟨-, rfl, rfl⟩ := Outcome.exited.inj (hspawn.symm.trans hspawn')
  rw [hout, h.split, List.getElem?_map] at hfound
  have hidx := List.idxOf_lt_length_iff.mpr hoffset
  rw [List.getElem?_eq_getElem hidx, List.getElem_idxOf hidx] at hfound
  exact (Option.some.inj hfound).symm

theorem value_symbolicate_of_answers (h : AnswersWith host command f) (directory : Path)
    (override : Option Text) (workers : Int) (report : Text) :
    (symbolicate host command directory override workers report).run.value =
      .ok (answered f directory override report) := by
  rw [value_symbolicate]
  cases hr : (resolveAll host command workers
      (jobs directory (Artifact.suffix override report) (Groups.ofText report))).run.value with
  | error e => exact absurd hr (resolveAll_ne_error h _ _ _ e)
  | ok table =>
      have hfound : ∀ m ∈ markers report, (Table.get? table m.spelling).getD m.spelling =
          Job.replacement m.module
            (f (Artifact.path directory m.module (Artifact.suffix override report)) m.offset) := by
        intro m hm
        obtain ⟨block, hblock, hget⟩ := get?_resolveAll hr hm
        rw [hget, hblock.eq h hm]
        rfl
      rw [answered, Except.map, substitute, splice_congr hfound, splice_eq_weave]

theorem symbolicate_eq_singly (h : AnswersWith host command f) (directory : Path)
    (override : Option Text) (workers : Int) (report : Text) :
    (symbolicate host command directory override workers report).run.value =
        (symbolicateSingly host command directory override report).run.value ∧
      (symbolicate host command directory override workers report).run.value =
        .ok (answered f directory override report) := by
  have hbatch := value_symbolicate_of_answers h directory override workers report
  have hsingly := value_symbolicateSingly h directory override report
  exact ⟨hbatch.trans hsingly.symm, hbatch⟩

def frames (offset : Text) : List Char :=
  if offset = spell "0x1" then "main\n(inlined)".toList else "\nstart".toList

def frameHost : Host := .answering fun argv =>
  .exited 0 (Utf8.encode
    (((argv.drop 7).flatMap fun offset => frames offset ++ ['\n', '\n']).map .char)) []

theorem answersWith_frameHost :
    AnswersWith frameHost (spell "sym") fun _ offset => (frames offset).map .char := by
  constructor
  case ne_nil =>
    intro _ offset
    unfold frames
    split <;> decide
  case no_return =>
    intro _ offset
    unfold frames
    split <;> decide
  case no_blankLine =>
    intro _ offset
    unfold frames
    split <;> simp [List.infix_cons_iff, List.prefix_cons_iff, Block.newline, Alphabet.letter]
  case no_newline_end =>
    intro _ offset
    unfold frames
    split <;> decide
  case answers =>
    intro artifact offsets _
    refine ⟨_, _, rfl, ?_⟩
    rw [Utf8.decodeLossy_encode, List.map_flatMap]
    simp only [List.map_append]
    rfl

theorem symbolicate_eq_singly_frameHost :
    AnswersWith frameHost (spell "sym") (fun _ offset => (frames offset).map .char) ∧
    (symbolicate frameHost (spell "sym") ⟨.relative, []⟩ none 4
        (spell "[+0x1](m)[+0x2](n[)[+0x3](m)")).run.value =
      .ok (spell "m+main\n(inlined)n[+\nstartm+\nstart") :=
  ⟨answersWith_frameHost,
    (symbolicate_eq_singly answersWith_frameHost _ _ _ _).2.trans (by decide)⟩

end Report

end Symbolication
