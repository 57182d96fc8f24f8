import Symbolication.Proofs.Diagnosis

namespace Symbolication

theorem append_cons_ne {α : Type} {a b : α} {x y u v : List α} (hne : a ≠ b) (ha : a ∉ y)
    (hb : b ∉ x) : x ++ a :: u ≠ y ++ b :: v := by
  intro h
  rcases List.append_eq_append_iff.mp h with ⟨w, rfl, hw⟩ | ⟨w, rfl, hw⟩
  · cases w with
    | nil => exact hne (List.cons.inj hw).1
    | cons c w =>
        obtain ⟨rfl, -⟩ := List.cons.inj hw
        exact ha (by simp)
  · cases w with
    | nil => exact hne (List.cons.inj hw).1.symm
    | cons c w =>
        obtain ⟨rfl, -⟩ := List.cons.inj hw
        exact hb (by simp)

variable {σ : Type} [Alphabet σ]

theorem plus_ne_open : (Alphabet.letter '+' : σ) ≠ Alphabet.letter '(' :=
  letter_ne (by decide) (by decide) (by decide)

namespace Marker

def resolved (m : Marker σ) (block : List σ) : List σ := m.module ++ Alphabet.letter '+' :: block

def heading (m : Marker σ) : List σ := m.offset ++ [Alphabet.letter ']']

theorem spelling_heading (m : Marker σ) (r : List σ) :
    m.spelling ++ r = Alphabet.letter '[' :: Alphabet.letter '+' ::
      (m.heading ++ Alphabet.letter '(' :: (m.module ++ Alphabet.letter ')' :: r)) := by
  simp [spelling, heading, spell]

variable [DecidableEq σ]

theorem Valid.plus_notMem_heading {m : Marker σ} (h : m.Valid) :
    Alphabet.letter '+' ∉ m.heading := by
  obtain ⟨⟨digits, -, hd, ho⟩, -, -⟩ := h
  have hdigits := letter_notMem_of_hexDigits (c := '+') (by decide) (by decide) hd
  have hzero : (Alphabet.letter '+' : σ) ∉ spell "0x" := letter_notMem_spell (by decide) (by decide)
  have hbracket : (Alphabet.letter '+' : σ) ≠ Alphabet.letter ']' :=
    letter_ne (by decide) (by decide) (by decide)
  simp [heading, ho, hdigits, hzero, hbracket]

end Marker

variable [DecidableEq σ]

theorem markers_append_of_notMem {t : List σ} (h : Alphabet.letter '[' ∉ t) (s : List σ) :
    markers (t ++ s) = markers s := by
  induction t with
  | nil => rfl
  | cons a t ih =>
      obtain ⟨ha, ht⟩ : Alphabet.letter '[' ≠ a ∧ Alphabet.letter '[' ∉ t := by simpa using h
      rw [List.cons_append, markers_cons (Marker.read?_eq_none_of_ne (Ne.symm ha) _), ih ht]

theorem splice_of_unmarked (f : Marker σ → List σ) {s : List σ} (h : markers s = []) :
    splice f s = s := by
  refine (splice_congr (g := Marker.spelling) ?_).trans (splice_spelling_self s)
  intro m hm
  rw [h] at hm
  cases hm

structure Inert (m : Marker σ) (block : List σ) : Prop where
  module_open : Alphabet.letter '(' ∉ m.module
  module_end : m.module.getLast? ≠ some (Alphabet.letter '[')
  block_open : Alphabet.letter '[' ∉ block

theorem markers_append_of_name {name : List σ} (hopen : Alphabet.letter '(' ∉ name)
    (hend : name.getLast? ≠ some (Alphabet.letter '[')) (s : List σ) :
    markers (name ++ Alphabet.letter '+' :: s) = markers s := by
  induction name with
  | nil =>
      have hbracket : (Alphabet.letter '+' : σ) ≠ Alphabet.letter '[' :=
        letter_ne (by decide) (by decide) (by decide)
      rw [List.nil_append, markers_cons (Marker.read?_eq_none_of_ne hbracket s)]
  | cons a name ih =>
      have hopen' : Alphabet.letter '(' ∉ name := fun h => hopen (List.mem_cons_of_mem _ h)
      have hend' : name.getLast? ≠ some (Alphabet.letter '[') := by
        intro h
        exact hend (by simp [List.getLast?_cons, h])
      rw [List.cons_append, markers_cons, ih hopen' hend']
      cases hr : Marker.read? (a :: (name ++ Alphabet.letter '+' :: s)) with
      | none => rfl
      | some p =>
          obtain ⟨hv, hs⟩ := Marker.read?_eq_some_iff.mp hr
          rw [Marker.spelling_heading] at hs
          obtain ⟨rfl, htail⟩ := List.cons.inj hs
          cases name with
          | nil => exact absurd rfl hend
          | cons b name =>
              have hname : Alphabet.letter '(' ∉ name :=
                fun h => hopen' (List.mem_cons_of_mem _ h)
              exact absurd (List.cons.inj htail).2
                (append_cons_ne plus_ne_open hv.plus_notMem_heading hname)

theorem Inert.markers_resolved {m : Marker σ} {block : List σ} (h : Inert m block) (s : List σ) :
    markers (m.resolved block ++ s) = markers s := by
  rw [Marker.resolved, List.append_assoc, List.cons_append,
    markers_append_of_name h.module_open h.module_end, markers_append_of_notMem h.block_open]

section Splice

variable {block : Marker σ → List σ} {s : List σ}

theorem heading_of_splice (hs : ∀ m ∈ markers s, Alphabet.letter '(' ∉ m.module) {q rest : List σ}
    (hplus : Alphabet.letter '+' ∉ q.tail)
    (h : splice (fun m => m.resolved (block m)) s = q ++ Alphabet.letter '(' :: rest) :
    ∃ s', s = q ++ Alphabet.letter '(' :: s' ∧
      splice (fun m => m.resolved (block m)) s' = rest := by
  induction s using scan_induction generalizing q with
  | nil =>
      rw [splice_nil] at h
      exact absurd h.symm (by simp)
  | marker m r hm _ =>
      rw [markers_spelling hm] at hs
      have hopen := hs m (List.mem_cons_self ..)
      rw [splice_spelling _ hm, Marker.resolved] at h
      obtain ⟨a, name, hname⟩ := List.exists_cons_of_ne_nil hm.module_ne_nil
      rw [hname] at h hopen
      cases q with
      | nil => exact absurd (by simp [(List.cons.inj h).1]) hopen
      | cons c q =>
          have htail : name ++ Alphabet.letter '+' ::
              (block m ++ splice (fun m => m.resolved (block m)) r) =
                q ++ Alphabet.letter '(' :: rest := by simpa using (List.cons.inj h).2
          exact absurd htail
            (append_cons_ne plus_ne_open hplus fun h => hopen (List.mem_cons_of_mem _ h))
  | plain a s hr ih =>
      rw [markers_cons hr] at hs
      rw [splice_cons _ hr] at h
      cases q with
      | nil =>
          obtain ⟨rfl, hrest⟩ := List.cons.inj h
          exact ⟨s, rfl, hrest⟩
      | cons c q =>
          obtain ⟨rfl, htail⟩ := List.cons.inj h
          obtain ⟨s', rfl, hs'⟩ := ih hs (fun h => hplus (List.mem_of_mem_tail h)) htail
          exact ⟨s', rfl, hs'⟩

theorem name_of_splice {f : Marker σ → List σ} {name v : List σ} (hne : name ≠ [])
    (hname : Alphabet.letter ')' ∉ name) (h : splice f s = name ++ Alphabet.letter ')' :: v) :
    ∃ name' v', s = name' ++ Alphabet.letter ')' :: v' ∧ name' ≠ [] ∧
      Alphabet.letter ')' ∉ name' := by
  have hmem : Alphabet.letter ')' ∈ s := by
    by_contra hs
    rw [splice_of_unmarked f (markers_eq_nil_of_notMem hs)] at h
    exact hs (by simp [h])
  obtain ⟨name', v', hs, hname'⟩ := List.eq_append_cons_of_mem hmem
  refine ⟨name', v', hs, ?_, hname'⟩
  rintro rfl
  have hbracket : (Alphabet.letter ')' : σ) ≠ Alphabet.letter '[' :=
    letter_ne (by decide) (by decide) (by decide)
  rw [hs, List.nil_append, splice_cons f (Marker.read?_eq_none_of_ne hbracket v')] at h
  obtain ⟨a, t, rfl⟩ := List.exists_cons_of_ne_nil hne
  exact hname (by simp [(List.cons.inj h).1])

theorem markers_splice_eq_nil (hs : ∀ m ∈ markers s, Inert m (block m)) :
    markers (splice (fun m => m.resolved (block m)) s) = [] := by
  induction s using scan_induction with
  | nil => rfl
  | marker m r hm ih =>
      rw [markers_spelling hm] at hs
      obtain ⟨hinert, hr⟩ := List.forall_mem_cons.mp hs
      rw [splice_spelling _ hm, hinert.markers_resolved, ih hr]
  | plain a s hr ih =>
      rw [markers_cons hr] at hs
      rw [splice_cons _ hr, markers_cons, ih hs]
      cases hread : Marker.read? (a :: splice (fun m => m.resolved (block m)) s) with
      | none => rfl
      | some p =>
          -- Its heading stands in the text before and is closed there, so a marker began there too.
          obtain ⟨hv, hp⟩ := Marker.read?_eq_some_iff.mp hread
          rw [Marker.spelling_heading, ← List.cons_append] at hp
          obtain ⟨rfl, htail⟩ := List.cons.inj hp
          obtain ⟨s', rfl, hs'⟩ := heading_of_splice (q := Alphabet.letter '+' :: p.1.heading)
            (fun m hm => (hs m hm).module_open) hv.plus_notMem_heading htail
          obtain ⟨name, v, rfl, hne, hname⟩ := name_of_splice hv.module_ne_nil hv.module_open hs'
          have hread' := Marker.read?_spelling (m := ⟨p.1.offset, name⟩) ⟨hv.offset, hne, hname⟩ v
          rw [Marker.spelling_heading] at hread'
          exact absurd (hread'.symm.trans hr) (by simp)

end Splice

theorem Job.replacement_eq (m : Marker Glyph) (block : Text) :
    Job.replacement m.module block = m.resolved block := by
  simp [Job.replacement, Marker.resolved, spell]

namespace Report

structure Pass where
  host : Host
  command : Text
  directory : Path
  override : Option Text
  workers : Int

def Pass.run (pass : Pass) (report : Text) : Attempt Text :=
  symbolicate pass.host pass.command pass.directory pass.override pass.workers report

def passes (ps : List Pass) (report : Text) : Attempt Text :=
  ps.foldlM (fun report pass => pass.run report) report

variable {host : Host} {command : Text} {directory : Path} {override : Option Text} {workers : Int}
  {report result : Text}

theorem value_symbolicate_of_unmarked (h : markers report = []) :
    (symbolicate host command directory override workers report).run.value = .ok report := by
  have hgroups : Groups.ofText report = [] := by rw [Groups.ofText, h]; rfl
  rw [value_symbolicate, hgroups, value_resolveAll]
  exact congrArg Except.ok (substitute_nil report)

theorem calls_symbolicate_of_unmarked (h : markers report = []) :
    (symbolicate host command directory override workers report).run.calls = [] := by
  have hgroups : Groups.ofText report = [] := by rw [Groups.ofText, h]; rfl
  rw [calls_symbolicate, hgroups]
  exact calls_resolveAll_of_ok (.inr (Nat.zero_le _)) (List.forall_mem_nil _)

theorem passes_of_unmarked (h : markers report = []) (ps : List Pass) :
    (passes ps report).run.value = .ok report ∧ (passes ps report).run.calls = [] := by
  induction ps with
  | nil => exact ⟨rfl, rfl⟩
  | cons pass ps ih =>
      obtain ⟨hvalue, hcalls⟩ := ih
      have hpass : (pass.run report).run.value = .ok report := value_symbolicate_of_unmarked h
      have hstep : passes (pass :: ps) report = pass.run report >>= passes ps := List.foldlM_cons
      rw [hstep, Attempt.value_bind, Attempt.calls_bind_of_ok hpass, hpass, hcalls,
        Pass.run, calls_symbolicate_of_unmarked h]
      exact ⟨hvalue, rfl⟩

theorem IsBlockFor.mem_blocks {m : Marker Glyph} {block : Text}
    (h : IsBlockFor host command directory (Artifact.suffix override report) (Groups.ofText report)
      m block) (hm : m ∈ markers report) :
    ∃ bs, ((jobOf directory override report m.module).blocks host command).run.value = .ok bs ∧
      block ∈ bs := by
  obtain ⟨offsets, stdout, stderr, hget, hspawn, hlength, hblock⟩ := h
  obtain rfl : offsetsOf m.module (markers report) = offsets :=
    Option.some.inj ((Groups.get?_ofText hm).symm.trans hget)
  exact ⟨_, Job.value_blocks_eq_ok_iff.mpr ⟨stdout, stderr, hspawn, rfl, hlength⟩,
    List.mem_of_getElem? hblock⟩

theorem symbolicate_settles
    (h : (symbolicate host command directory override workers report).run.value = .ok result)
    (hmodules : ∀ m ∈ modules report, .char '(' ∉ m ∧ m.getLast? ≠ some (.char '['))
    (hblocks : ∀ m ∈ modules report, ∀ bs,
      ((jobOf directory override report m).blocks host command).run.value = .ok bs →
        ∀ b ∈ bs, .char '[' ∉ b) :
    markers result = [] ∧ spans result = [] ∧ ∀ ps : List Pass,
      (passes ps result).run.value = .ok result ∧ (passes ps result).run.calls = [] := by
  obtain ⟨block, table, -, hblock, rfl⟩ := exists_blocks_of_value_symbolicate h
  have hinert : ∀ m ∈ markers report, Inert m (block m) := by
    intro m hm
    have hmodule : m.module ∈ modules report := List.mem_eraseDups.mpr (List.mem_map_of_mem hm)
    obtain ⟨hopen, hend⟩ := hmodules m.module hmodule
    obtain ⟨bs, hbs, hmem⟩ := (hblock m hm).1.mem_blocks hm
    exact ⟨hopen, hend, hblocks m.module hmodule bs hbs _ hmem⟩
  have hnone : markers (splice (fun m => Job.replacement m.module (block m)) report) = [] := by
    simp only [Job.replacement_eq]
    exact markers_splice_eq_nil hinert
  refine ⟨hnone, ?_, passes_of_unmarked hnone⟩
  exact List.map_eq_nil_iff.mp ((map_marker_spans _).trans hnone)

theorem symbolicate_settles_terseHost :
    markers (spell "x[+0xm+p\npyn[o+rm+p\np" : Text) = [] ∧
    ∀ ps : List Pass,
      (passes ps (spell "x[+0xm+p\npyn[o+rm+p\np")).run.value =
        .ok (spell "x[+0xm+p\npyn[o+rm+p\np") ∧
      (passes ps (spell "x[+0xm+p\npyn[o+rm+p\np")).run.calls = [] := by
  have h : (symbolicate terseHost (spell "sym") ⟨.relative, []⟩ none 4
      (spell "x[+0x[+0x1](m)y[+0x2](n[o)[+0x1](m)")).run.value =
        .ok (spell "x[+0xm+p\npyn[o+rm+p\np") := by decide
  have hblocks : ∀ m ∈ modules (spell "x[+0x[+0x1](m)y[+0x2](n[o)[+0x1](m)"), ∀ bs,
      ((jobOf ⟨.relative, []⟩ none (spell "x[+0x[+0x1](m)y[+0x2](n[o)[+0x1](m)") m).blocks
        terseHost (spell "sym")).run.value = .ok bs → ∀ b ∈ bs, .char '[' ∉ b := by
    intro m _ bs hbs
    obtain ⟨stdout, stderr, hspawn, rfl, -⟩ := Job.value_blocks_eq_ok_iff.mp hbs
    obtain ⟨-, rfl, -⟩ := Outcome.exited.inj hspawn
    split <;> decide
  obtain ⟨hmarkers, -, hpasses⟩ := symbolicate_settles h (by decide) hblocks
  exact ⟨hmarkers, hpasses⟩

end Report

end Symbolication
