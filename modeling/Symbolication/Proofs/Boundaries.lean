import Symbolication.Proofs.Ascii
import Symbolication.Proofs.Canonical
import Symbolication.Proofs.Diagnosis

namespace Symbolication

namespace Utf8

theorem decodeLossy_append_letter {c : Char} (hc : c.toNat < 0x80) (u v : List UInt8) :
    decodeLossy (u ++ Alphabet.letter c :: v) =
      decodeLossy u ++ Alphabet.letter c :: decodeLossy v := by
  rw [decodeLossy_append_ascii (by rwa [toNat_letter hc]), ascii_letter hc]

theorem bytes_segments (bs : List UInt8) : (segments bs).flatMap Segment.bytes = bs :=
  bytes_resume [] bs

theorem decodeLossy_eq_nil_iff {bs : List UInt8} : decodeLossy bs = [] ↔ bs = [] := by
  constructor
  · intro h
    cases hs : segments bs with
    | nil => rw [← bytes_segments bs, hs]; rfl
    | cons s ss => cases s <;> simp [decodeLossy, hs, Segment.replaced] at h
  · rintro rfl
    rfl

theorem letter_mem_of_mem_decodeLossy {c : Char} (hc : c.toNat < 0x80) {bs : List UInt8}
    (h : Alphabet.letter c ∈ decodeLossy bs) : Alphabet.letter c ∈ bs := by
  obtain ⟨s, hs, hmem⟩ := List.mem_flatMap.mp h
  rw [← bytes_segments bs]
  refine List.mem_flatMap.mpr ⟨s, hs, ?_⟩
  cases s with
  | whole d =>
      have hletter : encodeGlyph (.char d) = [Alphabet.letter c] := by
        rw [← List.mem_singleton.mp hmem, encodeGlyph_letter hc]
      change Alphabet.letter c ∈ encodeGlyph (.char d)
      rw [hletter]
      exact List.mem_singleton_self _
  | broken _ =>
      obtain rfl : c = '\uFFFD' := Glyph.char.inj (List.mem_singleton.mp hmem)
      exact absurd hc (by decide)

theorem decodeLossy_eq_append_cons {c : Char} (hc : c.toNat < 0x80) {bs : List UInt8} {x y : Text}
    (h : decodeLossy bs = x ++ Alphabet.letter c :: y) :
    ∃ u v, bs = u ++ Alphabet.letter c :: v ∧ decodeLossy u = x ∧ decodeLossy v = y := by
  induction hn : bs.length using Nat.strongRecOn generalizing bs x with
  | ind n ih =>
      have hmem := letter_mem_of_mem_decodeLossy hc (by rw [h]; simp)
      obtain ⟨u, v, rfl, hu⟩ := List.eq_append_cons_of_mem hmem
      rw [decodeLossy_append_letter hc] at h
      have hnone : Alphabet.letter c ∉ decodeLossy u :=
        fun hm => hu (letter_mem_of_mem_decodeLossy hc hm)
      -- The first such byte is the first such character; any other lies in the bytes behind it.
      by_cases hx : Alphabet.letter c ∈ x
      · obtain ⟨x, x', rfl, hfirst⟩ := List.eq_append_cons_of_mem hx
        rw [List.append_assoc, List.cons_append, append_cons_inj hnone hfirst] at h
        obtain ⟨rfl, hv⟩ := h
        have hlt : v.length < n := by
          rw [← hn, List.length_append, List.length_cons]
          omega
        obtain ⟨u', v', rfl, rfl, hy⟩ := ih v.length hlt hv rfl
        exact ⟨u ++ Alphabet.letter c :: u', v', by simp, decodeLossy_append_letter hc u u', hy⟩
      · obtain ⟨rfl, rfl⟩ := (append_cons_inj hnone hx).mp h
        exact ⟨u, v, rfl, rfl, rfl⟩

end Utf8

namespace Block

section Reading

variable {σ τ : Type} [Alphabet σ] [Alphabet τ]

structure KeepsLines (d : List σ → List τ) : Prop where
  append : ∀ c ∈ ['\n', '\r'], ∀ u v,
    d (u ++ Alphabet.letter c :: v) = d u ++ Alphabet.letter c :: d v
  eq_append : ∀ c ∈ ['\n', '\r'], ∀ s x y, d s = x ++ Alphabet.letter c :: y →
    ∃ u v, s = u ++ Alphabet.letter c :: v ∧ d u = x ∧ d v = y
  eq_nil_iff : ∀ s, d s = [] ↔ s = []

namespace KeepsLines

variable {d : List σ → List τ} (hd : KeepsLines d)

include hd

theorem append_pair {c e : Char} (hc : c ∈ ['\n', '\r']) (he : e ∈ ['\n', '\r']) (u v : List σ) :
    d (u ++ Alphabet.letter c :: Alphabet.letter e :: v) =
      d u ++ Alphabet.letter c :: Alphabet.letter e :: d v := by
  have hpair := hd.append e he [] v
  rw [(hd.eq_nil_iff []).mpr rfl] at hpair
  rw [hd.append c hc]
  exact congrArg _ (congrArg _ hpair)

theorem pair_infix {c e : Char} (hc : c ∈ ['\n', '\r']) (he : e ∈ ['\n', '\r']) {s : List σ}
    (h : [Alphabet.letter c, Alphabet.letter e] <:+: d s) :
    [Alphabet.letter c, Alphabet.letter e] <:+: s := by
  obtain ⟨x, y, hxy⟩ := h
  have hcut : d s = x ++ Alphabet.letter c :: Alphabet.letter e :: y := by simp [← hxy]
  obtain ⟨u, v, rfl, -, hv⟩ := hd.eq_append c hc _ _ _ hcut
  obtain ⟨w, r, rfl, hw, -⟩ := hd.eq_append e he _ [] _ hv
  obtain rfl := (hd.eq_nil_iff w).mp hw
  exact ⟨u, r, by simp⟩

theorem getLast?_eq {s : List σ} (h : (d s).getLast? = some newline) :
    s.getLast? = some newline := by
  obtain ⟨x, hx⟩ := List.getLast?_eq_some_iff.mp h
  obtain ⟨u, v, rfl, -, hv⟩ := hd.eq_append '\n' (by decide) _ _ _ hx
  obtain rfl := (hd.eq_nil_iff v).mp hv
  exact List.getLast?_concat

theorem whole {b : List σ} (h : Whole b) : Whole (d b) where
  no_blankLine hb := h.no_blankLine (hd.pair_infix (by decide) (by decide) hb)
  no_newline_end hb := h.no_newline_end (hd.getLast?_eq hb)

variable [DecidableEq σ] [DecidableEq τ]

theorem foldLineEnds_comm (s : List σ) : foldLineEnds (d s) = d (foldLineEnds s) := by
  have hpair {s : List σ} (h : ¬[carriageReturn, newline] <:+: s) :
      ¬[carriageReturn, newline] <:+: d s :=
    fun hs => h (hd.pair_infix (by decide) (by decide) hs)
  induction s using line_induction with
  | last s h => rw [foldLineEnds_eq_self h, foldLineEnds_eq_self (hpair h)]
  | more u s hu ih =>
      calc
        foldLineEnds (d (u ++ carriageReturn :: newline :: s))
          = foldLineEnds (d u ++ carriageReturn :: newline :: d s) :=
            congrArg _ (hd.append_pair (by decide) (by decide) u s)
        _ = d u ++ newline :: d (foldLineEnds s) := by
            rw [foldLineEnds_append_lineEnd (hpair hu), ih]
        _ = d (u ++ newline :: foldLineEnds s) := (hd.append '\n' (by decide) u _).symm
        _ = d (foldLineEnds (u ++ carriageReturn :: newline :: s)) := by
            rw [foldLineEnds_append_lineEnd hu]

theorem trimEnd_comm (s : List σ) :
    trimEnd (fun a => decide (a = newline)) (d s) =
      d (trimEnd (fun a => decide (a = newline)) s) := by
  induction s using List.reverseRecOn with
  | nil =>
      rw [trimEnd_nil, (hd.eq_nil_iff []).mpr rfl]
      rfl
  | append_singleton s a ih =>
      by_cases ha : a = newline
      · subst ha
        have hlast : d (s ++ [newline]) = d s ++ [newline] := by
          have h := hd.append '\n' (by decide) s []
          rwa [(hd.eq_nil_iff []).mpr rfl] at h
        rw [hlast, trimEnd_concat, trimEnd_concat, if_pos (by simp), if_pos (by simp), ih]
      · have hend : (s ++ [a]).getLast? ≠ some newline := by simpa using ha
        rw [trimEnd_newline_eq_self hend,
          trimEnd_newline_eq_self fun h => hend (hd.getLast?_eq h)]

theorem cut_comm (s : List σ) : cut (d s) = (cut s).map d := by
  induction s using block_induction with
  | last s h =>
      rw [cut_eq_singleton h, List.map_singleton]
      exact cut_eq_singleton fun hs => h (hd.pair_infix (by decide) (by decide) hs)
  | more b s hb ih =>
      have hread : d (b ++ newline :: newline :: s) = d b ++ newline :: newline :: d s :=
        hd.append_pair (by decide) (by decide) b s
      rw [hread, cut_append (hd.whole hb), ih, cut_append hb, List.map_cons]

theorem split_comm (s : List σ) : split (d s) = (split s).map d := by
  have hbody : body (d s) = d (body s) := by
    rw [body, hd.foldLineEnds_comm, hd.trimEnd_comm, body]
  simp only [split, hbody, hd.eq_nil_iff, hd.cut_comm]
  split
  · rfl
  · rfl

end KeepsLines

end Reading

theorem keepsLines_decodeLossy : KeepsLines Utf8.decodeLossy := by
  have hascii : ∀ c ∈ ['\n', '\r'], c.toNat < 0x80 := by
    rw [List.forall_mem_cons, List.forall_mem_singleton]
    exact ⟨by decide, by decide⟩
  constructor
  case append => exact fun c hc => Utf8.decodeLossy_append_letter (hascii c hc)
  case eq_append => exact fun c hc _ _ _ h => Utf8.decodeLossy_eq_append_cons (hascii c hc) h
  case eq_nil_iff => exact fun _ => Utf8.decodeLossy_eq_nil_iff

def outline (bytes : List UInt8) : List UInt8 :=
  bytes.map fun b => if b = newline ∨ b = carriageReturn then b else Alphabet.letter '.'

theorem keepsLines_outline : KeepsLines outline := by
  have hmark {c : Char} (hc : c ∈ ['\n', '\r']) (b : UInt8) :
      (if b = newline ∨ b = carriageReturn then b else Alphabet.letter '.') = Alphabet.letter c ↔
        b = Alphabet.letter c := by
    have hne : (Alphabet.letter '.' : UInt8) ≠ newline ∧
        (Alphabet.letter '.' : UInt8) ≠ carriageReturn := by decide
    have hc : (Alphabet.letter c : UInt8) = newline ∨ (Alphabet.letter c : UInt8) = carriageReturn := by
      rcases List.mem_pair.mp hc with rfl | rfl
      · exact .inl rfl
      · exact .inr rfl
    grind
  constructor
  case append =>
    intro c hc u v
    rw [outline, List.map_append, List.map_cons, (hmark hc _).mpr rfl]
    rfl
  case eq_append =>
    intro c hc s x y h
    obtain ⟨u, w, rfl, hu, hw⟩ := List.map_eq_append_iff.mp h
    obtain ⟨b, v, rfl, hb, hv⟩ := List.map_eq_cons_iff.mp hw
    obtain rfl := (hmark hc b).mp hb
    exact ⟨u, v, rfl, hu, hv⟩
  case eq_nil_iff => exact fun _ => List.map_eq_nil_iff

theorem split_decodeLossy (bytes : List UInt8) :
    split (Utf8.decodeLossy bytes) = (split bytes).map Utf8.decodeLossy :=
  keepsLines_decodeLossy.split_comm bytes

theorem length_split_outline (bytes : List UInt8) :
    (split (outline bytes)).length = (split bytes).length := by
  rw [keepsLines_outline.split_comm, List.length_map]

end Block

structure CutAsBytes (host : Host) (command : Text) (arguments : List Text) (stdout : List UInt8)
    (output : Text) : Prop where
  split_eq : Block.split output = (Block.split stdout).map Utf8.decodeLossy
  value_blocks : ∀ job : Job, job.call command = command :: arguments →
    (job.blocks host command).run.value =
      if (Block.split stdout).length = job.offsets.length then
        .ok ((Block.split stdout).map Utf8.decodeLossy)
      else .error (.failure
        (.malformed job.module job.offsets.length (Block.split stdout).length))
  length_eq : ∀ other : List UInt8, Block.outline other = Block.outline stdout →
    (Block.split (Utf8.decodeLossy other)).length = (Block.split output).length
  apart : ∀ (other : List UInt8) (i : Nat), (Block.split other)[i]? = (Block.split stdout)[i]? →
    (Block.split (Utf8.decodeLossy other))[i]? = (Block.split output)[i]?

variable {host : Host} {command : Text}

theorem cutAsBytes_run {arguments : List Text} {stdout stderr : List UInt8}
    (h : host.spawn (command :: arguments) = .exited 0 stdout stderr) :
    ∃ output, (host.run command arguments).run.value = .ok output ∧
      CutAsBytes host command arguments stdout output := by
  refine ⟨Utf8.decodeLossy stdout, Host.value_run_of_exited h, ?_⟩
  constructor
  case split_eq => exact Block.split_decodeLossy stdout
  case value_blocks =>
    intro job hjob
    split
    · next hlength =>
        refine Job.value_blocks_eq_ok_iff.mpr ⟨stdout, stderr, by rw [hjob, h], ?_, ?_⟩
        · exact Block.split_decodeLossy stdout
        · rwa [List.length_map]
    · next hlength =>
        have hcount : (Block.split (Utf8.decodeLossy stdout)).length = (Block.split stdout).length := by
          rw [Block.split_decodeLossy, List.length_map]
        have hspawn : host.spawn (job.call command) = .exited 0 stdout stderr := by rw [hjob, h]
        have hfail := Job.FailsWith.miscounted hspawn (by rwa [hcount])
        rw [hcount] at hfail
        exact hfail.value_blocks
  case length_eq =>
    intro other hother
    rw [Block.split_decodeLossy, Block.split_decodeLossy, List.length_map, List.length_map,
      ← Block.length_split_outline other, hother, Block.length_split_outline]
  case apart =>
    intro other i hi
    rw [Block.split_decodeLossy, Block.split_decodeLossy, List.getElem?_map, List.getElem?_map, hi]

def brokenOutput : List UInt8 :=
  spell "f" ++ [0xE2, 0x82] ++ spell "\r\n\n" ++ [0xFF] ++ spell "\n" ++ [0xC3]

def brokenHost : Host := .answering fun _ => .exited 0 brokenOutput []

def twoOffsets : Job := ⟨spell "m", [spell "0x1", spell "0x2"], ⟨.relative, []⟩⟩

theorem cutAsBytes_run_brokenHost :
    brokenHost.spawn (twoOffsets.call (spell "sym")) = .exited 0 brokenOutput [] ∧
    ∃ output, (brokenHost.run (spell "sym")
        (Job.arguments twoOffsets.artifact twoOffsets.offsets)).run.value = .ok output ∧
      CutAsBytes brokenHost (spell "sym") (Job.arguments twoOffsets.artifact twoOffsets.offsets)
        brokenOutput output ∧
      (twoOffsets.blocks brokenHost (spell "sym")).run.value =
        .ok [[.char 'f', .char '\uFFFD'], [.char '\uFFFD', .char '\n', .char '\uFFFD']] := by
  have h : brokenHost.spawn (twoOffsets.call (spell "sym")) = .exited 0 brokenOutput [] := rfl
  obtain ⟨output, hvalue, hcut⟩ := cutAsBytes_run h
  refine ⟨h, output, hvalue, hcut, ?_⟩
  rw [hcut.value_blocks twoOffsets rfl]
  decide

end Symbolication
