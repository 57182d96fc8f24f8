import Symbolication.Proofs.Blocks

namespace Symbolication

variable {α : Type}

theorem exists_first_pair {a b : α} {s : List α} (h : [a, b] <:+: s) :
    ∃ u r, s = u ++ a :: b :: r ∧ ¬[a, b] <:+: u ++ [a] := by
  induction s with
  | nil => simp at h
  | cons c s ih =>
      by_cases hs : [a, b] <+: c :: s
      · obtain ⟨r, hr⟩ := hs
        refine ⟨[], r, hr.symm, fun hi => ?_⟩
        simpa using hi.length_le
      · obtain ⟨u, r, rfl, hu⟩ := ih ((List.infix_cons_iff.mp h).resolve_left hs)
        refine ⟨c :: u, r, rfl, fun hi => ?_⟩
        rcases List.infix_cons_iff.mp hi with hi | hi
        · exact hs (hi.trans ⟨b :: r, by simp⟩)
        · exact hu hi

@[elab_as_elim]
theorem pair_induction (a b : α) {motive : List α → Prop}
    (last : ∀ s, ¬[a, b] <:+: s → motive s)
    (pair : ∀ u s, ¬[a, b] <:+: u ++ [a] → motive s → motive (u ++ a :: b :: s))
    (s : List α) : motive s := by
  induction hn : s.length using Nat.strongRecOn generalizing s with
  | ind n ih =>
      by_cases h : [a, b] <:+: s
      · -- The text up to the first pair has none, not even one that the first of the two completes.
        obtain ⟨u, r, rfl, hu⟩ := exists_first_pair h
        have hlt : r.length < n := by
          rw [← hn, List.length_append, List.length_cons, List.length_cons]
          omega
        exact pair u r hu (ih r.length hlt r rfl)
      · exact last s h

namespace Block

variable {σ : Type}

theorem intercalate_concat_nil (sep : List σ) (bs : List (List σ)) :
    List.intercalate sep (bs ++ [[]]) = bs.flatMap (· ++ sep) := by
  induction bs with
  | nil => exact List.intercalate_singleton
  | cons b bs ih =>
      obtain ⟨c, cs, hcs⟩ := List.exists_cons_of_ne_nil (List.concat_ne_nil [] bs)
      rw [List.cons_append, hcs, List.intercalate_cons_cons, ← hcs, ih, List.flatMap_cons]

variable [Alphabet σ]

inductive LineEndsOf : List σ → List σ → Prop where
  | nil : LineEndsOf [] []
  | newline {s t : List σ} (h : LineEndsOf s t) : LineEndsOf (newline :: s) (newline :: t)
  | returned {s t : List σ} (h : LineEndsOf s t) :
      LineEndsOf (newline :: s) (carriageReturn :: newline :: t)
  | other {a : σ} {s t : List σ} (ha : a ≠ newline) (h : LineEndsOf s t) :
      LineEndsOf (a :: s) (a :: t)

structure Legible (bs : List (List σ)) : Prop where
  whole : ∀ b ∈ bs, Whole b
  no_return : ∀ b ∈ bs, carriageReturn ∉ b
  last : ∃ b, bs.getLast? = some b ∧ b ≠ []

theorem whole_of_notMem_concat {u : List σ} (h : ¬[newline, newline] <:+: u ++ [newline]) :
    Whole u where
  no_blankLine hu := h (hu.trans (List.prefix_append u _).isInfix)
  no_newline_end hu := by
    obtain ⟨v, rfl⟩ := List.getLast?_eq_some_iff.mp hu
    exact h ⟨v, [], by simp⟩

theorem LineEndsOf.refl (s : List σ) : LineEndsOf s s := by
  induction s with
  | nil => exact .nil
  | cons a s ih =>
      by_cases ha : a = Block.newline
      · exact ha ▸ .newline ih
      · exact .other ha ih

theorem LineEndsOf.append {s t u v : List σ} (h : LineEndsOf s t) (h' : LineEndsOf u v) :
    LineEndsOf (s ++ u) (t ++ v) := by
  induction h with
  | nil => exact h'
  | newline _ ih => exact .newline ih
  | returned _ ih => exact .returned ih
  | other ha _ ih => exact .other ha ih

theorem ne_nil_of_getLast?_intercalate {bs : List (List σ)} {b : List σ}
    (hne : List.intercalate [newline, newline] bs ≠ [])
    (hend : (List.intercalate [newline, newline] bs).getLast? ≠ some newline)
    (hb : bs.getLast? = some b) : b ≠ [] := by
  rintro rfl
  obtain ⟨cs, rfl⟩ := List.getLast?_eq_some_iff.mp hb
  rw [intercalate_concat_nil] at hne hend
  rcases List.eq_nil_or_concat cs with rfl | ⟨ds, d, rfl⟩
  · exact hne rfl
  · exact hend (by simp)

@[elab_as_elim]
theorem block_induction {motive : List σ → Prop}
    (last : ∀ s, ¬[newline, newline] <:+: s → motive s)
    (more : ∀ b s, Whole b → motive s → motive (b ++ newline :: newline :: s))
    (s : List σ) : motive s :=
  pair_induction newline newline last (fun u s hu => more u s (whole_of_notMem_concat hu)) s

@[elab_as_elim]
theorem line_induction {motive : List σ → Prop}
    (last : ∀ s, ¬[carriageReturn, newline] <:+: s → motive s)
    (more : ∀ u s, ¬[carriageReturn, newline] <:+: u → motive s →
      motive (u ++ carriageReturn :: newline :: s))
    (s : List σ) : motive s :=
  pair_induction carriageReturn newline last
    (fun u s hu => more u s fun h => hu (h.trans (List.prefix_append u _).isInfix)) s

variable [DecidableEq σ]

theorem cut_ne_nil (s : List σ) : cut s ≠ [] := by
  induction s using block_induction with
  | last s h => simp [cut_eq_singleton h]
  | more b s hb _ => simp [cut_append hb]

theorem intercalate_cut (s : List σ) : List.intercalate [newline, newline] (cut s) = s := by
  induction s using block_induction with
  | last s h => rw [cut_eq_singleton h, List.intercalate_singleton]
  | more b s hb ih =>
      obtain ⟨c, bs, hs⟩ := List.exists_cons_of_ne_nil (cut_ne_nil s)
      rw [cut_append hb, hs, List.intercalate_cons_cons, ← hs, ih]
      simp

theorem whole_of_mem_cut {s : List σ} (h : s.getLast? ≠ some newline) : ∀ b ∈ cut s, Whole b := by
  induction s using block_induction with
  | last s hs =>
      rw [cut_eq_singleton hs, List.forall_mem_singleton]
      exact ⟨hs, h⟩
  | more b s hb ih =>
      rw [cut_append hb, List.forall_mem_cons]
      refine ⟨hb, ih fun hs => h ?_⟩
      simp [List.getLast?_cons, hs]

theorem getLast?_body (output : List σ) : (body output).getLast? ≠ some newline := by
  intro h
  simpa using getLast?_trimEnd newline h

theorem exists_body (output : List σ) :
    ∃ n, foldLineEnds output = body output ++ List.replicate n newline := by
  obtain ⟨r, hr, hnewline⟩ := exists_trimEnd (fun a => decide (a = newline)) (foldLineEnds output)
  refine ⟨r.length, hr.trans ?_⟩
  rw [← List.eq_replicate_of_mem fun a ha => of_decide_eq_true (hnewline a ha)]
  rfl

theorem foldLineEnds_of_lineEndsOf {s t : List σ} (h : LineEndsOf s t) (hs : carriageReturn ∉ s) :
    foldLineEnds t = s := by
  induction h with
  | nil => rfl
  | newline h ih =>
      rw [foldLineEnds_cons fun hn => carriageReturn_ne_newline hn.1.symm,
        ih fun hr => hs (List.mem_cons_of_mem _ hr)]
  | returned h ih => rw [foldLineEnds_lineEnd, ih fun hr => hs (List.mem_cons_of_mem _ hr)]
  | other ha h ih =>
      rw [List.mem_cons, not_or] at hs
      rw [foldLineEnds_cons fun hn => hs.1 hn.1.symm, ih hs.2]

theorem foldLineEnds_append_lineEnd {u : List σ} (h : ¬[carriageReturn, newline] <:+: u)
    (s : List σ) :
    foldLineEnds (u ++ carriageReturn :: newline :: s) = u ++ newline :: foldLineEnds s := by
  have hhead : (carriageReturn :: newline :: s).head? ≠ some newline :=
    fun hs => carriageReturn_ne_newline (Option.some.inj hs)
  rw [foldLineEnds_append h hhead, foldLineEnds_lineEnd]

theorem lineEndsOf_foldLineEnds (s : List σ) : LineEndsOf (foldLineEnds s) s := by
  induction s using line_induction with
  | last s h =>
      rw [foldLineEnds_eq_self h]
      exact .refl s
  | more u s hu ih =>
      rw [foldLineEnds_append_lineEnd hu]
      exact .append (.refl u) (.returned ih)

inductive Folded : List σ → List σ → Prop where
  | nil : Folded [] []
  | lineEnd {s t : List σ} (h : Folded s t) :
      Folded (carriageReturn :: newline :: s) (newline :: t)
  | other {a : σ} {s t : List σ} (ha : ¬(a = carriageReturn ∧ s.head? = some newline))
      (h : Folded s t) : Folded (a :: s) (a :: t)

theorem folded_foldLineEnds : ∀ s : List σ, Folded s (foldLineEnds s)
  | [] => .nil
  | [a] => .other (by simp) .nil
  | a :: b :: s => by
      by_cases h : a = carriageReturn ∧ b = newline
      · obtain ⟨rfl, rfl⟩ := h
        rw [foldLineEnds_lineEnd]
        exact .lineEnd (folded_foldLineEnds s)
      · have hhead : ¬(a = carriageReturn ∧ (b :: s).head? = some newline) := by simpa using h
        rw [foldLineEnds_cons hhead]
        exact .other hhead (folded_foldLineEnds (b :: s))

theorem split_congr {s t : List σ} (h : foldLineEnds s = foldLineEnds t) : split s = split t := by
  rw [split, split, body, body, h]

structure BlocksOf (output : List σ) (bs : List (List σ)) : Prop where
  eq_nil_iff : bs = [] ↔ body output = []
  join : List.intercalate [newline, newline] bs = body output
  whole : ∀ b ∈ bs, Whole b
  last_ne_nil : ∀ b, bs.getLast? = some b → b ≠ []
  unique : body output ≠ [] → ∀ cs, List.intercalate [newline, newline] cs = body output →
    (∀ c ∈ cs, Whole c) → cs = bs

theorem blocksOf_split (output : List σ) : BlocksOf output (split output) := by
  by_cases h : body output = []
  · have hsplit : split output = [] := if_pos h
    rw [hsplit]
    exact ⟨by simp [h], h.symm, by simp, by simp, fun hne => absurd h hne⟩
  · have hsplit : split output = cut (body output) := if_neg h
    have hjoin := intercalate_cut (body output)
    rw [hsplit]
    constructor
    case eq_nil_iff => simp [cut_ne_nil, h]
    case join => exact hjoin
    case whole => exact whole_of_mem_cut (getLast?_body output)
    case last_ne_nil =>
      intro b hb
      refine ne_nil_of_getLast?_intercalate ?_ ?_ hb
      · rwa [hjoin]
      · rw [hjoin]
        exact getLast?_body output
    case unique =>
      rintro _ cs hcs hwhole
      have hne : cs ≠ [] := by
        rintro rfl
        exact h hcs.symm
      rw [← hcs, cut_intercalate hne hwhole]

theorem Legible.split_eq {bs : List (List σ)} (h : Legible bs) {n : Nat} {output : List σ}
    (hout : LineEndsOf (List.intercalate [newline, newline] bs ++ List.replicate n newline) output) :
    split output = bs := by
  obtain ⟨b, hlast, hb⟩ := h.last
  have hreturn := carriageReturn_notMem_intercalate h.no_return n
  have hfold := foldLineEnds_of_lineEndsOf hout hreturn
  rw [split_congr (hfold.trans (foldLineEnds_of_lineEndsOf (.refl _) hreturn).symm)]
  exact split_intercalate hlast hb h.whole h.no_return n

theorem split_canonical (output : List σ) :
    (∃ n, LineEndsOf (body output ++ List.replicate n newline) output ∧
      Folded output (body output ++ List.replicate n newline) ∧
      foldLineEnds output = body output ++ List.replicate n newline) ∧
    (body output).getLast? ≠ some newline ∧
    BlocksOf output (split output) ∧
    ∀ bs n, Legible bs →
      LineEndsOf (List.intercalate [newline, newline] bs ++ List.replicate n newline) output →
        split output = bs := by
  obtain ⟨n, hn⟩ := exists_body output
  refine ⟨⟨n, ?_, ?_, hn⟩, getLast?_body output, blocksOf_split output, fun bs n h => h.split_eq⟩
  · rw [← hn]
    exact lineEndsOf_foldLineEnds output
  · rw [← hn]
    exact folded_foldLineEnds output

def mixedBlocks : List Text := [[], spell "\na", spell "b\nc"]

theorem split_canonical_mixed :
    Legible mixedBlocks ∧
    LineEndsOf (List.intercalate [newline, newline] mixedBlocks ++ List.replicate 2 newline)
      (spell "\r\n\n\r\na\n\r\nb\nc\n\r\n") ∧
    split (spell "\r\n\n\r\na\n\r\nb\nc\n\r\n") = mixedBlocks := by
  have hlegible : Legible mixedBlocks := by
    refine ⟨?_, by decide, spell "b\nc", rfl, by decide⟩
    rw [mixedBlocks, List.forall_mem_cons, List.forall_mem_cons, List.forall_mem_singleton]
    exact ⟨⟨by decide, by decide⟩, ⟨by decide, by decide⟩, ⟨by decide, by decide⟩⟩
  have hwritten :
      LineEndsOf (List.intercalate [newline, newline] mixedBlocks ++ List.replicate 2 newline)
        (spell "\r\n\n\r\na\n\r\nb\nc\n\r\n") :=
    .returned <| .newline <| .returned <| .other (by decide) <| .newline <| .returned <|
      .other (by decide) <| .newline <| .other (by decide) <| .newline <| .returned .nil
  exact ⟨hlegible, hwritten, (split_canonical _).2.2.2 mixedBlocks 2 hlegible hwritten⟩

example : split (spell "a\n\n\nb" : Text) = [spell "a", spell "\nb"] := by decide

end Block

end Symbolication
