import Mathlib.Data.List.Induction
import Mathlib.Data.List.TakeWhile
import Symbolication.Block
import Symbolication.Marker

namespace Symbolication

section Trimming

variable {α : Type} {p : α → Bool}

theorem exists_trimEnd (p : α → Bool) (l : List α) :
    ∃ r, l = trimEnd p l ++ r ∧ ∀ a ∈ r, p a := by
  refine ⟨(l.reverse.takeWhile p).reverse, ?_, ?_⟩
  · rw [trimEnd, ← List.reverse_append, List.takeWhile_append_dropWhile, List.reverse_reverse]
  · intro a ha
    exact List.all_eq_true.mp List.all_takeWhile a (List.mem_reverse.mp ha)

theorem getLast?_trimEnd {l : List α} : ∀ a ∈ (trimEnd p l).getLast?, p a = false := by
  intro a ha
  rw [trimEnd, List.getLast?_reverse, Option.mem_def] at ha
  have h := List.head?_dropWhile_not p l.reverse
  rwa [ha] at h

theorem trimEnd_append (l : List α) {r : List α} (h : ∀ a ∈ r, p a) :
    trimEnd p (l ++ r) = trimEnd p l := by
  have hreverse : ∀ a ∈ r.reverse, p a := fun a ha => h a (List.mem_reverse.mp ha)
  rw [trimEnd, List.reverse_append, List.dropWhile_append_of_pos hreverse, trimEnd]

theorem trimEnd_eq_self {l : List α} (h : ∀ a ∈ l.getLast?, p a = false) : trimEnd p l = l := by
  induction l using List.reverseRecOn with
  | nil => rfl
  | append_singleton l a _ =>
      have ha : p a = false := h a List.getLast?_concat
      rw [trimEnd_concat, if_neg (by simp [ha])]

structure Strips (p : α → Bool) (l m : List α) : Prop where
  cut : ∃ front back, l = front ++ m ++ back ∧ (∀ a ∈ front, p a) ∧ ∀ a ∈ back, p a
  head : ∀ a ∈ m.head?, p a = false
  last : ∀ a ∈ m.getLast?, p a = false

theorem strips_trim (p : α → Bool) (l : List α) : Strips p l (trim p l) := by
  obtain ⟨back, hback, hblank⟩ := exists_trimEnd p (l.dropWhile p)
  constructor
  case cut =>
    refine ⟨l.takeWhile p, back, ?_, List.all_eq_true.mp List.all_takeWhile, hblank⟩
    rw [trim, List.append_assoc, ← hback, List.takeWhile_append_dropWhile]
  case head =>
    intro a ha
    obtain ⟨m, hm⟩ := List.head?_eq_some_iff.mp ha
    have hhead : (l.dropWhile p).head? = some a := by
      rw [hback, ← trim, hm]
      rfl
    exact head?_dropWhile a hhead
  case last => exact getLast?_trimEnd

theorem Strips.trim_eq {l m : List α} (h : Strips p l m) : trim p l = m := by
  obtain ⟨front, back, rfl, hfront, hback⟩ := h.cut
  rw [trim, List.append_assoc, List.dropWhile_append_of_pos hfront]
  cases m with
  | nil =>
      rw [List.nil_append, List.dropWhile_eq_nil_iff.mpr hback]
      rfl
  | cons a m =>
      have ha : p a = false := h.head a rfl
      rw [List.cons_append, List.dropWhile_cons_of_neg (by simp [ha]), ← List.cons_append,
        trimEnd_append _ hback, trimEnd_eq_self h.last]

end Trimming

namespace Block

variable {σ : Type}

theorem mem_intercalate {sep : List σ} {bs : List (List σ)} {a : σ}
    (h : a ∈ List.intercalate sep bs) : a ∈ sep ∨ ∃ b ∈ bs, a ∈ b := by
  induction bs with
  | nil => cases h
  | cons b bs ih =>
      cases bs with
      | nil =>
          rw [List.intercalate_singleton] at h
          exact .inr ⟨b, List.mem_cons_self .., h⟩
      | cons c bs =>
          rw [List.intercalate_cons_cons, List.mem_append, List.mem_append] at h
          rcases h with (hb | hsep) | hrest
          · exact .inr ⟨b, List.mem_cons_self .., hb⟩
          · exact .inl hsep
          · apply (ih hrest).imp_right
            rintro ⟨d, hd, ha⟩
            exact ⟨d, List.mem_cons_of_mem _ hd, ha⟩

theorem mem_intercalate_of_mem {sep : List σ} {bs : List (List σ)} {b : List σ} {a : σ} (hb : b ∈ bs)
    (ha : a ∈ b) : a ∈ List.intercalate sep bs := by
  induction bs with
  | nil => cases hb
  | cons c bs ih =>
      cases bs with
      | nil =>
          rw [List.intercalate_singleton, ← List.mem_singleton.mp hb]
          exact ha
      | cons d bs =>
          rw [List.intercalate_cons_cons]
          rcases List.mem_cons.mp hb with rfl | hb
          · exact List.mem_append_left _ (List.mem_append_left _ ha)
          · exact List.mem_append_right _ (ih hb)

theorem getLast?_intercalate (sep : List σ) {bs : List (List σ)} {b : List σ}
    (h : bs.getLast? = some b) (hb : b ≠ []) :
    (List.intercalate sep bs).getLast? = b.getLast? := by
  induction bs with
  | nil => cases h
  | cons c bs ih =>
      cases bs with
      | nil =>
          obtain rfl : c = b := by simpa using h
          rw [List.intercalate_singleton]
      | cons d bs =>
          have hd : (List.intercalate sep (d :: bs)).getLast? = b.getLast? :=
            ih (by simpa [List.getLast?_cons] using h)
          rw [List.intercalate_cons_cons, List.getLast?_append, hd]
          obtain ⟨x, hx⟩ := Option.isSome_iff_exists.mp (List.getLast?_isSome.mpr hb)
          simp [hx]

theorem flatMap_append_eq_intercalate (sep : List σ) {ι : Type} (f : ι → List σ) {is : List ι}
    (h : is ≠ []) :
    (is.flatMap fun i => f i ++ sep) = List.intercalate sep (is.map f) ++ sep := by
  induction is with
  | nil => exact absurd rfl h
  | cons i is ih =>
      cases is with
      | nil => simp [List.intercalate_singleton]
      | cons j is =>
          rw [List.flatMap_cons, ih (by simp)]
          simp only [List.map_cons, List.intercalate_cons_cons, List.append_assoc]

variable [Alphabet σ]

theorem carriageReturn_ne_newline : (carriageReturn : σ) ≠ newline :=
  fun h => absurd (Alphabet.letter_inj (by decide) (by decide) h) (by decide)

theorem carriageReturn_notMem_intercalate {bs : List (List σ)}
    (h : ∀ b ∈ bs, carriageReturn ∉ b) (n : Nat) :
    carriageReturn ∉ List.intercalate [newline, newline] bs ++ List.replicate n newline := by
  intro hr
  rcases List.mem_append.mp hr with hr | hr
  · rcases mem_intercalate hr with hr | ⟨b, hb, hr⟩
    · exact carriageReturn_ne_newline (by simpa using hr)
    · exact h b hb hr
  · exact carriageReturn_ne_newline (List.eq_of_mem_replicate hr)

structure Whole (b : List σ) : Prop where
  no_blankLine : ¬[newline, newline] <:+: b
  no_newline_end : b.getLast? ≠ some newline

theorem Whole.tail {a : σ} {b : List σ} (h : Whole (a :: b)) : Whole b where
  no_blankLine hb := h.no_blankLine (List.infix_cons hb)
  no_newline_end hb := h.no_newline_end (by simp [List.getLast?_cons, hb])

theorem Whole.head_line {a : σ} {b : List σ} (h : Whole (a :: b)) :
    ¬(a = newline ∧ (b = [] ∨ b.head? = some newline)) := by
  rintro ⟨rfl, rfl | hb⟩
  · exact h.no_newline_end rfl
  · obtain ⟨b, rfl⟩ := List.head?_eq_some_iff.mp hb
    exact h.no_blankLine ⟨[], b, rfl⟩

variable [DecidableEq σ]

theorem cut_eq_singleton {s : List σ} (h : ¬[newline, newline] <:+: s) : cut s = [s] := by
  induction s with
  | nil => rfl
  | cons a s ih =>
      have hhead : ¬(a = newline ∧ s.head? = some newline) := by
        rintro ⟨rfl, hs⟩
        obtain ⟨s, rfl⟩ := List.head?_eq_some_iff.mp hs
        exact h ⟨[], s, rfl⟩
      rw [cut_cons hhead, ih fun hs => h (List.infix_cons hs)]
      rfl

theorem cut_append {b : List σ} (h : Whole b) (s : List σ) :
    cut (b ++ newline :: newline :: s) = b :: cut s := by
  induction b with
  | nil => exact cut_blankLine s
  | cons a b ih =>
      have hhead : ¬(a = newline ∧ (b ++ newline :: newline :: s).head? = some newline) := by
        rintro ⟨ha, hb⟩
        cases b with
        | nil => exact h.head_line ⟨ha, .inl rfl⟩
        | cons c b => exact h.head_line ⟨ha, .inr hb⟩
      rw [List.cons_append, cut_cons hhead, ih h.tail]
      rfl

theorem cut_intercalate {bs : List (List σ)} (hne : bs ≠ []) (h : ∀ b ∈ bs, Whole b) :
    cut (List.intercalate [newline, newline] bs) = bs := by
  induction bs with
  | nil => exact absurd rfl hne
  | cons b bs ih =>
      obtain ⟨hb, h⟩ := List.forall_mem_cons.mp h
      cases bs with
      | nil => rw [List.intercalate_singleton, cut_eq_singleton hb.no_blankLine]
      | cons c bs =>
          rw [List.intercalate_cons_cons, List.append_assoc]
          exact (cut_append hb _).trans (congrArg _ (ih (by simp) h))

theorem foldLineEnds_append {u s : List σ} (h : ¬[carriageReturn, newline] <:+: u)
    (hs : s.head? ≠ some newline) : foldLineEnds (u ++ s) = u ++ foldLineEnds s := by
  induction u with
  | nil => rfl
  | cons a u ih =>
      have hhead : ¬(a = carriageReturn ∧ (u ++ s).head? = some newline) := by
        rintro ⟨rfl, hu⟩
        cases u with
        | nil => exact hs hu
        | cons b u =>
            obtain rfl : b = newline := by simpa using hu
            exact h ⟨[], u, rfl⟩
      rw [List.cons_append, foldLineEnds_cons hhead, ih fun hu => h (List.infix_cons hu)]
      rfl

theorem foldLineEnds_eq_self {s : List σ} (h : ¬[carriageReturn, newline] <:+: s) :
    foldLineEnds s = s := by
  simpa [foldLineEnds_nil] using foldLineEnds_append (s := []) h

theorem trimEnd_newline_eq_self {s : List σ} (h : s.getLast? ≠ some newline) :
    trimEnd (fun a => decide (a = newline)) s = s :=
  trimEnd_eq_self fun _ ha => decide_eq_false fun hn => h (hn ▸ ha)

theorem body_intercalate {bs : List (List σ)} {b : List σ} (hlast : bs.getLast? = some b)
    (hb : b ≠ []) (hend : b.getLast? ≠ some newline) (h : ∀ b ∈ bs, carriageReturn ∉ b) (n : Nat) :
    body (List.intercalate [newline, newline] bs ++ List.replicate n newline) =
      List.intercalate [newline, newline] bs := by
  have hpair : ¬[carriageReturn, newline] <:+:
      List.intercalate [newline, newline] bs ++ List.replicate n newline :=
    fun hi => carriageReturn_notMem_intercalate h n (hi.subset (List.mem_cons_self ..))
  rw [body, foldLineEnds_eq_self hpair, trimEnd_append _ (by simp)]
  apply trimEnd_newline_eq_self
  rwa [getLast?_intercalate _ hlast hb]

theorem split_intercalate {bs : List (List σ)} {b : List σ} (hlast : bs.getLast? = some b)
    (hb : b ≠ []) (h : ∀ b ∈ bs, Whole b) (hreturn : ∀ b ∈ bs, carriageReturn ∉ b) (n : Nat) :
    split (List.intercalate [newline, newline] bs ++ List.replicate n newline) = bs := by
  have hmem : b ∈ bs := List.mem_of_getLast? hlast
  have hnil : List.intercalate [newline, newline] bs ≠ [] := by
    intro hi
    have hlast := getLast?_intercalate [newline, newline] hlast hb
    rw [hi] at hlast
    exact hb (List.getLast?_eq_none_iff.mp hlast.symm)
  rw [split, body_intercalate hlast hb (h b hmem).no_newline_end hreturn, if_neg hnil,
    cut_intercalate (List.ne_nil_of_mem hmem) h]

theorem split_answers {ι : Type} {f : ι → List σ} (hne : ∀ i, f i ≠ []) (h : ∀ i, Whole (f i))
    (hreturn : ∀ i, carriageReturn ∉ f i) (is : List ι) :
    split (is.flatMap fun i => f i ++ [newline, newline]) = is.map f := by
  induction is using List.reverseRecOn with
  | nil => rfl
  | append_singleton is i _ =>
      rw [flatMap_append_eq_intercalate _ _ (by simp)]
      refine split_intercalate (b := f i) (by simp) (hne i) ?_ ?_ 2
      · exact List.forall_mem_map.mpr fun j _ => h j
      · exact List.forall_mem_map.mpr fun j _ => hreturn j

end Block

end Symbolication
