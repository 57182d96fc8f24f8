import Symbolication.Proofs.Attempts
import Symbolication.Proofs.Tables

namespace Symbolication

theorem idxOf_lt_iff_of_pairwise {α : Type} [BEq α] [LawfulBEq α] {f : α → Nat} {as : List α}
    (h : as.Pairwise fun a b => f a < f b) {a b : α} (ha : a ∈ as) (hb : b ∈ as) :
    as.idxOf a < as.idxOf b ↔ f a < f b := by
  have hforward {a b : α} (ha : a ∈ as) (hb : b ∈ as) (hab : as.idxOf a < as.idxOf b) :
      f a < f b := by
    have hplace := List.pairwise_iff_getElem.mp h _ _ (List.idxOf_lt_length_of_mem ha)
      (List.idxOf_lt_length_of_mem hb) hab
    rwa [List.getElem_idxOf, List.getElem_idxOf] at hplace
  constructor
  · exact hforward ha hb
  · intro hab
    by_contra hle
    rcases Nat.lt_or_eq_of_le (Nat.le_of_not_lt hle) with hlt | heq
    · exact Nat.lt_asymm hab (hforward hb ha hlt)
    · rw [List.idxOf_inj hb |>.mp heq] at hab
      exact Nat.lt_irrefl _ hab

theorem nodup_candidates (extra : List Text) : (candidates extra).Nodup := nodup_eraseDups _

theorem mem_candidates {extra : List Text} {c : Text} :
    c ∈ candidates extra ↔ c ≠ [] ∧ (c ∈ extra ∨ c ∈ usualSymbolizers) := by
  rw [candidates, List.mem_eraseDups, List.mem_filter, List.mem_append, decide_eq_true_eq, and_comm]

theorem nil_notMem_candidates (extra : List Text) : [] ∉ candidates extra :=
  fun h => (mem_candidates.mp h).1 rfl

theorem nil_notMem_usualSymbolizers : [] ∉ usualSymbolizers := by decide

theorem mem_candidates_of_usual {c : Text} (h : c ∈ usualSymbolizers) (extra : List Text) :
    c ∈ candidates extra :=
  mem_candidates.mpr ⟨ne_of_mem_of_not_mem h nil_notMem_usualSymbolizers, .inr h⟩

theorem candidates_ne_nil (extra : List Text) : candidates extra ≠ [] :=
  List.ne_nil_of_mem (mem_candidates_of_usual (List.mem_cons_self ..) extra)

theorem pairwise_idxOf_candidates (extra : List Text) :
    (candidates extra).Pairwise fun a b =>
      (extra ++ usualSymbolizers).idxOf a < (extra ++ usualSymbolizers).idxOf b := by
  rw [candidates, eraseDups_filter]
  exact (pairwise_idxOf_eraseDups _).filter _

theorem idxOf_lt_of_given {extra : List Text} {a b : Text} (ha : a ∈ extra) (hb : b ∉ extra) :
    (extra ++ usualSymbolizers).idxOf a < (extra ++ usualSymbolizers).idxOf b := by
  rw [List.idxOf_append_of_mem ha, List.idxOf_append_of_notMem hb]
  exact Nat.lt_of_lt_of_le (List.idxOf_lt_length_of_mem ha) (Nat.le_add_right _ _)

theorem candidates_eq_self {names : List Text} (hnodup : names.Nodup) (hnamed : [] ∉ names)
    (husual : ∀ c ∈ usualSymbolizers, c ∈ names) : candidates names = names := by
  have hnew : (usualSymbolizers.eraseDups.filter fun c => c ∉ names) = [] := by
    rw [List.filter_eq_nil_iff]
    intro c hc
    simpa using husual c (List.mem_eraseDups.mp hc)
  rw [candidates, eraseDups_filter, eraseDups_append_filter, hnew, List.append_nil,
    eraseDups_of_nodup hnodup, List.filter_eq_self]
  exact fun c hc => decide_eq_true (ne_of_mem_of_not_mem hc hnamed)

theorem candidates_candidates (extra : List Text) :
    candidates (candidates extra) = candidates extra :=
  candidates_eq_self (nodup_candidates extra) (nil_notMem_candidates extra)
    fun _ hc => mem_candidates_of_usual hc extra

theorem candidates_concat {extra : List Text} {name : Text} (h : name = [] ∨ name ∈ extra) :
    candidates (extra ++ [name]) = candidates extra := by
  rcases h with rfl | h
  · simp [candidates]
  · have hmem : ∀ c, c ∈ extra ++ [name] ↔ c ∈ extra := by
      intro c
      rw [List.mem_append, List.mem_singleton, or_iff_left_iff_imp]
      rintro rfl
      exact h
    have hall : (extra ++ [name] ++ usualSymbolizers).eraseDups =
        (extra ++ usualSymbolizers).eraseDups := by
      rw [eraseDups_append_filter, eraseDups_concat, if_pos h, eraseDups_append_filter]
      simp only [hmem]
    rw [candidates, eraseDups_filter, hall, candidates, eraseDups_filter]

structure TriedInOrder (extra : List Text) : Prop where
  nodup : (candidates extra).Nodup
  named : [] ∉ candidates extra
  mem_iff : ∀ c, c ∈ candidates extra ↔ c ≠ [] ∧ (c ∈ extra ∨ c ∈ usualSymbolizers)
  ordered : ∀ a ∈ candidates extra, ∀ b ∈ candidates extra,
    (candidates extra).idxOf a < (candidates extra).idxOf b ↔
      (extra ++ usualSymbolizers).idxOf a < (extra ++ usualSymbolizers).idxOf b
  given_first : ∀ a ∈ extra, a ≠ [] → ∀ b ∈ usualSymbolizers, b ∉ extra →
    (candidates extra).idxOf a < (candidates extra).idxOf b
  settled : candidates (candidates extra) = candidates extra
  concat_eq : ∀ name, name = [] ∨ name ∈ extra → candidates (extra ++ [name]) = candidates extra

theorem candidates_triedInOrder (given : Option (List Text)) : TriedInOrder (given.getD []) := by
  generalize given.getD [] = extra
  have hordered {a b : Text} := idxOf_lt_iff_of_pairwise (pairwise_idxOf_candidates extra)
    (a := a) (b := b)
  constructor
  case nodup => exact nodup_candidates extra
  case named => exact nil_notMem_candidates extra
  case mem_iff => exact fun c => mem_candidates
  case ordered => exact fun a ha b hb => hordered ha hb
  case given_first =>
    intro a ha hne b hb hnew
    have ha' : a ∈ candidates extra := mem_candidates.mpr ⟨hne, .inl ha⟩
    exact (hordered ha' (mem_candidates_of_usual hb extra)).mpr (idxOf_lt_of_given ha hnew)
  case settled => exact candidates_candidates extra
  case concat_eq => exact fun name => candidates_concat

variable {host : Host}

namespace Host

def probing (host : Host) (command : Text) : List Text := command :: host.probeArguments

def Usable (host : Host) (command : Text) : Prop :=
  ∃ stdout stderr, host.spawn (host.probing command) = .exited 0 stdout stderr

inductive Unusable (host : Host) (command : Text) : Prop where
  | unavailable {e : SystemError} (probed : host.spawn (host.probing command) = .unavailable e)
  | failed {code : Int} {stdout stderr : List UInt8}
      (probed : host.spawn (host.probing command) = .exited code stdout stderr) (bad : code ≠ 0)

theorem unusable_iff {command : Text} : host.Unusable command ↔
    ¬host.Usable command ∧ ∀ reason, host.spawn (host.probing command) ≠ .refused reason := by
  constructor
  · rintro (probed | ⟨probed, bad⟩)
    · simp [Usable, probed]
    · simp [Usable, probed, bad]
  · rintro ⟨hunusable, hrefused⟩
    cases h : host.spawn (host.probing command) with
    | unavailable e => exact .unavailable h
    | refused reason => exact absurd h (hrefused reason)
    | exited code stdout stderr =>
        refine .failed h fun hcode => hunusable ⟨stdout, stderr, ?_⟩
        rw [h, hcode]

inductive Probed (host : Host) (command : Text) : Except Halt Bool → Prop where
  | usable (h : host.Usable command) : Probed host command (.ok true)
  | unusable (h : host.Unusable command) : Probed host command (.ok false)
  | refused {reason : Text} (h : host.spawn (host.probing command) = .refused reason) :
      Probed host command (.error (.refused reason))

theorem probed_probe (host : Host) (command : Text) :
    host.Probed command (host.probe command).run.value := by
  cases h : host.spawn (command :: host.probeArguments) with
  | unavailable e =>
      have hvalue : (host.probe command).run.value = .ok false := by simp [probe, h, Except.map]
      exact hvalue ▸ .unusable (.unavailable h)
  | refused reason =>
      have hvalue : (host.probe command).run.value = .error (.refused reason) := by simp [probe, h]
      exact hvalue ▸ .refused h
  | exited code stdout stderr =>
      by_cases hcode : code = 0
      · subst hcode
        have hvalue : (host.probe command).run.value = .ok true := by simp [probe, h, Except.map]
        exact hvalue ▸ .usable ⟨stdout, stderr, h⟩
      · have hvalue : (host.probe command).run.value = .ok false := by
          simp [probe, h, hcode, Except.map]
        exact hvalue ▸ .unusable (.failed h hcode)

theorem calls_probe (host : Host) (command : Text) :
    (host.probe command).run.calls = [host.probing command] := by
  simp only [probe, Attempt.run_lift_bind, Traced.calls_bind, Traced.calls_log, Traced.calls_call,
    List.nil_append]
  split
  · simp [probing]
  · simp [probing]
  · split <;> simp [probing]

end Host

inductive Searches (host : Host) (names : List Text) :
    Except Halt (Option Text) → List (List Text) → Prop where
  | found {before after : List Text} {command : Text} (place : names = before ++ command :: after)
      (unusable : ∀ b ∈ before, host.Unusable b) (usable : host.Usable command) :
      Searches host names (.ok (some command)) ((before ++ [command]).map host.probing)
  | missed (unusable : ∀ b ∈ names, host.Unusable b) :
      Searches host names (.ok none) (names.map host.probing)
  | refused {before after : List Text} {name reason : Text} (place : names = before ++ name :: after)
      (unusable : ∀ b ∈ before, host.Unusable b)
      (refused : host.spawn (host.probing name) = .refused reason) :
      Searches host names (.error (.refused reason)) ((before ++ [name]).map host.probing)

theorem Searches.cons {names : List Text} {found : Except Halt (Option Text)}
    {calls : List (List Text)} (h : Searches host names found calls) {c : Text}
    (hc : host.Unusable c) : Searches host (c :: names) found (host.probing c :: calls) := by
  cases h with
  | found place unusable usable =>
      exact .found (congrArg (c :: ·) place) (List.forall_mem_cons.mpr ⟨hc, unusable⟩) usable
  | missed unusable => exact .missed (List.forall_mem_cons.mpr ⟨hc, unusable⟩)
  | refused place unusable refused =>
      exact .refused (congrArg (c :: ·) place) (List.forall_mem_cons.mpr ⟨hc, unusable⟩) refused

theorem searches_locate (host : Host) (names : List Text) :
    Searches host names (locate host names).run.value (locate host names).run.calls := by
  induction names with
  | nil => exact .missed (List.forall_mem_nil _)
  | cons c cs ih =>
      have place : c :: cs = [] ++ c :: cs := rfl
      have hprobed := host.probed_probe c
      generalize hvalue : (host.probe c).run.value = probed at hprobed
      rw [locate, Attempt.value_bind, hvalue]
      cases hprobed with
      | usable h =>
          rw [Attempt.calls_bind_of_ok hvalue, host.calls_probe]
          exact .found place (List.forall_mem_nil _) h
      | unusable h =>
          rw [Attempt.calls_bind_of_ok hvalue, host.calls_probe]
          exact ih.cons h
      | refused h =>
          rw [Attempt.calls_bind_of_error hvalue, host.calls_probe]
          exact .refused place (List.forall_mem_nil _) h

theorem exists_searches (host : Host) (extra : List Text) :
    ∃ found calls, Searches host (candidates extra) found calls ∧
      (findSymbolizer host extra).run.calls = calls ∧
      (findSymbolizer host extra).run.value = found.bind fun found? =>
        match found? with
        | some command => .ok command
        | none => .error (.failure (.locate (candidates extra))) := by
  refine ⟨_, _, searches_locate host (candidates extra), ?_, ?_⟩
  · apply Attempt.calls_bind_of_quiet
    intro found
    cases found <;> rfl
  · rw [findSymbolizer, Attempt.value_bind]
    congr 1
    funext found
    cases found <;> rfl

theorem value_findSymbolizer_eq_failure_iff {extra : List Text} {failure : Failure} :
    (findSymbolizer host extra).run.value = .error (.failure failure) ↔
      (∀ b ∈ candidates extra, host.Unusable b) ∧ failure = .locate (candidates extra) := by
  obtain ⟨found, calls, hsearch, -, hvalue⟩ := exists_searches host extra
  rw [hvalue]
  cases hsearch with
  | found place unusable usable =>
      constructor
      · intro h
        cases h
      · rintro ⟨hnone, -⟩
        have hcommand := hnone _ (place ▸ List.mem_append_right _ (List.mem_cons_self ..))
        exact absurd usable (Host.unusable_iff.mp hcommand).1
  | missed unusable =>
      constructor
      · intro h
        exact ⟨unusable, (Halt.failure.inj (Except.error.inj h)).symm⟩
      · rintro ⟨-, rfl⟩
        rfl
  | refused place unusable refused =>
      constructor
      · intro h
        cases h
      · rintro ⟨hnone, -⟩
        have hname := hnone _ (place ▸ List.mem_append_right _ (List.mem_cons_self ..))
        exact absurd refused ((Host.unusable_iff.mp hname).2 _)

theorem exists_refused_probe {extra : List Text} {reason : Text}
    (h : (findSymbolizer host extra).run.value = .error (.refused reason)) :
    ∃ argv ∈ (findSymbolizer host extra).run.calls, host.spawn argv = .refused reason := by
  obtain ⟨found, calls, hsearch, hcalls, hvalue⟩ := exists_searches host extra
  rw [hvalue] at h
  rw [hcalls]
  cases hsearch with
  | found place unusable usable => cases h
  | missed unusable => cases h
  | @refused before _ name _ place unusable refused =>
      obtain rfl := Halt.refused.inj (Except.error.inj h)
      exact ⟨host.probing name, by simp, refused⟩

end Symbolication
