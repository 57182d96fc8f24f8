import Mathlib.Data.List.Basic
import Symbolication.Path

namespace Symbolication

theorem of_mem_splitOn {α : Type} [DecidableEq α] {a : α} {as p : List α}
    (h : p ∈ as.splitOn a) : a ∉ p ∧ ∀ b ∈ p, b ∈ as := by
  induction as generalizing p with
  | nil =>
      rw [List.splitOn_nil, List.mem_singleton] at h
      rw [h]
      exact ⟨List.not_mem_nil, List.forall_mem_nil _⟩
  | cons b as ih =>
      have hmore {q : List α} (hq : ∀ c ∈ q, c ∈ as) : ∀ c ∈ q, c ∈ b :: as :=
        fun c hc => List.mem_cons_of_mem b (hq c hc)
      rw [List.splitOn_cons_eq_if_modifyHead] at h
      split at h
      · rcases List.mem_cons.mp h with rfl | h
        · exact ⟨List.not_mem_nil, List.forall_mem_nil _⟩
        · exact ⟨(ih h).1, hmore (ih h).2⟩
      · next hb =>
          obtain ⟨q, qs, hqs⟩ := List.exists_cons_of_ne_nil (List.splitOn_ne_nil a as)
          rw [hqs, List.modifyHead_cons] at h
          rw [hqs] at ih
          rcases List.mem_cons.mp h with rfl | h
          · obtain ⟨hq, hsub⟩ := ih (List.mem_cons_self ..)
            have hne : a ≠ b := fun hab => hb (beq_iff_eq.mpr hab.symm)
            exact ⟨List.not_mem_cons_of_ne_of_not_mem hne hq,
              List.forall_mem_cons.mpr ⟨List.mem_cons_self .., hmore hsub⟩⟩
          · obtain ⟨hp, hsub⟩ := ih (List.mem_cons_of_mem _ h)
            exact ⟨hp, hmore hsub⟩

namespace Path

def rootOf (t : Text) : Text :=
  match (t.takeWhile (· = slash)).length with
  | 0 => []
  | 2 => [slash, slash]
  | _ => [slash]

def componentsOf (t : Text) : List Text :=
  (t.splitOn slash).filter fun piece => piece ≠ [] ∧ piece ≠ spell "."

def written (root : Text) (components : List Text) : Text :=
  if root = [] ∧ components = [] then spell "." else root ++ [slash].intercalate components

section Pieces

theorem splitOn_cons_slash (t : Text) : (slash :: t).splitOn slash = [] :: t.splitOn slash := by
  simp [List.splitOn_cons_eq_if_modifyHead]

theorem splitOn_cons {g : Glyph} (h : g ≠ slash) (t : Text) :
    (g :: t).splitOn slash = (t.splitOn slash).modifyHead (g :: ·) := by
  simp [List.splitOn_cons_eq_if_modifyHead, h]

theorem exists_splitOn (t : Text) : ∃ p ps, t.splitOn slash = p :: ps :=
  List.exists_cons_of_ne_nil (List.splitOn_ne_nil slash t)

theorem splitOn_append {s t p : Text} {ps : List Text} (h : slash ∉ s)
    (ht : t.splitOn slash = p :: ps) : (s ++ t).splitOn slash = (s ++ p) :: ps := by
  induction s with
  | nil => exact ht
  | cons g s ih =>
      obtain ⟨hg, hs⟩ := not_or.mp (mt List.mem_cons.mpr h)
      rw [List.cons_append, splitOn_cons (Ne.symm hg), ih hs]
      rfl

theorem pieces_eq_splitOn (t : Text) : pieces t = t.splitOn slash := by
  induction t with
  | nil => rfl
  | cons g t ih =>
      by_cases hg : g = slash
      · rw [hg, splitOn_cons_slash, pieces, if_pos rfl, ih]
      · obtain ⟨p, ps, hp⟩ := exists_splitOn t
        rw [splitOn_cons hg, pieces, if_neg hg, ih, hp]
        rfl

theorem components_ofText (t : Text) : (ofText t).components = componentsOf t := by
  rw [ofText, componentsOf, pieces_eq_splitOn]
  refine List.filter_congr fun p _ => ?_
  rw [isComponent, Bool.decide_and]
  rfl

theorem componentsOf_cons_slash (t : Text) : componentsOf (slash :: t) = componentsOf t := by
  rw [componentsOf, splitOn_cons_slash, List.filter_cons_of_neg (by simp)]
  rfl

end Pieces

section Roots

theorem takeWhile_slash {t : Text} (h : t.head? ≠ some slash) : t.takeWhile (· = slash) = [] := by
  cases t with
  | nil => rfl
  | cons g t =>
      have hg : g ≠ slash := fun hg => h (congrArg some hg)
      simp [hg]

theorem head?_ne_slash {t : Text} (h : ∀ u, t = slash :: u → False) : t.head? ≠ some slash := by
  intro hhead
  obtain ⟨u, hu⟩ := List.head?_eq_some_iff.mp hhead
  exact h u hu

theorem rootOf_append (r : Root) {s : Text} (h : s.head? ≠ some slash) :
    rootOf (rootText r ++ s) = rootText r := by
  cases r <;> simp [rootOf, rootText, takeWhile_slash h]

theorem rootText_readRoot (t : Text) : rootText (readRoot t) = rootOf t := by
  -- One case for each number of slashes in front, three or more of them first.
  unfold readRoot
  split
  · simp [rootOf, rootText, slash]
  · next u h => exact (rootOf_append .double (head?_ne_slash h)).symm
  · next u _ h => exact (rootOf_append .single (head?_ne_slash h)).symm
  · next h => exact (rootOf_append .relative (head?_ne_slash h)).symm

theorem rootText_inj {r r' : Root} (h : rootText r = rootText r') : r = r' := by
  cases r <;> cases r' <;> first | rfl | simp [rootText] at h

theorem readRoot_append (r : Root) {s : Text} (h : s.head? ≠ some slash) :
    readRoot (rootText r ++ s) = r :=
  rootText_inj ((rootText_readRoot _).trans (rootOf_append r h))

theorem readRoot_eq_relative_iff {t : Text} : readRoot t = .relative ↔ t.head? ≠ some slash := by
  constructor
  · intro h
    unfold readRoot at h
    split at h
    · cases h
    · cases h
    · cases h
    · next hslash => exact head?_ne_slash hslash
  · exact readRoot_append .relative

end Roots

section Normal

def Normal (components : List Text) : Prop :=
  ∀ c ∈ components, c ≠ [] ∧ c ≠ spell "." ∧ slash ∉ c

theorem normal_componentsOf (t : Text) : Normal (componentsOf t) := by
  intro c hc
  obtain ⟨hpiece, hnamed⟩ := List.mem_filter.mp hc
  obtain ⟨hne, hdot⟩ := of_decide_eq_true hnamed
  exact ⟨hne, hdot, (of_mem_splitOn hpiece).1⟩

theorem mem_of_mem_componentsOf {t c : Text} (hc : c ∈ componentsOf t) : ∀ g ∈ c, g ∈ t :=
  (of_mem_splitOn (List.mem_filter.mp hc).1).2

theorem Normal.append {cs ds : List Text} (hc : Normal cs) (hd : Normal ds) : Normal (cs ++ ds) :=
  List.forall_mem_append.mpr ⟨hc, hd⟩

theorem Normal.componentsOf_intercalate {cs : List Text} (h : Normal cs) :
    componentsOf ([slash].intercalate cs) = cs := by
  cases cs with
  | nil => rfl
  | cons c cs =>
      have hslash : ∀ d ∈ c :: cs, slash ∉ d := fun d hd => (h d hd).2.2
      rw [componentsOf, List.splitOn_intercalate slash hslash (List.cons_ne_nil _ _)]
      exact List.filter_eq_self.mpr fun d hd => decide_eq_true ⟨(h d hd).1, (h d hd).2.1⟩

theorem Normal.head?_intercalate {cs : List Text} (h : Normal cs) :
    ([slash].intercalate cs).head? ≠ some slash := by
  cases cs with
  | nil => simp
  | cons c cs =>
      obtain ⟨hne, -, hslash⟩ := h c (List.mem_cons_self ..)
      obtain ⟨g, c, rfl⟩ := List.exists_cons_of_ne_nil hne
      have hg : g ≠ slash := (List.ne_of_not_mem_cons hslash).symm
      cases cs <;> simpa [List.intercalate] using hg

theorem toText_eq (p : Path) : p.toText = written (rootText p.root) p.components := by
  obtain ⟨root, components⟩ := p
  cases root <;> cases components <;> rfl

theorem written_of_ne {root : Text} {cs : List Text} (h : ¬(root = [] ∧ cs = [])) :
    written root cs = root ++ [slash].intercalate cs := if_neg h

theorem componentsOf_rootText_append (r : Root) (t : Text) :
    componentsOf (rootText r ++ t) = componentsOf t := by
  cases r with
  | relative => rfl
  | single => exact componentsOf_cons_slash t
  | double => exact (componentsOf_cons_slash _).trans (componentsOf_cons_slash t)

theorem rootOf_toText {p : Path} (h : Normal p.components) : rootOf p.toText = rootText p.root := by
  rw [toText_eq]
  by_cases hempty : rootText p.root = [] ∧ p.components = []
  · rw [written, if_pos hempty, hempty.1]
    rfl
  · rw [written_of_ne hempty, rootOf_append p.root h.head?_intercalate]

theorem componentsOf_toText {p : Path} (h : Normal p.components) :
    componentsOf p.toText = p.components := by
  rw [toText_eq]
  by_cases hempty : rootText p.root = [] ∧ p.components = []
  · rw [written, if_pos hempty, hempty.2]
    rfl
  · rw [written_of_ne hempty, componentsOf_rootText_append, h.componentsOf_intercalate]

theorem ofText_toText {p : Path} (h : Normal p.components) : ofText p.toText = p := by
  have hroot : (ofText p.toText).root = p.root :=
    rootText_inj ((rootText_readRoot _).trans (rootOf_toText h))
  have hcomponents : (ofText p.toText).components = p.components :=
    (components_ofText _).trans (componentsOf_toText h)
  exact congrArg₂ Path.mk hroot hcomponents

theorem toText_ofText (t : Text) : (ofText t).toText = written (rootOf t) (componentsOf t) := by
  rw [toText_eq, components_ofText, ← rootText_readRoot]
  rfl

theorem normal_ofText (t : Text) : Normal (ofText t).components := by
  rw [components_ofText]
  exact normal_componentsOf t

end Normal

end Path

namespace Artifact

open Symbolication.Path

variable {module suffix : Text}

theorem path_of_relative (h : (module ++ suffix).head? ≠ some slash) (directory : Path) :
    path directory module suffix =
      ⟨directory.root, directory.components ++ componentsOf (module ++ suffix)⟩ := by
  have hroot : (ofText (module ++ suffix)).root = .relative := readRoot_eq_relative_iff.mpr h
  rw [path, join, hroot, components_ofText]

theorem path_of_absolute (h : (module ++ suffix).head? = some slash) (directory : Path) :
    path directory module suffix = ofText (module ++ suffix) := by
  rw [path, join]
  split
  · next hroot => exact absurd h (readRoot_eq_relative_iff.mp hroot)
  · rfl

theorem normal_path {directory : Path} (h : Normal directory.components) (module suffix : Text) :
    Normal (path directory module suffix).components := by
  by_cases hhead : (module ++ suffix).head? = some slash
  · rw [path_of_absolute hhead]
    exact normal_ofText _
  · rw [path_of_relative hhead]
    exact h.append (normal_componentsOf _)

theorem mem_components_path {directory : Path} {c : Text}
    (h : c ∈ (path directory module suffix).components) :
    c ∈ directory.components ∨ c ∈ componentsOf (module ++ suffix) := by
  by_cases hhead : (module ++ suffix).head? = some slash
  · rw [path_of_absolute hhead, components_ofText] at h
    exact .inr h
  · rw [path_of_relative hhead] at h
    exact List.mem_append.mp h

section Names

variable {name other : Text}

theorem head?_append_ne_slash (hne : name ≠ []) (hslash : slash ∉ name) (suffix : Text) :
    (name ++ suffix).head? ≠ some slash := by
  obtain ⟨g, name, rfl⟩ := List.exists_cons_of_ne_nil hne
  simpa using (List.ne_of_not_mem_cons hslash).symm

theorem componentsOf_append (hne : name ≠ []) (hslash : slash ∉ name) {p : Text} {ps : List Text}
    (hs : suffix.splitOn slash = p :: ps) :
    componentsOf (name ++ suffix) = (if name ++ p = spell "." then [] else [name ++ p]) ++
      ps.filter fun piece => piece ≠ [] ∧ piece ≠ spell "." := by
  rw [componentsOf, splitOn_append hslash hs]
  by_cases hdot : name ++ p = spell "." <;> simp [hdot, hne]

theorem componentsOf_append_inj (hname : name ≠ []) (hother : other ≠ []) (hslash : slash ∉ name)
    (hslash' : slash ∉ other) (h : componentsOf (name ++ suffix) = componentsOf (other ++ suffix)) :
    name = other := by
  obtain ⟨p, ps, hs⟩ := exists_splitOn suffix
  rw [componentsOf_append hname hslash hs, componentsOf_append hother hslash' hs,
    List.append_left_inj] at h
  -- Only a dot is dropped, and two names that a suffix makes a dot are equal.
  split at h <;> split at h
  · next hdot hdot' => exact List.append_cancel_right (hdot.trans hdot'.symm)
  · cases h
  · cases h
  · exact List.append_cancel_right (List.cons.inj h).1

theorem eq_of_toText_path (hname : name ≠ []) (hother : other ≠ []) (hslash : slash ∉ name)
    (hslash' : slash ∉ other) {directory : Path} (hnormal : Normal directory.components)
    (h : (path directory name suffix).toText = (path directory other suffix).toText) :
    name = other := by
  have hpath := congrArg ofText h
  rw [ofText_toText (normal_path hnormal _ _), ofText_toText (normal_path hnormal _ _),
    path_of_relative (head?_append_ne_slash hname hslash suffix),
    path_of_relative (head?_append_ne_slash hother hslash' suffix)] at hpath
  have hcomponents := List.append_cancel_left (Path.mk.inj hpath).2
  exact componentsOf_append_inj hname hother hslash hslash' hcomponents

end Names

structure Located (directory module suffix : Text) : Prop where
  of_relative : (module ++ suffix).head? ≠ some slash →
    (path (ofText directory) module suffix).toText =
      written (rootOf directory) (componentsOf directory ++ componentsOf (module ++ suffix))
  read_relative : (module ++ suffix).head? ≠ some slash →
    rootOf (path (ofText directory) module suffix).toText = rootOf directory ∧
    componentsOf (path (ofText directory) module suffix).toText =
      componentsOf directory ++ componentsOf (module ++ suffix)
  of_absolute : (module ++ suffix).head? = some slash → ∀ elsewhere : Path,
    (path elsewhere module suffix).toText = (ofText (module ++ suffix)).toText ∧
    (path elsewhere module suffix).toText =
      written (rootOf (module ++ suffix)) (componentsOf (module ++ suffix))
  stable : ofText (path (ofText directory) module suffix).toText =
    path (ofText directory) module suffix
  stable_text : ∀ t : Text, ofText (ofText t).toText = ofText t
  apart : ∀ other : Text, module ≠ [] → other ≠ [] → slash ∉ module → slash ∉ other →
    module ≠ other → (path (ofText directory) module suffix).toText ≠
      (path (ofText directory) other suffix).toText

theorem path_located (directory module suffix : Text) : Located directory module suffix := by
  have hnormal : Normal (path (ofText directory) module suffix).components :=
    normal_path (normal_ofText directory) module suffix
  constructor
  case of_relative =>
    intro h
    rw [path_of_relative h, toText_eq, components_ofText, ← rootText_readRoot directory]
    rfl
  case read_relative =>
    intro h
    rw [rootOf_toText hnormal, componentsOf_toText hnormal, path_of_relative h, components_ofText]
    exact ⟨rootText_readRoot directory, rfl⟩
  case of_absolute =>
    intro h elsewhere
    rw [path_of_absolute h]
    exact ⟨rfl, toText_ofText _⟩
  case stable => exact ofText_toText hnormal
  case stable_text => exact fun t => ofText_toText (normal_ofText t)
  case apart =>
    intro other hmodule hother hslash hslash' hne h
    exact hne (eq_of_toText_path hmodule hother hslash hslash' (normal_ofText directory) h)

example : (path (ofText (spell "//a/./b/")) (spell ".") (spell "./c//../d")).toText =
    spell "//a/b/../c/../d" := by decide

end Artifact

theorem occursIn_iff {pattern t : Text} : occursIn pattern t ↔ pattern <:+: t := by
  induction t with
  | nil => rw [occursIn, List.isPrefixOf_iff_prefix, List.prefix_nil, List.infix_nil]
  | cons g t ih =>
      rw [occursIn, Bool.or_eq_true, List.isPrefixOf_iff_prefix, ih, List.infix_cons_iff]

theorem any_occursIn_iff {p q t : Text} :
    [p, q].any (occursIn · t) ↔ p <:+: t ∨ q <:+: t := by
  rw [List.any_cons, List.any_cons, List.any_nil, Bool.or_false, Bool.or_eq_true, occursIn_iff,
    occursIn_iff]

namespace Artifact

inductive Suits (report : Text) : Option Text → Text → Prop where
  | given (suffix : Text) : Suits report (some suffix) suffix
  | windows (hint : spell ".exe" <:+: report ∨ spell ".dll" <:+: report) :
      Suits report none (spell ".pdb")
  | apple (elsewhere : ¬(spell ".exe" <:+: report ∨ spell ".dll" <:+: report))
      (hint : spell ".dylib" <:+: report ∨ spell " Framework" <:+: report) :
      Suits report none (spell ".dSYM")
  | other (elsewhere : ¬(spell ".exe" <:+: report ∨ spell ".dll" <:+: report))
      (unmarked : ¬(spell ".dylib" <:+: report ∨ spell " Framework" <:+: report)) :
      Suits report none (spell ".debug")

theorem suits_suffix (override : Option Text) (report : Text) :
    Suits report override (suffix override report) := by
  cases override with
  | some suffix => exact .given suffix
  | none =>
      rw [suffix, Option.getD_none, Platform.ofText]
      by_cases hwindows : Platform.windowsHints.any (occursIn · report)
      · rw [if_pos hwindows]
        exact .windows (any_occursIn_iff.mp hwindows)
      · rw [if_neg hwindows]
        have elsewhere := mt any_occursIn_iff.mpr hwindows
        by_cases happle : Platform.appleHints.any (occursIn · report)
        · rw [if_pos happle]
          exact .apple elsewhere (any_occursIn_iff.mp happle)
        · rw [if_neg happle]
          exact .other elsewhere (mt any_occursIn_iff.mpr happle)

end Artifact

end Symbolication
