import Symbolication.Text

namespace Symbolication

section Lists

variable {α : Type}

def cutWhile (p : α → Bool) (s : List α) : List α × List α := (s.takeWhile p, s.dropWhile p)

theorem head?_dropWhile {p : α → Bool} {s : List α} : ∀ x ∈ (s.dropWhile p).head?, p x = false := by
  induction s with
  | nil => simp
  | cons a s ih =>
      cases h : p a with
      | false => simp [h]
      | true => simpa [h] using ih

theorem cutWhile_eq_iff {p : α → Bool} {s a b : List α} :
    cutWhile p s = (a, b) ↔ s = a ++ b ∧ (∀ x ∈ a, p x) ∧ ∀ x ∈ b.head?, p x = false := by
  constructor
  · intro h
    obtain ⟨rfl, rfl⟩ := Prod.mk.inj h
    exact ⟨List.takeWhile_append_dropWhile.symm, List.all_eq_true.mp List.all_takeWhile, head?_dropWhile⟩
  · rintro ⟨rfl, ha, hb⟩
    rw [cutWhile, List.takeWhile_append_of_pos ha, List.dropWhile_append_of_pos ha]
    cases b with
    | nil => simp
    | cons x b => simp [hb x rfl]

variable [DecidableEq α]

def stripPrefix? : List α → List α → Option (List α)
  | [], s => some s
  | _ :: _, [] => none
  | a :: p, b :: s => if a = b then stripPrefix? p s else none

theorem stripPrefix?_eq_some_iff {p s r : List α} : stripPrefix? p s = some r ↔ s = p ++ r := by
  induction p generalizing s with
  | nil => simp [stripPrefix?]
  | cons a p ih =>
      cases s with
      | nil => simp [stripPrefix?]
      | cons b s => by_cases h : a = b <;> simp [stripPrefix?, h, ih, eq_comm]

end Lists

variable {σ : Type} [DecidableEq σ] [Alphabet σ]

def isHexDigit (s : σ) : Bool := s ∈ (spell "0123456789abcdefABCDEF" : List σ)

theorem isHexDigit_letter {c : Char} (hc : c.toNat < 128) :
    isHexDigit (Alphabet.letter c : σ) = decide (c ∈ "0123456789abcdefABCDEF".toList) := by
  have ascii : ∀ d ∈ "0123456789abcdefABCDEF".toList, d.toNat < 128 := by
    have h : "0123456789abcdefABCDEF".toList.all (·.toNat < 128) = true := rfl
    simpa only [List.all_eq_true, decide_eq_true_eq] using h
  simp only [isHexDigit, spell, List.mem_map, decide_eq_decide]
  exact ⟨fun ⟨d, hd, h⟩ => Alphabet.letter_inj (ascii d hd) hc h ▸ hd, fun h => ⟨c, h, rfl⟩⟩

structure Marker (σ : Type) where
  offset : List σ
  module : List σ
  deriving DecidableEq, Repr

namespace Marker

def spelling (m : Marker σ) : List σ :=
  spell "[+" ++ m.offset ++ spell "](" ++ m.module ++ spell ")"

def isOpen (s : σ) : Bool := s ≠ Alphabet.letter ')'

def readModule? (offset s : List σ) : Option (Marker σ × List σ) :=
  match s.dropWhile isOpen with
  | [] => none
  | _ :: rest =>
      match s.takeWhile isOpen with
      | [] => none
      | name => some (⟨offset, name⟩, rest)

def read? (s : List σ) : Option (Marker σ × List σ) :=
  (stripPrefix? (spell "[+0x") s).bind fun s =>
    match cutWhile isHexDigit s with
    | (a :: digits, s) => (stripPrefix? (spell "](") s).bind (readModule? (spell "0x" ++ a :: digits))
    | _ => none

structure Valid (m : Marker σ) : Prop where
  offset : ∃ digits, digits ≠ [] ∧ (∀ d ∈ digits, isHexDigit d) ∧ m.offset = spell "0x" ++ digits
  module_ne_nil : m.module ≠ []
  module_open : Alphabet.letter ')' ∉ m.module

theorem isOpen_iff {s : σ} : isOpen s ↔ s ≠ Alphabet.letter ')' := by simp [isOpen]

theorem readModule?_eq_some_iff {o s : List σ} {m : Marker σ} {r : List σ} :
    readModule? o s = some (m, r) ↔
      m.offset = o ∧ m.module ≠ [] ∧ Alphabet.letter ')' ∉ m.module ∧
        s = m.module ++ Alphabet.letter ')' :: r := by
  obtain ⟨offset, name⟩ := m
  unfold readModule?
  constructor
  · intro h
    obtain ⟨hs, hn, hc⟩ := cutWhile_eq_iff.mp (rfl : cutWhile isOpen s = (_, _))
    split at h
    · cases h
    · rename_i b rest hrest
      have hb : b = Alphabet.letter ')' := by simpa [hrest, isOpen] using hc
      split at h
      · cases h
      · rename_i name' hname
        simp only [Option.some.injEq, Prod.mk.injEq, Marker.mk.injEq] at h
        obtain ⟨⟨rfl, rfl⟩, rfl⟩ := h
        rw [hrest, hb] at hs
        exact ⟨rfl, hname, fun hm => isOpen_iff.mp (hn _ hm) rfl, hs⟩
  · rintro ⟨rfl, hne, hmem, rfl⟩
    have hs : cutWhile isOpen (name ++ Alphabet.letter ')' :: r) =
        (name, Alphabet.letter ')' :: r) :=
      cutWhile_eq_iff.mpr
        ⟨rfl, fun x hx => isOpen_iff.mpr (ne_of_mem_of_not_mem hx hmem), by simp [isOpen]⟩
    obtain ⟨ht, hd⟩ := Prod.mk.inj hs
    rw [hd, ht]
    cases name with
    | nil => exact absurd rfl hne
    | cons a name => rfl

theorem read?_eq_some_iff {s : List σ} {m : Marker σ} {r : List σ} :
    read? s = some (m, r) ↔ m.Valid ∧ s = m.spelling ++ r := by
  obtain ⟨offset, name⟩ := m
  unfold read?
  constructor
  · intro h
    obtain ⟨t, ht, hr⟩ := Option.bind_eq_some_iff.mp h
    obtain rfl := stripPrefix?_eq_some_iff.mp ht
    split at hr
    · rename_i a digits u hs
      obtain ⟨rfl, hd, -⟩ := cutWhile_eq_iff.mp hs
      obtain ⟨v, hv, hm⟩ := Option.bind_eq_some_iff.mp hr
      obtain rfl := stripPrefix?_eq_some_iff.mp hv
      obtain ⟨rfl, hne, hmem, rfl⟩ := readModule?_eq_some_iff.mp hm
      exact ⟨⟨⟨_, by simp, hd, rfl⟩, hne, hmem⟩, by simp [spelling, spell]⟩
    · cases hr
  · rintro ⟨⟨⟨digits, hne, hd, rfl⟩, hname, hmem⟩, rfl⟩
    refine Option.bind_eq_some_iff.mpr ⟨digits ++ (spell "](" ++ name ++ spell ")" ++ r), ?_, ?_⟩
    · rw [stripPrefix?_eq_some_iff]
      simp [spelling, spell]
    · have hs : cutWhile isHexDigit (digits ++ (spell "](" ++ name ++ spell ")" ++ r)) =
          (digits, spell "](" ++ name ++ spell ")" ++ r) :=
        cutWhile_eq_iff.mpr ⟨rfl, hd, by
          simpa [spell] using isHexDigit_letter (σ := σ) (c := ']') (by decide)⟩
      rw [hs]
      cases digits with
      | nil => exact absurd rfl hne
      | cons a digits =>
          refine Option.bind_eq_some_iff.mpr ⟨name ++ Alphabet.letter ')' :: r, ?_, ?_⟩
          · rw [stripPrefix?_eq_some_iff]
            simp [spell]
          · exact readModule?_eq_some_iff.mpr ⟨rfl, hname, hmem, rfl⟩

end Marker

end Symbolication
