import Symbolication.Text.Quoted

namespace Symbolication

def Printable (t : Text) : Prop := ∀ g ∈ t, isPrintable g

theorem Printable.notMem {t : Text} (h : Printable t) {g : Glyph} (hg : ¬isPrintable g) : g ∉ t :=
  fun hmem => hg (h g hmem)

theorem Printable.append {s t : Text} (hs : Printable s) (ht : Printable t) : Printable (s ++ t) :=
  List.forall_mem_append.mpr ⟨hs, ht⟩

theorem isPrintable_char {c : Char} (h : 0x20 ≤ c.toNat) (h' : c.toNat < 0x7F) :
    isPrintable (.char c) := by
  have hranges : unprintable.all (fun r => r.2 < 0x20 || 0x7F ≤ r.1) = true := by decide +kernel
  rw [isPrintable, Bool.not_eq_true', within, List.any_eq_false]
  intro r hr
  have hr := List.all_eq_true.mp hranges r hr
  simp only [Bool.or_eq_true, decide_eq_true_eq] at hr
  simp only [Bool.and_eq_true, decide_eq_true_eq]
  change ¬(r.1 ≤ c.toNat ∧ c.toNat ≤ r.2)
  omega

theorem printable_spell {s : String}
    (hs : s.toList.all fun c => 0x20 ≤ c.toNat && c.toNat < 0x7F) : Printable (spell s) := by
  intro g hg
  obtain ⟨c, hc, rfl⟩ := List.mem_map.mp hg
  have hrange := List.all_eq_true.mp hs c hc
  simp only [Bool.and_eq_true, decide_eq_true_eq] at hrange
  exact isPrintable_char hrange.1 hrange.2

theorem notMem_spell {g : Glyph} (hg : ¬isPrintable g) {s : String}
    (hs : s.toList.all fun c => 0x20 ≤ c.toNat && c.toNat < 0x7F) : g ∉ spell s :=
  (printable_spell hs).notMem hg

theorem isPrintable_digitChar (n : Nat) : isPrintable (.char n.digitChar) := by
  by_cases h : n < 16
  · have hrange : ∀ k < 16, 0x20 ≤ k.digitChar.toNat ∧ k.digitChar.toNat < 0x7F := by decide
    exact isPrintable_char (hrange n h).1 (hrange n h).2
  · have hother : n.digitChar = '*' := by simp (disch := omega) only [Nat.digitChar, if_neg]
    rw [hother]
    exact isPrintable_char (by decide) (by decide)

theorem exists_digitChar_of_mem_toDigits {base n : Nat} {c : Char} (h : c ∈ Nat.toDigits base n) :
    ∃ k, c = Nat.digitChar k := by
  suffices hcore : ∀ fuel n digits, (∀ d ∈ digits, ∃ k, d = Nat.digitChar k) →
      ∀ d ∈ Nat.toDigitsCore base fuel n digits, ∃ k, d = Nat.digitChar k from
    hcore _ _ _ (List.forall_mem_nil _) c h
  intro fuel
  induction fuel with
  | zero => exact fun _ _ hdigits => hdigits
  | succ fuel ih =>
      intro n digits hdigits
      have hmore : ∀ d ∈ (n % base).digitChar :: digits, ∃ k, d = Nat.digitChar k :=
        List.forall_mem_cons.mpr ⟨⟨_, rfl⟩, hdigits⟩
      rw [Nat.toDigitsCore]
      split
      · exact hmore
      · exact ih _ _ hmore

theorem printable_digits (base n : Nat) : Printable ((Nat.toDigits base n).map .char) := by
  intro g hg
  obtain ⟨c, hc, rfl⟩ := List.mem_map.mp hg
  obtain ⟨k, rfl⟩ := exists_digitChar_of_mem_toDigits hc
  exact isPrintable_digitChar k

theorem printable_decimal (n : Nat) : Printable (Text.decimal n) := printable_digits 10 n

theorem printable_integer (n : Int) : Printable (Text.integer n) := by
  cases n with
  | ofNat n => exact printable_decimal n
  | negSucc n =>
      exact List.forall_mem_cons.mpr
        ⟨isPrintable_char (by decide) (by decide), printable_decimal (n + 1)⟩

theorem printable_hex (width n : Nat) : Printable (hex width n) := by
  intro g hg
  rw [hex, List.leftpad, List.map_append, List.map_replicate] at hg
  rcases List.mem_append.mp hg with hg | hg
  · rw [List.eq_of_mem_replicate hg]
    exact isPrintable_char (by decide) (by decide)
  · exact printable_digits 16 n g hg

theorem printable_codeEscape (code : Nat) : Printable (codeEscape code) := by
  unfold codeEscape
  split
  · exact (printable_spell (by decide)).append (printable_hex _ _)
  · split
    · exact (printable_spell (by decide)).append (printable_hex _ _)
    · exact (printable_spell (by decide)).append (printable_hex _ _)

theorem printable_escape {quote : Glyph} (hquote : isPrintable quote) (g : Glyph) :
    Printable (escape quote g) := by
  have hbackslash : isPrintable (.char '\\') := isPrintable_char (by decide) (by decide)
  unfold escape
  split
  · next h =>
      refine List.forall_mem_cons.mpr ⟨hbackslash, List.forall_mem_singleton.mpr ?_⟩
      rcases h with rfl | rfl
      · exact hquote
      · exact hbackslash
  · split
    · exact printable_spell (by decide)
    · split
      · exact printable_spell (by decide)
      · split
        · exact printable_spell (by decide)
        · split
          · next h => exact List.forall_mem_singleton.mpr h
          · exact printable_codeEscape _

theorem isPrintable_quoteFor (t : Text) : isPrintable (quoteFor t) := by
  unfold quoteFor
  split
  · exact isPrintable_char (by decide) (by decide)
  · exact isPrintable_char (by decide) (by decide)

theorem printable_quoted (t : Text) : Printable (quoted t) := by
  have hquote := isPrintable_quoteFor t
  refine Printable.append ?_ (List.forall_mem_singleton.mpr hquote)
  refine List.forall_mem_cons.mpr ⟨hquote, ?_⟩
  intro g hg
  obtain ⟨h, -, hg⟩ := List.mem_flatMap.mp hg
  exact printable_escape hquote h g hg

end Symbolication
