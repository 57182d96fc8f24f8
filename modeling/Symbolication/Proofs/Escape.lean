import Symbolication.Proofs.Utf8

namespace Symbolication.Utf8

theorem val_ofNat {n : Nat} (h : n.isValidChar) : (Char.ofNat n).val.toNat = n := by
  rw [Char.ofNat, dif_pos h]
  rfl

theorem byte_eq {b : UInt8} {k : Nat} (h : k = b.toNat) : UInt8.ofNat k = b := by
  rw [h, UInt8.ofNat_toNat]

theorem utf8EncodeChar_one {a : UInt8} (ha : width a = 1) :
    String.utf8EncodeChar (Char.ofNat a.toNat) = [a] := by
  have ha := width_eq_one_iff.mp ha
  rw [String.utf8EncodeChar, val_ofNat (.inl (by omega)), if_pos (by omega), byte_eq rfl]

theorem utf8EncodeChar_two {a b : UInt8} (ha : width a = 2) (hb : isSecond a b) :
    String.utf8EncodeChar (Char.ofNat (a.toNat % 32 * 64 + b.toNat % 64)) = [a, b] := by
  have ha := width_eq_two_iff.mp ha
  have hb := isSecond_iff.mp hb
  rw [String.utf8EncodeChar, val_ofNat (.inl (by omega)), if_neg (by omega), if_pos (by omega),
    byte_eq (b := a) (by omega), byte_eq (b := b) (by omega)]

theorem utf8EncodeChar_three {a b c : UInt8} (ha : width a = 3) (hb : isSecond a b)
    (hc : isTail c) :
    String.utf8EncodeChar (Char.ofNat
      (a.toNat % 16 * 4096 + b.toNat % 64 * 64 + c.toNat % 64)) = [a, b, c] := by
  have ha := width_eq_three_iff.mp ha
  have hb := isSecond_iff.mp hb
  have hc := isTail_iff.mp hc
  -- The second byte keeps the number out of the surrogates and above two bytes.
  have hvalid : (a.toNat % 16 * 4096 + b.toNat % 64 * 64 + c.toNat % 64).isValidChar := by
    rw [Nat.isValidChar]
    omega
  rw [String.utf8EncodeChar, val_ofNat hvalid, if_neg (by omega), if_neg (by omega),
    if_pos (by omega), byte_eq (b := a) (by omega), byte_eq (b := b) (by omega),
    byte_eq (b := c) (by omega)]

theorem utf8EncodeChar_four {a b c d : UInt8} (ha : width a = 4) (hb : isSecond a b)
    (hc : isTail c) (hd : isTail d) :
    String.utf8EncodeChar (Char.ofNat (a.toNat % 8 * 262144 + b.toNat % 64 * 4096 +
      c.toNat % 64 * 64 + d.toNat % 64)) = [a, b, c, d] := by
  have ha := width_eq_four_iff.mp ha
  have hb := isSecond_iff.mp hb
  have hc := isTail_iff.mp hc
  have hd := isTail_iff.mp hd
  rw [String.utf8EncodeChar, val_ofNat (.inr (by omega)), if_neg (by omega), if_neg (by omega),
    if_neg (by omega), byte_eq (b := a) (by omega), byte_eq (b := b) (by omega),
    byte_eq (b := c) (by omega), byte_eq (b := d) (by omega)]

theorem utf8EncodeChar_of_reading {bs : List UInt8} {c : Char} (h : reading bs = .whole c) :
    String.utf8EncodeChar c = bs := by
  unfold reading at h
  split at h
  case h_1 a =>
    split at h
    · cases h
    · next ha =>
        cases h
        exact utf8EncodeChar_one ha
    · cases h
  case h_2 a b =>
    split at h
    · next hb =>
        split at h
        · next ha =>
            cases h
            exact utf8EncodeChar_two ha hb
        · cases h
        · cases h
        · cases h
    · cases h
  case h_3 a b c =>
    split at h
    · next hbc =>
        obtain ⟨hb, hc⟩ := Bool.and_eq_true_iff.mp hbc
        split at h
        · next ha =>
            cases h
            exact utf8EncodeChar_three ha hb hc
        · cases h
        · cases h
    · cases h
  case h_4 a b c d =>
    split at h
    · next habcd =>
        simp only [Bool.and_eq_true, decide_eq_true_eq] at habcd
        obtain ⟨⟨⟨ha, hb⟩, hc⟩, hd⟩ := habcd
        cases h
        exact utf8EncodeChar_four ha hb hc hd
    · cases h
  case h_5 => cases h

def Segment.bytes : Segment → List UInt8
  | .whole c => String.utf8EncodeChar c
  | .broken bs => bs

theorem bytes_start (b : UInt8) : (start b).1.flatMap Segment.bytes ++ (start b).2 = [b] := by
  unfold start
  split
  · next c h => simpa [Segment.bytes] using utf8EncodeChar_of_reading h
  · rfl
  · rfl

theorem bytes_step (pending : List UInt8) (b : UInt8) :
    (step pending b).1.flatMap Segment.bytes ++ (step pending b).2 = pending ++ [b] := by
  unfold step
  split
  · next h =>
      rw [h]
      exact bytes_start b
  · split
    · next c h => simpa [Segment.bytes] using utf8EncodeChar_of_reading h
    · rfl
    · rw [List.flatMap_cons, List.append_assoc, bytes_start]
      rfl

theorem bytes_resume (pending bs : List UInt8) :
    (resume pending bs).flatMap Segment.bytes = pending ++ bs := by
  induction bs generalizing pending with
  | nil =>
      rw [resume_nil, flush]
      split
      · next h => rw [h]; rfl
      · simp [Segment.bytes]
  | cons b bs ih =>
      rw [resume_cons, List.flatMap_append, ih, ← List.append_assoc, bytes_step, List.append_assoc]
      rfl

def High (bs : List UInt8) : Prop := ∀ b ∈ bs, 0x80 ≤ b.toNat

theorem reading_singleton {b : UInt8} (h : b.toNat < 0x80) :
    reading [b] = .whole (Char.ofNat b.toNat) := by
  simp [reading, width_eq_one_iff.mpr h]

theorem reading_append_singleton {pending : List UInt8} {b : UInt8} (hp : pending ≠ [])
    (h : b.toNat < 0x80) : reading (pending ++ [b]) = .broken := by
  have htail : isTail b = false := by grind [isTail_iff]
  have hsecond (a : UInt8) : isSecond a b = false := by grind [isSecond_iff]
  match pending with
  | [a] => simp [reading, hsecond]
  | [a, a'] => simp [reading, htail]
  | [a, a', a''] => simp [reading, htail]
  | _ :: _ :: _ :: _ :: _ => simp [reading]

theorem high_singleton_of_reading {b : UInt8} (h : ∀ c, reading [b] ≠ .whole c) : High [b] := by
  rw [High, List.forall_mem_singleton]
  exact Nat.le_of_not_lt fun hb => h _ (reading_singleton hb)

theorem high_start (b : UInt8) :
    High (start b).2 ∧ ∀ bs, .broken bs ∈ (start b).1 → High bs := by
  unfold start
  split
  · simp [High]
  · next h => exact ⟨high_singleton_of_reading (by simp [h]), by simp⟩
  · next h =>
      have hb := high_singleton_of_reading (b := b) (by simp [h])
      exact ⟨List.forall_mem_nil _, by simpa using hb⟩

theorem high_step {pending : List UInt8} (hp : High pending) (b : UInt8) :
    High (step pending b).2 ∧ ∀ bs, .broken bs ∈ (step pending b).1 → High bs := by
  unfold step
  split
  · exact high_start b
  · next hne =>
      split
      · simp [High]
      · next h =>
          have hb : 0x80 ≤ b.toNat := by
            apply Nat.le_of_not_lt
            intro hb
            rw [reading_append_singleton hne hb] at h
            cases h
          exact ⟨List.forall_mem_append.mpr ⟨hp, List.forall_mem_singleton.mpr hb⟩, by simp⟩
      · obtain ⟨hwaiting, hended⟩ := high_start b
        refine ⟨hwaiting, ?_⟩
        intro bs hbs
        rcases List.mem_cons.mp hbs with hbs | hbs
        · cases hbs
          exact hp
        · exact hended bs hbs

theorem high_of_mem_resume {pending bs bs' : List UInt8} (hp : High pending)
    (h : .broken bs' ∈ resume pending bs) : High bs' := by
  induction bs generalizing pending with
  | nil =>
      rw [resume_nil, flush] at h
      split at h
      · cases h
      · obtain rfl : bs' = pending := by simpa using h
        exact hp
  | cons b bs ih =>
      obtain ⟨hwaiting, hended⟩ := high_step hp b
      rw [resume_cons] at h
      rcases List.mem_append.mp h with h | h
      · exact hended bs' h
      · exact ih hwaiting h

theorem encodeGlyph_stray {b : UInt8} (h : 0x80 ≤ b.toNat) : encodeGlyph (stray b) = [b] := by
  have hlt : b.toNat < 256 := b.toNat_lt
  have hb : 128 + b.toNat % 128 = b.toNat := by omega
  rw [stray, encodeGlyph]
  simp only [hb, UInt8.ofNat_toNat]

theorem encode_map_stray {bs : List UInt8} (h : High bs) : encode (bs.map stray) = bs := by
  induction bs with
  | nil => rfl
  | cons b bs ih =>
      obtain ⟨hb, hbs⟩ := List.forall_mem_cons.mp h
      rw [List.map_cons, encode, List.flatMap_cons, encodeGlyph_stray hb]
      exact congrArg (b :: ·) (ih hbs)

theorem encode_escaped {ss : List Segment} (h : ∀ bs, .broken bs ∈ ss → High bs) :
    encode (ss.flatMap Segment.escaped) = ss.flatMap Segment.bytes := by
  induction ss with
  | nil => rfl
  | cons s ss ih =>
      have hs : encode s.escaped = s.bytes := by
        cases s with
        | whole c => exact List.append_nil _
        | broken bs => exact encode_map_stray (h bs (List.mem_cons_self ..))
      rw [List.flatMap_cons, encode_append, hs, ih fun bs hbs => h bs (List.mem_cons_of_mem _ hbs),
        List.flatMap_cons]

theorem encode_decode (bs : List UInt8) : encode (decode bs) = bs := by
  rw [decode, segments, encode_escaped fun bs' h => high_of_mem_resume (List.forall_mem_nil _) h]
  exact bytes_resume [] bs

def encodeCode? (n : Nat) : Option (List UInt8) :=
  if n.isValidChar then some (String.utf8EncodeChar (Char.ofNat n))
  else if 0xDC80 ≤ n ∧ n ≤ 0xDCFF then some [UInt8.ofNat (n - 0xDC00)]
  else none

def encodeCodes? (codes : List Nat) : Option (List UInt8) :=
  (codes.mapM encodeCode?).map List.flatten

theorem encodeCode?_code (g : Glyph) : encodeCode? g.code = some (encodeGlyph g) := by
  cases g with
  | char c =>
      have hc : c.toNat.isValidChar := c.valid
      rw [encodeCode?, Glyph.code, if_pos hc, Char.ofNat_toNat]
      rfl
  | stray low =>
      have hlow := low.isLt
      have hbyte : 0xDC80 + low.val - 0xDC00 = 128 + low.val := by omega
      rw [encodeCode?, Glyph.code, if_neg (by rw [Nat.isValidChar]; omega), if_pos (by omega), hbyte]
      rfl

theorem encodeCodes?_code (t : Text) : encodeCodes? (t.map Glyph.code) = some (encode t) := by
  have hcodes : (t.map Glyph.code).mapM encodeCode? = some (t.map encodeGlyph) := by
    induction t with
    | nil => rfl
    | cons g t ih => simp [List.mapM_cons, encodeCode?_code, ih]
  rw [encodeCodes?, hcodes]
  rw [Option.map_some, encode, List.flatMap_def]

end Symbolication.Utf8
