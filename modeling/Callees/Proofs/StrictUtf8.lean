import Callees.Proofs.WrittenLines

namespace Callees.Text

variable {a b c d : UInt8}

/-- The second bytes that `mayFollow` admits, by the numbers. -/
theorem follow_bounds (h : mayFollow a b = true) :
    (0x80 ≤ b.toNat ∧ b.toNat < 0xC0) ∧ (a.toNat = 0xE0 → 0xA0 ≤ b.toNat) ∧
      (a.toNat = 0xED → b.toNat < 0xA0) ∧ (a.toNat = 0xF0 → 0x90 ≤ b.toNat) ∧
      (a.toNat = 0xF4 → b.toNat < 0x90) := by
  simp only [mayFollow, Bool.and_eq_true, Bool.not_eq_true', Bool.and_eq_false_iff,
    beq_eq_false_iff_ne, decide_eq_false_iff_not, UInt8.le_iff_toNat_le, UInt8.lt_iff_toNat_lt, Ne,
    ← UInt8.toNat_inj, UInt8.reduceToNat, isContinuation_iff] at h
  omega

theorem lead_bounds (h : ¬ (decide (a < 0xC2) || decide (0xF5 ≤ a)) = true) :
    0xC2 ≤ a.toNat ∧ a.toNat < 0xF5 := by
  simp only [UInt8.le_iff_toNat_le, UInt8.lt_iff_toNat_lt, Bool.or_eq_true, decide_eq_true_iff,
    UInt8.reduceToNat] at h
  omega

theorem val_ofNat {n : Nat} (h : n < 0xD800 ∨ 0xDFFF < n ∧ n < 0x110000) :
    (Char.ofNat n).val.toNat = n := by
  rw [Char.ofNat, dif_pos h]
  rfl

theorem ofNat_eq {n : Nat} (h : n = a.toNat) : UInt8.ofNat n = a := by
  rw [h, UInt8.ofNat_toNat]

theorem encodeChar_one (ha : a.toNat < 0x80) : String.utf8EncodeChar (Char.ofNat a.toNat) = [a] := by
  rw [String.utf8EncodeChar, val_ofNat (by omega), if_pos (by omega), ofNat_eq rfl]

theorem encodeChar_two (ha : 0xC2 ≤ a.toNat ∧ a.toNat < 0xE0) (hb : isContinuation b = true) :
    String.utf8EncodeChar (Char.ofNat (a.toNat % 32 * 64 + low b)) = [a, b] := by
  have hb := isContinuation_iff.mp hb
  rw [low, String.utf8EncodeChar, val_ofNat (by omega), if_neg (by omega), if_pos (by omega),
    ofNat_eq (a := a) (by omega), ofNat_eq (a := b) (by omega)]

theorem encodeChar_three (ha : 0xE0 ≤ a.toNat ∧ a.toNat < 0xF0) (hb : mayFollow a b = true)
    (hc : isContinuation c = true) :
    String.utf8EncodeChar (Char.ofNat ((a.toNat % 16 * 64 + low b) * 64 + low c)) = [a, b, c] := by
  have hb := follow_bounds hb
  have hc := isContinuation_iff.mp hc
  rw [low, low, String.utf8EncodeChar, val_ofNat (by omega), if_neg (by omega), if_neg (by omega),
    if_pos (by omega), ofNat_eq (a := a) (by omega), ofNat_eq (a := b) (by omega),
    ofNat_eq (a := c) (by omega)]

theorem encodeChar_four (ha : 0xF0 ≤ a.toNat ∧ a.toNat < 0xF5) (hb : mayFollow a b = true)
    (hc : isContinuation c = true) (hd : isContinuation d = true) :
    String.utf8EncodeChar (Char.ofNat (((a.toNat % 8 * 64 + low b) * 64 + low c) * 64 + low d)) =
      [a, b, c, d] := by
  have hb := follow_bounds hb
  have hc := isContinuation_iff.mp hc
  have hd := isContinuation_iff.mp hd
  rw [low, low, low, String.utf8EncodeChar, val_ofNat (by omega), if_neg (by omega),
    if_neg (by omega), if_neg (by omega), ofNat_eq (a := a) (by omega), ofNat_eq (a := b) (by omega),
    ofNat_eq (a := c) (by omega), ofNat_eq (a := d) (by omega)]

/-- Pieces in the order of the bytes that they are made of. -/
inductive Spelled : List Piece → List UInt8 → Prop
  | nil : Spelled [] []
  | char {ps bytes} (c : Char) (h : Spelled ps bytes) :
    Spelled (.char c (String.utf8EncodeChar c).length :: ps) (String.utf8EncodeChar c ++ bytes)
  | broken {ps bytes} (b : Broken) (h : Spelled ps bytes) : Spelled (.broken b :: ps) (b.bytes ++ bytes)

theorem Spelled.char_of {ps : List Piece} {bytes : List UInt8} {c : Char} {w : List UInt8}
    (hc : String.utf8EncodeChar c = w) (h : Spelled ps bytes) :
    Spelled (.char c w.length :: ps) (w ++ bytes) := by
  rw [← hc]
  exact h.char c

/-- No byte is lost between the pieces. -/
theorem pieces_spelled (bytes : List UInt8) : Spelled (pieces bytes) bytes := by
  fun_induction pieces bytes with
  | case1 => exact .nil
  | case2 a r ha ih => exact ih.char_of (encodeChar_one (UInt8.lt_iff_toNat_lt.mp ha))
  | case3 | case5 | case8 | case11 =>
    next ih => exact ih.broken _
  | case4 | case7 | case10 => exact Spelled.nil.broken _
  | case6 a _ hlead b r hb hwidth ih =>
    have hbounds := lead_bounds hlead
    rw [Bool.not_eq_true, Bool.not_eq_false'] at hb
    rw [UInt8.lt_iff_toNat_lt] at hwidth
    exact ih.char_of (encodeChar_two ⟨hbounds.1, hwidth⟩ (isContinuation_iff.mpr (follow_bounds hb).1))
  | case9 a _ hlead b hb hwidth c r hc hwidth' ih =>
    have hbounds := lead_bounds hlead
    rw [Bool.not_eq_true, Bool.not_eq_false'] at hb hc
    rw [UInt8.lt_iff_toNat_lt, Nat.not_lt] at hwidth
    rw [UInt8.lt_iff_toNat_lt] at hwidth'
    exact ih.char_of (encodeChar_three ⟨hwidth, hwidth'⟩ hb hc)
  | case12 a _ hlead b hb _ c hc hwidth d r hd ih =>
    have hbounds := lead_bounds hlead
    rw [Bool.not_eq_true, Bool.not_eq_false'] at hb hc hd
    rw [UInt8.lt_iff_toNat_lt, Nat.not_lt] at hwidth
    exact ih.char_of (encodeChar_four ⟨hwidth, hbounds.2⟩ hb hc hd)

theorem Spelled.whole {ps : List Piece} {bytes : List UInt8} {o : Nat} (h : Spelled ps bytes)
    (hwhole : firstBroken o ps = none) : bytes = encode (ps.map Piece.shown) := by
  induction h generalizing o with
  | nil => rfl
  | char c _ ih =>
    rw [List.map_cons, Piece.shown, encode_cons, ← ih hwhole]
  | broken => cases hwhole

/-- Characters stand before the first fault, and the offset is their size. -/
theorem Spelled.before_fault {ps : List Piece} {bytes : List UInt8} {o offset : Nat} {b : Broken}
    (h : Spelled ps bytes) (hbroken : firstBroken o ps = some (offset, b)) :
    ∃ cs rest, bytes = encode cs ++ (b.bytes ++ rest) ∧ offset = o + (encode cs).length := by
  induction h generalizing o with
  | nil => cases hbroken
  | char c _ ih =>
    obtain ⟨cs, rest, rfl, rfl⟩ := ih hbroken
    refine ⟨c :: cs, rest, ?_, ?_⟩
    · rw [encode_cons, List.append_assoc]
    · rw [encode_cons, List.length_append, Nat.add_assoc]
  | @broken _ bytes b =>
    cases hbroken
    exact ⟨[], bytes, rfl, rfl⟩

/-- Bytes are read strictly exactly if they are those of characters, and as these characters. -/
theorem decodeStrict_eq_ok {bytes : List UInt8} {cs : List Char} :
    decodeStrict bytes = .ok cs ↔ bytes = encode cs := by
  constructor
  · intro h
    rw [decodeStrict] at h
    split at h
    · cases h
    · next hwhole =>
      cases h
      exact (pieces_spelled bytes).whole hwhole
  · intro h
    rw [h, decodeStrict_encode]

theorem decodeStrict_error {bytes : List UInt8} {offset : Nat} {b : Broken}
    (h : decodeStrict bytes = .error (offset, b)) :
    ∃ cs rest, bytes = encode cs ++ (b.bytes ++ rest) ∧ offset = (encode cs).length := by
  rw [decodeStrict] at h
  split at h
  · next hbroken =>
    cases h
    obtain ⟨cs, rest, hbytes, hoffset⟩ := (pieces_spelled bytes).before_fault hbroken
    exact ⟨cs, rest, hbytes, hoffset.trans (Nat.zero_add _)⟩
  · cases h

end Callees.Text
