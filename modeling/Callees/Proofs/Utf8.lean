import Callees.Text.Utf8

namespace Callees.Text

variable {a b c d : UInt8} (rest : List UInt8)

theorem isContinuation_iff : isContinuation b = true ↔ 0x80 ≤ b.toNat ∧ b.toNat < 0xC0 := by
  simp [isContinuation, UInt8.le_iff_toNat_le, UInt8.lt_iff_toNat_lt]

/-- What `mayFollow` leaves out, by the numbers. -/
theorem mayFollow_of (hb : 0x80 ≤ b.toNat ∧ b.toNat < 0xC0)
    (h1 : a.toNat = 0xE0 → 0xA0 ≤ b.toNat) (h2 : a.toNat = 0xED → b.toNat < 0xA0)
    (h3 : a.toNat = 0xF0 → 0x90 ≤ b.toNat) (h4 : a.toNat = 0xF4 → b.toNat < 0x90) :
    mayFollow a b = true := by
  simp only [mayFollow, isContinuation_iff.mpr hb, Bool.true_and, Bool.and_eq_true,
    Bool.not_eq_true', Bool.and_eq_false_iff, beq_eq_false_iff_ne, decide_eq_false_iff_not,
    UInt8.le_iff_toNat_le, UInt8.lt_iff_toNat_lt, Ne, ← UInt8.toNat_inj, UInt8.reduceToNat]
  omega

theorem pieces_one (ha : a.toNat < 0x80) :
    pieces (a :: rest) = .char (Char.ofNat a.toNat) 1 :: pieces rest := by
  have h : a < 0x80 := UInt8.lt_iff_toNat_lt.mpr ha
  rw [pieces.eq_def]
  simp only [h, ↓reduceIte]

/-- The first byte of a longer character. -/
theorem lead_of (ha : 0xC2 ≤ a.toNat ∧ a.toNat < 0xF5) :
    ¬ a < 0x80 ∧ (decide (a < 0xC2) || decide (0xF5 ≤ a)) = false := by
  simp only [UInt8.le_iff_toNat_le, UInt8.lt_iff_toNat_lt, Bool.or_eq_false_iff,
    decide_eq_false_iff_not, UInt8.reduceToNat]
  omega

theorem pieces_two (ha : 0xC2 ≤ a.toNat ∧ a.toNat < 0xE0) (hb : isContinuation b = true) :
    pieces (a :: b :: rest) =
      .char (Char.ofNat (a.toNat % 32 * 64 + low b)) 2 :: pieces rest := by
  obtain ⟨h1, h2⟩ := lead_of (a := a) (by omega)
  have h3 : mayFollow a b = true :=
    mayFollow_of (isContinuation_iff.mp hb) (by omega) (by omega) (by omega) (by omega)
  have h4 : a < 0xE0 := UInt8.lt_iff_toNat_lt.mpr ha.2
  rw [pieces.eq_def]
  simp only [h1, h2, h3, h4, Bool.not_true, Bool.false_eq_true, ↓reduceIte]

theorem pieces_three (ha : 0xE0 ≤ a.toNat ∧ a.toNat < 0xF0) (hb : mayFollow a b = true)
    (hc : isContinuation c = true) : pieces (a :: b :: c :: rest) =
      .char (Char.ofNat ((a.toNat % 16 * 64 + low b) * 64 + low c)) 3 :: pieces rest := by
  obtain ⟨h1, h2⟩ := lead_of (a := a) (by omega)
  have h3 : ¬ a < 0xE0 := fun h => Nat.not_lt.mpr ha.1 (UInt8.lt_iff_toNat_lt.mp h)
  have h4 : a < 0xF0 := UInt8.lt_iff_toNat_lt.mpr ha.2
  rw [pieces.eq_def]
  simp only [h1, h2, hb, hc, h3, h4, Bool.not_true, Bool.false_eq_true, ↓reduceIte]

theorem pieces_four (ha : 0xF0 ≤ a.toNat ∧ a.toNat < 0xF5) (hb : mayFollow a b = true)
    (hc : isContinuation c = true) (hd : isContinuation d = true) :
    pieces (a :: b :: c :: d :: rest) =
      .char (Char.ofNat (((a.toNat % 8 * 64 + low b) * 64 + low c) * 64 + low d)) 4 ::
        pieces rest := by
  obtain ⟨h1, h2⟩ := lead_of (a := a) (by omega)
  have h3 : ¬ a < 0xE0 := fun h =>
    Nat.not_lt.mpr (Nat.le_trans (by decide) ha.1) (UInt8.lt_iff_toNat_lt.mp h)
  have h4 : ¬ a < 0xF0 := fun h => Nat.not_lt.mpr ha.1 (UInt8.lt_iff_toNat_lt.mp h)
  rw [pieces.eq_def]
  simp only [h1, h2, hb, hc, hd, h3, h4, Bool.not_true, Bool.false_eq_true, ↓reduceIte]

/-- Whatever the first bytes are, they make a piece. -/
theorem pieces_pos (a : UInt8) : 0 < (pieces (a :: rest)).length := by
  rw [pieces.eq_def]
  simp only
  repeat' split
  all_goals exact Nat.zero_lt_succ _

/-- More bytes may complete a piece that was cut short, but they take none back. -/
theorem pieces_length_le_append (u v : List UInt8) :
    (pieces u).length ≤ (pieces (u ++ v)).length := by
  fun_induction pieces u with
  | case1 => exact Nat.zero_le _
  | case4 | case7 | case10 => exact pieces_pos _ _
  | _ =>
    simp only [List.cons_append] at *
    conv => rhs; rw [pieces.eq_def]
    simp only [*, ↓reduceIte, List.length_cons, Bool.false_eq_true, Nat.add_le_add_iff_right]

theorem toNat_ofNat {n : Nat} (h : n < 256) : (UInt8.ofNat n).toNat = n := UInt8.toNat_ofNat_of_lt' h

theorem toNat_tail (n : Nat) : (UInt8.ofNat (n % 64 + 128)).toNat = n % 64 + 128 :=
  toNat_ofNat (by omega)

theorem tail_continues (n : Nat) : isContinuation (UInt8.ofNat (n % 64 + 128)) = true := by
  rw [isContinuation_iff, toNat_tail]
  omega

theorem low_tail (n : Nat) : low (UInt8.ofNat (n % 64 + 128)) = n % 64 := by
  rw [low, toNat_tail]
  omega

/-- A character is read back from its bytes, whatever follows them. -/
theorem pieces_encodeChar (c : Char) :
    ∃ width, pieces (String.utf8EncodeChar c ++ rest) = .char c width :: pieces rest := by
  have hc : Char.ofNat c.val.toNat = c := Char.ofNat_toNat c
  have hv : c.val.toNat < 55296 ∨ 57343 < c.val.toNat ∧ c.val.toNat < 1114112 := c.valid
  rw [String.utf8EncodeChar]
  generalize c.val.toNat = v at hc hv
  split
  · have ha : (UInt8.ofNat v).toNat = v := toNat_ofNat (by omega)
    exact ⟨1, by rw [List.singleton_append, pieces_one rest (by omega), ha, hc]⟩
  split
  · have ha : (UInt8.ofNat (v / 64 % 32 + 192)).toNat = v / 64 % 32 + 192 := toNat_ofNat (by omega)
    have hsum : (v / 64 % 32 + 192) % 32 * 64 + v % 64 = v := by omega
    refine ⟨2, ?_⟩
    rw [List.cons_append, List.singleton_append, pieces_two rest (by omega) (tail_continues v),
      low_tail, ha, hsum, hc]
  split
  · have ha : (UInt8.ofNat (v / 4096 % 16 + 224)).toNat = v / 4096 % 16 + 224 :=
      toNat_ofNat (by omega)
    have hb := toNat_tail (v / 64)
    have hfollow := mayFollow_of (a := UInt8.ofNat (v / 4096 % 16 + 224))
      (b := UInt8.ofNat (v / 64 % 64 + 128)) (by omega) (by omega) (by omega) (by omega) (by omega)
    have hsum : ((v / 4096 % 16 + 224) % 16 * 64 + v / 64 % 64) * 64 + v % 64 = v := by omega
    refine ⟨3, ?_⟩
    simp only [List.cons_append, List.nil_append]
    rw [pieces_three rest (by omega) hfollow (tail_continues v), low_tail, low_tail, ha, hsum, hc]
  · have ha : (UInt8.ofNat (v / 262144 % 8 + 240)).toNat = v / 262144 % 8 + 240 :=
      toNat_ofNat (by omega)
    have hb := toNat_tail (v / 4096)
    have hfollow := mayFollow_of (a := UInt8.ofNat (v / 262144 % 8 + 240))
      (b := UInt8.ofNat (v / 4096 % 64 + 128)) (by omega) (by omega) (by omega) (by omega) (by omega)
    have hsum : (((v / 262144 % 8 + 240) % 8 * 64 + v / 4096 % 64) * 64 + v / 64 % 64) * 64 +
        v % 64 = v := by omega
    refine ⟨4, ?_⟩
    simp only [List.cons_append, List.nil_append]
    rw [pieces_four rest (by omega) hfollow (tail_continues (v / 64)) (tail_continues v), low_tail,
      low_tail, low_tail, ha, hsum, hc]

theorem encode_append (cs cs' : List Char) : encode (cs ++ cs') = encode cs ++ encode cs' :=
  List.flatMap_append

theorem encode_cons (c : Char) (cs : List Char) : encode (c :: cs) = String.utf8EncodeChar c ++ encode cs :=
  List.flatMap_cons

theorem decode_encode_append (cs : List Char) (bytes : List UInt8) :
    decode (encode cs ++ bytes) = cs ++ decode bytes := by
  induction cs with
  | nil => rfl
  | cons c cs ih =>
    obtain ⟨width, h⟩ := pieces_encodeChar (encode cs ++ bytes) c
    rw [encode_cons, List.append_assoc, decode, h]
    exact congrArg (c :: ·) ih

theorem decode_encode (cs : List Char) : decode (encode cs) = cs := by
  have h := decode_encode_append cs []
  rwa [List.append_nil, show decode [] = [] from rfl, List.append_nil] at h

/-- Longer characters are made of high bytes alone. -/
theorem encodeChar_high {c : Char} (hc : 127 < c.val.toNat) :
    ∀ b ∈ String.utf8EncodeChar c, 128 ≤ b.toNat := by
  have hof (n : Nat) (h : n < 256) (h' : 128 ≤ n) : 128 ≤ (UInt8.ofNat n).toNat := by
    rwa [toNat_ofNat h]
  rw [String.utf8EncodeChar, if_neg (Nat.not_le.mpr hc)]
  split
  · simp only [List.forall_mem_cons]
    exact ⟨hof _ (by omega) (by omega), hof _ (by omega) (by omega), nofun⟩
  · split
    · simp only [List.forall_mem_cons]
      exact ⟨hof _ (by omega) (by omega), hof _ (by omega) (by omega), hof _ (by omega) (by omega),
        nofun⟩
    · simp only [List.forall_mem_cons]
      exact ⟨hof _ (by omega) (by omega), hof _ (by omega) (by omega), hof _ (by omega) (by omega),
        hof _ (by omega) (by omega), nofun⟩

theorem encodeChar_feed : String.utf8EncodeChar '\n' = [10] := by decide

/-- The byte of a line feed is in no other character. -/
theorem feed_not_mem_encodeChar {c : Char} (hc : c ≠ '\n') : 10 ∉ String.utf8EncodeChar c := by
  intro h
  by_cases hhigh : 127 < c.val.toNat
  · exact absurd (encodeChar_high hhigh 10 h) (by decide)
  · rw [String.utf8EncodeChar, if_pos (Nat.le_of_not_lt hhigh), List.mem_singleton] at h
    have hv := congrArg UInt8.toNat h
    rw [toNat_ofNat (by omega)] at hv
    exact hc (Char.toNat_inj.mp hv.symm)

end Callees.Text
