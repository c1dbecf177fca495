import Mathlib.Data.List.TakeWhile
import Callees.Proofs.Utf8
import Callees.Uri

namespace Callees.Uri

theorem hexValue?_hexDigit (n : Nat) : Text.hexValue? (hexDigit n) = some (n % 16) := by
  have hall : ∀ k < 16, Text.hexValue? (Nat.digitChar k).toUpper = some k := by decide
  exact hall (n % 16) (Nat.mod_lt n (by decide))

theorem forall_byte {P : UInt8 → Prop} (h : ∀ n < 256, P (UInt8.ofNat n)) (b : UInt8) : P b := by
  have hb := h b.toNat b.toNat_lt
  rwa [UInt8.ofNat_toNat] at hb

theorem isPlain_ascii {b : UInt8} : isPlain b = true →
    Char.ofNat b.toNat ≠ '%' ∧ (Char.ofNat b.toNat).toNat < 0x80 ∧
      UInt8.ofNat (Char.ofNat b.toNat).toNat = b :=
  forall_byte (P := fun b => isPlain b = true → Char.ofNat b.toNat ≠ '%' ∧
    (Char.ofNat b.toNat).toNat < 0x80 ∧ UInt8.ofNat (Char.ofNat b.toNat).toNat = b) (by decide +kernel) b

theorem unescapeFrom_plain {held : List UInt8} {c : Char} {cs : List Char} (hc : c ≠ '%')
    (hlow : c.toNat < 0x80) :
    unescapeFrom held (c :: cs) = unescapeFrom (UInt8.ofNat c.toNat :: held) cs := by
  rw [unescapeFrom.eq_def]
  simp [hc, hlow]

theorem unescapeFrom_byte (held : List UInt8) (b : UInt8) (cs : List Char) :
    unescapeFrom held (escapeByte b ++ cs) = unescapeFrom (b :: held) cs := by
  rw [escapeByte]
  split
  · next hplain =>
    obtain ⟨hpercent, hlow, hback⟩ := isPlain_ascii hplain
    rw [List.singleton_append, unescapeFrom_plain hpercent hlow, hback]
  · have hb := b.toNat_lt
    have hback : UInt8.ofNat (16 * (b.toNat / 16 % 16) + b.toNat % 16) = b := by
      rw [show 16 * (b.toNat / 16 % 16) + b.toNat % 16 = b.toNat by omega, UInt8.ofNat_toNat]
    simp only [List.cons_append, List.nil_append]
    rw [unescapeFrom.eq_def]
    simp only [hexValue?_hexDigit, hback]

theorem unescapeFrom_escaped (held bytes : List UInt8) :
    unescapeFrom held (bytes.flatMap escapeByte) = Text.decode (held.reverse ++ bytes) := by
  induction bytes generalizing held with
  | nil => rw [List.flatMap_nil, unescapeFrom, List.append_nil]
  | cons b bytes ih =>
    rw [List.flatMap_cons, unescapeFrom_byte, ih, List.reverse_cons, List.append_assoc, List.singleton_append]

theorem unescape_escape (cs : List Char) : unescape (escape cs) = cs := by
  rw [unescape, escape, unescapeFrom_escaped]
  exact Text.decode_encode cs

/-- A character that neither ends a path in an address nor is passed over. -/
def Inert (c : Char) : Prop := 0x20 < c.toNat ∧ c ≠ '?' ∧ c ≠ '#'

instance (c : Char) : Decidable (Inert c) := inferInstanceAs (Decidable (_ ∧ _))

theorem escape_inert (cs : List Char) : ∀ c ∈ escape cs, Inert c := by
  intro c hc
  obtain ⟨b, -, hc⟩ := List.mem_flatMap.mp hc
  have hall := forall_byte (P := fun b => (escapeByte b).all (Inert ·) = true) (by decide +kernel) b
  exact of_decide_eq_true (List.all_eq_true.mp hall c hc)

theorem clean_inert {cs : List Char} (h : ∀ c ∈ cs, Inert c) : clean cs = cs := by
  have hdrop : cs.dropWhile (·.toNat ≤ 0x20) = cs := by
    cases cs with
    | nil => rfl
    | cons c cs =>
      have hc := (h c List.mem_cons_self).1
      rw [List.dropWhile_cons_of_neg (by simpa using hc)]
  rw [clean, hdrop, List.filter_eq_self]
  intro c hc
  have hne {e : Char} (he : e.toNat ≤ 0x20) : c ≠ e := by
    rintro rfl
    exact absurd (h c hc).1 (Nat.not_lt.mpr he)
  simp [hne (e := '\t') (by decide), hne (e := '\n') (by decide), hne (e := '\r') (by decide)]

theorem pathPart_inert {cs : List Char} (h : ∀ c ∈ cs, Inert c) : pathPart cs = cs := by
  have hfragment : cs.takeWhile (· != '#') = cs :=
    List.takeWhile_eq_self_iff.mpr fun c hc => bne_iff_ne.mpr (h c hc).2.2
  have hquery : cs.takeWhile (· != '?') = cs :=
    List.takeWhile_eq_self_iff.mpr fun c hc => bne_iff_ne.mpr (h c hc).2.1
  rw [pathPart, hfragment, hquery]

theorem splitScheme_file (cs : List Char) : splitScheme ("file:".toList ++ cs) = ("file", cs) := rfl

theorem afterAuthority_empty (cs : List Char) :
    afterAuthority ('/' :: '/' :: '/' :: cs) = .ok ('/' :: cs) := rfl

/-- An absolute path in an address is read as it is spelt. -/
theorem toPath_escaped {text : List Char} (h : text.head? = some '/') :
    toPath ("file://" ++ String.ofList (escape text)) = .ok (Path.ofString (String.ofList text)) := by
  obtain ⟨rest, rfl⟩ := List.head?_eq_some_iff.mp h
  have hslash : escape ('/' :: rest) = '/' :: escape rest := rfl
  have hinert : ∀ c ∈ '/' :: escape rest, Inert c := hslash ▸ escape_inert ('/' :: rest)
  have hall : clean ("file://" ++ String.ofList (escape ('/' :: rest))).toList =
      "file:".toList ++ '/' :: '/' :: '/' :: escape rest := by
    rw [hslash, String.toList_append, String.toList_ofList (l := '/' :: escape rest)]
    have hlead : ∀ c ∈ "file://".toList, Inert c := fun c hc =>
      of_decide_eq_true (List.all_eq_true.mp (show "file://".toList.all (Inert ·) = true by decide) c hc)
    exact clean_inert (List.forall_mem_append.mpr ⟨hlead, hinert⟩)
  rw [toPath, hall, splitScheme_file]
  simp only [afterAuthority_empty, bind, Except.bind]
  rw [if_neg (by decide), if_pos trivial, pathPart_inert hinert, ← hslash, unescape_escape]

end Callees.Uri
