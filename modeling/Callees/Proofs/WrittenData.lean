import Mathlib.Data.List.Basic
import Callees.Data.Json
import Callees.Data.JsonReader
import Callees.Report

namespace Callees.JsonReader

/-- What may stand behind a value where it was written: the end, a break, or what separates or closes. -/
def Ends (rest : List Char) : Prop := ∀ c ∈ rest.head?, c = ',' ∨ c = '\n' ∨ c = ']' ∨ c = '\x7d'

theorem skipSpace_cons {c : Char} (cs : List Char) (h : c ≠ ' ' ∧ c ≠ '\t' ∧ c ≠ '\n' ∧ c ≠ '\r') :
    skipSpace (c :: cs) = c :: cs := by
  simp [skipSpace, h]

theorem skipSpace_newline (indent : Option Nat) (cs : List Char) :
    skipSpace (Json.newline indent ++ cs) = skipSpace cs := by
  cases indent with
  | none => rfl
  | some n =>
    rw [Json.newline, skipSpace, List.dropWhile_append_of_pos, skipSpace]
    intro c hc
    rcases List.mem_cons.mp hc with rfl | hc
    · rfl
    · rw [List.eq_of_mem_replicate hc]
      rfl

theorem value?_skip {n : Nat} {cs cs' : List Char} (h : skipSpace cs = skipSpace cs') :
    value? n cs = value? n cs' := by
  cases n with
  | zero => rw [value?, value?]
  | succ n => rw [value?, value?, h]

theorem hexValue?_hexDigit (n : Nat) : Text.hexValue? (Json.hexDigit n) = some (n % 16) := by
  have hall : ∀ k < 16, Text.hexValue? (Nat.digitChar k) = some k := by decide
  exact hall (n % 16) (Nat.mod_lt n (by decide))

/-- Units this low never begin a pair. -/
theorem codePoint_low {unit : Nat} (h : unit < 0x20) (cs : List Char) :
    codePoint unit cs = (Char.ofNat unit, cs) := by
  unfold codePoint
  rw [if_neg (by omega), if_neg (by omega)]

/-- A character is written with a letter of its own behind a backslash, or by its number, or as it is. -/
inductive Escaped (c : Char) : List Char → Prop
  | letter {e : Char} (own : escaped? e = some c) (plain : e ≠ 'u') : Escaped c ['\\', e]
  | number (low : c.toNat < 0x20) :
      Escaped c ['\\', 'u', '0', '0', Json.hexDigit (c.toNat / 16), Json.hexDigit c.toNat]
  | plain (quote : c ≠ '"') (slash : c ≠ '\\') (high : ¬ c.toNat < 0x20) : Escaped c [c]

theorem escape_escaped (c : Char) : Escaped c (Json.escape c) := by
  unfold Json.escape
  -- seven characters have letters of their own
  iterate 7
    split
    · next h => exact .letter (by rw [h]; rfl) (by decide)
  split
  · next hlow => exact .number hlow
  · next hquote hslash _ _ _ _ _ hhigh => exact .plain hquote hslash hhigh

theorem Escaped.ne_nil {c : Char} {w : List Char} (h : Escaped c w) : 0 < w.length := by
  cases h <;> exact Nat.succ_pos _

theorem Escaped.read {c : Char} {w : List Char} (h : Escaped c w) (n : Nat) (cs : List Char) :
    characters? (n + 1) (w ++ cs) = (characters? n cs).map fun (s, rest) => (c :: s, rest) := by
  rw [characters?.eq_def]
  cases h with
  | @letter e own plain =>
    simp only [List.cons_append, List.nil_append]
    rw [if_neg (by decide), if_pos trivial, own]
  | number low =>
    have hhex : hex4? ('0' :: '0' :: Json.hexDigit (c.toNat / 16) :: Json.hexDigit c.toNat :: cs) =
        some (c.toNat, cs) := by
      have hzero : Text.hexValue? '0' = some 0 := by decide
      rw [hex4?, hzero, hexValue?_hexDigit, hexValue?_hexDigit, Nat.mod_eq_of_lt (by omega)]
      simp only [Option.bind_eq_bind, Option.bind_some, Option.some.injEq, Prod.mk.injEq, and_true]
      omega
    simp only [List.cons_append, List.nil_append]
    rw [if_neg (by decide), if_pos trivial]
    simp only [hhex, codePoint_low low, Char.ofNat_toNat]
  | plain quote slash high =>
    simp only [List.singleton_append]
    rw [if_neg quote, if_neg slash, if_neg high]

theorem length_le_escaped (s : List Char) : s.length ≤ (s.flatMap Json.escape).length := by
  induction s with
  | nil => exact Nat.le_refl 0
  | cons c s ih =>
    have hpos := (escape_escaped c).ne_nil
    rw [List.flatMap_cons, List.length_append, List.length_cons]
    omega

theorem characters?_written (s rest : List Char) {n : Nat} (h : s.length < n) :
    characters? n (s.flatMap Json.escape ++ '"' :: rest) = some (s, rest) := by
  induction s generalizing n with
  | nil =>
    obtain ⟨n, rfl⟩ := Nat.exists_eq_succ_of_ne_zero (Nat.ne_zero_of_lt h)
    rw [List.flatMap_nil, List.nil_append, characters?.eq_def]
    rfl
  | cons c s ih =>
    obtain ⟨n, rfl⟩ := Nat.exists_eq_succ_of_ne_zero (Nat.ne_zero_of_lt h)
    rw [List.flatMap_cons, List.append_assoc, (escape_escaped c).read,
      ih (Nat.lt_of_succ_lt_succ h)]
    rfl

theorem string?_written (s : String) (rest : List Char) :
    string? (s.toList.flatMap Json.escape ++ '"' :: rest) = some (s, rest) := by
  have hlen := length_le_escaped s.toList
  rw [string?, characters?_written s.toList rest (by rw [List.length_append]; omega)]
  simp

theorem Ends.not_digit {rest : List Char} (h : Ends rest) : rest.dropWhile Char.isDigit = rest ∧
    rest.takeWhile Char.isDigit = [] := by
  cases rest with
  | nil => exact ⟨rfl, rfl⟩
  | cons c cs =>
    have hc : c.isDigit = false := by
      rcases h c rfl with rfl | rfl | rfl | rfl <;> rfl
    simp [hc]

theorem digits_written {ds rest : List Char} (hds : ∀ c ∈ ds, c.isDigit = true) (h : Ends rest) :
    digits (ds ++ rest) = (ds, rest) := by
  rw [digits, List.takeWhile_append_of_pos hds, List.dropWhile_append_of_pos hds, h.not_digit.1,
    h.not_digit.2, List.append_nil]

theorem Ends.no_fraction {rest : List Char} (h : Ends rest) : fractionPart? rest = some ([], rest) := by
  rw [fractionPart?.eq_def]
  split
  · have := h '.' rfl
    simp at this
  · rfl

theorem Ends.no_exponent {rest : List Char} (h : Ends rest) :
    exponentPart? rest = some (none, rest) := by
  cases rest with
  | nil => rfl
  | cons e cs =>
    have hne : ¬ (e = 'e' ∨ e = 'E') := by
      rcases h e rfl with rfl | rfl | rfl | rfl <;> decide
    rw [exponentPart?, if_neg hne]

theorem natOf_toDigits (n : Nat) : natOf (Nat.toDigits 10 n) = n := by
  rw [natOf, ← Nat.ofDigitChars_eq_foldl, Nat.ofDigitChars_ten_toDigits]

/-- A number other than zero is written without a leading zero. -/
theorem toDigits_head {n : Nat} (h : n ≠ 0) : (Nat.toDigits 10 n).head? ≠ some '0' := by
  induction n using Nat.strongRecOn with
  | _ n ih =>
    by_cases hn : n < 10
    · have hall : ∀ k < 10, k ≠ 0 → [Nat.digitChar k].head? ≠ some '0' := by decide
      rw [Nat.toDigits_of_lt_base hn]
      exact hall n hn h
    · rw [Nat.toDigits_of_base_le (by decide) (Nat.not_lt.mp hn),
        List.head?_append_of_ne_nil _ Nat.toDigits_ne_nil]
      exact ih (n / 10) (by omega) (by omega)

theorem wholePart?_written (n : Nat) {rest : List Char} (h : Ends rest) :
    wholePart? (Nat.toDigits 10 n ++ rest) = some (Nat.toDigits 10 n, rest) := by
  by_cases hn : n = 0
  · subst hn
    rfl
  · have hhead : (Nat.toDigits 10 n ++ rest).head? ≠ some '0' := by
      rw [List.head?_append_of_ne_nil _ Nat.toDigits_ne_nil]
      exact toDigits_head hn
    rw [wholePart?.eq_def]
    split
    · next hzero => exact absurd (congrArg List.head? hzero) hhead
    · rw [digits?, digits_written (fun _ => Nat.isDigit_of_mem_toDigits (by decide) (by decide)) h]
      simp [Nat.toDigits_ne_nil]

theorem number?_nat (n : Nat) {rest : List Char} (h : Ends rest) :
    number? (Nat.toDigits 10 n ++ rest) = some (.int n, rest) := by
  have hwhole := wholePart?_written n h
  rw [number?.eq_def]
  split
  next negative cs hsign =>
  split at hsign
  · next cs' hminus =>
    obtain ⟨c, ds, hds⟩ := List.exists_cons_of_ne_nil (Nat.toDigits_ne_nil (n := n) (b := 10))
    have hdigit : c.isDigit = true :=
      Nat.isDigit_of_mem_toDigits (n := n) (by decide) (by decide) (hds ▸ List.mem_cons_self)
    rw [hds] at hminus
    rw [(List.cons.inj hminus).1] at hdigit
    cases hdigit
  · cases hsign
    simp [hwhole, h.no_fraction, h.no_exponent, natOf_toDigits]

theorem number?_minus (n : Nat) {rest : List Char} (h : Ends rest) :
    number? ('-' :: Nat.toDigits 10 n ++ rest) = some (.int (-n), rest) := by
  rw [number?.eq_def]
  simp only [List.cons_append, wholePart?_written n h, h.no_fraction, h.no_exponent, Option.bind_eq_bind,
    Option.bind_some, List.isEmpty_nil, Option.isNone_none, and_self, if_true, natOf_toDigits]

/-- A whole number is its digits, or a minus sign and its digits. -/
theorem toString_int (n : Int) : (toString n).toList =
    if 0 ≤ n then Nat.toDigits 10 n.toNat else '-' :: Nat.toDigits 10 (-n).toNat := by
  change n.repr.toList = _
  rw [Int.repr_eq_if]
  split
  · rw [Nat.repr_eq_ofList_toDigits, String.toList_ofList]
  · rw [Nat.repr_eq_ofList_toDigits, String.toList_append, String.toList_ofList, String.toList_ofList]
    rfl

theorem number?_written (n : Int) {rest : List Char} (h : Ends rest) :
    number? ((toString n).toList ++ rest) = some (.int n, rest) := by
  rw [toString_int]
  split
  · next hn => rw [number?_nat _ h, Int.toNat_of_nonneg hn]
  · next hn => rw [number?_minus _ h, Int.toNat_of_nonneg (by omega), Int.neg_neg]

mutual

/-- Whether there is no floating-point number and no moment in the data: other data may have their texts. -/
def plain : Data → Bool
  | .float _ | .moment _ => false
  | .list ds => itemsPlain ds
  | .record fields => fieldsPlain fields
  | _ => true

def itemsPlain : List Data → Bool
  | [] => true
  | d :: ds => plain d && itemsPlain ds

def fieldsPlain : List (String × Data) → Bool
  | [] => true
  | (_, d) :: fields => plain d && fieldsPlain fields

end

/-- Whether a value of plain data can begin with this character. -/
def Begins (c : Char) : Prop :=
  c.isDigit = true ∨ c = '-' ∨ c = '"' ∨ c = '[' ∨ c = '\x7b' ∨ c = 't' ∨ c = 'f' ∨ c = 'n'

instance (c : Char) : Decidable (Begins c) := inferInstanceAs (Decidable (_ ∨ _))

theorem Begins.ne {c e : Char} (h : Begins c) (he : ¬ Begins e) : c ≠ e := by
  rintro rfl
  exact he h

theorem Begins.skipSpace {c : Char} (h : Begins c) (cs : List Char) : skipSpace (c :: cs) = c :: cs := by
  exact skipSpace_cons cs ⟨h.ne (by decide), h.ne (by decide), h.ne (by decide), h.ne (by decide)⟩

theorem toString_int_begins (n : Int) :
    ∃ c cs, (toString n).toList = c :: cs ∧ (c.isDigit = true ∨ c = '-') := by
  rw [toString_int]
  split
  · obtain ⟨c, cs, hcs⟩ := List.exists_cons_of_ne_nil (Nat.toDigits_ne_nil (n := n.toNat) (b := 10))
    refine ⟨c, cs, hcs, .inl ?_⟩
    exact Nat.isDigit_of_mem_toDigits (by decide) (by decide) (hcs ▸ List.mem_cons_self)
  · exact ⟨'-', _, rfl, .inr rfl⟩

theorem write_begins {d : Data} (h : plain d = true) (indent : Option Nat) :
    ∃ c cs, Json.write indent d = c :: cs ∧ Begins c := by
  match d with
  | .null => exact ⟨'n', _, rfl, by decide⟩
  | .bool true => exact ⟨'t', _, rfl, by decide⟩
  | .bool false => exact ⟨'f', _, rfl, by decide⟩
  | .int n =>
    obtain ⟨c, cs, hcs, hc⟩ := toString_int_begins n
    exact ⟨c, cs, hcs, hc.imp_right .inl⟩
  | .text s => exact ⟨'"', _, rfl, by decide⟩
  | .list [] => exact ⟨'[', _, rfl, by decide⟩
  | .list (_ :: _) => exact ⟨'[', _, rfl, by decide⟩
  | .record [] => exact ⟨'\x7b', _, rfl, by decide⟩
  | .record ((_, _) :: _) => exact ⟨'\x7b', _, rfl, by decide⟩

/-- What is written for `d` is read as `d`, at any depth and whatever follows it. -/
def ReadsBack (d : Data) : Prop :=
  ∀ (n : Nat) (indent : Option Nat) (rest : List Char), (Json.write indent d).length ≤ n → Ends rest →
    value? n (Json.write indent d ++ rest) = some (d, rest)

theorem readsBack_of {d : Data} (h : plain d = true) (hread : ∀ (n : Nat) (indent : Option Nat)
    (rest : List Char), (Json.write indent d).length ≤ n + 1 → Ends rest →
      value? (n + 1) (Json.write indent d ++ rest) = some (d, rest)) : ReadsBack d := by
  intro n indent rest hn hends
  obtain ⟨c, cs, hcs, -⟩ := write_begins h indent
  cases n with
  | zero =>
    rw [hcs] at hn
    exact absurd hn (Nat.not_succ_le_zero _)
  | succ n => exact hread n indent rest hn hends

theorem readsBack_int (n : Int) : ReadsBack (.int n) := by
  refine readsBack_of rfl fun k indent rest _ hends => ?_
  obtain ⟨c, cs, hcs, hc⟩ := toString_int_begins n
  have hnum := number?_written n hends
  change value? (k + 1) ((toString n).toList ++ rest) = _
  rw [hcs, List.cons_append] at hnum ⊢
  have hne {e : Char} (he : ¬ (e.isDigit = true ∨ e = '-')) : c ≠ e := by
    rintro rfl
    exact he hc
  have hskip := Begins.skipSpace (hc.imp_right Or.inl) (cs ++ rest)
  rw [value?, hskip]
  split
  case h_7 => exact hnum
  all_goals next h => exact absurd (List.cons.inj h).1 (hne (by decide))

theorem readsBack_text (s : String) : ReadsBack (.text s) := by
  refine readsBack_of rfl fun k indent rest _ _ => ?_
  change (string? (s.toList.flatMap Json.escape ++ ['"'] ++ rest)).map _ = _
  rw [List.append_assoc, List.singleton_append, string?_written]
  rfl

theorem Ends.newline {rest : List Char} (h : Ends rest) (indent : Option Nat) :
    Ends (Json.newline indent ++ rest) := by
  cases indent with
  | none => exact h
  | some n =>
    intro c hc
    cases hc
    exact .inr (.inl rfl)

theorem ends_cons {c : Char} (rest : List Char) (h : c = ',' ∨ c = '\n' ∨ c = ']' ∨ c = '\x7d') :
    Ends (c :: rest) := by
  rintro _ ⟨⟩
  exact h

theorem colon_deeper (indent : Option Nat) : Json.colon (Json.deeper indent) = Json.colon indent := by
  cases indent <;> rfl

theorem skipSpace_colon (indent : Option Nat) (cs : List Char) :
    ∃ cs', skipSpace (Json.colon indent ++ cs) = ':' :: cs' ∧ skipSpace cs' = skipSpace cs := by
  cases indent with
  | none => exact ⟨cs, rfl, rfl⟩
  | some n => exact ⟨' ' :: cs, rfl, rfl⟩

section Parts

variable (indent close : Option Nat)

theorem items?_skip {n : Nat} {cs cs' : List Char} (h : skipSpace cs = skipSpace cs') :
    items? n cs = items? n cs' := by
  cases n with
  | zero => rfl
  | succ n => rw [items?, items?, value?_skip h]

theorem fields?_skip {n : Nat} {cs cs' : List Char} (h : skipSpace cs = skipSpace cs') :
    fields? n cs = fields? n cs' := by
  cases n with
  | zero => rfl
  | succ n => rw [fields?, fields?, h]

theorem items?_written {d : Data} {ds : List Data} (hds : ∀ e ∈ d :: ds, ReadsBack e)
    (rest : List Char) {n : Nat}
    (hn : (Json.write indent d).length + (Json.writeItems indent ds).length < n) :
    items? n (Json.write indent d ++ (Json.writeItems indent ds ++ (Json.newline close ++ ']' :: rest))) =
      some (d :: ds, rest) := by
  induction ds generalizing d n with
  | nil =>
    obtain ⟨n, rfl⟩ := Nat.exists_eq_succ_of_ne_zero (Nat.ne_zero_of_lt hn)
    rw [Json.writeItems, List.nil_append, items?, hds d List.mem_cons_self n indent _ (by omega)
      ((ends_cons rest (by decide)).newline close)]
    simp only [Option.bind_eq_bind, Option.bind_some]
    rw [skipSpace_newline]
    rfl
  | cons d' ds ih =>
    obtain ⟨n, rfl⟩ := Nat.exists_eq_succ_of_ne_zero (Nat.ne_zero_of_lt hn)
    rw [Json.writeItems, List.length_append, List.length_append, List.length_cons] at hn
    have hrest := ih (n := n) (fun e he => hds e (List.mem_cons_of_mem _ he)) (by omega)
    rw [Json.writeItems, List.cons_append, List.cons_append, List.cons_append, items?,
      hds d List.mem_cons_self n indent _ (by omega) (ends_cons _ (by decide))]
    simp only [Option.bind_eq_bind, Option.bind_some, List.append_assoc]
    rw [skipSpace_cons _ (by decide)]
    simp only [items?_skip (skipSpace_newline indent _), hrest, Option.bind_some]

/-- Names are read up to their closing quotes, and a colon stands behind each. -/
theorem fields?_last {n : Nat} (name : String) {cs rest after : List Char} {d : Data}
    (hd : value? n cs = some (d, rest)) (hrest : skipSpace rest = '\x7d' :: after) :
    fields? (n + 1) (Json.string name ++ (Json.colon indent ++ cs)) = some ([(name, d)], after) := by
  obtain ⟨cs', hcolon, hskip⟩ := skipSpace_colon indent cs
  rw [Json.string, List.cons_append, List.cons_append, fields?, skipSpace_cons _ (by decide),
    List.append_assoc, List.singleton_append]
  simp only [string?_written, Option.bind_eq_bind, Option.bind_some, hcolon, value?_skip hskip, hd, hrest]

theorem fields?_more {n : Nat} (name : String) {cs rest after out : List Char} {d : Data}
    {fields : List (String × Data)} (hd : value? n cs = some (d, rest))
    (hrest : skipSpace rest = ',' :: after) (hfields : fields? n after = some (fields, out)) :
    fields? (n + 1) (Json.string name ++ (Json.colon indent ++ cs)) = some ((name, d) :: fields, out) := by
  obtain ⟨cs', hcolon, hskip⟩ := skipSpace_colon indent cs
  rw [Json.string, List.cons_append, List.cons_append, fields?, skipSpace_cons _ (by decide),
    List.append_assoc, List.singleton_append]
  simp only [string?_written, Option.bind_eq_bind, Option.bind_some, hcolon, value?_skip hskip, hd, hrest,
    hfields]

theorem fields?_written (name : String) {d : Data} {fields : List (String × Data)}
    (hd : ReadsBack d) (hfs : ∀ f ∈ fields, ReadsBack f.2) (rest : List Char) {n : Nat}
    (hn : (Json.write indent d).length + (Json.writeFields indent fields).length < n) :
    fields? n (Json.string name ++ (Json.colon indent ++ (Json.write indent d ++
      (Json.writeFields indent fields ++ (Json.newline close ++ '\x7d' :: rest))))) =
      some ((name, d) :: fields, rest) := by
  induction fields generalizing name d n with
  | nil =>
    obtain ⟨n, rfl⟩ := Nat.exists_eq_succ_of_ne_zero (Nat.ne_zero_of_lt hn)
    rw [Json.writeFields, List.nil_append]
    refine fields?_last indent name (hd n indent _ (by omega) ((ends_cons rest (by decide)).newline close)) ?_
    rw [skipSpace_newline]
    rfl
  | cons f fields ih =>
    obtain ⟨n, rfl⟩ := Nat.exists_eq_succ_of_ne_zero (Nat.ne_zero_of_lt hn)
    obtain ⟨name', d'⟩ := f
    simp only [Json.writeFields, List.cons_append, List.append_assoc, List.length_cons,
      List.length_append] at hn ⊢
    obtain ⟨(hd' : ReadsBack d'), hfs⟩ := List.forall_mem_cons.mp hfs
    have hrest := ih name' (n := n) hd' hfs (by omega)
    rw [← fields?_skip (skipSpace_newline indent _)] at hrest
    exact fields?_more indent name (hd n indent _ (by omega) (ends_cons _ (by decide)))
      (skipSpace_cons _ (by decide)) hrest

end Parts

theorem readsBack_list {ds : List Data} (hp : itemsPlain ds = true) (hds : ∀ d ∈ ds, ReadsBack d) :
    ReadsBack (.list ds) := by
  refine readsBack_of hp fun n indent rest hn _ => ?_
  cases ds with
  | nil => rfl
  | cons d ds =>
    obtain ⟨c, cs, hcs, hc⟩ := write_begins (Bool.and_eq_true_iff.mp hp).1 (Json.deeper indent)
    simp only [Json.write, List.length_cons, List.length_append] at hn
    have hitems := items?_written (n := n) (Json.deeper indent) indent hds rest (by omega)
    simp only [Json.write, hcs, List.cons_append, List.append_assoc, List.nil_append] at hitems ⊢
    rw [value?, skipSpace_cons _ (by decide)]
    simp only [skipSpace_newline, hc.skipSpace]
    split
    · next h => exact absurd (List.cons.inj h).1 (hc.ne (by decide))
    · rw [hitems]
      rfl

theorem readsBack_record {fields : List (String × Data)} (hp : fieldsPlain fields = true)
    (hfs : ∀ f ∈ fields, ReadsBack f.2) : ReadsBack (.record fields) := by
  refine readsBack_of hp fun n indent rest hn _ => ?_
  cases fields with
  | nil => rfl
  | cons f fields =>
    obtain ⟨name, d⟩ := f
    simp only [Json.write, List.length_cons, List.length_append] at hn
    obtain ⟨(hd : ReadsBack d), hfs⟩ := List.forall_mem_cons.mp hfs
    have hfields := fields?_written (Json.deeper indent) indent name (n := n) hd hfs rest (by omega)
    rw [colon_deeper] at hfields
    simp only [Json.write, Json.string, List.cons_append, List.append_assoc, List.nil_append]
      at hfields ⊢
    rw [value?, skipSpace_cons _ (by decide)]
    simp only [skipSpace_newline]
    rw [skipSpace_cons _ (by decide)]
    change (fields? n _).map _ = _
    rw [hfields]
    rfl

mutual

theorem readsBack {d : Data} (h : plain d = true) : ReadsBack d := by
  match d with
  | .null => exact readsBack_of h fun _ _ _ _ _ => rfl
  | .bool true => exact readsBack_of h fun _ _ _ _ _ => rfl
  | .bool false => exact readsBack_of h fun _ _ _ _ _ => rfl
  | .int n => exact readsBack_int n
  | .text s => exact readsBack_text s
  | .list ds => exact readsBack_list h (itemsReadBack h)
  | .record fields => exact readsBack_record h (fieldsReadBack h)

theorem itemsReadBack {ds : List Data} (h : itemsPlain ds = true) : ∀ d ∈ ds, ReadsBack d := by
  match ds with
  | [] => exact fun _ h => nomatch h
  | d :: ds =>
    obtain ⟨hd, hds⟩ := Bool.and_eq_true_iff.mp h
    exact List.forall_mem_cons.mpr ⟨readsBack hd, itemsReadBack hds⟩

theorem fieldsReadBack {fields : List (String × Data)} (h : fieldsPlain fields = true) :
    ∀ f ∈ fields, ReadsBack f.2 := by
  match fields with
  | [] => exact fun _ h => nomatch h
  | (_, d) :: fields =>
    obtain ⟨hd, hfields⟩ := Bool.and_eq_true_iff.mp h
    exact List.forall_mem_cons.mpr ⟨readsBack hd, fieldsReadBack hfields⟩

end

/-- Plain data is read back from its text, indented or not. -/
theorem read?_written {d : Data} (h : plain d = true) (indent : Option Nat) :
    read? (String.ofList (Json.write indent d)) = some d := by
  have hd := readsBack h ((Json.write indent d).length + 1) indent [] (Nat.le_succ _) (fun _ h => nomatch h)
  rw [List.append_nil] at hd
  rw [read?, String.toList_ofList, hd]
  rfl

end Callees.JsonReader

namespace Callees.Json

theorem lookup_insertField (name : String) (f : String × Data) (fields : List (String × Data)) :
    (insertField f fields).lookup name = (f :: fields).lookup name := by
  induction fields with
  | nil => rfl
  | cons g fields ih =>
    rw [insertField]
    split
    · next hlt =>
      rw [List.lookup_cons, ih, List.lookup_cons, List.lookup_cons, List.lookup_cons]
      by_cases hg : name = g.1
      · have hf : name ≠ f.1 := by
          rintro rfl
          exact String.lt_irrefl _ (hg ▸ hlt)
        rw [beq_false_of_ne hf]
      · rw [beq_false_of_ne hg]
    · rfl

theorem lookup_sortedFields (name : String) (fields : List (String × Data)) :
    (sortedFields fields).lookup name = (fields.lookup name).map sorted := by
  induction fields with
  | nil => rfl
  | cons f fields ih =>
    obtain ⟨n, d⟩ := f
    rw [sortedFields, lookup_insertField, List.lookup_cons, List.lookup_cons, ih]
    cases name == n <;> rfl

theorem field?_sorted (name : String) (d : Data) :
    (sorted d).field? name = (d.field? name).map sorted := by
  cases d with
  | record fields => exact lookup_sortedFields name fields
  | _ => rfl

theorem fieldsPlain_insertField (f : String × Data) (fields : List (String × Data)) :
    JsonReader.fieldsPlain (insertField f fields) =
      (JsonReader.plain f.2 && JsonReader.fieldsPlain fields) := by
  induction fields with
  | nil => rfl
  | cons g fields ih =>
    rw [insertField]
    split
    · rw [JsonReader.fieldsPlain, JsonReader.fieldsPlain, ih, Bool.and_left_comm]
    · rfl

mutual

theorem plain_sorted (d : Data) : JsonReader.plain (sorted d) = JsonReader.plain d := by
  match d with
  | .null | .bool _ | .int _ | .float _ | .text _ | .moment _ => rfl
  | .list ds => exact itemsPlain_sorted ds
  | .record fields => exact fieldsPlain_sorted fields

theorem itemsPlain_sorted (ds : List Data) :
    JsonReader.itemsPlain (sortedItems ds) = JsonReader.itemsPlain ds := by
  match ds with
  | [] => rfl
  | d :: ds =>
    rw [sortedItems, JsonReader.itemsPlain, JsonReader.itemsPlain, plain_sorted d, itemsPlain_sorted ds]

theorem fieldsPlain_sorted (fields : List (String × Data)) :
    JsonReader.fieldsPlain (sortedFields fields) = JsonReader.fieldsPlain fields := by
  match fields with
  | [] => rfl
  | (name, d) :: fields =>
    rw [sortedFields, fieldsPlain_insertField, JsonReader.fieldsPlain, plain_sorted d,
      fieldsPlain_sorted fields]

end

/-- The text of plain data tells the data, up to the order of the fields. -/
theorem sorted_eq_of_write {a b : Data} (ha : JsonReader.plain a = true) (hb : JsonReader.plain b = true)
    {indent : Option Nat} (h : write indent (sorted a) = write indent (sorted b)) :
    sorted a = sorted b := by
  have hra := JsonReader.read?_written ((plain_sorted a).trans ha) indent
  have hrb := JsonReader.read?_written ((plain_sorted b).trans hb) indent
  rw [h, hrb] at hra
  exact (Option.some.inj hra).symm

theorem field_eq_of_sorted {a b : Data} (h : sorted a = sorted b) (name : String) :
    (a.field? name).map sorted = (b.field? name).map sorted := by
  rw [← field?_sorted, ← field?_sorted, h]

end Callees.Json

namespace Callees

theorem Position.toData_injective {p q : Position} (h : Json.sorted p.toData = Json.sorted q.toData) :
    p = q := by
  have hline : some (Data.int p.line) = some (Data.int q.line) := Json.field_eq_of_sorted h "line"
  have hcharacter : some (Data.int p.character) = some (Data.int q.character) :=
    Json.field_eq_of_sorted h "character"
  cases p
  cases q
  simp only [Option.some.injEq, Data.int.injEq, Int.natCast_inj] at hline hcharacter
  rw [hline, hcharacter]

theorem Range.toData_injective {r r' : Range} (h : Json.sorted r.toData = Json.sorted r'.toData) :
    r = r' := by
  have hstart : some (Json.sorted r.start.toData) = some (Json.sorted r'.start.toData) :=
    Json.field_eq_of_sorted h "start"
  have hstop : some (Json.sorted r.stop.toData) = some (Json.sorted r'.stop.toData) :=
    Json.field_eq_of_sorted h "end"
  exact Range.ext (Position.toData_injective (Option.some.inj hstart))
    (Position.toData_injective (Option.some.inj hstop))

theorem Origin.name_injective {o o' : Origin} (h : o.name = o'.name) : o = o' := by
  cases o <;> cases o' <;> first | rfl | exact absurd h (by decide)

/-- No two definitions have the same fields. -/
theorem Definition.toData_injective {a b : Definition} (h : Json.sorted a.toData = Json.sorted b.toData) :
    a = b := by
  have hname : some (Data.text a.name) = some (.text b.name) := Json.field_eq_of_sorted h "name"
  have huri : some (Data.text a.sourceUri) = some (.text b.sourceUri) :=
    Json.field_eq_of_sorted h "source_uri"
  have hrange : some (Json.sorted a.range.toData) = some (Json.sorted b.range.toData) :=
    Json.field_eq_of_sorted h "range"
  have hcontent : some (Data.text a.content) = some (.text b.content) :=
    Json.field_eq_of_sorted h "content"
  have hfirst : some (Data.int a.startLine) = some (.int b.startLine) :=
    Json.field_eq_of_sorted h "start_line"
  have hlast : some (Data.int a.endLine) = some (.int b.endLine) :=
    Json.field_eq_of_sorted h "end_line"
  have horigin : some (Data.text a.origin.name) = some (.text b.origin.name) :=
    Json.field_eq_of_sorted h "strategy"
  cases a
  cases b
  simp only [Option.some.injEq, Data.text.injEq, Data.int.injEq] at hname huri hcontent hfirst hlast horigin
  cases Range.toData_injective (Option.some.inj hrange)
  cases Origin.name_injective horigin
  cases hname; cases huri; cases hcontent; cases hfirst; cases hlast
  rfl

theorem Definition.toData_plain (d : Definition) : JsonReader.plain d.toData = true := rfl

/-- The line that is written for a definition. -/
def Definition.line (d : Definition) : String := String.ofList (Json.write none (Json.sorted d.toData))

theorem Definition.text?_toData {d : Definition} (h : Json.fits d.toData = true) :
    Json.text? d.toData false = some d.line := if_pos h

theorem Definition.line_injective : Function.Injective Definition.line := by
  intro a b h
  apply Definition.toData_injective
  exact Json.sorted_eq_of_write a.toData_plain b.toData_plain (String.ofList_injective h)

end Callees
