import Mathlib.Data.List.Induction
import Callees.Proofs.Utf8
import Callees.SyntaxTree

namespace Callees

namespace Text

section

variable {α : Type} [BEq α] [LawfulBEq α]

/-- What comes after the last `feed`. -/
def lastRun (feed : α) (xs : List α) : List α := (xs.reverse.takeWhile (· != feed)).reverse

theorem lastRun_feed (feed : α) (xs : List α) : lastRun feed (xs ++ [feed]) = [] := by
  simp [lastRun]

theorem lastRun_append {feed : α} (xs : List α) {ys : List α} (h : feed ∉ ys) :
    lastRun feed (xs ++ ys) = lastRun feed xs ++ ys := by
  have hys : ∀ y ∈ ys.reverse, (y != feed) = true := by
    intro y hy
    have hmem := List.mem_reverse.mp hy
    exact bne_iff_ne.mpr fun heq => h (heq ▸ hmem)
  rw [lastRun, lastRun, List.reverse_append, List.takeWhile_append_of_pos hys, List.reverse_append,
    List.reverse_reverse]

end

/-- The place that a text has come to, where line feeds alone break lines. -/
def place (before : List Char) : Position := ⟨before.count '\n', (lastRun '\n' before).length⟩

theorem encode_concat (u : List Char) (c : Char) :
    encode (u ++ [c]) = encode u ++ String.utf8EncodeChar c := by
  rw [encode_append]
  exact congrArg (encode u ++ ·) (List.append_nil _)

theorem count_encode (u : List Char) : (encode u).count 10 = u.count '\n' := by
  induction u using List.reverseRecOn with
  | nil => rfl
  | append_singleton u c ih =>
    rw [encode_concat, List.count_append, List.count_append, ih]
    by_cases hc : c = '\n'
    · subst hc
      rw [encodeChar_feed]
      rfl
    · rw [List.count_eq_zero.mpr (feed_not_mem_encodeChar hc),
        List.count_eq_zero.mpr fun h => hc (List.mem_singleton.mp h).symm]

theorem lastRun_encode (u : List Char) : lastRun 10 (encode u) = encode (lastRun '\n' u) := by
  induction u using List.reverseRecOn with
  | nil => rfl
  | append_singleton u c ih =>
    rw [encode_concat]
    by_cases hc : c = '\n'
    · subst hc
      rw [encodeChar_feed, lastRun_feed, lastRun_feed]
      rfl
    · rw [lastRun_append _ (feed_not_mem_encodeChar hc), ih,
        lastRun_append _ fun h => hc (List.mem_singleton.mp h).symm, encode_concat]

end Text

namespace Source

open Text

theorem splitRows_cons {b : UInt8} (hb : b ≠ 10) (v : List UInt8) :
    ∃ row rows, splitRows v = row :: rows ∧ splitRows (b :: v) = (b :: row) :: rows := by
  have hne : ∃ row rows, splitRows v = row :: rows := by
    cases v with
    | nil => exact ⟨[], [], rfl⟩
    | cons c v =>
      rw [splitRows]
      split
      · exact ⟨_, _, rfl⟩
      · split <;> exact ⟨_, _, rfl⟩
  obtain ⟨row, rows, h⟩ := hne
  exact ⟨row, rows, h, by rw [splitRows, if_neg hb, h]⟩

theorem splitRows_append {bytes : List UInt8} (h : 10 ∉ bytes) {v row : List UInt8}
    {rows : List (List UInt8)} (hv : splitRows v = row :: rows) :
    splitRows (bytes ++ v) = (bytes ++ row) :: rows := by
  induction bytes with
  | nil => exact hv
  | cons b bytes ih =>
    rw [List.mem_cons, not_or] at h
    obtain ⟨row', rows', hrest, hcons⟩ := splitRows_cons (Ne.symm h.1) (bytes ++ v)
    rw [ih h.2] at hrest
    cases hrest
    exact hcons

theorem splitRows_feed (u v : List UInt8) : splitRows (u ++ 10 :: v) = splitRows u ++ splitRows v := by
  induction u with
  | nil => rfl
  | cons b u ih =>
    by_cases hb : b = 10
    · rw [List.cons_append, splitRows, splitRows, if_pos hb, if_pos hb, ih]
      rfl
    · obtain ⟨row, rows, hu, hcons⟩ := splitRows_cons hb u
      obtain ⟨row', rows', huv, hcons'⟩ := splitRows_cons hb (u ++ 10 :: v)
      rw [ih, hu] at huv
      cases huv
      rw [List.cons_append, hcons, hcons']
      rfl

theorem splitRows_length (u : List UInt8) : (splitRows u).length = u.count 10 + 1 := by
  induction u with
  | nil => rfl
  | cons b u ih =>
    by_cases hb : b = 10
    · rw [splitRows, if_pos hb, hb, List.count_cons_self, List.length_cons, ih]
    · obtain ⟨row, rows, hu, hcons⟩ := splitRows_cons hb u
      rw [hcons, List.count_cons_of_ne hb, ← ih, hu]
      rfl

theorem splitRows_head (v : List UInt8) : (splitRows v)[0]? = some (v.takeWhile (· != 10)) := by
  induction v with
  | nil => rfl
  | cons b v ih =>
    by_cases hb : b = 10
    · subst hb
      rfl
    · obtain ⟨row, rows, hv, hcons⟩ := splitRows_cons hb v
      rw [hv] at ih
      cases ih
      rw [hcons, List.takeWhile_cons_of_pos (p := (· != 10)) (bne_iff_ne.mpr hb)]
      rfl

/-- The row that a place is on, before it and behind it. -/
theorem splitRows_get (u v : List UInt8) :
    (splitRows (u ++ v))[u.count 10]? = some (lastRun 10 u ++ v.takeWhile (· != 10)) := by
  induction u using List.reverseRecOn generalizing v with
  | nil => exact splitRows_head v
  | append_singleton u b ih =>
    rw [List.append_assoc, List.singleton_append]
    by_cases hb : b = 10
    · subst hb
      rw [splitRows_feed, List.count_append, List.count_singleton_self, ← splitRows_length,
        List.getElem?_append_right (Nat.le_refl _), Nat.sub_self, splitRows_head, lastRun_feed]
      rfl
    · have hnot : 10 ∉ [b] := fun h => hb (List.mem_singleton.mp h).symm
      rw [List.count_append, List.count_eq_zero.mpr hnot, Nat.add_zero, ih, lastRun_append u hnot,
        List.takeWhile_cons_of_pos (p := (· != 10)) (bne_iff_ne.mpr hb), List.append_assoc]
      rfl

end Source

/-- The point that a source has come to: rows count line feeds, columns the bytes since the last. -/
def Point.after (before : List UInt8) : Point := ⟨before.count 10, (Text.lastRun 10 before).length⟩

/-- Positions are counted in characters. -/
theorem Source.position_after (u v : List Char) :
    (Source.ofChars (u ++ v)).position (.after (Text.encode u)) = Text.place u := by
  have hrow := splitRows_get (Text.encode u) (Text.encode v)
  rw [← Text.encode_append] at hrow
  simp only [position, column, ofChars, Point.after, hrow, List.take_left]
  rw [Text.lastRun_encode, Text.decode_encode, Text.count_encode, Text.place]

end Callees
