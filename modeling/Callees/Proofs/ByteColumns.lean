import Callees.Proofs.Lines
import Callees.Proofs.OutlineOrder
import Callees.Proofs.SourceRows

namespace Callees

namespace Text

/-- How many bytes come before a character of a line. -/
def byteOffset (line : List Char) (n : Nat) : Nat := (encode (line.take n)).length

/-- How many characters of a line begin before a byte column. -/
def begunBefore (line : List Char) (column : Nat) : Nat :=
  (List.range line.length).countP fun n => byteOffset line n < column

theorem begunBefore_zero (line : List Char) : begunBefore line 0 = 0 :=
  List.countP_eq_zero.mpr fun n _ => by simp

theorem begunBefore_cons (c : Char) (line : List Char) {column : Nat} (h : 0 < column) :
    begunBefore (c :: line) column =
      begunBefore line (column - (String.utf8EncodeChar c).length) + 1 := by
  have hnext (n : Nat) : byteOffset (c :: line) (n + 1) =
      (String.utf8EncodeChar c).length + byteOffset line n := by
    rw [byteOffset, List.take_succ_cons, byteOffset, encode_cons, List.length_append]
  have hfirst : decide (byteOffset (c :: line) 0 < column) = true := decide_eq_true h
  rw [begunBefore, List.length_cons, List.range_succ_eq_map, List.countP_cons, if_pos hfirst,
    List.countP_map, begunBefore]
  congr 2
  funext n
  simp only [Function.comp_apply, hnext, decide_eq_decide]
  omega

/-- However a character is cut, what is left of it is read as one. -/
theorem decode_cut (c : Char) {k : Nat} (hk : 0 < k) :
    (decode ((String.utf8EncodeChar c).take k)).length = 1 := by
  have hwhole : (pieces (String.utf8EncodeChar c)).length = 1 := by
    obtain ⟨width, h⟩ := pieces_encodeChar [] c
    rw [List.append_nil] at h
    rw [h]
    rfl
  have hle := pieces_length_le_append ((String.utf8EncodeChar c).take k) ((String.utf8EncodeChar c).drop k)
  rw [List.take_append_drop, hwhole] at hle
  have hpos : 0 < (pieces ((String.utf8EncodeChar c).take k)).length := by
    have hne : (String.utf8EncodeChar c).take k ≠ [] := by simp [Nat.ne_of_gt hk]
    obtain ⟨b, bytes, hcut⟩ := List.exists_cons_of_ne_nil hne
    rw [hcut]
    exact pieces_pos bytes b
  rw [decode, List.length_map]
  omega

theorem decode_take_length (line : List Char) (column : Nat) :
    (decode ((encode line).take column)).length = begunBefore line column := by
  induction line generalizing column with
  | nil => rw [show encode [] = [] from rfl, List.take_nil]; rfl
  | cons c line ih =>
    rcases Nat.eq_zero_or_pos column with rfl | hpos
    · rw [begunBefore_zero, List.take_zero]
      rfl
    rw [begunBefore_cons c line hpos, ← ih,
      encode_cons, List.take_append]
    rcases Nat.lt_or_ge (String.utf8EncodeChar c).length column with hlt | hge
    · have hone := decode_encode_append [c] ((encode line).take (column - (String.utf8EncodeChar c).length))
      rw [show encode [c] = String.utf8EncodeChar c from List.append_nil _] at hone
      rw [List.take_of_length_le (Nat.le_of_lt hlt), hone, List.length_append, List.length_singleton,
        Nat.add_comm]
    · rw [Nat.sub_eq_zero_of_le hge, List.take_zero, List.append_nil, decode_cut c hpos]
      rfl

theorem begunBefore_edge (u v : List Char) : begunBefore (u ++ v) (encode u).length = u.length := by
  rw [← decode_take_length, encode_append, List.take_left, decode_encode]

theorem begunBefore_inside (u v : List Char) (c : Char) {column : Nat} (h : (encode u).length < column)
    (h' : column ≤ (encode (u ++ [c])).length) : begunBefore (u ++ c :: v) column = u.length + 1 := by
  rw [encode_concat, List.length_append] at h'
  have hone : (decode ((String.utf8EncodeChar c).take (column - (encode u).length))).length = 1 :=
    decode_cut c (Nat.sub_pos_of_lt h)
  rw [← decode_take_length, List.append_cons, encode_append, encode_concat, List.append_assoc,
    List.take_append, List.take_of_length_le (Nat.le_of_lt h), List.take_append_of_le_length (by omega),
    decode_encode_append, List.length_append, hone]

theorem begunBefore_past (line : List Char) {column : Nat} (h : (encode line).length ≤ column) :
    begunBefore line column = line.length := by
  rw [← decode_take_length, List.take_of_length_le h, decode_encode]

end Text

namespace Source

open Text

/-- The rows of a text's bytes are the bytes of its lines, where line feeds alone break lines. -/
theorem rows_ofChars (text : List Char) : (ofChars text).rows = (splitOnChar '\n' text).map encode := by
  change splitRows (encode text) = _
  induction text with
  | nil => rfl
  | cons c text ih =>
    rw [encode_cons]
    by_cases hc : c = '\n'
    · rw [hc, encodeChar_feed, List.singleton_append, splitRows, if_pos rfl, ih, splitOnChar, if_pos rfl]
      rfl
    · obtain ⟨line, lines, hlines, hcons⟩ := splitOnChar_cons hc text
      rw [hlines] at ih
      rw [hcons]
      exact splitRows_append (feed_not_mem_encodeChar hc) ih

/-- How the byte columns of a line come to be character columns. -/
structure Counts (line : List Char) (column : Nat → Nat) : Prop where
  begun : ∀ k, column k = begunBefore line k
  edge : ∀ u v, line = u ++ v → column (encode u).length = u.length
  inside : ∀ u c v k, line = u ++ c :: v → (encode u).length < k → k ≤ (encode (u ++ [c])).length →
    column k = u.length + 1
  past : ∀ k, (encode line).length ≤ k → column k = line.length

/-- The rows of a text are its lines in bytes. A byte column of a line counts the characters that begin before
it, a row that does not exist keeps its columns, and the span of a node that does not end before it starts can
be had wherever its columns fall. -/
theorem column_counts (text : List Char) :
    (ofChars text).rows = (splitOnChar '\n' text).map encode ∧
    (∀ row line, (splitOnChar '\n' text)[row]? = some line →
      Counts line fun k => (ofChars text).column ⟨row, k⟩) ∧
    (∀ row k, (splitOnChar '\n' text).length ≤ row → (ofChars text).column ⟨row, k⟩ = k) ∧
    (∀ row k k', k ≤ k' → (ofChars text).column ⟨row, k⟩ ≤ (ofChars text).column ⟨row, k'⟩) ∧
    ∀ t : SyntaxTree, t.start ≤ t.stop → ∃ range, (ofChars text).range t = .ok range ∧
      range.start = ⟨t.start.row, (ofChars text).column t.start⟩ ∧
      range.stop = ⟨t.stop.row, (ofChars text).column t.stop⟩ := by
  have hrow (row : Nat) : (ofChars text).rows[row]? = ((splitOnChar '\n' text)[row]?).map encode := by
    rw [rows_ofChars, List.getElem?_map]
  refine ⟨rows_ofChars text, fun row line hline => ?_, fun row k hrows => ?_, (ofChars text).column_mono,
    fun t ht => ?_⟩
  · have hcolumn (k : Nat) : (ofChars text).column ⟨row, k⟩ = begunBefore line k := by
      simp only [column, hrow, hline, Option.map_some, decode_take_length]
    refine ⟨hcolumn, ?_, ?_, fun k hk => (hcolumn k).trans (begunBefore_past line hk)⟩
    · rintro u v rfl
      exact (hcolumn _).trans (begunBefore_edge u v)
    · rintro u c v k rfl h h'
      exact (hcolumn k).trans (begunBefore_inside u v c h h')
  · simp only [column, hrow, List.getElem?_eq_none hrows, Option.map_none]
  · exact ⟨_, Range.between_ok ((ofChars text).position_mono ht), rfl, rfl⟩

/-- Its second character has two bytes and its third has four. -/
def wideText : List Char := "aé😀\nb".toList

/-- A node that starts inside one character and stops on a row that does not exist. -/
def cutNode : SyntaxTree := .node "identifier" ⟨0, 2⟩ ⟨7, 3⟩ (some (2, 10)) none []

theorem column_counts_cut :
    (splitOnChar '\n' wideText)[0]? = some ['a', 'é', '😀'] ∧ (splitOnChar '\n' wideText).length ≤ 7 ∧
      cutNode.start ≤ cutNode.stop ∧
      (ofChars wideText).column ⟨0, 2⟩ = 2 ∧ (ofChars wideText).column ⟨0, 3⟩ = 2 ∧
      (ofChars wideText).column ⟨0, 6⟩ = 3 ∧ (ofChars wideText).column ⟨0, 99⟩ = 3 ∧
      (ofChars wideText).column ⟨0, 2⟩ ≤ (ofChars wideText).column ⟨0, 6⟩ ∧
      (ofChars wideText).column ⟨7, 3⟩ = 3 ∧
      ∃ range, (ofChars wideText).range cutNode = .ok range ∧ range.start = ⟨0, 2⟩ ∧ range.stop = ⟨7, 3⟩ := by
  obtain ⟨-, hcounts, hmissing, hmono, hrange⟩ := column_counts wideText
  have hline : (splitOnChar '\n' wideText)[0]? = some ['a', 'é', '😀'] := by decide
  have hrows : (splitOnChar '\n' wideText).length ≤ 7 := by decide
  have hnode : cutNode.start ≤ cutNode.stop := by decide
  have hline := hcounts 0 _ hline
  have hstart := hline.inside ['a'] 'é' ['😀'] 2 rfl (by decide) (by decide)
  have hstop := hmissing 7 3 hrows
  obtain ⟨range, hok, hfirst, hlast⟩ := hrange cutNode hnode
  exact ⟨by decide, hrows, hnode, hstart, hline.edge ['a', 'é'] ['😀'] rfl,
    hline.inside ['a', 'é'] '😀' [] 6 rfl (by decide) (by decide), hline.past 99 (by decide),
    hmono 0 2 6 (by decide), hstop, range, hok, hfirst.trans (congrArg (Position.mk 0) hstart),
    hlast.trans (congrArg (Position.mk 7) hstop)⟩

end Source

end Callees
