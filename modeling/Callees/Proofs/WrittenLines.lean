import Callees.Proofs.RecordData
import Callees.Proofs.SourceRows

namespace Callees

namespace Json

theorem escape_flat (c : Char) : '\n' ∉ escape c := by
  have hdigit (n : Nat) : '\n' ≠ hexDigit n := by
    have hall : ∀ k < 16, '\n' ≠ Nat.digitChar k := by decide
    exact hall (n % 16) (Nat.mod_lt n (by decide))
  unfold escape
  repeat' split
  all_goals simp_all [Ne.symm]

theorem string_flat (s : String) : '\n' ∉ string s := by
  simp [string, escape_flat]

theorem int_flat (n : Int) : '\n' ∉ (toString n).toList := by
  have hdigits (k : Nat) : '\n' ∉ Nat.toDigits 10 k := fun h =>
    absurd (Nat.isDigit_of_mem_toDigits (by decide) (by decide) h) (by decide)
  rw [JsonReader.toString_int]
  split
  · exact hdigits _
  · simp [hdigits]

mutual

theorem write_flat {d : Data} (h : JsonReader.plain d = true) : '\n' ∉ write none d := by
  match d with
  | .null => decide
  | .bool true => decide
  | .bool false => decide
  | .int n => exact int_flat n
  | .text s => exact string_flat s
  | .list [] => decide
  | .list (d :: ds) =>
    obtain ⟨hd, hds⟩ := Bool.and_eq_true_iff.mp h
    simp [write, newline, deeper, write_flat hd, writeItems_flat hds]
  | .record [] => decide
  | .record ((name, d) :: fields) =>
    obtain ⟨hd, hfields⟩ := Bool.and_eq_true_iff.mp h
    simp [write, newline, deeper, colon, string_flat, write_flat hd, writeFields_flat hfields]

theorem writeItems_flat {ds : List Data} (h : JsonReader.itemsPlain ds = true) :
    '\n' ∉ writeItems none ds := by
  match ds with
  | [] => exact List.not_mem_nil
  | d :: ds =>
    obtain ⟨hd, hds⟩ := Bool.and_eq_true_iff.mp h
    simp [writeItems, newline, write_flat hd, writeItems_flat hds]

theorem writeFields_flat {fields : List (String × Data)} (h : JsonReader.fieldsPlain fields = true) :
    '\n' ∉ writeFields none fields := by
  match fields with
  | [] => exact List.not_mem_nil
  | (name, d) :: fields =>
    obtain ⟨hd, hfields⟩ := Bool.and_eq_true_iff.mp h
    simp [writeFields, newline, colon, string_flat, write_flat hd, writeFields_flat hfields]

end

end Json

namespace Text

theorem firstBroken_encode (o : Nat) (cs : List Char) : firstBroken o (pieces (encode cs)) = none := by
  induction cs generalizing o with
  | nil => rfl
  | cons c cs ih =>
    obtain ⟨width, h⟩ := pieces_encodeChar (encode cs) c
    rw [encode_cons, h]
    exact ih _

theorem decodeStrict_encode (cs : List Char) : decodeStrict (encode cs) = .ok cs := by
  rw [decodeStrict, firstBroken_encode, decode_encode]

end Text

open Text (encode)

theorem Source.splitRows_single {bytes : List UInt8} (h : 10 ∉ bytes) : splitRows bytes = [bytes] := by
  have hrow := splitRows_append h (v := []) rfl
  rwa [List.append_nil] at hrow

/-- A text for each line, and nothing behind the last. -/
theorem Source.splitRows_joined {texts : List String} (h : ∀ text ∈ texts, '\n' ∉ text.toList) :
    splitRows (encode (String.join (texts.map (· ++ "\n"))).toList) =
      texts.map (fun text => encode text.toList) ++ [[]] := by
  induction texts with
  | nil => rfl
  | cons text texts ih =>
    obtain ⟨htext, htexts⟩ := List.forall_mem_cons.mp h
    have hflat : 10 ∉ encode text.toList := by
      rw [← List.count_eq_zero, Text.count_encode, List.count_eq_zero]
      exact htext
    rw [List.map_cons, String.join_cons, String.toList_append, String.toList_append,
      show "\n".toList = ['\n'] from rfl, Text.encode_append, Text.encode_concat, Text.encodeChar_feed,
      List.append_assoc, List.singleton_append, splitRows_feed, splitRows_single hflat, ih htexts]
    rfl

/-- The data that bytes stand for, if they are UTF-8 and JSON. -/
def JsonReader.ofBytes? (bytes : List UInt8) : Option Data :=
  (Text.decodeStrict bytes).toOption.bind fun chars => read? (String.ofList chars)

theorem JsonReader.ofBytes?_written {d : Data} (h : plain d = true) (indent : Option Nat) :
    ofBytes? (encode (Json.write indent (Json.sorted d))) = some (Json.sorted d) := by
  rw [ofBytes?, Text.decodeStrict_encode]
  exact read?_written ((Json.plain_sorted d).trans h) indent

theorem JsonReader.itemsPlain_map {α : Type} {toData : α → Data} (h : ∀ a, plain (toData a) = true)
    (as : List α) : itemsPlain (as.map toData) = true := by
  induction as with
  | nil => rfl
  | cons a as ih => rw [List.map_cons, itemsPlain, h, ih, Bool.and_self]

theorem Report.toData_plain (r : Report) : JsonReader.plain r.toData = true := by
  have hcalls : JsonReader.itemsPlain (r.callSites.map CallSite.toData) = true :=
    JsonReader.itemsPlain_map (fun _ => rfl) _
  have hdefinitions : JsonReader.itemsPlain (r.definitions.map Definition.toData) = true :=
    JsonReader.itemsPlain_map Definition.toData_plain _
  have hscope : JsonReader.plain (.ofOption Scope.toData r.scope) = true := by
    cases r.scope <;> rfl
  simp only [toData, JsonReader.plain, JsonReader.fieldsPlain, hcalls, hdefinitions, hscope]
  rfl

/-- A row of bytes from which all of a definition can be had. -/
structure Definition.InRow (x : Definition) (row : List UInt8) : Prop where
  nonempty : row ≠ []
  data : ∃ d, JsonReader.ofBytes? row = some d ∧ x.HeldBy d ∧ (x.Valid → Definition.read d = .ok x)

namespace Json

theorem line_inRow (x : Definition) : x.InRow (encode x.line.toList) := by
  have hplain := (plain_sorted x.toData).trans x.toData_plain
  refine ⟨fun hempty => ?_, sorted x.toData, ?_, x.heldBy_sorted, x.heldBy_sorted.read⟩
  · obtain ⟨c, cs, hcs, -⟩ := JsonReader.write_begins hplain none
    have hdecoded := Text.decode_encode x.line.toList
    rw [hempty, Definition.line, String.toList_ofList, hcs] at hdecoded
    cases hdecoded
  · rw [Definition.line, String.toList_ofList, JsonReader.ofBytes?_written x.toData_plain]

theorem lines?_eq {xs : List Definition} (h : ∀ x ∈ xs, fits x.toData = true) :
    lines? (xs.map Definition.toData) = some (String.join ((xs.map Definition.line).map (· ++ "\n"))) := by
  have htexts : (xs.map Definition.toData).mapM (text? · false) = some (xs.map Definition.line) := by
    induction xs with
    | nil => rfl
    | cons x xs ih =>
      obtain ⟨hx, hxs⟩ := List.forall_mem_cons.mp h
      rw [List.map_cons, List.mapM_cons, Definition.text?_toData hx, ih hxs]
      rfl
  rw [lines?, htexts]
  rfl

/-- The bytes of definitions, broken at line feeds, are a row for each of them and an empty one behind the
last, and all of a definition can be read out of its row. So can all of a report, indented or not. -/
theorem written_read_back :
    (∀ xs : List Definition, (∀ x ∈ xs, fits x.toData = true) →
      ∃ text rows, lines? (xs.map Definition.toData) = some text ∧
        Source.splitRows (encode text.toList) = rows ++ [[]] ∧ List.Forall₂ Definition.InRow xs rows) ∧
    ∀ (r : Report) (indented : Bool), fits r.toData = true →
      ∃ text d, text? r.toData indented = some text ∧
        JsonReader.ofBytes? (encode text.toList) = some d ∧ r.HeldBy d ∧
          (r.Valid → Report.read d = .ok r) := by
  refine ⟨fun xs hfits => ?_, fun r indented hfits => ?_⟩
  · have hflat : ∀ text ∈ xs.map Definition.line, '\n' ∉ text.toList := by
      intro text htext
      obtain ⟨x, -, rfl⟩ := List.mem_map.mp htext
      rw [Definition.line, String.toList_ofList]
      exact write_flat ((plain_sorted x.toData).trans x.toData_plain)
    refine ⟨_, _, lines?_eq hfits, Source.splitRows_joined hflat, ?_⟩
    refine List.forall₂_map_right_iff.mpr (List.forall₂_map_right_iff.mpr (List.forall₂_same.mpr ?_))
    exact fun x _ => line_inRow x
  · refine ⟨_, sorted r.toData, by rw [text?, if_pos hfits], ?_, r.heldBy_sorted, r.heldBy_sorted.read⟩
    rw [String.toList_ofList, JsonReader.ofBytes?_written r.toData_plain]

/-- Breaks, quotes and controls in all of its texts, and the least and the greatest number. -/
def knotted : Definition :=
  ⟨"né\n\x01", "file:///w/a%20b.js", .onLine ⟨0, 3⟩ 5, "say(\"\\\r\n\u2028\");\t😀", -9223372036854775808,
    18446744073709551615, .index⟩

def knottedReport : Report :=
  ⟨"file:///\n.js", ⟨4, 2⟩, some ⟨.onLine ⟨3, 0⟩ 9, "a\"b"⟩, [⟨"go", .onLine ⟨4, 2⟩ 2, 4, 2⟩], [knotted]⟩

theorem written_read_back_knotted :
    (∀ x ∈ [knotted, knotted], fits x.toData = true) ∧ fits knottedReport.toData = true ∧
      (∃ text rows, lines? ([knotted, knotted].map Definition.toData) = some text ∧
        Source.splitRows (encode text.toList) = rows ++ [[]] ∧
        List.Forall₂ Definition.InRow [knotted, knotted] rows ∧ rows.length = 2) ∧
      ∃ text d, text? knottedReport.toData true = some text ∧
        JsonReader.ofBytes? (encode text.toList) = some d ∧ Report.read d = .ok knottedReport := by
  have hfits : ∀ x ∈ [knotted, knotted], fits x.toData = true := by decide
  have hreport : fits knottedReport.toData = true := by decide
  have hvalid : knottedReport.Valid :=
    ⟨List.forall_mem_singleton.mpr (show Text.isIdentifier "go".toList = true by decide),
      List.forall_mem_singleton.mpr (show knotted.content ≠ "" by decide)⟩
  obtain ⟨text, rows, htext, hrows, hall⟩ := written_read_back.1 _ hfits
  obtain ⟨text', d, htext', hd, -, hread⟩ := written_read_back.2 knottedReport true hreport
  exact ⟨hfits, hreport, ⟨text, rows, htext, hrows, hall, hall.length_eq.symm⟩, text', d, htext', hd,
    hread hvalid⟩

end Json

end Callees
