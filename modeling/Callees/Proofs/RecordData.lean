import Mathlib.Data.List.Forall2
import Callees.Proofs.WrittenData
import Callees.Report.Reader

namespace Callees

/-- The data has a field of this name, with such a value. -/
def Data.Has (d : Data) (name : String) (P : Data → Prop) : Prop := ∃ e, d.field? name = some e ∧ P e

/-- A list of data, item by item. -/
inductive Data.Items {α : Type} (P : α → Data → Prop) (as : List α) : Data → Prop
  | list {ds : List Data} (items : List.Forall₂ P as ds) : Items P as (.list ds)

/-- Null stands for nothing. -/
inductive Data.Nullable {α : Type} (P : α → Data → Prop) : Option α → Data → Prop
  | none : Nullable P none .null
  | some {a : α} {d : Data} (value : P a d) : Nullable P (some a) d

structure Position.HeldBy (p : Position) (d : Data) : Prop where
  line : d.Has "line" (· = .int p.line)
  character : d.Has "character" (· = .int p.character)

structure Range.HeldBy (r : Range) (d : Data) : Prop where
  start : d.Has "start" r.start.HeldBy
  stop : d.Has "end" r.stop.HeldBy

structure Scope.HeldBy (s : Scope) (d : Data) : Prop where
  range : d.Has "range" s.range.HeldBy
  name : d.Has "name" (· = .text s.name)

structure CallSite.HeldBy (c : CallSite) (d : Data) : Prop where
  name : d.Has "name" (· = .text c.name)
  range : d.Has "range" c.range.HeldBy
  line : d.Has "line" (· = .int c.line)
  character : d.Has "character" (· = .int c.character)

structure Definition.HeldBy (x : Definition) (d : Data) : Prop where
  name : d.Has "name" (· = .text x.name)
  sourceUri : d.Has "source_uri" (· = .text x.sourceUri)
  range : d.Has "range" x.range.HeldBy
  content : d.Has "content" (· = .text x.content)
  startLine : d.Has "start_line" (· = .int x.startLine)
  endLine : d.Has "end_line" (· = .int x.endLine)
  origin : d.Has "strategy" (· = .text x.origin.name)

structure Report.HeldBy (r : Report) (d : Data) : Prop where
  uri : d.Has "uri" (· = .text r.uri)
  position : d.Has "position" r.position.HeldBy
  scope : d.Has "scope" (Data.Nullable Scope.HeldBy r.scope)
  callSites : d.Has "call_sites" (Data.Items CallSite.HeldBy r.callSites)
  definitions : d.Has "definitions" (Data.Items Definition.HeldBy r.definitions)

theorem Json.has_sorted {d e : Data} {name : String} {P : Data → Prop} (h : d.field? name = some e)
    (he : P (sorted e)) : (sorted d).Has name P :=
  ⟨sorted e, by rw [field?_sorted, h, Option.map_some], he⟩

theorem Json.sortedItems_eq (ds : List Data) : sortedItems ds = ds.map sorted := by
  induction ds with
  | nil => rfl
  | cons d ds ih => rw [sortedItems, ih, List.map_cons]

theorem Json.items_sorted {α : Type} {P : α → Data → Prop} {toData : α → Data}
    (h : ∀ a, P a (sorted (toData a))) (as : List α) :
    Data.Items P as (sorted (.list (as.map toData))) := by
  refine .list ?_
  rw [sortedItems_eq, List.map_map, List.forall₂_map_right_iff, List.forall₂_same]
  exact fun a _ => h a

open Json (has_sorted)

theorem Position.heldBy_sorted (p : Position) : p.HeldBy (Json.sorted p.toData) where
  line := has_sorted rfl rfl
  character := has_sorted rfl rfl

theorem Range.heldBy_sorted (r : Range) : r.HeldBy (Json.sorted r.toData) where
  start := has_sorted rfl r.start.heldBy_sorted
  stop := has_sorted rfl r.stop.heldBy_sorted

theorem Scope.heldBy_sorted (s : Scope) : s.HeldBy (Json.sorted s.toData) where
  range := has_sorted rfl s.range.heldBy_sorted
  name := has_sorted rfl rfl

theorem CallSite.heldBy_sorted (c : CallSite) : c.HeldBy (Json.sorted c.toData) where
  name := has_sorted rfl rfl
  range := has_sorted rfl c.range.heldBy_sorted
  line := has_sorted rfl rfl
  character := has_sorted rfl rfl

theorem Definition.heldBy_sorted (x : Definition) : x.HeldBy (Json.sorted x.toData) where
  name := has_sorted rfl rfl
  sourceUri := has_sorted rfl rfl
  range := has_sorted rfl x.range.heldBy_sorted
  content := has_sorted rfl rfl
  startLine := has_sorted rfl rfl
  endLine := has_sorted rfl rfl
  origin := has_sorted rfl rfl

theorem Report.heldBy_sorted (r : Report) : r.HeldBy (Json.sorted r.toData) where
  uri := has_sorted rfl rfl
  position := has_sorted rfl r.position.heldBy_sorted
  scope := has_sorted rfl <| by
    cases r.scope with
    | none => exact .none
    | some s => exact .some s.heldBy_sorted
  callSites := has_sorted rfl (Json.items_sorted CallSite.heldBy_sorted _)
  definitions := has_sorted rfl (Json.items_sorted Definition.heldBy_sorted _)

section Fields

variable {α : Type} {name : String} {P : Data → Prop} {fs : List (String × Data)} {read : Reader α} {a : α}

theorem Data.Has.record {d : Data} (h : d.Has name P) : ∃ fs, d = .record fs := by
  obtain ⟨e, he, -⟩ := h
  cases d with
  | record fs => exact ⟨fs, rfl⟩
  | _ => cases he

theorem Reader.fields_bind (f : List (String × Data) → Checked α) :
    (Reader.fields (.record fs) >>= f) = f fs := rfl

theorem Data.Has.required (h : (Data.record fs).Has name P) (hread : ∀ e, P e → read e = .ok a) :
    Reader.required name read fs = .ok a := by
  obtain ⟨e, he, hp⟩ := h
  change fs.lookup name = some e at he
  rw [Reader.required, he]
  simp only [hread e hp, Checked.within]

theorem Data.Has.optional {default : α} (h : (Data.record fs).Has name P)
    (hread : ∀ e, P e → read e = .ok a) : Reader.optional name default read fs = .ok a := by
  obtain ⟨e, he, hp⟩ := h
  change fs.lookup name = some e at he
  rw [Reader.optional, he]
  simp only [hread e hp, Checked.within]

theorem Data.Items.sequence {P : α → Data → Prop} {as : List α} {d : Data} (h : Data.Items P as d)
    (hread : ∀ a ∈ as, ∀ d, P a d → read d = .ok a) : Reader.sequence read d = .ok as := by
  obtain @⟨ds, hitems⟩ := h
  have hall (i : Nat) : Checked.items i (ds.map read) = .ok as := by
    induction hitems generalizing i with
    | nil => rfl
    | cons hp _ ih =>
      obtain ⟨hfirst, hrest⟩ := List.forall_mem_cons.mp hread
      rw [List.map_cons, Checked.items, hfirst _ hp, ih hrest]
      rfl
  exact hall 0

end Fields

section Readers

variable {e : Data}

theorem read_int {n : Int} (h : e = .int n) : Reader.int e = .ok n := by rw [h, Reader.int]

theorem read_count {n : Nat} (h : e = .int n) : Reader.atLeast 0 e = .ok (n : Int) := by
  have hn : ¬ (n : Int) < 0 := Int.not_lt.mpr (Int.natCast_nonneg n)
  simp only [Reader.atLeast, read_int h, bind, Except.bind, if_neg hn]

theorem read_text {s : String} (h : e = .text s) : Reader.text e = .ok s := by rw [h, Reader.text]

theorem read_content {s : String} (hs : s ≠ "") (h : e = .text s) : Reader.nonemptyText e = .ok s := by
  rw [Reader.nonemptyText, read_text h]
  exact if_neg hs

theorem read_identifier {s : String} (hs : Text.isIdentifier s.toList = true) (h : e = .text s) :
    Reader.identifier e = .ok s := by
  rw [Reader.identifier, read_text h]
  exact if_pos hs

theorem read_origin {o : Origin} (h : e = .text o.name) : Reader.word Origin.ofName? e = .ok o := by
  rw [h, Reader.word]
  cases o <;> rfl

end Readers

theorem Position.HeldBy.read {p : Position} {d : Data} (h : p.HeldBy d) : Position.read d = .ok p := by
  obtain ⟨fs, rfl⟩ := h.line.record
  rw [Position.read, Reader.fields_bind, h.line.required fun _ => read_count,
    h.character.required fun _ => read_count]
  rfl

theorem Range.HeldBy.read {r : Range} {d : Data} (h : r.HeldBy d) : Range.read d = .ok r := by
  obtain ⟨fs, rfl⟩ := h.start.record
  have hbetween : Range.between? r.start r.stop = some r := dif_pos r.ordered
  rw [Range.read, Reader.fields_bind, h.start.required fun _ => Position.HeldBy.read,
    h.stop.required fun _ => Position.HeldBy.read]
  simp only [Checked.both, bind, Except.bind, hbetween]

theorem Scope.HeldBy.read {s : Scope} {d : Data} (h : s.HeldBy d) : Scope.read d = .ok s := by
  obtain ⟨fs, rfl⟩ := h.name.record
  rw [Scope.read, Reader.fields_bind, h.range.required fun _ => Range.HeldBy.read,
    h.name.required fun _ => read_text]
  rfl

/-- The name of a call is an identifier. -/
def CallSite.Valid (c : CallSite) : Prop := Text.isIdentifier c.name.toList = true

/-- The text of a definition is not empty. -/
def Definition.Valid (x : Definition) : Prop := x.content ≠ ""

structure Report.Valid (r : Report) : Prop where
  callSites : ∀ c ∈ r.callSites, c.Valid
  definitions : ∀ x ∈ r.definitions, x.Valid

theorem CallSite.HeldBy.read {c : CallSite} {d : Data} (h : c.HeldBy d) (hc : c.Valid) :
    CallSite.read d = .ok c := by
  obtain ⟨fs, rfl⟩ := h.name.record
  rw [CallSite.read, Reader.fields_bind, h.name.required fun _ => read_identifier hc,
    h.range.required fun _ => Range.HeldBy.read, h.line.required fun _ => read_int,
    h.character.required fun _ => read_int]
  rfl

theorem Definition.HeldBy.read {x : Definition} {d : Data} (h : x.HeldBy d) (hx : x.Valid) :
    Definition.read d = .ok x := by
  obtain ⟨fs, rfl⟩ := h.name.record
  rw [Definition.read, Reader.fields_bind, h.name.required fun _ => read_text,
    h.sourceUri.required fun _ => read_text, h.range.required fun _ => Range.HeldBy.read,
    h.content.required fun _ => read_content hx, h.startLine.required fun _ => read_int,
    h.endLine.required fun _ => read_int, h.origin.optional fun _ => read_origin]
  rfl

theorem Scope.read_nullable {s : Option Scope} {d : Data} (h : Data.Nullable Scope.HeldBy s d) :
    Reader.nullable Scope.read d = .ok s := by
  cases h with
  | none => rfl
  | @some s d h =>
    obtain ⟨fs, rfl⟩ := h.name.record
    rw [Reader.nullable, h.read]
    · rfl
    · nofun

theorem Report.HeldBy.read {r : Report} {d : Data} (h : r.HeldBy d) (hr : r.Valid) :
    Report.read d = .ok r := by
  obtain ⟨fs, rfl⟩ := h.uri.record
  rw [Report.read, Reader.fields_bind, h.uri.required fun _ => read_text,
    h.position.required fun _ => Position.HeldBy.read, h.scope.optional fun _ => Scope.read_nullable,
    h.callSites.optional fun _ hd => hd.sequence fun c hc _ hd => hd.read (hr.callSites c hc),
    h.definitions.optional fun _ hd => hd.sequence fun x hx _ hd => hd.read (hr.definitions x hx)]
  rfl

end Callees
