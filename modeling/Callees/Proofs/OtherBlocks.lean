import Callees.Proofs.BraceScope
import Callees.Proofs.HeaderWords
import Callees.Proofs.NestedBlocks

namespace Callees.Header

open Text

theorem Wordy.append {u v : List Char} (hu : Wordy u) (hv : Wordy v) : Wordy (u ++ v) :=
  List.forall_mem_append.mpr ⟨hu, hv⟩

theorem wordy_of_blank {w : List Char} (h : Blank w) : Wordy w := fun c hc => .inr (h c hc)

theorem wordy_of_identifier {w : List Char} (h : isIdentifier w = true) : Wordy w :=
  fun c hc => .inl (isIdentifier_all h c hc)

theorem Wordy.flat {w : List Char} (h : Wordy w) : Flat w := by
  intro c hc hmem
  simp only [List.mem_cons, List.not_mem_nil, or_false] at hmem
  rcases hmem with rfl | rfl | rfl | rfl <;> exact h.not_mem rfl hc

/-- Words before a condition. -/
inductive Guard
  | if_
  | for_
  | forAwait
  | while_
  | switch_
  deriving Repr, DecidableEq

namespace Guard

/-- What stands before the last word. -/
def before : Guard → List Char
  | forAwait => "for ".toList
  | _ => []

/-- The last word. -/
def word : Guard → List Char
  | if_ => "if".toList
  | for_ => "for".toList
  | forAwait => "await".toList
  | while_ => "while".toList
  | switch_ => "switch".toList

end Guard

/-- Headers of blocks that are no functions. -/
inductive Other
  | guarded (guard : Guard) (condition : List Char)
  | try_
  | do_
  | class_ (name : List Char)
  | subclass (name base : List Char)
  | mixed (name mixin base : List Char)
  deriving Repr, DecidableEq

/-- The name that a block has by the word before its parentheses. -/
def nameOf? (word : List Char) : Option String :=
  if keyword <:+ word then some Scope.anonymous
  else if notMethods.contains (String.ofList word) then none
  else some (String.ofList word)

namespace Other

def text : Other → List Char
  | guarded guard condition => guard.before ++ guard.word ++ ' ' :: '(' :: (condition ++ [')'])
  | try_ => "try".toList
  | do_ => "do".toList
  | class_ name => "class ".toList ++ name
  | subclass name base => "class ".toList ++ name ++ " extends ".toList ++ base
  | mixed name mixin base => "class ".toList ++ name ++ " extends ".toList ++ mixin ++ '(' :: (base ++ [')'])

/-- Conditions have neither parentheses nor braces, and all names are identifiers. -/
def WellFormed : Other → Prop
  | guarded _ condition => Flat condition
  | try_ | do_ => True
  | class_ name => isIdentifier name = true
  | subclass name base => isIdentifier name = true ∧ isIdentifier base = true
  | mixed name mixin base =>
    isIdentifier name = true ∧ isIdentifier mixin = true ∧ isIdentifier base = true

instance : DecidablePred WellFormed
  | guarded _ condition => inferInstanceAs (Decidable (Flat condition))
  | try_ | do_ => inferInstanceAs (Decidable True)
  | class_ name => inferInstanceAs (Decidable (isIdentifier name = true))
  | subclass name base => inferInstanceAs (Decidable (isIdentifier name = true ∧ isIdentifier base = true))
  | mixed name mixin base =>
    inferInstanceAs (Decidable (isIdentifier name = true ∧ isIdentifier mixin = true ∧ isIdentifier base = true))

/-- The name under which a block is taken for a function, if it is. -/
def takenFor? : Other → Option String
  | guarded .forAwait _ => some "await"
  | mixed _ mixin _ => nameOf? mixin
  | _ => none

end Other

/-- A header with the blanks around it. -/
structure Placed where
  lead : List Char
  header : Other
  gap : List Char
  deriving Repr, DecidableEq

namespace Placed

def text (b : Placed) : List Char := b.lead ++ b.header.text ++ b.gap

structure WellFormed (b : Placed) : Prop where
  lead : Blank b.lead
  header : b.header.WellFormed
  gap : Blank b.gap

instance : DecidablePred WellFormed := fun b =>
  decidable_of_iff (Blank b.lead ∧ b.header.WellFormed ∧ Blank b.gap)
    ⟨fun ⟨hlead, hheader, hgap⟩ => ⟨hlead, hheader, hgap⟩, fun h => ⟨h.lead, h.header, h.gap⟩⟩

end Placed

theorem Called.undeclared_of_last {e : Called} {x b : List Char} (hlead : e.lead = x ++ b)
    (hx : x.getLast?.any isBlank = false) (hb : Blank b)
    (hlast : x.getLast? ≠ keyword.getLast?) : e.Undeclared := by
  intro y g hne hg h
  rw [hlead, ← List.append_assoc] at h
  obtain ⟨rfl, -⟩ := append_unique h hx hb (getLast?_any_of_all y (by decide) keyword_word
    fun _ => isBlank_of_isIdentChar) hg
  exact hlast (by rw [List.getLast?_append]; rfl)

theorem getLast?_any_blank {w : List Char} (h : Blank w) :
    w.getLast?.any isIdentChar = false := by
  cases hw : w.getLast? with
  | none => rfl
  | some c => exact isIdentChar_of_isBlank (h c (List.mem_of_getLast? hw))

section

variable {lead gap : List Char} (hlead : Blank lead) (hgap : Blank gap)

/-- A guard with its condition. -/
def Guard.called (guard : Guard) {condition : List Char} (h : Flat condition) :
    Called where
  lead := lead ++ guard.before
  word := guard.word
  space := [' ']
  inner := condition
  gap := gap
  wordy := (wordy_of_blank hlead).append (by cases guard <;> decide)
  edge := by
    cases guard with
    | forAwait =>
      rw [List.getLast?_append]
      rfl
    | _ =>
      change (lead ++ []).getLast?.any isIdentChar = false
      rw [List.append_nil]
      exact getLast?_any_blank hlead
  identifier := by cases guard <;> decide
  space_blank := by decide
  inner_flat := h
  gap_blank := hgap

theorem Guard.called_text (guard : Guard) {condition : List Char}
    (h : Flat condition) :
    (guard.called hlead hgap h).text = lead ++ (Other.guarded guard condition).text ++ gap := by
  change (((lead ++ guard.before) ++ guard.word) ++ [' ']) ++ '(' :: (condition ++ ')' :: gap) =
    lead ++ (guard.before ++ guard.word ++ ' ' :: '(' :: (condition ++ [')'])) ++ gap
  simp only [List.append_assoc, List.cons_append, List.nil_append]

theorem Guard.takenFor?_eq (guard : Guard) (condition : List Char) :
    (Other.guarded guard condition).takenFor? = nameOf? guard.word := by
  have hword : nameOf? guard.word = if guard = .forAwait then some "await" else none := by
    cases guard <;> decide
  rw [hword]
  cases guard <;> rfl

/-- No condition is a declaration. -/
theorem Guard.called_undeclared (guard : Guard) {condition : List Char}
    (h : Flat condition) : (guard.called hlead hgap h).Undeclared := by
  cases guard with
  | forAwait =>
    refine Called.undeclared_of_last (x := lead ++ "for".toList) (b := [' ']) (by simp [called, before]) ?_
      (by decide) ?_
    · rw [List.getLast?_append]
      rfl
    · rw [List.getLast?_append]
      change some 'r' ≠ some 'n'
      decide
  | _ =>
    exact Called.undeclared_of_last (x := []) (b := lead) (by simp [called, before]) rfl hlead (by decide)

/-- A class whose base is made by a call. -/
def Other.called {name mixin base : List Char} (hname : isIdentifier name = true)
    (hmixin : isIdentifier mixin = true) (hbase : isIdentifier base = true) : Called where
  lead := lead ++ "class ".toList ++ name ++ " extends ".toList
  word := mixin
  space := []
  inner := base
  gap := gap
  wordy := (((wordy_of_blank hlead).append (by decide)).append (wordy_of_identifier hname)).append (by decide)
  edge := by
    rw [List.getLast?_append]
    rfl
  identifier := hmixin
  space_blank := blank_nil
  inner_flat := (wordy_of_identifier hbase).flat
  gap_blank := hgap

theorem Other.called_text {name mixin base : List Char} (hname : isIdentifier name = true)
    (hmixin : isIdentifier mixin = true) (hbase : isIdentifier base = true) :
    (Other.called hlead hgap hname hmixin hbase).text = lead ++ (mixed name mixin base).text ++ gap := by
  change (((lead ++ "class ".toList ++ name ++ " extends ".toList) ++ mixin) ++ []) ++
      '(' :: (base ++ ')' :: gap) =
    lead ++ ("class ".toList ++ name ++ " extends ".toList ++ mixin ++ '(' :: (base ++ [')'])) ++ gap
  simp only [List.append_assoc, List.cons_append, List.nil_append]

theorem Other.called_undeclared {name mixin base : List Char} (hname : isIdentifier name = true)
    (hmixin : isIdentifier mixin = true) (hbase : isIdentifier base = true) :
    (Other.called hlead hgap hname hmixin hbase).Undeclared := by
  refine Called.undeclared_of_last (x := lead ++ "class ".toList ++ name ++ " extends".toList) (b := [' '])
    (by simp [called]) ?_ (by decide) ?_
  · rw [List.getLast?_append]
    rfl
  · rw [List.getLast?_append]
    change some 's' ≠ some 'n'
    decide

end

namespace Placed

variable {b : Placed} {u : List Char}

/-- A header is words, or words and a pair of parentheses. -/
theorem WellFormed.shape (h : b.WellFormed) : (Wordy b.text ∧ b.header.takenFor? = none) ∨
    ∃ e : Called, e.text = b.text ∧ e.Undeclared ∧ b.header.takenFor? = nameOf? e.word := by
  obtain ⟨hlead, hheader, hgap⟩ := h
  have hwords {w : List Char} (hw : Wordy w) : Wordy (b.lead ++ w ++ b.gap) :=
    ((wordy_of_blank hlead).append hw).append (wordy_of_blank hgap)
  rw [text]
  cases hb : b.header with
  | guarded guard condition =>
    rw [hb] at hheader
    refine .inr ⟨guard.called hlead hgap hheader, ?_, guard.called_undeclared hlead hgap hheader, ?_⟩
    · exact guard.called_text hlead hgap hheader
    · exact guard.takenFor?_eq condition
  | try_ => exact .inl ⟨hwords (by decide), rfl⟩
  | do_ => exact .inl ⟨hwords (by decide), rfl⟩
  | class_ name =>
    rw [hb] at hheader
    exact .inl ⟨hwords (.append (by decide) (wordy_of_identifier hheader)), rfl⟩
  | subclass name base =>
    rw [hb] at hheader
    obtain ⟨hname, hbase⟩ := hheader
    exact .inl ⟨hwords (.append (.append (.append (by decide) (wordy_of_identifier hname)) (by decide))
      (wordy_of_identifier hbase)), rfl⟩
  | mixed name mixin base =>
    rw [hb] at hheader
    obtain ⟨hname, hmixin, hbase⟩ := hheader
    refine .inr ⟨Other.called hlead hgap hname hmixin hbase, ?_,
      Other.called_undeclared hlead hgap hname hmixin hbase, rfl⟩
    exact Other.called_text hlead hgap hname hmixin hbase

theorem WellFormed.plain (h : b.WellFormed) : '{' ∉ b.text ∧ '}' ∉ b.text := by
  rcases h.shape with ⟨hw, -⟩ | ⟨e, he, -⟩
  · exact ⟨hw.not_mem rfl, hw.not_mem rfl⟩
  · rw [← he]
    exact ⟨e.flat (by simp), e.flat (by simp)⟩

theorem WellFormed.find?_name (h : b.WellFormed) (hu : Prelude u) :
    (find? (u ++ b.text)).map (fun found => found.name.getD Scope.anonymous) = b.header.takenFor? := by
  rcases h.shape with ⟨hw, hnone⟩ | ⟨e, he, hundeclared, hname⟩
  · rw [hw.find?_eq_none hu, hnone]
    rfl
  · have hfind := congrArg (Option.map fun name => name.getD Scope.anonymous) (e.find?_name hu hundeclared)
    rw [Option.map_map, he] at hfind
    rw [hname, nameOf?]
    refine hfind.trans ?_
    split
    · rfl
    · split <;> rfl

end Placed

end Callees.Header
