import Callees.Proofs.Offsets
import Callees.Proofs.OtherBlocks

namespace Callees.Scope

open Block Header Text

/-- A function that holds blocks of other kinds, each inside the one before it. -/
structure Nest where
  name : List Char
  args : List Char
  gap : List Char
  blocks : List Placed
  body : List Char
  closing : List Char

namespace Nest

def header (n : Nest) : List Char := keyword ++ [' '] ++ n.name ++ '(' :: (n.args ++ ')' :: n.gap)

def headers (n : Nest) : List (List Char) := n.header :: n.blocks.map Placed.text

def text (n : Nest) : List Char := opened n.headers ++ (n.body ++ n.closing)

structure WellFormed (n : Nest) : Prop where
  name : isIdentifier n.name = true
  args : Flat n.args
  gap : Blank n.gap
  blocks : ∀ b ∈ n.blocks, b.WellFormed
  body : '{' ∉ n.body ∧ '}' ∉ n.body
  opens_none : '{' ∉ n.closing
  closes : n.closing.count '}' = n.blocks.length + 1
  last : n.closing.getLast? = some '}'

instance : DecidablePred WellFormed := fun n =>
  decidable_of_iff (isIdentifier n.name = true ∧ Flat n.args ∧
      Blank n.gap ∧ (∀ b ∈ n.blocks, b.WellFormed) ∧ ('{' ∉ n.body ∧ '}' ∉ n.body) ∧
      '{' ∉ n.closing ∧ n.closing.count '}' = n.blocks.length + 1 ∧ n.closing.getLast? = some '}')
    ⟨fun ⟨hname, hargs, hgap, hblocks, hbody, hopens, hcloses, hlast⟩ =>
      ⟨hname, hargs, hgap, hblocks, hbody, hopens, hcloses, hlast⟩,
    fun h => ⟨h.name, h.args, h.gap, h.blocks, h.body, h.opens_none, h.closes, h.last⟩⟩

/-- The offsets from behind the last header to before the first brace that closes. -/
def Inside (n : Nest) (o : Nat) : Prop :=
  (opened n.headers).length ≤ o ∧ o ≤ (opened n.headers).length + n.body.length

/-- The name of the innermost block that is taken for a function, and else that of the function. -/
def nameFound (n : Nest) : String :=
  (n.blocks.reverse.findSome? fun b => b.header.takenFor?).getD (String.ofList n.name)

variable {n : Nest}

/-- The header of the function. -/
def WellFormed.called (hn : n.WellFormed) : Called where
  lead := keyword ++ [' ']
  word := n.name
  space := []
  inner := n.args
  gap := n.gap
  wordy := by decide
  edge := rfl
  identifier := hn.name
  space_blank := blank_nil
  inner_flat := hn.args
  gap_blank := hn.gap

theorem WellFormed.called_text (hn : n.WellFormed) : hn.called.text = n.header := by
  change ((keyword ++ [' '] ++ n.name) ++ []) ++ '(' :: (n.args ++ ')' :: n.gap) =
    keyword ++ [' '] ++ n.name ++ '(' :: (n.args ++ ')' :: n.gap)
  simp only [List.append_nil]

theorem WellFormed.find?_header (hn : n.WellFormed) :
    find? n.header = some ⟨0, some (String.ofList n.name)⟩ := by
  rw [← hn.called_text]
  exact hn.called.find?_declared (g := [' ']) (by decide) (by decide) rfl

theorem WellFormed.nested (hn : n.WellFormed) : Nested n.headers n.body n.closing where
  headers_plain := by
    refine List.forall_mem_cons.mpr ⟨?_, List.forall_mem_map.mpr fun b hb => (hn.blocks b hb).plain⟩
    rw [← hn.called_text]
    exact ⟨hn.called.flat (by simp), hn.called.flat (by simp)⟩
  body_plain := hn.body
  opens_none := hn.opens_none
  closes := by rw [hn.closes, headers, List.length_cons, List.length_map]
  last := hn.last

theorem prelude_opened {hs : List (List Char)} (hplain : ∀ h ∈ hs, '{' ∉ h ∧ '}' ∉ h) :
    Prelude (opened hs) where
  closes_none := close_not_mem_opened hplain
  last := by
    intro c hc
    rcases List.eq_nil_or_concat hs with rfl | ⟨hs, h, rfl⟩
    · cases hc
    · rw [List.concat_eq_append, opened_append, opened_cons, opened_nil, List.getLast?_append,
        List.getLast?_append] at hc
      cases hc
      rfl

/-- What a block is taken for behind the headers before it. -/
theorem WellFormed.find?_block (hn : n.WellFormed) {before after : List (List Char)} {b : Placed}
    (hb : b ∈ n.blocks) (hsplit : n.headers = before ++ b.text :: after) :
    (find? (opened before ++ b.text)).map (fun found => found.name.getD anonymous) = b.header.takenFor? ∧
      ∀ found ∈ find? (opened before ++ b.text), (opened before).length ≤ found.start := by
  have hprelude : Prelude (opened before) := prelude_opened fun h hh =>
    hn.nested.headers_plain h (hsplit ▸ List.mem_append_left _ hh)
  have hplain := (hn.blocks b hb).plain
  exact ⟨(hn.blocks b hb).find?_name hprelude, fun found hfound => hprelude.start_le hplain.1 hplain.2 hfound⟩

end Nest

variable {n : Nest} {window : Int} {d : Document} {p : Position} {s e : Nat} {found : Header.Found}

/-- A window that is long enough leaves out nothing before a brace. -/
theorem headerBefore_all {text : List Char} (hw : text.length ≤ window) (hs : s ≤ text.length) :
    headerBefore window text s = find? (text.take s) := by
  rw [headerBefore, show (s - window).toNat = 0 by omega]
  rfl

section

variable (hn : n.WellFormed) (hd : d.chars = n.text) (hw : d.chars.length ≤ window)
  (ho : n.Inside (d.offsetAt p))

include hd hw in
theorem headerBefore_nest {before after : List (List Char)} {h : List Char}
    (hsplit : n.headers = before ++ h :: after) :
    headerBefore window d.chars (opened before ++ h).length = find? (opened before ++ h) := by
  have htext : d.chars = (opened before ++ h) ++ '{' :: (opened after ++ (n.body ++ n.closing)) := by
    rw [hd, Nest.text, hsplit]
    simp
  rw [headerBefore_all hw (by rw [htext]; simp), htext, List.take_left]

include hd in
/-- Behind its start the text is on, since it begins with a word. -/
theorem start_of_text {k : Nat} (hk : 0 < k) : d.positionAt (k : Nat) ≠ ⟨0, 0⟩ := by
  have hfirst : d.chars[0]? = some 'f' := by
    rw [hd]
    rfl
  have hlt := d.positionAt_lt_succ hfirst (by simp [IsBreak])
  have hmono := d.positionAt_mono (show 0 + 1 ≤ k from hk)
  rw [d.positionAt_zero] at hlt
  intro heq
  rw [heq, Position.le_iff] at hmono
  rw [Position.lt_iff] at hlt
  omega

include hn hd hw ho

/-- A block further in than the one that is found is not taken for a function. -/
theorem Innermost.none_within (hi : Innermost window d p s e found) {before after : List (List Char)}
    {b : Placed} (hb : b ∈ n.blocks) (hsplit : n.headers = before ++ b.text :: after)
    (hs : s < (opened before ++ b.text).length) : b.header.takenFor? = none := by
  have hnested := hn.nested
  have htext := hd
  obtain ⟨hlow, hhigh⟩ := ho
  rw [Nest.text, hsplit] at htext
  rw [hsplit] at hnested hlow hhigh
  obtain ⟨e', ha⟩ := hnested.around htext hlow hhigh
  have hnone := hi.nearest _ e' ha hs
  rw [headerBefore_nest hd hw hsplit] at hnone
  rw [← (hn.find?_block hb hsplit).1, hnone]
  rfl

/-- What is found is the function, or the innermost block that is taken for one. -/
theorem Innermost.nest_cases (hi : Innermost window d p s e found) :
    (found = ⟨0, some (String.ofList n.name)⟩ ∧ e + 1 = d.chars.length ∧
      ∀ b ∈ n.blocks, b.header.takenFor? = none) ∨
    ∃ bs b cs, n.blocks = bs ++ b :: cs ∧ b.header.takenFor? = some (found.name.getD anonymous) ∧
      (∀ c ∈ cs, c.header.takenFor? = none) ∧ 0 < found.start := by
  obtain ⟨before, h, after, hsplit, rfl⟩ := hn.nested.of_around hd ho.2 hi.around
  have hheader := hi.header
  rw [headerBefore_nest hd hw hsplit] at hheader
  -- the blocks behind the one that is found
  have hlater {cs : List Placed} (hcs : ∀ c ∈ cs, c ∈ n.blocks) (hafter : after = cs.map Placed.text) :
      ∀ c ∈ cs, c.header.takenFor? = none := by
    intro c hc
    obtain ⟨x, y, rfl⟩ := List.append_of_mem hc
    have hsplit' : n.headers = (before ++ h :: x.map Placed.text) ++ c.text :: y.map Placed.text := by
      rw [hsplit, hafter]
      simp
    refine hi.none_within hn hd hw ho (hcs c hc) hsplit' ?_
    simp only [opened_append, opened_cons, List.length_append, List.length_cons]
    omega
  cases before with
  | nil =>
    obtain ⟨rfl, hafter⟩ := List.cons.inj hsplit
    rw [opened_nil, List.nil_append, hn.find?_header] at hheader
    refine .inl ⟨(Option.some.inj hheader).symm, ?_, hlater (fun _ hc => hc) hafter.symm⟩
    exact hn.nested.outermost_ends hd ho.1 hi.around
  | cons first before =>
    obtain ⟨rfl, hblocks⟩ := List.cons.inj hsplit
    obtain ⟨bs, rest, hsplit', rfl, hrest⟩ := List.map_eq_append_iff.mp hblocks
    obtain ⟨b, cs, rfl, rfl, hcs⟩ := List.map_eq_cons_iff.mp hrest
    have hb : b ∈ n.blocks := hsplit' ▸ by simp
    obtain ⟨htaken, hstart⟩ := hn.find?_block hb hsplit
    rw [hheader] at htaken
    refine .inr ⟨bs, b, cs, hsplit', htaken.symm, hlater (fun c hc => hsplit' ▸ by simp [hc]) hcs.symm, ?_⟩
    have hle := hstart found hheader
    simp only [opened_cons, List.length_append, List.length_cons] at hle
    omega

/-- From everywhere inside, the whole function is found, unless some block around the place is taken for a
function: then the innermost of those is found. -/
theorem found_through_blocks : ∃ scope, ofBraces window d p = .ok (some scope) ∧
    scope.name = n.nameFound ∧
    ((scope.name = String.ofList n.name ∧ scope.range.start = ⟨0, 0⟩ ∧
      scope.range.stop = d.positionAt (d.chars.length : Nat)) ↔
      ∀ b ∈ n.blocks, b.header.takenFor? = none) := by
  rcases ofBraces_cases window d p with ⟨-, hnone⟩ | ⟨s, e, found, r, hi, hr, hstart, hstop⟩
  · -- the function itself has a header
    have hfirst : n.headers = [] ++ n.header :: n.blocks.map Placed.text := rfl
    have hnested : Nested ([] ++ n.header :: n.blocks.map Placed.text) n.body n.closing := hn.nested
    obtain ⟨e, ha⟩ := hnested.around hd ho.1 ho.2
    have hheader := hnone _ e ha
    rw [headerBefore_nest hd hw hfirst, opened_nil, List.nil_append, hn.find?_header] at hheader
    cases hheader
  · refine ⟨_, hr, ?_⟩
    have hbase : (s - window).toNat = 0 := by
      have := (List.getElem?_eq_some_iff.mp hi.around.block.opens).1
      omega
    rw [headerStart, hbase, Nat.zero_add] at hstart
    rcases hi.nest_cases hn hd hw ho with ⟨rfl, hend, hall⟩ | ⟨bs, b, cs, hsplit, htaken, hall, hpos⟩
    · have hfound : n.blocks.reverse.findSome? (fun b => b.header.takenFor?) = none :=
        List.findSome?_eq_none_iff.mpr fun b hb => hall b (List.mem_reverse.mp hb)
      refine ⟨by rw [Nest.nameFound, hfound]; rfl, iff_of_true ⟨rfl, ?_, ?_⟩ hall⟩
      · exact hstart.trans d.positionAt_zero
      · rw [hstop, hend]
    · have hcs : cs.reverse.findSome? (fun b => b.header.takenFor?) = none :=
        List.findSome?_eq_none_iff.mpr fun c hc => hall c (List.mem_reverse.mp hc)
      refine ⟨?_, iff_of_false ?_ ?_⟩
      · rw [Nest.nameFound, hsplit, List.reverse_append, List.reverse_cons, List.append_assoc,
          List.findSome?_append, hcs, Option.none_or, List.singleton_append, List.findSome?_cons, htaken]
        rfl
      · rintro ⟨-, hzero, -⟩
        exact start_of_text hd hpos (hstart.symm.trans hzero)
      · intro hnone
        rw [hnone b (hsplit ▸ by simp)] at htaken
        cases htaken

end

/-- A class, an attempt and a loop in a function, on lines of their own. -/
def chores : Nest where
  name := "tidy".toList
  args := "list, n = 1".toList
  gap := [' ']
  blocks := [⟨"\r\n  ".toList, .mixed "Shelf".toList "with".toList "Box".toList, [' ']⟩,
    ⟨"\n".toList, .try_, []⟩, ⟨[' '], .guarded .for_ "const x of list".toList, "\n".toList⟩]
  body := " put; ".toList
  closing := "\x7d\n\x7d \x7d\n\x7d".toList

def choresText : Document := ⟨"file:///tidy.js", String.ofList chores.text, none, 0⟩

/-- None of the three blocks is taken for a function, so the function is found from the last one. -/
theorem found_through_blocks_chores : ∃ scope, ofBraces 200 choresText ⟨3, 3⟩ = .ok (some scope) ∧
    scope.name = "tidy" ∧ scope.range.start = ⟨0, 0⟩ ∧
    scope.range.stop = choresText.positionAt (choresText.chars.length : Nat) := by
  have htext : choresText.chars = chores.text := String.toList_ofList ..
  have hwindow : choresText.chars.length ≤ 200 := by decide +kernel
  have hinside : chores.Inside (choresText.offsetAt ⟨3, 3⟩) := ⟨by decide +kernel, by decide +kernel⟩
  obtain ⟨scope, hr, -, hfound⟩ :=
    found_through_blocks (by decide) htext (Int.ofNat_le.mpr hwindow) hinside
  exact ⟨scope, hr, hfound.mpr (by decide)⟩

def stream : Nest where
  name := ['f']
  args := ['a']
  gap := [' ']
  blocks := [⟨[], .guarded .forAwait ['x'], [' ']⟩]
  body := ['y']
  closing := ['\x7d', '\x7d']

/-- A loop that awaits is taken for a function of that name. -/
theorem await_taken : ¬ ∀ (n : Nest) (d : Document) (window : Int) (p : Position), n.WellFormed →
    String.ofList n.name ∉ Keyword.control ++ Keyword.declaration → n.blocks ≠ [] →
    n.closing = List.replicate (n.blocks.length + 1) '}' → d.chars = n.text →
    d.chars.length ≤ window → n.Inside (d.offsetAt p) →
      ∃ scope, ofBraces window d p = .ok (some scope) ∧ scope.name = String.ofList n.name ∧
        scope.range.start = ⟨0, 0⟩ ∧ scope.range.stop = d.positionAt (d.chars.length : Nat) := by
  intro h
  let text : Document := ⟨"file:///stream.js", String.ofList stream.text, none, 0⟩
  obtain ⟨scope, hr, hname, -⟩ := h stream text 200 ⟨0, 30⟩ (by decide) (by decide) (by decide) rfl
    (String.toList_ofList ..) (by decide +kernel) ⟨by decide +kernel, by decide +kernel⟩
  have hawait : (ofBraces 200 text ⟨0, 30⟩).toOption.bind (·.map Scope.name) = some "await" := by
    decide +kernel
  rw [hr] at hawait
  exact absurd (hname.symm.trans (Option.some.inj hawait)) (by decide)

end Callees.Scope
