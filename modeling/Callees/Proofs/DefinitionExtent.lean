import Callees.Proofs.Blocks
import Callees.Proofs.FoundDefinition

namespace Callees

namespace Block

/-- A `}` of the text takes the depth to zero, after a `{`. -/
def Depth.ClosesIn (d : Depth) (w : List Char) : Prop :=
  ∃ inner rest, w = inner ++ '}' :: rest ∧ (d.opened = true ∨ '{' ∈ inner) ∧
    d.level + net inner = 1

/-- The depth behind a text in which no block closes. -/
def Depth.after (d : Depth) (w : List Char) : Depth := ⟨d.level + net w, d.opened || w.contains '{'⟩

/-- A block opens and closes in the text. -/
def Closes (w : List Char) : Prop := Depth.ClosesIn ⟨0, false⟩ w

theorem Depth.after_nil (d : Depth) : d.after [] = d := by
  simp [after]

theorem Depth.after_after (d : Depth) (u v : List Char) : (d.after u).after v = d.after (u ++ v) := by
  simp [after, Int.add_assoc, Bool.or_assoc]

theorem Depth.not_closesIn_nil (d : Depth) : ¬ d.ClosesIn [] := by
  rintro ⟨inner, rest, h, -⟩
  exact List.append_ne_nil_of_right_ne_nil inner (List.cons_ne_nil _ _) h.symm

theorem Depth.closesIn_cons {d : Depth} {c : Char} {cs : List Char} : d.ClosesIn (c :: cs) ↔
    (c = '}' ∧ d.opened = true ∧ d.level = 1) ∨ (d.after [c]).ClosesIn cs := by
  constructor
  · rintro ⟨inner, rest, h, hopened, hlevel⟩
    cases inner with
    | nil =>
      cases h
      exact .inl ⟨rfl, hopened.resolve_right (List.not_mem_nil), by simpa using hlevel⟩
    | cons a inner =>
      cases h
      refine .inr ⟨inner, rest, rfl, ?_, ?_⟩
      · simpa [after, or_assoc] using hopened
      · rw [show c :: inner = [c] ++ inner from rfl, net_append] at hlevel
        simp only [after]
        omega
  · rintro (⟨rfl, hopened, hlevel⟩ | ⟨inner, rest, rfl, hopened, hlevel⟩)
    · exact ⟨[], cs, rfl, .inl hopened, by simpa using hlevel⟩
    · refine ⟨c :: inner, rest, rfl, ?_, ?_⟩
      · simpa [after, or_assoc] using hopened
      · rw [show c :: inner = [c] ++ inner from rfl, net_append]
        simp only [after] at hlevel
        omega

theorem Depth.closesIn_append {d : Depth} {u v : List Char} :
    d.ClosesIn (u ++ v) ↔ d.ClosesIn u ∨ (d.after u).ClosesIn v := by
  induction u generalizing d with
  | nil => simp [d.after_nil, d.not_closesIn_nil]
  | cons c u ih =>
    rw [List.cons_append, closesIn_cons, closesIn_cons, ih, or_assoc, after_after]
    rfl

/-- The count over a line ends where a block closes, and is the depth behind the line otherwise. -/
theorem afterLine_cases (d : Depth) (line : List Char) :
    (d.afterLine line = none ∧ d.ClosesIn line) ∨
      (d.afterLine line = some (d.after line) ∧ ¬ d.ClosesIn line) := by
  induction line generalizing d with
  | nil => exact .inr ⟨congrArg some d.after_nil.symm, d.not_closesIn_nil⟩
  | cons c cs ih =>
    have hafter : (d.after [c]).after cs = d.after (c :: cs) := d.after_after [c] cs
    rw [Depth.closesIn_cons, ← hafter, Depth.afterLine]
    by_cases hopen : c = '{'
    · subst hopen
      have hd : d.after ['{'] = ⟨d.level + 1, true⟩ := by simp [Depth.after]
      simpa [hd] using ih ⟨d.level + 1, true⟩
    · by_cases hclose : c = '}'
      · subst hclose
        have hd : d.after ['}'] = ⟨d.level - 1, d.opened⟩ := by simp [Depth.after, Int.sub_eq_add_neg]
        by_cases hends : d.opened = true ∧ d.level = 1
        · simp [hends]
        · have h := ih ⟨d.level - 1, d.opened⟩
          simpa [hd, hends] using h
      · have hd : d.after [c] = d := by
          have hnet : net [c] = 0 :=
            net_eq_zero (by simpa using Ne.symm hopen) (by simpa using Ne.symm hclose)
          simp [Depth.after, hnet, Ne.symm hopen]
        simpa [hopen, hclose, hd] using ih d

/-- The lines are collected up to the first with which a block closes. -/
theorem bodyFrom_some {d : Depth} {i : Nat} {ls : List (List Char)} {b : Body}
    (h : bodyFrom d i ls = some b) : ∃ k, b.endLine = i + k ∧ b.lines = ls.take (k + 1) ∧
      ∀ n, k < n ↔ d.ClosesIn (ls.take n).flatten := by
  induction ls generalizing d i b with
  | nil => cases h
  | cons line rest ih =>
    rw [bodyFrom] at h
    obtain ⟨hnone, hcloses⟩ | ⟨hsome, hopen⟩ := afterLine_cases d line
    · rw [hnone] at h
      cases h
      refine ⟨0, rfl, rfl, fun n => ?_⟩
      cases n with
      | zero => exact iff_of_false (Nat.lt_irrefl 0) d.not_closesIn_nil
      | succ n => exact iff_of_true n.succ_pos (Depth.closesIn_append.mpr (.inl hcloses))
    · rw [hsome] at h
      obtain ⟨b, hb, rfl⟩ := Option.map_eq_some_iff.mp h
      obtain ⟨k, hend, hlines, hfirst⟩ := ih hb
      refine ⟨k + 1, ?_, congrArg (line :: ·) hlines, fun n => ?_⟩
      · rw [hend, Nat.add_assoc, Nat.add_comm 1 k]
      · cases n with
        | zero => exact iff_of_false (Nat.not_lt_zero _) d.not_closesIn_nil
        | succ n =>
          rw [Nat.succ_lt_succ_iff, hfirst, List.take_succ_cons, List.flatten_cons,
            Depth.closesIn_append, or_iff_right hopen]

theorem bodyFrom_none {d : Depth} {i : Nat} {ls : List (List Char)} :
    bodyFrom d i ls = none ↔ ¬ d.ClosesIn ls.flatten := by
  induction ls generalizing d i with
  | nil => exact iff_of_true rfl d.not_closesIn_nil
  | cons line rest ih =>
    rw [bodyFrom, List.flatten_cons, Depth.closesIn_append]
    obtain ⟨hnone, hcloses⟩ | ⟨hsome, hopen⟩ := afterLine_cases d line
    · simp [hnone, hcloses]
    · simp [hsome, hopen, ih]

/-- The lines from the first one to the first with which a block closes. -/
theorem body?_some {ls : List (List Char)} {n : Nat} {b : Body} (h : body? ls n = some b) :
    n ≤ b.endLine ∧ b.lines = (ls.drop n).take (b.endLine + 1 - n) ∧
      ∀ k, b.endLine < n + k ↔ Closes ((ls.drop n).take k).flatten := by
  rw [body?, if_neg (by omega), Int.toNat_natCast] at h
  obtain ⟨k, hend, hlines, hfirst⟩ := bodyFrom_some h
  refine ⟨by omega, ?_, fun j => ?_⟩
  · rw [hlines, hend, Nat.add_assoc, Nat.add_sub_cancel_left]
  · rw [hend, Nat.add_lt_add_iff_left]
    exact hfirst j

theorem body?_none {ls : List (List Char)} {n : Nat} :
    body? ls n = none ↔ ¬ Closes (ls.drop n).flatten := by
  rw [body?, if_neg (by omega), Int.toNat_natCast]
  exact bodyFrom_none

end Block

open Block

/-- The lines that a symbol touches. -/
def SymbolInfo.ownLines (info : SymbolInfo) (home : Document) : List (List Char) :=
  (home.lineTexts.drop info.range.start.line).take
    (info.range.stop.line + 1 - info.range.start.line)

/-- The lines from the one on which a symbol starts to the end of its document. -/
def SymbolInfo.linesOn (info : SymbolInfo) (home : Document) : List (List Char) :=
  home.lineTexts.drop info.range.start.line

/-- How far the definition that a symbol stands for reaches. -/
structure Definition.Reaches (info : SymbolInfo) (home : Document) (x : Definition) : Prop where
  range_eq : x.range = info.range
  start_eq : x.startLine = info.range.start.line
  ordered : x.startLine ≤ x.endLine
  within : x.endLine ≤ info.range.stop.line ↔
    Closes (info.ownLines home).flatten ∨ ¬ Closes (info.linesOn home).flatten
  block : Closes (info.linesOn home).flatten → x.content = String.ofList
    (List.intercalate ['\n'] ((info.linesOn home).take (x.endLine + 1 - x.startLine).toNat))
  unclosed : ¬ Closes (info.linesOn home).flatten →
    x.endLine = info.range.stop.line ∧ x.content = home.textIn info.range

theorem Definition.ofSymbol_reaches {name : String} {info : SymbolInfo} {home : Document}
    {x : Definition} (h : ofSymbol name info home = some x) : x.Reaches info home := by
  have hordered : info.range.start.line ≤ info.range.stop.line := by
    have hle := Position.le_iff.mp info.range.ordered
    omega
  unfold ofSymbol at h
  cases hb : body? home.lineTexts info.range.start.line with
  | none =>
    have hopen : ¬ Closes (info.linesOn home).flatten := body?_none.mp hb
    simp only [hb] at h
    split at h
    · cases h
    · cases h
      exact ⟨rfl, rfl, Int.ofNat_le.mpr hordered, iff_of_true (Int.le_refl _) (.inr hopen),
        fun hc => absurd hc hopen, fun _ => ⟨rfl, rfl⟩⟩
  | some body =>
    obtain ⟨hle, hlines, hfirst⟩ := body?_some hb
    have hcloses : Closes (info.linesOn home).flatten := by
      by_contra hopen
      cases (body?_none.mpr hopen).symm.trans hb
    simp only [hb] at h
    split at h
    · cases h
    · cases h
      refine ⟨rfl, rfl, Int.ofNat_le.mpr hle, ?_, fun _ => ?_, fun hopen => absurd hcloses hopen⟩
      · have hown := hfirst (info.range.stop.line + 1 - info.range.start.line)
        change _ ↔ Closes (info.ownLines home).flatten at hown
        rw [or_iff_left (not_not_intro hcloses), ← hown]
        simp only
        omega
      · have hcount : ((body.endLine : Int) + 1 - info.range.start.line).toNat =
            body.endLine + 1 - info.range.start.line := by omega
        rw [Body.content, hlines, hcount]
        rfl

/-- Whether a position is on a line of the document, and not past the end of that line. -/
def Document.contains (d : Document) (p : Position) : Bool :=
  d.lineTexts[p.line]?.any fun line => p.character ≤ line.length

namespace Resolver

variable {σ : Type} {r : Resolver σ} {symbols : String → Lookup σ (List SymbolInfo)} {name : String}
  {s : Session σ} {x : Definition}

/-- A definition from the index is that of the first callable symbol. It begins where the symbol does,
and stays within the symbol's lines exactly if a block closes in them, or in no line from there on. -/
theorem inIndex_reaches (h : ((r.inIndex symbols name).run s).1 = .ok (some x)) :
    ∃ infos s' info home, (symbols name).run s = (.ok infos, s') ∧
      (Definition.candidates name infos).head? = some info ∧
      ((r.openDocument info.uri).run s').1 = .ok home ∧ x.Reaches info home := by
  rw [inIndex, Lookup.run_bind] at h
  rcases hq : (symbols name).run s with ⟨f | infos, s'⟩ <;> rw [hq] at h
  · cases h
  · dsimp only at h
    cases hc : Definition.candidates name infos with
    | nil =>
      rw [hc] at h
      cases h
    | cons info rest =>
      rw [hc] at h
      dsimp only at h
      rw [Lookup.run_bind] at h
      rcases ho : (r.openDocument info.uri).run s' with ⟨f | home, s''⟩ <;> rw [ho] at h
      · cases h
      · exact ⟨infos, s', info, home, rfl, by rw [hc]; rfl, congrArg Prod.fst ho,
          Definition.ofSymbol_reaches (Except.ok.inj h)⟩

/-- An index that has the same answer to everything, beside a single document. -/
def oneHome (home : Document) : Resolver Unit :=
  ⟨fun _ => pure home, some fun _ => pure []⟩

def braced : Document :=
  ⟨"file:///w/a.js", "const inc = (x) => \x7b\n  return x + 1;\n\x7d;\nfunction other() \x7b\n\x7d\n",
    none, 0⟩

def bracedSymbol : SymbolInfo := ⟨"inc", .function, braced.uri, ⟨⟨0, 6⟩, ⟨2, 1⟩, by decide⟩, none⟩

def bracedDefinition : Definition :=
  ⟨"inc", braced.uri, bracedSymbol.range, "const inc = (x) => \x7b\n  return x + 1;\n\x7d;", 0, 2,
    .index⟩

theorem inIndex_reaches_braced :
    (((oneHome braced).inIndex (fun _ => pure [bracedSymbol]) "inc").run ⟨(), []⟩).1 =
        .ok (some bracedDefinition) ∧
      bracedDefinition.Reaches bracedSymbol braced ∧ Closes (bracedSymbol.ownLines braced).flatten := by
  have h : (((oneHome braced).inIndex (fun _ => pure [bracedSymbol]) "inc").run ⟨(), []⟩).1 =
      .ok (some bracedDefinition) := by decide +kernel
  obtain ⟨infos, s', info, home, hq, hfirst, ho, hreaches⟩ := inIndex_reaches h
  cases hq
  cases hfirst
  cases ho
  refine ⟨h, hreaches, (hreaches.within.mp (by decide)).resolve_right (not_not_intro ?_)⟩
  by_contra hopen
  exact absurd (hreaches.unclosed hopen).2 (by decide +kernel)

/-- An arrow without braces, and a function after it. -/
def unbraced : Document :=
  ⟨"file:///w/a.js", "const inc = (x) => x + 1;\nfunction other() \x7b\n  return 2;\n\x7d\n", none, 0⟩

def unbracedSymbol : SymbolInfo := ⟨"inc", .function, unbraced.uri, .onLine ⟨0, 6⟩ 18, none⟩

/-- The block of the function is taken for that of the arrow. -/
theorem inIndex_overruns : ¬ ∀ (r : Resolver Unit) (symbols : String → Lookup Unit (List SymbolInfo))
    (name : String) (s : Session Unit) (x : Definition) (infos : List SymbolInfo) (info : SymbolInfo)
    (home : Document),
    ((r.inIndex symbols name).run s).1 = .ok (some x) → symbols name = pure infos →
      (Definition.candidates name infos).head? = some info → r.openDocument info.uri = pure home →
      home.contains info.range.start = true → home.contains info.range.stop = true →
      x.endLine ≤ info.range.stop.line := by
  intro h
  have hrun : (((oneHome unbraced).inIndex (fun _ => pure [unbracedSymbol]) "inc").run ⟨(), []⟩).1 =
      .ok (some ⟨"inc", unbraced.uri, unbracedSymbol.range,
        "const inc = (x) => x + 1;\nfunction other() \x7b\n  return 2;\n\x7d", 0, 3, .index⟩) := by
    decide +kernel
  have hstart : unbraced.contains unbracedSymbol.range.start = true := by decide +kernel
  have hstop : unbraced.contains unbracedSymbol.range.stop = true := by decide +kernel
  have hle := h _ _ _ _ _ [unbracedSymbol] unbracedSymbol unbraced hrun rfl (by decide) rfl hstart hstop
  exact absurd hle (by decide)

end Resolver

end Callees
