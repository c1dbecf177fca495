import Callees.Proofs.TomlScan

namespace Callees.Toml

variable {cs rest : List Char}

theorem keyPart?_suffix {s : String} (h : keyPart? cs = some (s, rest)) : rest <:+ cs := by
  simp only [keyPart?] at h
  split at h
  · exact (map_suffix h (fun _ => rfl) basic?_suffix).trans (List.suffix_cons ..)
  · exact (map_suffix h (fun _ => rfl) literal?_suffix).trans (List.suffix_cons ..)
  · simp only [Option.ite_none_left_eq_some, Option.some.injEq, Prod.mk.injEq] at h
    obtain ⟨-, -, rfl⟩ := h
    exact List.drop_suffix ..

theorem key?_suffix {n : Nat} {key : List String} (h : key? n cs = some (key, rest)) :
    rest <:+ cs := by
  induction n generalizing cs rest key with
  | zero => cases h
  | succ n ih =>
    simp only [key?, Option.bind_eq_bind, Option.bind_eq_some_iff, Prod.exists] at h
    obtain ⟨part, left, hpart, h⟩ := h
    have hleft := (skipSpace_suffix left).trans (keyPart?_suffix hpart)
    split at h
    · next left' hpoint =>
      simp only [Option.bind_eq_some_iff, Prod.exists, Option.some.injEq, Prod.mk.injEq] at h
      obtain ⟨parts, left'', hparts, -, rfl⟩ := h
      rw [hpoint] at hleft
      exact ((ih hparts).trans (skipSpace_suffix _)).trans ((List.suffix_cons ..).trans hleft)
    · cases h
      exact hleft

theorem skipGaps?_suffix {n : Nat} (h : skipGaps? n cs = some rest) : rest <:+ cs := by
  induction n generalizing cs with
  | zero => cases h
  | succ n ih =>
    have hblank := List.dropWhile_suffix (l := cs) fun c => Text.isSpaceOrTab c || c == '\n'
    simp only [skipGaps?] at h
    split at h
    · next left hcomment =>
      rw [hcomment] at hblank
      split at h
      · cases h
      · exact ((ih h).trans (List.drop_suffix ..)).trans ((List.suffix_cons ..).trans hblank)
    · cases h
      exact hblank

theorem gaps?_suffix (h : gaps? cs = some rest) : rest <:+ cs := skipGaps?_suffix h

theorem endOfLine?_suffix (h : endOfLine? cs = some rest) : rest <:+ cs := by
  have hspace := skipSpace_suffix cs
  simp only [endOfLine?] at h
  split at h
  · cases h
    exact List.nil_suffix
  · next left hleft =>
    cases h
    refine (List.suffix_cons '\n' rest).trans ?_
    split at hleft
    · next left hcomment =>
      rw [hcomment] at hspace
      simp only [Option.ite_none_left_eq_some, Option.some.injEq] at hleft
      rw [← hleft.2]
      exact (List.drop_suffix ..).trans ((List.suffix_cons ..).trans hspace)
    · next hleft' =>
      rw [← Option.some.inj hleft]
      exact hspace
  · cases h

theorem after?_suffix {word : String} (h : after? word cs = some rest) : rest <:+ cs := by
  rw [after?] at h
  generalize word.toList = ws at h
  induction ws generalizing cs with
  | nil =>
    cases h
    exact List.suffix_refl _
  | cons w ws ih =>
    cases cs with
    | nil => cases h
    | cons c cs =>
      simp only [JsonReader.after?, Option.ite_none_right_eq_some] at h
      exact (ih h.2).trans (List.suffix_cons ..)

theorem heading?_suffix {s s' : State} (h : heading? s cs = some (s', rest)) : rest <:+ cs := by
  rw [heading?.eq_def] at h
  split at h
  · next left =>
    simp only [Option.bind_eq_bind, Option.bind_eq_some_iff, Prod.exists] at h
    obtain ⟨key, left', hkey, opened, -, h⟩ := h
    have hleft := (key?_suffix hkey).trans ((skipSpace_suffix _).trans (List.suffix_cons '[' left))
    split at h
    · cases h
      exact (List.suffix_append [']', ']'] _).trans hleft
    · cases h
  · simp only [Option.bind_eq_bind, Option.bind_eq_some_iff, Prod.exists] at h
    obtain ⟨key, left', hkey, opened, -, h⟩ := h
    have hleft := (key?_suffix hkey).trans (skipSpace_suffix _)
    split at h
    · cases h
      exact (List.suffix_cons ..).trans hleft
    · cases h

theorem scalar?_scanned {found : Except Fault Data} (h : scalar? cs = some (found, rest)) :
    Scanned cs found rest := by
  rw [scalar?.eq_def] at h
  split at h
  case h_1 | h_2 =>
    simp only [Option.map_eq_some_iff, Prod.exists, Prod.mk.injEq] at h
    obtain ⟨s, left, hstring, rfl, rfl⟩ := h
    exact scanned_ok (string?_suffix hstring)
  · cases htrue : after? "true" cs with
    | some left =>
      simp only [htrue] at h
      cases h
      exact scanned_ok (after?_suffix htrue)
    | none =>
      cases hfalse : after? "false" cs with
      | some left =>
        simp only [htrue, hfalse] at h
        cases h
        exact scanned_ok (after?_suffix hfalse)
      | none =>
        simp only [htrue, hfalse] at h
        split at h
        · next m left hmoment =>
          simp only [Option.map_eq_some_iff, Prod.mk.injEq] at h
          obtain ⟨m, -, rfl, rfl⟩ := h
          exact scanned_ok (moment?_suffix hmoment)
        · split at h
          · next number hnumber =>
            cases h
            exact number?_scanned hnumber
          · simp only [Option.map_eq_some_iff, Prod.exists, Prod.mk.injEq] at h
            obtain ⟨d, left, hspecial, rfl, rfl⟩ := h
            exact scanned_ok (special?_suffix hspecial)

/-- So many calls can be open in one another in a text at most: an array takes two of them, and a table
in braces takes three. -/
def weight (cs : List Char) : Nat := 2 * cs.count '[' + 3 * cs.count '\x7b'

theorem weight_array (cs : List Char) : weight ('[' :: cs) = weight cs + 2 := by
  rw [weight, weight, List.count_cons_self, List.count_cons_of_ne (by decide)]
  omega

theorem weight_table (cs : List Char) : weight ('\x7b' :: cs) = weight cs + 3 := by
  rw [weight, weight, List.count_cons_self, List.count_cons_of_ne (by decide)]
  omega

theorem weight_suffix (h : rest <:+ cs) : weight rest ≤ weight cs := by
  have harrays := h.sublist.count_le '['
  have htables := h.sublist.count_le '\x7b'
  rw [weight, weight]
  omega

/-- The stack ends somewhere in a text, with no more calls open than so many. -/
def Overflows (stack : Stack) (bound : Nat) (cs : List Char) : Prop :=
  ∃ opened ≤ bound, ∃ rest, rest <:+ cs ∧ stack opened rest = true

theorem overflows_holding {calls bound : Nat} :
    Overflows (.holding calls) bound cs ↔ calls ≤ bound := by
  constructor
  · intro h
    obtain ⟨opened, hopened, rest, -, hends⟩ := h
    exact Nat.le_trans (of_decide_eq_true hends) hopened
  · intro h
    exact ⟨bound, Nat.le_refl _, cs, List.suffix_refl _, decide_eq_true h⟩

/-- What a text has to have in it for a fault other than its form. -/
def Explained (stack : Stack) (bound : Nat) (cs : List Char) : Fault → Prop
  | .malformed => True
  | .tooManyDigits count => Overlong cs count
  | .tooDeep => Overflows stack bound cs

theorem Explained.behind {stack : Stack} {bound bound' : Nat} {f : Fault}
    (h : Explained stack bound rest f) (hrest : rest <:+ cs) (hbound : bound ≤ bound') :
    Explained stack bound' cs f := by
  cases f with
  | malformed => trivial
  | tooManyDigits count => exact Overlong.behind h hrest
  | tooDeep =>
    obtain ⟨opened, hopened, left, hleft, hends⟩ := h
    exact ⟨opened, Nat.le_trans hopened hbound, left, hleft.trans hrest, hends⟩

/-- What a reading comes to: an end of the text, or a fault that the text accounts for. -/
structure Accounted {α : Type} (stack : Stack) (bound : Nat) (cs : List Char)
    (r : Except Fault (α × List Char)) : Prop where
  rest : ∀ a rest, r = .ok (a, rest) → rest <:+ cs
  fault : ∀ f, r = .error f → Explained stack bound cs f

section Accounted

variable {α β γ : Type} {stack : Stack} {bound bound' : Nat}

theorem accounted_ok {a : α} (h : rest <:+ cs) : Accounted stack bound cs (.ok (a, rest)) := by
  refine ⟨?_, nofun⟩
  intro a' rest' heq
  cases heq
  exact h

theorem accounted_error {f : Fault} (h : Explained stack bound cs f) :
    Accounted stack bound cs (.error f : Except Fault (α × List Char)) := by
  refine ⟨nofun, ?_⟩
  intro f' heq
  cases heq
  exact h

theorem accounted_malformed :
    Accounted stack bound cs (.error .malformed : Except Fault (α × List Char)) :=
  accounted_error trivial

theorem Accounted.behind {r : Except Fault (α × List Char)} (h : Accounted stack bound rest r)
    (hrest : rest <:+ cs) (hbound : bound ≤ bound') : Accounted stack bound' cs r := by
  refine ⟨?_, ?_⟩
  · intro a left heq
    exact (h.rest a left heq).trans hrest
  · intro f heq
    exact (h.fault f heq).behind hrest hbound

/-- Reading on where a first reading has stopped. -/
theorem Accounted.bind {r : Except Fault (α × List Char)}
    {f : α × List Char → Except Fault (β × List Char)} (h : Accounted stack bound' cs r)
    (hbound : bound' ≤ bound)
    (hf : ∀ a left, left <:+ cs → Accounted stack bound left (f (a, left))) :
    Accounted stack bound cs (r >>= f) := by
  cases r with
  | error fault => exact accounted_error ((h.fault fault rfl).behind (List.suffix_refl _) hbound)
  | ok found =>
    obtain ⟨a, left⟩ := found
    have hleft := h.rest a left rfl
    exact (hf a left hleft).behind hleft (Nat.le_refl _)

/-- A call is made only where the stack does not end. -/
theorem accounted_enter {opened : Nat} {f : Unit → Except Fault (α × List Char)}
    (hopened : opened ≤ bound) (hf : Accounted stack bound cs (f ())) :
    Accounted stack bound cs (stack.enter opened cs >>= f) := by
  rw [Stack.enter]
  split
  · next hends =>
    exact accounted_error (f := .tooDeep) ⟨opened, hopened, cs, List.suffix_refl _, hends⟩
  · exact hf

theorem accounted_present {o : Option γ} {f : γ → Except Fault (β × List Char)}
    (hf : ∀ c, o = some c → Accounted stack bound cs (f c)) :
    Accounted stack bound cs (present o >>= f) := by
  cases o with
  | none => exact accounted_malformed
  | some c => exact hf c rfl

theorem Scanned.accounted {found : Except Fault Data} (h : Scanned cs found rest) :
    Accounted stack bound cs (found >>= fun d => .ok (d, rest)) := by
  cases found with
  | ok d => exact accounted_ok h.rest
  | error fault =>
    obtain ⟨count, rfl, hlong⟩ := h.fault fault rfl
    exact accounted_error hlong

end Accounted

mutual

theorem value_accounted (stack : Stack) (n opened : Nat) (cs : List Char) :
    Accounted stack (opened + weight cs) cs (value stack n opened cs) := by
  cases n with
  | zero => exact accounted_malformed
  | succ n =>
    rw [value.eq_def]
    apply accounted_enter (Nat.le_add_right ..)
    split
    · next left =>
      apply accounted_present
      intro left' hgaps
      have hleft := gaps?_suffix hgaps
      have hweight := weight_suffix hleft
      have hbound : opened + 1 + weight left' + 1 ≤ opened + (weight left + 2) := by omega
      rw [weight_array]
      refine Accounted.behind ?_ (hleft.trans (List.suffix_cons '[' left)) hbound
      split
      · exact accounted_ok (List.suffix_cons ..)
      · apply (items_accounted stack n (opened + 1) left').bind (Nat.le_refl _)
        intro ds left'' _
        exact accounted_ok (List.suffix_refl _)
    · next left =>
      have hleft := skipSpace_suffix left
      have hweight := weight_suffix hleft
      have hbound : opened + 1 + weight (skipSpace left) + 2 ≤ opened + (weight left + 3) := by omega
      rw [weight_table]
      refine Accounted.behind ?_ (hleft.trans (List.suffix_cons '\x7b' left)) hbound
      split
      · next left' hclosed =>
        rw [hclosed]
        exact accounted_ok (List.suffix_cons ..)
      · apply (pairs_accounted stack n (opened + 1) [] [] (skipSpace left)).bind (Nat.le_refl _)
        intro fs left' _
        exact accounted_ok (List.suffix_refl _)
    · apply accounted_present
      intro found hscalar
      exact (scalar?_scanned hscalar).accounted

theorem items_accounted (stack : Stack) (n opened : Nat) (cs : List Char) :
    Accounted stack (opened + weight cs + 1) cs (items stack n opened cs) := by
  cases n with
  | zero => exact accounted_malformed
  | succ n =>
    rw [items.eq_def]
    apply accounted_enter (by omega)
    apply (value_accounted stack n (opened + 1) cs).bind (by omega)
    intro d left hleft
    have hweight := weight_suffix hleft
    apply accounted_present
    intro left' hgaps
    have hleft' := gaps?_suffix hgaps
    have hweight' := weight_suffix hleft'
    refine Accounted.behind ?_ hleft' (Nat.le_refl _)
    split
    · exact accounted_ok (List.suffix_cons ..)
    · next left' =>
      have hcomma := weight_suffix (List.suffix_cons ',' left')
      apply accounted_present
      intro left'' hgaps
      have hleft'' := gaps?_suffix hgaps
      have hweight'' := weight_suffix hleft''
      refine Accounted.behind ?_ (hleft''.trans (List.suffix_cons ',' left')) (Nat.le_refl _)
      split
      · exact accounted_ok (List.suffix_cons ..)
      · apply (items_accounted stack n opened left'').bind (by omega)
        intro ds _ _
        exact accounted_ok (List.suffix_refl _)
    · exact accounted_malformed

theorem pairs_accounted (stack : Stack) (n opened : Nat) (fs : List (String × Data))
    (closed : List (List String)) (cs : List Char) :
    Accounted stack (opened + weight cs + 2) cs (pairs stack n opened fs closed cs) := by
  cases n with
  | zero => exact accounted_malformed
  | succ n =>
    rw [pairs.eq_def]
    apply accounted_enter (by omega)
    apply (pair_accounted stack n (opened + 1) cs).bind (by omega)
    intro found left hleft
    have hweight := weight_suffix hleft
    apply accounted_present
    intro fs' hadded
    have hleft' := skipSpace_suffix left
    refine Accounted.behind ?_ hleft' (Nat.le_refl _)
    split
    · next left' hclosed =>
      rw [hclosed]
      exact accounted_ok (List.suffix_cons ..)
    · next left' hcomma =>
      rw [hcomma] at hleft' ⊢
      have hleft'' := (skipSpace_suffix left').trans (List.suffix_cons ',' left')
      have hweight' := weight_suffix (hleft''.trans hleft')
      exact (pairs_accounted stack n opened fs' _ (skipSpace left')).behind hleft'' (by omega)
    · exact accounted_malformed

theorem pair_accounted (stack : Stack) (n opened : Nat) (cs : List Char) :
    Accounted stack (opened + weight cs + 1) cs (pair stack n opened cs) := by
  cases n with
  | zero => exact accounted_malformed
  | succ n =>
    rw [pair.eq_def]
    apply accounted_enter (by omega)
    apply accounted_present
    intro found hkey
    obtain ⟨key, left⟩ := found
    have hleft := key?_suffix hkey
    refine Accounted.behind ?_ hleft (Nat.le_refl _)
    simp only
    split
    · next left' =>
      have hleft' := (skipSpace_suffix left').trans (List.suffix_cons '=' left')
      have hweight := weight_suffix (hleft'.trans hleft)
      refine Accounted.behind ?_ hleft' (Nat.le_refl _)
      apply (value_accounted stack n (opened + 1) (skipSpace left')).bind (by omega)
      intro d left'' _
      exact accounted_ok (List.suffix_refl _)
    · exact accounted_malformed

end

theorem statement_accounted (stack : Stack) (s : State) (cs : List Char) :
    Accounted stack (weight cs + 1) cs (statement stack s cs) := by
  rw [statement.eq_def]
  split
  · next left =>
    cases hheading : heading? s left with
    | none => exact accounted_malformed
    | some found =>
      exact accounted_ok ((heading?_suffix hheading).trans (List.suffix_cons '[' left))
  · exact accounted_ok (List.suffix_refl _)
  · exact accounted_ok (List.suffix_refl _)
  · apply (pair_accounted stack _ 0 cs).bind (by omega)
    intro found left _
    apply accounted_present
    intro s' hadded
    exact accounted_ok (List.suffix_refl _)

/-- What stops a reading is in the text, unless it is the form of the text. -/
theorem statements_explained {stack : Stack} {n : Nat} {s : State} {f : Fault}
    (h : statements stack n s cs = .error f) : Explained stack (weight cs + 1) cs f := by
  induction n generalizing s cs with
  | zero =>
    cases h
    trivial
  | succ n ih =>
    have hspace := skipSpace_suffix cs
    refine Explained.behind ?_ hspace (Nat.add_le_add_right (weight_suffix hspace) 1)
    rw [statements.eq_def] at h
    simp only at h
    split at h
    · cases h
    · have haccounted := statement_accounted stack s (skipSpace cs)
      cases hstatement : statement stack s (skipSpace cs) with
      | error fault =>
        rw [hstatement] at h haccounted
        cases h
        exact haccounted.fault _ rfl
      | ok found =>
        obtain ⟨s', left⟩ := found
        rw [hstatement] at h haccounted
        have hleft := haccounted.rest s' left rfl
        refine Explained.behind ?_ hleft (Nat.add_le_add_right (weight_suffix hleft) 1)
        change ((present (endOfLine? left)) >>= fun rest =>
          if rest.isEmpty then .ok s' else statements stack n s' rest) = _ at h
        cases hend : endOfLine? left with
        | none =>
          rw [hend] at h
          cases h
          trivial
        | some left' =>
          rw [hend] at h
          change (if left'.isEmpty then .ok s' else statements stack n s' left') = _ at h
          split at h
          · cases h
          · have hleft' := endOfLine?_suffix hend
            exact (ih h).behind hleft' (Nat.add_le_add_right (weight_suffix hleft') 1)

theorem begins_of_unifyBreaks {w : List Char} (hw : w <+: unifyBreaks cs) (hbreak : '\n' ∉ w) :
    w <+: cs := by
  fun_induction unifyBreaks cs generalizing w with
  | case1 => exact hw
  | case2 cs ih =>
    cases w with
    | nil => exact List.nil_prefix
    | cons c w =>
      obtain ⟨rfl, -⟩ := List.cons_prefix_cons.mp hw
      exact absurd List.mem_cons_self hbreak
  | case3 c cs _ ih =>
    cases w with
    | nil => exact List.nil_prefix
    | cons d w =>
      obtain ⟨rfl, hbegins⟩ := List.cons_prefix_cons.mp hw
      exact List.cons_prefix_cons.mpr ⟨rfl, ih hbegins fun h => hbreak (List.mem_cons_of_mem _ h)⟩

theorem infix_of_unifyBreaks {w : List Char} (hw : w <:+: unifyBreaks cs) (hbreak : '\n' ∉ w) :
    w <:+: cs := by
  fun_induction unifyBreaks cs with
  | case1 => exact hw
  | case2 cs ih =>
    obtain hbegins | hlater := List.infix_cons_iff.mp hw
    · rw [← unifyBreaks.eq_2] at hbegins
      exact (begins_of_unifyBreaks hbegins hbreak).isInfix
    · exact (ih hlater).trans (List.suffix_append ['\r', '\n'] cs).isInfix
  | case3 c cs hpair ih =>
    obtain hbegins | hlater := List.infix_cons_iff.mp hw
    · rw [← unifyBreaks.eq_3 c cs hpair] at hbegins
      exact (begins_of_unifyBreaks hbegins hbreak).isInfix
    · exact (ih hlater).trans (List.suffix_cons c cs).isInfix

/-- The stack ends in a text, at no more calls than its brackets and braces make. -/
def Deep (stack : Stack) (cs : List Char) : Prop :=
  Overflows stack (weight (unifyBreaks cs) + 1) (unifyBreaks cs)

theorem read_explained {stack : Stack} {f : Fault} (h : read stack cs = .error f) :
    Explained stack (weight (unifyBreaks cs) + 1) (unifyBreaks cs) f := by
  rw [read] at h
  cases hstatements : statements stack ((unifyBreaks cs).length + 1) .initial (unifyBreaks cs) with
  | ok s =>
    rw [hstatements] at h
    cases h
  | error fault =>
    rw [hstatements] at h
    cases h
    exact statements_explained hstatements

/-- A document that stops the reading at a number has a number that is too long. -/
theorem read_long {stack : Stack} {count : Nat} (h : read stack cs = .error (.tooManyDigits count)) :
    Overlong cs count := by
  obtain ⟨hlong, w, hw, hchars, hcount⟩ := read_explained h
  refine ⟨hlong, w, infix_of_unifyBreaks hw ?_, hchars, hcount⟩
  intro hbreak
  have hdigit := hchars '\n' hbreak
  revert hdigit
  decide

theorem read_deep {stack : Stack} (h : read stack cs = .error .tooDeep) : Deep stack cs :=
  read_explained h

theorem unifyBreaks_flat (h : '\r' ∉ cs) : unifyBreaks cs = cs := by
  fun_induction unifyBreaks cs with
  | case1 => rfl
  | case2 cs ih => exact absurd List.mem_cons_self h
  | case3 c cs _ ih => rw [ih fun hmem => h (List.mem_cons_of_mem c hmem)]

/-- The stack ends here, or what comes next is too deep for it. -/
theorem enter_deep {α : Type} {stack : Stack} {opened : Nat} {f : Unit → Except Fault α}
    (h : stack opened cs = true ∨ f () = .error .tooDeep) :
    (stack.enter opened cs >>= f) = .error .tooDeep := by
  rw [Stack.enter]
  split
  · rfl
  · next hroom => exact h.resolve_left hroom

/-- Each array around a value takes two calls before the call for the value. -/
theorem value_nested {calls opened n k : Nat} (hn : 2 * k < n) (hdeep : calls ≤ opened + 2 * k)
    (rest : List Char) :
    value (.holding calls) n opened (List.replicate (k + 1) '[' ++ rest) = .error .tooDeep := by
  induction k generalizing opened n with
  | zero =>
    obtain ⟨n, rfl⟩ := Nat.exists_eq_succ_of_ne_zero (Nat.ne_zero_of_lt hn)
    rw [value.eq_def]
    exact enter_deep (.inl (decide_eq_true hdeep))
  | succ k ih =>
    obtain ⟨n, rfl⟩ := Nat.exists_eq_add_of_lt hn
    have hvalue : value (.holding calls) (2 * k + 1 + n) (opened + 2)
        (List.replicate (k + 1) '[' ++ rest) = .error .tooDeep := ih (by omega) (by omega)
    have hitems : items (.holding calls) (2 * k + 2 + n) (opened + 1)
        (List.replicate (k + 1) '[' ++ rest) = .error .tooDeep := by
      rw [show 2 * k + 2 + n = (2 * k + 1 + n) + 1 by omega, items.eq_def]
      apply enter_deep
      right
      rw [hvalue]
      rfl
    rw [show 2 * (k + 1) + n + 1 = (2 * k + 2 + n) + 1 by omega, value.eq_def]
    apply enter_deep
    right
    change (items (.holding calls) (2 * k + 2 + n) (opened + 1)
      (List.replicate (k + 1) '[' ++ rest) >>= _) = _
    rw [hitems]
    rfl

/-- Arrays in one another, more than half the calls that a stack holds. -/
def nested (calls : Nat) : List Char :=
  'a' :: '=' :: (List.replicate (calls / 2 + 1) '[' ++ List.replicate (calls / 2 + 1) ']')

/-- So no stack is large enough for all documents. -/
theorem read_nested (calls : Nat) : read (.holding calls) (nested calls) = .error .tooDeep := by
  have hflat : '\r' ∉ nested calls := by simp [nested]
  have hlength : 2 * (calls / 2) < 2 * (nested calls).length + 1 := by
    simp only [nested, List.length_cons, List.length_append, List.length_replicate]
    omega
  have hvalue : value (.holding calls) (2 * (nested calls).length + 1) 1
      (List.replicate (calls / 2 + 1) '[' ++ List.replicate (calls / 2 + 1) ']') = .error .tooDeep :=
    value_nested hlength (by omega) _
  have hpair : pair (.holding calls) (2 * (nested calls).length + 2) 0 (nested calls) =
      .error .tooDeep := by
    rw [pair.eq_def]
    apply enter_deep
    right
    change (value (.holding calls) (2 * (nested calls).length + 1) 1
      (List.replicate (calls / 2 + 1) '[' ++ List.replicate (calls / 2 + 1) ']') >>= _) = _
    rw [hvalue]
    rfl
  have hstatement : statement (.holding calls) .initial (nested calls) = .error .tooDeep := by
    change (pair (.holding calls) (2 * (nested calls).length + 2) 0 (nested calls) >>= _) = _
    rw [hpair]
    rfl
  have hstatements : statements (.holding calls) ((nested calls).length + 1) .initial (nested calls) =
      .error .tooDeep := by
    change (statement (.holding calls) .initial (nested calls) >>= _) = _
    rw [hstatement]
    rfl
  rw [read, unifyBreaks_flat hflat]
  simp only [hstatements]
  rfl

end Callees.Toml
