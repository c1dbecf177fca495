import Callees.Data.Toml

namespace Callees.Toml

variable {cs rest : List Char}

theorem skipSpace_suffix (cs : List Char) : skipSpace cs <:+ cs := List.dropWhile_suffix _

/-- A scan leaves the same, whatever is made of what it has read. -/
theorem map_suffix {α β : Type} {scanned : Option (α × List Char)} {b : β}
    {made : α × List Char → β × List Char} (h : scanned.map made = some (b, rest))
    (hmade : ∀ found, (made found).2 = found.2)
    (hscanned : ∀ {a left}, scanned = some (a, left) → left <:+ cs) : rest <:+ cs := by
  obtain ⟨found, hfound, hb⟩ := Option.map_eq_some_iff.mp h
  have hrest : rest = found.2 := by rw [← hmade found, hb]
  rw [hrest]
  exact hscanned hfound

theorem sign_suffix (cs : List Char) : (JsonReader.sign cs).2 <:+ cs := by
  rw [JsonReader.sign.eq_def]
  split
  · exact List.suffix_cons ..
  · exact List.suffix_cons ..
  · exact List.suffix_refl _

/-- Digits and the underscores between them are read one after another. -/
theorem moreDigits_split (isDigit : Char → Bool) (cs : List Char) :
    ∃ w, cs = w ++ (moreDigits isDigit cs).2 ∧ (∀ c ∈ w, isDigit c = true ∨ c = '_') ∧
      (isDigit '_' = false → w.filter isDigit = (moreDigits isDigit cs).1) := by
  fun_induction moreDigits isDigit cs with
  | case1 => exact ⟨[], by simp⟩
  | case2 c hc => exact ⟨[c], by simp [hc]⟩
  | case3 c hc => exact ⟨[], by simp⟩
  | case4 c d cs hc ds rest hmore ih =>
    obtain ⟨w, hw, hchars, hdigits⟩ := ih
    simp only [hmore] at hw hdigits
    exact ⟨c :: w, by simp [← hw], by simpa [hc] using hchars, fun hbar => by simp [hc, hdigits hbar]⟩
  | case5 c d cs hc hd ds rest hmore ih =>
    obtain ⟨w, hw, hchars, hdigits⟩ := ih
    obtain ⟨rfl, hd⟩ := hd
    simp only [hmore] at hw hdigits
    exact ⟨'_' :: d :: w, by simp [← hw], by simpa [hd] using hchars,
      fun hbar => by simp [hbar, hd, hdigits hbar]⟩
  | case6 c d cs hc hd => exact ⟨[], by simp⟩

theorem digits?_split {isDigit : Char → Bool} {ds : List Char}
    (h : digits? isDigit cs = some (ds, rest)) :
    ∃ w, cs = w ++ rest ∧ (∀ c ∈ w, isDigit c = true ∨ c = '_') ∧
      (isDigit '_' = false → w.filter isDigit = ds) := by
  cases cs with
  | nil => cases h
  | cons c cs =>
    simp only [digits?, Option.ite_none_right_eq_some, Option.some.injEq, Prod.mk.injEq] at h
    obtain ⟨hc, rfl, rfl⟩ := h
    obtain ⟨w, hw, hchars, hdigits⟩ := moreDigits_split isDigit cs
    exact ⟨c :: w, by simp [← hw], by simpa [hc] using hchars, fun hbar => by simp [hc, hdigits hbar]⟩

theorem digits?_suffix {isDigit : Char → Bool} {ds : List Char}
    (h : digits? isDigit cs = some (ds, rest)) : rest <:+ cs := by
  obtain ⟨w, rfl, -⟩ := digits?_split h
  exact List.suffix_append ..

theorem based?_suffix {base : Nat} {isDigit : Char → Bool} {d : Data}
    (h : based? base isDigit cs = some (d, rest)) : rest <:+ cs :=
  map_suffix h (fun _ => rfl) digits?_suffix

theorem wholePart?_split {ds : List Char} (h : wholePart? cs = some (ds, rest)) :
    ∃ w, cs = w ++ rest ∧ (∀ c ∈ w, c.isDigit = true ∨ c = '_') ∧ w.filter Char.isDigit = ds := by
  rw [wholePart?.eq_def] at h
  split at h
  · cases h
    exact ⟨['0'], by simp⟩
  · obtain ⟨w, hw, hchars, hdigits⟩ := digits?_split h
    exact ⟨w, hw, hchars, hdigits rfl⟩

theorem fraction?_suffix {ds : List Char} (h : fraction? cs = some (ds, rest)) : rest <:+ cs := by
  rw [fraction?.eq_def] at h
  split at h
  · exact (digits?_suffix h).trans (List.suffix_cons ..)
  · cases h

theorem exponent?_suffix {e : Int} (h : exponent? cs = some (e, rest)) : rest <:+ cs := by
  cases cs with
  | nil => cases h
  | cons c cs =>
    simp only [exponent?, Option.ite_none_right_eq_some] at h
    exact (map_suffix h.2 (fun _ => rfl) digits?_suffix).trans ((sign_suffix cs).trans (List.suffix_cons ..))

/-- A number with so many digits stands in a text that it is too long to be read. -/
structure Overlong (cs : List Char) (count : Nat) : Prop where
  long : Text.maxDigits < count
  digits : ∃ w, w <:+: cs ∧ (∀ c ∈ w, c.isDigit = true ∨ c = '_') ∧
    (w.filter Char.isDigit).length = count

theorem Overlong.behind {count : Nat} (h : Overlong rest count) (hrest : rest <:+ cs) :
    Overlong cs count := by
  obtain ⟨w, hw, hchars⟩ := h.digits
  exact ⟨h.long, w, hw.trans hrest.isInfix, hchars⟩

theorem wholeNumber_fault {negative : Bool} {ds : List Char} {f : Fault}
    (h : wholeNumber negative ds = .error f) :
    f = .tooManyDigits ds.length ∧ Text.maxDigits < ds.length := by
  rw [wholeNumber] at h
  split at h
  · next hlong =>
    cases h
    exact ⟨rfl, hlong⟩
  · cases h

/-- What a scan for a value comes to: an end of the text, and a value unless a number is too long. -/
structure Scanned (cs : List Char) (found : Except Fault Data) (rest : List Char) : Prop where
  rest : rest <:+ cs
  fault : ∀ f, found = .error f → ∃ count, f = .tooManyDigits count ∧ Overlong cs count

theorem Scanned.behind {found : Except Fault Data} {left : List Char} (h : Scanned rest found left)
    (hrest : rest <:+ cs) : Scanned cs found left := by
  refine ⟨h.rest.trans hrest, ?_⟩
  intro f hf
  obtain ⟨count, hcount, hlong⟩ := h.fault f hf
  exact ⟨count, hcount, hlong.behind hrest⟩

theorem scanned_ok {d : Data} (h : rest <:+ cs) : Scanned cs (.ok d) rest := ⟨h, nofun⟩

theorem decimal?_scanned {found : Except Fault Data} (h : decimal? cs = some (found, rest)) :
    Scanned cs found rest := by
  simp only [decimal?, Option.bind_eq_bind, Option.bind_eq_some_iff, Prod.exists] at h
  obtain ⟨whole, left, hwhole, h⟩ := h
  refine Scanned.behind ?_ (sign_suffix cs)
  obtain ⟨w, hw, hchars, hdigits⟩ := wholePart?_split hwhole
  rw [hw]
  have hfraction : ((fraction? left).getD ([], left)).2 <:+ left := by
    cases hf : fraction? left with
    | none => exact List.suffix_refl _
    | some found => exact fraction?_suffix hf
  split at h
  · next e left' hexponent =>
    simp only [Option.isNone_some, Bool.false_eq_true, and_false, if_false] at h
    cases h
    exact scanned_ok (((exponent?_suffix hexponent).trans hfraction).trans (List.suffix_append ..))
  · next hexponent =>
    split at h
    · cases h
      refine ⟨hfraction.trans (List.suffix_append ..), ?_⟩
      intro f hf
      obtain ⟨rfl, hlong⟩ := wholeNumber_fault hf
      exact ⟨_, rfl, hlong, w, (List.prefix_append ..).isInfix, hchars, by rw [hdigits]⟩
    · cases h
      exact scanned_ok (hfraction.trans (List.suffix_append ..))

theorem number?_scanned {found : Except Fault Data} (h : number? cs = some (found, rest)) :
    Scanned cs found rest := by
  simp only [number?] at h
  split at h
  · next d left hbased =>
    cases h
    refine scanned_ok ?_
    split at hbased
    · exact (based?_suffix hbased).trans ((List.suffix_cons ..).trans (List.suffix_cons ..))
    · exact (based?_suffix hbased).trans ((List.suffix_cons ..).trans (List.suffix_cons ..))
    · exact (based?_suffix hbased).trans ((List.suffix_cons ..).trans (List.suffix_cons ..))
    · cases hbased
  · exact decimal?_scanned h

theorem special?_suffix {d : Data} (h : special? cs = some (d, rest)) : rest <:+ cs := by
  have hsign := sign_suffix cs
  simp only [special?] at h
  generalize (JsonReader.sign cs).2 = left at h hsign
  split at h
  · cases h
    exact (List.suffix_append ['i', 'n', 'f'] _).trans hsign
  · cases h
    exact (List.suffix_append ['n', 'a', 'n'] _).trans hsign
  · cases h

theorem field?_suffix {n low high v : Nat} (h : field? n low high cs = some (v, rest)) :
    rest <:+ cs := by
  simp only [field?, Option.ite_none_right_eq_some, Option.some.injEq, Prod.mk.injEq] at h
  obtain ⟨-, -, rfl⟩ := h
  exact List.drop_suffix ..

theorem expect?_suffix {c : Char} (h : expect? c cs = some rest) : rest <:+ cs := by
  cases cs with
  | nil => cases h
  | cons d cs =>
    simp only [expect?, Option.ite_none_right_eq_some, Option.some.injEq] at h
    obtain ⟨-, rfl⟩ := h
    exact List.suffix_cons ..

theorem microseconds_suffix (cs : List Char) : (microseconds cs).2 <:+ cs := by
  simp only [microseconds]
  split
  · split
    · exact List.suffix_refl _
    · exact (List.drop_suffix ..).trans (List.suffix_cons ..)
  · exact List.suffix_refl _

theorem time?_suffix {t : TimeOfDay} (h : time? cs = some (t, rest)) : rest <:+ cs := by
  simp only [time?, Option.bind_eq_bind, Option.bind_eq_some_iff, Prod.exists, Option.some.injEq,
    Prod.mk.injEq] at h
  obtain ⟨_, _, hhour, _, hcolon, _, _, hminute, _, hcolon', _, _, hsecond, -, rfl⟩ := h
  have hminutes := (field?_suffix hminute).trans ((expect?_suffix hcolon).trans (field?_suffix hhour))
  exact (microseconds_suffix _).trans
    ((field?_suffix hsecond).trans ((expect?_suffix hcolon').trans hminutes))

theorem date?_suffix {d : Date} (h : date? cs = some (d, rest)) : rest <:+ cs := by
  simp only [date?, Option.bind_eq_bind, Option.bind_eq_some_iff, Prod.exists, Option.some.injEq,
    Prod.mk.injEq] at h
  obtain ⟨_, _, hyear, _, hdash, _, _, hmonth, _, hdash', _, _, hday, -, rfl⟩ := h
  have hmonths := (field?_suffix hmonth).trans ((expect?_suffix hdash).trans (field?_suffix hyear))
  exact (field?_suffix hday).trans ((expect?_suffix hdash').trans hmonths)

theorem zone?_suffix {minutes : Int} (h : zone? cs = some (minutes, rest)) : rest <:+ cs := by
  rw [zone?.eq_def] at h
  split at h
  · cases h
    exact List.suffix_cons ..
  · cases h
    exact List.suffix_cons ..
  · next c cs _ _ =>
    simp only [Option.ite_none_right_eq_some, Option.bind_eq_bind, Option.bind_eq_some_iff,
      Prod.exists, Option.some.injEq, Prod.mk.injEq] at h
    obtain ⟨-, _, _, hhour, _, hcolon, _, _, hminute, -, rfl⟩ := h
    have hhours := (expect?_suffix hcolon).trans ((field?_suffix hhour).trans (List.suffix_cons c cs))
    exact (field?_suffix hminute).trans hhours
  · cases h

theorem timeAfter?_suffix {t : TimeOfDay} (h : timeAfter? cs = some (t, rest)) : rest <:+ cs := by
  cases cs with
  | nil => cases h
  | cons c cs =>
    simp only [timeAfter?, Option.ite_none_right_eq_some] at h
    exact (time?_suffix h.2).trans (List.suffix_cons ..)

theorem moment?_suffix {m : Option Moment} (h : moment? cs = some (m, rest)) : rest <:+ cs := by
  simp only [moment?] at h
  cases hdate : date? cs with
  | some found =>
    obtain ⟨d, left⟩ := found
    have hleft := date?_suffix hdate
    simp only [hdate] at h
    cases htime : timeAfter? left with
    | none =>
      simp only [htime] at h
      cases h
      exact hleft
    | some found =>
      obtain ⟨t, left'⟩ := found
      have hleft' := (timeAfter?_suffix htime).trans hleft
      simp only [htime] at h
      cases hzone : zone? left' with
      | none =>
        simp only [hzone] at h
        cases h
        exact hleft'
      | some found =>
        simp only [hzone] at h
        cases h
        exact (zone?_suffix hzone).trans hleft'
  | none =>
    simp only [hdate] at h
    exact map_suffix h (fun _ => rfl) time?_suffix

theorem hexChar?_suffix {n : Nat} {c : Char} (h : hexChar? n cs = some (c, rest)) : rest <:+ cs := by
  simp only [hexChar?, Option.ite_none_right_eq_some, Option.some.injEq, Prod.mk.injEq] at h
  obtain ⟨-, -, rfl⟩ := h
  exact List.drop_suffix ..

theorem escaped?_suffix {c : Char} (h : escaped? cs = some (c, rest)) : rest <:+ cs := by
  rw [escaped?.eq_def] at h
  split at h
  case h_8 | h_9 => exact (hexChar?_suffix h).trans (List.suffix_cons ..)
  case h_10 => cases h
  all_goals
    cases h
    exact List.suffix_cons ..

theorem joinedLine?_suffix (h : joinedLine? cs = some rest) : rest <:+ cs := by
  have hspace := skipSpace_suffix cs
  rw [joinedLine?] at h
  split at h
  · cases h
    exact List.nil_suffix
  · next left hleft =>
    cases h
    rw [hleft] at hspace
    exact (List.dropWhile_suffix _).trans ((List.suffix_cons ..).trans hspace)
  · cases h

theorem closingQuotes_suffix (quote : Char) (cs : List Char) : (closingQuotes quote cs).2 <:+ cs :=
  List.drop_suffix ..

theorem basic?_suffix {multiline : Bool} {n : Nat} {s : List Char}
    (h : basic? multiline n cs = some (s, rest)) : rest <:+ cs := by
  -- Where a line is joined the recursion is passed on as a function, so the induction is on `n` alone.
  induction n generalizing cs s rest with
  | zero => cases h
  | succ n ih =>
    cases cs with
    | nil => cases h
    | cons c cs =>
      have hcons := List.suffix_cons c cs
      rw [basic?.eq_def] at h
      simp only at h
      by_cases hquote : c = '"'
      · rw [if_pos hquote] at h
        split at h
        · cases h
          exact hcons
        · split at h
          · cases h
            exact ((closingQuotes_suffix ..).trans (List.suffix_append ['"', '"'] _)).trans hcons
          · exact (map_suffix h (fun _ => rfl) ih).trans hcons
      rw [if_neg hquote] at h
      by_cases hbackslash : c = '\\'
      · rw [if_pos hbackslash] at h
        split at h
        · next e left hescaped =>
          exact ((map_suffix h (fun _ => rfl) ih).trans (escaped?_suffix hescaped)).trans hcons
        · simp only [Option.ite_none_right_eq_some, Option.bind_eq_some_iff] at h
          obtain ⟨-, left, hleft, h⟩ := h
          exact ((ih h).trans (joinedLine?_suffix hleft)).trans hcons
      · rw [if_neg hbackslash] at h
        split at h
        · cases h
        · exact (map_suffix h (fun _ => rfl) ih).trans hcons

theorem literal?_suffix {multiline : Bool} {s : List Char}
    (h : literal? multiline cs = some (s, rest)) : rest <:+ cs := by
  fun_induction literal? multiline cs generalizing s rest with
  | case1 => cases h
  | case2 =>
    cases h
    exact List.suffix_cons ..
  | case3 _ left =>
    cases h
    exact (closingQuotes_suffix ..).trans (List.suffix_append ['\'', '\'', '\''] _)
  | case4 cs _ _ ih => exact (map_suffix h (fun _ => rfl) ih).trans (List.suffix_cons ..)
  | case5 => cases h
  | case6 c cs _ _ ih => exact (map_suffix h (fun _ => rfl) ih).trans (List.suffix_cons ..)

theorem dropBreak_suffix (cs : List Char) : dropBreak cs <:+ cs := by
  rw [dropBreak.eq_def]
  split
  · exact List.suffix_cons ..
  · exact List.suffix_refl _

theorem string?_suffix {s : String} (h : string? cs = some (s, rest)) : rest <:+ cs := by
  refine map_suffix h (fun _ => rfl) ?_
  intro s left h
  split at h
  · exact (basic?_suffix h).trans ((dropBreak_suffix _).trans (List.suffix_append ['"', '"', '"'] _))
  · exact (literal?_suffix h).trans
      ((dropBreak_suffix _).trans (List.suffix_append ['\'', '\'', '\''] _))
  · exact (basic?_suffix h).trans (List.suffix_cons ..)
  · exact (literal?_suffix h).trans (List.suffix_cons ..)
  · cases h

end Callees.Toml
