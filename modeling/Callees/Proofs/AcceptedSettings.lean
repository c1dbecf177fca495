import Mathlib.Data.List.TakeWhile
import Callees.Proofs.LastParens
import Callees.Proofs.LowerCase
import Callees.Proofs.SourceFiles
import Callees.Settings

namespace Callees

namespace Text

variable {p : Char → Bool} {cs before kept after : List Char} {c : Char}

theorem head?_trimLeft (p : Char → Bool) (cs : List Char) : (trimLeft p cs).head?.any p = false := by
  induction cs with
  | nil => rfl
  | cons c cs ih =>
    rw [trimLeft, List.dropWhile_cons]
    split
    · exact ih
    · next hc => exact Bool.eq_false_iff.mpr hc

theorem trimLeft_of_head? (h : cs.head?.any p = false) : trimLeft p cs = cs := by
  cases cs with
  | nil => rfl
  | cons c cs => exact List.dropWhile_cons_of_neg (Bool.eq_false_iff.mp h)

theorem trimLeft_append (hbefore : ∀ c ∈ before, p c = true) : trimLeft p (before ++ cs) = trimLeft p cs :=
  List.dropWhile_append_of_pos hbefore

/-- What trimming takes off at both ends. -/
theorem trim_split (p : Char → Bool) (cs : List Char) : ∃ before after,
    cs = before ++ trim p cs ++ after ∧ (∀ c ∈ before, p c = true) ∧ (∀ c ∈ after, p c = true) ∧
      (trim p cs).head?.any p = false ∧ (trim p cs).getLast?.any p = false := by
  let after := ((trimLeft p cs).reverse.takeWhile p).reverse
  have hright : trimLeft p cs = trim p cs ++ after := by
    rw [trim, trimRight, ← List.reverse_append, List.takeWhile_append_dropWhile, List.reverse_reverse]
  refine ⟨cs.takeWhile p, after, ?_, fun c hc => List.mem_takeWhile_imp hc,
    fun c hc => List.mem_takeWhile_imp (List.mem_reverse.mp hc), ?_, ?_⟩
  · rw [List.append_assoc, ← hright, trimLeft, List.takeWhile_append_dropWhile]
  · have hhead := head?_trimLeft p cs
    rw [hright] at hhead
    cases hkept : trim p cs with
    | nil => rfl
    | cons c kept =>
      rw [hkept] at hhead
      exact hhead
  · rw [trim, trimRight, List.getLast?_reverse]
    exact head?_trimLeft p _

/-- What has no such characters at its ends is found between them. -/
theorem trim_eq (h : cs = before ++ kept ++ after) (hbefore : ∀ c ∈ before, p c = true)
    (hafter : ∀ c ∈ after, p c = true) (hhead : kept.head?.any p = false)
    (hlast : kept.getLast?.any p = false) : trim p cs = kept := by
  rw [h, List.append_assoc, trim, trimLeft_append hbefore]
  cases kept with
  | nil =>
    rw [List.nil_append, ← List.append_nil after, trimLeft_append hafter]
    rfl
  | cons c kept =>
    rw [trimLeft_of_head? (by exact hhead)]
    exact trimRight_append hlast hafter

theorem mem_trim (h : c ∈ cs) : p c = true ∨ c ∈ trim p cs := by
  obtain ⟨before, after, hsplit, hbefore, hafter, -⟩ := trim_split p cs
  rw [hsplit, List.mem_append, List.mem_append] at h
  rcases h with (h | h) | h
  · exact .inl (hbefore c h)
  · exact .inr h
  · exact .inl (hafter c h)

end Text

namespace Checked

variable {α β : Type} {a : Checked α} {b : Checked β} {x : α} {y : β}

theorem both_eq_ok : both a b = .ok (x, y) ↔ a = .ok x ∧ b = .ok y := by
  cases a <;> cases b <;> simp [both]

theorem within_eq_ok {step : Step} : within step a = .ok x ↔ a = .ok x := by
  cases a <;> simp [within]

end Checked

namespace Reader

variable {α : Type} {name : String} {default a : α} {read : Reader α} {fs : List (String × Data)} {d : Data}
  {low n : Int}

theorem optional_eq_ok : optional name default read fs = .ok a ↔
    fs.lookup name = none ∧ a = default ∨ ∃ d, fs.lookup name = some d ∧ read d = .ok a := by
  rw [optional]
  cases hd : fs.lookup name with
  | none => simp [eq_comm]
  | some d => simp [Checked.within_eq_ok]

/-- What holds of the default and of all that is read holds of the field. -/
theorem optional_holds {P : α → Prop} (h : optional name default read fs = .ok a) (hdefault : P default)
    (hread : ∀ d a, read d = .ok a → P a) : P a := by
  rcases optional_eq_ok.mp h with ⟨-, rfl⟩ | ⟨d, -, hd⟩
  · exact hdefault
  · exact hread d a hd

theorem le_of_atLeast (h : atLeast low d = .ok n) : low ≤ n := by
  obtain ⟨m, -, h⟩ := bind_eq_ok.mp h
  split at h
  · cases h
  · next hle =>
    cases h
    exact Int.not_lt.mp hle

theorem lt_of_greaterThan (h : greaterThan low d = .ok n) : low < n := by
  obtain ⟨m, -, h⟩ := bind_eq_ok.mp h
  split at h
  · cases h
  · next hlt =>
    cases h
    exact Int.not_le.mp hlt

end Reader

/-- A path has an empty extension only where its name has no suffix. -/
theorem Path.extension_eq_empty {p : Path} : p.extension = "" ↔ suffixOf p.name.toList = [] := by
  rw [extension, Text.lower_eq_empty, String.ofList_eq_empty_iff]
  refine ⟨fun h => ?_, fun h => by rw [h, List.dropWhile_nil]⟩
  rw [List.dropWhile_eq_nil_iff] at h
  rw [suffixOf] at h ⊢
  split at h
  · next hsuffix =>
    obtain ⟨c, cs, hcs⟩ := List.exists_cons_of_ne_nil hsuffix.2.2
    -- behind the last point there is none
    have hc : c ∈ p.name.toList.reverse.takeWhile (· != '.') := by
      rw [← List.mem_reverse, hcs]
      exact List.mem_cons_self
    have hpoint := h c (List.mem_cons_of_mem _ (hcs ▸ List.mem_cons_self))
    rw [beq_iff_eq.mp hpoint] at hc
    exact absurd (List.mem_takeWhile_imp hc) (by decide)
  · next hnone => rw [if_neg hnone]

namespace Settings

open Reader

def isPoint (c : Char) : Bool := c == '.'

/-- What is left of an entry without the blanks around it and the points then in front. -/
def bare (t : List Char) : List Char := Text.trimLeft isPoint (Text.trim Text.isBlank t)

/-- Behind the points that the text begins with stands a blank. Blanks before the points do not count. -/
def Spaced (t : List Char) : Prop := ∃ before points c rest, t = before ++ (points ++ c :: rest) ∧
  (∀ b ∈ before, Text.isBlank b = true) ∧ points ≠ [] ∧ (∀ p ∈ points, isPoint p = true) ∧
    Text.isBlank c = true

/-- Nothing but points, with blanks around them. -/
def Hollow (t : List Char) : Prop := ∃ before points after, t = before ++ points ++ after ∧
  (∀ b ∈ before, Text.isBlank b = true) ∧ (∀ p ∈ points, isPoint p = true) ∧
    ∀ b ∈ after, Text.isBlank b = true

/-- The form of an extension, but for blanks at its start and for an empty one. -/
structure Stripped (e : String) : Prop where
  point : e.toList.head?.any isPoint = false
  blank : e.toList.getLast?.any Text.isBlank = false
  lower : Text.lower e = e
  normal : Scan.normalExtension e = e

/-- The final form of an extension, which reading it as an entry does not change. -/
structure Final (e : String) : Prop extends Stripped e where
  nonempty : e ≠ ""
  start : e.toList.head?.any Text.isBlank = false
  again : extension? (.text e) = some e

variable {t : List Char} {s e : String} {d : Data}

theorem isPoint_of_isBlank {c : Char} (h : Text.isBlank c = true) : isPoint c = false := by
  refine Bool.eq_false_iff.mpr fun hpoint => ?_
  rw [beq_iff_eq.mp hpoint] at h
  exact absurd h (by decide)

theorem isBlank_of_isPoint {c : Char} (h : isPoint c = true) : Text.isBlank c = false :=
  Bool.eq_false_iff.mpr fun hblank => Bool.eq_false_iff.mp (isPoint_of_isBlank hblank) h

theorem extension?_eq_some : extension? (.text s) = some e ↔
    Text.trim Text.isBlank (Text.trim isPoint s.toList) ≠ [] ∧
      e = Text.lower (String.ofList (bare s.toList)) := by
  rw [← List.isEmpty_eq_false_iff]
  unfold extension?
  simp only
  split
  · next hempty => exact iff_of_false nofun fun h => Bool.eq_false_iff.mp h.1 hempty
  · next hne =>
    rw [Option.some_inj, eq_comm]
    exact (and_iff_right (Bool.eq_false_iff.mpr hne)).symm

theorem bare_head? (t : List Char) : (bare t).head?.any isPoint = false := Text.head?_trimLeft isPoint _

theorem bare_split (t : List Char) : ∃ points, Text.trim Text.isBlank t = points ++ bare t ∧
    ∀ p ∈ points, isPoint p = true :=
  ⟨_, List.takeWhile_append_dropWhile.symm, fun _ hp => List.mem_takeWhile_imp hp⟩

theorem bare_getLast? (t : List Char) : (bare t).getLast?.any Text.isBlank = false := by
  obtain ⟨points, hsplit, -⟩ := bare_split t
  obtain ⟨-, -, -, -, -, -, hlast⟩ := Text.trim_split Text.isBlank t
  by_cases hnil : bare t = []
  · rw [hnil]
    rfl
  · rwa [hsplit, List.getLast?_append_of_ne_nil _ hnil] at hlast

theorem stripped_of_extension (h : extension? d = some e) : Stripped e := by
  cases d with
  | text s =>
    obtain ⟨-, rfl⟩ := extension?_eq_some.mp h
    have hpoint : (Text.lower (String.ofList (bare s.toList))).toList.head?.any isPoint = false := by
      rw [Text.lower_head? (q := isPoint) fun c hc => hc.2, String.toList_ofList, bare_head?]
    have hlower := Text.lower_lower (String.ofList (bare s.toList))
    refine ⟨hpoint, ?_, hlower, ?_⟩
    · rw [Text.lower_getLast? fun c hc => hc.1, String.toList_ofList, bare_getLast?]
    · have hdrop := Text.trimLeft_of_head? hpoint
      rw [Scan.normalExtension, hlower]
      exact (congrArg String.ofList hdrop).trans String.ofList_toList
  | _ => cases h

/-- A character that is neither a blank nor a point is left when those are taken off at the ends. -/
theorem kept_of_mem {c : Char} (hc : c ∈ t) (hpoint : isPoint c = false) (hblank : Text.isBlank c = false) :
    Text.trim Text.isBlank (Text.trim isPoint t) ≠ [] := by
  have hmem := (Text.mem_trim hc).resolve_left (Bool.eq_false_iff.mp hpoint)
  exact List.ne_nil_of_mem ((Text.mem_trim hmem).resolve_left (Bool.eq_false_iff.mp hblank))

theorem again_of_stripped (h : Stripped e) (hne : e ≠ "") (hstart : e.toList.head?.any Text.isBlank = false) :
    extension? (.text e) = some e := by
  have hsplit : e.toList = [] ++ e.toList ++ [] := (List.append_nil _).symm
  have htrim : Text.trim Text.isBlank e.toList = e.toList :=
    Text.trim_eq hsplit (List.forall_mem_nil _) (List.forall_mem_nil _) hstart h.blank
  have hbare : bare e.toList = e.toList := by rw [bare, htrim, Text.trimLeft_of_head? h.point]
  refine extension?_eq_some.mpr ⟨?_, by rw [hbare, String.ofList_toList, h.lower]⟩
  obtain ⟨c, cs, hcs⟩ := List.exists_cons_of_ne_nil (mt String.toList_eq_nil_iff.mp hne)
  have hpoint := h.point
  rw [hcs] at hstart hpoint ⊢
  exact kept_of_mem List.mem_cons_self hpoint hstart

/-- A text of one kind of character has none of another kind at its ends. -/
theorem ends_of_all {p q : Char → Bool} (hpq : ∀ c, p c = true → q c = false) (h : ∀ c ∈ t, p c = true) :
    t.head?.any q = false ∧ t.getLast?.any q = false := by
  rw [Option.any_eq_false, Option.any_eq_false]
  exact ⟨fun c hc => hpq c (h c (List.mem_of_head? hc)), fun c hc => hpq c (h c (List.mem_of_getLast? hc))⟩

/-- Points at the end of blanks go with them. -/
theorem dropped_before_points {before points : List Char} (hbefore : ∀ b ∈ before, Text.isBlank b = true)
    (hpoints : ∀ p ∈ points, isPoint p = true) :
    Text.trim Text.isBlank (Text.trim isPoint (before ++ points)) = [] := by
  obtain ⟨hhead, hlast⟩ := ends_of_all (fun _ => isPoint_of_isBlank) hbefore
  have hkept : Text.trim isPoint (before ++ points) = before :=
    Text.trim_eq rfl (List.forall_mem_nil _) hpoints hhead hlast
  rw [hkept]
  exact Text.trim_eq (by simp) hbefore (List.forall_mem_nil _) rfl rfl

theorem bare_eq_nil : bare t = [] ↔ Hollow t := by
  constructor
  · intro hnil
    obtain ⟨before, after, hsplit, hbefore, hafter, -⟩ := Text.trim_split Text.isBlank t
    obtain ⟨points, hbare, hpoints⟩ := bare_split t
    rw [hbare, hnil, List.append_nil] at hsplit
    exact ⟨before, points, after, hsplit, hbefore, hpoints, hafter⟩
  · rintro ⟨before, points, after, hsplit, hbefore, hpoints, hafter⟩
    obtain ⟨hhead, hlast⟩ := ends_of_all (fun _ => isBlank_of_isPoint) hpoints
    rw [bare, Text.trim_eq hsplit hbefore hafter hhead hlast]
    exact (congrArg _ (List.append_nil points).symm).trans (Text.trimLeft_append hpoints)

theorem bare_of_spaced (h : Spaced t) : Hollow t ∨ (bare t).head?.any Text.isBlank = true := by
  obtain ⟨before, points, c, rest, rfl, hbefore, hne, hpoints, hc⟩ := h
  obtain ⟨hhead, -⟩ := ends_of_all (fun _ => isBlank_of_isPoint) hpoints
  obtain ⟨between, after, hrest, hbetween, hafter, -, hend⟩ := Text.trim_split Text.isBlank rest
  by_cases hnil : Text.trim Text.isBlank rest = []
  · -- nothing but blanks behind the points
    rw [hnil, List.append_nil] at hrest
    refine .inl ⟨before, points, c :: rest, (List.append_assoc ..).symm, hbefore, hpoints, ?_⟩
    rw [hrest]
    exact List.forall_mem_cons.mpr ⟨hc, List.forall_mem_append.mpr ⟨hbetween, hafter⟩⟩
  · have hsplit : before ++ (points ++ c :: rest) =
        before ++ (points ++ c :: (between ++ Text.trim Text.isBlank rest)) ++ after := by
      nth_rewrite 1 [hrest]
      simp only [List.append_assoc, List.cons_append]
    have hkept : Text.trim Text.isBlank (before ++ (points ++ c :: rest)) =
        points ++ c :: (between ++ Text.trim Text.isBlank rest) := by
      refine Text.trim_eq hsplit hbefore hafter ?_ ?_
      · rwa [List.head?_append_of_ne_nil _ hne]
      · rwa [← List.cons_append, ← List.append_assoc, List.getLast?_append_of_ne_nil _ hnil]
    have hstart : (c :: (between ++ Text.trim Text.isBlank rest)).head?.any isPoint = false :=
      isPoint_of_isBlank hc
    rw [bare, hkept, Text.trimLeft_append hpoints, Text.trimLeft_of_head? hstart]
    exact .inr hc

/-- If an entry is kept, and is nothing but points with blanks around them, then there are such on both sides. -/
theorem spaced_of_hollow (hkept : Text.trim Text.isBlank (Text.trim isPoint t) ≠ []) (h : Hollow t) :
    Spaced t := by
  obtain ⟨before, points, after, rfl, hbefore, hpoints, hafter⟩ := h
  cases after with
  | nil =>
    rw [List.append_nil] at hkept
    exact absurd (dropped_before_points hbefore hpoints) hkept
  | cons c rest =>
    refine ⟨before, points, c, rest, List.append_assoc .., hbefore, ?_, hpoints, hafter c List.mem_cons_self⟩
    rintro rfl
    have hblank := List.forall_mem_append.mpr ⟨hbefore, hafter⟩
    have hdropped := dropped_before_points hblank (List.forall_mem_nil (isPoint · = true))
    rw [List.append_nil] at hkept hdropped
    exact hkept hdropped

theorem spaced_of_bare (h : (bare t).head?.any Text.isBlank = true) : Spaced t := by
  obtain ⟨before, after, hsplit, hbefore, -, hhead, -⟩ := Text.trim_split Text.isBlank t
  obtain ⟨points, hbare, hpoints⟩ := bare_split t
  rw [hbare] at hsplit hhead
  cases hleft : bare t with
  | nil =>
    rw [hleft] at h
    cases h
  | cons c rest =>
    rw [hleft] at hsplit hhead h
    refine ⟨before, points, c, rest ++ after, ?_, hbefore, ?_, hpoints, h⟩
    · rw [hsplit]
      simp only [List.append_assoc, List.cons_append]
    · rintro rfl
      exact Bool.eq_false_iff.mp hhead h

/-- What is left of an entry is empty just where nothing but points and blanks were there. -/
theorem empty_iff (h : extension? (.text s) = some e) : e = "" ↔ Hollow s.toList := by
  obtain ⟨-, rfl⟩ := extension?_eq_some.mp h
  rw [Text.lower_eq_empty, String.ofList_eq_empty_iff, bare_eq_nil]

/-- Of the entries that are kept, just those are left unfinished whose first points have a blank behind them. -/
theorem final_iff (h : extension? (.text s) = some e) : Final e ↔ ¬ Spaced s.toList := by
  have hstripped := stripped_of_extension h
  have hempty := empty_iff h
  obtain ⟨hkept, rfl⟩ := extension?_eq_some.mp h
  have hhead := Text.lower_head? (q := Text.isBlank) (fun c hc => hc.1) (String.ofList (bare s.toList))
  rw [String.toList_ofList] at hhead
  constructor
  · intro hfinal hspaced
    rcases bare_of_spaced hspaced with hhollow | hblank
    · exact hfinal.nonempty (hempty.mpr hhollow)
    · rw [← hhead, hfinal.start] at hblank
      cases hblank
  · intro hspaced
    have hne := mt (spaced_of_hollow hkept) hspaced
    have hstart := hhead.trans (Bool.eq_false_iff.mpr (mt spaced_of_bare hspaced))
    exact ⟨hstripped, mt hempty.mp hne, hstart, again_of_stripped hstripped (mt hempty.mp hne) hstart⟩

theorem default_final : ∀ e ∈ defaultExtensions, Final e := by
  have hread : ∀ e ∈ defaultExtensions, extension? (.text e) = some e ∧ e ≠ "" ∧
      e.toList.head?.any Text.isBlank = false := by decide +kernel
  intro e he
  obtain ⟨hsome, hne, hstart⟩ := hread e he
  exact ⟨stripped_of_extension hsome, hne, hstart, hsome⟩

/-- An entry of a list, and the extension that it has been read as. -/
structure Entry (d : Data) (e : String) : Prop where
  stripped : Stripped e
  text : ∃ s, d = .text s ∧ (Final e ↔ ¬ Spaced s.toList) ∧ (e = "" ↔ Hollow s.toList)

theorem entry_of_extension (h : extension? d = some e) : Entry d e := by
  refine ⟨stripped_of_extension h, ?_⟩
  cases d with
  | text s => exact ⟨s, rfl, final_iff h, empty_iff h⟩
  | _ => cases h

theorem entries_of_list {ds : List Data} {es : List String} (h : extensionsOf ds = .ok es) :
    List.Forall₂ Entry ds es := by
  induction ds generalizing es with
  | nil =>
    cases h
    exact .nil
  | cons d ds ih =>
    rw [extensionsOf] at h
    split at h
    · cases h
    · next e he =>
      obtain ⟨rest, hrest, rfl⟩ := map_eq_ok.mp h
      exact .cons (entry_of_extension he) (ih hrest)

/-- The extensions, as the fields of a record give them. -/
inductive Extensions (fs : List (String × Data)) : List String → Prop
  | usual (absent : fs.lookup "extensions" = none ∨ fs.lookup "extensions" = some .null)
      (final : ∀ e ∈ defaultExtensions, Final e) : Extensions fs defaultExtensions
  | given {ds : List Data} {es : List String} (list : fs.lookup "extensions" = some (.list ds))
      (entries : List.Forall₂ Entry ds es) : Extensions fs es

theorem extensions_of_read {fs : List (String × Data)} {es : List String}
    (h : optional "extensions" defaultExtensions readExtensions fs = .ok es) : Extensions fs es := by
  rcases optional_eq_ok.mp h with ⟨hnone, rfl⟩ | ⟨d, hd, hread⟩
  · exact .usual (.inl hnone) default_final
  · cases d with
    | null =>
      cases hread
      exact .usual (.inr hd) default_final
    | list ds => exact .given hd (entries_of_list hread)
    | _ => cases hread

theorem Extensions.stripped {fs : List (String × Data)} {es : List String} (h : Extensions fs es) :
    ∀ e ∈ es, Stripped e := by
  cases h with
  | usual absent final => exact fun e he => (final e he).toStripped
  | given list entries =>
    clear list
    induction entries with
    | nil => exact List.forall_mem_nil _
    | cons hentry _ ih => exact List.forall_mem_cons.mpr ⟨hentry.stripped, ih⟩

theorem identifiers_of_read {ns : List String} (h : readIgnoredNames d = .ok ns) :
    ∀ n ∈ ns, Text.isIdentifier n.toList = true := by
  obtain ⟨names, -, h⟩ := bind_eq_ok.mp h
  split at h
  · cases h
  · next hnone =>
    cases h
    intro n hn
    simpa using List.find?_eq_none.mp hnone n hn

/-- What settings that have been read keep to. -/
structure Kept (s : Settings) : Prop where
  extensions : ∀ e ∈ s.extensions, Stripped e
  ignoredNames : ∀ n ∈ s.ignoredNames, Text.isIdentifier n.toList = true
  preambleWindow : 1 ≤ s.preambleWindow
  maxWorkers : 1 ≤ s.maxWorkers
  hoverMaxLines : 1 ≤ s.hoverMaxLines
  logLevel : s.logLevel.title ∈ ["DEBUG", "INFO", "WARNING", "ERROR"]

theorem title_mem (v : Severity) : v.title ∈ ["DEBUG", "INFO", "WARNING", "ERROR"] := by
  cases v <;> decide

theorem kept_of_read {settings : Settings} (h : read d = .ok settings) :
    settings.Kept ∧ ∃ fs, d = .record fs ∧ Extensions fs settings.extensions := by
  obtain ⟨fs, hfs, h⟩ := bind_eq_ok.mp h
  obtain ⟨⟨included, excluded, extensions, nested, useIndex, window, workers, ignored, hover, logging, known⟩,
    hall, h⟩ := bind_eq_ok.mp h
  cases h
  simp only [Checked.both_eq_ok] at hall
  obtain ⟨-, -, hextensions, -, -, hwindow, hworkers, hignored, hhover, -, -⟩ := hall
  have hgiven := extensions_of_read hextensions
  obtain rfl : d = .record fs := by
    cases d with
    | record fields =>
      cases hfs
      rfl
    | _ => cases hfs
  refine ⟨⟨hgiven.stripped, ?_, ?_, ?_, ?_, title_mem _⟩, fs, rfl, hgiven⟩
  · exact optional_holds hignored (List.forall_mem_nil _) fun _ _ => identifiers_of_read
  · exact optional_holds hwindow (by decide) fun _ _ => lt_of_greaterThan
  · exact optional_holds hworkers (by decide) fun _ _ => le_of_atLeast
  · exact optional_holds hhover (by decide) fun _ _ => le_of_atLeast

theorem Kept.extensions_normal {settings : Settings} (h : settings.Kept) :
    settings.extensions.map Scan.normalExtension = settings.extensions := by
  rw [List.map_congr_left fun e he => (h.extensions e he).normal, List.map_id']

/-- Accepted settings keep to their form. An extension is final unless its entry has a blank behind the points
that it begins with. It is empty where nothing else than blanks is behind them, and without an empty extension
no file without a suffix is found. -/
theorem read_in_form {settings : Settings} (h : read d = .ok settings) :
    settings.Kept ∧ (∃ fs, d = .record fs ∧ Extensions fs settings.extensions) ∧
      ∀ fs folder o paths, o.extensions = settings.extensions → Scan.sourceFiles fs folder o = .ok paths →
        ∀ p ∈ paths, p.extension ∈ settings.extensions ∧
          (Path.suffixOf p.name.toList = [] → "" ∈ settings.extensions) := by
  obtain ⟨hkept, hextensions⟩ := kept_of_read h
  refine ⟨hkept, hextensions, fun fs folder o paths ho hpaths p hp => ?_⟩
  have hfound : p.extension ∈ o.extensions.map Scan.normalExtension := Scan.extension_of_mem hpaths hp
  rw [ho, hkept.extensions_normal] at hfound
  exact ⟨hfound, fun hnone => Path.extension_eq_empty.mpr hnone ▸ hfound⟩

/-- Entries with points and blanks in any order. -/
def pointed : Data := .record [("extensions", .list [.text "..JS ", .text " Σ", .text " . ", .text ". ts"]),
  ("ignored_names", .list [.text "$"]), ("max_workers", .text "1"), ("logging", .record [("level", .text "debug")])]

def pointedSettings : Settings :=
  { default with extensions := ["js", "σ", "", " ts"], ignoredNames := ["$"], maxWorkers := 1, logLevel := .debug }

theorem read_in_form_pointed : read pointed = .ok pointedSettings ∧
    pointedSettings.Kept ∧ (∃ fs, pointed = .record fs ∧ Extensions fs pointedSettings.extensions) ∧
      ∀ fs folder o paths, o.extensions = pointedSettings.extensions →
        Scan.sourceFiles fs folder o = .ok paths → ∀ p ∈ paths, p.extension ∈ pointedSettings.extensions ∧
          (Path.suffixOf p.name.toList = [] → "" ∈ pointedSettings.extensions) := by
  have hread : read pointed = .ok pointedSettings := by decide +kernel
  exact ⟨hread, read_in_form hread⟩

/-- A point between blanks passes for an extension, and nothing is left of it. -/
theorem spaced_unfinished : ¬ ∀ (d : Data) (settings : Settings), read d = .ok settings →
    ∀ e ∈ settings.extensions, e ≠ "" ∧ e.toList.head?.any Text.isBlank = false := by
  intro h
  have hread : read (.record [("extensions", .list [.text " . "])]) =
      .ok { default with extensions := [""] } := by decide +kernel
  exact (h _ _ hread "" List.mem_cons_self).1 rfl

end Settings

end Callees
