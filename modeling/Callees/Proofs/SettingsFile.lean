import Callees.Command
import Callees.Proofs.StrictUtf8
import Callees.Proofs.TomlFaults

namespace Callees

theorem Files.isFile_of_readBytes {fs : Files} {p : Path} {bytes : List UInt8}
    (h : fs.readBytes p = .ok bytes) : fs.isFile p = true := by
  rw [readBytes] at h
  rw [isFile, entryAt?]
  cases hplace : fs.locatePath true p with
  | error refusal =>
    rw [hplace] at h
    cases h
  | ok place =>
    rw [hplace] at h
    simp only [refusal, bind, Except.bind] at h
    split at h
    · next hentry => simp only [hentry]
    · cases h

theorem Failure.kind_configError {f : Failure} (h : f.kind = "ConfigError") :
    (∃ path, f = .badSyntax path) ∨ ∃ path issues, f = .badSettings path issues := by
  cases f with
  | badSyntax path => exact .inl ⟨path, rfl⟩
  | badSettings path issues => exact .inr ⟨path, issues, rfl⟩
  | reported complaint _ => cases complaint <;> simp [kind] at h
  | refused refusal _ => cases refusal <;> simp [kind, Refusal.kind] at h
  | _ => simp [kind] at h

namespace Settings

variable {fs : Files} {root : Path} {bytes : List UInt8} {path : String}

/-- The bytes of the settings file of a project. -/
def Held (fs : Files) (root : Path) (bytes : List UInt8) : Prop :=
  fs.readBytes (root.join (Path.ofString fileName)) = .ok bytes

theorem Held.load (h : Held fs root bytes) (stack : Toml.Stack) : load stack fs root =
    ofBytes stack (root.join (Path.ofString fileName)).toString bytes := by
  have hfile := Files.isFile_of_readBytes h
  rw [Held] at h
  rw [Settings.load]
  simp only [hfile, if_true, h]
  rfl

/-- There are settings, or what is wrong is told as a fault of the settings file. -/
def Answered : Except Failure Settings → Prop
  | .ok _ => True
  | .error f => f.kind = "ConfigError"

/-- What gets past the refusal of settings files: bytes that are no text, told with what stands before
them, a number that is too long, and values that are too deep in one another for the stack. -/
inductive Escaped (stack : Toml.Stack) (bytes : List UInt8) : Except Failure Settings → Prop
  | notText (before : List Char) (broken : Text.Broken) (rest : List UInt8)
      (hbytes : bytes = Text.encode before ++ (broken.bytes ++ rest))
      (hnone : ∀ chars, bytes ≠ Text.encode chars) :
    Escaped stack bytes (.error (.notUnicode (Text.encode before).length broken))
  | tooLong (chars : List Char) (count : Nat) (hbytes : bytes = Text.encode chars)
      (hlong : Toml.Overlong chars count) : Escaped stack bytes (.error (.tooManyDigits count))
  | tooDeep (chars : List Char) (hbytes : bytes = Text.encode chars)
      (hdeep : Toml.Deep stack chars) : Escaped stack bytes (.error .tooDeep)

theorem Escaped.not_answered {stack : Toml.Stack} {loaded : Except Failure Settings}
    (h : Escaped stack bytes loaded) : ¬ Answered loaded := by
  cases h <;> simp [Answered, Failure.kind]

theorem ofBytes_notText (stack : Toml.Stack) (path : String) (h : ∀ chars, bytes ≠ Text.encode chars) :
    Escaped stack bytes (ofBytes stack path bytes) := by
  cases hdecoded : Text.decodeStrict bytes with
  | error fault =>
    obtain ⟨offset, broken⟩ := fault
    obtain ⟨before, rest, hbytes, rfl⟩ := Text.decodeStrict_error hdecoded
    rw [ofBytes, hdecoded]
    exact .notText before broken rest hbytes h
  | ok chars => exact absurd (Text.decodeStrict_eq_ok.mp hdecoded) (h chars)

/-- A text is answered for, unless something else than its form stops the reading. -/
theorem ofBytes_encode (stack : Toml.Stack) (path : String) (chars : List Char) :
    (∃ f, Toml.read stack chars = .error f ∧ f ≠ .malformed ∧
      Escaped stack (Text.encode chars) (ofBytes stack path (Text.encode chars))) ∨
    (∀ f, Toml.read stack chars = .error f → f = .malformed) ∧
      Answered (ofBytes stack path (Text.encode chars)) := by
  simp only [ofBytes, Text.decodeStrict_encode]
  cases hread : Toml.read stack chars with
  | error fault =>
    cases fault with
    | malformed =>
      refine .inr ⟨?_, rfl⟩
      intro f hf
      exact (Except.error.inj hf).symm
    | tooManyDigits count => exact .inl ⟨_, rfl, nofun, .tooLong chars count rfl (Toml.read_long hread)⟩
    | tooDeep => exact .inl ⟨_, rfl, nofun, .tooDeep chars rfl (Toml.read_deep hread)⟩
  | ok d =>
    refine .inr ⟨nofun, ?_⟩
    simp only
    cases read d with
    | error issues => rfl
    | ok settings => trivial

/-- What is not answered for escapes, with a reason for it in the bytes. -/
theorem answered_or_escaped (stack : Toml.Stack) (path : String) (bytes : List UInt8) :
    Escaped stack bytes (ofBytes stack path bytes) ∨ Answered (ofBytes stack path bytes) := by
  by_cases htext : ∃ chars, bytes = Text.encode chars
  · obtain ⟨chars, rfl⟩ := htext
    obtain ⟨f, -, -, hescaped⟩ | ⟨-, hanswered⟩ := ofBytes_encode stack path chars
    · exact .inl hescaped
    · exact .inr hanswered
  · exact .inl (ofBytes_notText stack path fun chars hbytes => htext ⟨chars, hbytes⟩)

/-- The bytes that are answered for. -/
theorem answered_iff {stack : Toml.Stack} : Answered (ofBytes stack path bytes) ↔
    ∃ chars, bytes = Text.encode chars ∧
      ∀ f, Toml.read stack chars = .error f → f = .malformed := by
  constructor
  · intro h
    obtain ⟨chars, rfl⟩ : ∃ chars, bytes = Text.encode chars := by
      by_contra hnone
      have hescaped := ofBytes_notText stack path fun chars hbytes => hnone ⟨chars, hbytes⟩
      exact hescaped.not_answered h
    obtain ⟨f, -, -, hescaped⟩ | ⟨hread, -⟩ := ofBytes_encode stack path chars
    · exact absurd h hescaped.not_answered
    · exact ⟨chars, rfl, hread⟩
  · intro h
    obtain ⟨chars, rfl, hread⟩ := h
    obtain ⟨f, hfault, hother, -⟩ | ⟨-, hanswered⟩ := ofBytes_encode stack path chars
    · exact absurd (hread f hfault) hother
    · exact hanswered

/-- However many calls the stack holds, arrays in one another can be too deep for it. -/
theorem nested_escapes (calls : Nat) (path : String) :
    ofBytes (.holding calls) path (Text.encode (Toml.nested calls)) = .error .tooDeep := by
  rw [ofBytes, Text.decodeStrict_encode]
  simp only [Toml.read_nested]

end Settings

namespace Command

/-- How a command ends, by what the settings of its project come to. -/
structure Ended (q : Request) (fs : Files) (loaded : Except Failure Settings) (o : Outcome) : Prop where
  proceeds : ∀ s, loaded = .ok s → o.style = some (style q s) ∧ ∀ f, o.ending ≠ .unusable f
  refused : ∀ f, loaded = .error f → Settings.Answered loaded → o = ⟨.unusable f, none, [], fs⟩ ∧
    o.ending.code = 2 ∧ o.ending.complaint = "error: " ++ f.message ++ "\n"
  escaped : ∀ f, loaded = .error f → ¬ Settings.Answered loaded → o = ⟨.failed f, none, [], fs⟩ ∧
    o.ending.code = 1

theorem project_eq {stack : Toml.Stack} {home root : Path} {fs : Files} {q : Request}
    (hroot : (expand home q.root >>= fs.resolve) = .ok root) :
    project stack fs home q = (Settings.load stack fs root).map fun s => (root, s) := by
  cases hexpanded : expand home q.root with
  | error f =>
    rw [hexpanded] at hroot
    cases hroot
  | ok p =>
    rw [hexpanded] at hroot
    change fs.resolve p = .ok root at hroot
    simp only [project, hexpanded, hroot, bind, Except.bind]
    cases Settings.load stack fs root <;> rfl

theorem run_ended (stack : Toml.Stack) (parse : Parse) (home : Path) {root : Path} {fs : Files} {arguments : List String}
    {q : Request} (hq : Request.ofArguments arguments = .ok q)
    (hroot : (expand home q.root >>= fs.resolve) = .ok root) :
    Ended q fs (Settings.load stack fs root) (run stack parse home fs arguments) := by
  rw [run, hq]
  simp only [project_eq hroot]
  cases Settings.load stack fs root with
  | ok s =>
    refine ⟨?_, nofun, nofun⟩
    intro s' hs
    cases hs
    refine ⟨rfl, ?_⟩
    intro f
    generalize hfinished : (answer ⟨root, s, parse⟩ home q).run ⟨⟨fs, none⟩, []⟩ = finished
    obtain ⟨result, session⟩ := finished
    simp only [Except.map, hfinished]
    cases result <;> nofun
  | error f =>
    refine ⟨nofun, ?_, ?_⟩
    · intro f' hf hanswered
      cases hf
      obtain ⟨path, rfl⟩ | ⟨path, issues, rfl⟩ := Failure.kind_configError hanswered
      · exact ⟨rfl, rfl, rfl⟩
      · exact ⟨rfl, rfl, rfl⟩
    · intro f' hf hunanswered
      cases hf
      simp only [Except.map]
      split
      · exact absurd rfl hunanswered
      · exact absurd rfl hunanswered
      · exact ⟨rfl, rfl⟩

/-- A text whose numbers are all short enough and whose values are not too deep in one another gives
settings or is refused, and what else is in a settings file escapes: bytes that are no text, numbers that
are too long, and values that are too deep. The command ends accordingly. -/
theorem settings_file_answered {stack : Toml.Stack} {fs : Files} {root : Path} {bytes : List UInt8}
    (h : Settings.Held fs root bytes) :
    (∀ chars, bytes = Text.encode chars → (∀ count, ¬ Toml.Overlong chars count) →
      ¬ Toml.Deep stack chars → Settings.Answered (Settings.load stack fs root)) ∧
    (Settings.Answered (Settings.load stack fs root) ↔ ∃ chars, bytes = Text.encode chars ∧
      ∀ f, Toml.read stack chars = .error f → f = .malformed) ∧
    (Settings.Answered (Settings.load stack fs root) ∨
      Settings.Escaped stack bytes (Settings.load stack fs root)) ∧
    ∀ parse home arguments q, Request.ofArguments arguments = .ok q →
      (expand home q.root >>= fs.resolve) = .ok root →
      Ended q fs (Settings.load stack fs root) (run stack parse home fs arguments) := by
  refine ⟨?_, ?_, ?_, ?_⟩
  · intro chars hbytes hshort hshallow
    rw [h.load, Settings.answered_iff]
    refine ⟨chars, hbytes, ?_⟩
    intro f hf
    cases f with
    | malformed => rfl
    | tooManyDigits count => exact absurd (Toml.read_long hf) (hshort count)
    | tooDeep => exact absurd (Toml.read_deep hf) hshallow
  · rw [h.load]
    exact Settings.answered_iff
  · rw [h.load]
    exact (Settings.answered_or_escaped stack _ bytes).symm
  · intro parse home arguments q hq hroot
    exact run_ended stack parse home hq hroot

/-- A project with nothing but a settings file in it. -/
def withSettings (bytes : List UInt8) : Files :=
  ⟨["w"], [(["w"], .folder), (["w", Settings.fileName], .file bytes)]⟩

def settingsRoot : Path := .absolute ["w"]

theorem withSettings_held (bytes : List UInt8) :
    Settings.Held (withSettings bytes) settingsRoot bytes := by
  have hname : Path.ofString Settings.fileName = ⟨"", [Settings.fileName]⟩ := by decide +kernel
  have hup : Settings.fileName ≠ ".." := by decide
  simp [Settings.Held, hname, Files.readBytes, Files.locatePath, Files.absolute, Path.isAbsolute,
    Path.join, Path.absolute, Files.locate, Files.entry?, withSettings, settingsRoot, List.lookup_cons,
    hup, Files.refusal, bind, Except.bind]

theorem withSettings_root (bytes : List UInt8) (home : Path) :
    (expand home "." >>= (withSettings bytes).resolve) = .ok settingsRoot := by
  have hname : Path.ofString "." = ⟨"", []⟩ := by decide +kernel
  simp [expand, hname, Path.isAbsolute, Files.resolve, Files.absolute, Files.settle, withSettings,
    Files.entry?, settingsRoot, bind, Except.bind]

def scopeArguments : List String := ["scope", "a.js", "1", "1"]

def scopeRequest : Request := ⟨.scope ⟨"a.js", 1, 1⟩, ".", false, none⟩

/-- A window of no characters is a fault of the settings. -/
def noWindow : List Char := "preamble_window = 0".toList

theorem settings_file_answered_noWindow :
    Settings.Held (withSettings (Text.encode noWindow)) settingsRoot (Text.encode noWindow) ∧
      (∀ count, ¬ Toml.Overlong noWindow count) ∧ ¬ Toml.Deep .usual noWindow ∧
      Request.ofArguments scopeArguments = .ok scopeRequest ∧
      ∃ f, f.kind = "ConfigError" ∧
        Settings.load .usual (withSettings (Text.encode noWindow)) settingsRoot = .error f ∧
        run .usual (fun _ _ => .empty) settingsRoot (withSettings (Text.encode noWindow)) scopeArguments =
          ⟨.unusable f, none, [], withSettings (Text.encode noWindow)⟩ := by
  have hheld := withSettings_held (Text.encode noWindow)
  have hshort : ∀ count, ¬ Toml.Overlong noWindow count := by
    intro count hlong
    obtain ⟨w, hw, -, hcount⟩ := hlong.digits
    have hfewer := List.length_filter_le Char.isDigit w
    have hwithin := hw.length_le
    have hlength : noWindow.length ≤ Text.maxDigits := by decide +kernel
    have hlong := hlong.long
    omega
  have hshallow : ¬ Toml.Deep .usual noWindow := by
    intro hdeep
    have hcalls := Toml.overflows_holding.mp hdeep
    revert hcalls
    decide +kernel
  have hq : Request.ofArguments scopeArguments = .ok scopeRequest := by decide +kernel
  refine ⟨hheld, hshort, hshallow, hq, ?_⟩
  obtain ⟨hanswered, -, -, hended⟩ := @settings_file_answered .usual _ _ _ hheld
  have hanswered := hanswered noWindow rfl hshort hshallow
  have hended := hended (fun _ _ => .empty) settingsRoot scopeArguments scopeRequest hq (withSettings_root _ _)
  cases hload : Settings.load .usual (withSettings (Text.encode noWindow)) settingsRoot with
  | ok s =>
    have hfailed : ((Settings.ofBytes .usual (settingsRoot.join (Path.ofString Settings.fileName)).toString
        (Text.encode noWindow)).toOption.isNone) = true := by decide +kernel
    rw [← hheld.load, hload] at hfailed
    cases hfailed
  | error f =>
    obtain ⟨hrun, -⟩ := hended.refused f hload hanswered
    rw [hload] at hanswered
    exact ⟨f, hanswered, rfl, hrun⟩

/-- A byte that begins no character is told as no fault of the settings file. -/
theorem stray_byte_escapes :
    Settings.Held (withSettings [0xFF]) settingsRoot [0xFF] ∧
      Settings.load .usual (withSettings [0xFF]) settingsRoot =
        .error (.notUnicode 0 ⟨.badStart, [0xFF]⟩) ∧
      ¬ Settings.Answered (Settings.load .usual (withSettings [0xFF]) settingsRoot) ∧
      (run .usual (fun _ _ => .empty) settingsRoot (withSettings [0xFF]) scopeArguments).ending.code =
        1 := by
  have hheld := withSettings_held [0xFF]
  have hload : Settings.load .usual (withSettings [0xFF]) settingsRoot =
      .error (.notUnicode 0 ⟨.badStart, [0xFF]⟩) := by
    rw [hheld.load]
    decide +kernel
  have hescapes : ¬ Settings.Answered (Settings.load .usual (withSettings [0xFF]) settingsRoot) := by
    rw [hload]
    simp [Settings.Answered, Failure.kind]
  have hq : Request.ofArguments scopeArguments = .ok scopeRequest := by decide +kernel
  have hended := run_ended .usual (fun _ _ => .empty) settingsRoot hq
    (withSettings_root [0xFF] settingsRoot)
  exact ⟨hheld, hload, hescapes, (hended.escaped _ hload hescapes).2⟩

end Command

end Callees
