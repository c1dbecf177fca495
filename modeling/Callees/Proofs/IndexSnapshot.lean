import Callees.Proofs.IndexedSymbols
import Callees.Proofs.Tiers

namespace Callees.Workspace

open Callees.Path (along)

inductive Action
  | change (f : Files → Except Failure Files)
  | query (name : String)
  | refresh

namespace Action

def perform (w : Workspace) : Action → Lookup Disk (List SymbolInfo)
  | change f => do
    changeFiles f
    pure []
  | query name => w.symbols name
  | refresh => do
    Workspace.refresh
    pure []

/-- The session after some actions. One that fails leaves the others as they are. -/
def performAll (w : Workspace) (actions : List Action) (s : Session Disk) : Session Disk :=
  actions.foldl (fun s a => ((a.perform w).run s).2) s

/-- What an action does to the files. A change that fails does nothing. -/
def files (fs : Files) : Action → Files
  | change f => (f fs).toOption.getD fs
  | query _ | refresh => fs

variable {w : Workspace} {s : Session Disk} {index : SymbolIndex} {name : String}

theorem run_withFiles {α : Type} (f : Files → Except Failure α) :
    (withFiles f).run s = (f s.host.files, s) := by
  rw [withFiles, Lookup.run_bind_ok (show disk.run s = (.ok s.host, s) from rfl)]
  cases f s.host.files <;> rfl

end Action

variable {w : Workspace}

def helper : String := "function go() \x7b\x7d"

def helperTree : SyntaxTree :=
  .node "program" ⟨0, 0⟩ ⟨0, 16⟩ (some (0, 16)) none
    [.node "function_declaration" ⟨0, 0⟩ ⟨0, 16⟩ (some (0, 16)) none
      [.node "identifier" ⟨0, 9⟩ ⟨0, 11⟩ (some (9, 11)) (some "name") [],
        .node "statement_block" ⟨0, 14⟩ ⟨0, 16⟩ (some (14, 16)) (some "body") []]]

def tools : Workspace :=
  ⟨.absolute ["w"], .default, fun _ text => if text = helper then helperTree else .empty⟩

theorem tools_unignored {fs : Files} (hmissing : fs.isFile (tools.root.join ⟨"", [".gitignore"]⟩) = false) :
    Scan.ignoreFiles fs tools.root tools.settings.nestedIgnores = .ok [] := by
  have hname : Path.ofString Scan.ignoreName = ⟨"", [".gitignore"]⟩ := by decide +kernel
  rw [Scan.ignoreFiles, Scan.ignorePaths, hname, hmissing]
  rfl

end Callees.Workspace
