import Callees.Path

namespace Callees.Language

def ofExtension : List (String × String) :=
  [("ts", "typescript"), ("mts", "typescript"), ("cts", "typescript"), ("tsx", "typescriptreact"),
   ("js", "javascript"), ("mjs", "javascript"), ("cjs", "javascript"), ("jsx", "javascriptreact"),
   ("py", "python"), ("go", "go"), ("rs", "rust"), ("java", "java"), ("cpp", "cpp"), ("cc", "cpp"),
   ("cxx", "cpp"), ("c", "c"), ("cs", "csharp"), ("json", "json")]

def ofPath? (p : Path) : Option String := ofExtension.lookup p.extension

end Callees.Language

namespace Callees

/-- The grammars that outlines can be made with. -/
inductive Grammar
  | javascript
  | typescript
  | tsx
  deriving Repr, DecidableEq

namespace Grammar

def name : Grammar → String
  | javascript => "javascript"
  | typescript => "typescript"
  | tsx => "tsx"

def all : List Grammar := [javascript, typescript, tsx]

def ofName? (s : String) : Option Grammar := all.find? (·.name = s)

def ofExtension : List (String × Grammar) :=
  [("js", javascript), ("jsx", javascript), ("mjs", javascript), ("cjs", javascript),
   ("ts", typescript), ("mts", typescript), ("cts", typescript), ("tsx", tsx)]

def ofLanguage : List (String × Grammar) :=
  [("javascript", javascript), ("javascriptreact", javascript), ("typescript", typescript),
   ("typescriptreact", tsx)]

def ofPath? (p : Path) : Option Grammar := ofExtension.lookup p.extension

end Grammar

end Callees
