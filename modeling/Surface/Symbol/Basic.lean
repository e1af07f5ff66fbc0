import Surface.Language

/-! Public symbols, and what one source file offers of them. -/

namespace Surface

/-- What a symbol is. -/
inductive Kind where
  | function
  | method
  | structType
  | classType
  | traitType
  | interfaceType
  | enumType
  | typeAlias
  | constant
  | variable
  | module
  deriving DecidableEq, Repr

namespace Kind

/-- Every kind of symbol. -/
def all : List Kind :=
  [.function, .method, .structType, .classType, .traitType, .interfaceType, .enumType, .typeAlias,
    .constant, .variable, .module]

/-- The word for a kind of symbol. -/
def name : Kind → String
  | .function => "function"
  | .method => "method"
  | .structType => "struct"
  | .classType => "class"
  | .traitType => "trait"
  | .interfaceType => "interface"
  | .enumType => "enum"
  | .typeAlias => "type"
  | .constant => "const"
  | .variable => "var"
  | .module => "module"

/-- The kind of symbol that a word stands for. -/
def ofName? (name : String) : Option Kind :=
  all.find? fun kind => kind.name == name

end Kind

/-- A symbol that a source file makes public. -/
structure Symbol where
  kind : Kind
  name : String
  /-- The first line of the declaration. -/
  signature : String
  /-- The documentation that stands at the declaration. -/
  doc : Option String
  /-- The line the declaration starts on, counted from one. -/
  line : Nat
  deriving DecidableEq, Repr

/-- What one source file makes public. -/
structure FileSurface where
  path : Option String
  language : Language
  symbols : List Symbol
  deriving DecidableEq, Repr

/-- Whether a file makes nothing public. -/
def FileSurface.isEmpty (file : FileSurface) : Bool :=
  file.symbols.isEmpty

end Surface
