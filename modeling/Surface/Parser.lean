import Surface.Grammar.Library

/-! A parser that serves every language, one after another. -/

namespace Surface

/-- What a source is parsed in: the files around it, what grammars do, where libraries are. -/
structure Setting where
  fs : FileSystem
  parsing : Parsing
  config : Config

/-- A parser: it holds the grammar that it accepted last. -/
structure Parser where
  current : Option Grammar
  deriving DecidableEq, Repr

namespace Parser

/-- A parser that has not been given a grammar. -/
def fresh : Parser :=
  ⟨none⟩

/-- A parser set to a grammar; a grammar of an unknown version is refused. -/
def setGrammar (_ : Parser) (grammar : Grammar) : Except GrammarFault Parser :=
  if grammar.isCompatible then .ok ⟨some grammar⟩ else .error (.version grammar.version)

/-- The tree of a source by the grammar that the parser holds. -/
def run? (parser : Parser) (parsing : Parsing) (source : Bytes) : Option Tree :=
  parser.current.map fun grammar => parsing grammar source

/-- The tree of a source in a language, with the parser and the loaded libraries afterwards. -/
def parse (parser : Parser) (setting : Setting) (loaded : Loaded) (source : Bytes)
    (language : Language) : Except ParseError Tree × Parser × Loaded :=
  match loaded.resolve setting.fs setting.config language with
  | (.error error, loaded) => (.error error, parser, loaded)
  | (.ok grammar, loaded) =>
    match parser.setGrammar grammar with
    | .error fault => (.error (.unusable language fault), parser, loaded)
    | .ok parser =>
      match parser.run? setting.parsing source with
      | some tree => (.ok tree, parser, loaded)
      | none => (.error (.noTree language), parser, loaded)

/-- The tree of a source whose language is known by its path. -/
def parseFile (parser : Parser) (setting : Setting) (loaded : Loaded) (source : Bytes)
    (path : Path) : Except ParseError (Tree × Language) × Parser × Loaded :=
  match Language.ofPath? path with
  | none => (.error (.undetected path), parser, loaded)
  | some language =>
    match parser.parse setting loaded source language with
    | (answer, parser, loaded) => (answer.map fun tree => (tree, language), parser, loaded)

end Parser

end Surface
