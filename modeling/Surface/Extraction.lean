import Surface.Parser
import Surface.Rules.Language

/-! What a source makes public: parsing it, then applying the rules of its language. -/

namespace Surface

namespace Setting

/-- The surface of a source in a language, and the loaded libraries afterwards. -/
def extract (setting : Setting) (loaded : Loaded) (source : Bytes) (language : Language) :
    Except ParseError FileSurface × Loaded :=
  match Parser.fresh.parse setting loaded source language with
  | (.error error, _, loaded) => (.error error, loaded)
  | (.ok tree, _, loaded) =>
    (.ok ⟨none, language, language.symbols setting.parsing source tree.root⟩, loaded)

/-- The surface of a source whose language is known by its path. -/
def extractFile (setting : Setting) (loaded : Loaded) (source : Bytes) (path : Path) :
    Except ParseError FileSurface × Loaded :=
  match Language.ofPath? path with
  | none => (.error (.undetected path), loaded)
  | some language =>
    match setting.extract loaded source language with
    | (answer, loaded) => (answer.map fun file => { file with path := some path.display }, loaded)

end Setting

end Surface
