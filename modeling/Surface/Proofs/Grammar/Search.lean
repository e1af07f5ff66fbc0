import Surface.Proofs.Parser.Reuse
import Surface.Proofs.Text.Line

/-!
The search for a grammar library.
The first path that leads to a file decides: a library there is used whatever state it is in, and
only without any such path is the language unsupported.
-/

namespace Surface

namespace Config

end Config

section Answers

variable {fs : FileSystem} {config : Config} {language : Language} {name : String} {loaded : Loaded}

end Answers

namespace Config

end Config

end Surface
