import Surface.Main
import Surface.Proofs.Index.Reader
import Surface.Proofs.Rules.Declares
import Surface.Proofs.Text.Utf8
import Surface.Proofs.Rules.Component
import Surface.Proofs.Rules.Tidy
import Surface.Proofs.Tree.Span
import Surface.Proofs.Rules.Placement
import Surface.Proofs.Rules.Order
import Surface.Proofs.Rules.Locality
import Surface.Proofs.Rules.Reach
import Surface.Proofs.Json.Quoted
import Surface.Proofs.Json.Token
import Surface.Proofs.Json.Reader
import Surface.Proofs.Symbol.Json
import Surface.Proofs.Grammar.Session
import Surface.Proofs.Path.Join
import Surface.Proofs.FileSystem.Lookup
import Surface.Proofs.Grammar.Alike
import Surface.Proofs.Walk.Found
import Surface.Proofs.Walk.Collect
import Surface.Proofs.Walk.Tests
import Surface.Proofs.Command.Index
import Surface.Proofs.Parser.Reuse
import Surface.Proofs.Grammar.Search
import Surface.Proofs.Rules.Frontmatter
import Surface.Proofs.Rules.Exported
import Surface.Proofs.Rules.Values
import Surface.Proofs.Rules.Wrapper
import Surface.Proofs.Rules.Definition
import Surface.Proofs.Rules.Public
import Surface.Proofs.Path.Below
import Surface.Proofs.Tree.Tour
import Surface.Proofs.Walk.TestNames
import Surface.Proofs.Rules.Docstring
import Surface.Proofs.Text.OneLine
import Surface.Proofs.Tree.Headline
import Surface.Proofs.Rules.TripleQuoted
