import Offside.Diagnostic.Scan
import Offside.Files
import Offside.Grammar.Cursor
import Offside.Writer

/-!
# Offside.Transpile

From source text to JavaScript, in two ways: `transpile` stops at the first
failure, and `transpileChecked` first reports all that the tokens show. Between
files there is only the first way.
-/

namespace Offside

/-- The indentation of generated code, unless another one is asked for. -/
def defaultWidth : Nat := 4

/-- The code of a source text. -/
def transpile (source : String) (width : Nat) : Except Failure Output := do
  let p ← Program.parse source
  p.generate width

/-- The code of a source text, or all diagnostics of its tokens, or the
diagnostic of its first failure. -/
def transpileChecked (file : Option String) (source : String) (width : Nat) :
    Except (List Diagnostic) Output :=
  let tokens := Token.ofProgram source.toList
  match Diagnostic.scan .full file tokens with
  | [] =>
    match (do let p ← Program.ofTokens tokens; p.generate width) with
    | .ok output => .ok output
    | .error e => .error [Diagnostic.ofFailure file e]
  | ds => .error ds

/-- The warnings about generated code. -/
def Output.warnings (file : Option String) (o : Output) : List Diagnostic :=
  o.degradations.map (Diagnostic.ofDegradation file)

/-- Write the code of the program in one file to another file. The files change
only if all goes well. -/
def transpileFile (tree : FileTree) (input output : String) : Except Failure Unit × FileTree :=
  match (do
    let source ← (tree.readText input).mapError Failure.file
    let made ← transpile source defaultWidth
    (tree.writeText output made.code).mapError Failure.file) with
  | .ok changed => (.ok (), changed)
  | .error e => (.error e, tree)

end Offside
