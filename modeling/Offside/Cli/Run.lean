import Offside.Ast.Json
import Offside.Cli.Options
import Offside.Files
import Offside.Text.Visible
import Offside.Transpile

/-!
# Offside.Cli.Run

What the program does, as a function of its arguments, its standard input and
the files around it. A run reads one source, and then either is over or writes
one file; `respond` decides which, and `run` does it in a `FileTree`.
-/

namespace Offside.Cli

/-- How a run ends. -/
structure Report where
  exit : Nat
  stdout : String
  stderr : String
deriving DecidableEq, Repr

/-- What a run does after it has read its source. -/
inductive Response where
  /-- It is over. -/
  | done (report : Report)
  /-- It writes code to a file, after it has given these warnings. -/
  | write (path : String) (code : String) (warnings : String)
deriving DecidableEq, Repr

/-- The version, as the program shows it. -/
def versionText : String := "kcn 0.3.0\n"

/-- The help, as the program shows it. -/
def helpText : String :=
  "Transpile a Python subset to JavaScript

Usage: kcn [OPTIONS] <INPUT>

Arguments:
  <INPUT>  Input Python file (\"-\" reads stdin)

Options:
  -o, --output <OUTPUT>  Output JavaScript file (default: <INPUT>.js, or stdout for stdin input)
  -d, --debug            Show debug logging
      --dump-tokens      Dump the token stream and exit
      --dump-ast         Dump the AST as JSON and exit
  -c, --check            Check only (don't generate output)
      --diag-json        Emit JSON diagnostics to stderr (on failure only)
      --indent <N>       Spaces per indentation level in the output [default: 4]
  -h, --help             Print help
  -V, --version          Print version
"

/-- The hint after wrong arguments. -/
def usageText : String :=
  "error: invalid arguments

Usage: kcn [OPTIONS] <INPUT>

For more information, try '--help'.
"

/-- The end of a run without options. -/
def Refusal.report : Refusal → Report
  | version => ⟨0, versionText, ""⟩
  | help => ⟨0, helpText, ""⟩
  | usage => ⟨2, "", usageText⟩

/-- The end of a run that could not read or write. -/
def fileReport (action : String) (fault : FileFault) (warnings : String) : Report :=
  ⟨1, "", warnings ++ "Error: failed to " ++ action ++ "\n\nCaused by:\n    " ++ fault.message ++
    "\n"⟩

/-- The end of a run with errors. -/
def failureReport (o : Options) (ds : List Diagnostic) : Report :=
  ⟨1, Diagnostic.allToText ds,
    if o.diagJson then (Diagnostic.allToJson ds).compact ++ "\n" else ""⟩

namespace Options

/-- The source is the standard input. -/
def readsStdin (o : Options) : Bool := o.input = "-"

/-- The file that diagnostics name. -/
def file (o : Options) : Option String := if o.readsStdin then none else some o.input

/-- The file that the code goes to; code from the standard input goes to none.
Without a name, it is the name of the input with another extension, in the
directory of the program. -/
def target? (o : Options) : Option String :=
  match o.output with
  | some path => some path
  | none => if o.readsStdin then none else some (Path.withExtension o.input "js")

end Options

/-! ### Dumps -/

/-- A number with at least three digits. -/
def padded (n : Nat) : String :=
  let digits := Nat.toDigits 10 n
  String.ofList (List.replicate (3 - digits.length) '0' ++ digits)

/-- The tokens of a source, one on each line. -/
def tokenDump (source : String) : String :=
  "=== Tokens ===\n" ++
    String.join ((Token.ofProgram source.toList).mapIdx fun i t =>
      "[" ++ padded i ++ "] " ++ t.describe ++ "\n")

/-- The end of a run that shows the syntax tree. -/
def treeReport (o : Options) (source : String) : Report :=
  match Program.parse source with
  | .ok p => ⟨0, p.toJson.pretty 0 ++ "\n", ""⟩
  | .error e => failureReport o [Diagnostic.ofFailure o.file e]

/-! ### Runs -/

/-- What a run does with its source. -/
def respondTo (o : Options) (source : String) : Response :=
  if o.dumpTokens then .done ⟨0, tokenDump source, ""⟩
  else if o.dumpAst then .done (treeReport o source)
  else
    match transpileChecked o.file source o.indent with
    | .error ds => .done (failureReport o ds)
    | .ok output =>
      let warnings := Diagnostic.allToText (output.warnings o.file)
      if o.check then .done ⟨0, "✅ Transpilation successful!\n", warnings⟩
      else
        match o.target? with
        | none => .done ⟨0, output.code ++ "\n", warnings⟩
        | some path => .write path output.code warnings

/-- What a run does when it has tried to read its source. -/
def respond (o : Options) : Except FileFault String → Response
  | .ok source => respondTo o source
  | .error fault =>
    .done (fileReport ("read " ++ (if o.readsStdin then "stdin" else o.input)) fault "")

/-- The end of a run that has tried to write its code. -/
def writeReport (path warnings : String) : Except FileFault Unit → Report
  | .ok () => ⟨0, "✅ Transpiled to: " ++ Text.visible path ++ "\n", warnings⟩
  | .error fault => fileReport ("write " ++ path) fault warnings

/-- A run with the given options. -/
def runWith (o : Options) (stdin : ByteArray) (tree : FileTree) : Report × FileTree :=
  let source := if o.readsStdin then FileTree.decode stdin else tree.readText o.input
  match respond o source with
  | .done report => (report, tree)
  | .write path code warnings =>
    match tree.writeText path code with
    | .ok changed => (writeReport path warnings (.ok ()), changed)
    | .error fault => (writeReport path warnings (.error fault), tree)

/-- A run of the program: how it ends, and the files after it. -/
def run (args : List String) (stdin : ByteArray) (tree : FileTree) : Report × FileTree :=
  match Options.ofArgs args with
  | .ok o => runWith o stdin tree
  | .error refusal => (refusal.report, tree)

end Offside.Cli
