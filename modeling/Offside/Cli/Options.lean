import Offside.Transpile

/-!
# Offside.Cli.Options

The arguments of the command line. Options may stand before and after the
input; `--` ends them. Arguments are read from left to right, and the first one
that asks for the version or the help, or that is wrong, decides.
-/

namespace Offside.Cli

/-- What a run of the program is to do. -/
structure Options where
  /-- The input file, or `-` for the standard input. -/
  input : String
  /-- The output file, if one is named. -/
  output : Option String
  /-- Log what is done. -/
  debug : Bool
  /-- Show the tokens only. -/
  dumpTokens : Bool
  /-- Show the syntax tree only. -/
  dumpAst : Bool
  /-- Write no output. -/
  check : Bool
  /-- Show the diagnostics of a failure as data too. -/
  diagJson : Bool
  /-- Spaces for each level of indentation. -/
  indent : Nat
deriving DecidableEq, Repr

/-- Why arguments do not lead to a run. -/
inductive Refusal where
  | version
  | help
  /-- The arguments are wrong. -/
  | usage
deriving DecidableEq, Repr

/-- The options that take no value. -/
inductive Switch where
  | debug
  | dumpTokens
  | dumpAst
  | check
  | diagJson
  | version
  | help
deriving DecidableEq, Repr

/-- The options that take a value. -/
inductive Setting where
  | output
  | indent
deriving DecidableEq, Repr

/-- The switch with a name of several letters. -/
def Switch.ofName? (name : String) : Option Switch :=
  [("debug", debug), ("dump-tokens", dumpTokens), ("dump-ast", dumpAst), ("check", check),
    ("diag-json", diagJson), ("version", version), ("help", help)].lookup name

/-- The switch with a name of one letter. -/
def Switch.ofLetter? (letter : Char) : Option Switch :=
  [('d', debug), ('c', check), ('V', version), ('h', help)].lookup letter

/-- The setting with a name of several letters. -/
def Setting.ofName? (name : String) : Option Setting :=
  [("output", output), ("indent", indent)].lookup name

/-- The setting with a name of one letter. -/
def Setting.ofLetter? (letter : Char) : Option Setting := [('o', output)].lookup letter

/-- A natural number below 2^64, perhaps with a plus before it. -/
def natural? (text : String) : Option Nat :=
  let digits :=
    match text.toList with
    | '+' :: cs => cs
    | cs => cs
  if digits ≠ [] ∧ digits.all Char.isDigit then
    let n := digits.foldl (fun n c => 10 * n + (c.toNat - '0'.toNat)) 0
    if n < Nat.pow 2 64 then some n else none
  else none

/-! ### Collecting arguments -/

/-- The arguments read so far. Each of them may be given once. -/
structure Draft where
  input : Option String
  output : Option String
  indent : Option Nat
  switches : List Switch
deriving DecidableEq, Repr

namespace Draft

/-- No arguments. -/
def empty : Draft := ⟨none, none, none, []⟩

/-- Take an argument as the input. A path has at least one character. -/
def setInput (d : Draft) (path : String) : Except Refusal Draft :=
  if d.input.isSome ∨ path = "" then .error .usage else .ok { d with input := some path }

/-- Take a switch. -/
def turnOn (d : Draft) (s : Switch) : Except Refusal Draft :=
  match s with
  | .version => .error .version
  | .help => .error .help
  | s => if s ∈ d.switches then .error .usage else .ok { d with switches := s :: d.switches }

/-- Take the value of a setting. -/
def set (d : Draft) (s : Setting) (value : String) : Except Refusal Draft :=
  match s with
  | .output =>
    if d.output.isSome ∨ value = "" then .error .usage else .ok { d with output := some value }
  | .indent =>
    match d.indent, natural? value with
    | none, some n => .ok { d with indent := some n }
    | _, _ => .error .usage

/-- Take letters that stand together after one dash. The last of them may be a
setting that waits for its value. -/
def takeLetters (d : Draft) : List Char → Except Refusal (Draft × Option Setting)
  | [] => .ok (d, none)
  | c :: cs =>
    match Switch.ofLetter? c, Setting.ofLetter? c with
    | some s, _ => do (← d.turnOn s).takeLetters cs
    | none, some s =>
      match cs with
      | [] => .ok (d, some s)
      | '=' :: value => do return (← d.set s (String.ofList value), none)
      | value => do return (← d.set s (String.ofList value), none)
    | none, none => .error .usage

/-- Take an option with a name of several letters, perhaps with its value after
an equals sign. -/
def takeName (d : Draft) (cs : List Char) : Except Refusal (Draft × Option Setting) :=
  let name := String.ofList (cs.takeWhile (· ≠ '='))
  match Switch.ofName? name, Setting.ofName? name, cs.dropWhile (· ≠ '=') with
  | some s, _, [] => do return (← d.turnOn s, none)
  | none, some s, [] => .ok (d, some s)
  | none, some s, _ :: value => do return (← d.set s (String.ofList value), none)
  | _, _, _ => .error .usage

/-- Take an argument that starts with a dash. -/
def takeOption (d : Draft) (arg : String) : Except Refusal (Draft × Option Setting) :=
  match arg.toList with
  | '-' :: '-' :: cs => d.takeName cs
  | _ :: cs => d.takeLetters cs
  | [] => .error .usage

/-- An argument that is an option: a dash with something after it. -/
def isOption (arg : String) : Bool :=
  match arg.toList with
  | '-' :: _ :: _ => true
  | _ => false

/-- Take arguments, the first of which is the value of `pending` if there is
one. -/
def takeAll (d : Draft) (pending : Option Setting) : List String → Except Refusal Draft
  | [] => if pending.isSome then .error .usage else .ok d
  | arg :: args =>
    match pending with
    | some s =>
      if isOption arg then .error .usage
      else do (← d.set s arg).takeAll none args
    | none =>
      if arg = "--" then args.foldlM setInput d
      else if isOption arg then do
        let (d, pending) ← d.takeOption arg
        d.takeAll pending args
      else do (← d.setInput arg).takeAll none args

/-- The options that arguments amount to. There has to be an input. -/
def finish (d : Draft) : Except Refusal Options :=
  match d.input with
  | none => .error .usage
  | some input =>
    .ok ⟨input, d.output, .debug ∈ d.switches, .dumpTokens ∈ d.switches, .dumpAst ∈ d.switches,
      .check ∈ d.switches, .diagJson ∈ d.switches, d.indent.getD defaultWidth⟩

end Draft

/-- The options that the arguments of the command line stand for. -/
def Options.ofArgs (args : List String) : Except Refusal Options := do
  (← Draft.empty.takeAll none args).finish

end Offside.Cli
