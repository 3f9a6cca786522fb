import Offside.Cli.Run

/-!
# Offside.Main

The command line program: it reads what `Offside.Cli` asks for, and writes what
it decides.
-/

namespace Offside.Cli

/-- The fault that a failed operation on a file stands for. -/
def faultOf (e : IO.Error) : FileFault :=
  match e with
  | .noFileOrDirectory .. => .notFound
  | .inappropriateType _ code _ => if code = 20 then .notDirectory else .isDirectory
  | .invalidArgument _ 36 _ => .nameTooLong
  | e => .stated (toString e)

/-- Do something with a file, and return its fault if it fails. -/
def attempt {α : Type} (act : IO α) : IO (Except FileFault α) := do
  match ← act.toBaseIO with
  | .ok a => return .ok a
  | .error e => return .error (faultOf e)

/-- All bytes of the standard input. -/
def readStdin : IO ByteArray := do
  let stdin ← IO.getStdin
  stdin.readBinToEnd

/-- Read the source of a run. -/
def readSource (o : Options) : IO (Except FileFault String) := do
  let bytes ← attempt (if o.readsStdin then readStdin else IO.FS.readBinFile o.input)
  return bytes.bind FileTree.decode

/-- Show how a run ends, and return its exit code. -/
def finish (r : Report) : IO UInt32 := do
  IO.print r.stdout
  IO.eprint r.stderr
  return r.exit.toUInt32

end Offside.Cli

open Offside.Cli in
/-- The program. -/
def main (args : List String) : IO UInt32 := do
  match Options.ofArgs args with
  | .error refusal => finish refusal.report
  | .ok o =>
    match respond o (← readSource o) with
    | .done report => finish report
    | .write path code warnings =>
      let written ← attempt (IO.FS.writeFile path code)
      finish (writeReport path warnings written)
