import Loot.Command.Line
/-!
# The program

Runs the command line in the world: reads the file and the input that it needs, and performs its
effects in order.
-/
namespace Loot

def Effect.perform : Effect → IO Unit
  | .out text => do
    let out ← IO.getStdout
    out.putStr (String.ofList text)
    out.flush
  | .err text => do
    let err ← IO.getStderr
    err.putStr (String.ofList text)
    err.flush
  | .pause seconds => IO.sleep (seconds * 1000).toUInt32

partial def readRest (stream : IO.FS.Stream) (done : String) : IO String := do
  let line ← stream.getLine
  if line.isEmpty then pure done else readRest stream (done ++ line)

def fileBytes? (path : Text) : IO (Option (List Nat)) := do
  try
    let bytes ← IO.FS.readBinFile (String.ofList path)
    pure (some (bytes.toList.map UInt8.toNat))
  catch _ => pure none

def Outcome.processCode (o : Outcome) : UInt32 :=
  match o.stop with
  | none => 0
  | some (.exit code) => UInt32.ofNat (code % 256).toNat
  | some _ => 1

end Loot

open Loot in
/-- Runs a command line. The input is read to its end before a file that may ask for it, or a shell,
starts. -/
def main (args : List String) : IO UInt32 := do
  let args := args.map String.toList
  let asked : Option Options := match Options.read args with
    | .run options => some options
    | _ => none
  let contents ← match asked with
    | some { file := some path, .. } => fileBytes? path
    | _ => pure none
  let needsInput := match asked with
    | none => false
    | some { file := none, .. } => true
    | some _ => contents.any Command.mayAsk
  let input ← if needsInput then some <$> readRest (← IO.getStdin) "" else pure none
  let outcome := Command.run (fun _ => contents) args (input.map String.toList)
  outcome.effects.forM Effect.perform
  pure outcome.processCode
