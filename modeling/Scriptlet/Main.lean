import Scriptlet.CommandLine

/-! # The program

Reads the file that the arguments name, if they name one, and carries out their request.
-/

namespace Scriptlet.CommandLine

/-- The file that a request needs. -/
def Request.file? : Request → Option String
  | process { input := .file path, .. } => some path
  | _ => none

/-- The text of a file. -/
def readText (path : String) : IO (Except ReadError String) := do
  try
    let bytes ← IO.FS.readBinFile path
    match String.fromUTF8? bytes with
    | some text => return .ok text
    | none => return .error .notText
  catch
    | .noFileOrDirectory .. => return .error .notFound
    | e => return .error (.other (toString e))

/-- Loops may run for so many rounds that none of them reaches the bound in practice. -/
def loopBound : Nat := Nat.pow 2 62

/-- Writes what an outcome says, and gives its exit status. -/
def Outcome.deliver (o : Outcome) : IO UInt32 := do
  let stdout ← IO.getStdout
  let stderr ← IO.getStderr
  stdout.write o.stdout
  stdout.flush
  stderr.putStr o.stderr
  return UInt32.ofNat o.exit

end Scriptlet.CommandLine

def main (args : List String) : IO UInt32 := do
  let contents ← match (Scriptlet.CommandLine.parse args).toOption.bind (·.file?) with
    | some path => Scriptlet.CommandLine.readText path
    | none => pure (.ok "")
  match Scriptlet.CommandLine.outcome Scriptlet.CommandLine.loopBound (fun _ => contents) args with
  | some o => o.deliver
  | none => return 70
