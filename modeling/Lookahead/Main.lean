import Lookahead.Command.Run

/-!
The program. It reads the files that the arguments name, runs the command on them, prints what
that says and ends as it says.
-/

/-- The files that the arguments name, as far as they can be read. -/
def Lookahead.Command.filesFor (arguments : List String) : IO Lookahead.Folder := do
  match Lookahead.Command.readOptions arguments with
  | .ok (.options o) =>
    (o.grammar.toList ++ o.input.toList).filterMapM fun (path : String) => do
      try
        let bytes ← IO.FS.readBinFile path
        return some (path, bytes)
      catch _ => return none
  | _ => return []

def main (arguments : List String) : IO UInt32 := do
  let outcome := Lookahead.Command.run (← Lookahead.Command.filesFor arguments) arguments
  IO.print (Lookahead.Command.printed outcome.output)
  IO.eprint (Lookahead.Command.printed outcome.errors)
  match outcome.ending with
  | .exit status => return status.toUInt32
  | .abort reason =>
    IO.eprintln reason.message
    return 1
