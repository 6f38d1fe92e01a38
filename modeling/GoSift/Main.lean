import GoSift.Command.Run

/-! The program. Files are read before the request is done, which itself is pure. -/
namespace GoSift.Command

/-- What is found under a path. -/
def readContent (path : String) : IO Content := do
  try
    return .text (← IO.FS.readFile path)
  catch
    | .noFileOrDirectory .. => return .missing
    | e => return .unreadable (toString e)

end GoSift.Command

open GoSift.Command in
def main (args : List String) : IO UInt32 := do
  match Request.parse args with
  | .error e =>
    let out ← if e.exitCode = 0 then IO.getStdout else IO.getStderr
    out.putStrLn e.message
    return UInt32.ofNat e.exitCode
  | .ok request =>
    let files ← request.task.paths.mapM fun path => return (path, ← readContent path)
    let result := request.run fun path => (files.lookup path).getD .missing
    IO.print result.output
    match result.failure with
    | none => return 0
    | some e =>
      for m in e.messages do
        IO.eprintln m
      return 1
