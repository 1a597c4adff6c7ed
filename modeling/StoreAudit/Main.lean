import StoreAudit.Command.Run

/-!
# The program

The command line: arguments and environment in, texts and exit status out. No git is reachable from
here, so a check finds no repository; programs with answers of git at hand run
`Repository.runProgram` on them, or `Surroundings.run` if they know the configuration as well.
-/

open StoreAudit

/-- Runs the program. -/
def main (arguments : List String) : IO UInt32 := do
  let repository : Repository := { directory := ascii ".", transcript := {} }
  let tracing := (← IO.getEnv "LFS_TRACE").isSome
  let noReader : SettingsReader := fun _ _ => .error (ascii "no reader")
  let words := arguments.map fun text => text.toUTF8.toList
  let (result, session) := repository.runProgram noReader tracing words {}
  (← IO.getStdout).write ⟨result.output.toArray⟩
  (← IO.getStderr).write ⟨session.errors.toArray⟩
  pure result.status.toUInt32
