import MessageArgs.Command.Run

/-!
# The command line

Reads the file with the settings, if one is named, and prints what the command gives. A failure is
printed with its cause and ends the program with code 1, a command line that is none with code 2.
-/

open MessageArgs.Command

/-- What a command line looks like. -/
def usage : String :=
  "\n".intercalate
    ["usage: sigtool [-c FILE] [-l LEVEL] COMMAND", "  split SIGNATURE",
      "  encode SIGNATURE VALUE [--json]", "  decode SIGNATURE ARGUMENT"]

/-- The contents of a file of text, if it can be read. -/
def contentsOf (path : String) : IO (Option String) := do
  try
    return some (← IO.FS.readFile path)
  catch _ =>
    return none

/-- Prints a failure and its cause. -/
def report (failure : Failure) : IO Unit := do
  IO.eprintln ("Error: " ++ failure.message)
  match failure.cause? with
  | none => return
  | some cause => IO.eprintln ("\nCaused by:\n    " ++ cause)

/-- The program. -/
def main (words : List String) : IO UInt32 := do
  let config ← IO.getEnv OptionName.config.variableName
  match Invocation.read? words fun name =>
      if name = OptionName.config.variableName then config else none with
  | none =>
    IO.eprintln usage
    return 2
  | some invocation =>
    let contents ← match invocation.config with
      | none => pure none
      | some path => contentsOf path
    match invocation.run contents with
    | .ok text =>
      IO.print text
      return 0
    | .error failure =>
      report failure
      return 1
