import Broadway.CommandLine

/-!
# The program

Runs the command line on the files of the system and prints what comes of it. The exit code is zero exactly
when there is a report.
-/

namespace Broadway.CommandLine

/-- The user's settings. A file that is no text is no document either. -/
def loadSettings : IO (Except ConfigError Config) := do
  match Config.userPath? (← IO.getEnv "XDG_CONFIG_HOME") (← IO.getEnv "HOME") with
  | none => return .ok {}
  | some path =>
    try return Config.ofUser? (some (← IO.FS.readFile path.text))
    catch
    | .noFileOrDirectory .. => return .ok {}
    | _ => return .error .malformed

/-- The files of the system that the program runs on. -/
def systemFiles : FileAccess IO where
  read p := do
    try return some (← IO.FS.readBinFile p.text)
    catch _ => return none
  create p := do
    try IO.FS.writeFile p.text ""
    catch _ => return ()

end Broadway.CommandLine

open Broadway CommandLine in
def main (arguments : List String) : IO UInt32 := do
  match ← run systemFiles (← loadSettings) arguments with
  | .ok report =>
    IO.println report.text
    return 0
  | .error problem =>
    IO.eprintln s!"Error: {problem.message}"
    return 1
