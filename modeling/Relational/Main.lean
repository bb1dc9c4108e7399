import Relational.Command

/-! Reads the files that a command names, and prints its outcome. -/

open Relational

/-- The text of a file, if it can be read. -/
def readText? (path : String) : IO (Option String) := do
  try return some (← IO.FS.readFile path)
  catch _ => return none

/-- The configuration of the user, if there is one. -/
def userConfig? : IO (Option String) := do
  let home := (← IO.getEnv "HOME").map (· ++ "/.config")
  match (← IO.getEnv "XDG_CONFIG_HOME").or home with
  | none => return none
  | some directory =>
    let path := directory ++ "/relq/relq.toml"
    return (← readText? path).map fun _ => path

def main (arguments : List String) : IO UInt32 := do
  let outcome ←
    match Invocation.parse? arguments with
    | none => pure Outcome.misused
    | some i => do
      let config ← if i.config.isSome then pure i.config else userConfig?
      let url := i.databaseUrl.or (← IO.getEnv "RELQ_DATABASE_URL")
      let i := { i with config := config, databaseUrl := url }
      let mut files := []
      for path in i.files do
        if let some text ← readText? path then files := (path, text) :: files
      let input ← if i.readsInput then (← IO.getStdin).readToEnd else pure ""
      pure (i.outcome ⟨files, input⟩)
  IO.print outcome.output
  IO.eprint outcome.errors
  return outcome.exit.toUInt32
