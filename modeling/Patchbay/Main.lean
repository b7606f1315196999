import Patchbay.CommandLine

/-! The program on the real file system and environment. -/

open Patchbay

/-- The variables the program looks at. -/
def readVariables : IO (List (String × String)) := do
  let keys := ["HOME", Environment.warningsKey, Environment.timeoutKey, Environment.originKey]
  let found ← keys.mapM fun key => do return (← IO.getEnv key).map (key, ·)
  return found.filterMap id

def readContent (path : String) : IO FileContent := do
  try
    let bytes ← IO.FS.readBinFile path
    match String.fromUTF8? bytes with
    | some text => return .text text
    | none => return .unreadable
  catch
    | .noFileOrDirectory .. => return .missing
    | _ => return .unreadable

def main (args : List String) : IO UInt32 := do
  let found ← readVariables
  let env : Environment := fun key => Fields.get? key found
  let home := env "HOME"
  let path := match CommandLine.readArgs args with
    | .ok r => CommandLine.settingsPath r home
    | .error _ => ""
  let content ← if path.isEmpty then pure .missing else readContent path
  let result := CommandLine.run args home (fun _ => content) env
  IO.print result.output
  match result.error with
  | some text => IO.eprintln ("Error: " ++ text)
  | none => pure ()
  return UInt32.ofNat result.exit
