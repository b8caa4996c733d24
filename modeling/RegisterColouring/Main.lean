/-
**The executable.**

Reads the environment and the one file a command line asks for, and passes on the report.
-/

import RegisterColouring.CommandLine.Execution

set_option autoImplicit false

namespace RegisterColouring

/-- Why reading a file failed. -/
def ReadFault.ofError : IO.Error → ReadFault
  | .noFileOrDirectory _ _ _ => .missing
  | .inappropriateType _ _ _ => .directory
  | e => .other (toString e)

/-- The bytes of a file. -/
def readBytes (path : String) : IO (Except ReadFault (List UInt8)) := do
  try
    let bytes ← IO.FS.readBinFile path
    return .ok bytes.data.toList
  catch e => return .error (ReadFault.ofError e)

/-- The environment variables that commands look at. -/
def readEnvironment : IO Environment := do
  let names := ["L2C_VERBOSE", "L2C_MAX_ROUNDS", "L2C_SPILL_PREFIX"]
  let entries ← names.filterMapM fun name => do
    return (← IO.getEnv name).map fun value => (name, value)
  return ⟨entries⟩

end RegisterColouring

open RegisterColouring in
/-- Runs a command line. -/
def main (arguments : List String) : IO UInt32 := do
  let request := CommandLine.request (← readEnvironment) arguments
  let contents ← match request with
    | .file path _ _ => readBytes path
    | .answer _ => pure (.error .missing)
  let report := request.report fun _ => contents
  (← IO.getStderr).putStr report.log
  (← IO.getStdout).write ⟨report.output.toArray⟩
  return report.code.number.toUInt32
