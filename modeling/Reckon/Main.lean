import Reckon.CommandLine

/-!
# The program

Arguments, environment and input are fetched, and what is answered is written.
-/

namespace Reckon.Program

open CommandLine

/-- Reads all that is left of a stream. -/
partial def readToEnd (stream : IO.FS.Stream) (read : ByteArray) : IO ByteArray := do
  let bytes ← stream.read 65536
  if bytes.isEmpty then pure read else readToEnd stream (read ++ bytes)

/-- Writes a response and gives its exit code. -/
def write (response : Response) : IO UInt32 := do
  let output ← IO.getStdout
  output.putStr response.output
  output.flush
  let errors ← IO.getStderr
  errors.putStr response.errors
  errors.flush
  pure response.code.toUInt32

/-- The exit code of the program. -/
def run (args : List String) : IO UInt32 := do
  match Plan.ofArguments args (← IO.getEnv "MINICALC_PRECISION") with
  | .respond response => write response
  | .answerInput options limits =>
    let input ← readToEnd (← IO.getStdin) ByteArray.empty
    write (answerInput options limits input.toList).toResponse

end Reckon.Program

def main (args : List String) : IO UInt32 := Reckon.Program.run args
