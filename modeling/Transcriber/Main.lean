import Transcriber.Command.Run

/-!
# The command line

Reads the arguments, writes what they lead to, and gives the exit code.
-/

open Transcriber Transcriber.Command

def main (args : List String) : IO UInt32 := do
  match Options.read args with
  | .error exit =>
      (← IO.getStdout).putStr exit.output
      (← IO.getStderr).putStr exit.complaint
      return exit.code.toUInt32
  | .ok options =>
      let run := options.run
      let stderr ← IO.getStderr
      (run.report.atLeast .debug).forM fun notice =>
        stderr.putStrLn ("# " ++ notice.level.name ++ " runTransform: " ++ notice.message)
      match run.result with
      | .ok code => return code.toUInt32
      | .error _ =>
          stderr.putStrLn "NameError: name 'file' is not defined"
          return 1
