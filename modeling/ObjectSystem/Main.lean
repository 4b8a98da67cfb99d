/-
# The program

Runs the demonstration with the options of the command line.
-/

import ObjectSystem.CommandLine

def main (args : List String) : IO UInt32 := do
  let report := ObjectSystem.CommandLine.run args
  IO.print report.output
  report.errors.forM IO.eprintln
  return report.status
