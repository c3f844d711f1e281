import Reckoner.Console.Report

/-!
# The command line

Reads the file that the arguments name, seeds the random numbers, and prints the
report.
-/

namespace Reckoner.Console

/-- The greatest of the whole numbers that random numbers are made from. -/
def drawLimit : Nat := 0xFFFFFFFF

/-- The number of levels of a tree that the command goes down. -/
def levelLimit : Nat := 330

/-- The numbers in [0, 1) that a generator yields one after the other. -/
def drawsOf (generator : StdGen) : Draws
  | 0 => Float.ofNat (randNat generator 0 drawLimit).1 / Float.ofNat (drawLimit + 1)
  | n + 1 => drawsOf (randNat generator 0 drawLimit).2 n

/-- The text of a file, if it exists. -/
def readFile? (name : String) : IO (Option String) := do
  try return some (← IO.FS.readFile name)
  catch _ => return none

end Reckoner.Console

open Reckoner

def main (arguments : List String) : IO UInt32 := do
  let text ← match Console.Request.ofArguments arguments with
    | .ok r => Console.readFile? (r.file.getD "")
    | .error _ => pure none
  let draws := Console.drawsOf (mkStdGen (← IO.rand 0 Console.drawLimit))
  let outcome := Console.outcome {} Console.levelLimit draws (fun _ => text) arguments
  IO.print outcome.output
  return outcome.status.toUInt32
