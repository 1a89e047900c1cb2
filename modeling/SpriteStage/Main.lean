import SpriteStage.CommandLine.Arguments
set_option autoImplicit false

/-! # The program

Reads the files that the arguments name, hands everything to the commands, and writes what they
answer. `program-check`, `help` and no argument at all are the tool for checking many programs; all
else is the host. The files of a directory to check are named after the directory. -/

namespace SpriteStage

/-- The text of a file, if it can be read. -/
def readFile? (path : String) : IO (Option String) := do
  try
    return some (← IO.FS.readFile path)
  catch _ =>
    return none

/-- The files among the words. -/
def readTree (words : List String) : IO FileTree := do
  let files ← words.filterMapM fun word => do
    return (← readFile? word).map (word, ·)
  return ⟨files⟩

/-- A random number of 64 bits. -/
def drawEntropy : IO Nat := do
  let bytes ← IO.getRandomBytes 8
  return bytes.toList.foldl (fun value byte => 256 * value + byte.toNat) 0

/-- Write an outcome and return its code. -/
def writeOutput (output : Output) : IO UInt32 := do
  (← IO.getStdout).putStr output.stdout
  (← IO.getStderr).putStr output.stderr
  return output.code.toUInt32

/-- Whether the words are for the tool that checks many programs. -/
def isForProgramCheck : List String → Bool
  | [] | "help" :: _ | "-h" :: _ | "--help" :: _ | "program-check" :: _ => true
  | _ => false

end SpriteStage

/-- Carry out the program with its arguments. -/
def main (words : List String) : IO UInt32 := do
  let tree ← SpriteStage.readTree ("stage.json" :: words)
  if SpriteStage.isForProgramCheck words then
    SpriteStage.writeOutput (SpriteStage.ProgramCheck.execute tree words)
  else
    match SpriteStage.executeHost tree (← SpriteStage.drawEntropy) words with
    | some output => SpriteStage.writeOutput output
    | none => SpriteStage.writeOutput (.failure ["演示不会结束"])
