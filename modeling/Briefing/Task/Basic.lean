import Briefing.Task.Command

/-!
# Task texts

A task text is a sequence of blocks: free text and commands. Written out, text stands as it is and
every command that is not the last block ends with a line break.
-/

namespace Briefing

namespace Task

/-- A part of a task text: free text, in the fragments it was read in, or a command. -/
inductive Block
  | text (fragments : List String)
  | command (command : Command)
  deriving DecidableEq, Repr

/-- The text of a block of text. -/
def Block.content : List String → String := String.join

/-- The blocks of a task text, in order. -/
structure Script where
  blocks : List Block
  deriving DecidableEq, Repr

namespace Script

/-- The commands of a task text, in order. -/
def commands (script : Script) : List Command :=
  script.blocks.filterMap fun
    | .command c => some c
    | .text _ => none

/-- The text of blocks: text as it is, commands in canonical form. -/
def renderBlocks : List Block → String
  | [] => ""
  | .text fragments :: blocks => Block.content fragments ++ renderBlocks blocks
  | .command c :: [] => c.render
  | .command c :: blocks => c.render ++ "\n" ++ renderBlocks blocks

/-- The text of a task text read before. -/
def render (script : Script) : String := renderBlocks script.blocks

end Script

end Task

end Briefing
