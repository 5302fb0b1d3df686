import Briefing.Files.Path
import Briefing.Text.Search
import Briefing.Text.White

/-!
# Agents

Each agent has places of its own for rules, commands and skills below a directory, and knows its
own files by fragments of their paths. The places of all agents are searched, those of no agent in
particular first.
-/

namespace Briefing

/-- The agents a prompt can be for. -/
inductive Agent
  | cursor
  | opencode
  | copilot
  | claude
  | gemini
  | augment
  | windsurf
  | codex
  deriving DecidableEq, Repr

namespace Agent

/-- All agents, in the order in which their places are searched. -/
def all : List Agent :=
  [cursor, opencode, copilot, claude, gemini, augment, windsurf, codex]

/-- The name of an agent. -/
def name : Agent → String
  | cursor => "cursor"
  | opencode => "opencode"
  | copilot => "copilot"
  | claude => "claude"
  | gemini => "gemini"
  | augment => "augment"
  | windsurf => "windsurf"
  | codex => "codex"

/-- The agent that a text names, in either case and with blanks around it. -/
def ofName? (text : String) : Option Agent :=
  let wanted := String.ofList ((Text.trimChars text.toList).map Char.toLower)
  all.find? (·.name = wanted)

/-- The names to choose from. -/
def choices : String := ", ".intercalate (all.map name)

end Agent

/-- The places of one agent, as paths below a directory that is searched. -/
structure AgentPlaces where
  rules : List Path
  commands : List Path
  tasks : List Path
  skills : List Path
  /-- Fragments of paths by which the agent knows its own files. -/
  markers : List String
  deriving Inhabited

/-- What a search looks for. -/
inductive Kind
  | rules
  | commands
  | tasks
  | skills
  deriving DecidableEq, Repr

/-- The places for files of a kind. -/
def AgentPlaces.ofKind (places : AgentPlaces) : Kind → List Path
  | .rules => places.rules
  | .commands => places.commands
  | .tasks => places.tasks
  | .skills => places.skills

/-- Where files are searched. -/
structure AgentTable where
  /-- The places of no agent in particular. -/
  shared : AgentPlaces
  ofAgent : Agent → Option AgentPlaces
  /-- The places of rules below the user's own directory. -/
  userRules : List Path

namespace AgentTable

/-- The list without paths that are the same as an earlier one. -/
def distinct : List Path → List Path
  | [] => []
  | p :: ps => p :: (distinct ps).filter (!p.same ·)

/-- All places for files of a kind, without duplicates. -/
def places (table : AgentTable) (kind : Kind) : List Path :=
  distinct ((table.shared :: Agent.all.filterMap table.ofAgent).flatMap (·.ofKind kind))

/-- Whether a path below a searched directory is a file that the agent reads by itself. -/
def isNative (table : AgentTable) (agent : Agent) (relative : Path) : Bool :=
  match table.ofAgent agent with
  | none => false
  | some places =>
    let text := relative.text.toList.map fun c => if c = '\\' then '/' else c
    places.markers.any fun marker => Text.contains marker.toList text

/-- The places that agents are known to have. -/
def standard : AgentTable where
  shared := ⟨[".agents/rules"], [".agents/commands"], [".agents/tasks"], [".agents/skills"], []⟩
  ofAgent
    | .cursor => some ⟨[".cursor/rules", ".cursorrules"], [".cursor/commands"], [], [],
        [".cursor/", ".cursorrules"]⟩
    | .opencode => some ⟨[".opencode/agent", ".opencode/rules"], [".opencode/command"], [], [],
        [".opencode/"]⟩
    | .copilot => some ⟨[".github/copilot-instructions.md", ".github/agents"], [], [], [],
        [".github/copilot-instructions.md", ".github/agents/"]⟩
    | .claude => some ⟨["CLAUDE.md", "CLAUDE.local.md", ".claude/rules"], [".claude/commands"], [],
        [".claude/skills"], [".claude/", "CLAUDE.md", "CLAUDE.local.md"]⟩
    | .gemini => some ⟨[".gemini/styleguide.md", "GEMINI.md"], [], [], [],
        [".gemini/", "GEMINI.md"]⟩
    | .augment => some ⟨[".augment/rules", ".augment/guidelines.md"], [], [], [], [".augment/"]⟩
    | .windsurf => some ⟨[".windsurf/rules", ".windsurfrules"], [], [], [],
        [".windsurf/", ".windsurfrules"]⟩
    | .codex => some ⟨["AGENTS.md"], [], [], [], [".codex/", "AGENTS.md"]⟩
  userRules := [".agents/rules", ".claude/CLAUDE.md", ".codex/AGENTS.md", ".gemini/GEMINI.md",
    ".opencode/rules"]

end AgentTable

end Briefing
