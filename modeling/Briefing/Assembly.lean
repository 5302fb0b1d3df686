import Briefing.Expansion.Basic
import Briefing.Options

/-!
# Assembly

A prompt is put together from rules, a list of skills and a task. The task comes first: it and its
commands may add selectors, which then decide on the rules and skills. Before a rule is included
its bootstrap runs.
-/

namespace Briefing

/-- The parts of a prompt. -/
structure Assembly where
  agent : Option Agent
  rules : List CountedDocument
  skills : List Skill
  task : CountedDocument

namespace Assembly

/-- The text of the prompt: rules, the list of skills and the task. -/
def prompt (a : Assembly) : String :=
  let block := Skill.renderAll a.skills
  String.join (a.rules.map (·.content ++ "\n")) ++
    (if block.isEmpty then "" else block ++ "\n") ++ a.task.content

/-- The estimated number of tokens of the parts. -/
def tokens (a : Assembly) : Nat :=
  a.rules.foldr (fun d n => d.tokens + n) 0 + estimateTokens (Skill.renderAll a.skills) +
    a.task.tokens

def toJson (a : Assembly) : Json :=
  .object [("agent", Json.ofOption (a.agent.map Agent.name)),
    ("rules", .array (a.rules.map CountedDocument.toJson)),
    ("skills", .array (a.skills.map Skill.toJson)), ("task", a.task.toJson),
    ("tokens", .int a.tokens), ("prompt", .string a.prompt)]

/-! ## The task -/

/-- What the task and its commands decide for the rest. -/
structure Setting where
  selectors : Selectors
  agent : Option Agent

variable (host : Host) (options : Options) (bases : List Base)

/-- The selectors with those of a document. -/
def mergeSelectors (selectors : Selectors) (fm : FrontMatter) : Selectors :=
  match FrontMatter.selectors fm with
  | some entries => selectors.merge entries
  | none => selectors

/-- The selectors in force when a task is looked up. -/
def taskSelectors (name : String) : Selectors :=
  let selectors := options.selectors.accept "task_name" name
  if options.resume then selectors.accept "resume" "true" else selectors

/-- The agent that a task is for: the one it names, else the one that was asked for. -/
def taskAgent (fm : FrontMatter) : Except Error (Option Agent) :=
  match FrontMatter.agent fm with
  | none => .ok options.agent
  | some name =>
    match Agent.ofName? name with
    | some agent => .ok agent
    | none => .error (.unknownAgent name)

/-- A task's text with the user's prompt behind a line of its own. -/
def withPrompt (body : String) : Option String → String
  | none => body
  | some prompt =>
    if prompt.isEmpty then body
    else
      let ending := if body.isEmpty || body.toList.getLast? = some '\n' then "" else "\n"
      body ++ ending ++ "---\n" ++ prompt

/-- The content with its placeholders expanded, if the document wants that. -/
def expandIf (fm : FrontMatter) (params : Params) (content : String) : Activity String :=
  if FrontMatter.expands fm then Expansion.expand host params options.directory content
  else return content

/-- The document of a command. -/
def commandDocument (selectors : Selectors) (name : String) : Activity (Option Document) :=
  Activity.onDisk fun d => Search.named d options.table bases selectors .command name

/-- What a block of a task becomes, and the selectors then in force. A command is the content of
its file; a command within a line that has no file is text. -/
def resolveBlock (fm : FrontMatter) (selectors : Selectors) :
    Task.Block → Activity (String × Selectors)
  | .text fragments => do
    return (← expandIf host options fm options.params (Task.Block.content fragments), selectors)
  | .command c => do
    match ← commandDocument options bases selectors c.name with
    | some document =>
      let params := Params.overlay options.params c.params
      return (← expandIf host options document.frontMatter params document.content,
        mergeSelectors selectors document.frontMatter)
    | none =>
      match c.source with
      | some source => return (← expandIf host options fm options.params source, selectors)
      | none => Activity.fail (.commandNotFound c.name)

/-- What the blocks of a task become, and the selectors then in force. -/
def resolveBlocks (fm : FrontMatter) (selectors : Selectors) :
    List Task.Block → Activity (String × Selectors)
  | [] => return ("", selectors)
  | block :: blocks => do
    let (text, selectors) ← resolveBlock host options bases fm selectors block
    let (texts, selectors) ← resolveBlocks fm selectors blocks
    return (text ++ texts, selectors)

/-- The document of a task. -/
def taskDocument (name : String) : Activity Document :=
  Activity.onDisk fun d => do
    match ← Search.named d options.table bases (taskSelectors options name) .task name with
    | some document => return document
    | none => throw (.taskNotFound name)

/-- The blocks of a task's document, the user's prompt included. -/
def taskBlocks (document : Document) : Except Error (List Task.Block) :=
  match Task.parse (withPrompt document.content options.prompt) with
  | .ok script => .ok script.blocks
  | .error error => .error (.badTask document.path error)

/-- The task with its commands resolved, and what it decides for the rest. -/
def resolveTask (name : String) : Activity (CountedDocument × Setting) := do
  let document ← taskDocument options bases name
  let selectors := mergeSelectors (taskSelectors options name) document.frontMatter
  let agent ← Activity.ofExcept (taskAgent options document.frontMatter)
  let blocks ← Activity.ofExcept (taskBlocks options document)
  let (content, selectors) ←
    resolveBlocks host options bases document.frontMatter selectors blocks
  return (document.counted.setContent content, ⟨selectors, agent⟩)

/-! ## Rules -/

/-- The permission bits of a script that is to be run. -/
def scriptMode : Nat := 0o755

/-- The script beside a rule, named for it. -/
def scriptPath (rule : Path) : Path := rule.withFileName (rule.stem ++ "-bootstrap")

/-- Runs a bootstrap; `path` is what a failure is blamed on. -/
def runBootstrap (path : Path) (c : Call) : Activity Unit := do
  let outcome ← host.call c
  if outcome.success then return ()
  else Activity.fail (.bootstrapFailed path outcome.output)

/-- Runs the bootstrap of a rule: its own text, else the script beside it, if there is one. -/
def bootstrap (rule : Document) : Activity Unit :=
  match FrontMatter.bootstrap rule.frontMatter with
  | some text => runBootstrap host rule.path (.inline text options.directory)
  | none => do
    let script := scriptPath rule.path
    if ← Activity.onDisk fun d => .ok (d.isFile script) then
      Activity.change fun d =>
        match d.setMode script scriptMode with
        | .ok d => .ok d
        | .error fault => .error (.file fault)
      runBootstrap host script (.script script options.directory)

/-- Whether the agent reads a file by itself. -/
def readsItself (agent : Option Agent) (relative : Path) : Bool :=
  agent.any (options.table.isNative · relative)

/-- The rule with its placeholders expanded, if it wants that. -/
def expandRule (rule : CountedDocument) : Activity CountedDocument := do
  if FrontMatter.expands rule.frontMatter then
    return rule.setContent (← Expansion.expand host options.params options.directory rule.content)
  else return rule

/-- A rule that is counted when it is read has the same count as if it were counted at the end. -/
theorem expandRule_counted (rule : Document) : expandRule host options rule.counted = do
    let content ← expandIf host options rule.frontMatter options.params rule.content
    return { rule with content } := by
  unfold expandRule expandIf
  rw [Document.counted_toDocument]
  split <;> rfl

/-- The rule of a candidate, unless the agent reads it by itself or the selectors exclude it. -/
def resolveRule (setting : Setting) (c : Candidate) : Activity (Option CountedDocument) := do
  if readsItself options setting.agent c.relative then return none
  else
    let document ← Activity.onDisk (·.load c.path)
    if !setting.selectors.matchesFrontMatter document.frontMatter then return none
    else
      bootstrap host options document
      return some (← expandRule host options document.counted)

/-- The rules, in the order of the search. -/
def resolveRules (setting : Setting) : Activity (List CountedDocument) := do
  let candidates ← Activity.onDisk fun d => Search.candidates d options.table bases .rules
  let rules ← candidates.mapM (resolveRule host options setting)
  return rules.filterMap id

/-- The skills, in the order of the search. -/
def resolveSkills (setting : Setting) : Activity (List Skill) :=
  Activity.onDisk fun d => Search.skills d options.table bases setting.selectors

/-! ## The whole -/

/-- Whether an earlier session goes on. -/
def resumes (setting : Setting) : Bool :=
  options.resume || setting.selectors.accepts "resume" "true"

/-- The parts of the prompt for a task that is searched below bases. -/
def assembleIn (name : String) : Activity Assembly := do
  let (task, setting) ← resolveTask host options bases name
  if resumes options setting then return ⟨setting.agent, [], [], task⟩
  else
    let rules ← resolveRules host options bases setting
    let skills ← resolveSkills options bases setting
    return ⟨setting.agent, rules, skills, task⟩

/-- The parts of the prompt for a task. -/
def assemble (name : String) : Activity Assembly :=
  options.useBases host fun bases => assembleIn host options bases name

end Assembly

end Briefing
