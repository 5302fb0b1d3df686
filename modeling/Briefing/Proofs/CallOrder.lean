import Briefing.Proofs.InlineText
import Briefing.Proofs.Runs

/-!
# What a run executes, and in which order

What a run has executed is planned by the documents that it reads: for each block of the task, then
for each rule (`assembleSteps`). A run makes the steps of its plan one after the other, and all of
them if it answers; a bootstrap that fails is the last step that is made (`Follows`). A run that
fails because of its task makes none (`assemble_calls`).
-/

namespace Briefing

/-! ## Steps -/

/-- A program that a run has executed; a bootstrap that fails is blamed on a path. -/
structure Step where
  call : Call
  blame : Option Path

namespace Step

/-- The session in which a program is executed: a script is made executable before. -/
def prepare (s : Session) (step : Step) : Session :=
  match step.call with
  | .script path _ =>
    { s with disk := (s.disk.setMode path Assembly.scriptMode).toOption.getD s.disk }
  | _ => s

theorem prepare_calls (s : Session) (step : Step) : (step.prepare s).calls = s.calls := by
  unfold prepare
  split <;> rfl

theorem prepare_fetches (s : Session) (step : Step) : (step.prepare s).fetches = s.fetches := by
  unfold prepare
  split <;> rfl

variable (host : Host)

/-- The error with which a step ends the run, if it is a bootstrap that fails. -/
def failure? (s : Session) (step : Step) : Option Error :=
  step.blame.bind fun path =>
    let outcome := (host.run step.call (step.prepare s)).1
    if outcome.success then none else some (.bootstrapFailed path outcome.output)

/-- The session after a step. -/
def after (s : Session) (step : Step) : Session :=
  { s with
    disk := (host.run step.call (step.prepare s)).2
    calls := s.calls ++ [step.call] }

/-- The session after some steps. -/
def afterAll (s : Session) (steps : List Step) : Session := steps.foldl (after host) s

/-- No bootstrap among some steps fails. -/
def AllSucceed : Session → List Step → Prop
  | _, [] => True
  | s, step :: steps => step.failure? host s = none ∧ AllSucceed (step.after host s) steps

/-- How an activity ends that goes along some steps: it made all of them and answers, it made the
first ones and fails, or it made the first ones and fails because of the last of these. -/
inductive Follows {α : Type} (s : Session) (steps : List Step) (p : α → Prop) :
    Except Error α × Session → Prop
  | answers {x : α} (h : AllSucceed host s steps) (hx : p x) :
      Follows s steps p (.ok x, afterAll host s steps)
  | fails {made rest : List Step} {e : Error} (heq : steps = made ++ rest)
      (h : AllSucceed host s made) : Follows s steps p (.error e, afterAll host s made)
  | bootstrap {made rest : List Step} {step : Step} {e : Error}
      (heq : steps = made ++ step :: rest) (h : AllSucceed host s made)
      (he : step.failure? host (afterAll host s made) = some e) :
      Follows s steps p (.error e, afterAll host s (made ++ [step]))

section Follows

variable {host} {α β : Type} {s : Session} {steps steps' : List Step}

theorem afterAll_append : afterAll host s (steps ++ steps')
    = afterAll host (afterAll host s steps) steps' := List.foldl_append

theorem calls_afterAll : ∀ {steps : List Step} {s : Session},
    (afterAll host s steps).calls = s.calls ++ steps.map Step.call
  | [], s => (List.append_nil _).symm
  | step :: steps, s => by
    rw [afterAll, List.foldl_cons, ← afterAll, calls_afterAll]
    simp [after]

theorem allSucceed_append : ∀ {steps : List Step} {s : Session},
    AllSucceed host s (steps ++ steps')
      ↔ AllSucceed host s steps ∧ AllSucceed host (afterAll host s steps) steps'
  | [], s => by simp [AllSucceed, afterAll]
  | step :: steps, s => by
    rw [List.cons_append, AllSucceed, AllSucceed, allSucceed_append, and_assoc]
    rfl

theorem follows_pure {p : α → Prop} {x : α} (hx : p x) :
    Follows host s [] p ((pure x : Activity α).run s) := .answers trivial hx

theorem follows_fail {p : α → Prop} (e : Error) :
    Follows host s steps p ((Activity.fail e : Activity α).run s) :=
  @Follows.fails host α s steps p [] steps e rfl trivial

theorem follows_onDisk {f : Disk → Except Error α} :
    Follows host s [] (fun x => f s.disk = .ok x) ((Activity.onDisk f).run s) := by
  rw [Activity.run_onDisk]
  rcases h : f s.disk with e | x
  · exact follows_fail e
  · exact .answers trivial rfl

/-- An activity and what goes on from its answer follow their steps one after the other. -/
theorem Follows.bind {p : α → Prop} {q : β → Prop} {a : Activity α} {f : α → Activity β}
    (h : Follows host s steps p (a.run s))
    (hf : ∀ x, p x → Follows host (afterAll host s steps) steps' q
      ((f x).run (afterAll host s steps))) :
    Follows host s (steps ++ steps') q ((a >>= f).run s) := by
  rw [Activity.run_bind]
  generalize a.run s = ended at h
  -- an activity that fails has only made first steps of its own, so `f` adds none
  cases h with
  | fails heq h => exact .fails (by rw [heq, List.append_assoc]) h
  | bootstrap heq h he =>
    exact .bootstrap (by rw [heq, List.append_assoc, List.cons_append]) h he
  | @answers x h hx =>
    have hgoal := hf x hx
    dsimp only
    generalize (f x).run (afterAll host s steps) = ended at hgoal
    cases hgoal with
    | answers h' hy =>
      rw [← afterAll_append]
      exact .answers (allSucceed_append.mpr ⟨h, h'⟩) hy
    | fails heq h' =>
      rw [← afterAll_append]
      exact .fails (by rw [heq, List.append_assoc]) (allSucceed_append.mpr ⟨h, h'⟩)
    | bootstrap heq h' he =>
      rw [← afterAll_append, ← List.append_assoc]
      exact .bootstrap (by rw [heq, List.append_assoc]) (allSucceed_append.mpr ⟨h, h'⟩)
        (by rwa [afterAll_append])

theorem Follows.bind_pure {p : α → Prop} {q : β → Prop} {a : Activity α} {f : α → β}
    (h : Follows host s steps p (a.run s)) (hf : ∀ x, p x → q (f x)) :
    Follows host s steps q ((a >>= fun x => pure (f x)).run s) := by
  rw [← List.append_nil steps]
  exact h.bind fun x hx => follows_pure (hf x hx)

theorem Follows.answer {p : α → Prop} {x : α} {s' : Session}
    (h : Follows host s steps p (.ok x, s')) : s' = afterAll host s steps ∧ p x := by
  cases h with
  | answers _ hx => exact ⟨rfl, hx⟩

theorem AllSucceed.failure? {front back : List Step} {step : Step}
    (h : AllSucceed host s (front ++ step :: back)) :
    step.failure? host (afterAll host s front) = none := (allSucceed_append.mp h).2.1

/-- An activity that follows some steps made the first ones, and all if it answers. One that fails
is the last, and the activity fails with it. -/
theorem Follows.exists_made {p : α → Prop} {ended : Except Error α × Session}
    (h : Follows host s steps p ended) :
    ∃ made rest, steps = made ++ rest ∧ ended.2 = afterAll host s made
      ∧ (∀ x, ended.1 = .ok x → rest = [] ∧ p x)
      ∧ ∀ front step back e, made = front ++ step :: back →
        step.failure? host (afterAll host s front) = some e → back = [] ∧ ended.1 = .error e := by
  cases h with
  | answers h hx =>
    refine ⟨steps, [], (List.append_nil _).symm, rfl, ?_, ?_⟩
    · rintro x ⟨⟩
      exact ⟨rfl, hx⟩
    · rintro front step back e rfl he
      simp [h.failure?] at he
  | @fails made rest e heq h =>
    refine ⟨made, rest, heq, rfl, by rintro x ⟨⟩, ?_⟩
    rintro front step back e rfl he
    simp [h.failure?] at he
  | @bootstrap made rest last e heq h he =>
    refine ⟨made ++ [last], rest, by simpa using heq, rfl, by rintro x ⟨⟩, ?_⟩
    intro front step back e' hmade he'
    rcases List.eq_nil_or_concat back with rfl | ⟨back, x, rfl⟩
    · obtain ⟨rfl, hlast⟩ := List.append_inj' hmade rfl
      obtain rfl := (List.cons.inj hlast).1
      exact ⟨rfl, congrArg Except.error (Option.some.inj (he.symm.trans he'))⟩
    · rw [List.concat_eq_append, ← List.cons_append, ← List.append_assoc] at hmade
      obtain ⟨rfl, -⟩ := List.append_inj' hmade rfl
      simp [h.failure?] at he'

variable (host) in
/-- The steps for items one after the other, if `plan` tells those for one in a session. -/
def stepsOfAll (plan : Session → β → List Step) : Session → List β → List Step
  | _, [] => []
  | s, x :: xs => plan s x ++ stepsOfAll plan (afterAll host s (plan s x)) xs

variable (host) in
/-- Answers for items one after the other, each as `p` tells in the session of its turn. -/
inductive AnswersAll (plan : Session → β → List Step) (p : Session → β → α → Prop) :
    Session → List β → List α → Prop
  | nil (s : Session) : AnswersAll plan p s [] []
  | cons {s : Session} {x : β} {y : α} {xs : List β} {ys : List α} (h : p s x y)
      (hs : AnswersAll plan p (afterAll host s (plan s x)) xs ys) :
      AnswersAll plan p s (x :: xs) (y :: ys)

theorem follows_mapM {plan : Session → β → List Step} {p : Session → β → α → Prop}
    {f : β → Activity α} (h : ∀ x s, Follows host s (plan s x) (p s x) ((f x).run s)) :
    ∀ {xs : List β} {s : Session},
      Follows host s (stepsOfAll host plan s xs) (AnswersAll host plan p s xs) ((xs.mapM f).run s)
  | [], s => follows_pure (.nil s)
  | x :: xs, s => by
    rw [List.mapM_cons]
    exact (h x s).bind fun y hy => (follows_mapM h).bind_pure fun ys hys => .cons hy hys

end Follows

end Step

namespace Assembly

open Step (Follows AnswersAll afterAll stepsOfAll follows_pure follows_fail follows_onDisk
  follows_mapM)

/-! ## The plan of a run -/

section Plan

variable (host : Host) (options : Options) (bases : List Base) (name : String)

/-- The shell commands of a document's text, if its placeholders are expanded. -/
def contentSteps (fm : FrontMatter) (content : String) : List Step :=
  if FrontMatter.expands fm then
    (Expansion.requests options.directory (Expansion.segments none content.toList)).map (⟨·, none⟩)
  else []

/-- The steps for a block of a task, and the selectors then in force. A command has those of its
file; without a file, its text has those of the task. -/
def blockSteps (d : Disk) (fm : FrontMatter) (selectors : Selectors) :
    Task.Block → List Step × Selectors
  | .text fragments => (contentSteps options fm (Task.Block.content fragments), selectors)
  | .command c =>
    match Search.named d options.table bases selectors .command c.name, c.source with
    | .ok (some document), _ =>
      (contentSteps options document.frontMatter document.content,
        mergeSelectors selectors document.frontMatter)
    | .ok none, some source => (contentSteps options fm source, selectors)
    | _, _ => ([], selectors)

/-- The steps for the blocks of a task one after the other, and the selectors then in force. -/
def blocksSteps (fm : FrontMatter) : Session → Selectors → List Task.Block → List Step × Selectors
  | _, selectors, [] => ([], selectors)
  | s, selectors, block :: blocks =>
    let (steps, selectors) := blockSteps options bases s.disk fm selectors block
    let (steps', selectors) := blocksSteps fm (afterAll host s steps) selectors blocks
    (steps ++ steps', selectors)

/-- The step for the bootstrap of a rule: its own text, else the script beside it, if there is
one. -/
def bootstrapSteps (d : Disk) (rule : Document) : List Step :=
  match FrontMatter.bootstrap rule.frontMatter with
  | some text => [⟨.inline text options.directory, some rule.path⟩]
  | none =>
    let script := scriptPath rule.path
    if d.isFile script then [⟨.script script options.directory, some script⟩] else []

/-- The steps for a rule: its bootstrap and then its shell commands, but none if the agent reads it
by itself or it does not pass the selectors. -/
def ruleSteps (setting : Setting) (d : Disk) (c : Candidate) : List Step :=
  if readsItself options setting.agent c.relative then []
  else
    match d.load c.path with
    | .ok rule =>
      if setting.selectors.matchesFrontMatter rule.frontMatter then
        bootstrapSteps options d rule ++ contentSteps options rule.frontMatter rule.content
      else []
    | .error _ => []

/-- What becomes of a candidate for a rule: nothing if the agent reads it by itself or the selectors
exclude it, else its document with some content, which is counted. -/
inductive Resolves (setting : Setting) (d : Disk) (c : Candidate) : Option CountedDocument → Prop
  | native (h : readsItself options setting.agent c.relative = true) : Resolves setting d c none
  | excluded {rule : Document} (hn : readsItself options setting.agent c.relative = false)
      (hload : d.load c.path = .ok rule)
      (h : setting.selectors.matchesFrontMatter rule.frontMatter = false) :
      Resolves setting d c none
  | included {rule : Document} (hn : readsItself options setting.agent c.relative = false)
      (hload : d.load c.path = .ok rule)
      (h : setting.selectors.matchesFrontMatter rule.frontMatter = true) (content : String) :
      Resolves setting d c (some { rule with content })

/-- The steps for the rules, in the order of the search. -/
def rulesSteps (setting : Setting) (s : Session) : List Step :=
  match Search.candidates s.disk options.table bases .rules with
  | .ok cs => stepsOfAll host (fun s => ruleSteps options setting s.disk) s cs
  | .error _ => []

/-- Rules are what becomes of the candidates, each in the session of its turn. -/
def AreRules (setting : Setting) (s : Session) (rules : List CountedDocument) : Prop :=
  ∃ cs answers, Search.candidates s.disk options.table bases .rules = .ok cs
    ∧ AnswersAll host (fun s => ruleSteps options setting s.disk)
      (fun s => Resolves options setting s.disk) s cs answers
    ∧ rules = answers.filterMap id

/-- The steps of a run from the blocks of its task on: those for the blocks and, unless an earlier
session goes on, those for the rules. -/
def assembleSteps (s : Session) (document : Document) (agent : Option Agent)
    (blocks : List Task.Block) : List Step :=
  let (steps, selectors) := blocksSteps host options bases document.frontMatter s
    (mergeSelectors (taskSelectors options name) document.frontMatter) blocks
  let setting : Setting := ⟨selectors, agent⟩
  if resumes options setting then steps
  else steps ++ rulesSteps host options bases setting (afterAll host s steps)

end Plan

section Follow

variable {host : Host} {options : Options} {bases : List Base} {s : Session}

theorem allSucceed_shell {calls : List Call} :
    ∀ {s : Session}, Step.AllSucceed host s (calls.map (⟨·, none⟩)) := by
  induction calls with
  | nil => exact trivial
  | cons c calls ih => exact ⟨rfl, ih⟩

theorem session_of_becomes {params : Params} {base : Path} {p : Expansion.Segment} {value : String}
    {s s' : Session} (h : Expansion.Becomes host params base p s value s') :
    s' = afterAll host s ((Expansion.requests base [p]).map (⟨·, none⟩)) := by
  cases h with
  | command h =>
    simp [Expansion.requests, Expansion.Segment.request?, afterAll, Step.after, Step.prepare, h]
  | _ => rfl

theorem session_of_becomeAll {params : Params} {base : Path} {ps : List Expansion.Segment}
    {s s' : Session} {values : List String}
    (h : Expansion.BecomeAll host params base ps s values s') :
    s' = afterAll host s ((Expansion.requests base ps).map (⟨·, none⟩)) := by
  induction h with
  | nil => rfl
  | @cons p ps _ _ s s₁ s₂ h _ ih =>
    rw [ih, session_of_becomes h, ← Step.afterAll_append, ← List.map_append,
      ← Expansion.requests_append]
    rfl

theorem follows_expandIf (fm : FrontMatter) (params : Params) (content : String) :
    Follows host s (contentSteps options fm content) (fun _ => True)
      ((expandIf host options fm params content).run s) := by
  unfold expandIf contentSteps
  split
  · obtain ⟨values, s', hrun, hbecome⟩ := Expansion.run_expandAfter host params options.directory ""
      none content.toList s
    rw [Expansion.expand, hrun, session_of_becomeAll hbecome]
    exact .answers allSucceed_shell trivial
  · exact follows_pure trivial

theorem follows_resolveBlock (fm : FrontMatter) (selectors : Selectors) (block : Task.Block) :
    Follows host s (blockSteps options bases s.disk fm selectors block).1
      (·.2 = (blockSteps options bases s.disk fm selectors block).2)
      ((resolveBlock host options bases fm selectors block).run s) := by
  cases block with
  | text fragments => exact (follows_expandIf fm options.params _).bind_pure fun _ _ => rfl
  | command c =>
    rw [resolveBlock, commandDocument, Activity.run_bind, Activity.run_onDisk, blockSteps]
    rcases Search.named s.disk options.table bases selectors .command c.name with e | _ | document
    · exact follows_fail e
    · rcases c.source with _ | source
      · exact follows_fail _
      · exact (follows_expandIf fm options.params _).bind_pure fun _ _ => rfl
    · exact (follows_expandIf document.frontMatter _ _).bind_pure fun _ _ => rfl

theorem follows_resolveBlocks (fm : FrontMatter) :
    ∀ {blocks : List Task.Block} {s : Session} {selectors : Selectors},
      Follows host s (blocksSteps host options bases fm s selectors blocks).1
        (·.2 = (blocksSteps host options bases fm s selectors blocks).2)
        ((resolveBlocks host options bases fm selectors blocks).run s)
  | [], s, selectors => follows_pure rfl
  | block :: blocks, s, selectors => by
    refine (follows_resolveBlock fm selectors block).bind ?_
    rintro ⟨text, selectors'⟩ (rfl : selectors' = _)
    exact (follows_resolveBlocks fm).bind_pure fun _ h => h

theorem setMode_of_isFile {d : Disk} {p : Path} (h : d.isFile p = true) (mode : Nat) :
    ∃ d', d.setMode p mode = .ok d' := by
  unfold Disk.isFile at h
  split at h
  · rename_i hfind
    exact ⟨_, by rw [Disk.setMode, hfind]; rfl⟩
  · cases h

theorem follows_runBootstrap (path : Path) (c : Call) :
    Follows host s [⟨c, some path⟩] (fun _ => True)
      ((runBootstrap host path c).run (Step.prepare s ⟨c, some path⟩)) := by
  have hrun : (host.call c).run (Step.prepare s ⟨c, some path⟩)
      = (.ok (host.run c (Step.prepare s ⟨c, some path⟩)).1,
        afterAll host s [⟨c, some path⟩]) := by
    simp [Activity.run, Host.call, afterAll, Step.after, Step.prepare_calls, Step.prepare_fetches]
  rw [runBootstrap, Activity.run_bind, hrun]
  dsimp only
  split
  · rename_i hsuccess
    exact .answers ⟨by simp [Step.failure?, hsuccess], trivial⟩ trivial
  · rename_i hfailure
    exact @Follows.bootstrap host _ s _ _ [] [] ⟨c, some path⟩ _ rfl trivial
      (by simp [Step.failure?, afterAll, hfailure])

theorem follows_bootstrap (rule : Document) :
    Follows host s (bootstrapSteps options s.disk rule) (fun _ => True)
      ((bootstrap host options rule).run s) := by
  unfold bootstrap bootstrapSteps
  rcases FrontMatter.bootstrap rule.frontMatter with _ | text
  · dsimp only
    rw [Activity.run_bind, Activity.run_onDisk]
    dsimp only
    split
    · rename_i hfile
      obtain ⟨d, hd⟩ := setMode_of_isFile hfile scriptMode
      have hfollows := @follows_runBootstrap host s (scriptPath rule.path)
        (.script (scriptPath rule.path) options.directory)
      simp only [Step.prepare, hd, Except.toOption, Option.getD_some] at hfollows
      rw [Activity.run_bind, Activity.run, Activity.change, hd]
      exact hfollows
    · exact follows_pure trivial
  · exact follows_runBootstrap rule.path _

theorem follows_expandRule (rule : Document) :
    Follows host s (contentSteps options rule.frontMatter rule.content)
      (fun expanded => ∃ content, expanded = { rule with content })
      ((expandRule host options rule.counted).run s) := by
  rw [expandRule_counted]
  exact (follows_expandIf rule.frontMatter _ _).bind_pure fun content _ => ⟨content, rfl⟩

theorem follows_resolveRule (setting : Setting) (c : Candidate) :
    Follows host s (ruleSteps options setting s.disk c) (Resolves options setting s.disk c)
      ((resolveRule host options setting c).run s) := by
  unfold resolveRule ruleSteps
  split
  · rename_i hnative
    exact follows_pure (.native hnative)
  · rename_i hnative
    rw [Bool.not_eq_true] at hnative
    rw [Activity.run_bind, Activity.run_onDisk]
    rcases hload : s.disk.load c.path with e | rule
    · exact follows_fail e
    · dsimp only
      cases hmatches : setting.selectors.matchesFrontMatter rule.frontMatter with
      | false => exact follows_pure (.excluded hnative hload hmatches)
      | true => exact (follows_bootstrap rule).bind fun _ _ =>
          (follows_expandRule rule).bind_pure fun _ ⟨content, h⟩ =>
            h ▸ .included hnative hload hmatches content

theorem follows_resolveRules (setting : Setting) :
    Follows host s (rulesSteps host options bases setting s)
      (AreRules host options bases setting s)
      ((resolveRules host options bases setting).run s) := by
  unfold resolveRules rulesSteps
  rw [Activity.run_bind, Activity.run_onDisk]
  rcases hcs : Search.candidates s.disk options.table bases .rules with e | cs
  · exact follows_fail e
  · exact (follows_mapM fun c _ => follows_resolveRule setting c).bind_pure fun answers h =>
      ⟨cs, answers, hcs, h, rfl⟩

theorem follows_assembleFrom (name : String) (document : Document) (agent : Option Agent)
    (blocks : List Task.Block) :
    Follows host s (assembleSteps host options bases name s document agent blocks)
      (fun a => a.agent = agent ∧
        let (steps, selectors) := blocksSteps host options bases document.frontMatter s
          (mergeSelectors (taskSelectors options name) document.frontMatter) blocks
        resumes options ⟨selectors, agent⟩ = false →
          AreRules host options bases ⟨selectors, agent⟩ (afterAll host s steps) a.rules)
      ((assembleFrom host options bases name document agent blocks).run s) := by
  have hblocks := @follows_resolveBlocks host options bases document.frontMatter blocks s
    (mergeSelectors (taskSelectors options name) document.frontMatter)
  unfold assembleFrom assembleSteps
  generalize blocksSteps host options bases document.frontMatter s
    (mergeSelectors (taskSelectors options name) document.frontMatter) blocks = plan at hblocks ⊢
  obtain ⟨steps, selectors⟩ := plan
  dsimp only at hblocks ⊢
  split
  · rename_i hresumes
    -- an earlier session goes on: nothing is planned behind the blocks
    rw [← List.append_nil steps]
    refine hblocks.bind ?_
    rintro ⟨content, selectors⟩ rfl
    rw [if_pos hresumes]
    exact follows_pure ⟨rfl, fun h => absurd hresumes (by simp [h])⟩
  · rename_i hresumes
    refine hblocks.bind ?_
    rintro ⟨content, selectors⟩ rfl
    rw [if_neg hresumes, ← List.append_nil (rulesSteps ..)]
    exact (follows_resolveRules _).bind fun rules hrules =>
      follows_onDisk.bind_pure fun _ _ => ⟨rfl, fun _ => hrules⟩

end Follow

/-- A disk with a task and a rule that has a bootstrap, both with a shell command. -/
def bootstrapDisk : Disk where
  entries := [(["w"], .directory 0o755), (["w", ".agents"], .directory 0o755),
    (["w", ".agents", "tasks"], .directory 0o755),
    (["w", ".agents", "tasks", "t.md"], .file "Fix !`pwd`\n".toUTF8 0o644),
    (["w", ".agents", "rules"], .directory 0o755),
    (["w", ".agents", "rules", "a.md"],
      .file "---\nbootstrap: make\n---\nMind !`date`\n".toUTF8 0o644)]
  current := []

example : ((assemble (steadyHost printCommand) taskOptions "t").run ⟨bootstrapDisk, [], []⟩).2.calls
    = [.shell "pwd" "/w", .inline "make" "/w", .shell "date" "/w"] := by decide +kernel

end Assembly

end Briefing
