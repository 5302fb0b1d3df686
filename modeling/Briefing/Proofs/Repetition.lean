import Briefing.Proofs.Listing
import Briefing.Proofs.NativeRules
import Briefing.Proofs.SameDirectory

/-!
# Searching a directory twice

A directory that is searched by a second path gives nothing new, so a run with a source that repeats
a directory is the run without it (`repetition_changes_nothing`): the same value or error, and the
same session.

The paths have to lead to the directory each time that the run searches (`SearchedOn`), which what
it executes may undo, and the limits on paths have to let it look at everything by both paths: links
on the way to a directory count for each file in it. `repetition_changes_something` has a run for
each that differs. As long as no program changes files, it is enough that both hold at the start
(`SearchedOn.sameFiles` with `OneDirectory.sameFiles`).
-/

namespace Briefing

/-- Searches below bases find the same. -/
structure Search.Alike (d : Disk) (table : AgentTable) (bases bases' : List Base) : Prop where
  candidates : ∀ kind, kind ≠ .skills →
    Search.candidates d table bases kind = Search.candidates d table bases' kind
  skillFiles : Search.skillFiles d table bases = Search.skillFiles d table bases'

namespace Assembly

open Activity
open Step (Follows afterAll afterAll_append)
open Search (Alike OneDirectory)

section Bases

variable {host : Host} {options : Options} {bases bases' : List Base} {name : String} {s : Session}
  {d : Disk} {table : AgentTable} {selectors : Selectors}

theorem named_alike (h : Alike d table bases bases') (lookup : Lookup) :
    Search.named d table bases selectors lookup name
      = Search.named d table bases' selectors lookup name := by
  rw [Search.named, Search.named, h.candidates]
  cases lookup <;> simp [Search.kindOf]

theorem skills_alike (h : Alike d table bases bases') :
    Search.skills d table bases selectors = Search.skills d table bases' selectors := by
  rw [Search.skills, Search.skills, h.skillFiles]

theorem listIn_alike (h : Alike d table bases bases') :
    TaskSummary.listIn d table bases = TaskSummary.listIn d table bases' := by
  rw [TaskSummary.listIn, TaskSummary.listIn, h.candidates _ (by simp)]

theorem run_resolveBlock_alike (fm : FrontMatter) {block : Task.Block}
    (h : ∀ c, block = .command c → Alike s.disk options.table bases bases') :
    (resolveBlock host options bases fm selectors block).run s
      = (resolveBlock host options bases' fm selectors block).run s := by
  cases block with
  | text fragments => rfl
  | command c =>
    rw [resolveBlock, resolveBlock, run_bind, run_bind, commandDocument, commandDocument,
      run_onDisk, run_onDisk, named_alike (h c rfl)]

theorem run_resolveBlocks_alike (fm : FrontMatter) : ∀ {blocks : List Task.Block} {s : Session}
    {selectors : Selectors},
    (∀ front c x s', front ++ [.command c] <+: blocks →
      (resolveBlocks host options bases fm selectors front).run s = (.ok x, s') →
        Alike s'.disk options.table bases bases') →
    (resolveBlocks host options bases fm selectors blocks).run s
      = (resolveBlocks host options bases' fm selectors blocks).run s
  | [], _, _, _ => rfl
  | block :: blocks, s, selectors, h => by
    have hblock : ∀ c, block = .command c → Alike s.disk options.table bases bases' := by
      rintro c rfl
      exact h [] c _ s ⟨blocks, rfl⟩ rfl
    rw [resolveBlocks, resolveBlocks, run_bind, run_bind, ← run_resolveBlock_alike fm hblock]
    rcases hrun : (resolveBlock host options bases fm selectors block).run s
      with ⟨e | ⟨text, selectors'⟩, s₁⟩
    · rfl
    · dsimp only
      rw [run_bind, run_bind, run_resolveBlocks_alike fm fun front c x s' hfront hrest => ?_]
      refine h (block :: front) c (text ++ x.1, x.2) s' (List.cons_prefix_cons.mpr ⟨rfl, hfront⟩) ?_
      rw [resolveBlocks, run_bind, hrun]
      dsimp only
      rw [run_bind, hrest]
      rfl

theorem run_resolveRules_alike (h : Alike s.disk options.table bases bases') (setting : Setting) :
    (resolveRules host options bases setting).run s
      = (resolveRules host options bases' setting).run s := by
  rw [resolveRules, resolveRules, run_bind, run_bind, run_onDisk, run_onDisk,
    h.candidates _ (by simp)]

theorem run_resolveSkills_alike (h : Alike s.disk options.table bases bases') (setting : Setting) :
    (resolveSkills options bases setting).run s = (resolveSkills options bases' setting).run s := by
  rw [resolveSkills, resolveSkills, run_onDisk, run_onDisk, skills_alike h]

variable (host options bases name s) in
/-- The disks that a run searches, from the search for its task on. -/
inductive SearchedOn : Disk → Prop
  | task : SearchedOn s.disk
  | command {document : Document} {agent : Option Agent} {blocks front : List Task.Block}
      {c : Task.Command} {x : String × Selectors} {s' : Session}
      (hread : ReadsTask options bases name s.disk document agent blocks)
      (hfront : front ++ [.command c] <+: blocks)
      (hrun : (resolveBlocks host options bases document.frontMatter
        (mergeSelectors (taskSelectors options name) document.frontMatter) front).run s
          = (.ok x, s')) : SearchedOn s'.disk
  | rules {document : Document} {agent : Option Agent} {blocks : List Task.Block}
      {content : String} {selectors : Selectors} {s' : Session}
      (hread : ReadsTask options bases name s.disk document agent blocks)
      (hrun : (resolveBlocks host options bases document.frontMatter
        (mergeSelectors (taskSelectors options name) document.frontMatter) blocks).run s
          = (.ok (content, selectors), s'))
      (hresumes : resumes options ⟨selectors, agent⟩ = false) : SearchedOn s'.disk
  | skills {document : Document} {agent : Option Agent} {blocks : List Task.Block}
      {content : String} {selectors : Selectors} {rules : List CountedDocument} {s' s'' : Session}
      (hread : ReadsTask options bases name s.disk document agent blocks)
      (hrun : (resolveBlocks host options bases document.frontMatter
        (mergeSelectors (taskSelectors options name) document.frontMatter) blocks).run s
          = (.ok (content, selectors), s'))
      (hresumes : resumes options ⟨selectors, agent⟩ = false)
      (hrules : (resolveRules host options bases ⟨selectors, agent⟩).run s' = (.ok rules, s'')) :
      SearchedOn s''.disk

theorem run_assembleFrom_alike {document : Document} {agent : Option Agent}
    {blocks : List Task.Block}
    (hread : ReadsTask options bases name s.disk document agent blocks)
    (h : ∀ d, SearchedOn host options bases name s d → Alike d options.table bases bases') :
    (assembleFrom host options bases name document agent blocks).run s
      = (assembleFrom host options bases' name document agent blocks).run s := by
  unfold assembleFrom
  rw [run_bind, run_bind, ← run_resolveBlocks_alike document.frontMatter
    fun front c x s' hfront hrun => h _ (.command hread hfront hrun)]
  rcases hrun : (resolveBlocks host options bases document.frontMatter
    (mergeSelectors (taskSelectors options name) document.frontMatter) blocks).run s
    with ⟨e | ⟨content, selectors⟩, s'⟩
  · rfl
  · dsimp only
    split
    · rfl
    · rename_i hresumes
      rw [Bool.not_eq_true] at hresumes
      rw [run_bind, run_bind, ← run_resolveRules_alike (h _ (.rules hread hrun hresumes))]
      rcases hrules : (resolveRules host options bases ⟨selectors, agent⟩).run s'
        with ⟨e | rules, s''⟩
      · rfl
      · dsimp only
        rw [run_bind, run_bind,
          run_resolveSkills_alike (h _ (.skills hread hrun hresumes hrules))]

theorem run_assembleIn_alike
    (h : ∀ d, SearchedOn host options bases name s d → Alike d options.table bases bases') :
    (assembleIn host options bases name).run s = (assembleIn host options bases' name).run s := by
  rw [assembleIn_eq, assembleIn_eq, run_bind, run_bind, taskDocument, taskDocument, run_onDisk,
    run_onDisk, ← named_alike (h _ .task)]
  rcases hnamed : Search.named s.disk options.table bases (taskSelectors options name) .task name
    with e | _ | document
  · rfl
  · rfl
  · dsimp only [bind, Except.bind, pure, Except.pure]
    rcases hagent : taskAgent options document.frontMatter with e | agent
    · rfl
    · rcases hblocks : taskBlocks options document with e | blocks
      · rfl
      · exact run_assembleFrom_alike ⟨hnamed, hagent, hblocks⟩ h

theorem isPrefix_blocksSteps (fm : FrontMatter) : ∀ {front blocks : List Task.Block} {s : Session}
    {selectors : Selectors}, front <+: blocks →
      (blocksSteps host options bases fm s selectors front).1
        <+: (blocksSteps host options bases fm s selectors blocks).1
  | [], _, _, _, _ => List.nil_prefix
  | block :: front, blocks, s, selectors, h => by
    obtain ⟨rest, rfl⟩ := h
    exact List.prefix_append_right_inj _ |>.mpr (isPrefix_blocksSteps fm ⟨rest, rfl⟩)

theorem steps_of_resolveBlocks {document : Document} {blocks : List Task.Block}
    {x : String × Selectors} {s' : Session}
    (h : (resolveBlocks host options bases document.frontMatter
      (mergeSelectors (taskSelectors options name) document.frontMatter) blocks).run s
        = (.ok x, s')) :
    s' = afterAll host s (taskSteps host options bases name document blocks s).1
      ∧ x.2 = (taskSteps host options bases name document blocks s).2 := by
  have hfollows := @follows_resolveBlocks host options bases document.frontMatter blocks s
    (mergeSelectors (taskSelectors options name) document.frontMatter)
  rw [h] at hfollows
  exact hfollows.answer

theorem assembleSteps_eq (document : Document) (agent : Option Agent) (blocks : List Task.Block) :
    assembleSteps host options bases name s document agent blocks
      = let (steps, selectors) := taskSteps host options bases name document blocks s
        if resumes options ⟨selectors, agent⟩ then steps
        else steps ++ rulesSteps host options bases ⟨selectors, agent⟩ (afterAll host s steps) :=
  rfl

theorem isPrefix_taskSteps (document : Document) (agent : Option Agent)
    (blocks : List Task.Block) : (taskSteps host options bases name document blocks s).1
      <+: assembleSteps host options bases name s document agent blocks := by
  rw [assembleSteps_eq]
  dsimp only
  split
  · exact List.prefix_rfl
  · exact List.prefix_append _ _

/-- A run that changes no files searches the files that were there at its start. -/
theorem SearchedOn.sameFiles {d : Disk} (h : SearchedOn host options bases name s d)
    (hkeep : ∀ document agent blocks, ReadsTask options bases name s.disk document agent blocks →
      Step.KeepFiles host s (assembleSteps host options bases name s document agent blocks)) :
    s.disk.SameFiles d := by
  have hmade : ∀ {document agent blocks made},
      ReadsTask options bases name s.disk document agent blocks →
        made <+: assembleSteps host options bases name s document agent blocks →
          s.disk.SameFiles (afterAll host s made).disk := by
    rintro document agent blocks made hread ⟨rest, hrest⟩
    have hsteps := hkeep document agent blocks hread
    rw [← hrest] at hsteps
    exact (Step.keepFiles_append.mp hsteps).1.sameFiles
  cases h with
  | task => exact Disk.sameFiles_refl _
  | command hread hfront hrun =>
    obtain ⟨rfl, -⟩ := steps_of_resolveBlocks hrun
    have hblocks := (List.prefix_append _ _).trans hfront
    exact hmade hread ((isPrefix_blocksSteps _ hblocks).trans (isPrefix_taskSteps _ _ _))
  | rules hread hrun _ =>
    obtain ⟨rfl, -⟩ := steps_of_resolveBlocks hrun
    exact hmade hread (isPrefix_taskSteps _ _ _)
  | @skills document agent blocks content selectors rules s' s'' hread hrun hresumes hrules =>
    obtain ⟨rfl, rfl⟩ := steps_of_resolveBlocks hrun
    have hfollows := @follows_resolveRules host options bases
      (afterAll host s (taskSteps host options bases name document blocks s).1)
      ⟨(taskSteps host options bases name document blocks s).2, agent⟩
    rw [hrules] at hfollows
    obtain ⟨rfl, -⟩ := hfollows.answer
    have hsteps := hmade hread List.prefix_rfl
    rw [assembleSteps_eq] at hsteps
    dsimp only at hsteps
    rwa [if_neg (by simp [hresumes]), afterAll_append] at hsteps

/-! Which sources there are does not matter once the bases are known. -/

theorem resolveBlock_sources (sources : List Source) (fm : FrontMatter) (block : Task.Block) :
    resolveBlock host { options with sources } bases fm selectors block
      = resolveBlock host options bases fm selectors block := by
  cases block <;> rfl

theorem resolveBlocks_sources (sources : List Source) (fm : FrontMatter) :
    ∀ (blocks : List Task.Block) (selectors : Selectors),
      resolveBlocks host { options with sources } bases fm selectors blocks
        = resolveBlocks host options bases fm selectors blocks
  | [], _ => rfl
  | block :: blocks, selectors => by
    rw [resolveBlocks, resolveBlocks, resolveBlock_sources]
    simp only [resolveBlocks_sources sources fm blocks]

theorem assembleIn_sources (sources : List Source) :
    assembleIn host { options with sources } bases name = assembleIn host options bases name := by
  unfold assembleIn resolveTask
  simp only [resolveBlocks_sources]
  rfl

end Bases

section Repeats

variable {host : Host} {options : Options} {name : String} {s : Session} {front back : List Source}
  {source : Source} {earlier : Path}

theorem bases_append (options : Options) (front back : List Source) :
    options.bases ((front ++ back).map (Source.localPath · options.directory))
      = (options.directory :: front.map (Source.localPath · options.directory)).map (⟨·, false⟩)
        ++ (back.map (⟨Source.localPath · options.directory, false⟩)
          ++ (options.home.map (⟨·, true⟩)).toList) := by
  simp [Options.bases]

theorem bases_alike {d : Disk}
    (hearlier : earlier ∈ options.directory :: front.map (Source.localPath · options.directory))
    (h : OneDirectory d options.table earlier (Source.localPath source options.directory))
    (listed : List Source) :
    Alike d options.table
      (options.bases ((front ++ back ++ listed).map (Source.localPath · options.directory)))
      (options.bases
        ((front ++ source :: back ++ listed).map (Source.localPath · options.directory))) := by
  have hp : (⟨earlier, false⟩ : Base) ∈
      (options.directory :: front.map (Source.localPath · options.directory)).map (⟨·, false⟩) :=
    List.mem_map_of_mem hearlier
  rw [List.append_assoc, List.append_assoc, bases_append, bases_append]
  exact ⟨fun kind hk => (h.candidates hk hp _).symm, (h.skillFiles hp _).symm⟩

/-- A source that repeats a directory changes no list of tasks, and no run for which both paths lead
to one directory each time that it searches. -/
theorem repetition_changes_nothing (hsources : options.sources = front ++ back)
    (hlocal : { options with sources := front ++ source :: back }.LocalSources host s)
    (hearlier : earlier ∈ options.directory :: front.map (Source.localPath · options.directory))
    (h : OneDirectory s.disk options.table earlier (Source.localPath source options.directory)) :
    let repeated := { options with sources := front ++ source :: back }
    (TaskSummary.list host repeated).run s = (TaskSummary.list host options).run s
      ∧ ∀ name, (∀ roots s₁, (options.searchRoots host).run s = (.ok roots, s₁) →
          ∀ d, SearchedOn host options (options.bases roots.roots) name s₁ d →
            OneDirectory d options.table earlier
              (Source.localPath source options.directory)) →
        (assemble host repeated name).run s = (assemble host options name).run s := by
  intro repeated
  have hlocal' : options.LocalSources host s := by
    intro listed s₁ hlisted x hx
    refine hlocal listed s₁ hlisted x ?_
    rw [hsources] at hx
    simp only [List.mem_append, List.mem_cons] at hx ⊢
    tauto
  rcases hlisted : (options.listedSources host).run s with ⟨e | listed, s₁⟩
  · have hroots : (options.searchRoots host).run s = (.error e, s₁) := by
      rw [Options.searchRoots, run_bind, hlisted]
    have hlisted' : (repeated.listedSources host).run s = (.error e, s₁) := hlisted
    have hroots' : (repeated.searchRoots host).run s = (.error e, s₁) := by
      rw [Options.searchRoots, run_bind, hlisted']
    refine ⟨?_, fun name _ => ?_⟩
    · rw [TaskSummary.list_eq, TaskSummary.list_eq, run_bind, run_bind, hroots, hroots']
    · rw [run_assemble_error hroots, run_assemble_error hroots']
  · have hroots := hlocal'.run_searchRoots hlisted
    have hroots' : (repeated.searchRoots host).run s = (.ok ⟨(front ++ source :: back ++ listed).map
      (Source.localPath · options.directory), none⟩, s₁) := hlocal.run_searchRoots hlisted
    have hdisk := hlocal'.disk_searchRoots hroots
    have halike := fun d hd => @bases_alike options front back source earlier d hearlier hd listed
    rw [hsources] at hroots
    generalize (front ++ back ++ listed).map (Source.localPath · options.directory) = roots
      at hroots halike
    generalize (front ++ source :: back ++ listed).map (Source.localPath · options.directory)
      = roots' at hroots' halike
    refine ⟨?_, fun name hrun => ?_⟩
    · have hlist := listIn_alike (halike s₁.disk (hdisk ▸ h))
      rw [TaskSummary.list_eq, TaskSummary.list_eq, run_bind, run_bind, hroots, hroots']
      exact congrArg (·, s₁) hlist.symm
    · have hsearched := fun d hd => halike d (hrun _ s₁ hroots d hd)
      have hin : assembleIn host repeated (repeated.bases roots') name
          = assembleIn host options (options.bases roots') name := assembleIn_sources _
      rw [run_assemble hroots, run_assemble hroots', hin, ← run_assembleIn_alike hsearched]
      rfl

end Repeats

/-! ## A directory and a link to it -/

section Examples

open Disk (WithinLimits)
open Files (Visits)
open Search (LooksAt)

/-- The places of no agent in particular. -/
def sharedTable : AgentTable := ⟨AgentTable.standard.shared, fun _ => none, []⟩

/-- Options with which those places are searched below a working directory and others. -/
def sharedOptions (sources : List Source) : Options :=
  { taskOptions with sources, table := sharedTable }

/-- A disk with a task and a rule that has a bootstrap, in a directory with a link to it. -/
def aliasDisk : Disk where
  entries := [(["w"], .directory 0o755), (["w", ".agents"], .directory 0o755),
    (["w", ".agents", "tasks"], .directory 0o755),
    (["w", ".agents", "tasks", "t.md"], .file "Do it\n".toUTF8 0o644),
    (["w", ".agents", "rules"], .directory 0o755),
    (["w", ".agents", "rules", "a.md"],
      .file "---\nbootstrap: make\n---\nMind it\n".toUTF8 0o644),
    (["alias"], .link "w")]
  current := []

/-- What a search looks at below a directory with one rule and one task. -/
def lookedAt (p : Path) : List Path :=
  [p.join ".agents/rules", p.join ".agents/commands", p.join ".agents/tasks",
    p.join ".agents/skills", (p.join ".agents/rules").join "a.md",
    (p.join ".agents/tasks").join "t.md"]

theorem places_sharedTable {kind : Kind} {r : Path} (hr : r ∈ sharedTable.places kind) :
    (kind = .rules ∧ r = ".agents/rules") ∨ (kind = .commands ∧ r = ".agents/commands")
      ∨ (kind = .tasks ∧ r = ".agents/tasks") ∨ (kind = .skills ∧ r = ".agents/skills") := by
  have hplaces : sharedTable.places .rules = [".agents/rules"]
      ∧ sharedTable.places .commands = [".agents/commands"]
      ∧ sharedTable.places .tasks = [".agents/tasks"]
      ∧ sharedTable.places .skills = [".agents/skills"] := by decide +kernel
  cases kind <;> simp_all

theorem withinLimits_lookedAt : ∀ path ∈ lookedAt "/w" ++ lookedAt "/alias",
    WithinLimits aliasDisk path := by
  have hlimits : ∀ path ∈ lookedAt "/w" ++ lookedAt "/alias",
      path.text.utf8ByteSize ≤ Disk.pathLimit ∧ aliasDisk.walkSteps true Disk.linkLimit
        (aliasDisk.start path) (Disk.steps path.text) ≠ .error .linkLoop := by decide +kernel
  intro path hpath
  obtain ⟨hsize, hwalk⟩ := hlimits path hpath
  exact Disk.withinLimits_of_walkSteps hsize hwalk

/-- A walk of a directory with one file looks at nothing else. -/
theorem visits_of_file {d : Disk} {here : Location} {name : String} {names : List String}
    (hnames : d.namesIn here = [name])
    (hwalk : d.walkSteps true 0 here [name] = .ok (here ++ [name]))
    (hbelow : d.namesIn (here ++ [name]) = []) (hv : Visits d [here] names) : names = [name] := by
  obtain ⟨_, -, hleads⟩ := Disk.exists_leads hwalk
  have hnone : ∀ {within names}, ¬ Visits d ((here ++ [name]) :: within) names := by
    intro within names hv
    cases hv <;> simp_all
  cases hv with
  | name hn => simp_all
  | directory hn _ hv =>
    obtain rfl := List.mem_singleton.mp (hnames ▸ hn)
    exact absurd hv hnone
  | link hn hl _ hv =>
    obtain rfl := List.mem_singleton.mp (hnames ▸ hn)
    obtain rfl := hl.eq hleads
    exact absurd hv hnone

theorem mem_lookedAt {p path : Path} (hp : p ∈ (["/w", "/alias"] : List Path))
    (h : LooksAt aliasDisk sharedTable p path) : path ∈ lookedAt p := by
  have hwalk : ∀ p ∈ (["/w", "/alias"] : List Path),
      let walk := fun r : Path => aliasDisk.walkSteps true Disk.linkLimit
        (aliasDisk.start (p.join r)) (Disk.steps (p.join r).text)
      walk ".agents/rules" = .ok ["w", ".agents", "rules"]
        ∧ walk ".agents/commands" = .error .notFound
        ∧ walk ".agents/tasks" = .ok ["w", ".agents", "tasks"]
        ∧ walk ".agents/skills" = .error .notFound := by decide +kernel
  obtain ⟨hrules, hcommands, htasks, hskills⟩ := hwalk p hp
  have hlimits : ∀ path ∈ lookedAt p, WithinLimits aliasDisk path := by
    intro path hpath
    refine withinLimits_lookedAt path ?_
    rcases List.mem_pair.mp hp with rfl | rfl <;> simp [hpath]
  cases h with
  | place hr =>
    rcases places_sharedTable hr with ⟨-, rfl⟩ | ⟨-, rfl⟩ | ⟨-, rfl⟩ | ⟨-, rfl⟩ <;> simp [lookedAt]
  | below hk hr hl hv =>
    rcases places_sharedTable hr with ⟨-, rfl⟩ | ⟨-, rfl⟩ | ⟨-, rfl⟩ | ⟨rfl, -⟩
    · have hlinks := (hlimits (p.join ".agents/rules") (by simp [lookedAt]) _ _ hl).1
      obtain rfl := Except.ok.inj ((hl.walkSteps hlinks).symm.trans hrules)
      obtain rfl := @visits_of_file aliasDisk ["w", ".agents", "rules"] "a.md" _ (by decide +kernel)
        (by decide +kernel) (by decide +kernel) hv
      simp [lookedAt, Path.below]
    · have hlinks := (hlimits (p.join ".agents/commands") (by simp [lookedAt]) _ _ hl).1
      cases (hl.walkSteps hlinks).symm.trans hcommands
    · have hlinks := (hlimits (p.join ".agents/tasks") (by simp [lookedAt]) _ _ hl).1
      obtain rfl := Except.ok.inj ((hl.walkSteps hlinks).symm.trans htasks)
      obtain rfl := @visits_of_file aliasDisk ["w", ".agents", "tasks"] "t.md" _ (by decide +kernel)
        (by decide +kernel) (by decide +kernel) hv
      simp [lookedAt, Path.below]
    · exact absurd rfl hk
  | skill hr hl hn =>
    rcases places_sharedTable hr with ⟨⟨⟩, -⟩ | ⟨⟨⟩, -⟩ | ⟨⟨⟩, -⟩ | ⟨-, rfl⟩
    have hlinks := (hlimits (p.join ".agents/skills") (by simp [lookedAt]) _ _ hl).1
    cases (hl.walkSteps hlinks).symm.trans hskills

theorem oneDirectory_aliasDisk : OneDirectory aliasDisk sharedTable "/w" "/alias" := by
  refine ⟨by decide +kernel, ⟨["w"], by decide +kernel, by decide +kernel, by decide +kernel⟩, ?_⟩
  intro path hlooks
  refine withinLimits_lookedAt path (List.mem_append.mpr ?_)
  exact hlooks.imp (mem_lookedAt (by simp)) (mem_lookedAt (by simp))

/-- A rule that is found by two paths is one rule, and its bootstrap runs once. -/
theorem repetition_changes_nothing_alias :
    let host := steadyHost printCommand
    let s : Session := ⟨aliasDisk, [], []⟩
    (TaskSummary.list host (sharedOptions ["/alias"])).run s
        = (TaskSummary.list host (sharedOptions [])).run s
      ∧ (assemble host (sharedOptions ["/alias"]) "t").run s
        = (assemble host (sharedOptions []) "t").run s
      ∧ ((assemble host (sharedOptions ["/alias"]) "t").run s).1.toOption.map prompt
        = some "Mind it\n\nDo it\n"
      ∧ ((assemble host (sharedOptions ["/alias"]) "t").run s).2.calls
        = [.inline "make" "/w"] := by
  intro host s
  have hlocal : (sharedOptions ["/alias"]).LocalSources host s := by
    rintro listed s₁ ⟨⟩
    decide
  obtain ⟨hlist, hruns⟩ := @repetition_changes_nothing host (sharedOptions []) s [] [] "/alias" "/w"
    rfl hlocal (by simp [sharedOptions, taskOptions]) oneDirectory_aliasDisk
  have hsearched : ∀ roots s₁, ((sharedOptions []).searchRoots host).run s = (.ok roots, s₁) →
      ∀ d, SearchedOn host (sharedOptions []) ((sharedOptions []).bases roots.roots) "t" s₁ d →
        OneDirectory d sharedTable "/w" "/alias" := by
    intro roots s₁ hroots d hd
    obtain ⟨rfl, rfl⟩ := Options.eq_of_searchRoots rfl rfl hroots
    exact oneDirectory_aliasDisk.sameFiles
      (hd.sameFiles fun _ _ _ _ => Step.keepFiles_of_forall fun _ _ => rfl)
  exact ⟨hlist, hruns "t" hsearched, by decide +kernel, by decide +kernel⟩

/-- A disk with a rule behind as many links as a path may follow, and one link to its directory. -/
def chainDisk : Disk where
  entries := (["w"], .directory 0o755) :: (["w", ".agents"], .directory 0o755)
    :: (["w", ".agents", "tasks"], .directory 0o755)
    :: (["w", ".agents", "tasks", "t.md"], .file "Do it\n".toUTF8 0o644)
    :: (["w", ".agents", "rules"], .directory 0o755)
    :: (["w", ".agents", "rules", "a.md"], .link "/0")
    :: (["39"], .file "Mind it\n".toUTF8 0o644) :: (["alias"], .link "w")
    :: (List.range 39).map fun n => ([toString n], .link (toString (n + 1)))
  current := []

/-- A disk with a task that has a program run, and another directory that has a rule. -/
def commandDisk : Disk where
  entries := [(["w"], .directory 0o755), (["w", ".agents"], .directory 0o755),
    (["w", ".agents", "tasks"], .directory 0o755),
    (["w", ".agents", "tasks", "t.md"], .file "!`go`Do it\n".toUTF8 0o644),
    (["v"], .directory 0o755), (["v", ".agents"], .directory 0o755),
    (["v", ".agents", "rules"], .directory 0o755),
    (["v", ".agents", "rules", "b.md"], .file "Mind it\n".toUTF8 0o644),
    (["alias"], .link "w")]
  current := []

/-- A host whose programs have the link lead elsewhere. -/
def turningHost : Host :=
  { steadyHost printCommand with
    run := fun c s => (printCommand c, s.disk.put ["alias"] (.link "v")) }

/-- By another path a file can be too many links away, and a program that is run can have the other
path lead elsewhere. -/
theorem repetition_changes_something :
    (let host := steadyHost printCommand
      let s : Session := ⟨chainDisk, [], []⟩
      (sharedOptions ["/alias"]).LocalSources host s
        ∧ chainDisk.resolve true "/w" = .ok ["w"] ∧ chainDisk.resolve true "/alias" = .ok ["w"]
        ∧ ((assemble host (sharedOptions []) "t").run s).1.toOption.map prompt
          = some "Mind it\n\nDo it\n"
        ∧ ((assemble host (sharedOptions ["/alias"]) "t").run s).1
          = .error (.walk (.unreadable "/alias/.agents/rules/a.md" .linkLoop)))
      ∧ (let s : Session := ⟨commandDisk, [], []⟩
        (sharedOptions ["/alias"]).LocalSources turningHost s
          ∧ commandDisk.resolve true "/w" = .ok ["w"]
          ∧ commandDisk.resolve true "/alias" = .ok ["w"]
          ∧ ((assemble turningHost (sharedOptions []) "t").run s).1.toOption.map prompt
            = some "<go>Do it\n"
          ∧ ((assemble turningHost (sharedOptions ["/alias"]) "t").run s).1.toOption.map prompt
            = some "Mind it\n\n<go>Do it\n") := by
  refine ⟨⟨?_, by decide +kernel, by decide +kernel, by decide +kernel, ?_⟩, ?_, by decide +kernel,
    by decide +kernel, by decide +kernel, by decide +kernel⟩
  · rintro listed s₁ ⟨⟩
    decide
  · have herror : (match ((assemble (steadyHost printCommand) (sharedOptions ["/alias"]) "t").run
        ⟨chainDisk, [], []⟩).1 with
      | .error e => some e
      | .ok _ => none) = some (.walk (.unreadable "/alias/.agents/rules/a.md" .linkLoop)) := by
      decide +kernel
    rcases hrun : ((assemble (steadyHost printCommand) (sharedOptions ["/alias"]) "t").run
      ⟨chainDisk, [], []⟩).1 with e | a
    · rw [hrun] at herror
      exact congrArg Except.error (Option.some.inj herror)
    · rw [hrun] at herror
      cases herror
  · rintro listed s₁ ⟨⟩
    decide

end Examples

end Assembly

end Briefing
