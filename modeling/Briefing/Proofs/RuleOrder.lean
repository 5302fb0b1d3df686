import Briefing.Proofs.Accumulation
import Briefing.Proofs.CallOrder
import Briefing.Proofs.Discovery
import Briefing.Proofs.InlineText
import Briefing.Proofs.Loading

/-!
# The rules of a run

As long as no program that is executed changes files, a run reads the files that were there when it
began, but for the permission bits of scripts (`KeepFiles.sameFiles`). So the documents of all
commands of a task add their pairs of a key and a value to the selectors that decide on the rules
(`blocksSteps_kept`), and the rules are the files that the search finds, each where it is found
first, without those that the agent reads by itself or the selectors exclude (`assemble_rules`).
-/

namespace Briefing

namespace Step

variable {host : Host} {s : Session} {steps steps' : List Step}

variable (host) in
/-- No program among some steps changes files. -/
def KeepFiles : Session → List Step → Prop
  | _, [] => True
  | s, step :: steps => (host.run step.call (step.prepare s)).2 = (step.prepare s).disk
      ∧ KeepFiles (step.after host s) steps

theorem keepFiles_of_forall (h : ∀ c s, (host.run c s).2 = s.disk) :
    ∀ {steps : List Step} {s : Session}, KeepFiles host s steps
  | [], _ => trivial
  | _ :: _, _ => ⟨h _ _, keepFiles_of_forall h⟩

theorem keepFiles_append : ∀ {steps : List Step} {s : Session},
    KeepFiles host s (steps ++ steps')
      ↔ KeepFiles host s steps ∧ KeepFiles host (afterAll host s steps) steps'
  | [], s => by simp [KeepFiles, afterAll]
  | step :: steps, s => by
    rw [List.cons_append, KeepFiles, KeepFiles, keepFiles_append, and_assoc]
    rfl

theorem sameFiles_prepare (s : Session) (step : Step) :
    s.disk.SameFiles (step.prepare s).disk := by
  unfold prepare
  split
  · rename_i path _ _
    rcases h : s.disk.setMode path Assembly.scriptMode with fault | d
    · exact Disk.sameFiles_refl _
    · exact Disk.sameFiles_setMode h
  · exact Disk.sameFiles_refl _

theorem KeepFiles.sameFiles : ∀ {steps : List Step} {s : Session}, KeepFiles host s steps →
    s.disk.SameFiles (afterAll host s steps).disk
  | [], s, _ => Disk.sameFiles_refl _
  | step :: steps, s, h => by
    have hafter : (step.after host s).disk = (step.prepare s).disk := h.1
    have hsteps := h.2.sameFiles
    rw [hafter] at hsteps
    exact (sameFiles_prepare s step).trans hsteps

/-- Shell commands do not even change permission bits. -/
theorem KeepFiles.disk_shell {base : Path} : ∀ {texts : List String} {s : Session},
    KeepFiles host s ((texts.map (Call.shell · base)).map (⟨·, none⟩)) →
      (afterAll host s ((texts.map (Call.shell · base)).map (⟨·, none⟩))).disk = s.disk
  | [], s, _ => rfl
  | text :: texts, s, h => by
    have hafter : (Step.after host s ⟨.shell text base, none⟩).disk = s.disk := h.1
    exact (KeepFiles.disk_shell h.2).trans hafter

end Step

namespace Assembly

open Search (Position FoundAt FirstAt)
open Step (AnswersAll KeepFiles afterAll keepFiles_append stepsOfAll)

section Kept

variable {host : Host} {options : Options} {bases : List Base} {setting : Setting}
  {d : Disk} {s : Session}

/-! ## Selectors -/

/-- The pairs of a key and a value that a document adds to the selectors: those of the map that its
frontmatter has under `selectors`, if it has one there. -/
def addedPairs (document : Document) : List (String × String) :=
  match document.frontMatter.get? "selectors" with
  | some (.map entries) => Selectors.pairsOf entries
  | _ => []

/-- The selectors with what some documents add. -/
def mergeAll (selectors : Selectors) (documents : List Document) : Selectors :=
  selectors.acceptAll (documents.flatMap addedPairs)

/-- A document is merged by its pairs. -/
theorem mergeAll_singleton (selectors : Selectors) (document : Document) :
    mergeAll selectors [document] = mergeSelectors selectors document.frontMatter := by
  rw [mergeAll, List.flatMap_singleton, addedPairs, mergeSelectors, FrontMatter.selectors]
  rcases document.frontMatter.get? "selectors" with _ | value
  · rfl
  · cases value with
    | map entries => exact (Selectors.merge_eq entries selectors).symm
    | null | bool _ | number _ | string _ | list _ => rfl

theorem mergeAll_append (selectors : Selectors) (documents documents' : List Document) :
    mergeAll selectors (documents ++ documents')
      = mergeAll (mergeAll selectors documents) documents' := by
  rw [mergeAll, List.flatMap_append, Selectors.acceptAll_append]
  rfl

section Documents

variable (options bases)

/-- The document of a block that is a command, if it has one. -/
def commandDocument? (d : Disk) (selectors : Selectors) : Task.Block → Option Document
  | .text _ => none
  | .command c => (Search.named d options.table bases selectors .command c.name).toOption.join

/-- The documents of the commands among blocks, each of them looked up with the selectors that are
in force then. -/
def commandDocuments (d : Disk) : Selectors → List Task.Block → List Document
  | _, [] => []
  | selectors, block :: blocks =>
    let documents := (commandDocument? options bases d selectors block).toList
    documents ++ commandDocuments d (mergeAll selectors documents) blocks

end Documents

theorem disk_contentSteps {fm : FrontMatter} {content : String}
    (h : KeepFiles host s (contentSteps options fm content)) :
    (afterAll host s (contentSteps options fm content)).disk = s.disk := by
  unfold contentSteps at h ⊢
  split at h
  · rename_i hexpands
    rw [if_pos hexpands]
    exact h.disk_shell
  · rename_i hexpands
    rw [if_neg hexpands]
    rfl

theorem blockSteps_kept {fm : FrontMatter} {selectors : Selectors} {block : Task.Block}
    (h : KeepFiles host s (blockSteps options bases s.disk fm selectors block).1) :
    (afterAll host s (blockSteps options bases s.disk fm selectors block).1).disk = s.disk
      ∧ (blockSteps options bases s.disk fm selectors block).2
        = mergeAll selectors (commandDocument? options bases s.disk selectors block).toList := by
  cases block with
  | text fragments => exact ⟨disk_contentSteps h, rfl⟩
  | command c =>
    rw [blockSteps] at h ⊢
    rw [commandDocument?]
    generalize Search.named s.disk options.table bases selectors .command c.name = found,
      c.source = source? at h ⊢
    rcases found with e | _ | document
    · exact ⟨rfl, rfl⟩
    · rcases source? with _ | source
      · exact ⟨rfl, rfl⟩
      · exact ⟨disk_contentSteps h, rfl⟩
    · exact ⟨disk_contentSteps h, (mergeAll_singleton selectors document).symm⟩

/-- The blocks of a task leave the disk as it is, and add the selectors of all commands that have
a document. -/
theorem blocksSteps_kept {fm : FrontMatter} : ∀ {blocks : List Task.Block} {s : Session}
    {selectors : Selectors},
    KeepFiles host s (blocksSteps host options bases fm s selectors blocks).1 →
      (afterAll host s (blocksSteps host options bases fm s selectors blocks).1).disk = s.disk
        ∧ (blocksSteps host options bases fm s selectors blocks).2
          = mergeAll selectors (commandDocuments options bases s.disk selectors blocks)
  | [], s, selectors, _ => ⟨rfl, rfl⟩
  | block :: blocks, s, selectors, h => by
    rw [blocksSteps] at h ⊢
    dsimp only at h ⊢
    obtain ⟨hblock, hblocks⟩ := keepFiles_append.mp h
    obtain ⟨hdisk, hselectors⟩ := blockSteps_kept hblock
    obtain ⟨hdisk', hselectors'⟩ := blocksSteps_kept hblocks
    rw [hdisk] at hdisk' hselectors'
    refine ⟨by rw [Step.afterAll_append, hdisk'], ?_⟩
    rw [hselectors', hselectors, commandDocuments, mergeAll_append]

/-! ## Rules -/

theorem Resolves.same {d' : Disk} {c : Candidate} {answer : Option CountedDocument}
    (h : Resolves options setting d' c answer) (hsame : d.SameFiles d') :
    Resolves options setting d c answer := by
  cases h with
  | native h => exact .native h
  | excluded hn hload h => exact .excluded hn ((hsame.load _).trans hload) h
  | included hn hload h content => exact .included hn ((hsame.load _).trans hload) h content

/-- What becomes of candidates one after the other becomes of them on any disk that differs from the
first one in permission bits only. -/
theorem resolves_of_answersAll : ∀ {cs : List Candidate} {answers : List (Option CountedDocument)}
    {s : Session},
    AnswersAll host (fun s => ruleSteps options setting s.disk)
        (fun s => Resolves options setting s.disk) s cs answers →
      KeepFiles host s (stepsOfAll host (fun s => ruleSteps options setting s.disk) s cs) →
        d.SameFiles s.disk → cs.Forall₂ (Resolves options setting d) answers
  | _, _, _, .nil _, _, _ => .nil
  | _, _, _, .cons hc hcs, h, hsame => by
    obtain ⟨hkept, hrest⟩ := keepFiles_append.mp h
    exact .cons (hc.same hsame) (resolves_of_answersAll hcs hrest (hsame.trans hkept.sameFiles))

/-- Whether a candidate becomes a rule: its path is not one that the agent knows, and it passes the
selectors. -/
def isRule (options : Options) (setting : Setting) (d : Disk) (c : Candidate) : Bool :=
  !setting.agent.any (options.table.isNative · c.relative) && (d.load c.path).toOption.any
    fun rule => setting.selectors.matchesFrontMatter rule.frontMatter

theorem Resolves.path {c : Candidate} {answer : Option CountedDocument}
    (h : Resolves options setting d c answer) :
    answer.map (·.path) = if isRule options setting d c then some c.path else none := by
  rw [isRule, ← readsItself]
  cases h with
  | native h => simp [h]
  | excluded hn hload h => simp [hn, hload, h, Except.toOption]
  | included hn hload h content => simp [hn, hload, h, Except.toOption, Disk.load_path hload]

theorem map_path_rules {cs : List Candidate} {answers : List (Option CountedDocument)}
    (h : cs.Forall₂ (Resolves options setting d) answers) :
    (answers.filterMap id).map (·.path)
      = (cs.filter (isRule options setting d)).map Candidate.path := by
  induction h with
  | nil => rfl
  | @cons c answer cs answers h _ ih =>
    have hpath := h.path
    rw [List.filter_cons]
    split at hpath
    · rename_i hrule
      obtain ⟨rule, rfl, hrulePath⟩ := Option.map_eq_some_iff.mp hpath
      rw [if_pos hrule, List.map_cons, ← ih, ← hrulePath]
      rfl
    · rename_i hrule
      obtain rfl := Option.map_eq_none_iff.mp hpath
      rw [if_neg hrule, ← ih]
      rfl

theorem exists_resolves {cs : List Candidate} {answers : List (Option CountedDocument)}
    (h : cs.Forall₂ (Resolves options setting d) answers) :
    ∀ c ∈ cs, ∃ answer ∈ answers, Resolves options setting d c answer := by
  induction h with
  | nil => simp
  | @cons c answer cs answers h _ ih =>
    rw [List.forall_mem_cons]
    refine ⟨⟨answer, List.mem_cons_self, h⟩, fun c hc => ?_⟩
    obtain ⟨answer, hmem, hc⟩ := ih c hc
    exact ⟨answer, List.mem_cons_of_mem _ hmem, hc⟩

/-- The rules that a search below bases gives. No two of them are one file. They are in the order in
which their files are found first, and no file is left out but those whose first path the agent
reads by itself and those that the selectors exclude. -/
structure AreFound (options : Options) (bases : List Base) (setting : Setting) (d : Disk)
    (rules : List CountedDocument) : Prop where
  distinct : rules.Pairwise fun rule rule' => d.identity rule.path ≠ d.identity rule'.path
  order : ∃ firsts : List (Position × Candidate), firsts.Pairwise (fun x y => x.1 < y.1)
    ∧ (∀ position c, (position, c) ∈ firsts ↔ FirstAt d options.table bases .rules position c)
    ∧ rules.map (·.path)
      = ((firsts.map Prod.snd).filter (isRule options setting d)).map Candidate.path
  complete : ∀ position c, FoundAt d options.table bases .rules position c →
    (∃ rule ∈ rules, d.identity rule.path = d.identity c.path)
      ∨ ∃ position' first, FirstAt d options.table bases .rules position' first
        ∧ d.identity first.path = d.identity c.path
        ∧ ((∃ agent, setting.agent = some agent
            ∧ options.table.isNative agent first.relative = true)
          ∨ ∃ rule, d.load first.path = .ok rule
            ∧ setting.selectors.matchesFrontMatter rule.frontMatter = false)

theorem areFound_of_resolves {cs : List Candidate} {answers : List (Option CountedDocument)}
    (hcs : Search.candidates d options.table bases .rules = .ok cs)
    (h : cs.Forall₂ (Resolves options setting d) answers) :
    AreFound options bases setting d (answers.filterMap id) := by
  obtain ⟨firsts, rfl, hascend, hfirsts, hall⟩ := Search.candidates_ok hcs
  have hpaths := map_path_rules h
  refine ⟨?_, ⟨firsts, hascend, hfirsts, hpaths⟩, fun position c hc => ?_⟩
  · have hdistinct : (firsts.map Prod.snd).Pairwise fun c c' =>
        d.identity c.path ≠ d.identity c'.path := by
      refine List.pairwise_map.mpr (hascend.imp_of_mem fun {x y} hx hy hlt hsame => ?_)
      have hx := (hfirsts x.1 x.2).mp hx
      have hy := (hfirsts y.1 y.2).mp hy
      exact absurd hlt (not_lt.mpr (hy.first x.1 x.2 hx.found hsame))
    have hrules : ((answers.filterMap id).map (·.path)).Pairwise fun p p' =>
        d.identity p ≠ d.identity p' := by
      rw [hpaths]
      exact List.pairwise_map.mpr (hdistinct.filter _)
    exact (List.pairwise_map (f := fun rule : CountedDocument => rule.path)).mp hrules
  · obtain ⟨⟨position', first⟩, hmem, hsame⟩ := hall position c hc
    have hfirst := (hfirsts position' first).mp hmem
    obtain ⟨answer, hanswer, hresolves⟩ :=
      exists_resolves h first (List.mem_map_of_mem hmem)
    cases hresolves with
    | native hn => exact .inr ⟨position', first, hfirst, hsame, .inl ((Option.any_eq_true _ _).mp hn)⟩
    | excluded hn hload hexcluded =>
      exact .inr ⟨position', first, hfirst, hsame, .inr ⟨_, hload, hexcluded⟩⟩
    | @included rule hn hload hincluded content =>
      refine .inl ⟨_, List.mem_filterMap.mpr ⟨_, hanswer, rfl⟩, ?_⟩
      rw [← hsame, ← Disk.load_path hload]

/-- The selectors that decide on the rules: the given ones with the name of the task, and what the
documents of the task and of all its commands add. -/
def ruleSelectors (options : Options) (bases : List Base) (name : String) (d : Disk)
    (document : Document) (blocks : List Task.Block) : Selectors :=
  let selectors := mergeAll (options.selectors.accept "task_name" name) [document]
  mergeAll selectors (commandDocuments options bases d selectors blocks)

/-- The rules of a run whose steps change no files. -/
theorem areFound_of_keepFiles {name : String} {document : Document} {agent : Option Agent}
    {blocks : List Task.Block} {rules : List CountedDocument}
    (hkeep : KeepFiles host s (assembleSteps host options bases name s document agent blocks))
    (hrules :
      let (steps, selectors) := blocksSteps host options bases document.frontMatter s
        (mergeSelectors (taskSelectors options name) document.frontMatter) blocks
      resumes options ⟨selectors, agent⟩ = false →
        AreRules host options bases ⟨selectors, agent⟩ (afterAll host s steps) rules)
    (hresume : options.resume = false)
    (haccepts : (ruleSelectors options bases name s.disk document blocks).accepts "resume" "true"
      = false) :
    AreFound options bases ⟨ruleSelectors options bases name s.disk document blocks, agent⟩ s.disk
      rules := by
  have hgiven : mergeSelectors (taskSelectors options name) document.frontMatter
      = mergeAll (options.selectors.accept "task_name" name) [document] := by
    rw [mergeAll_singleton, taskSelectors, hresume]
    rfl
  have hresumes : resumes options
      ⟨ruleSelectors options bases name s.disk document blocks, agent⟩ = false := by
    rw [resumes, hresume, haccepts]
    rfl
  have hkept := @blocksSteps_kept host options bases document.frontMatter blocks s
    (mergeAll (options.selectors.accept "task_name" name) [document])
  rw [← ruleSelectors] at hkept
  unfold assembleSteps at hkeep
  rw [hgiven] at hkeep hrules
  generalize blocksSteps host options bases document.frontMatter s
    (mergeAll (options.selectors.accept "task_name" name) [document]) blocks = plan
    at hkept hkeep hrules
  obtain ⟨steps, selectors⟩ := plan
  dsimp only at hkept hkeep hrules
  -- the blocks leave the disk as it is, so the rules are searched on the one the run began with
  have hsteps : KeepFiles host s steps := by
    split at hkeep
    · exact hkeep
    · exact (keepFiles_append.mp hkeep).1
  obtain ⟨hdisk, rfl⟩ := hkept hsteps
  rw [if_neg (by simp [hresumes])] at hkeep
  have hrest := (keepFiles_append.mp hkeep).2
  obtain ⟨cs, answers, hcs, hanswers, rfl⟩ := hrules hresumes
  rw [rulesSteps, hcs] at hrest
  rw [hdisk] at hcs
  refine areFound_of_resolves hcs (resolves_of_answersAll hanswers hrest ?_)
  rw [hdisk]
  exact Disk.sameFiles_refl _

/-- A run that answers reads a task. If nothing that is executed changes files, and if no earlier
session goes on, its rules are those that a search below the working directory, the search roots and
the user's own directory gives with the given selectors, the name of the task and what the documents
of the task and of all its commands add. -/
theorem assemble_rules {name : String} {s s' : Session} {a : Assembly}
    (h : (assemble host options name).run s = (.ok a, s')) :
    ∃ roots s₁ document blocks, (options.searchRoots host).run s = (.ok roots, s₁) ∧
      let bases : List Base := ⟨options.directory, false⟩ :: roots.roots.map (⟨·, false⟩)
        ++ (options.home.map (⟨·, true⟩)).toList
      ReadsTask options bases name s₁.disk document a.agent blocks
        ∧ (KeepFiles host s₁ (assembleSteps host options bases name s₁ document a.agent blocks) →
          let selectors := ruleSelectors options bases name s₁.disk document blocks
          options.resume = false → selectors.accepts "resume" "true" = false →
            AreFound options bases ⟨selectors, a.agent⟩ s₁.disk a.rules) := by
  rcases run_assemble_cases host options name s with ⟨e, s'', hrun, -⟩
    | ⟨roots, s₁, document, agent, blocks, hroots, -, hread, hrun⟩
  · cases hrun.symm.trans h
  · have hfollows := @follows_assembleFrom host options (options.bases roots.roots) s₁ name
      document agent blocks
    obtain ⟨_, _, -, -, hanswers, -⟩ := hfollows.exists_made
    obtain ⟨-, rfl, hrules⟩ := hanswers a (Prod.mk.inj (hrun.symm.trans h)).1
    exact ⟨roots, s₁, document, blocks, hroots, hread, fun hkeep hresume haccepts =>
      areFound_of_keepFiles hkeep hrules hresume haccepts⟩

end Kept

/-- A disk with a task for a language that ends with a command for a system. There are rules for
other languages and systems, and one that is found twice. -/
def ruleDisk : Disk where
  entries := [(["w"], .directory 0o755), (["w", ".agents"], .directory 0o755),
    (["w", ".agents", "tasks"], .directory 0o755),
    (["w", ".agents", "tasks", "t.md"],
      .file "---\nselectors:\n  lang: go\n---\nDo it\n/check\n".toUTF8 0o644),
    (["w", ".agents", "commands"], .directory 0o755),
    (["w", ".agents", "commands", "check.md"],
      .file "---\nselectors:\n  os: [linux]\n---\nCheck it\n".toUTF8 0o644),
    (["w", ".agents", "rules"], .directory 0o755),
    (["w", ".agents", "rules", "a.md"],
      .file "---\nlang: go\nos: linux\n---\nMind it\n".toUTF8 0o644),
    (["w", "AGENTS.md"], .file "---\nlang: rust\n---\nMind this, too\n".toUTF8 0o644),
    (["w", "CLAUDE.md"], .link ".agents/rules/a.md"),
    (["w", "GEMINI.md"], .file "---\nos: macos\n---\nMind that, too\n".toUTF8 0o644)]
  current := []

theorem foundAt_place (d : Disk) (i : ℕ) (place : Path)
    (hplace : (Search.locations .standard ⟨"/w", false⟩ .rules)[i]? = some place)
    (hfile : d.isFile place = true) :
    FoundAt d .standard (taskOptions.bases []) .rules (toLex (0, toLex (i, [])))
      (Search.candidateAt ⟨"/w", false⟩ place []) :=
  .intro rfl (Search.placeAt_iff.mpr hplace) (.itself hfile)

theorem ruleSelectors_ruleDisk {document : Document} {agent : Option Agent}
    {blocks : List Task.Block}
    (h : ReadsTask taskOptions (taskOptions.bases []) "t" ruleDisk document agent blocks) :
    ruleSelectors taskOptions (taskOptions.bases []) "t" ruleDisk document blocks
      = Selectors.acceptAll ∅ [("task_name", "t"), ("lang", "go"), ("os", "linux")] := by
  have htask : (Search.named ruleDisk taskOptions.table (taskOptions.bases [])
      (taskSelectors taskOptions "t") .task "t").toOption.join.map
        (fun document => (addedPairs document, (taskBlocks taskOptions document).toOption))
      = some ([("lang", "go")], some [.text ["Do", " ", "it", "\n"], .command ⟨"check", [], none⟩])
    := by decide +kernel
  rw [h.named] at htask
  obtain ⟨hpairs, hblocks⟩ := Prod.mk.inj (Option.some.inj htask)
  rw [h.blocks] at hblocks
  obtain rfl := Option.some.inj hblocks
  have hgiven : mergeAll (taskOptions.selectors.accept "task_name" "t") [document]
      = Selectors.acceptAll ∅ [("task_name", "t"), ("lang", "go")] := by
    rw [mergeAll, List.flatMap_singleton, hpairs]
    rfl
  have hcommand : (commandDocuments taskOptions (taskOptions.bases []) ruleDisk
      (Selectors.acceptAll ∅ [("task_name", "t"), ("lang", "go")])
      [.text ["Do", " ", "it", "\n"], .command ⟨"check", [], none⟩]).flatMap addedPairs
        = [("os", "linux")] := by decide +kernel
  rw [ruleSelectors, hgiven, mergeAll, hcommand]
  rfl

/-- The task keeps one rule out by what it adds to the selectors, and its command another one. Both
pass the given selectors. The rule that is found twice is included where it is found first. -/
theorem assemble_rules_ruleDisk :
    let given := Selectors.acceptAll ∅ [("task_name", "t")]
    let selectors := given.acceptAll [("lang", "go"), ("os", "linux")]
    ∃ a s', (assemble (steadyHost printCommand) taskOptions "t").run ⟨ruleDisk, [], []⟩ = (.ok a, s')
      ∧ AreFound taskOptions (taskOptions.bases []) ⟨selectors, a.agent⟩ ruleDisk a.rules
      ∧ a.rules.map (·.path.text) = ["/w/.agents/rules/a.md"]
      ∧ ∀ place ∈ [Path.mk "/w/AGENTS.md", "/w/GEMINI.md"],
        let c := Search.candidateAt ⟨"/w", false⟩ place []
        (∃ position, FoundAt ruleDisk .standard (taskOptions.bases []) .rules position c)
          ∧ isRule taskOptions ⟨given, a.agent⟩ ruleDisk c = true
          ∧ isRule taskOptions ⟨selectors, a.agent⟩ ruleDisk c = false := by
  intro given selectors
  obtain ⟨a, s', hrun, hfacts⟩ := Activity.exists_of_toOption (show
    ((assemble (steadyHost printCommand) taskOptions "t").run ⟨ruleDisk, [], []⟩).1.toOption.map
      (fun a => (a.agent, a.rules.map (·.path.text))) = some (none, ["/w/.agents/rules/a.md"])
      by decide +kernel)
  obtain ⟨hagent, hpaths⟩ := Prod.mk.inj hfacts
  obtain ⟨roots, s₁, document, blocks, hroots, hread, hfound⟩ := assemble_rules hrun
  obtain ⟨rfl, rfl⟩ := Options.eq_of_searchRoots rfl rfl hroots
  have hselectors : ruleSelectors taskOptions (taskOptions.bases []) "t" ruleDisk document blocks
      = selectors := ruleSelectors_ruleDisk hread
  have haccepts : selectors.accepts "resume" "true" = false := by decide +kernel
  have hareFound : AreFound taskOptions (taskOptions.bases []) ⟨selectors, a.agent⟩ ruleDisk
      a.rules := by
    rw [← hselectors] at haccepts ⊢
    exact hfound (Step.keepFiles_of_forall fun _ _ => rfl) rfl haccepts
  refine ⟨a, s', hrun, hareFound, hpaths, ?_⟩
  rw [hagent, List.forall_mem_cons, List.forall_mem_singleton]
  refine ⟨⟨⟨_, foundAt_place _ 16 "/w/AGENTS.md" ?_ ?_⟩, ?_, ?_⟩,
    ⟨_, foundAt_place _ 11 "/w/GEMINI.md" ?_ ?_⟩, ?_, ?_⟩
  all_goals decide +kernel

end Assembly

end Briefing
