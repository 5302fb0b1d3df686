import Briefing.Proofs.Lookup
import Briefing.Proofs.RuleOrder

/-!
# Rules and what the agent reads by itself

An agent is not to be given a rule that it reads by itself. A run tells this by the path by which
the search finds a file first. So no rule is found first at a path that the agent knows, and a file
that is found at such a path is no rule if it is found first at one (`assemble_spares_native`). A
file with a second path, which the agent does not know, becomes a rule if the search finds it there
first (`assemble_repeats_native`).
-/

namespace Briefing.Assembly

open Activity
open Search (Position FoundAt FirstAt)
open Step (AnswersAll afterAll)

section Native

variable {host : Host} {options : Options} {bases : List Base} {name : String}
  {setting : Setting} {s : Session}

/-- The steps for the blocks of a task that is read, and the selectors then in force. -/
def taskSteps (host : Host) (options : Options) (bases : List Base) (name : String)
    (document : Document) (blocks : List Task.Block) (s : Session) : List Step × Selectors :=
  blocksSteps host options bases document.frontMatter s
    (mergeSelectors (taskSelectors options name) document.frontMatter) blocks

theorem disk_taskSteps {document : Document} {blocks : List Task.Block}
    (h : Step.KeepFiles host s (taskSteps host options bases name document blocks s).1) :
    (afterAll host s (taskSteps host options bases name document blocks s).1).disk = s.disk :=
  (blocksSteps_kept h).1

/-- The rules of a run are those of a search behind the blocks of its task, or there are none. -/
theorem rules_of_assembleFrom {document : Document} {agent : Option Agent}
    {blocks : List Task.Block} {a : Assembly}
    (h : ((assembleFrom host options bases name document agent blocks).run s).1 = .ok a) :
    let (steps, selectors) := taskSteps host options bases name document blocks s
    a.agent = agent ∧ (a.rules = []
      ∨ AreRules host options bases ⟨selectors, agent⟩ (afterAll host s steps) a.rules) := by
  obtain ⟨⟨content, selectors⟩, s₂, hblocks, h⟩ := exists_of_bind_ok h
  have hfollows : Step.Follows host s
      (taskSteps host options bases name document blocks s).1
      (·.2 = (taskSteps host options bases name document blocks s).2)
      (.ok (content, selectors), s₂) :=
    hblocks ▸ follows_resolveBlocks document.frontMatter
  generalize taskSteps host options bases name document blocks s = plan at hfollows ⊢
  obtain ⟨steps, selectors'⟩ := plan
  obtain ⟨rfl, rfl⟩ := hfollows.answer
  dsimp only at h ⊢
  split at h
  · cases h
    exact ⟨rfl, .inl rfl⟩
  · obtain ⟨rules, s₃, hrules, h⟩ := exists_of_bind_ok h
    obtain ⟨skills, s₄, -, h⟩ := exists_of_bind_ok h
    cases h
    have hsearched := @follows_resolveRules host options bases (afterAll host s steps)
      ⟨selectors, agent⟩
    rw [hrules] at hsearched
    exact ⟨rfl, .inr hsearched.answer.2⟩

/-- A rule comes of a candidate that the agent does not read by itself. -/
theorem exists_candidate_of_answersAll {plan : Session → Candidate → List Step} :
    ∀ {cs : List Candidate} {answers : List (Option CountedDocument)} {s : Session},
      AnswersAll host plan (fun s => Resolves options setting s.disk) s cs answers →
        ∀ rule, some rule ∈ answers → ∃ c ∈ cs, c.path = rule.path
          ∧ readsItself options setting.agent c.relative = false
  | _, _, _, .nil _, rule, hrule => by cases hrule
  | _, _, _, .cons hc hcs, rule, hrule => by
    rcases List.mem_cons.mp hrule with rfl | hrule
    · cases hc with
      | included hn hload _ _ => exact ⟨_, List.mem_cons_self, (Disk.load_path hload).symm, hn⟩
    · obtain ⟨c, hc, h⟩ := exists_candidate_of_answersAll hcs rule hrule
      exact ⟨c, List.mem_cons_of_mem _ hc, h⟩

/-- A rule is found first at a path that the agent does not know. -/
theorem AreRules.exists_first {rules : List CountedDocument}
    (h : AreRules host options bases setting s rules) :
    ∀ rule ∈ rules, ∃ position first, FirstAt s.disk options.table bases .rules position first
      ∧ first.path = rule.path ∧ readsItself options setting.agent first.relative = false := by
  obtain ⟨cs, answers, hcs, hanswers, rfl⟩ := h
  obtain ⟨firsts, rfl, -, hfirsts, -⟩ := Search.candidates_ok hcs
  intro rule hrule
  obtain ⟨answer, hanswer, rfl⟩ := List.mem_filterMap.mp hrule
  obtain ⟨c, hc, hpath, hnative⟩ := exists_candidate_of_answersAll hanswers rule hanswer
  obtain ⟨⟨position, first⟩, hfirst, rfl⟩ := List.mem_map.mp hc
  exact ⟨position, first, (hfirsts position first).mp hfirst, hpath, hnative⟩

/-- The path by which a search finds the file of a candidate first is one that the agent reads by
itself. -/
def FirstIsNative (options : Options) (bases : List Base) (agent : Option Agent) (d : Disk)
    (c : Candidate) : Prop :=
  ∀ position first, FirstAt d options.table bases .rules position first →
    d.identity first.path = d.identity c.path → readsItself options agent first.relative = true

theorem firstIsNative_of_candidates {agent : Option Agent} {d : Disk} {c : Candidate}
    {cs : List Candidate} (hcs : Search.candidates d options.table bases .rules = .ok cs)
    (h : ∀ first ∈ cs, d.identity first.path = d.identity c.path →
      readsItself options agent first.relative = true) :
    FirstIsNative options bases agent d c := by
  intro position first hfirst
  obtain ⟨firsts, rfl, -, hfirsts, -⟩ := Search.candidates_ok hcs
  exact h first (List.mem_map.mpr ⟨_, (hfirsts position first).mpr hfirst, rfl⟩)

/-- In a run that answers no rule is found first at a path that its agent reads by itself. So a
file that is found at such a path is no rule if it is found first at one. -/
theorem assemble_spares_native {a : Assembly}
    (h : ((assemble host options name).run s).1 = .ok a) :
    ∃ roots s₁ document blocks, (options.searchRoots host).run s = (.ok roots, s₁)
      ∧ ReadsTask options (options.bases roots.roots) name s₁.disk document a.agent blocks
      ∧ let bases := options.bases roots.roots
        let d := (afterAll host s₁ (taskSteps host options bases name document blocks s₁).1).disk
        (∀ rule ∈ a.rules, ∃ position first,
          FirstAt d options.table bases .rules position first ∧ first.path = rule.path
            ∧ readsItself options a.agent first.relative = false)
        ∧ ∀ position c, FoundAt d options.table bases .rules position c →
          readsItself options a.agent c.relative = true →
            FirstIsNative options bases a.agent d c →
              ∀ rule ∈ a.rules, d.identity rule.path ≠ d.identity c.path := by
  rcases run_assemble_cases host options name s with ⟨e, s', hrun, -⟩
    | ⟨roots, s₁, document, agent, blocks, hroots, -, hread, hrun⟩
  · rw [hrun] at h
    cases h
  · rw [hrun] at h
    obtain ⟨rfl, hrules⟩ := rules_of_assembleFrom h
    have hfirst : ∀ rule ∈ a.rules, ∃ position first,
        FirstAt (afterAll host s₁ (taskSteps host options (options.bases roots.roots) name document
          blocks s₁).1).disk options.table (options.bases roots.roots) .rules position first
          ∧ first.path = rule.path ∧ readsItself options a.agent first.relative = false := by
      rcases hrules with hnone | hrules
      · simp [hnone]
      · exact hrules.exists_first
    refine ⟨roots, s₁, document, blocks, hroots, hread, hfirst, ?_⟩
    intro position c _ _ hnative rule hrule hsame
    obtain ⟨position', first, hat, hpath, hforeign⟩ := hfirst rule hrule
    rw [hnative position' first hat (by rw [hpath, hsame])] at hforeign
    cases hforeign

end Native

/-- A disk with a task, a rule for anyone, and a rule that is known by two names. -/
def twoNamesDisk : Disk where
  entries := [(["w"], .directory 0o755), (["w", ".agents"], .directory 0o755),
    (["w", ".agents", "tasks"], .directory 0o755),
    (["w", ".agents", "tasks", "t.md"], .file "Do it\n".toUTF8 0o644),
    (["w", ".agents", "rules"], .directory 0o755),
    (["w", ".agents", "rules", "a.md"], .file "Mind it\n".toUTF8 0o644),
    (["w", "AGENTS.md"], .file "Mind this, too\n".toUTF8 0o644),
    (["w", "CLAUDE.md"], .link "AGENTS.md")]
  current := []

/-- Options with which the prompt is for an agent. -/
def agentOptions (agent : Agent) : Options := { taskOptions with agent := some agent }

theorem candidates_twoNamesDisk :
    Search.candidates twoNamesDisk .standard (taskOptions.bases []) .rules
      = .ok [Search.candidateAt ⟨"/w", false⟩ "/w/.agents/rules" ["a.md"],
        Search.candidateAt ⟨"/w", false⟩ "/w/CLAUDE.md" []] := by
  decide +kernel

theorem rules_twoNamesDisk {agent : Agent} {paths : List String}
    (h : ((assemble (steadyHost printCommand) (agentOptions agent) "t").run
      ⟨twoNamesDisk, [], []⟩).1.toOption.map (fun a => (a.agent, a.rules.map (·.path.text)))
        = some (some agent, paths)) :
    ∃ a, ((assemble (steadyHost printCommand) (agentOptions agent) "t").run
        ⟨twoNamesDisk, [], []⟩).1 = .ok a
      ∧ a.agent = some agent ∧ a.rules.map (·.path.text) = paths := by
  obtain ⟨a, s', hrun, hfacts⟩ := exists_of_toOption h
  exact ⟨a, by rw [hrun], Prod.mk.inj hfacts⟩

/-- A file that is found first at a path of its agent is no rule, by whatever name. -/
theorem assemble_spares_native_claude : ∃ a,
    ((assemble (steadyHost printCommand) (agentOptions .claude) "t").run
        ⟨twoNamesDisk, [], []⟩).1 = .ok a
      ∧ a.rules.map (·.path.text) = ["/w/.agents/rules/a.md"]
      ∧ ∀ rule ∈ a.rules,
        twoNamesDisk.identity rule.path ≠ twoNamesDisk.identity "/w/AGENTS.md" := by
  obtain ⟨a, hrun, hagent, hpaths⟩ := @rules_twoNamesDisk .claude ["/w/.agents/rules/a.md"]
    (by decide +kernel)
  obtain ⟨roots, s₁, document, blocks, hroots, -, -, hspared⟩ := assemble_spares_native hrun
  obtain ⟨rfl, rfl⟩ := Options.eq_of_searchRoots rfl rfl hroots
  dsimp only at hspared
  rw [disk_taskSteps (Step.keepFiles_of_forall fun _ _ => rfl), hagent] at hspared
  have hfirst : FirstIsNative (agentOptions .claude) (taskOptions.bases []) (some .claude)
      twoNamesDisk (Search.candidateAt ⟨"/w", false⟩ "/w/CLAUDE.md" []) :=
    firstIsNative_of_candidates candidates_twoNamesDisk (by decide +kernel)
  have hfound := foundAt_place twoNamesDisk 7 "/w/CLAUDE.md" (by decide +kernel) (by decide +kernel)
  refine ⟨a, hrun, hpaths, fun rule hrule => ?_⟩
  have hidentity : twoNamesDisk.identity "/w/AGENTS.md" = twoNamesDisk.identity "/w/CLAUDE.md" := by
    decide +kernel
  rw [hidentity]
  exact hspared _ _ hfound (by decide +kernel) hfirst rule hrule

/-- A file of the agent becomes a rule if it is found first by a name that the agent does not
know. -/
theorem assemble_repeats_native : ∃ a,
    ((assemble (steadyHost printCommand) (agentOptions .codex) "t").run
        ⟨twoNamesDisk, [], []⟩).1 = .ok a
      ∧ a.agent = some .codex
      ∧ ∃ rule ∈ a.rules, ∃ position c,
        FoundAt twoNamesDisk (agentOptions .codex).table ((agentOptions .codex).bases []) .rules
            position c
          ∧ twoNamesDisk.identity c.path = twoNamesDisk.identity rule.path
          ∧ readsItself (agentOptions .codex) a.agent c.relative = true := by
  obtain ⟨a, hrun, hagent, hpaths⟩ := @rules_twoNamesDisk .codex
    ["/w/.agents/rules/a.md", "/w/CLAUDE.md"] (by decide +kernel)
  obtain ⟨rule, hrule, hpath⟩ : ∃ rule ∈ a.rules, rule.path.text = "/w/CLAUDE.md" :=
    List.mem_map.mp (hpaths ▸ by simp)
  have hpath : rule.path = "/w/CLAUDE.md" := congrArg Path.mk hpath
  have hfound := foundAt_place twoNamesDisk 16 "/w/AGENTS.md" (by decide +kernel) (by decide +kernel)
  refine ⟨a, hrun, hagent, rule, hrule, _, _, hfound, ?_, ?_⟩
  · rw [hpath]
    decide +kernel
  · rw [hagent]
    decide +kernel

end Briefing.Assembly
