import Briefing.Proofs.Discovery
import Briefing.Proofs.InlineText
import Briefing.Proofs.Loading
import Briefing.Proofs.Runs

/-!
# What a lookup by name finds

A lookup goes through the candidates of a search, and these are found by position: of the paths to
one file only the first is looked at. So a file that passes the selectors is not missed if the path
by which it is found first has the name, too (`assemble_finds`). If that path has another name, the
file is missed by the name that it has elsewhere (`assemble_misses_link`).
-/

namespace Briefing

namespace Search

variable {d : Disk} {table : AgentTable} {bases : List Base} {kind : Kind} {selectors : Selectors}
  {lookup : Lookup} {name : String}

theorem pick_some_ne_none {first : Document} :
    ∀ {cs : List Candidate}, pick d selectors lookup name (some first) cs ≠ .ok none
  | [] => by simp [pick]
  | c :: cs => by
    rw [pick]
    split
    · exact pick_some_ne_none
    · rcases d.load c.path with e | document
      · rintro ⟨⟩
      · simp only [bind, Except.bind]
        split
        · exact pick_some_ne_none
        · rintro ⟨⟩

/-- Nothing is picked if and only if no candidate that has the name passes the selectors. -/
theorem pick_eq_none_iff {cs : List Candidate} :
    pick d selectors lookup name none cs = .ok none ↔ ∀ c ∈ cs, c.path.stem = name →
      ∃ document, d.load c.path = .ok document
        ∧ selectors.matchesFrontMatter document.frontMatter = false := by
  induction cs with
  | nil => simp [pick]
  | cons c cs ih =>
    rw [List.forall_mem_cons, ← ih, pick]
    split
    · rename_i hstem
      exact ⟨fun h => ⟨fun hname => absurd hname hstem, h⟩, And.right⟩
    · rename_i hstem
      rcases d.load c.path with e | document
      · simp [bind, Except.bind, not_not.mp hstem]
      · simp only [bind, Except.bind, not_not.mp hstem, Except.ok.injEq, exists_eq_left',
          forall_const]
        cases selectors.matchesFrontMatter document.frontMatter with
        | false => simp
        | true => simp [pick_some_ne_none]

/-- A lookup finds nothing if and only if the search ends well and no file that is found first by a
path with the name passes the selectors. -/
theorem named_eq_none_iff : named d table bases selectors lookup name = .ok none ↔
    (∃ cs, candidates d table bases (kindOf lookup) = .ok cs)
      ∧ ∀ position c, FirstAt d table bases (kindOf lookup) position c → c.path.stem = name →
        ∃ document, d.load c.path = .ok document
          ∧ selectors.matchesFrontMatter document.frontMatter = false := by
  rw [named]
  rcases hcs : candidates d table bases (kindOf lookup) with e | cs
  · simp [bind, Except.bind]
  · obtain ⟨firsts, rfl, -, hfirsts, -⟩ := candidates_ok hcs
    simp only [bind, Except.bind, pick_eq_none_iff, List.forall_mem_map, Prod.forall, hfirsts,
      Except.ok.injEq, exists_eq', true_and]

/-- A search finds a file with the name that passes the selectors. -/
structure Offers (d : Disk) (table : AgentTable) (bases : List Base) (selectors : Selectors)
    (kind : Kind) (name : String) (c : Candidate) : Prop where
  found : ∃ position, FoundAt d table bases kind position c
  stem : c.path.stem = name
  passes : ∃ document, d.load c.path = .ok document
    ∧ selectors.matchesFrontMatter document.frontMatter = true

/-- The path by which a search finds the file of a candidate first has the name. -/
def FirstHasName (d : Disk) (table : AgentTable) (bases : List Base) (kind : Kind) (name : String)
    (c : Candidate) : Prop :=
  ∀ position first, FirstAt d table bases kind position first →
    d.identity first.path = d.identity c.path → first.path.stem = name

theorem firstHasName_of_candidates {c : Candidate} {cs : List Candidate}
    (hcs : candidates d table bases kind = .ok cs) (h : ∀ first ∈ cs, first.path.stem = name) :
    FirstHasName d table bases kind name c := by
  intro position first hfirst _
  obtain ⟨firsts, rfl, -, hfirsts, -⟩ := candidates_ok hcs
  exact h first (List.mem_map.mpr ⟨_, (hfirsts position first).mpr hfirst, rfl⟩)

/-- A file that passes the selectors is not missed if it is found first by a path with the name. -/
theorem named_ne_none {c : Candidate} (h : Offers d table bases selectors (kindOf lookup) name c)
    (hfirst : FirstHasName d table bases (kindOf lookup) name c) :
    named d table bases selectors lookup name ≠ .ok none := by
  intro hnone
  obtain ⟨⟨cs, hcs⟩, hmissed⟩ := named_eq_none_iff.mp hnone
  obtain ⟨firsts, -, -, hfirsts, hall⟩ := candidates_ok hcs
  obtain ⟨position, hfound⟩ := h.found
  obtain ⟨⟨position', first⟩, hmem, hsame⟩ := hall position c hfound
  have hat := (hfirsts position' first).mp hmem
  obtain ⟨document', hload', hfails⟩ := hmissed position' first hat (hfirst _ _ hat hsame)
  obtain ⟨document, hload, hpasses⟩ := h.passes
  obtain rfl := Disk.load_of_identity hload hload' hsame.symm
  exact absurd hpasses (by simpa using hfails)

end Search

namespace Assembly

open Activity
open Search (Offers FirstHasName)

section Found

variable {host : Host} {options : Options} {bases : List Base} {name : String} {s s₁ : Session}

/-- A run reports its task missing if and only if the lookup finds nothing. -/
theorem taskNotFound_iff {n : String} :
    ((assembleIn host options bases name).run s).1 = .error (.taskNotFound n) ↔
      n = name ∧ Search.named s.disk options.table bases (taskSelectors options name) .task name
        = .ok none := by
  constructor
  · intro h
    rcases run_assembleIn_cases host options bases name s with ⟨e, hrun, hnone⟩
      | ⟨document, agent, blocks, -, hrun⟩
    · rw [hrun] at h
      exact hnone n (Except.error.inj h)
    · rw [hrun] at h
      exact absurd (.notFound n) (failsOnly_assembleFrom host options bases name _ _ _ s _ h)
  · rintro ⟨rfl, h⟩
    rw [assembleIn, resolveTask, bind_assoc, run_bind, taskDocument, run_onDisk, h]
    rfl

theorem commandDocument_of_notFound {fm : FrontMatter} {selectors : Selectors}
    {command : Task.Command} {n : String}
    (h : ((resolveBlock host options bases fm selectors (.command command)).run s).1
      = .error (.commandNotFound n)) :
    ((commandDocument options bases selectors command.name).run s).1 = .ok none := by
  rw [resolveBlock, run_bind] at h
  rw [commandDocument, run_onDisk] at h ⊢
  rcases hfound : Search.named s.disk options.table bases selectors .command command.name
    with e | _ | document
  · rw [hfound] at h
    obtain rfl := Except.error.inj h
    obtain ⟨⟨⟩⟩ | ⟨_, _, ⟨⟩⟩ := named_error hfound
  · rfl
  · rw [hfound] at h
    have hexpand := failsOnly_expandIf host options document.frontMatter
      (Params.overlay options.params command.params) document.content (p := fun _ => False)
    exact (hexpand.bind (fun _ => failsOnly_pure _) s _ h).elim

/-- A task that the search offers is not reported missing, if the path by which its file is found
first has the name, too; and in the same way for the file of a command. -/
theorem assemble_finds {roots : SearchRoots}
    (hroots : (options.searchRoots host).run s = (.ok roots, s₁)) :
    (∀ c, Offers s₁.disk options.table (options.bases roots.roots) (taskSelectors options name)
          .tasks name c →
        FirstHasName s₁.disk options.table (options.bases roots.roots) .tasks name c →
        ∀ n, ((assemble host options name).run s).1 ≠ .error (.taskNotFound n))
      ∧ ∀ (s₂ : Session) (fm : FrontMatter) (selectors : Selectors) (command : Task.Command) (c),
        Offers s₂.disk options.table (options.bases roots.roots) selectors .commands
          command.name c →
        FirstHasName s₂.disk options.table (options.bases roots.roots) .commands command.name c →
        ((commandDocument options (options.bases roots.roots) selectors command.name).run s₂).1
            ≠ .ok none
          ∧ ∀ n, ((resolveBlock host options (options.bases roots.roots) fm selectors
              (.command command)).run s₂).1 ≠ .error (.commandNotFound n) := by
  refine ⟨fun c h hfirst n hrun => ?_, fun s₂ fm selectors command c h hfirst => ?_⟩
  · rw [run_assemble hroots] at hrun
    exact @Search.named_ne_none _ _ _ _ .task _ _ h hfirst (taskNotFound_iff.mp hrun).2
  · have hfound : ((commandDocument options (options.bases roots.roots) selectors
        command.name).run s₂).1 ≠ .ok none := @Search.named_ne_none _ _ _ _ .command _ _ h hfirst
    exact ⟨hfound, fun n hrun => hfound (commandDocument_of_notFound hrun)⟩

end Found

/-- Bytes can be compared in more than one way; entries are by this one. -/
local instance bytesDecidable : DecidableEq ByteArray := ByteArray.instDecidableEq

deriving instance DecidableEq for Entry, Candidate

/-- A disk with a task `a`, a link `b` to it, and a command `go`. -/
def linkDisk : Disk where
  entries := [(["w"], .directory 0o755), (["w", ".agents"], .directory 0o755),
    (["w", ".agents", "tasks"], .directory 0o755),
    (["w", ".agents", "tasks", "a.md"], .file "Do it\n".toUTF8 0o644),
    (["w", ".agents", "tasks", "b.md"], .link "a.md"),
    (["w", ".agents", "commands"], .directory 0o755),
    (["w", ".agents", "commands", "go.md"], .file "Go on\n".toUTF8 0o644)]
  current := []

theorem offers_linkDisk {selectors : Selectors} {kind : Kind} {place : Path} (file name : String)
    {location target : Location} {contents : ByteArray}
    (hplace : (Search.locations .standard ⟨"/w", false⟩ kind)[0]? = some place)
    (hfind : linkDisk.find place = .ok (location, .directory 0o755))
    (hfile : file ∈ linkDisk.namesIn location)
    (hleads : Files.leadsTo linkDisk location place file = .ok (target, .file contents 0o644))
    (hname : Search.isMarkdown (place.join file) = true ∧ (place.join file).stem = name)
    (hload : ((linkDisk.load (place.join file)).toOption.any fun document =>
      selectors.matchesFrontMatter document.frontMatter) = true) :
    Offers linkDisk .standard (taskOptions.bases []) selectors kind name
      (Search.candidateAt ⟨"/w", false⟩ place [file]) := by
  have hbase : (taskOptions.bases [])[0]? = some ⟨"/w", false⟩ := rfl
  refine ⟨⟨_, .intro hbase (Search.placeAt_iff.mpr hplace)
    (.below hfind (.file hfile hleads) hname.1)⟩, hname.2, ?_⟩
  obtain ⟨document, hdocument, hpasses⟩ := (Option.any_eq_true _ _).mp hload
  refine ⟨document, ?_, hpasses⟩
  change linkDisk.load (place.join file) = _
  rcases hload : linkDisk.load (place.join file) with e | document'
  · simp [hload, Except.toOption] at hdocument
  · simpa [hload, Except.toOption] using hdocument

theorem namesIn_linkDisk : linkDisk.namesIn ["w", ".agents", "tasks"] = ["a.md", "b.md"] := by
  rw [Disk.namesIn]
  exact List.mergeSort_of_pairwise (by decide +kernel)

theorem candidates_linkDisk :
    Search.candidates linkDisk taskOptions.table (taskOptions.bases []) .tasks
      = .ok [Search.candidateAt ⟨"/w", false⟩ "/w/.agents/tasks" ["a.md"]] := by
  have hplaces : Search.locations taskOptions.table ⟨"/w", false⟩ .tasks
      = [Path.mk "/w/.agents/tasks"] := by decide +kernel
  have hcanonical : linkDisk.canonical? "/w/.agents/tasks" = some ["w", ".agents", "tasks"] := by
    decide +kernel
  have hwalk : Files.walk linkDisk "/w/.agents/tasks"
      = .ok ["/w/.agents/tasks/a.md", "/w/.agents/tasks/b.md"] := by
    rw [Files.walk, hcanonical]
    change Files.walkIn linkDisk (63 + 1) [⟨["w", ".agents", "tasks"], "/w/.agents/tasks"⟩] = _
    rw [Files.walkIn_succ, namesIn_linkDisk]
    decide +kernel
  have hfiles : Search.filesAt linkDisk "/w/.agents/tasks"
      = .ok ["/w/.agents/tasks/a.md", "/w/.agents/tasks/b.md"] := by
    rw [Search.filesAt, if_neg (by decide +kernel), if_pos (by decide +kernel), hwalk]
    decide +kernel
  have hbelow : Search.below linkDisk taskOptions.table .tasks ⟨"/w", false⟩
      = .ok [Search.candidateAt ⟨"/w", false⟩ "/w/.agents/tasks" ["a.md"],
        Search.candidateAt ⟨"/w", false⟩ "/w/.agents/tasks" ["b.md"]] := by
    rw [Search.below, hplaces, List.mapM_cons, hfiles]
    rfl
  have hdistinct : Search.distinctFiles linkDisk Candidate.path []
      [Search.candidateAt ⟨"/w", false⟩ "/w/.agents/tasks" ["a.md"],
        Search.candidateAt ⟨"/w", false⟩ "/w/.agents/tasks" ["b.md"]]
      = [Search.candidateAt ⟨"/w", false⟩ "/w/.agents/tasks" ["a.md"]] := by decide +kernel
  change (do
    let found ← [Base.mk "/w" false].mapM (Search.below linkDisk taskOptions.table .tasks)
    return Search.distinctFiles linkDisk Candidate.path [] found.flatten) = _
  rw [List.mapM_cons, hbelow]
  exact congrArg Except.ok hdistinct

theorem candidates_linkDisk_commands :
    Search.candidates linkDisk taskOptions.table (taskOptions.bases []) .commands
      = .ok [Search.candidateAt ⟨"/w", false⟩ "/w/.agents/commands" ["go.md"]] := by
  decide +kernel

/-- A task and a command are found that have one path, or whose first path has the name. -/
theorem assemble_finds_linkDisk :
    (∀ n, ((assemble (steadyHost printCommand) taskOptions "a").run ⟨linkDisk, [], []⟩).1
        ≠ .error (.taskNotFound n))
      ∧ ((commandDocument taskOptions (taskOptions.bases []) ∅ "go").run ⟨linkDisk, [], []⟩).1
        ≠ .ok none := by
  obtain ⟨htask, hcommand⟩ := @assemble_finds (steadyHost printCommand) taskOptions "a"
    ⟨linkDisk, [], []⟩ ⟨linkDisk, [], []⟩ ⟨[], none⟩ rfl
  have ha : Offers linkDisk .standard (taskOptions.bases []) (taskSelectors taskOptions "a") .tasks
      "a" (Search.candidateAt ⟨"/w", false⟩ "/w/.agents/tasks" ["a.md"]) :=
    @offers_linkDisk _ _ _ "a.md" "a" ["w", ".agents", "tasks"] ["w", ".agents", "tasks", "a.md"]
      "Do it\n".toUTF8 (by decide +kernel) (by decide +kernel) (by simp [namesIn_linkDisk])
      (by decide +kernel) (by decide +kernel) (by decide +kernel)
  have hgo : Offers linkDisk .standard (taskOptions.bases []) ∅ .commands
      "go" (Search.candidateAt ⟨"/w", false⟩ "/w/.agents/commands" ["go.md"]) :=
    @offers_linkDisk _ _ _ "go.md" "go" ["w", ".agents", "commands"]
      ["w", ".agents", "commands", "go.md"] "Go on\n".toUTF8 (by decide +kernel)
      (by decide +kernel) (by decide +kernel) (by decide +kernel) (by decide +kernel)
      (by decide +kernel)
  have ha' := @Search.firstHasName_of_candidates _ _ _ _ "a"
    (Search.candidateAt ⟨"/w", false⟩ "/w/.agents/tasks" ["a.md"]) _ candidates_linkDisk
    (by decide +kernel)
  have hgo' := @Search.firstHasName_of_candidates _ _ _ _ "go"
    (Search.candidateAt ⟨"/w", false⟩ "/w/.agents/commands" ["go.md"]) _
    candidates_linkDisk_commands (by decide +kernel)
  exact ⟨htask _ ha ha', (hcommand ⟨linkDisk, [], []⟩ ∅ ∅ ⟨"go", [], none⟩ _ hgo hgo').1⟩

/-- The link is not found by its name: its file is found first by another one. -/
theorem assemble_misses_link :
    (∃ c, Offers linkDisk taskOptions.table (taskOptions.bases []) (taskSelectors taskOptions "b")
        .tasks "b" c)
      ∧ ((assemble (steadyHost printCommand) taskOptions "b").run ⟨linkDisk, [], []⟩).1
        = .error (.taskNotFound "b") := by
  refine ⟨⟨_, @offers_linkDisk _ _ "/w/.agents/tasks" "b.md" "b" ["w", ".agents", "tasks"]
    ["w", ".agents", "tasks", "a.md"] "Do it\n".toUTF8 ?_ ?_ ?_ ?_ ?_ ?_⟩, ?_⟩
  · decide +kernel
  · decide +kernel
  · simp [namesIn_linkDisk]
  · decide +kernel
  · decide +kernel
  · decide +kernel
  · have hnamed : Search.named linkDisk taskOptions.table (taskOptions.bases [])
        (taskSelectors taskOptions "b") .task "b" = .ok none := by
      rw [Search.named, Search.kindOf, candidates_linkDisk]
      exact eq_ok_none (by decide +kernel)
    rw [@run_assemble _ taskOptions _ _ ⟨linkDisk, [], []⟩ ⟨[], none⟩ rfl]
    exact taskNotFound_iff.mpr ⟨rfl, hnamed⟩

end Assembly

end Briefing
