import Briefing.Assembly
import Briefing.Proofs.Failures
import Briefing.Proofs.Segmentation

/-!
# The parts of a run

A run finds out where to search, for which nothing is executed (`keepsCalls_searchRoots`), and then
puts the prompt together in the directories that it got. It fails before it has read its task, or it
goes on from the blocks of the task (`run_assemble_cases`), and then nothing fails because of the
task itself (`failsOnly_assembleFrom`).
-/

namespace Briefing

namespace Activity

variable {α β : Type}

/-- An activity after which no program was told to run that was not told before. -/
def KeepsCalls (a : Activity α) : Prop := ∀ s, (a.run s).2.calls = s.calls

section KeepsCalls

theorem keepsCalls_pure (x : α) : KeepsCalls (pure x : Activity α) := fun _ => rfl

theorem keepsCalls_onDisk (f : Disk → Except Error α) : KeepsCalls (onDisk f) := fun _ => rfl

theorem keepsCalls_change (f : Disk → Except Error Disk) : KeepsCalls (change f) := by
  intro s
  rw [run, change]
  split <;> rfl

theorem KeepsCalls.bind {a : Activity α} {f : α → Activity β} (h : a.KeepsCalls)
    (hf : ∀ x, (f x).KeepsCalls) : (a >>= f).KeepsCalls := by
  intro s
  have ha := h s
  rw [run_bind]
  rcases hrun : a.run s with ⟨e | x, s'⟩
  · rwa [hrun] at ha
  · rw [hrun] at ha
    exact (hf x s').trans ha

theorem keepsCalls_mapM {f : α → Activity β} (h : ∀ x, (f x).KeepsCalls) :
    ∀ xs : List α, (xs.mapM f).KeepsCalls
  | [] => keepsCalls_pure []
  | x :: xs => by
    rw [List.mapM_cons]
    exact (h x).bind fun _ => (keepsCalls_mapM h xs).bind fun _ => keepsCalls_pure _

end KeepsCalls

end Activity

open Activity

/-! ## Where to search -/

/-- The search roots of a run. -/
def Options.searchRoots (options : Options) (host : Host) : Activity SearchRoots := do
  let listed ← options.listedSources host
  SearchRoots.resolve host (options.sources ++ listed) options.directory

theorem keepsCalls_makeDownloads (host : Host) : (SearchRoots.makeDownloads host).KeepsCalls :=
  (keepsCalls_onDisk _).bind fun _ => (keepsCalls_onDisk _).bind fun _ =>
    (keepsCalls_change _).bind fun _ => keepsCalls_pure _

theorem keepsCalls_rootOf (host : Host) (base downloads : Path) (source : Source × Nat) :
    (SearchRoots.rootOf host base downloads source).KeepsCalls := by
  unfold SearchRoots.rootOf
  split
  · exact keepsCalls_pure _
  · exact KeepsCalls.bind (fun _ => rfl) fun _ => keepsCalls_pure _

theorem keepsCalls_removingOnFailure {α : Type} {downloads : Path} {a : Activity α}
    (h : a.KeepsCalls) : (SearchRoots.removingOnFailure downloads a).KeepsCalls := by
  intro s
  have hs := h s
  rw [run, SearchRoots.removingOnFailure]
  rw [run] at hs
  split
  · rename_i heq
    rwa [heq] at hs
  · rename_i heq
    rwa [heq] at hs

theorem keepsCalls_resolve (host : Host) (sources : List Source) (base : Path) :
    (SearchRoots.resolve host sources base).KeepsCalls := by
  unfold SearchRoots.resolve
  split
  · exact keepsCalls_pure _
  · have hroots (downloads : Path) :=
      keepsCalls_mapM (keepsCalls_rootOf host base downloads) sources.zipIdx
    exact (keepsCalls_makeDownloads host).bind fun downloads =>
      (keepsCalls_removingOnFailure (hroots downloads)).bind fun _ => keepsCalls_pure _

theorem keepsCalls_listedSources (options : Options) (host : Host) :
    (options.listedSources host).KeepsCalls := by
  unfold Options.listedSources
  split
  · exact keepsCalls_pure _
  · split
    · exact keepsCalls_onDisk _
    · exact KeepsCalls.bind (fun _ => rfl) fun _ => keepsCalls_pure _

/-- Nothing is executed to find out where to search. -/
theorem keepsCalls_searchRoots (options : Options) (host : Host) :
    (options.searchRoots host).KeepsCalls :=
  (keepsCalls_listedSources options host).bind fun _ => keepsCalls_resolve host _ _

/-- Without sources nothing is searched but the directories of the run. -/
theorem Options.eq_of_searchRoots {options : Options} {host : Host} {s s₁ : Session}
    {roots : SearchRoots} (hsources : options.sources = []) (hmanifest : options.manifest = none)
    (h : (options.searchRoots host).run s = (.ok roots, s₁)) : roots = ⟨[], none⟩ ∧ s₁ = s := by
  rw [searchRoots, listedSources, hsources, hmanifest] at h
  cases h
  exact ⟨rfl, rfl⟩

namespace Assembly

section Run

variable {host : Host} {options : Options} {name : String} {s s₁ : Session}

theorem assemble_eq : assemble host options name = options.searchRoots host >>= fun roots =>
    (assembleIn host options (options.bases roots.roots) name).finallyChange roots.release := by
  rw [assemble, Options.useBases, Options.searchRoots, bind_assoc]
  rfl

theorem run_assemble_error {e : Error} (h : (options.searchRoots host).run s = (.error e, s₁)) :
    (assemble host options name).run s = (.error e, s₁) := by
  rw [assemble_eq, run_bind, h]

/-- With the search roots at hand, the run puts the prompt together there; then the downloads are
removed. -/
theorem run_assemble {roots : SearchRoots}
    (h : (options.searchRoots host).run s = (.ok roots, s₁)) :
    (assemble host options name).run s =
      let ended := (assembleIn host options (options.bases roots.roots) name).run s₁
      (ended.1, { ended.2 with disk := roots.release ended.2.disk }) := by
  rw [assemble_eq, run_bind, h]
  rfl

end Run

/-! ## What fails behind the reading of the task -/

/-- Errors that tell of the task itself: it is not found, or not just once, or not readable as a
task, or for an agent that is not known. -/
inductive ConcernsTask : Error → Prop
  | notFound (name : String) : ConcernsTask (.taskNotFound name)
  | duplicate (name : String) (first second : Path) :
      ConcernsTask (.duplicate .task name first second)
  | agent (name : String) : ConcernsTask (.unknownAgent name)
  | task (path : Path) (error : Task.ParseError) : ConcernsTask (.badTask path error)

section Fails

variable {d : Disk} {table : AgentTable} {bases : List Base} {kind : Kind} {e : Error}

/-- Errors that tell of a file that is searched or read. -/
inductive ConcernsFile : Error → Prop
  | unreadable (path : Path) (fault : Files.Fault) : ConcernsFile (.unreadable path fault)
  | frontMatter (path : Path) (fault : FrontMatter.Fault) :
      ConcernsFile (.badFrontMatter path fault)
  | walk (fault : Files.WalkFault) : ConcernsFile (.walk fault)

theorem ConcernsFile.not_task (h : ConcernsFile e) : ¬ConcernsTask e := by
  cases h <;> rintro ⟨⟩

theorem load_error {path : Path} (h : d.load path = .error e) : ConcernsFile e := by
  unfold Disk.load at h
  split at h
  · cases h
    exact .unreadable ..
  · split at h
    · cases h
      exact .frontMatter ..
    · cases h

theorem filesAt_error {place : Path} (h : Search.filesAt d place = .error e) : ConcernsFile e := by
  unfold Search.filesAt at h
  split at h
  · cases h
  · split at h
    · split at h
      · cases h
      · cases h
        exact .walk ..
    · cases h

theorem candidates_error (h : Search.candidates d table bases kind = .error e) :
    ConcernsFile e := by
  rcases of_bind_eq_error h with h | ⟨_, -, ⟨⟩⟩
  obtain ⟨base, -, h⟩ := exists_of_mapM_error h
  rcases of_bind_eq_error h with h | ⟨_, -, ⟨⟩⟩
  obtain ⟨place, -, h⟩ := exists_of_mapM_error h
  exact filesAt_error h

theorem pick_error {selectors : Selectors} {lookup : Lookup} {name : String} :
    ∀ {cs : List Candidate} {first : Option Document},
      Search.pick d selectors lookup name first cs = .error e →
        ConcernsFile e ∨ ∃ path path', e = .duplicate lookup name path path'
  | [], first, h => by cases h
  | c :: cs, first, h => by
    rw [Search.pick] at h
    split at h
    · exact pick_error h
    · rcases of_bind_eq_error h with h | ⟨document, -, h⟩
      · exact .inl (load_error h)
      · split at h
        · exact pick_error h
        · split at h
          · cases h
            exact .inr ⟨_, _, rfl⟩
          · exact pick_error h

theorem named_error {selectors : Selectors} {lookup : Lookup} {name : String}
    (h : Search.named d table bases selectors lookup name = .error e) :
    ConcernsFile e ∨ ∃ path path', e = .duplicate lookup name path path' := by
  rcases of_bind_eq_error h with h | ⟨cs, -, h⟩
  · exact .inl (candidates_error h)
  · exact pick_error h

theorem command_error {selectors : Selectors} {name : String}
    (h : Search.named d table bases selectors .command name = .error e) : ¬ConcernsTask e := by
  rcases named_error h with h | ⟨path, path', rfl⟩
  · exact h.not_task
  · rintro ⟨⟩

theorem skills_error {selectors : Selectors}
    (h : Search.skills d table bases selectors = .error e) : ¬ConcernsTask e := by
  unfold Search.skills at h
  obtain ⟨path, -, h⟩ := exists_of_filterMapM_error h
  rcases of_bind_eq_error h with h | ⟨document, -, h⟩
  · exact (load_error h).not_task
  · split at h
    · cases h
    · split at h
      · cases h
      · cases h
        rintro ⟨⟩

theorem taskAgent_error {options : Options} {fm : FrontMatter}
    (h : taskAgent options fm = .error e) : ∃ name, e = .unknownAgent name := by
  unfold taskAgent at h
  split at h
  · cases h
  · split at h
    · cases h
    · exact ⟨_, (Except.error.inj h).symm⟩

theorem taskBlocks_error {options : Options} {document : Document}
    (h : taskBlocks options document = .error e) : ∃ error, e = .badTask document.path error := by
  unfold taskBlocks at h
  split at h
  · cases h
  · exact ⟨_, (Except.error.inj h).symm⟩

end Fails

section FailsOnly

variable (host : Host) (options : Options) (bases : List Base)

theorem failsOnly_expand (params : Params) (base : Path) (content : String) {p : Error → Prop} :
    (Expansion.expand host params base content).FailsOnly p := by
  intro s e he
  obtain ⟨values, s', hrun, -⟩ := Expansion.run_expandAfter host params base "" none
    content.toList s
  rw [Expansion.expand, hrun] at he
  cases he

theorem failsOnly_expandIf (fm : FrontMatter) (params : Params) (content : String)
    {p : Error → Prop} : (expandIf host options fm params content).FailsOnly p :=
  failsOnly_ite (failsOnly_expand host params _ content) (failsOnly_pure content)

theorem failsOnly_resolveBlock (fm : FrontMatter) (selectors : Selectors) (block : Task.Block) :
    (resolveBlock host options bases fm selectors block).FailsOnly (¬ConcernsTask ·) := by
  cases block with
  | text fragments => exact (failsOnly_expandIf host options _ _ _).bind fun _ => failsOnly_pure _
  | command c =>
    refine FailsOnly.bind (failsOnly_onDisk fun _ _ => command_error) fun found => ?_
    rcases found with _ | document
    · rcases c.source with _ | source
      · exact failsOnly_fail (by rintro ⟨⟩)
      · exact (failsOnly_expandIf host options _ _ _).bind fun _ => failsOnly_pure _
    · exact (failsOnly_expandIf host options _ _ _).bind fun _ => failsOnly_pure _

theorem failsOnly_resolveBlocks (fm : FrontMatter) : ∀ (blocks : List Task.Block)
    (selectors : Selectors),
      (resolveBlocks host options bases fm selectors blocks).FailsOnly (¬ConcernsTask ·)
  | [], _ => failsOnly_pure _
  | block :: blocks, selectors =>
    (failsOnly_resolveBlock host options bases fm selectors block).bind fun _ =>
      (failsOnly_resolveBlocks fm blocks _).bind fun _ => failsOnly_pure _

theorem failsOnly_runBootstrap (path : Path) (c : Call) :
    (runBootstrap host path c).FailsOnly (¬ConcernsTask ·) := by
  refine FailsOnly.bind (fun s e he => ?_) fun outcome => ?_
  · cases he
  · exact failsOnly_ite (failsOnly_pure _) (failsOnly_fail (by rintro ⟨⟩))

theorem failsOnly_bootstrap (rule : Document) :
    (bootstrap host options rule).FailsOnly (¬ConcernsTask ·) := by
  unfold bootstrap
  split
  · exact failsOnly_runBootstrap host _ _
  · refine FailsOnly.bind (failsOnly_onDisk (by rintro d e ⟨⟩)) fun _ => failsOnly_ite ?_ ?_
    · refine FailsOnly.bind (failsOnly_change fun d e he => ?_) fun _ =>
        failsOnly_runBootstrap host _ _
      split at he
      · cases he
      · cases he
        rintro ⟨⟩
    · exact failsOnly_pure _

theorem failsOnly_expandRule (rule : CountedDocument) {p : Error → Prop} :
    (expandRule host options rule).FailsOnly p :=
  failsOnly_ite ((failsOnly_expand host _ _ _).bind fun _ => failsOnly_pure _) (failsOnly_pure _)

theorem failsOnly_resolveRule (setting : Setting) (c : Candidate) :
    (resolveRule host options setting c).FailsOnly (¬ConcernsTask ·) := by
  refine failsOnly_ite (failsOnly_pure _) (FailsOnly.bind ?_ fun document => ?_)
  · exact failsOnly_onDisk fun _ _ h => (load_error h).not_task
  · exact failsOnly_ite (failsOnly_pure _) <|
      (failsOnly_bootstrap host options document).bind fun _ =>
        (failsOnly_expandRule host options _).bind fun _ => failsOnly_pure _

theorem failsOnly_resolveRules (setting : Setting) :
    (resolveRules host options bases setting).FailsOnly (¬ConcernsTask ·) :=
  FailsOnly.bind (failsOnly_onDisk fun _ _ h => (candidates_error h).not_task) fun candidates =>
    (failsOnly_mapM (failsOnly_resolveRule host options setting) candidates).bind fun _ =>
      failsOnly_pure _

theorem failsOnly_resolveSkills (setting : Setting) :
    (resolveSkills options bases setting).FailsOnly (¬ConcernsTask ·) :=
  failsOnly_onDisk fun _ _ => skills_error

end FailsOnly

/-! ## The run of a task that is read -/

section Read

variable (host : Host) (options : Options) (bases : List Base) (name : String)

/-- A run from the blocks of its task on. -/
def assembleFrom (document : Document) (agent : Option Agent) (blocks : List Task.Block) :
    Activity Assembly := do
  let selectors := mergeSelectors (taskSelectors options name) document.frontMatter
  let (content, selectors) ← resolveBlocks host options bases document.frontMatter selectors blocks
  let setting : Setting := ⟨selectors, agent⟩
  if resumes options setting then return ⟨agent, [], [], { document with content }⟩
  else
    let rules ← resolveRules host options bases setting
    let skills ← resolveSkills options bases setting
    return ⟨agent, rules, skills, { document with content }⟩

theorem failsOnly_assembleFrom (document : Document) (agent : Option Agent)
    (blocks : List Task.Block) :
    (assembleFrom host options bases name document agent blocks).FailsOnly (¬ConcernsTask ·) := by
  refine (failsOnly_resolveBlocks host options bases _ blocks _).bind fun x => ?_
  refine failsOnly_ite (failsOnly_pure _) ?_
  exact (failsOnly_resolveRules host options bases _).bind fun _ =>
    (failsOnly_resolveSkills options bases _).bind fun _ => failsOnly_pure _

/-- The task with the name is found on a disk and read. -/
structure ReadsTask (d : Disk) (document : Document) (agent : Option Agent)
    (blocks : List Task.Block) : Prop where
  named : Search.named d options.table bases (taskSelectors options name) .task name
    = .ok (some document)
  agent : taskAgent options document.frontMatter = .ok agent
  blocks : taskBlocks options document = .ok blocks

theorem assembleIn_eq : assembleIn host options bases name
    = taskDocument options bases name >>= fun document =>
      Activity.ofExcept (taskAgent options document.frontMatter) >>= fun agent =>
        Activity.ofExcept (taskBlocks options document) >>= fun blocks =>
          assembleFrom host options bases name document agent blocks := by
  simp only [assembleIn, resolveTask, bind_assoc, pure_bind]
  rfl

/-- A run fails at once, or it reads the task and goes on from its blocks. -/
theorem run_assembleIn_cases (s : Session) :
    (∃ e, (assembleIn host options bases name).run s = (.error e, s)
        ∧ ∀ n, e = .taskNotFound n → n = name ∧ Search.named s.disk options.table bases
          (taskSelectors options name) .task name = .ok none)
      ∨ ∃ document agent blocks, ReadsTask options bases name s.disk document agent blocks
        ∧ (assembleIn host options bases name).run s
          = (assembleFrom host options bases name document agent blocks).run s := by
  rw [assembleIn_eq, run_bind, taskDocument, run_onDisk]
  rcases hnamed : Search.named s.disk options.table bases (taskSelectors options name) .task name
    with e | _ | document
  · refine .inl ⟨e, rfl, ?_⟩
    rintro n rfl
    obtain ⟨⟨⟩⟩ | ⟨_, _, ⟨⟩⟩ := named_error hnamed
  · exact .inl ⟨_, rfl, by rintro n ⟨⟩; exact ⟨rfl, rfl⟩⟩
  · dsimp only [bind, Except.bind, pure, Except.pure]
    rcases hagent : taskAgent options document.frontMatter with e | agent
    · refine .inl ⟨e, rfl, ?_⟩
      rintro n rfl
      obtain ⟨_, ⟨⟩⟩ := taskAgent_error hagent
    · rcases hblocks : taskBlocks options document with e | blocks
      · refine .inl ⟨e, rfl, ?_⟩
        rintro n rfl
        obtain ⟨_, ⟨⟩⟩ := taskBlocks_error hblocks
      · exact .inr ⟨document, agent, blocks, ⟨hnamed, hagent, hblocks⟩, rfl⟩

/-- A run fails and nothing was executed, or it reads the task and goes on from its blocks; then the
downloads are removed. -/
theorem run_assemble_cases (s : Session) :
    (∃ e s', (assemble host options name).run s = (.error e, s') ∧ s'.calls = s.calls)
      ∨ ∃ roots s₁ document agent blocks, (options.searchRoots host).run s = (.ok roots, s₁)
        ∧ s₁.calls = s.calls
        ∧ ReadsTask options (options.bases roots.roots) name s₁.disk document agent blocks
        ∧ (assemble host options name).run s =
          let ended := (assembleFrom host options (options.bases roots.roots) name document agent
            blocks).run s₁
          (ended.1, { ended.2 with disk := roots.release ended.2.disk }) := by
  have hcalls := keepsCalls_searchRoots options host s
  rcases hroots : (options.searchRoots host).run s with ⟨e | roots, s₁⟩
  · rw [hroots] at hcalls
    exact .inl ⟨e, s₁, run_assemble_error hroots, hcalls⟩
  · rw [hroots] at hcalls
    rw [run_assemble hroots]
    rcases run_assembleIn_cases host options (options.bases roots.roots) name s₁
      with ⟨e, hrun, -⟩ | ⟨document, agent, blocks, hread, hrun⟩
    · exact .inl ⟨e, { s₁ with disk := roots.release s₁.disk }, by rw [hrun], hcalls⟩
    · exact .inr ⟨roots, s₁, document, agent, blocks, rfl, hcalls, hread, by rw [hrun]⟩

end Read

end Assembly

end Briefing
