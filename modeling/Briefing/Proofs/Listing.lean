import Briefing.Proofs.Lookup
import Briefing.TaskList

/-!
# The list of tasks and the lookup of one

The list of tasks loads every file of a task that the search finds. A run loads only those with the
name it looks for, and stops at the second one that passes the selectors. Where the list can be
made, the two agree (`list_agrees`): the run takes the one entry that has the name and passes, and
fails if there is none or more than one.
-/

namespace Briefing

open Activity

/-! ## Local sources -/

/-- All sources of a run are on this machine, those that the manifest lists, too. -/
def Options.LocalSources (options : Options) (host : Host) (s : Session) : Prop :=
  ∀ listed s₁, (options.listedSources host).run s = (.ok listed, s₁) →
    ∀ source ∈ options.sources ++ listed, Source.isLocal source = true

section Local

variable {host : Host} {options : Options} {s s₁ : Session}

theorem disk_listedSources (host : Host) (options : Options) (s : Session) :
    ((options.listedSources host).run s).2.disk = s.disk := by
  unfold Options.listedSources
  split
  · rfl
  · split
    · rfl
    · rw [run_bind, Activity.run, Host.fetchedText]
      split
      · rename_i heq
        rw [← (Prod.mk.inj heq).2]
        rfl
      · rename_i heq
        rw [← (Prod.mk.inj heq).2]

theorem run_resolve_local {sources : List Source} {base : Path}
    (h : ∀ source ∈ sources, Source.isLocal source = true) (s : Session) :
    (SearchRoots.resolve host sources base).run s
      = (.ok ⟨sources.map (Source.localPath · base), none⟩, s) := by
  rw [SearchRoots.resolve, if_pos (List.all_eq_true.mpr h)]
  rfl

/-- Local sources are searched where they are. -/
theorem Options.LocalSources.run_searchRoots (h : options.LocalSources host s)
    {listed : List Source} (hlisted : (options.listedSources host).run s = (.ok listed, s₁)) :
    (options.searchRoots host).run s = (.ok ⟨(options.sources ++ listed).map
      (Source.localPath · options.directory), none⟩, s₁) := by
  rw [Options.searchRoots, run_bind, hlisted]
  exact run_resolve_local (h listed s₁ hlisted) s₁

theorem Options.LocalSources.disk_searchRoots (h : options.LocalSources host s)
    {roots : SearchRoots} (hroots : (options.searchRoots host).run s = (.ok roots, s₁)) :
    s₁.disk = s.disk := by
  have hdisk := disk_listedSources host options s
  rcases hlisted : (options.listedSources host).run s with ⟨e | listed, s'⟩
  · rw [Options.searchRoots, run_bind, hlisted] at hroots
    cases hroots
  · rw [hlisted] at hdisk
    obtain ⟨-, rfl⟩ := Prod.mk.inj ((h.run_searchRoots hlisted).symm.trans hroots)
    exact hdisk

end Local

namespace Search

/-! ## Picking a document -/

section Pick

variable {d : Disk} {selectors : Selectors} {lookup : Lookup} {name : String}

/-- Whether a file can be loaded and passes the selectors. -/
def passes (d : Disk) (selectors : Selectors) (path : Path) : Bool :=
  (d.load path).toOption.any fun document => selectors.matchesFrontMatter document.frontMatter

/-- The verdict on the documents that have the name and pass. -/
def verdict (lookup : Lookup) (name : String) : List Document → Except Error (Option Document)
  | [] => .ok none
  | [document] => .ok (some document)
  | first :: second :: _ => .error (.duplicate lookup name first.path second.path)

theorem verdict_eq_none_iff {documents : List Document} :
    verdict lookup name documents = .ok none ↔ documents = [] := by
  rcases documents with _ | ⟨first, _ | ⟨second, rest⟩⟩ <;> simp [verdict]

theorem verdict_eq_error_iff {documents : List Document} {e : Error} :
    verdict lookup name documents = .error e ↔ ∃ first second rest,
      documents = first :: second :: rest
        ∧ e = .duplicate lookup name first.path second.path := by
  rcases documents with _ | ⟨first, _ | ⟨second, rest⟩⟩
  · simp [verdict]
  · simp [verdict]
  · simp [verdict, eq_comm]

/-- With all candidates loaded, a lookup goes by those that have the name and pass. -/
theorem pick_eq_verdict {document : Candidate → Document} : ∀ {cs : List Candidate},
    (∀ c ∈ cs, d.load c.path = .ok (document c)) → ∀ first : Option Document,
      pick d selectors lookup name first cs = verdict lookup name (first.toList ++
        (cs.filter fun c => c.path.stem = name && passes d selectors c.path).map document)
  | [], _, none => rfl
  | [], _, some _ => rfl
  | c :: cs, hload, first => by
    obtain ⟨hc, hcs⟩ := List.forall_mem_cons.mp hload
    have ih := pick_eq_verdict hcs
    have hpasses : passes d selectors c.path
        = selectors.matchesFrontMatter (document c).frontMatter := by
      rw [passes, hc]
      rfl
    rw [pick, List.filter_cons, hpasses]
    split
    · rename_i hstem
      rw [if_neg (by simp [hstem]), ih]
    · rename_i hstem
      rw [hc]
      dsimp only [bind, Except.bind]
      cases hmatches : selectors.matchesFrontMatter (document c).frontMatter with
      | false => rw [if_pos (show (!false) = true from rfl), if_neg (by simp), ih]
      | true =>
        rw [if_neg (by simp), if_pos (by simpa using hstem)]
        cases first with
        | none => exact ih (some (document c))
        | some first => rfl

end Pick

end Search

namespace TaskSummary

variable {host : Host} {options : Options} {s s₁ s' : Session} {tasks : List TaskSummary}

/-- The entries of a list that have a name and whose files pass the selectors. -/
def accepted (d : Disk) (selectors : Selectors) (name : String) (tasks : List TaskSummary) :
    List TaskSummary :=
  tasks.filter fun task => task.name = name && Search.passes d selectors task.path

theorem list_eq : list host options = options.searchRoots host >>= fun roots =>
    (Activity.onDisk fun d => listIn d options.table (options.bases roots.roots)).finallyChange
      roots.release := by
  rw [list, Options.useBases, Options.searchRoots, bind_assoc]
  rfl

/-- A list of tasks is that of the tasks on the disk that is searched, below the bases of the
search. -/
theorem exists_listIn_of_list (h : (list host options).run s = (.ok tasks, s')) :
    ∃ roots s₁, (options.searchRoots host).run s = (.ok roots, s₁)
      ∧ listIn s₁.disk options.table (options.bases roots.roots) = .ok tasks := by
  rw [list_eq, run_bind] at h
  rcases hroots : (options.searchRoots host).run s with ⟨e | roots, s₁⟩
  · rw [hroots] at h
    cases h
  · rw [hroots] at h
    exact ⟨roots, s₁, rfl, (Prod.mk.inj h).1⟩

/-- A list that is made is made of the candidates of the search, all of them loaded. -/
theorem listIn_ok {d : Disk} {table : AgentTable} {bases : List Base}
    (h : listIn d table bases = .ok tasks) :
    ∃ cs, ∃ document : Candidate → Document, Search.candidates d table bases .tasks = .ok cs
      ∧ (∀ c ∈ cs, d.load c.path = .ok (document c))
      ∧ tasks = cs.map fun c => ofDocument (document c) := by
  have : Inhabited TaskSummary := ⟨⟨"", "", none⟩⟩
  have : Inhabited Document := ⟨⟨"", ∅, ""⟩⟩
  unfold listIn at h
  rcases hcs : Search.candidates d table bases .tasks with e | cs
  · simp [hcs, bind, Except.bind] at h
  · rw [hcs] at h
    obtain ⟨entry, rfl, hentry⟩ := exists_of_mapM_ok h
    have hloaded : ∀ c ∈ cs, ∃ document,
        d.load c.path = .ok document ∧ ofDocument document = entry c := by
      intro c hc
      have hc := hentry c hc
      rcases hload : d.load c.path with e | document
      · simp [hload] at hc
      · rw [hload] at hc
        exact ⟨document, rfl, Except.ok.inj hc⟩
    choose! document hdocument using hloaded
    exact ⟨cs, document, rfl, fun c hc => (hdocument c hc).1,
      List.map_congr_left fun c hc => (hdocument c hc).2.symm⟩

/-- Where the list is made, a lookup goes by the entries that have the name and pass. -/
theorem named_of_listIn {d : Disk} {table : AgentTable} {bases : List Base}
    (h : listIn d table bases = .ok tasks) (selectors : Selectors) (name : String) :
    ∃ documents : List Document,
      (accepted d selectors name tasks).Forall₂ (fun task document =>
          d.load task.path = .ok document) documents
        ∧ Search.named d table bases selectors .task name
          = Search.verdict .task name documents := by
  obtain ⟨cs, document, hcs, hload, rfl⟩ := listIn_ok h
  have hpath : ∀ c ∈ cs, (ofDocument (document c)).path = c.path := fun c hc =>
    Disk.load_path (hload c hc)
  have hname : ∀ c ∈ cs, (ofDocument (document c)).name = c.path.stem := fun c hc =>
    congrArg Path.stem (hpath c hc)
  refine ⟨(cs.filter fun c => c.path.stem = name && Search.passes d selectors c.path).map document,
    ?_, ?_⟩
  · rw [accepted, List.filter_map, List.forall₂_map_left_iff, List.forall₂_map_right_iff]
    have hfilter : cs.filter ((fun task : TaskSummary =>
          task.name = name && Search.passes d selectors task.path) ∘
            fun c => ofDocument (document c))
        = cs.filter fun c => c.path.stem = name && Search.passes d selectors c.path :=
      List.filter_congr fun c hc => by simp only [Function.comp, hpath c hc, hname c hc]
    rw [hfilter, List.forall₂_same]
    intro c hc
    have hc := List.mem_of_mem_filter hc
    rw [hpath c hc]
    exact hload c hc
  · rw [Search.named, Search.kindOf, hcs]
    exact Search.pick_eq_verdict hload none

end TaskSummary

namespace Assembly

variable {host : Host} {options : Options} {bases : List Base} {name : String} {s s' : Session}

/-- An error that tells of a task that is found twice. -/
def TaskTwice (e : Error) : Prop := ∃ n p q, e = .duplicate .task n p q

/-- A run fails because its task is found twice if and only if the lookup does. -/
theorem taskTwice_iff {e : Error} (he : TaskTwice e) :
    ((assembleIn host options bases name).run s).1 = .error e ↔
      Search.named s.disk options.table bases (taskSelectors options name) .task name
        = .error e := by
  obtain ⟨n, p, q, rfl⟩ := he
  rw [assembleIn_eq, run_bind, taskDocument, run_onDisk]
  rcases Search.named s.disk options.table bases (taskSelectors options name) .task name
    with e | _ | document
  · simp [bind, Except.bind]
  · simp [bind, Except.bind, throw, throwThe, MonadExceptOf.throw]
  · -- behind the lookup nothing fails because of a task that is found twice
    have hrest : (Activity.ofExcept (taskAgent options document.frontMatter) >>= fun agent =>
        Activity.ofExcept (taskBlocks options document) >>= fun blocks =>
          assembleFrom host options bases name document agent blocks).FailsOnly
            (¬TaskTwice ·) := by
      refine (failsOnly_ofExcept fun e h => ?_).bind fun agent =>
        (failsOnly_ofExcept fun e h => ?_).bind fun blocks s e h => ?_
      · obtain ⟨_, rfl⟩ := taskAgent_error h
        rintro ⟨_, _, _, ⟨⟩⟩
      · obtain ⟨_, rfl⟩ := taskBlocks_error h
        rintro ⟨_, _, _, ⟨⟩⟩
      · rintro ⟨_, _, _, rfl⟩
        exact failsOnly_assembleFrom host options bases name _ _ _ s _ h (.duplicate ..)
    simp only [reduceCtorEq, iff_false]
    exact fun h => hrest s _ h ⟨n, p, q, rfl⟩

/-- A run gives the task that it has read, with some content. -/
theorem task_of_assembleFrom {document : Document} {agent : Option Agent}
    {blocks : List Task.Block} {a : Assembly}
    (h : ((assembleFrom host options bases name document agent blocks).run s).1 = .ok a) :
    ∃ content, a.task = { document with content } := by
  obtain ⟨⟨content, selectors⟩, s₁, -, h⟩ := exists_of_bind_ok h
  dsimp only at h
  split at h
  · cases h
    exact ⟨content, rfl⟩
  · obtain ⟨rules, s₂, -, h⟩ := exists_of_bind_ok h
    obtain ⟨skills, s₃, -, h⟩ := exists_of_bind_ok h
    cases h
    exact ⟨content, rfl⟩

theorem task_of_assembleIn {document : Document} {a : Assembly}
    (hdocument : (taskDocument options bases name).run s = (.ok document, s))
    (h : ((assembleIn host options bases name).run s).1 = .ok a) :
    ∃ content, a.task = { document with content } := by
  rw [assembleIn_eq] at h
  obtain ⟨document', s', hrun, h⟩ := exists_of_bind_ok h
  obtain ⟨⟨⟩, rfl⟩ := Prod.mk.inj (hdocument.symm.trans hrun)
  obtain ⟨agent, s₁, -, h⟩ := exists_of_bind_ok h
  obtain ⟨blocks, s₂, -, h⟩ := exists_of_bind_ok h
  exact task_of_assembleFrom h

section Verdict

variable {documents : List Document}
  (h : Search.named s.disk options.table bases (taskSelectors options name) .task name
    = Search.verdict .task name documents)

include h

theorem exists_taskNotFound_iff :
    (∃ n, ((assembleIn host options bases name).run s).1 = .error (.taskNotFound n))
      ↔ documents = [] := by
  simp only [taskNotFound_iff, h, Search.verdict_eq_none_iff]
  exact ⟨fun ⟨_, _, hnone⟩ => hnone, fun hnone => ⟨name, rfl, hnone⟩⟩

theorem exists_taskTwice_iff :
    (∃ e, TaskTwice e ∧ ((assembleIn host options bases name).run s).1 = .error e)
      ↔ 2 ≤ documents.length := by
  constructor
  · rintro ⟨e, he, hrun⟩
    rw [taskTwice_iff he, h, Search.verdict_eq_error_iff] at hrun
    obtain ⟨first, second, rest, rfl, -⟩ := hrun
    simp
  · intro htwo
    obtain ⟨first, second, rest, rfl⟩ : ∃ first second rest,
        documents = first :: second :: rest := by
      rcases documents with _ | ⟨first, _ | ⟨second, rest⟩⟩
      · simp at htwo
      · simp at htwo
      · exact ⟨first, second, rest, rfl⟩
    have htwice : TaskTwice (.duplicate .task name first.path second.path) := ⟨_, _, _, rfl⟩
    exact ⟨_, htwice, (taskTwice_iff htwice).mpr h⟩

end Verdict

/-- The list of tasks and runs agree. A run looks for the entries that have its name and pass the
given selectors, to which the name is added and, if a session goes on, the mark of that. It does not
find its task if there is none, it finds its task twice if there are at least two, and if there is
just one, it takes the file of this entry. -/
theorem list_agrees {tasks : List TaskSummary} (hlocal : options.LocalSources host s)
    (h : (TaskSummary.list host options).run s = (.ok tasks, s')) (name : String) :
    let named := options.selectors.accept "task_name" name
    let selectors := if options.resume then named.accept "resume" "true" else named
    let entries := TaskSummary.accepted s.disk selectors name tasks
    let ended := ((assemble host options name).run s).1
    ((∃ n, ended = .error (.taskNotFound n)) ↔ entries = [])
      ∧ ((∃ e, TaskTwice e ∧ ended = .error e) ↔ 2 ≤ entries.length)
      ∧ ∀ entry, entries = [entry] → ∃ roots s₁ document,
        (options.searchRoots host).run s = (.ok roots, s₁)
          ∧ s.disk.load entry.path = .ok document
          ∧ (taskDocument options (options.bases roots.roots) name).run s₁ = (.ok document, s₁)
          ∧ ∀ a, ended = .ok a → ∃ content, a.task = { document with content } := by
  intro named selectors entries ended
  obtain ⟨roots, s₁, hroots, hlist⟩ := TaskSummary.exists_listIn_of_list h
  have hdisk := hlocal.disk_searchRoots hroots
  have hended : ended = ((assembleIn host options (options.bases roots.roots) name).run s₁).1 := by
    rw [show ended = ((assemble host options name).run s).1 from rfl, run_assemble hroots]
  obtain ⟨documents, hload, hnamed⟩ := TaskSummary.named_of_listIn hlist
    (taskSelectors options name) name
  rw [hdisk] at hload
  change entries.Forall₂ _ _ at hload
  have hlength : entries.length = documents.length := hload.length_eq
  rw [hended, exists_taskNotFound_iff hnamed, exists_taskTwice_iff hnamed, hlength,
    ← List.length_eq_zero_iff, ← List.length_eq_zero_iff, hlength]
  refine ⟨Iff.rfl, Iff.rfl, fun entry hentry => ?_⟩
  obtain ⟨document, hdocument, rfl⟩ : ∃ document, s.disk.load entry.path = .ok document
      ∧ documents = [document] := by
    rw [hentry] at hload
    rcases hload with _ | ⟨hdocument, ⟨⟩⟩
    exact ⟨_, hdocument, rfl⟩
  have hread : (taskDocument options (options.bases roots.roots) name).run s₁
      = (.ok document, s₁) := by
    rw [taskDocument, run_onDisk, hnamed]
    rfl
  exact ⟨roots, s₁, document, hroots, hdocument, hread, fun a => task_of_assembleIn hread⟩

/-- A disk with three tasks of one name: one that is for another name, one for a new session, and one
for a session that goes on. -/
def sessionDisk : Disk where
  entries := [(["w"], .directory 0o755), (["w", ".agents"], .directory 0o755),
    (["w", ".agents", "tasks"], .directory 0o755),
    (["w", ".agents", "tasks", "t.md"], .file "---\ntask_name: u\n---\nDo it\n".toUTF8 0o644),
    (["v"], .directory 0o755), (["v", ".agents"], .directory 0o755),
    (["v", ".agents", "tasks"], .directory 0o755),
    (["v", ".agents", "tasks", "t.md"], .file "---\nresume: false\n---\nStart\n".toUTF8 0o644),
    (["u"], .directory 0o755), (["u", ".agents"], .directory 0o755),
    (["u", ".agents", "tasks"], .directory 0o755),
    (["u", ".agents", "tasks", "t.md"], .file "---\nresume: true\n---\nGo on\n".toUTF8 0o644)]
  current := []

/-- Options with two further directories to search. -/
def sessionOptions (resume : Bool) : Options :=
  { taskOptions with sources := ["/v", "/u"], resume }

/-- No run takes the task for another name. A session that goes on takes the one task that is for
it, and otherwise the name is found twice. -/
theorem list_agrees_sessions : ∃ tasks document,
    (∀ resume, ∃ s', (TaskSummary.list (steadyHost printCommand) (sessionOptions resume)).run
        ⟨sessionDisk, [], []⟩ = (.ok tasks, s'))
      ∧ tasks.map TaskSummary.name = ["t", "t", "t"]
      ∧ sessionDisk.load "/u/.agents/tasks/t.md" = .ok document
      ∧ (∃ a content, ((assemble (steadyHost printCommand) (sessionOptions true) "t").run
          ⟨sessionDisk, [], []⟩).1 = .ok a ∧ a.task = { document with content })
      ∧ ∃ e, TaskTwice e ∧ ((assemble (steadyHost printCommand) (sessionOptions false) "t").run
          ⟨sessionDisk, [], []⟩).1 = .error e := by
  have hlist : ∀ resume, ∃ s', (TaskSummary.list (steadyHost printCommand)
      (sessionOptions resume)).run ⟨sessionDisk, [], []⟩
        = (.ok [⟨"t", "/w/.agents/tasks/t.md", some "Do it"⟩,
          ⟨"t", "/v/.agents/tasks/t.md", some "Start"⟩,
          ⟨"t", "/u/.agents/tasks/t.md", some "Go on"⟩], s') := by
    intro resume
    obtain ⟨tasks, s', hrun, rfl⟩ := exists_of_toOption (show
      ((TaskSummary.list (steadyHost printCommand) (sessionOptions resume)).run
        ⟨sessionDisk, [], []⟩).1.toOption.map id
          = some [⟨"t", "/w/.agents/tasks/t.md", some "Do it"⟩,
            ⟨"t", "/v/.agents/tasks/t.md", some "Start"⟩,
            ⟨"t", "/u/.agents/tasks/t.md", some "Go on"⟩] by cases resume <;> decide +kernel)
    exact ⟨s', hrun⟩
  have hlocal : ∀ resume, (sessionOptions resume).LocalSources (steadyHost printCommand)
      ⟨sessionDisk, [], []⟩ := by
    rintro resume listed s₁ ⟨⟩
    change ∀ source ∈ (["/v", "/u"] : List Source), Source.isLocal source = true
    decide
  obtain ⟨s', hresumed⟩ := hlist true
  obtain ⟨s'', hnew⟩ := hlist false
  obtain ⟨-, -, hone⟩ := list_agrees (hlocal true) hresumed "t"
  obtain ⟨-, htwice, -⟩ := list_agrees (hlocal false) hnew "t"
  obtain ⟨roots, s₁, document, -, hload, -, htask⟩ := hone
    ⟨"t", "/u/.agents/tasks/t.md", some "Go on"⟩ (by decide +kernel)
  obtain ⟨a, _, hrun, -⟩ := exists_of_toOption (show
    ((assemble (steadyHost printCommand) (sessionOptions true) "t").run
      ⟨sessionDisk, [], []⟩).1.toOption.map (fun _ => ()) = some () by decide +kernel)
  have hanswer := congrArg Prod.fst hrun
  obtain ⟨content, hcontent⟩ := htask a hanswer
  exact ⟨_, document, hlist, rfl, hload, ⟨a, content, hanswer, hcontent⟩,
    htwice.mpr (by decide +kernel)⟩

end Assembly

end Briefing
