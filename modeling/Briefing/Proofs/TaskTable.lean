import Briefing.CommandLine.Carry
import Briefing.Proofs.Aliases
import Briefing.Proofs.Columns
import Briefing.Proofs.Descriptions
import Briefing.Proofs.Directories

/-!
# The table of tasks

The list of tasks is printed as a table: the headings, a rule and a line for each task, with its
cells below the headings (`IsTaskTable`). Cells are as they are, so it has as many lines more as the
cells have line breaks (`breaks_listing`), and is a table only if they have none
(`isTaskTable_listing_iff`). Line breaks come from the names of files and from descriptions that the
frontmatter gives, but not from those that come from the content (`notMem_describe`). All paths that
are listed end visibly (`endsVisibly_of_listIn`), so nothing of them is lost at the ends of lines.
-/

namespace Briefing

/-! ## Paths and their names -/

namespace Path

variable {p : Path} {c : Char} {name : String}

theorem mem_of_mem_fileName (h : p.fileName? = some name) (hc : c ∈ name.toList) :
    c ∈ p.text.toList := by
  have hlast : p.components.getLast? = some (.name name) := by
    rw [fileName?] at h
    split at h
    · obtain rfl := Option.some.inj h
      assumption
    · cases h
  have hmem := List.mem_of_getLast? hlast
  have happend := Disk.cutStart_append p.text.toList
  rw [components] at hmem
  rcases hcut : cutStart p.text.toList with ⟨start, body⟩
  rw [hcut] at hmem happend
  dsimp only at hmem happend
  rcases List.mem_append.mp hmem with hfirst | hrest
  · split_ifs at hfirst <;> simp at hfirst
  · obtain ⟨segment, hsegment, hname⟩ := List.mem_map.mp hrest
    split_ifs at hname
    obtain rfl := Component.name.inj hname
    rw [String.toList_ofList] at hc
    rw [← happend]
    exact List.mem_append_right _ ((Text.of_mem_splitOn (List.mem_of_mem_filter hsegment)).2 hc)

theorem mem_of_mem_stem (hc : c ∈ p.stem.toList) : c ∈ p.text.toList := by
  rw [stem] at hc
  split at hc
  · rename_i name hname
    refine mem_of_mem_fileName hname ?_
    rw [String.toList_ofList, splitName] at hc
    split_ifs at hc
    · exact hc
    · exact List.mem_reverse.mp (List.mem_of_mem_drop (List.mem_reverse.mp hc))
  · cases hc

theorem exists_segments_concat (text : List Char) (h : c ≠ '/') :
    ∃ before last, segments (text ++ [c]) = before ++ [last ++ [c]] := by
  induction text using Text.cut_induction (c := '/') with
  | last text htext =>
    refine ⟨[], text, List.splitOn_eq_singleton ?_⟩
    simpa [h.symm] using htext
  | cut front rest hfront ih =>
    obtain ⟨before, last, hsegments⟩ := ih
    refine ⟨front :: before, last, ?_⟩
    rw [segments, List.append_assoc, List.cons_append, Text.splitOn_cut hfront, ← segments,
      hsegments]
    rfl

theorem exists_cutStart_concat {text : List Char} (hlast : text.getLast? = some c)
    (hslash : c ≠ '/') (hdot : c ≠ '.') : ∃ body, (cutStart text).2 = body ++ [c] := by
  have happend := Disk.cutStart_append text
  rcases List.eq_nil_or_concat (cutStart text).2 with hnil | ⟨body, last, hbody⟩
  -- the text is nothing but a start, which ends with a slash or a dot
  · rw [hnil, List.append_nil] at happend
    have hstart : text = [] ∨ text = ['/'] ∨ text = ['.'] := by
      rcases Disk.cutStart_cases text with hcut | ⟨_, -, hcut⟩ | ⟨-, hcut⟩ | ⟨_, -, hcut⟩
      all_goals rw [hcut] at happend
      · exact .inl happend.symm
      · exact .inr (.inl happend.symm)
      · exact .inr (.inr happend.symm)
      · exact .inr (.inr happend.symm)
    rcases hstart with rfl | rfl | rfl
    · cases hlast
    · exact absurd (Option.some.inj hlast).symm hslash
    · exact absurd (Option.some.inj hlast).symm hdot
  · rw [hbody, List.concat_eq_append, ← List.append_assoc] at happend
    rw [← happend, List.getLast?_concat] at hlast
    obtain rfl := Option.some.inj hlast
    exact ⟨body, by rw [hbody, List.concat_eq_append]⟩

/-- A path that does not end with a slash or a dot has a file name that ends as the path does. -/
theorem exists_fileName (hlast : p.text.toList.getLast? = some c) (hslash : c ≠ '/')
    (hdot : c ≠ '.') : ∃ name, p.fileName? = some (String.ofList (name ++ [c])) := by
  obtain ⟨body, hbody⟩ := exists_cutStart_concat hlast hslash hdot
  obtain ⟨before, last, hsegments⟩ := exists_segments_concat body hslash
  have hsilent : isSilent (last ++ [c]) = false := by
    rcases last with _ | ⟨_, last⟩ <;> simp [isSilent, hdot]
  have hup : last ++ [c] ≠ ['.', '.'] := by
    intro h
    have hend := congrArg List.getLast? h
    rw [List.getLast?_concat] at hend
    exact hdot (Option.some.inj hend)
  refine ⟨last, ?_⟩
  rcases hcut : cutStart p.text.toList with ⟨start, rest⟩
  rw [hcut] at hbody
  obtain rfl : rest = body ++ [c] := hbody
  rw [fileName?, components, hcut]
  dsimp only
  rw [hsegments, List.filter_append, List.map_append, ← List.append_assoc, List.filter_singleton,
    hsilent]
  simp [hup]

/-- A path that does not end with a slash or a dot ends as its extension does. -/
theorem getLast?_extension (hlast : p.text.toList.getLast? = some c) (hslash : c ≠ '/')
    (hdot : c ≠ '.') {extension : String} (h : p.extension? = some extension) :
    extension.toList.getLast? = some c := by
  obtain ⟨name, hname⟩ := exists_fileName hlast hslash hdot
  rw [extension?, hname, Option.bind_some, String.toList_ofList, splitName] at h
  split_ifs at h
  · cases h
  · obtain rfl := Option.some.inj h
    rw [String.toList_ofList, List.reverse_append, List.reverse_singleton, List.singleton_append,
      List.takeWhile_cons_of_pos (by simpa using hdot), List.reverse_cons, List.getLast?_concat]

end Path

namespace CommandLine

/-- A path with a proper name ends with a letter, a slash or a dot. -/
theorem endsVisibly_of_isMarkdown {p : Path} (h : Search.isMarkdown p = true) :
    EndsVisibly p.text := by
  obtain ⟨extension, hextension, d, hd, hvisible⟩ : ∃ extension,
      p.extension? = some extension ∧ EndsVisibly extension := by
    rw [Search.isMarkdown, Bool.or_eq_true, decide_eq_true_iff, decide_eq_true_iff] at h
    rcases h with h | h
    · exact ⟨_, h, 'd', rfl, by decide⟩
    · exact ⟨_, h, 'c', rfl, by decide⟩
  rcases hlast : p.text.toList.getLast? with _ | c
  · rw [List.getLast?_eq_none_iff, String.toList_eq_nil_iff] at hlast
    obtain rfl : p = ⟨""⟩ := congrArg Path.mk hlast
    cases hextension
  · refine ⟨c, hlast, ?_⟩
    by_cases hslash : c = '/'
    · rw [hslash]
      decide
    by_cases hdot : c = '.'
    · rw [hdot]
      decide
    obtain rfl := Option.some.inj
      (hd.symm.trans (Path.getLast?_extension hlast hslash hdot hextension))
    exact hvisible

/-- What the search takes for tasks ends visibly: it has a proper name, or is in the place of the
tasks. -/
theorem endsVisibly_of_mem_candidates {d : Disk} {bases : List Base} {cs : List Candidate}
    {c : Candidate} (h : Search.candidates d .standard bases .tasks = .ok cs) (hc : c ∈ cs) :
    EndsVisibly c.path.text := by
  obtain ⟨firsts, rfl, -, hfirsts, -⟩ := Search.candidates_ok h
  obtain ⟨⟨position, c⟩, hmem, rfl⟩ := List.mem_map.mp hc
  obtain ⟨@⟨i, j, base, place, names, -, hplace, hholds⟩, -⟩ := (hfirsts position c).mp hmem
  cases hholds with
  | itself =>
    obtain _ | ⟨-, hpath⟩ := hplace
    have hplaces : AgentTable.standard.places .tasks = [Path.mk ".agents/tasks"] := by decide
    have hmem := List.mem_of_getElem? hpath
    rw [hplaces, List.mem_singleton] at hmem
    obtain ⟨front, hfront, -⟩ := Disk.toList_join (p := base.directory)
      (show Path.isAbsolute ".agents/tasks" = false by decide)
    refine ⟨'s', ?_, by decide⟩
    rw [Search.candidateAt, Path.below, List.foldl_nil, hmem, hfront]
    simp
  | below _ _ hm => exact endsVisibly_of_isMarkdown hm

theorem endsVisibly_of_listIn {d : Disk} {bases : List Base} {tasks : List TaskSummary}
    (h : TaskSummary.listIn d .standard bases = .ok tasks) {task : TaskSummary}
    (htask : task ∈ tasks) : EndsVisibly task.path.text := by
  obtain ⟨cs, document, hcs, hload, rfl⟩ := TaskSummary.listIn_ok h
  obtain ⟨c, hc, rfl⟩ := List.mem_map.mp htask
  have hpath : (TaskSummary.ofDocument (document c)).path = c.path := Disk.load_path (hload c hc)
  rw [hpath]
  exact endsVisibly_of_mem_candidates hcs hc

end CommandLine

/-! ## Descriptions from contents -/

namespace TaskSummary

theorem notMem_of_mem_lines {s line : List Char} (h : line ∈ Text.lines s) : '\n' ∉ line := by
  have hparts : ∀ part ∈ s.splitOn '\n', '\n' ∉ part := fun part hpart =>
    (Text.of_mem_splitOn hpart).1
  rw [Text.lines] at h
  dsimp only at h
  obtain ⟨⟨part, ended⟩, hpart, rfl⟩ := List.mem_map.mp h
  have hfront : (part, ended) ∈ (s.splitOn '\n').dropLast.map (·, true) →
      part ∈ s.splitOn '\n' := by
    intro hended
    obtain ⟨_, hdrop, heq⟩ := List.mem_map.mp hended
    obtain ⟨rfl, -⟩ := Prod.mk.inj heq
    exact List.dropLast_subset _ hdrop
  have hmem : part ∈ s.splitOn '\n' := by
    split_ifs at hpart
    · exact hfront hpart
    · rcases List.mem_append.mp hpart with hpart | hpart
      · exact hfront hpart
      · obtain ⟨_, hlast, heq⟩ := Option.map_eq_some_iff.mp (Option.mem_toList.mp hpart)
        obtain ⟨rfl, -⟩ := Prod.mk.inj heq
        exact List.mem_of_getLast? hlast
  dsimp only
  split_ifs
  · exact fun hc => hparts part hmem (List.dropLast_subset _ hc)
  · exact hparts part hmem

theorem trimChars_subset (s : List Char) : Text.trimChars s ⊆ s :=
  List.Subset.trans (Expansion.isPrefix_dropEnd _ _).subset (List.dropWhile_sublist _).subset

theorem outsideFences_subset (inside : Bool) (lines : List (List Char)) :
    outsideFences inside lines ⊆ lines := by
  induction lines generalizing inside with
  | nil => exact List.Subset.refl _
  | cons line lines ih =>
    rw [outsideFences]
    split_ifs
    · exact List.subset_cons_of_subset _ (ih _)
    · exact List.subset_cons_of_subset _ (ih _)
    · exact List.cons_subset_cons _ (ih _)

theorem notMem_intercalate {c : Char} {separator : List Char} {parts : List (List Char)}
    (hseparator : c ∉ separator) (h : ∀ part ∈ parts, c ∉ part) :
    c ∉ separator.intercalate parts := by
  induction parts with
  | nil => simp [List.intercalate]
  | cons part parts ih =>
    obtain ⟨hpart, hparts⟩ := List.forall_mem_cons.mp h
    rcases parts with _ | ⟨next, parts⟩
    · simpa [List.intercalate] using hpart
    · rw [List.intercalate_cons_cons]
      simp [hpart, hseparator, ih hparts]

theorem notMem_opening {lines : List (List Char)} (h : ∀ line ∈ lines, '\n' ∉ line) :
    '\n' ∉ opening lines := by
  have hrest : ∀ line ∈ lines.dropWhile List.isEmpty, '\n' ∉ line := fun line hline =>
    h line ((List.dropWhile_sublist _).subset hline)
  rw [opening]
  split
  · rename_i heading _ hlines
    rw [hlines] at hrest
    have hheading := List.not_mem_of_not_mem_cons (hrest _ List.mem_cons_self)
    exact fun hc => hheading ((List.dropWhile_sublist _).subset (trimChars_subset _ hc))
  · exact notMem_intercalate (by decide) fun line hline =>
      hrest line ((List.takeWhile_sublist _).subset hline)

theorem notMem_preview {text : String} (h : '\n' ∉ text.toList) :
    '\n' ∉ (preview text).toList := by
  rw [preview]
  split_ifs
  · exact h
  · rw [String.toList_append, String.toList_ofList, List.mem_append]
    rintro (hc | hc)
    · exact h (List.mem_of_mem_take hc)
    · exact absurd hc (by decide)

/-- A description that comes from the content is a single line. -/
theorem notMem_describe {d : Document} {text : String}
    (hnone : FrontMatter.string? d.frontMatter "description" = none)
    (h : describe d = some text) : '\n' ∉ text.toList := by
  rw [describe, hnone] at h
  dsimp only at h
  rw [preview?] at h
  split_ifs at h
  obtain rfl := Option.some.inj h
  refine notMem_preview ?_
  rw [String.toList_ofList]
  refine notMem_opening fun line hline => ?_
  obtain ⟨full, hfull, rfl⟩ := List.mem_map.mp (outsideFences_subset _ _ hline)
  exact fun hc => notMem_of_mem_lines hfull (trimChars_subset _ hc)

end TaskSummary

/-! ## The table -/

namespace CommandLine

/-- The cells of a task. -/
def cells (task : TaskSummary) : List String :=
  [task.name, task.description.getD "", task.path.text]

/-- The headings of the table of tasks. -/
def headings : List String := ["NAME", "DESCRIPTION", "PATH"]

/-- Each of the cells is in the line and starts at its column. -/
def HasCells (line : List Char) (row : List String) (columns : List ℕ) : Prop :=
  row.Forall₂ (fun cell column => StandsFrom line cell.toList column) columns

/-- The lines of a text are the headings, a rule, and for each task its cells, which start at the
columns of the headings. -/
def IsTaskTable (tasks : List TaskSummary) (text : String) : Prop :=
  ∃ header rule rows columns, text.toList.splitOn '\n' = header :: rule :: (rows ++ [[]])
    ∧ HasCells header headings columns ∧ (∀ c ∈ rule, c = '-' ∨ c = ' ')
    ∧ tasks.Forall₂ (fun task row => HasCells row (cells task) columns) rows

theorem IsTaskTable.breaks_eq {tasks : List TaskSummary} {text : String}
    (h : IsTaskTable tasks text) : breaks text = tasks.length + 2 := by
  obtain ⟨header, rule, rows, columns, hlines, -, -, hrows⟩ := h
  have hlength := Text.length_splitOn '\n' text.toList
  rw [hlines, List.length_cons, List.length_cons, List.length_append, List.length_singleton,
    ← hrows.length_eq] at hlength
  rw [breaks]
  omega

section Listing

variable {request : Request} {tasks : List TaskSummary} {row : List String}

theorem listing_eq (hjson : request.json = false) (hne : tasks ≠ []) :
    Invocation.listing request tasks
      = String.join ((tableLines headings (tasks.map cells)).map (· ++ "\n")) := by
  rw [Invocation.listing, hjson, if_neg Bool.false_ne_true, if_neg (by simpa using hne)]
  rfl

/-- The headings and the cells of all tasks fit the columns. -/
theorem linesUp_columnWidths (h : ∀ task ∈ tasks, EndsVisibly task.path.text)
    (hrow : row = headings ∨ row ∈ tasks.map cells) :
    LinesUp row (columnWidths headings (tasks.map cells)) := by
  have hlength : ∀ r ∈ tasks.map cells, r.length = headings.length := by
    simp [cells, headings]
  have hfits := fits_columnWidths hlength hrow
  rcases hrow with rfl | hrow
  · exact hfits.linesUp rfl ⟨'H', rfl, by decide⟩
  · obtain ⟨task, htask, rfl⟩ := List.mem_map.mp hrow
    exact hfits.linesUp rfl (h task htask)

theorem hasCells_writeRow {widths : List ℕ} {name description path : String}
    (h : LinesUp [name, description, path] widths) :
    HasCells (writeRow widths [name, description, path]).toList [name, description, path]
      ((List.range 3).map (columnStart widths)) :=
  .cons (standsFrom_writeRow h rfl) (.cons (standsFrom_writeRow h rfl)
    (.cons (standsFrom_writeRow h rfl) .nil))

theorem breaks_headings : (headings.map breaks).sum = 0 := by decide +kernel

theorem breaks_tableLines (h : ∀ task ∈ tasks, EndsVisibly task.path.text) :
    (tableLines headings (tasks.map cells)).map breaks
      = 0 :: 0 :: tasks.map fun task => ((cells task).map breaks).sum := by
  have hrows : ((tasks.map cells).map
      (writeRow (columnWidths headings (tasks.map cells)))).map breaks
        = tasks.map fun task => ((cells task).map breaks).sum := by
    rw [List.map_map, List.map_map]
    refine List.map_congr_left fun task htask => ?_
    rw [Function.comp_apply, Function.comp_apply,
      breaks_writeRow (linesUp_columnWidths h (.inr (List.mem_map_of_mem htask)))]
  rw [tableLines, List.map_cons, List.map_cons, hrows, breaks_writeRule,
    breaks_writeRow (linesUp_columnWidths h (.inl rfl)), breaks_headings]

/-- The list of tasks has two lines more than tasks, and one more for each line break in a cell. -/
theorem breaks_listing (hjson : request.json = false) (hne : tasks ≠ [])
    (h : ∀ task ∈ tasks, EndsVisibly task.path.text) :
    breaks (Invocation.listing request tasks)
      = tasks.length + 2 + (tasks.map fun task => ((cells task).map breaks).sum).sum := by
  rw [listing_eq hjson hne, breaks_join, breaks_tableLines h, tableLines]
  simp

/-- The list of tasks is a table if and only if no cell has a line break. -/
theorem isTaskTable_listing_iff (hjson : request.json = false) (hne : tasks ≠ [])
    (h : ∀ task ∈ tasks, EndsVisibly task.path.text) :
    IsTaskTable tasks (Invocation.listing request tasks) ↔
      ∀ task ∈ tasks, ∀ cell ∈ cells task, breaks cell = 0 := by
  constructor
  -- each line break in a cell is a line too many
  · intro htable task htask cell hcell
    have hbreaks := breaks_listing hjson hne h
    rw [htable.breaks_eq, left_eq_add, List.sum_eq_zero_iff_forall_eq_nat] at hbreaks
    have hcells := hbreaks _ (List.mem_map_of_mem htask)
    rw [List.sum_eq_zero_iff_forall_eq_nat] at hcells
    exact hcells _ (List.mem_map_of_mem hcell)
  · intro hcells
    have hlines : ∀ line ∈ tableLines headings (tasks.map cells), breaks line = 0 := by
      intro line hline
      have hmem : breaks line ∈ _ := List.mem_map_of_mem hline
      rw [breaks_tableLines h, List.mem_cons, List.mem_cons, List.mem_map] at hmem
      rcases hmem with hzero | hzero | ⟨task, htask, hsum⟩
      · exact hzero
      · exact hzero
      · rw [← hsum, List.sum_eq_zero_iff_forall_eq_nat, List.forall_mem_map]
        exact hcells task htask
    have hsplit := splitOn_join hlines
    rw [← listing_eq hjson hne, tableLines, List.map_cons, List.map_cons, List.map_map,
      List.map_map] at hsplit
    refine ⟨_, _, _, _, hsplit, hasCells_writeRow (linesUp_columnWidths h (.inl rfl)),
      fun c hc => eq_of_mem_writeRule hc, ?_⟩
    rw [List.forall₂_map_right_iff, List.forall₂_same]
    exact fun task htask =>
      hasCells_writeRow (linesUp_columnWidths h (.inr (List.mem_map_of_mem htask)))

end Listing

/-! ## Command lines -/

/-- The command line asks for a table, and the search finds the tasks. -/
def Invocation.Finds (inv : Invocation) (tasks : List TaskSummary) : Prop :=
  ∃ request s, readRequest inv.arguments inv.vars = .ok request
    ∧ request.action = .list ∧ request.json = false
    ∧ (TaskSummary.list (inv.host none) (inv.searchOptions request)).run ⟨inv.disk, [], []⟩
      = (.ok tasks, s)

theorem Invocation.carryOut_list {inv : Invocation} {request : Request}
    (hread : readRequest inv.arguments inv.vars = .ok request)
    (haction : request.action = .list) : inv.carryOut = inv.listTasks request := by
  rw [carryOut, hread]
  dsimp only
  rw [haction]

theorem breaks_cells_iff {task : TaskSummary} (hname : task.name = task.path.stem) :
    (∀ cell ∈ cells task, breaks cell = 0) ↔ '\n' ∉ task.path.text.toList
      ∧ ∀ text ∈ task.description, '\n' ∉ text.toList := by
  have hstem : '\n' ∉ task.path.text.toList → '\n' ∉ task.name.toList := by
    rw [hname]
    exact mt Path.mem_of_mem_stem
  simp only [cells, List.forall_mem_cons, breaks_eq_zero, List.not_mem_nil, false_implies,
    implies_true, and_true]
  rcases task.description with _ | text
  · simpa using hstem
  · simp only [Option.getD_some, Option.mem_def, Option.some.injEq, forall_eq']
    tauto

/-- The tasks that are found are listed, with two lines more than tasks and one more for each line
break in a cell. The list is a table, with a line for each task whose cells are below the headings,
if and only if no path and no description has a line break. The tasks are those of documents on the
disk that is searched, and a description that comes from the content of one has no line break. -/
theorem carryOut_taskTable {inv : Invocation} {tasks : List TaskSummary} (h : inv.Finds tasks)
    (hne : tasks ≠ []) :
    inv.carryOut.status = 0
      ∧ breaks inv.carryOut.output
        = tasks.length + 2 + (tasks.map fun task => ((cells task).map breaks).sum).sum
      ∧ (IsTaskTable tasks inv.carryOut.output ↔ ∀ task ∈ tasks, '\n' ∉ task.path.text.toList
        ∧ ∀ text ∈ task.description, '\n' ∉ text.toList)
      ∧ ∃ request roots s, readRequest inv.arguments inv.vars = .ok request
        ∧ ((inv.searchOptions request).searchRoots (inv.host none)).run ⟨inv.disk, [], []⟩
          = (.ok roots, s)
        ∧ ∀ task ∈ tasks, ∃ document, s.disk.load task.path = .ok document
          ∧ task = TaskSummary.ofDocument document
          ∧ (FrontMatter.string? document.frontMatter "description" = none →
            ∀ text ∈ task.description, '\n' ∉ text.toList) := by
  obtain ⟨request, _, hread, haction, hjson, hlist⟩ := h
  obtain ⟨roots, s, hroots, hlistIn⟩ := TaskSummary.exists_listIn_of_list hlist
  have hvisible : ∀ task ∈ tasks, EndsVisibly task.path.text := fun task htask =>
    endsVisibly_of_listIn hlistIn htask
  have hdocument := TaskSummary.exists_document_of_listIn hlistIn
  rw [Invocation.carryOut_list hread haction, Invocation.listTasks, hlist]
  refine ⟨rfl, breaks_listing hjson hne hvisible, ?_, request, roots, s, hread, hroots,
    fun task htask => ?_⟩
  · refine (isTaskTable_listing_iff hjson hne hvisible).trans (forall₂_congr fun task htask => ?_)
    obtain ⟨document, -, rfl⟩ := hdocument task htask
    exact breaks_cells_iff rfl
  · obtain ⟨document, hload, rfl⟩ := hdocument task htask
    exact ⟨document, hload, rfl, fun hnone _ htext => TaskSummary.notMem_describe hnone htext⟩

/-- A command line for the list of tasks, where there is one task with the text. -/
def listInvocation (text : String) : Invocation where
  arguments := ["list"]
  vars := []
  disk :=
    { entries := [(["w"], .directory 0o755), (["w", ".agents"], .directory 0o755),
        (["w", ".agents", "tasks"], .directory 0o755),
        (["w", ".agents", "tasks", "t.md"], .file text.toUTF8 0o644)]
      current := ["w"] }

def listRequest : Request := ⟨.list, none, false, [], none⟩

theorem finds_listInvocation {text : String} {tasks : List TaskSummary}
    (h : ((TaskSummary.list ((listInvocation text).host none)
      ((listInvocation text).searchOptions listRequest)).run
        ⟨(listInvocation text).disk, [], []⟩).1.toOption = some tasks) :
    (listInvocation text).Finds tasks := by
  rcases hrun : (TaskSummary.list ((listInvocation text).host none)
    ((listInvocation text).searchOptions listRequest)).run
      ⟨(listInvocation text).disk, [], []⟩ with ⟨e | found, s⟩
  · rw [hrun] at h
    cases h
  · rw [hrun] at h
    obtain rfl := Option.some.inj h
    exact ⟨listRequest, s, rfl, rfl, rfl, hrun⟩

/-- A paragraph of two lines gives a description of one line. -/
theorem carryOut_taskTable_paragraph : ∃ tasks, (listInvocation "Do\nit\n").Finds tasks
    ∧ tasks = [⟨"t", "/w/.agents/tasks/t.md", some "Do it"⟩]
    ∧ (listInvocation "Do\nit\n").carryOut.status = 0
    ∧ IsTaskTable tasks (listInvocation "Do\nit\n").carryOut.output := by
  have hfinds : (listInvocation "Do\nit\n").Finds
      [⟨"t", "/w/.agents/tasks/t.md", some "Do it"⟩] := finds_listInvocation (by decide +kernel)
  obtain ⟨hstatus, -, htable, -⟩ := carryOut_taskTable hfinds (by simp)
  exact ⟨_, hfinds, rfl, hstatus, htable.mpr (by decide +kernel)⟩

/-- A line break of a description is printed, so there is a line too many, and the path is not below
its heading. -/
theorem carryOut_not_taskTable : ∃ tasks,
    (listInvocation "---\ndescription: \"a\\nb\"\n---\nDo it\n").Finds tasks
      ∧ tasks = [⟨"t", "/w/.agents/tasks/t.md", some "a\nb"⟩]
      ∧ (listInvocation "---\ndescription: \"a\\nb\"\n---\nDo it\n").carryOut.output
        = "NAME  DESCRIPTION  PATH\n----  -----------  ---------------------\n" ++
          "t     a\nb          /w/.agents/tasks/t.md\n"
      ∧ ¬IsTaskTable tasks
        (listInvocation "---\ndescription: \"a\\nb\"\n---\nDo it\n").carryOut.output := by
  have houtput : (listInvocation "---\ndescription: \"a\\nb\"\n---\nDo it\n").carryOut.output
      = "NAME  DESCRIPTION  PATH\n----  -----------  ---------------------\n" ++
        "t     a\nb          /w/.agents/tasks/t.md\n" := by decide +kernel
  refine ⟨_, finds_listInvocation (by decide +kernel), rfl, houtput, fun htable => ?_⟩
  have hbreaks := htable.breaks_eq
  rw [houtput] at hbreaks
  exact absurd hbreaks (by decide +kernel)

end CommandLine

end Briefing
