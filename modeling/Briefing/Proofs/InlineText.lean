import Briefing.Assembly
import Briefing.Proofs.Parts

/-!
# Commands that are kept as text

A command within a line that has no file is kept as text, and the text of a task without other
commands is kept as a whole (`join_kept`). But its blocks are expanded one by one. So the task comes
to the expansion of its text exactly if the blocks together have the parts that the text has
(`resolveTask_kept`). They have if no placeholder goes from one block into the next, since a block
ends with a line break or else with a gap and before a slash (`toBlocks_isCut`).
-/

namespace Briefing

namespace Task

/-- The text that a block is kept as. -/
def Block.kept : Block → String
  | .text fragments => Block.content fragments
  | .command c => c.source.getD ""

/-- The parts of what a block comes to that is kept as text. -/
def Block.parts (base : Path) (d : Disk) (block : Block) : List Expansion.Part :=
  Expansion.parts base d block.kept

theorem kept_of_isSpan {blocks : List Block} {spans : List String}
    (h : blocks.Forall₂ Block.IsSpan spans) (hi : ∀ c, .command c ∈ blocks → c.source ≠ none) :
    blocks.map Block.kept = spans := by
  induction h with
  | nil => rfl
  | cons hb _ ih =>
    have hrest := ih fun c hc => hi c (List.mem_cons_of_mem _ hc)
    rw [List.map_cons, hrest]
    cases hb with
    | text _ _ => rfl
    | inline _ => rfl
    | opening _ _ _ _ => exact absurd rfl (hi _ List.mem_cons_self)

/-- The text of a task in which no command opens its line is that of its blocks. -/
theorem join_kept {text : String} {script : Script} (h : parse text = .ok script)
    (hi : ∀ c, .command c ∈ script.blocks → c.source ≠ none) :
    String.join (script.blocks.map Block.kept) = text := by
  obtain ⟨spans, hjoin, hspans⟩ := exists_spans h
  rw [kept_of_isSpan hspans hi, hjoin]

theorem ItemsText.eq_nil {afterBlank : Bool} {items : List Item}
    (h : ItemsText afterBlank items []) : items = [] := by
  generalize ht : ([] : List Char) = text at h
  cases h with
  | nil => rfl
  | fragment hne _ _ => exact absurd (List.append_eq_nil_iff.mp ht.symm).1 hne
  | opening hc _ | inline hc _ _ =>
    cases hc
    simp at ht

theorem toBlocks_fragment (t : String) (items : List Item) :
    ∃ fragments blocks,
      Item.toBlocks (.fragment t :: items) = .text (t :: fragments) :: blocks := by
  rw [Item.toBlocks]
  split
  · exact ⟨_, _, rfl⟩
  · exact ⟨[], _, rfl⟩

theorem command_mem_toBlocks {c : Command} {items : List Item} (h : .command c ∈ items) :
    Block.command c ∈ Item.toBlocks items := by
  induction items with
  | nil => simp at h
  | cons item items ih =>
    cases item with
    | command c' =>
      rw [Item.toBlocks]
      rcases List.mem_cons.mp h with h | h
      · obtain rfl : c = c' := by simpa using h
        exact List.mem_cons_self
      · exact List.mem_cons_of_mem _ (ih h)
    | fragment t =>
      have hc := ih (by simpa using h)
      rw [Item.toBlocks]
      split
      · rename_i hb
        rw [hb] at hc
        exact List.mem_cons_of_mem _ (by simpa using hc)
      · exact List.mem_cons_of_mem _ hc

open Expansion (IsCut)

/-- A task text is cut between blocks behind a break, or behind a gap and before a slash. -/
theorem toBlocks_isCut {afterBlank : Bool} {items : List Item} {text : List Char}
    (h : ItemsText afterBlank items text) (hi : ∀ c, .command c ∈ items → c.source ≠ none) :
    ((Item.toBlocks items).map fun b => b.kept.toList).IsChain IsCut := by
  induction h with
  | nil => exact .nil
  | opening _ _ _ => exact absurd rfl (hi _ List.mem_cons_self)
  | @inline span rest name args items hc hend h ih =>
    rw [Item.toBlocks, List.map_cons]
    refine List.isChain_cons.mpr
      ⟨fun y hy => .inl ?_, ih fun c hc => hi c (List.mem_cons_of_mem _ hc)⟩
    rcases hend with rfl | hend
    · rw [h.eq_nil] at hy
      simp [Item.toBlocks] at hy
    · simpa [Block.kept] using hend
  | @fragment _ blank t rest items ht hb h ih =>
    have hrest := ih fun c hc => hi c (List.mem_cons_of_mem _ hc)
    rw [Item.toBlocks]
    split
    · rename_i fragments blocks hblocks
      rw [hblocks, List.map_cons, List.isChain_cons] at hrest
      refine List.isChain_cons.mpr ⟨fun y hy => ?_, hrest.2⟩
      have hcut := (hrest.1 y hy).append_left t
      simpa [Block.kept, Block.content, String.join_cons] using hcut
    · rename_i hblocks
      refine List.isChain_cons.mpr ⟨fun y hy => ?_, hrest⟩
      cases h with
      | nil => simp [Item.toBlocks] at hy
      | fragment _ _ _ =>
        obtain ⟨fragments, blocks, hb⟩ := toBlocks_fragment _ _
        exact absurd hb (hblocks _ _)
      | opening _ _ => exact absurd rfl (hi _ (List.mem_cons_of_mem _ List.mem_cons_self))
      | inline hc _ _ =>
        refine .inr ⟨?_, ?_⟩
        · simpa [Block.kept, Block.content] using hb rfl
        · obtain rfl : _ = y := by simpa [Item.toBlocks] using hy
          cases hc
          simp [Block.kept]

end Task

namespace Assembly

open Expansion (Part Segment calls_append fillAll_append fillAll_chars parts run_expand_parts
  segments segments_cuts)
open Expansion.Part (fillAll)
open Briefing.Task (map_eq_ok)

/-- The text of a task's document, the user's prompt included. -/
def taskText (options : Options) (document : Document) : String :=
  withPrompt document.content options.prompt

/-- A task is found and read, no command opens a line of it, and none has a file. -/
structure KeepsCommands (d : Disk) (options : Options) (bases : List Base) (name : String)
    (document : Document) (blocks : List Task.Block) : Prop where
  found : Search.named d options.table bases (taskSelectors options name) .task name
    = .ok (some document)
  agent : ∃ agent, taskAgent options document.frontMatter = .ok agent
  read : taskBlocks options document = .ok blocks
  inline : ∀ c, .command c ∈ blocks → c.source ≠ none
  missing : ∀ c, .command c ∈ blocks → Search.named d options.table bases
    (mergeSelectors (taskSelectors options name) document.frontMatter) .command c.name = .ok none

/-- A task comes to the expansion of its whole text, with the calls of that and no others. -/
def ComesToExpansion (host : Host) (options : Options) (bases : List Base) (name : String)
    (document : Document) (s : Session) : Prop :=
  ∃ content s' setting,
    (Expansion.expand host options.params options.directory (taskText options document)).run s
        = (.ok content, s')
      ∧ (resolveTask host options bases name).run s = (.ok ({ document with content }, setting), s')

section Kept

variable {host : Host} {options : Options} {bases : List Base} {fm : FrontMatter}
  {selectors : Selectors} {d : Disk} {answer : Call → Outcome}

/-- A block is text, or a command within a line that has no file. -/
def IsKept (d : Disk) (options : Options) (bases : List Base) (selectors : Selectors)
    (block : Task.Block) : Prop :=
  ∀ c, block = .command c → c.source ≠ none
    ∧ Search.named d options.table bases selectors .command c.name = .ok none

theorem run_resolveBlock_kept {block : Task.Block} {s : Session}
    (h : IsKept s.disk options bases selectors block) :
    (resolveBlock host options bases fm selectors block).run s
      = (expandIf host options fm options.params block.kept >>= fun text =>
          pure (text, selectors)).run s := by
  cases block with
  | text fragments => rfl
  | command c =>
    obtain ⟨hsource, hnone⟩ := h c rfl
    obtain ⟨source, hs⟩ := Option.ne_none_iff_exists'.mp hsource
    simp [resolveBlock, commandDocument, hnone, hs, Task.Block.kept]

theorem run_resolveBlocks_cons {block : Task.Block} {blocks : List Task.Block} {text texts : String}
    {selectors₁ selectors₂ : Selectors} {s s₁ s₂ : Session}
    (h : (resolveBlock host options bases fm selectors block).run s = (.ok (text, selectors₁), s₁))
    (hs : (resolveBlocks host options bases fm selectors₁ blocks).run s₁
      = (.ok (texts, selectors₂), s₂)) :
    (resolveBlocks host options bases fm selectors (block :: blocks)).run s
      = (.ok (text ++ texts, selectors₂), s₂) := by
  rw [resolveBlocks, Activity.run_bind, h]
  dsimp only
  rw [Activity.run_bind, hs]
  rfl

theorem run_resolveBlocks_off (host : Host) (hfm : FrontMatter.expands fm = false) :
    ∀ {blocks : List Task.Block} {s : Session},
      (∀ block ∈ blocks, IsKept s.disk options bases selectors block) →
      (resolveBlocks host options bases fm selectors blocks).run s
        = (.ok (String.join (blocks.map Task.Block.kept), selectors), s)
  | [], _, _ => rfl
  | block :: blocks, s, h => by
    obtain ⟨hb, hbs⟩ := List.forall_mem_cons.mp h
    rw [List.map_cons, String.join_cons]
    refine run_resolveBlocks_cons ?_ (run_resolveBlocks_off host hfm hbs)
    simp [run_resolveBlock_kept hb, expandIf, hfm]

/-- With expansion blocks that are kept come to the parts of each, filled in. -/
theorem run_resolveBlocks_on (hfm : FrontMatter.expands fm = true) (hs : host.IsSteady answer) :
    ∀ {blocks : List Task.Block} {s : Session},
      (∀ block ∈ blocks, IsKept s.disk options bases selectors block) →
      (resolveBlocks host options bases fm selectors blocks).run s
        = (.ok (fillAll answer options.params options.directory
              (blocks.flatMap (Task.Block.parts options.directory s.disk)), selectors),
            { s with
              calls := s.calls ++ Part.calls options.directory
                (blocks.flatMap (Task.Block.parts options.directory s.disk)) })
  | [], s, _ => by
    simp [resolveBlocks, fillAll, Part.calls]
  | block :: blocks, s, h => by
    obtain ⟨hb, hbs⟩ := List.forall_mem_cons.mp h
    rw [List.flatMap_cons, fillAll_append, calls_append, ← List.append_assoc]
    let s₁ : Session := { s with
      calls := s.calls ++ Part.calls options.directory (block.parts options.directory s.disk) }
    refine run_resolveBlocks_cons ?_ (run_resolveBlocks_on hfm hs (s := s₁) hbs)
    rw [run_resolveBlock_kept hb, expandIf, if_pos hfm, Activity.run_bind, run_expand_parts hs]
    rfl

end Kept

section Resolve

variable {options : Options} {bases : List Base} {name : String} {d : Disk} {document : Document}
  {blocks : List Task.Block}

theorem KeepsCommands.isKept (h : KeepsCommands d options bases name document blocks) :
    ∀ block ∈ blocks, IsKept d options bases
      (mergeSelectors (taskSelectors options name) document.frontMatter) block := by
  rintro _ hb c rfl
  exact ⟨h.inline c hb, h.missing c hb⟩

theorem KeepsCommands.params (h : KeepsCommands d options bases name document blocks)
    (params : Params) : KeepsCommands d { options with params } bases name document blocks :=
  ⟨h.found, h.agent, h.read, h.inline, h.missing⟩

theorem taskBlocks_eq_ok (h : taskBlocks options document = .ok blocks) :
    Task.parse (taskText options document) = .ok ⟨blocks⟩ := by
  unfold taskBlocks at h
  split at h
  · rename_i script hscript
    obtain rfl := Except.ok.inj h
    exact hscript
  · simp at h

theorem run_resolveTask {host : Host} (h : KeepsCommands d options bases name document blocks)
    {s s' : Session} (hd : s.disk = d) {content : String} {selectors : Selectors}
    (hrun : (resolveBlocks host options bases document.frontMatter
      (mergeSelectors (taskSelectors options name) document.frontMatter) blocks).run s
        = (.ok (content, selectors), s')) :
    ∃ setting, (resolveTask host options bases name).run s
      = (.ok ({ document with content }, setting), s') := by
  obtain ⟨agent, hagent⟩ := h.agent
  have hdocument : (taskDocument options bases name).run s = (.ok document, s) := by
    rw [taskDocument, Activity.run_onDisk, hd, h.found]
    rfl
  refine ⟨⟨selectors, agent⟩, ?_⟩
  rw [resolveTask, Activity.run_bind, hdocument]
  dsimp only
  rw [hagent, h.read]
  change (resolveBlocks host options bases document.frontMatter
    (mergeSelectors (taskSelectors options name) document.frontMatter) blocks >>= _).run s = _
  rw [Activity.run_bind, hrun]
  rfl

theorem run_resolveTask_on {host : Host} {answer : Call → Outcome}
    (h : KeepsCommands d options bases name document blocks)
    (hfm : FrontMatter.expands document.frontMatter = true) (hs : host.IsSteady answer)
    {s : Session} (hd : s.disk = d) :
    ∃ setting, (resolveTask host options bases name).run s
      = (.ok ({ document with
            content := fillAll answer options.params options.directory
              (blocks.flatMap (Task.Block.parts options.directory d)) }, setting),
          { s with
            calls := s.calls ++ Part.calls options.directory
              (blocks.flatMap (Task.Block.parts options.directory d)) }) := by
  subst hd
  exact run_resolveTask h rfl (run_resolveBlocks_on hfm hs h.isKept)

/-- The steady host with the answers. -/
def steadyHost (answer : Call → Outcome) : Host where
  run c s := (answer c, s.disk)
  fetchDirectory _ _ s := (.ok (), s.disk)
  fetchText _ _ := .ok ""
  temporary := "/tmp"

theorem isSteady_steadyHost (answer : Call → Outcome) : (steadyHost answer).IsSteady answer :=
  fun _ _ => rfl

/-- The parts of the blocks of a task are those of its text exactly if the task comes to the
expansion of the text, whatever the parameters are and programs write. -/
theorem comesToExpansion_iff (h : KeepsCommands d options bases name document blocks)
    (hfm : FrontMatter.expands document.frontMatter = true) :
    (∀ (host : Host) (answer : Call → Outcome) (params : Params) (s : Session),
        host.IsSteady answer → s.disk = d →
          ComesToExpansion host { options with params } bases name document s)
      ↔ blocks.flatMap (Task.Block.parts options.directory d)
        = parts options.directory d (taskText options document) := by
  constructor
  · intro hall
    refine Expansion.eq_of_fillAll options.directory fun answer params => ?_
    obtain ⟨content, s', setting, hexpand, htask⟩ :=
      hall (steadyHost answer) answer params ⟨d, [], []⟩ (isSteady_steadyHost answer) rfl
    obtain ⟨setting', htask'⟩ :=
      run_resolveTask_on (h.params params) hfm (isSteady_steadyHost answer) (s := ⟨d, [], []⟩) rfl
    rw [run_expand_parts (isSteady_steadyHost answer)] at hexpand
    rw [htask'] at htask
    have hcontent := congrArg (·.content)
      (Prod.mk.inj (Except.ok.inj (Prod.mk.inj htask).1)).1
    exact hcontent.trans (Except.ok.inj (Prod.mk.inj hexpand).1).symm
  · rintro hparts host answer params s hs rfl
    obtain ⟨setting, htask⟩ := run_resolveTask_on (h.params params) hfm hs rfl
    refine ⟨_, _, setting, run_expand_parts hs params options.directory _ s, ?_⟩
    rw [htask, hparts]
    rfl

theorem parts_of_whole (h : KeepsCommands d options bases name document blocks)
    {pss : List (List Segment)}
    (hpss : pss.flatten = segments none (taskText options document).toList)
    (hkept : pss.map (·.flatMap Segment.source) = blocks.map fun b => b.kept.toList) :
    blocks.flatMap (Task.Block.parts options.directory d)
      = parts options.directory d (taskText options document) := by
  have hparse := taskBlocks_eq_ok h.read
  have hjoin := congrArg String.toList (Task.join_kept hparse h.inline)
  rw [String.toList_join, List.flatMap_map, List.flatMap_def] at hjoin
  obtain ⟨items, hitems, hblocks⟩ := map_eq_ok.mp hparse
  obtain rfl : Task.Item.toBlocks items = blocks := congrArg Task.Script.blocks hblocks
  have hcut := Task.toBlocks_isCut (Task.Item.ofTokens_text hitems rfl)
    fun c hc => h.inline c (Task.command_mem_toBlocks hc)
  have hsegments := segments_cuts hcut hkept rfl (hjoin ▸ hpss.symm)
  rw [parts, ← hpss, ← hsegments, List.map_map, ← List.flatMap_def, List.flatMap_assoc]
  rfl

/-- A task without commands that open a line or have a file, when it is not expanded, is its text.
When it is, it comes to the expansion of its text, whatever the parameters are and programs write,
exactly if its blocks have the parts of the text. They have if no segment of the text goes from one
block into the next. -/
theorem resolveTask_kept (h : KeepsCommands d options bases name document blocks) :
    (FrontMatter.expands document.frontMatter = false →
        ∀ (host : Host) (params : Params) (s : Session), s.disk = d → ∃ setting,
          (resolveTask host { options with params } bases name).run s
            = (.ok ({ document with content := taskText options document }, setting), s))
      ∧ (FrontMatter.expands document.frontMatter = true →
        ((∀ (host : Host) (answer : Call → Outcome) (params : Params) (s : Session),
            host.IsSteady answer → s.disk = d →
              ComesToExpansion host { options with params } bases name document s)
          ↔ blocks.flatMap (Task.Block.parts options.directory d)
            = parts options.directory d (taskText options document)))
      ∧ ((∃ pss : List (List Segment),
          pss.flatten = segments none (taskText options document).toList
            ∧ pss.map (·.flatMap Segment.source) = blocks.map fun b => b.kept.toList) →
        blocks.flatMap (Task.Block.parts options.directory d)
          = parts options.directory d (taskText options document)) := by
  refine ⟨?_, comesToExpansion_iff h, ?_⟩
  · rintro hfm host params s rfl
    have hrun := run_resolveBlocks_off host hfm (h.params params).isKept
    rw [Task.join_kept (taskBlocks_eq_ok h.read) h.inline] at hrun
    exact run_resolveTask (h.params params) rfl hrun
  · rintro ⟨pss, hpss, hkept⟩
    exact parts_of_whole h hpss hkept

end Resolve

section Examples

/-- A disk with the text of one task, `t`. -/
def taskDisk (text : String) : Disk where
  entries := [(["w"], .directory 0o755), (["w", ".agents"], .directory 0o755),
    (["w", ".agents", "tasks"], .directory 0o755),
    (["w", ".agents", "tasks", "t.md"], .file text.toUTF8 0o644)]
  current := []

/-- Options with which nothing but the task counts. -/
def taskOptions : Options where
  directory := "/w"
  home := none
  sources := []
  manifest := none
  params := ∅
  selectors := ∅
  agent := none
  resume := false
  prompt := none
  table := .standard

theorem eq_ok_document {x : Except Error (Option Document)} {path content : String}
    (h : x.toOption.map (·.map fun d => (d.path.text, d.frontMatter.entries.isEmpty, d.content))
      = some (some (path, true, content))) : x = .ok (some ⟨path, ∅, content⟩) := by
  rcases x with e | _ | ⟨path', ⟨entries, sorted⟩, content'⟩
  · simp [Except.toOption] at h
  · simp [Except.toOption] at h
  · simp [Except.toOption] at h
    obtain ⟨rfl, rfl, rfl⟩ := h
    rfl

theorem eq_ok_none {x : Except Error (Option Document)}
    (h : x.toOption.map Option.isNone = some true) : x = .ok none := by
  rcases x with e | _ | document <;> simp_all [Except.toOption]

theorem keepsCommands_taskDisk (text : String) (script : Task.Script)
    (hfound : (Search.named (taskDisk text) taskOptions.table (taskOptions.bases [])
        (taskSelectors taskOptions "t") .task "t").toOption.map
          (·.map fun d => (d.path.text, d.frontMatter.entries.isEmpty, d.content))
      = some (some ("/w/.agents/tasks/t.md", true, text)))
    (hparse : Task.parse text = .ok script)
    (hinline : (script.commands.all (·.source.isSome)) = true)
    (hmissing : (script.commands.all fun c =>
      (Search.named (taskDisk text) taskOptions.table (taskOptions.bases [])
        (taskSelectors taskOptions "t") .command c.name).toOption.map Option.isNone = some true)
      = true) :
    KeepsCommands (taskDisk text) taskOptions (taskOptions.bases []) "t"
      ⟨"/w/.agents/tasks/t.md", ∅, text⟩ script.blocks := by
  have hmem : ∀ c, .command c ∈ script.blocks → c ∈ script.commands := fun c hc =>
    List.mem_filterMap.mpr ⟨_, hc, rfl⟩
  refine ⟨eq_ok_document hfound, ⟨none, rfl⟩, ?_, fun c hc => ?_, fun c hc => ?_⟩
  · rw [taskBlocks]
    simp [withPrompt, taskOptions, hparse]
  · have hsome := List.all_eq_true.mp hinline c (hmem c hc)
    exact Option.isSome_iff_ne_none.mp hsome
  · have hnone := List.all_eq_true.mp hmissing c (hmem c hc)
    exact eq_ok_none (of_decide_eq_true hnone)

/-- A path is kept as text, and the task comes to the expansion of its text. -/
theorem resolveTask_kept_path : ∃ document blocks,
    KeepsCommands (taskDisk "Save it in /tmp first\n") taskOptions (taskOptions.bases []) "t"
        document blocks
      ∧ ∀ (host : Host) (answer : Call → Outcome) (params : Params) (s : Session),
        host.IsSteady answer → s.disk = taskDisk "Save it in /tmp first\n" →
          ComesToExpansion host { taskOptions with params } (taskOptions.bases []) "t" document
            s := by
  have h := keepsCommands_taskDisk "Save it in /tmp first\n"
    ⟨[.text ["Save", " ", "it", " ", "in", " "],
      .command ⟨"tmp", [⟨none, "first"⟩], some "/tmp first\n"⟩]⟩
    (by decide +kernel) (by decide +kernel) (by decide +kernel) (by decide +kernel)
  obtain ⟨-, hon, hwhole⟩ := resolveTask_kept h
  refine ⟨_, _, h, (hon rfl).mpr (hwhole ⟨[segments none "Save it in ".toList,
    segments none "/tmp first\n".toList], ?_, ?_⟩)⟩
  · decide +kernel
  · decide +kernel

/-- A shell that prints each command between angle brackets. -/
def printCommand : Call → Outcome
  | .shell command _ => ⟨true, "<" ++ command ++ ">"⟩
  | _ => ⟨true, ""⟩

/-- A command for the shell that holds a path falls into two blocks, and is not run. -/
theorem resolveTask_cuts_shell_command : ∃ document blocks setting,
    KeepsCommands (taskDisk "!`ls /tmp`\n") taskOptions (taskOptions.bases []) "t" document blocks
      ∧ FrontMatter.expands document.frontMatter = true
      ∧ (Expansion.expand (steadyHost printCommand) taskOptions.params taskOptions.directory
          (taskText taskOptions document)).run ⟨taskDisk "!`ls /tmp`\n", [], []⟩
        = (.ok "<ls /tmp>\n", ⟨taskDisk "!`ls /tmp`\n", [.shell "ls /tmp" "/w"], []⟩)
      ∧ (resolveTask (steadyHost printCommand) taskOptions (taskOptions.bases []) "t").run
          ⟨taskDisk "!`ls /tmp`\n", [], []⟩
        = (.ok ({ document with content := "!`ls /tmp`\n" }, setting),
          ⟨taskDisk "!`ls /tmp`\n", [], []⟩) := by
  have h := keepsCommands_taskDisk "!`ls /tmp`\n"
    ⟨[.text ["!`ls", " "], .command ⟨"tmp`", [], some "/tmp`\n"⟩]⟩
    (by decide +kernel) (by decide +kernel) (by decide +kernel) (by decide +kernel)
  have hs := isSteady_steadyHost printCommand
  have hparts : parts taskOptions.directory (taskDisk "!`ls /tmp`\n") "!`ls /tmp`\n"
      = [.output "ls /tmp".toList, .char '\n'] := by decide +kernel
  have hblocks : [.text ["!`ls", " "], .command ⟨"tmp`", [], some "/tmp`\n"⟩].flatMap
      (Task.Block.parts taskOptions.directory (taskDisk "!`ls /tmp`\n"))
      = "!`ls /tmp`\n".toList.map .char := by decide +kernel
  have hfm : FrontMatter.expands ∅ = true := rfl
  obtain ⟨setting, hrun⟩ :=
    run_resolveTask_on h hfm hs (s := ⟨taskDisk "!`ls /tmp`\n", [], []⟩) rfl
  rw [hblocks, fillAll_chars] at hrun
  refine ⟨_, _, setting, h, hfm, ?_, hrun⟩
  have hfill : fillAll printCommand taskOptions.params taskOptions.directory
      [.output "ls /tmp".toList, .char '\n'] = "<ls /tmp>\n" := by decide +kernel
  have htext : taskText taskOptions ⟨"/w/.agents/tasks/t.md", ∅, "!`ls /tmp`\n"⟩
      = "!`ls /tmp`\n" := rfl
  rw [run_expand_parts hs, htext, hparts, hfill]
  rfl

end Examples

end Assembly

end Briefing
