import Briefing.Proofs.Resolution

/-!
# The user's prompt behind the task

The user's prompt stands behind the task's text and a line of its own, and all of it is read as one
text. As no token goes over the end of a line, the task's blocks are what they are without the
prompt, but for the line break that ends the last of them. There are two ways to lose the line of
its own. A command at the end of the task owns its line break, and what it becomes need not end with
one. And a command for the shell that is left open in the task's last text may be closed by the
prompt. Otherwise the prompt is set apart (`assemble_prompt_apart`).
-/

namespace Briefing

namespace Task

theorem parse_separator {prompt : String} {blocks : List Block}
    (h : parse ("---\n" ++ prompt) = .ok ⟨blocks⟩) : ∃ more fragments rest,
      blocks = .text ("---" :: ("\n" ++ more) :: fragments) :: rest := by
  have htext : ("---\n" ++ prompt).toList = "---".toList
      ++ ('\n' :: prompt.toList.takeWhile isBreak ++ prompt.toList.dropWhile isBreak) := by
    simp [List.takeWhile_append_dropWhile]
  have hterm : Token.Lexeme true .term "---".toList
      ('\n' :: prompt.toList.takeWhile isBreak ++ prompt.toList.dropWhile isBreak) :=
    .term ⟨by simp, by simp [isTermChar, isGap, isBreak, isQuote],
      by simp [isTermChar, isBreak]⟩
  have hbreak : ∀ lineStart, Token.Lexeme lineStart .lineBreak
      ('\n' :: prompt.toList.takeWhile isBreak) (prompt.toList.dropWhile isBreak) :=
    fun _ => .lineBreak (Token.isRun_takeWhile rfl _)
  obtain ⟨items, hitems, hblocks⟩ := map_eq_ok.mp h
  rw [Token.scan, htext, Item.ofTokens_lexeme hterm (by simp)] at hitems
  obtain ⟨items₁, hitems₁, rfl⟩ := map_eq_ok.mp hitems
  rw [Item.ofTokens_lexeme (hbreak _) (by simp)] at hitems₁
  obtain ⟨items, -, rfl⟩ := map_eq_ok.mp hitems₁
  obtain ⟨fragments, rest, hrest⟩ :=
    toBlocks_fragment (String.ofList ('\n' :: prompt.toList.takeWhile isBreak)) items
  refine ⟨String.ofList (prompt.toList.takeWhile isBreak), fragments, rest, ?_⟩
  obtain rfl := congrArg Script.blocks hblocks
  simp only [Item.toBlocks] at hrest ⊢
  rw [hrest]
  simp

/-- The text at the start of blocks, if the first of them is text. -/
def firstText : List Block → List Char
  | .text fragments :: _ => (Block.content fragments).toList
  | _ => []

theorem text_mem_append (fragments : List String) (rest blocks : List Block) :
    ∃ fragments', .text fragments' ∈ Block.append blocks (.text fragments :: rest)
      ∧ (Block.content fragments').toList
        = lastText blocks ++ (Block.content fragments).toList := by
  fun_induction lastText blocks with
  | case1 => exact ⟨fragments, List.mem_cons_self, rfl⟩
  | case2 fragments' =>
    exact ⟨fragments' ++ fragments, List.mem_cons_self, by simp [Block.content]⟩
  | case3 c => exact ⟨fragments, List.mem_cons_of_mem _ List.mem_cons_self, rfl⟩
  | case4 block next blocks ih =>
    obtain ⟨fragments', hmem, hcontent⟩ := ih
    refine ⟨fragments', ?_, hcontent⟩
    rw [Block.append_cons_cons]
    exact List.mem_cons_of_mem _ hmem

end Task

namespace Assembly

open Expansion (Splits)
open Briefing.Task (EndsLine firstText lastText)

/-! ## The seam -/

/-- A text with a break behind it, unless a line ends there. -/
def endLine (text : String) : String :=
  if text.isEmpty || text.toList.getLast? = some '\n' then text else text ++ "\n"

theorem withPrompt_eq {prompt : String} (h : prompt ≠ "") (body : String) :
    withPrompt body (some prompt) = endLine body ++ ("---\n" ++ prompt) := by
  have hprompt : prompt.isEmpty = false := by simpa using h
  rw [withPrompt, hprompt, if_neg (by simp), endLine]
  split
  · dsimp only
    rw [String.append_empty, String.append_assoc]
  · rw [String.append_assoc, String.append_assoc]

theorem endsLine_endLine (body : String) : EndsLine (endLine body) := by
  unfold endLine
  split
  · rename_i h
    simpa [EndsLine] using h
  · exact .inr (by simp)

section Seam

variable {answer : Call → Outcome} {options : Options} {bases : List Base} {d : Disk}
  {fm : FrontMatter}

theorem exists_expanded_separator (params : Params) {content : String}
    (h : "---\n".toList <+: content.toList) :
    ∃ more, expanded answer options d fm params content = "---\n" ++ more := by
  obtain ⟨z, hz⟩ := h
  obtain rfl : content = "---\n" ++ String.ofList z := String.ext (by rw [← hz]; simp)
  have hchars := Expansion.segments_separator []
  rw [List.append_nil, Expansion.segments.eq_1, List.append_nil] at hchars
  exact ⟨_, by rw [expanded_append (.inr (Expansion.splits_separator _)), expanded_chars hchars]⟩

/-- What a task becomes alone and what its ended lines become. -/
theorem BlocksBecome.endLine {body text text' : String} {blocks blocks' : List Task.Block}
    {selectors selectors₁ selectors₂ : Selectors} (hbody : Task.parse body = .ok ⟨blocks⟩)
    (hended : Task.parse (endLine body) = .ok ⟨blocks'⟩)
    (h : BlocksBecome answer options bases d fm selectors blocks text selectors₁)
    (h' : BlocksBecome answer options bases d fm selectors blocks' text' selectors₂) :
    ∃ gap, text' = text ++ gap ∧ (gap = "" ∨ gap = "\n")
      ∧ (EndsLine (text ++ gap) ↔ lastDocument? options bases d selectors blocks' = none
        ∨ EndsLine text) := by
  by_cases hc : (body.isEmpty || body.toList.getLast? = some '\n') = true
  · rw [Assembly.endLine, if_pos hc, hbody] at hended
    obtain rfl : blocks = blocks' := congrArg Task.Script.blocks (Except.ok.inj hended)
    refine ⟨"", by rw [String.append_empty, h.unique h'], .inl rfl, ?_⟩
    rw [String.append_empty]
    refine ⟨.inr, fun hend => hend.elim (fun hnone => ?_) id⟩
    rcases eq_or_ne blocks [] with rfl | hne
    · cases h
      exact .inl rfl
    · have hends : EndsLine body := by simpa [EndsLine] using hc
      exact .inr (h.getLast? hne (hends.kept hbody) hnone)
  · rw [Assembly.endLine, if_neg hc] at hended
    obtain ⟨hne, hlast⟩ : body ≠ "" ∧ body.toList.getLast? ≠ some '\n' := by simpa using hc
    obtain ⟨blocks₁, hblocks₁, hends⟩ := Task.parse_append_break hne hlast hbody
    obtain rfl : blocks₁ = blocks' :=
      congrArg Task.Script.blocks (Except.ok.inj (hblocks₁.symm.trans hended))
    refine ⟨_, h.ended hends h', ?_⟩
    split
    · rename_i hnone
      exact ⟨.inr rfl, iff_of_true (.inr (by simp)) (.inl hnone)⟩
    · rename_i hsome
      rw [String.append_empty]
      exact ⟨.inl rfl, by simp [hsome]⟩

end Seam

/-! ## The run -/

section Run

variable {host : Host} {answer : Call → Outcome} {options : Options} {bases : List Base}
  {name prompt : String} {s s' : Session}

theorem taskBlocks_some {document : Document} {blocks : List Task.Block} (hprompt : prompt ≠ "")
    (h : taskBlocks { options with prompt := some prompt } document = .ok blocks) :
    ∃ lead fragments rest, Task.parse (endLine document.content) = .ok ⟨lead⟩
      ∧ Task.parse ("---\n" ++ prompt) = .ok ⟨.text fragments :: rest⟩
      ∧ "---\n".toList <+: (Task.Block.content fragments).toList
      ∧ blocks = Task.Block.append lead (.text fragments :: rest) := by
  have hparse := taskBlocks_eq_ok h
  rw [taskText, withPrompt_eq hprompt] at hparse
  obtain ⟨lead, back, hlead, hback, rfl⟩ := (Task.parse_append_ok (endsLine_endLine _).endsIn
    (by simp [Task.isBreak])).mp hparse
  obtain ⟨more, fragments, rest, rfl⟩ := Task.parse_separator hback
  exact ⟨lead, _, rest, hlead, hback, by simp [Task.Block.content, String.join_cons], rfl⟩

/-- The prompt has no part in the search for the task. -/
theorem assembleFrom_of_assemble {prompt : Option String} {a : Assembly}
    (h : (assemble host { options with prompt } name).run s = (.ok a, s')) :
    ∃ roots s₁ document agent blocks s₂, (options.searchRoots host).run s = (.ok roots, s₁)
      ∧ s₁.calls = s.calls
      ∧ Search.named s₁.disk options.table (options.bases roots.roots) (taskSelectors options name)
        .task name = .ok (some document)
      ∧ taskBlocks { options with prompt } document = .ok blocks
      ∧ (assembleFrom host { options with prompt } (options.bases roots.roots) name document agent
        blocks).run s₁ = (.ok a, s₂)
      ∧ s₂.calls = s'.calls := by
  rcases run_assemble_cases host { options with prompt } name s with ⟨e, _, hrun, -⟩
    | ⟨roots, s₁, document, agent, blocks, hroots, hcalls, hread, hrun⟩
  · cases hrun.symm.trans h
  · obtain ⟨hanswer, rfl⟩ := Prod.mk.inj (hrun.symm.trans h)
    exact ⟨roots, s₁, document, agent, blocks, _, hroots, hcalls, hread.named, hread.blocks,
      Prod.ext hanswer rfl, rfl⟩

theorem run_resolveBlocks_of_assembleFrom {document : Document} {agent : Option Agent}
    {blocks : List Task.Block} {a : Assembly}
    (h : (assembleFrom host options bases name document agent blocks).run s = (.ok a, s')) :
    ∃ selectors s₁, (resolveBlocks host options bases document.frontMatter
      (mergeSelectors (taskSelectors options name) document.frontMatter) blocks).run s
        = (.ok (a.task.content, selectors), s₁) := by
  rw [assembleFrom, Activity.run_bind] at h
  rcases hb : (resolveBlocks host options bases document.frontMatter
    (mergeSelectors (taskSelectors options name) document.frontMatter) blocks).run s
    with ⟨e | ⟨content, selectors⟩, s₁⟩
  · simp [hb] at h
  · rw [hb] at h
    refine ⟨selectors, s₁, ?_⟩
    dsimp only at h
    split at h
    · obtain ⟨⟨⟩, -⟩ := Prod.mk.inj h
      rfl
    · rw [Activity.run_bind] at h
      split at h
      · rw [Activity.run_bind] at h
        split at h
        · obtain ⟨⟨⟩, -⟩ := Prod.mk.inj h
          rfl
        · cases h
      · cases h

theorem contentSteps_subset {fm : FrontMatter} {fragments : List String} :
    ∀ {blocks : List Task.Block} {s : Session} {selectors : Selectors}, .text fragments ∈ blocks →
      contentSteps options fm (Task.Block.content fragments)
        ⊆ (blocksSteps host options bases fm s selectors blocks).1
  | block :: blocks, s, selectors, h => by
    rw [blocksSteps]
    rcases List.mem_cons.mp h with rfl | h
    · exact List.subset_append_left _ _
    · exact List.subset_append_of_subset_right _ (contentSteps_subset h)

theorem calls_of_assembleFrom {document : Document} {agent : Option Agent}
    {blocks : List Task.Block} {a : Assembly}
    (h : (assembleFrom host options bases name document agent blocks).run s = (.ok a, s')) :
    ∃ steps, s'.calls = s.calls ++ steps.map Step.call
      ∧ (blocksSteps host options bases document.frontMatter s
        (mergeSelectors (taskSelectors options name) document.frontMatter) blocks).1 ⊆ steps := by
  have hfollows := @follows_assembleFrom host options bases s name document agent blocks
  rw [h] at hfollows
  obtain ⟨rfl, -⟩ := hfollows.answer
  refine ⟨_, Step.calls_afterAll, ?_⟩
  unfold assembleSteps
  dsimp only
  split
  · exact List.Subset.refl _
  · exact List.subset_append_left _ _

theorem calls_over_separator {document : Document} {agent : Option Agent}
    {lead rest : List Task.Block} {fragments : List String} {a : Assembly}
    (hlead : Task.parse (endLine document.content) = .ok ⟨lead⟩)
    (hsep : "---\n".toList <+: (Task.Block.content fragments).toList)
    (hfm : FrontMatter.expands document.frontMatter = true)
    (hcross : ¬Splits (lastText lead) (Task.Block.content fragments).toList)
    (h : (assembleFrom host options bases name document agent
      (Task.Block.append lead (.text fragments :: rest))).run s = (.ok a, s')) :
    ∃ new command, s'.calls = s.calls ++ new ∧ .shell command options.directory ∈ new
      ∧ "\n---\n".toList <:+: command.toList := by
  obtain ⟨steps, hcalls, hsteps⟩ := calls_of_assembleFrom h
  have hx : (lastText lead).getLast? = some '\n' := by
    refine (Task.getLast?_lastText ((endsLine_endLine _).kept hlead)).resolve_left fun hnil => ?_
    rw [hnil] at hcross
    exact hcross (Expansion.splits_nil _)
  obtain ⟨text, hmem, hinfix⟩ := (Expansion.segments_seam hsep hx none).resolve_left hcross
  obtain ⟨fragments', hblock, hcontent⟩ := Task.text_mem_append fragments rest lead
  have htext : (String.ofList text).toList = text := String.toList_ofList
  refine ⟨_, String.ofList text, hcalls, ?_, by rwa [htext]⟩
  refine List.mem_map.mpr ⟨⟨.shell (String.ofList text) options.directory, none⟩, ?_, rfl⟩
  refine hsteps (contentSteps_subset hblock ?_)
  rw [contentSteps, if_pos hfm, hcontent]
  refine List.mem_map_of_mem (List.mem_map_of_mem ?_)
  exact List.mem_filterMap.mpr ⟨_, hmem, rfl⟩

end Run

/-- The user's prompt stands behind the task and a line of its own, for which a line break is put
behind the task at most. -/
def SetsApart (content content' : String) : Prop :=
  ∃ gap more, (gap = "" ∨ gap = "\n") ∧ EndsLine (content ++ gap)
    ∧ content' = content ++ gap ++ "---\n" ++ more

theorem setsApart_iff {content gap more : String} (hgap : gap = "" ∨ gap = "\n") :
    SetsApart content (content ++ gap ++ "---\n" ++ more) ↔ EndsLine (content ++ gap) := by
  refine ⟨?_, fun hend => ⟨gap, more, hgap, hend, rfl⟩⟩
  rintro ⟨gap', more', hgap', hend, heq⟩
  rcases hgap with rfl | rfl
  · rcases hgap' with rfl | rfl
    · exact hend
    · -- the separator does not start with a break
      simp only [String.append_assoc, String.append_right_inj] at heq
      have hhead := congrArg (·.toList.head?) heq
      simp at hhead
  · exact .inr (by simp)

/-- The blocks of a task, its last line ended, and those of the separator with the user's prompt are
read on their own. If no placeholder goes over from the last text of the former into the first text
of the latter, the task becomes what it becomes without the prompt, then a line break or nothing,
then the separator. The prompt is set apart exactly if the task does not end with a command that has
a document, or if what it becomes without the prompt ends its line. A placeholder that goes over is
a command for the shell that has the separator in it, and it is executed. -/
theorem assemble_prompt_apart {host : Host} {answer : Call → Outcome} (hs : host.IsSteady answer)
    {options : Options} {name prompt : String} (hprompt : prompt ≠ "") {s s' s'' : Session}
    {a a' : Assembly}
    (h : (assemble host { options with prompt := none } name).run s = (.ok a, s'))
    (h' : (assemble host { options with prompt := some prompt } name).run s = (.ok a', s'')) :
    ∃ roots s₁ document lead rest, (options.searchRoots host).run s = (.ok roots, s₁)
      ∧ Search.named s₁.disk options.table (options.bases roots.roots) (taskSelectors options name)
        .task name = .ok (some document)
      ∧ Task.parse (endLine document.content) = .ok ⟨lead⟩
      ∧ Task.parse ("---\n" ++ prompt) = .ok ⟨rest⟩
      ∧ (FrontMatter.expands document.frontMatter = false
          ∨ Splits (lastText lead) (firstText rest) →
        (∃ gap more, (gap = "" ∨ gap = "\n")
            ∧ a'.task.content = a.task.content ++ gap ++ "---\n" ++ more)
          ∧ (SetsApart a.task.content a'.task.content
            ↔ lastDocument? options (options.bases roots.roots) s₁.disk
                (mergeSelectors (taskSelectors options name) document.frontMatter) lead = none
              ∨ EndsLine a.task.content))
      ∧ (FrontMatter.expands document.frontMatter = true →
        ¬Splits (lastText lead) (firstText rest) →
          ∃ new command, s''.calls = s.calls ++ new ∧ .shell command options.directory ∈ new
            ∧ "\n---\n".toList <:+: command.toList) := by
  obtain ⟨roots, s₁, document, agent, blocks, _, hroots, -, hnamed, hblocks, hrun, -⟩ :=
    assembleFrom_of_assemble h
  obtain ⟨_, _, _, agent', _, _, hroots', hcalls, hnamed', hblocks', hrun', hcalls'⟩ :=
    assembleFrom_of_assemble h'
  obtain ⟨⟨⟩, rfl⟩ := Prod.mk.inj (hroots.symm.trans hroots')
  obtain ⟨⟨⟩⟩ := hnamed.symm.trans hnamed'
  obtain ⟨lead, fragments, rest, hlead, hrest, hsep, rfl⟩ := taskBlocks_some hprompt hblocks'
  refine ⟨roots, s₁, document, lead, _, hroots, hnamed, hlead, hrest, fun hsplit => ?_,
    fun hfm hcross => ?_⟩
  · obtain ⟨_, _, hresolve⟩ := run_resolveBlocks_of_assembleFrom hrun
    obtain ⟨_, _, hresolve'⟩ := run_resolveBlocks_of_assembleFrom hrun'
    obtain ⟨front, _, more, hfront, hcontent'⟩ :=
      (blocksBecome_of_run hs hresolve').of_append fragments rest hsplit
    have hbody := taskBlocks_eq_ok hblocks
    obtain ⟨gap, rfl, hgap, hends⟩ :=
      BlocksBecome.endLine hbody hlead (blocksBecome_of_run hs hresolve) hfront
    obtain ⟨value, hvalue⟩ := exists_expanded_separator options.params hsep
    have hwhole : a'.task.content = a.task.content ++ gap ++ "---\n" ++ (value ++ more) := by
      rw [hcontent', hvalue]
      simp only [String.append_assoc]
    rw [hwhole, setsApart_iff hgap, hends]
    exact ⟨⟨gap, _, hgap, rfl⟩, Iff.rfl⟩
  · obtain ⟨new, command, hnew, hcommand⟩ := calls_over_separator hlead hsep hfm hcross hrun'
    exact ⟨new, command, by rw [← hcalls', hnew, hcalls], hcommand⟩

theorem assemble_prompt_apart_task : ∃ a a' s' s'',
    (assemble (steadyHost printCommand) { taskOptions with prompt := none } "t").run
        ⟨taskDisk "Do it", [], []⟩ = (.ok a, s')
      ∧ (assemble (steadyHost printCommand) { taskOptions with prompt := some "now" } "t").run
        ⟨taskDisk "Do it", [], []⟩ = (.ok a', s'')
      ∧ SetsApart a.task.content a'.task.content := by
  have hok : ((assemble (steadyHost printCommand) { taskOptions with prompt := none } "t").run
      ⟨taskDisk "Do it", [], []⟩).1.toOption.isSome = true := by decide +kernel
  have hok' : ((assemble (steadyHost printCommand) { taskOptions with prompt := some "now" }
      "t").run ⟨taskDisk "Do it", [], []⟩).1.toOption.isSome = true := by decide +kernel
  rcases hrun : (assemble (steadyHost printCommand) { taskOptions with prompt := none } "t").run
    ⟨taskDisk "Do it", [], []⟩ with ⟨e | a, s'⟩
  · simp [hrun, Except.toOption] at hok
  rcases hrun' : (assemble (steadyHost printCommand) { taskOptions with prompt := some "now" }
    "t").run ⟨taskDisk "Do it", [], []⟩ with ⟨e | a', s''⟩
  · simp [hrun', Except.toOption] at hok'
  obtain ⟨roots, s₁, document, lead, rest, hroots, hnamed, hlead, hrest, happart, -⟩ :=
    assemble_prompt_apart (isSteady_steadyHost printCommand) (by decide) hrun hrun'
  obtain ⟨rfl, rfl⟩ := Options.eq_of_searchRoots rfl rfl hroots
  have hfound : Search.named (taskDisk "Do it") taskOptions.table (taskOptions.bases [])
      (taskSelectors taskOptions "t") .task "t"
        = .ok (some ⟨"/w/.agents/tasks/t.md", ∅, "Do it"⟩) := eq_ok_document (by decide +kernel)
  obtain ⟨⟨⟩⟩ := hfound.symm.trans hnamed
  have hlead' : Task.parse "Do it\n" = .ok ⟨[.text ["Do", " ", "it", "\n"]]⟩ := by decide +kernel
  have hrest' : Task.parse "---\nnow" = .ok ⟨[.text ["---", "\n", "now"]]⟩ := by decide +kernel
  obtain ⟨⟩ := hlead'.symm.trans hlead
  obtain ⟨⟩ := hrest'.symm.trans hrest
  have hsplits : Splits "Do it\n".toList "---\nnow".toList := by
    unfold Splits
    decide +kernel
  exact ⟨a, a', s', s'', rfl, rfl, (happart (.inr hsplits)).2.mpr (.inl rfl)⟩

/-- A disk with a task that is one command, and the command's file, in which no line ends. -/
def greetDisk : Disk where
  entries := [(["w"], .directory 0o755), (["w", ".agents"], .directory 0o755),
    (["w", ".agents", "tasks"], .directory 0o755),
    (["w", ".agents", "tasks", "t.md"], .file "/greet Ann\n".toUTF8 0o644),
    (["w", ".agents", "commands"], .directory 0o755),
    (["w", ".agents", "commands", "greet.md"], .file "Hi $\x7b1\x7d".toUTF8 0o644)]
  current := []

/-- A command at the end of a task takes the line of the separator away, and so does a command for
the shell that the prompt closes. -/
theorem assemble_joins_prompt :
    let content (d : Disk) (prompt : Option String) :=
      ((assemble (steadyHost printCommand) { taskOptions with prompt } "t").run
        ⟨d, [], []⟩).1.toOption.map (·.task.content)
    (content greetDisk none = some "Hi Ann"
        ∧ content greetDisk (some "Do it") = some "Hi Ann---\nDo it"
        ∧ ¬SetsApart "Hi Ann" "Hi Ann---\nDo it")
      ∧ content (taskDisk "Run !`date\n") none = some "Run !`date\n"
      ∧ content (taskDisk "Run !`date\n") (some "now`") = some "Run <date\n---\nnow>"
      ∧ ¬SetsApart "Run !`date\n" "Run <date\n---\nnow>" := by
  refine ⟨⟨by decide +kernel, by decide +kernel, ?_⟩, by decide +kernel, by decide +kernel, ?_⟩
  · have hiff := @setsApart_iff "Hi Ann" "" "Do it" (.inl rfl)
    exact mt hiff.mp (by simp [EndsLine])
  · rintro ⟨gap, more, -, -, heq⟩
    have hdrop := congrArg (·.toList.drop 4) heq
    simp at hdrop

end Assembly

end Briefing
