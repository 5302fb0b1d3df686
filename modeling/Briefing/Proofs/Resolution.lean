import Briefing.Proofs.FinalBreak
import Briefing.Proofs.RuleOrder
import Briefing.Proofs.Seam

/-!
# What the blocks of a task become

Where programs answer as a function of the call and leave the files alone, what a block becomes is
fixed by the files and the selectors in force (`BlocksBecome`). So the blocks of a text become the
same before other blocks, if no placeholder goes over from its last text (`BlocksBecome.of_append`),
and with a break behind the text, what they become has it at its end, unless the last block is a
command whose document is put in its place (`BlocksBecome.ended`).
-/

namespace Briefing

namespace Task

/-- A text that ends with a line break, or the empty text. -/
def EndsLine (text : String) : Prop := text = "" ∨ text.toList.getLast? = some '\n'

theorem EndsLine.endsIn {text : String} (h : EndsLine text) :
    text = "" ∨ EndsIn isBreak text.toList := h.imp_right fun h => ⟨'\n', h, rfl⟩

theorem Block.IsSpan.ne_empty {block : Block} {span : String} (h : block.IsSpan span) :
    span ≠ "" := by
  cases h with
  | @text fragments hne h =>
    obtain ⟨f, fs, rfl⟩ := List.exists_cons_of_ne_nil hne
    have hf := h f List.mem_cons_self
    simp [Block.content, String.join_cons, hf]
  | inline alone =>
    rintro rfl
    simp [parse, Token.scan, Item.ofTokens, Except.map, Item.toBlocks] at alone
  | @opening name line ending args hname _ _ _ =>
    rintro he
    obtain ⟨rfl, -⟩ := String.append_eq_empty_iff.mp he
    simp at hname

/-- What is kept of the last block ends a text, unless that is a command that opens its line. -/
theorem getLast?_kept {blocks : List Block} {spans : List String}
    (h : blocks.Forall₂ Block.IsSpan spans) : ∀ block ∈ blocks.getLast?,
      (∃ c, block = .command c ∧ c.source = none)
        ∨ block.kept.toList.getLast? = (String.join spans).toList.getLast? := by
  induction h with
  | nil => simp
  | @cons block span blocks spans hb hs ih =>
    cases hs with
    | nil =>
      rintro _ ⟨⟩
      rw [String.join_cons, String.join_nil, String.append_empty]
      cases hb with
      | text _ _ | inline _ => exact .inr rfl
      | opening _ _ _ _ => exact .inl ⟨_, rfl, rfl⟩
    | @cons block' span' blocks spans hb' hs =>
      have hne : (String.join (span' :: spans)).toList ≠ [] := by
        simp [String.join_cons, hb'.ne_empty]
      intro last hlast
      rw [String.join_cons, String.toList_append, List.getLast?_append_of_ne_nil _ hne]
      exact ih last (by rwa [List.getLast?_cons_cons] at hlast)

theorem EndsLine.kept {text : String} {blocks : List Block} (hend : EndsLine text)
    (h : parse text = .ok ⟨blocks⟩) : ∀ block ∈ blocks.getLast?,
      (∃ c, block = .command c ∧ c.source = none) ∨ block.kept.toList.getLast? = some '\n' := by
  rcases hend with rfl | hlast
  · obtain rfl : [] = blocks := congrArg Script.blocks (Except.ok.inj (parse_empty.symm.trans h))
    simp
  · obtain ⟨spans, rfl, hspans⟩ := exists_spans h
    rw [← hlast]
    exact getLast?_kept hspans

theorem Block.append_cons_cons (block next : Block) (blocks blocks' : List Block) :
    Block.append (block :: next :: blocks) blocks'
      = block :: Block.append (next :: blocks) blocks' := by
  cases block <;> rfl

/-- The text at the end of blocks, if the last of them is text. -/
def lastText : List Block → List Char
  | [] => []
  | [.text fragments] => (Block.content fragments).toList
  | [.command _] => []
  | _ :: block :: blocks => lastText (block :: blocks)

theorem getLast?_lastText {blocks : List Block}
    (h : ∀ block ∈ blocks.getLast?, (∃ c, block = .command c ∧ c.source = none)
      ∨ block.kept.toList.getLast? = some '\n') :
    lastText blocks = [] ∨ (lastText blocks).getLast? = some '\n' := by
  fun_induction lastText blocks with
  | case1 | case3 => exact .inl rfl
  | case2 fragments =>
    obtain ⟨_, ⟨⟩, -⟩ | hkept := h _ rfl
    exact .inr hkept
  | case4 block next blocks ih => exact ih (by rwa [List.getLast?_cons_cons] at h)

end Task

namespace Assembly

open Expansion (Splits parts run_expand_parts)
open Expansion.Part (fillAll)
open Briefing.Task (EndsLine lastText)

section Becomes

variable (answer : Call → Outcome) (options : Options) (bases : List Base) (d : Disk)

/-- What a content becomes. -/
def expanded (fm : FrontMatter) (params : Params) (content : String) : String :=
  if FrontMatter.expands fm then
    fillAll answer params options.directory (parts options.directory d content)
  else content

/-- What a block of a task becomes, and the selectors then in force. -/
inductive BlockBecomes (fm : FrontMatter) (selectors : Selectors) :
    Task.Block → String → Selectors → Prop
  | text (fragments : List String) : BlockBecomes fm selectors (.text fragments)
      (expanded answer options d fm options.params (Task.Block.content fragments)) selectors
  | document {c : Task.Command} {document : Document}
      (h : Search.named d options.table bases selectors .command c.name = .ok (some document)) :
      BlockBecomes fm selectors (.command c)
        (expanded answer options d document.frontMatter (Params.overlay options.params c.params)
          document.content)
        (mergeSelectors selectors document.frontMatter)
  | kept {c : Task.Command} {source : String}
      (h : Search.named d options.table bases selectors .command c.name = .ok none)
      (hs : c.source = some source) : BlockBecomes fm selectors (.command c)
        (expanded answer options d fm options.params source) selectors

/-- What blocks become one after the other, and the selectors then in force. -/
inductive BlocksBecome (fm : FrontMatter) :
    Selectors → List Task.Block → String → Selectors → Prop
  | nil (selectors : Selectors) : BlocksBecome fm selectors [] "" selectors
  | cons {selectors selectors₁ selectors₂ : Selectors} {block : Task.Block}
      {blocks : List Task.Block} {text texts : String}
      (h : BlockBecomes answer options bases d fm selectors block text selectors₁)
      (hs : BlocksBecome fm selectors₁ blocks texts selectors₂) :
      BlocksBecome fm selectors (block :: blocks) (text ++ texts) selectors₂

variable {answer options bases d}

variable {fm : FrontMatter} {host : Host} {s s' : Session}

theorem run_expandIf (hs : host.IsSteady answer) (params : Params) (content : String) :
    ∃ s', (expandIf host options fm params content).run s
      = (.ok (expanded answer options s.disk fm params content), s') ∧ s'.disk = s.disk := by
  unfold expandIf expanded
  split
  · exact ⟨_, run_expand_parts hs params options.directory content s, rfl⟩
  · exact ⟨s, rfl, rfl⟩

theorem expanded_append {params : Params} {x y : String}
    (h : FrontMatter.expands fm = false ∨ Splits x.toList y.toList) :
    expanded answer options d fm params (x ++ y)
      = expanded answer options d fm params x ++ expanded answer options d fm params y := by
  unfold expanded
  split
  · rename_i hfm
    have hsplit := h.resolve_left (by simp [hfm])
    rw [parts, String.toList_append, hsplit, List.flatMap_append, Expansion.fillAll_append]
    rfl
  · rfl

theorem expanded_chars {params : Params} {x : String}
    (h : Expansion.segments none x.toList = x.toList.map .char) :
    expanded answer options d fm params x = x := by
  unfold expanded
  split
  · have hparts : parts options.directory d x = x.toList.map .char := by
      rw [parts, h, List.flatMap_map]
      exact List.map_eq_flatMap.symm
    rw [hparts, Expansion.fillAll_chars, String.ofList_toList]
  · rfl

theorem expanded_concat_break (params : Params) (content : String) :
    expanded answer options d fm params (content ++ "\n")
      = expanded answer options d fm params content ++ "\n" := by
  rw [expanded_append (.inr (Expansion.splits_break _)),
    expanded_chars (x := "\n") Expansion.segments_break]

/-- The prompt is not needed to say what a block becomes. -/
theorem blockBecomes_of_run (hs : host.IsSteady answer) {prompt : Option String}
    {block : Task.Block} {text : String} {selectors selectors' : Selectors}
    (h : (resolveBlock host { options with prompt } bases fm selectors block).run s
      = (.ok (text, selectors'), s')) :
    BlockBecomes answer options bases s.disk fm selectors block text selectors'
      ∧ s'.disk = s.disk := by
  have hexpand : ∀ {fm' params content selectors₁},
      (expandIf host { options with prompt } fm' params content >>= fun text =>
        pure (text, selectors₁)).run s = (.ok (text, selectors'), s') →
      text = expanded answer options s.disk fm' params content ∧ selectors' = selectors₁
        ∧ s'.disk = s.disk := by
    intro fm' params content selectors₁ h
    obtain ⟨s₁, hrun, hdisk⟩ :=
      @run_expandIf answer { options with prompt } fm' host s hs params content
    rw [Activity.run_bind, hrun] at h
    obtain ⟨⟨⟩, rfl⟩ := Prod.mk.inj h
    exact ⟨rfl, rfl, hdisk⟩
  cases block with
  | text fragments =>
    obtain ⟨rfl, rfl, hdisk⟩ := hexpand h
    exact ⟨.text fragments, hdisk⟩
  | command c =>
    rw [resolveBlock, commandDocument, Activity.run_bind, Activity.run_onDisk] at h
    rcases hnamed : Search.named s.disk options.table bases selectors .command c.name
      with e | _ | document
    · simp [hnamed] at h
    · rcases hsource : c.source with _ | source
      · simp [hnamed, hsource] at h
      · simp only [hnamed, hsource] at h
        obtain ⟨rfl, rfl, hdisk⟩ := hexpand h
        exact ⟨.kept hnamed hsource, hdisk⟩
    · simp only [hnamed] at h
      obtain ⟨rfl, rfl, hdisk⟩ := hexpand h
      exact ⟨.document hnamed, hdisk⟩

theorem blocksBecome_of_run (hs : host.IsSteady answer) {prompt : Option String} :
    ∀ {blocks : List Task.Block} {text : String} {selectors selectors' : Selectors}
      {s s' : Session}, (resolveBlocks host { options with prompt } bases fm selectors blocks).run s
        = (.ok (text, selectors'), s') →
      BlocksBecome answer options bases s.disk fm selectors blocks text selectors'
  | [], _, _, _, _, _, h => by
    obtain ⟨⟨⟩, rfl⟩ := Prod.mk.inj h
    exact .nil _
  | block :: blocks, text, selectors, selectors', s, s', h => by
    rw [resolveBlocks, Activity.run_bind] at h
    rcases hb : (resolveBlock host { options with prompt } bases fm selectors block).run s
      with ⟨e | ⟨text₁, selectors₁⟩, s₁⟩
    · simp [hb] at h
    · rw [hb] at h
      dsimp only at h
      rw [Activity.run_bind] at h
      rcases hbs : (resolveBlocks host { options with prompt } bases fm selectors₁ blocks).run s₁
        with ⟨e | ⟨texts, selectors₂⟩, s₂⟩
      · simp [hbs] at h
      · rw [hbs] at h
        obtain ⟨⟨⟩, rfl⟩ := Prod.mk.inj h
        obtain ⟨hblock, hdisk⟩ := blockBecomes_of_run hs hb
        have hblocks := blocksBecome_of_run hs hbs
        rw [hdisk] at hblocks
        exact .cons hblock hblocks

theorem BlockBecomes.unique {block : Task.Block} {text text' : String}
    {selectors selectors₁ selectors₂ : Selectors}
    (h : BlockBecomes answer options bases d fm selectors block text selectors₁)
    (h' : BlockBecomes answer options bases d fm selectors block text' selectors₂) :
    text = text' ∧ selectors₁ = selectors₂ := by
  cases h with
  | text fragments =>
    cases h'
    exact ⟨rfl, rfl⟩
  | document hd =>
    cases h' with
    | document hd' =>
      obtain ⟨⟨⟩⟩ := hd.symm.trans hd'
      exact ⟨rfl, rfl⟩
    | kept hn _ => cases hd.symm.trans hn
  | kept hn hs =>
    cases h' with
    | document hd => cases hd.symm.trans hn
    | kept _ hs' =>
      obtain ⟨⟩ := hs.symm.trans hs'
      exact ⟨rfl, rfl⟩

variable (options bases d) in
/-- The document of the last of some blocks, if that is a command that has one. -/
def lastDocument? : Selectors → List Task.Block → Option Document
  | _, [] => none
  | selectors, [block] => commandDocument? options bases d selectors block
  | selectors, block :: next :: blocks =>
    lastDocument? (mergeAll selectors (commandDocument? options bases d selectors block).toList)
      (next :: blocks)

theorem commandDocument?_eq {selectors : Selectors} {c : Task.Command} {found : Option Document}
    (h : Search.named d options.table bases selectors .command c.name = .ok found) :
    commandDocument? options bases d selectors (.command c) = found :=
  congrArg (·.toOption.join) h

theorem BlockBecomes.lastDocument?_cons {block : Task.Block} {blocks : List Task.Block}
    {text : String} {selectors selectors' : Selectors} (hne : blocks ≠ [])
    (h : BlockBecomes answer options bases d fm selectors block text selectors') :
    lastDocument? options bases d selectors (block :: blocks)
      = lastDocument? options bases d selectors' blocks := by
  obtain ⟨next, blocks, rfl⟩ := List.exists_cons_of_ne_nil hne
  rw [lastDocument?]
  cases h with
  | text fragments => rfl
  | document hd => rw [commandDocument?_eq hd, Option.toList_some, mergeAll_singleton]
  | kept hn _ => rw [commandDocument?_eq hn]; rfl

/-- With a break behind a task, what it becomes has the break at its end, unless a command is last
whose document is put in its place. -/
theorem BlocksBecome.ended {blocks blocks' : List Task.Block}
    (he : Task.Block.Ended blocks blocks') {text text' : String}
    {selectors selectors₁ selectors₂ : Selectors}
    (h : BlocksBecome answer options bases d fm selectors blocks text selectors₁)
    (h' : BlocksBecome answer options bases d fm selectors blocks' text' selectors₂) :
    text' = text
      ++ if lastDocument? options bases d selectors blocks' = none then "\n" else "" := by
  induction he generalizing text text' selectors with
  | text hf =>
    obtain ⟨⟩ | ⟨⟨⟩, ⟨⟩⟩ := h
    obtain ⟨⟩ | ⟨⟨⟩, ⟨⟩⟩ := h'
    simp [hf, expanded_concat_break, lastDocument?, commandDocument?]
  | command c =>
    obtain ⟨⟩ | ⟨hb, ⟨⟩⟩ := h
    obtain ⟨⟩ | ⟨hb', ⟨⟩⟩ := h'
    cases hb with
    | document hd =>
      cases hb' with
      | document hd' =>
        obtain ⟨⟨⟩⟩ := hd.symm.trans hd'
        rw [lastDocument?, commandDocument?_eq hd', if_neg (by simp)]
        simp only [String.append_empty]
        rfl
      | kept hn _ => cases hd.symm.trans hn
    | kept hn hs =>
      cases hb' with
      | document hd => cases hd.symm.trans hn
      | kept hn' hs' =>
        obtain rfl := Option.some.inj (hs'.symm.trans (congrArg (Option.map (· ++ "\n")) hs))
        rw [lastDocument?, commandDocument?_eq hn', if_pos rfl, expanded_concat_break,
          String.append_empty, String.append_empty]
  | cons block he ih =>
    obtain ⟨⟩ | ⟨hb, hbs⟩ := h
    obtain ⟨⟩ | ⟨hb', hbs'⟩ := h'
    obtain ⟨rfl, rfl⟩ := hb.unique hb'
    rw [ih hbs hbs', hb.lastDocument?_cons he.ne_nil, String.append_assoc]

/-- What the blocks of a text become ends with a line break if the text does, unless a command is
last whose document is put in its place. -/
theorem BlocksBecome.getLast? {blocks : List Task.Block} {text : String}
    {selectors selectors' : Selectors}
    (h : BlocksBecome answer options bases d fm selectors blocks text selectors')
    (hne : blocks ≠ [])
    (hlast : ∀ block ∈ blocks.getLast?, (∃ c, block = .command c ∧ c.source = none)
      ∨ block.kept.toList.getLast? = some '\n')
    (hd : lastDocument? options bases d selectors blocks = none) :
    text.toList.getLast? = some '\n' := by
  have hexpanded : ∀ {params content}, content.toList.getLast? = some '\n' →
      (expanded answer options d fm params content).toList.getLast? = some '\n' := by
    intro params content hc
    obtain ⟨s, hs⟩ := List.getLast?_eq_some_iff.mp hc
    obtain rfl : content = String.ofList s ++ "\n" := String.ext (by simp [hs])
    simp [expanded_concat_break]
  induction h with
  | nil => exact absurd rfl hne
  | @cons selectors selectors₁ selectors₂ block blocks text texts hb hbs ih =>
    rcases eq_or_ne blocks [] with rfl | hne
    · obtain ⟨⟩ := hbs
      rw [String.append_empty]
      have hlast' := hlast block rfl
      cases hb with
      | text fragments =>
        rcases hlast' with ⟨_, ⟨⟩, -⟩ | hkept
        exact hexpanded hkept
      | document hdoc => cases (commandDocument?_eq hdoc).symm.trans hd
      | kept hn hsource =>
        rcases hlast' with ⟨_, ⟨⟩, hnone⟩ | hkept
        · cases hnone.symm.trans hsource
        · rw [Task.Block.kept, hsource] at hkept
          exact hexpanded hkept
    · rw [hb.lastDocument?_cons hne] at hd
      rw [List.getLast?_cons_of_ne_nil hne] at hlast
      have htexts := ih hne hlast hd
      rw [String.toList_append, List.getLast?_append, htexts]
      rfl

/-- The blocks of two texts one behind the other: those of the first become what they become without
the other text, if no placeholder goes over from the one into the other. -/
theorem BlocksBecome.of_append (fragments : List String) (rest : List Task.Block)
    {blocks : List Task.Block} {text : String} {selectors selectors' : Selectors}
    (h : BlocksBecome answer options bases d fm selectors
      (Task.Block.append blocks (.text fragments :: rest)) text selectors')
    (hs : FrontMatter.expands fm = false
      ∨ Splits (lastText blocks) (Task.Block.content fragments).toList) :
    ∃ front selectors₁ more,
      BlocksBecome answer options bases d fm selectors blocks front selectors₁
        ∧ text = front ++ (expanded answer options d fm options.params
          (Task.Block.content fragments) ++ more) := by
  fun_induction lastText blocks generalizing text selectors with
  | case1 =>
    obtain ⟨⟩ | ⟨⟨⟩, hrest⟩ := h
    exact ⟨"", selectors, _, .nil _, (String.empty_append).symm⟩
  | case2 fragments' =>
    obtain ⟨⟩ | ⟨⟨⟩, hrest⟩ := h
    rename_i more
    have hcontent : Task.Block.content (fragments' ++ fragments)
        = Task.Block.content fragments' ++ Task.Block.content fragments := String.join_append
    refine ⟨_, selectors, more, .cons (.text fragments') (.nil _), ?_⟩
    rw [hcontent, expanded_append hs, String.append_empty, String.append_assoc]
  | case3 c =>
    obtain ⟨⟩ | ⟨hb, ⟨⟩ | ⟨⟨⟩, hrest⟩⟩ := h
    exact ⟨_, _, _, .cons hb (.nil _), by rw [String.append_empty]⟩
  | case4 block next blocks ih =>
    rw [Task.Block.append_cons_cons] at h
    obtain ⟨⟩ | ⟨hb, hbs⟩ := h
    obtain ⟨front, selectors₁, more, hfront, rfl⟩ := ih hbs hs
    exact ⟨_, selectors₁, more, .cons hb hfront, (String.append_assoc ..).symm⟩

theorem BlocksBecome.unique {blocks : List Task.Block} {text text' : String}
    {selectors selectors₁ selectors₂ : Selectors}
    (h : BlocksBecome answer options bases d fm selectors blocks text selectors₁)
    (h' : BlocksBecome answer options bases d fm selectors blocks text' selectors₂) :
    text = text' := by
  induction h generalizing text' with
  | nil =>
    cases h'
    rfl
  | cons hb _ ih =>
    obtain ⟨⟩ | ⟨hb', hbs'⟩ := h'
    obtain ⟨rfl, rfl⟩ := hb.unique hb'
    rw [ih hbs']

end Becomes

end Assembly

end Briefing
