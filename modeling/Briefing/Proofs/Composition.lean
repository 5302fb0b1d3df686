import Briefing.Proofs.Rendering

/-!
# Task texts that are put together

A task need not come from a text: its blocks can be put together. If its commands can be written,
its texts have no commands, and every text before a command ends its line, it reads back as it was
put together, but for the fragments of its texts (`parse_render_writable`). The break that is
written behind a command and those that open the text behind it are one token, of which the command
takes the first break only (`itemsOf_render_command`).
-/

namespace Briefing.Task

open Token (IsRun Lexeme scanFrom)

/-- Blocks with the same command, or with the same text in whatever fragments. -/
inductive Block.Same : Block → Block → Prop
  | text {fragments fragments' : List String}
      (h : Block.content fragments = Block.content fragments') :
      Same (.text fragments) (.text fragments')
  | command (c : Command) : Same (.command c) (.command c)

/-- A block that reads as one block when it is written: a command that opens its line and can be
written, or some text without commands. -/
inductive Block.IsWritable : Block → Prop
  | text {fragments : List String} {script : Script} (hne : Block.content fragments ≠ "")
      (h : parse (Block.content fragments) = .ok script) (hc : script.commands = []) :
      IsWritable (.text fragments)
  | command {c : Command} (h : c.IsWritable) (hs : c.source = none) : IsWritable (.command c)

/-- Whether a block can stand before another one: text only before a command, and then it ends with
a break. -/
def Block.Precedes : Block → Block → Prop
  | .text fragments, .command _ => EndsIn isBreak (Block.content fragments).toList
  | .text _, .text _ => False
  | .command _, _ => True

/-- A task of blocks that can be written, each before one that it can stand before. -/
structure Script.IsWritable (script : Script) : Prop where
  blocks : ∀ block ∈ script.blocks, block.IsWritable
  chain : script.blocks.IsChain Block.Precedes

/-! ## A command before a text -/

theorem itemsOf_breaks {breaks : List Char} (h : ∀ c ∈ breaks, isBreak c = true) :
    itemsOf breaks = .ok (Item.ofTrailing breaks) := by
  rcases eq_or_ne breaks [] with rfl | hne
  · exact itemsOf_nil
  · have hrun : IsRun isBreak breaks [] := ⟨hne, h, by simp⟩
    have hscan := Token.scanFrom_lexeme 0 (@Lexeme.lineBreak true _ _ hrun)
    rw [List.append_nil, Token.scanFrom_nil] at hscan
    rw [itemsOf, hscan, Item.ofTokens_cons, Item.step_text (by simp) (by simp)]
    simp [Except.bind, Except.map, Item.ofTokens, Item.ofToken, Item.ofTrailing, hne]

theorem ofTokens_offset {offset : Nat} {s : List Char} {items : List Item}
    (h : itemsOf s = .ok items) : Item.ofTokens false (scanFrom offset true s) = .ok items := by
  rw [← Nat.add_zero offset, Token.scanFrom_shift, Item.ofTokens_shift]
  rw [itemsOf] at h
  rw [h]
  rfl

/-- The breaks that open a text, and the rest. -/
theorem exists_breaks (s : List Char) : ∃ breaks rest, s = breaks ++ rest
    ∧ (∀ c ∈ breaks, isBreak c = true) ∧ ∀ c ∈ rest.head?, isBreak c = false := by
  refine ⟨s.takeWhile isBreak, s.dropWhile isBreak, List.takeWhile_append_dropWhile.symm,
    fun c hc => List.mem_takeWhile_imp hc, fun c hc => ?_⟩
  have hhead := List.head?_dropWhile_not isBreak s
  rw [Option.mem_def.mp hc] at hhead
  simpa using hhead

/-- The items of a text are the breaks that open it and the items of the rest. -/
theorem itemsOf_breaks_append {breaks rest : List Char} (h : ∀ c ∈ breaks, isBreak c = true)
    (hrest : ∀ c ∈ rest.head?, isBreak c = false) {items : List Item} :
    itemsOf (breaks ++ rest) = .ok items ↔
      ∃ back, itemsOf rest = .ok back ∧ items = Item.ofTrailing breaks ++ back := by
  rcases eq_or_ne breaks [] with rfl | hne
  · simp [Item.ofTrailing]
  · rw [itemsOf_append_ok (.inr ⟨endsIn_of_forall hne h, hrest⟩), itemsOf_breaks h]
    constructor
    · rintro ⟨_, back, ⟨⟩, hback, rfl⟩
      exact ⟨back, hback, rfl⟩
    · rintro ⟨back, hback, rfl⟩
      exact ⟨_, back, rfl, hback, rfl⟩

/-- The canonical text of a command where a line ends is read as the command. -/
theorem itemsOf_render_command {c : Command} (h : c.IsWritable) {tail trailing : List Char}
    {tokens : List Token}
    (hend : LineEnd (1 + Text.byteLength c.name.toList
      + Text.byteLength (argumentsText c.arguments)) tail trailing tokens) :
    itemsOf (c.render.toList ++ tail) = (Item.ofTokens false tokens).map fun items =>
      .command { c with source := none } :: (Item.ofTrailing trailing ++ items) := by
  have htext : c.render.toList ++ tail
      = '/' :: (c.name.toList ++ (argumentsText c.arguments ++ tail)) := by
    rw [Command.toList_render]
    simp
  have hcommand := (@Token.command_scanFrom_iff ⟨.commandStart, ['/'], 0⟩ _ _ _
    ⟨c.arguments, trailing, tokens⟩).mpr ⟨_, _, rfl, h.name, argumentsText_text h.keys, hend⟩
  rw [htext, itemsOf, scanFrom_slash]
  exact (Item.ofTokens_commandStart rfl hcommand).trans (by rw [String.ofList_toList])

/-- A command before a break and a text is read as the command, and the text as it is on its own. -/
theorem parse_render_command_append {c : Command} (h : c.IsWritable) {text : String}
    {script : Script} (hs : parse text = .ok script) :
    parse (c.render ++ "\n" ++ text)
      = .ok ⟨.command { c with source := none } :: script.blocks⟩ := by
  obtain ⟨items, hitems, rfl⟩ := map_eq_ok.mp hs
  obtain ⟨breaks, rest, htext, hbreaks, hrest⟩ := exists_breaks text.toList
  rw [Token.scan, htext] at hitems
  obtain ⟨back, hback, rfl⟩ := (itemsOf_breaks_append hbreaks hrest).mp hitems
  -- the break behind the command and those that open the text are one token
  have hrun : IsRun isBreak ('\n' :: breaks) rest :=
    ⟨List.cons_ne_nil _ _, List.forall_mem_cons.mpr ⟨rfl, hbreaks⟩, hrest⟩
  have hread := itemsOf_render_command h (.breaks hrun)
  rw [ofTokens_offset hback] at hread
  have hwhole : (c.render ++ "\n" ++ text).toList
      = c.render.toList ++ ('\n' :: breaks ++ rest) := by
    rw [String.toList_append, String.toList_append, htext]
    simp
  rw [parse, Token.scan, hwhole]
  exact map_eq_ok.mpr ⟨_, hread, rfl⟩

/-! ## All blocks -/

/-- A text without commands is one block, unless it is empty. -/
theorem eq_text_of_parse {text : String} {script : Script} (h : parse text = .ok script)
    (hc : script.commands = []) (hne : text ≠ "") :
    ∃ fragments, script.blocks = [.text fragments] ∧ Block.content fragments = text := by
  obtain ⟨spans, hjoin, hspans⟩ := exists_spans h
  have hchain := parse_isChain h
  have htext : ∀ block ∈ script.blocks, ∃ fragments, block = .text fragments := by
    rintro (fragments | c) hb
    · exact ⟨fragments, rfl⟩
    · have hmem : c ∈ script.commands := List.mem_filterMap.mpr ⟨_, hb, rfl⟩
      simp [hc] at hmem
  rcases hblocks : script.blocks with _ | ⟨block, _ | ⟨block', blocks⟩⟩
  · rw [hblocks] at hspans
    cases hspans
    exact absurd hjoin.symm hne
  · obtain ⟨fragments, rfl⟩ := htext block (by simp [hblocks])
    refine ⟨fragments, rfl, ?_⟩
    rw [hblocks] at hspans
    cases hspans with
    | cons hspan hrest =>
      cases hspan
      cases hrest
      rw [← hjoin, String.join_cons]
      simp
  · obtain ⟨_, rfl⟩ := htext block (by simp [hblocks])
    obtain ⟨_, rfl⟩ := htext block' (by simp [hblocks])
    rw [hblocks] at hchain
    simp [Block.isText] at hchain

theorem head?_renderBlocks_command (c : Command) (blocks : List Block) :
    (Script.renderBlocks (.command c :: blocks)).toList.head? = some '/' := by
  cases blocks <;> simp [Script.renderBlocks, Command.toList_render]

/-- Blocks that can be written read back from their text. -/
theorem parse_renderBlocks : ∀ {blocks : List Block}, (∀ block ∈ blocks, block.IsWritable) →
    blocks.IsChain Block.Precedes →
      ∃ blocks', parse (Script.renderBlocks blocks) = .ok ⟨blocks'⟩
        ∧ blocks'.Forall₂ Block.Same blocks
  | [], _, _ => ⟨[], by decide +kernel, .nil⟩
  | .command c :: blocks, h, hchain => by
    obtain ⟨hc, hblocks⟩ := List.forall_mem_cons.mp h
    obtain ⟨blocks', hread, hsame⟩ := parse_renderBlocks hblocks hchain.tail
    cases hc with
    | command hc hs =>
      have hkeep : { c with source := none } = c := by rw [← hs]
      rcases blocks with _ | ⟨block, blocks⟩
      · have hcommand := hc.parse_alone
        rw [hkeep] at hcommand
        exact ⟨_, hcommand, .cons (.command c) .nil⟩
      · have hcommand := parse_render_command_append hc hread
        rw [hkeep] at hcommand
        exact ⟨_, hcommand, .cons (.command c) hsame⟩
  | .text fragments :: blocks, h, hchain => by
    obtain ⟨ht, hblocks⟩ := List.forall_mem_cons.mp h
    obtain ⟨blocks', hread, hsame⟩ := parse_renderBlocks hblocks hchain.tail
    cases ht with
    | text hne hparse hc =>
      obtain ⟨fragments', htext, hcontent⟩ := eq_text_of_parse hparse hc hne
      rcases blocks with _ | ⟨_ | c, blocks⟩
      · refine ⟨[.text fragments'], ?_, .cons (.text hcontent) .nil⟩
        rw [Script.renderBlocks, Script.renderBlocks, String.append_empty, hparse, ← htext]
      · exact absurd (List.isChain_cons_cons.mp hchain).1 id
      · -- the text ends its line, so that what follows is read on its own
        have hend : EndsIn isBreak (Block.content fragments).toList :=
          (List.isChain_cons_cons.mp hchain).1
        have hhead : ∀ x ∈ (Script.renderBlocks (.command c :: blocks)).toList.head?,
            isBreak x = false := by
          intro x hx
          rw [head?_renderBlocks_command] at hx
          obtain rfl : '/' = x := by simpa using hx
          rfl
        refine ⟨.text fragments' :: blocks', ?_, .cons (.text hcontent) hsame⟩
        refine (parse_append_ok (.inr hend) hhead).mpr ⟨_, blocks', hparse, hread, ?_⟩
        rw [htext]
        cases hsame with
        | cons hfirst _ =>
          cases hfirst
          rfl

/-- A task of blocks that can be written reads back from its text as these blocks. -/
theorem parse_render_writable {script : Script} (h : script.IsWritable) :
    ∃ script', parse script.render = .ok script'
      ∧ script'.blocks.Forall₂ Block.Same script.blocks := by
  obtain ⟨blocks, hread, hsame⟩ := parse_renderBlocks h.blocks h.chain
  exact ⟨⟨blocks⟩, hread, hsame⟩

theorem parse_render_writable_breaks :
    Script.IsWritable ⟨[.text ["see", "\r"], .command ⟨"b", [⟨some "k", "x\ny"⟩], none⟩,
        .command ⟨"d", [⟨none, ""⟩], none⟩, .text ["\n", "it's /"]]⟩
      ∧ ∃ script', parse (Script.render ⟨[.text ["see", "\r"],
          .command ⟨"b", [⟨some "k", "x\ny"⟩], none⟩, .command ⟨"d", [⟨none, ""⟩], none⟩,
          .text ["\n", "it's /"]]⟩) = .ok script'
        ∧ script'.blocks.Forall₂ Block.Same [.text ["see", "\r"],
          .command ⟨"b", [⟨some "k", "x\ny"⟩], none⟩, .command ⟨"d", [⟨none, ""⟩], none⟩,
          .text ["\n", "it's /"]] := by
  have hterm : ∀ name : String, name.toList ≠ [] → (name.toList.all isTermChar) = true →
      IsTerm name.toList := fun _ hne hall => ⟨hne, List.all_eq_true.mp hall⟩
  have hb : Command.IsWritable ⟨"b", [⟨some "k", "x\ny"⟩], none⟩ := by
    refine ⟨hterm "b" (by decide) (by decide), fun a ha key hkey => ?_⟩
    obtain rfl := List.mem_singleton.mp ha
    obtain rfl : "k" = key := by simpa using hkey
    exact hterm "k" (by decide) (by decide)
  have hd : Command.IsWritable ⟨"d", [⟨none, ""⟩], none⟩ := by
    refine ⟨hterm "d" (by decide) (by decide), fun a ha key hkey => ?_⟩
    obtain rfl := List.mem_singleton.mp ha
    simp at hkey
  have hfirst : Block.IsWritable (.text ["see", "\r"]) :=
    @Block.IsWritable.text _ ⟨[.text ["see", "\r"]]⟩ (by decide) (by decide +kernel) rfl
  have hlast : Block.IsWritable (.text ["\n", "it's /"]) :=
    @Block.IsWritable.text _ ⟨[.text ["\n", "it", "'", "s", " ", "/"]]⟩ (by decide)
      (by decide +kernel) rfl
  have h : Script.IsWritable ⟨[.text ["see", "\r"], .command ⟨"b", [⟨some "k", "x\ny"⟩], none⟩,
      .command ⟨"d", [⟨none, ""⟩], none⟩, .text ["\n", "it's /"]]⟩ := by
    refine ⟨?_, ?_⟩
    · simpa using ⟨hfirst, .command hb rfl, .command hd rfl, hlast⟩
    · simpa using ⟨⟨'\r', rfl, rfl⟩, trivial, trivial⟩
  exact ⟨h, parse_render_writable h⟩

end Briefing.Task
