import Briefing.Proofs.LineCommands

/-!
# Written-out task texts read back

A task text that was read can be written out and read again: this never fails, and writes out to
the same text (`parse_render`). Which commands the second reading has is settled line by line. A
command that opens its line is read again. The text before a command within a line is written out as
it was, and the command after it in canonical form; if a quote that stands open in that text occurs
in the canonical form, it now closes there, and the line has no command any more (`lasting`).
-/

namespace Briefing.Task

open Token (Lexeme scanFrom source)

/-- What a command asks for, wherever it stands. -/
def Command.call (c : Command) : String × List Argument := (c.name, c.arguments)

/-- The quotes that stand open on a line behind a fragment, with those that did before it. -/
def openAfter (opened : List Char) (fragment : String) : List Char :=
  if fragment.toList.any isBreak then []
  else match fragment.toList with
    | [c] => if isQuote c then c :: opened else opened
    | _ => opened

/-- The commands of these blocks that are read again when the blocks are written out: those whose
canonical text has none of the quotes that stand open before them on their line. -/
def lasting (opened : List Char) : List Block → List Command
  | [] => []
  | .text fragments :: blocks => lasting (fragments.foldl openAfter opened) blocks
  | .command c :: blocks =>
    if opened.any fun q => c.render.toList.contains q then lasting [] blocks
    else c :: lasting [] blocks

namespace Item

/-! ## Items written out -/

/-- The text of items: fragments as they are, commands in canonical form. -/
def renderAll : List Item → List Char
  | [] => []
  | fragment t :: items => t.toList ++ renderAll items
  | command c :: [] => c.render.toList
  | command c :: items => c.render.toList ++ '\n' :: renderAll items

/-- The commands among items. -/
def commands (items : List Item) : List Command :=
  items.filterMap fun
    | command c => some c
    | fragment _ => none

/-- The commands among items that are read again when the items are written out. -/
def lasting (opened : List Char) : List Item → List Command
  | [] => []
  | fragment t :: items => lasting (openAfter opened t) items
  | command c :: items =>
    if opened.any fun q => c.render.toList.contains q then lasting [] items
    else c :: lasting [] items

theorem renderBlocks_toBlocks (items : List Item) :
    (Script.renderBlocks (toBlocks items)).toList = renderAll items := by
  induction items with
  | nil => rfl
  | cons item items ih =>
    cases item with
    | fragment t =>
      rw [toBlocks, renderAll, ← ih]
      rcases toBlocks items with _ | ⟨_ | _, _⟩ <;>
        simp [Script.renderBlocks, Block.content, String.join_cons]
    | command c =>
      rw [toBlocks]
      cases items with
      | nil => rfl
      | cons item items =>
        rw [renderAll, ← ih]
        · have hne : ∃ b bs, toBlocks (item :: items) = b :: bs := by
            cases item with
            | command c => exact ⟨_, _, rfl⟩
            | fragment t =>
              rw [toBlocks]
              rcases toBlocks items with _ | ⟨_ | _, _⟩ <;> exact ⟨_, _, rfl⟩
          obtain ⟨b, bs, hb⟩ := hne
          rw [hb, Script.renderBlocks]
          · simp
          · simp
        · simp

theorem commands_toBlocks (items : List Item) :
    Script.commands ⟨toBlocks items⟩ = commands items := by
  induction items with
  | nil => rfl
  | cons item items ih =>
    cases item with
    | fragment t =>
      have hc : commands (fragment t :: items) = commands items := rfl
      rw [hc, ← ih, toBlocks, Script.commands, Script.commands]
      rcases toBlocks items with _ | ⟨_ | _, _⟩ <;> rfl
    | command c => exact congrArg (c :: ·) ih

theorem lasting_toBlocks (opened : List Char) (items : List Item) :
    Task.lasting opened (toBlocks items) = lasting opened items := by
  induction items generalizing opened with
  | nil => rfl
  | cons item items ih =>
    cases item with
    | fragment t =>
      rw [lasting, ← ih, toBlocks]
      rcases toBlocks items with _ | ⟨_ | _, _⟩ <;> rfl
    | command c => rw [lasting, toBlocks, Task.lasting, ih]

theorem renderAll_ofToken (tokens : List Token) (items : List Item) :
    renderAll (tokens.map ofToken ++ items) = source tokens ++ renderAll items := by
  induction tokens with
  | nil => rfl
  | cons t tokens ih =>
    rw [List.map_cons, List.cons_append, ofToken, renderAll, ih, String.toList_ofList]
    simp [source]

theorem renderAll_ofTrailing (trailing : List Char) (items : List Item) :
    renderAll (ofTrailing trailing ++ items) = trailing ++ renderAll items := by
  cases trailing <;> simp [ofTrailing, renderAll]

theorem renderAll_command (c : Command) {items : List Item} (h : items ≠ []) :
    renderAll (command c :: items) = c.render.toList ++ '\n' :: renderAll items := by
  cases items with
  | nil => exact absurd rfl h
  | cons item items => rfl

theorem lasting_ofToken (opened : List Char) (tokens : List Token) (items : List Item) :
    lasting opened (tokens.map ofToken ++ items)
      = lasting (tokens.foldl (fun o t => openAfter o (String.ofList t.text)) opened) items := by
  induction tokens generalizing opened with
  | nil => rfl
  | cons t tokens ih => rw [List.map_cons, List.cons_append, ofToken, lasting, ih]; rfl

theorem lasting_ofTrailing {trailing : List Char} (h : ∀ c ∈ trailing, isBreak c = true)
    (items : List Item) : lasting [] (ofTrailing trailing ++ items) = lasting [] items := by
  rcases trailing with _ | ⟨c, s⟩
  · rfl
  · have hc := h c List.mem_cons_self
    simp [ofTrailing, lasting, openAfter, hc]

theorem commands_ofToken (tokens : List Token) : commands (tokens.map ofToken) = [] := by
  induction tokens with
  | nil => rfl
  | cons t tokens ih => exact ih

theorem commands_ofTrailing (trailing : List Char) : commands (ofTrailing trailing) = [] := by
  cases trailing <;> rfl

theorem commands_append (items items' : List Item) :
    commands (items ++ items') = commands items ++ commands items' := List.filterMap_append

theorem commands_ofLine (pre : List Token) (c : Command) (trailing : List Char) :
    commands (ofLine pre c trailing) = [c] := by
  rw [ofLine, commands_append, commands_ofToken]
  exact congrArg (c :: ·) (commands_ofTrailing trailing)

end Item

/-! ## Quotes that stand open -/

theorem openAfter_of_isQuote {q : Char} (hq : isQuote q = true) (opened : List Char) :
    openAfter opened (String.ofList [q]) = q :: opened := by
  simp [openAfter, hq, Token.isBreak_of_isQuote hq]

theorem openAfter_of_not_quote {t : List Char} (ht : ∀ c ∈ t, isBreak c = false)
    (h : ∀ c, t = [c] → isQuote c = false) (opened : List Char) :
    openAfter opened (String.ofList t) = opened := by
  have hany : t.any isBreak = false := by simpa using ht
  rw [openAfter, String.toList_ofList, hany]
  split
  · contradiction
  · split
    · rw [h _ rfl]
      rfl
    · rfl

/-- Only an open quote adds to the quotes that stand open on a line. -/
theorem openAfter_lexeme {lineStart : Bool} {kind : Token.Kind} {text rest : List Char}
    (h : Lexeme lineStart kind text rest) (hb : ∀ c ∈ text, isBreak c = false) {q : Char}
    {opened : List Char} : q ∈ openAfter opened (String.ofList text) ↔
      q ∈ opened ∨ kind = .openQuote ∧ text = [q] := by
  cases h with
  | openQuote hquote _ =>
    rw [openAfter_of_isQuote hquote, List.mem_cons]
    simp [or_comm, eq_comm]
  | quoted hquote _ =>
    rw [openAfter_of_not_quote hb (by simp)]
    simp
  | lineBreak hrun =>
    obtain ⟨c, s, rfl⟩ := List.exists_cons_of_ne_nil hrun.ne_nil
    simp [hrun.all c List.mem_cons_self] at hb
  | term hrun =>
    rw [openAfter_of_not_quote hb]
    · simp
    · rintro c rfl
      exact (isTermChar_iff.mp (hrun.all c (List.mem_singleton_self c))).2.2.1
  | blank hrun =>
    rw [openAfter_of_not_quote hb]
    · simp
    · rintro c rfl
      by_contra hquote
      have hgap := isGap_of_isQuote (by simpa using hquote)
      simp [hrun.all c (List.mem_singleton_self c)] at hgap
  | commandStart _ | slash _ | assign =>
    rw [openAfter_of_not_quote hb (by simp [isQuote])]
    simp

/-- The quotes that stand open behind tokens of a line are its tokens of that class. -/
theorem mem_openAfter {pre : List Token} (opened : List Char)
    (h : ∀ t ∈ pre, (∀ c ∈ t.text, isBreak c = false)
      ∧ ∃ lineStart rest, Lexeme lineStart t.kind t.text rest) (q : Char) :
    q ∈ pre.foldl (fun o t => openAfter o (String.ofList t.text)) opened ↔
      q ∈ opened ∨ ∃ t ∈ pre, t.kind = .openQuote ∧ t.text = [q] := by
  induction pre generalizing opened with
  | nil => simp
  | cons t pre ih =>
    obtain ⟨hb, lineStart, rest, hl⟩ := h t List.mem_cons_self
    rw [List.foldl_cons, ih _ fun u hu => h u (List.mem_cons_of_mem _ hu), openAfter_lexeme hl hb]
    simp only [List.mem_cons, exists_eq_or_imp, or_assoc]

/-- Whether a quote that stands open before a command is in its canonical text. -/
theorem StartsCommand.any_opened {pre : List Token} {slash : Token} {t : List Char}
    (h : StartsCommand pre slash t) (c : Command) :
    ((pre.foldl (fun o t => openAfter o (String.ofList t.text)) []).any fun q =>
        c.render.toList.contains q) = true
      ↔ ∃ tok ∈ pre, tok.kind = .openQuote ∧ ∃ q ∈ tok.text, q ∈ c.render.toList := by
  have hmem := mem_openAfter [] fun tok htok => ⟨h.noBreak tok htok, h.lexeme tok htok⟩
  simp only [List.any_eq_true, List.contains_iff_mem, hmem, List.not_mem_nil, false_or]
  constructor
  · rintro ⟨q, ⟨tok, htok, hk, htext⟩, hq⟩
    exact ⟨tok, htok, hk, q, by simp [htext], hq⟩
  · rintro ⟨tok, htok, hk, q, hqt, hq⟩
    refine ⟨q, ⟨tok, htok, hk, ?_⟩, hq⟩
    obtain ⟨_, _, hl⟩ := h.lexeme tok htok
    rw [hk] at hl
    generalize tok.text = text at hl hqt
    cases hl with
    | openQuote _ _ => rw [List.mem_singleton.mp hqt]

/-! ## All lines -/

/-- The items of a text. -/
def itemsOf (s : List Char) : Except ParseError (List Item) :=
  Item.ofTokens false (scanFrom 0 true s)

theorem itemsOf_nil : itemsOf [] = .ok [] := by
  rw [itemsOf, Token.scanFrom_nil, Item.ofTokens_nil]

/-- A text that is cut behind a line has the items of its parts. -/
theorem itemsOf_append_ok {a b : List Char}
    (h : b = [] ∨ EndsIn isBreak a ∧ ∀ c ∈ b.head?, isBreak c = false) {items : List Item} :
    itemsOf (a ++ b) = .ok items ↔
      ∃ front back, itemsOf a = .ok front ∧ itemsOf b = .ok back ∧ items = front ++ back := by
  rcases h with rfl | ⟨ha, hb⟩
  · rw [List.append_nil, itemsOf_nil]
    constructor
    · exact fun h => ⟨items, [], h, rfl, by simp⟩
    · rintro ⟨front, _, h, ⟨⟩, rfl⟩
      rwa [List.append_nil]
  · have happend := Item.ofTokens_scan_append (a := String.ofList a) (b := String.ofList b)
      (.inr (by rwa [String.toList_ofList])) (by rwa [String.toList_ofList])
    rw [← String.ofList_append] at happend
    simp only [Token.scan, String.toList_ofList] at happend
    rw [itemsOf, happend, itemsOf, itemsOf]
    cases Item.ofTokens false (scanFrom 0 true a) with
    | error e => simp [Except.bind]
    | ok front =>
      cases Item.ofTokens false (scanFrom 0 true b) with
      | error e => simp [Except.bind, Except.map, Except.mapError]
      | ok back => simp [Except.bind, Except.map, Except.mapError, eq_comm]

/-- Items written out start as the text that they were read from. -/
theorem head?_renderAll {afterBlank : Bool} {items : List Item} {s : List Char}
    (h : ItemsText afterBlank items s) : (Item.renderAll items).head? = s.head? := by
  have hcommand : ∀ {c : Command} {items : List Item} {span rest : List Char} {name : String}
      {args : List Argument}, IsCommandText span name args →
      (Item.renderAll (.command c :: items)).head? = (span ++ rest).head? := by
    rintro c items _ rest _ _ ⟨⟩
    cases items <;> simp [Item.renderAll, Command.toList_render]
  cases h with
  | nil => rfl
  | @fragment _ _ t rest items ht _ _ =>
    obtain ⟨c, s, rfl⟩ := List.exists_cons_of_ne_nil ht
    simp [Item.renderAll]
  | opening hc _ | inline hc _ _ => exact hcommand hc

theorem renderAll_eq_nil {s : List Char} {items : List Item} (h : itemsOf s = .ok items) :
    Item.renderAll items = [] ↔ items = [] := by
  constructor
  · intro hr
    have hhead := head?_renderAll (Item.ofTokens_text h rfl)
    rw [hr] at hhead
    obtain rfl := List.head?_eq_none_iff.mp hhead.symm
    exact (Except.ok.inj (itemsOf_nil.symm.trans h)).symm
  · rintro rfl
    rfl

/-- What stands between a command and the items behind what is left of the breaks that end it. -/
def ending (trailing : List Char) (more : List Item) : List Char :=
  if trailing.isEmpty && more.isEmpty then [] else '\n' :: trailing

theorem renderAll_command_ending (c : Command) (trailing : List Char) (more : List Item) :
    Item.renderAll (.command c :: (Item.ofTrailing trailing ++ more))
      = c.render.toList ++ ending trailing more ++ Item.renderAll more := by
  have hrest := Item.renderAll_ofTrailing trailing more
  rcases trailing with _ | ⟨x, s⟩
  · rcases more with _ | ⟨item, more⟩
    · simp [Item.ofTrailing, Item.renderAll, ending]
    · rw [Item.renderAll_command _ (by simp), hrest]
      simp [ending]
  · rw [Item.renderAll_command _ (by simp [Item.ofTrailing]), hrest]
    simp [ending]

theorem renderAll_ofLine (pre : List Token) (c : Command) (trailing : List Char)
    (more : List Item) : Item.renderAll (Item.ofLine pre c trailing ++ more)
      = source pre ++ (c.render.toList ++ ending trailing more) ++ Item.renderAll more := by
  rw [Item.ofLine, List.append_assoc, List.cons_append, Item.renderAll_ofToken,
    renderAll_command_ending]
  simp

theorem ending_breaks {trailing : List Char} (ht : ∀ c ∈ trailing, isBreak c = true)
    (more : List Item) : (∀ c ∈ ending trailing more, isBreak c = true)
      ∧ Token.dropBreak (ending trailing more) = trailing
      ∧ (more = [] ∨ EndsIn isBreak (ending trailing more)) := by
  unfold ending
  split
  · rename_i h
    obtain ⟨rfl, rfl⟩ := by simpa using h
    exact ⟨by simp, rfl, .inl rfl⟩
  · have hall : ∀ c ∈ '\n' :: trailing, isBreak c = true := List.forall_mem_cons.mpr ⟨rfl, ht⟩
    exact ⟨hall, rfl, .inr (endsIn_of_forall (List.cons_ne_nil _ _) hall)⟩

theorem lasting_line {tokens : List Token} (h : ∀ t ∈ tokens.getLast?, t.kind = .lineBreak)
    (hl : ∀ t ∈ tokens, ∃ lineStart rest, Lexeme lineStart t.kind t.text rest) (more : List Item) :
    Item.lasting [] (tokens.map Item.ofToken ++ more) = Item.lasting [] more := by
  rw [Item.lasting_ofToken]
  rcases List.eq_nil_or_concat tokens with rfl | ⟨front, t, rfl⟩
  · rfl
  · obtain ⟨_, _, hlex⟩ := hl t (by simp)
    rw [h t (by simp)] at hlex
    cases hlex with
    | lineBreak hrun =>
      obtain ⟨c, s, hc⟩ := List.exists_cons_of_ne_nil hrun.ne_nil
      have hb := hrun.all c (by simp [hc])
      simp [openAfter, hc, hb]

theorem lasting_ofLine (pre : List Token) (c : Command) {trailing : List Char}
    (ht : ∀ x ∈ trailing, isBreak x = true) (more : List Item) :
    Item.lasting [] (Item.ofLine pre c trailing ++ more)
      = if (pre.foldl (fun o t => openAfter o (String.ofList t.text)) []).any fun q =>
          c.render.toList.contains q then Item.lasting [] more
        else c :: Item.lasting [] more := by
  rw [Item.ofLine, List.append_assoc, List.cons_append, Item.lasting_ofToken, Item.lasting,
    Item.lasting_ofTrailing ht]

theorem mem_dropBreak {s : List Char} : ∀ c ∈ Token.dropBreak s, c ∈ s := by
  intro c hc
  unfold Token.dropBreak at hc
  split at hc
  · simp [hc]
  · exact List.mem_of_mem_drop hc

/-- The items of a line are written out as `line` before the items `more`. Read again, the line has
the items `items'`: these are written out as the same line before `more'`, and their commands are
the ones of the line that last. -/
structure LineRead (items more more' : List Item) (line : List Char) (items' : List Item) :
    Prop where
  written : Item.renderAll (items ++ more) = line ++ Item.renderAll more
  ends : more = [] ∨ EndsIn isBreak line
  read : itemsOf line = .ok items'
  rewritten : Item.renderAll (items' ++ more') = line ++ Item.renderAll more'
  calls : (Item.lasting [] (items ++ more)).map Command.call
    = (Item.commands items').map Command.call ++ (Item.lasting [] more).map Command.call

/-- A line of text is written out as it was. -/
theorem lineRead_text {line : List Char} {more : List Item} (more' : List Item)
    (h : itemsOf line = .ok ((scanFrom 0 true line).map Item.ofToken))
    (hend : more = [] ∨ EndsIn isBreak line) :
    LineRead ((scanFrom 0 true line).map Item.ofToken) more more' line
      ((scanFrom 0 true line).map Item.ofToken) := by
  refine ⟨?_, hend, h, ?_, ?_⟩
  · rw [Item.renderAll_ofToken, Token.source_scanFrom]
  · rw [Item.renderAll_ofToken, Token.source_scanFrom]
  · rw [Item.commands_ofToken]
    rcases hend with rfl | hend
    · rw [Item.lasting_ofToken]
      rfl
    · rw [lasting_line (Token.getLast?_scanFrom hend 0 true) lexeme_of_mem]
      rfl

/-- A line with a command has its canonical text instead, which is a command again or text. -/
theorem lineRead_command {pre : List Token} {slash : Token} {t : List Char} {c : Command}
    (h : StartsCommand pre slash t) (hc : c.IsWritable) {trailing : List Char}
    (ht : ∀ x ∈ trailing, isBreak x = true) {more more' : List Item}
    (hmore : more.isEmpty = more'.isEmpty) :
    ∃ line items', LineRead (Item.ofLine pre c trailing) more more' line items' := by
  obtain ⟨hbreaks, hdrop, hend⟩ := ending_breaks ht more
  refine ⟨source pre ++ (c.render.toList ++ ending trailing more), ?_⟩
  have hwritten := renderAll_ofLine pre c trailing more
  have hends : more = [] ∨ EndsIn isBreak
      (source pre ++ (c.render.toList ++ ending trailing more)) :=
    hend.imp_right fun hend => (hend.append _).append _
  have hlasting := lasting_ofLine pre c ht more
  by_cases hq : ∃ tok ∈ pre, tok.kind = .openQuote ∧ ∃ q ∈ tok.text, q ∈ c.render.toList
  · refine ⟨_, hwritten, hends, h.lost hc hbreaks hq, ?_, ?_⟩
    · rw [Item.renderAll_ofToken, Token.source_scanFrom]
    · rw [hlasting, if_pos ((h.any_opened c).mpr hq), Item.commands_ofToken]
      rfl
  · obtain ⟨kept, hread⟩ := h.reads hc hbreaks fun tok htok hk q hqt hmem =>
      hq ⟨tok, htok, hk, q, hqt, hmem⟩
    rw [hdrop] at hread
    refine ⟨_, hwritten, hends, hread, ?_, ?_⟩
    · rw [renderAll_ofLine, ending, ← hmore]
      rfl
    · rw [hlasting, if_neg ((h.any_opened c).not.mpr hq), Item.commands_ofLine]
      rfl

/-- A line of a text that was read, and what it is when it is written out and read again. -/
theorem line_render {x breaks : List Char} {items more more' : List Item}
    (hx : ∀ c ∈ x, isBreak c = false) (hbreaks : ∀ c ∈ breaks, isBreak c = true)
    (h : itemsOf (x ++ breaks) = .ok items) (hlast : breaks = [] → more = [])
    (hmore : more.isEmpty = more'.isEmpty) :
    ∃ line items', LineRead items more more' line items' := by
  rcases line_items hx hbreaks h with rfl | ⟨pre, slash, t, c, hline, hc, rfl⟩
  · refine ⟨x ++ breaks, _, lineRead_text more' h ?_⟩
    rcases eq_or_ne breaks [] with hb | hb
    · exact .inl (hlast hb)
    · exact .inr ((endsIn_of_forall hb hbreaks).append x)
  · exact lineRead_command hline hc (fun x hx => hbreaks x (mem_dropBreak x hx)) hmore

/-- The first line of a text, the breaks behind it, and the rest. -/
theorem exists_line (s : List Char) : ∃ x breaks b, s = x ++ breaks ++ b
    ∧ (∀ c ∈ x, isBreak c = false) ∧ (∀ c ∈ breaks, isBreak c = true)
    ∧ (∀ c ∈ b.head?, isBreak c = false) ∧ (breaks = [] → b = []) := by
  obtain ⟨r, hr⟩ : ∃ r, r = s.dropWhile fun c => !isBreak c := ⟨_, rfl⟩
  refine ⟨firstLine s, r.takeWhile isBreak, r.dropWhile isBreak, ?_, ?_, ?_, ?_, ?_⟩
  · rw [List.append_assoc, List.takeWhile_append_dropWhile, firstLine, hr,
      List.takeWhile_append_dropWhile]
  · intro c hc
    simpa using List.mem_takeWhile_imp hc
  · exact fun c hc => List.mem_takeWhile_imp hc
  · intro c hc
    have hhead := List.head?_dropWhile_not isBreak r
    rw [Option.mem_def.mp hc] at hhead
    simpa using hhead
  · intro hbreaks
    have hhead := List.head?_dropWhile_not (fun c => !isBreak c) s
    rw [← hr] at hhead
    rcases r with _ | ⟨c, r⟩
    · rfl
    · have hc : isBreak c = true := by simpa using hhead
      simp [hc] at hbreaks

/-- A text that was read is read again when it is written out, and written out to the same text. -/
theorem itemsOf_render {s : List Char} {items : List Item} (h : itemsOf s = .ok items) :
    ∃ items', itemsOf (Item.renderAll items) = .ok items'
      ∧ Item.renderAll items' = Item.renderAll items
      ∧ (Item.commands items').map Command.call = (Item.lasting [] items).map Command.call := by
  induction hn : s.length using Nat.strongRecOn generalizing s items with
  | _ n ih =>
    subst hn
    rcases eq_or_ne s [] with rfl | hne
    · obtain rfl := Except.ok.inj (itemsOf_nil.symm.trans h)
      exact ⟨[], itemsOf_nil, rfl, rfl⟩
    · obtain ⟨x, breaks, b, rfl, hx, hbreaks, hb, hlast⟩ := exists_line s
      have hcut : b = [] ∨ EndsIn isBreak (x ++ breaks) ∧ ∀ c ∈ b.head?, isBreak c = false := by
        rcases eq_or_ne breaks [] with hbr | hbr
        · exact .inl (hlast hbr)
        · exact .inr ⟨(endsIn_of_forall hbr hbreaks).append x, hb⟩
      obtain ⟨front, back, hfront, hback, rfl⟩ := (itemsOf_append_ok hcut).mp h
      have hlen : b.length < (x ++ breaks ++ b).length := by
        have hpos : (x ++ breaks).length ≠ 0 := by
          intro h0
          obtain ⟨rfl, hbr⟩ := List.append_eq_nil_iff.mp (List.length_eq_zero_iff.mp h0)
          exact hne (by rw [hbr, hlast hbr]; rfl)
        rw [List.length_append]
        omega
      obtain ⟨back', hback', hrender, hcalls⟩ := ih b.length hlen hback rfl
      have hempty : back.isEmpty = back'.isEmpty := by
        have hnil : back = [] ↔ back' = [] := by
          rw [← renderAll_eq_nil hback, ← renderAll_eq_nil hback', hrender]
        rw [Bool.eq_iff_iff, List.isEmpty_iff, List.isEmpty_iff]
        exact hnil
      have hnone : breaks = [] → back = [] := by
        intro hbr
        rw [hlast hbr] at hback
        exact (Except.ok.inj (itemsOf_nil.symm.trans hback)).symm
      obtain ⟨line, front', hline⟩ := line_render hx hbreaks hfront hnone hempty
      have hcut' : Item.renderAll back = [] ∨ EndsIn isBreak line
          ∧ ∀ c ∈ (Item.renderAll back).head?, isBreak c = false := by
        refine hline.ends.imp (fun h => by rw [h]; rfl) fun hend => ⟨hend, ?_⟩
        rwa [head?_renderAll (Item.ofTokens_text hback rfl)]
      refine ⟨front' ++ back', ?_, ?_, ?_⟩
      · rw [hline.written]
        exact (itemsOf_append_ok hcut').mpr ⟨front', back', hline.read, hback', rfl⟩
      · rw [hline.rewritten, hline.written, hrender]
      · rw [Item.commands_append, List.map_append, hcalls, hline.calls]

theorem lasting_sublist (opened : List Char) (blocks : List Block) :
    (lasting opened blocks).Sublist (Script.commands ⟨blocks⟩) := by
  induction blocks generalizing opened with
  | nil => exact List.Sublist.slnil
  | cons block blocks ih =>
    cases block with
    | text fragments => exact ih _
    | command c =>
      rw [lasting]
      split_ifs
      · exact (ih []).cons c
      · exact (ih []).cons_cons c

/-- A task text that was read is read again when it is written out, and then written out to the same
text. It has the same commands but for those that are lost to a quote open before them; so it has
the same commands exactly if none is lost. -/
theorem parse_render {text : String} {script : Script} (h : parse text = .ok script) :
    ∃ script', parse script.render = .ok script' ∧ script'.render = script.render
      ∧ script'.commands.map Command.call = (lasting [] script.blocks).map Command.call
      ∧ (script'.commands.map Command.call = script.commands.map Command.call ↔
        lasting [] script.blocks = script.commands) := by
  obtain ⟨items, hitems, rfl⟩ := map_eq_ok.mp h
  obtain ⟨items', hread, hrender, hcalls⟩ := itemsOf_render hitems
  have hparse : parse (Script.render ⟨Item.toBlocks items⟩) = .ok ⟨Item.toBlocks items'⟩ := by
    rw [← Item.renderBlocks_toBlocks] at hread
    exact map_eq_ok.mpr ⟨items', hread, rfl⟩
  have hcommands : (Script.commands ⟨Item.toBlocks items'⟩).map Command.call
      = (lasting [] (Item.toBlocks items)).map Command.call := by
    rw [Item.commands_toBlocks, Item.lasting_toBlocks, hcalls]
  refine ⟨_, hparse, ?_, hcommands, ?_⟩
  · rw [← String.toList_inj]
    exact (Item.renderBlocks_toBlocks items').trans
      (hrender.trans (Item.renderBlocks_toBlocks items).symm)
  · rw [hcommands]
    constructor
    · intro hsame
      refine (lasting_sublist [] (Item.toBlocks items)).eq_of_length ?_
      simpa using congrArg List.length hsame
    · exact fun hsame => by rw [hsame]

theorem parse_render_mixed : ∃ script,
    parse "it's /a x=y\n/d 'e f'\r\n5\" /g 'h i'\n" = .ok script
      ∧ lasting [] script.blocks = [⟨"a", [⟨some "x", "y"⟩], some "/a x=y\n"⟩,
        ⟨"d", [⟨none, "e f"⟩], none⟩]
      ∧ ∃ script', parse script.render = .ok script' ∧ script'.render = script.render
        ∧ script'.commands.map Command.call = (lasting [] script.blocks).map Command.call
        ∧ (script'.commands.map Command.call = script.commands.map Command.call ↔
          lasting [] script.blocks = script.commands) := by
  have h : parse "it's /a x=y\n/d 'e f'\r\n5\" /g 'h i'\n" = .ok ⟨[.text ["it", "'", "s", " "],
      .command ⟨"a", [⟨some "x", "y"⟩], some "/a x=y\n"⟩, .command ⟨"d", [⟨none, "e f"⟩], none⟩,
      .text ["5", "\"", " "], .command ⟨"g", [⟨none, "h i"⟩], some "/g 'h i'\n"⟩]⟩ := by
    decide +kernel
  exact ⟨_, h, by decide +kernel, parse_render h⟩

/-- A quote that stands open before a command closes where the command's value is quoted. -/
theorem parse_render_open_quote : ¬∀ text script, parse text = .ok script →
    ∃ script', parse script.render = .ok script' ∧ script'.render = script.render
      ∧ script'.commands.map Command.call = script.commands.map Command.call := by
  intro hstable
  have h : parse "5\" /cmd 'a b'" = .ok ⟨[.text ["5", "\"", " "],
      .command ⟨"cmd", [⟨none, "a b"⟩], some "/cmd 'a b'"⟩]⟩ := by decide +kernel
  obtain ⟨script', hread, -, hcommands⟩ := hstable _ _ h
  have hread' : parse (Script.render ⟨[.text ["5", "\"", " "],
      .command ⟨"cmd", [⟨none, "a b"⟩], some "/cmd 'a b'"⟩]⟩)
      = .ok ⟨[.text ["5", "\" /cmd \"", "a", " ", "b", "\""]]⟩ := by decide +kernel
  rw [hread'] at hread
  obtain rfl := Except.ok.inj hread
  simp [Script.commands] at hcommands

end Briefing.Task
