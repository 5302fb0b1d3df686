import Briefing.Proofs.Canonical
import Briefing.Proofs.LineGrammar

/-!
# Canonical texts behind an open quote

A quote that nothing matched can find a match in a canonical text that is put behind it. The quoted
text then ends within a value of that canonical text (`closeQuote?_argumentsText`), and what follows
starts in the middle of a value (`inside`). Nothing of it is read as a command (`dead_inside`): each
slash has another slash, an open quote, or a quoted text right behind a term on its line, and none
of these can stand in a command (`line_not_spoiled`).
-/

namespace Briefing.Task

open Token (Enclosed IsRun Lexeme closeQuote? scanFrom)

/-- The keys of the arguments need no quotes. -/
def TermKeys (args : List Argument) : Prop := ∀ a ∈ args, ∀ key ∈ a.key, IsTerm key.toList

/-- What is left of canonical arguments behind a place within a quoted value, before which `value`
is left of that value. -/
def inside (value : List Char) (args : List Argument) : List Char :=
  value.flatMap escapeChar ++ '"' :: argumentsText args

/-- What an argument's canonical text has before its value. -/
def keyText (a : Argument) : List Char :=
  match a.key with
  | some key => key.toList ++ ['=']
  | none => []

/-! ## Quotes that close -/

theorem closeQuote?_enclosed {q : Char} {s : List Char} (h : Enclosed q s) (t : List Char) :
    closeQuote? q (s ++ t) = (closeQuote? q t).map fun (body, rest) => (s ++ body, rest) := by
  induction h with
  | nil => simp
  | escaped hc _ ih => simp [closeQuote?, hc, ih, Function.comp_def]
  | plain hne he hc _ ih =>
    rw [List.cons_append, Token.closeQuote?_cons he]
    simp [hc, hne, ih, Function.comp_def]

theorem closeQuote?_self {q : Char} (hq : isQuote q = true) (t : List Char) :
    closeQuote? q (q :: t) = some ([q], t) :=
  Token.closeQuote?_of_enclosed hq .nil t

theorem closeQuote?_eq_none {q : Char} {s : List Char} (h : q ∉ s) : closeQuote? q s = none := by
  fun_induction closeQuote? q s with
  | case1 | case2 | case3 | case5 => rfl
  | case4 c s _ ih =>
    rw [ih (by simp_all), Option.map_none]
  | case6 => simp at h
  | case7 c s _ _ _ _ ih =>
    rw [ih (by simp_all), Option.map_none]

/-- A quote that is open stays open if what may close it is exchanged for a text without it. -/
theorem closeQuote?_exchange {q : Char} {r t t' : List Char} (h : closeQuote? q (r ++ t) = none)
    (ht : q ∉ t') : closeQuote? q (r ++ t') = none := by
  fun_induction closeQuote? q r with
  | case1 => exact closeQuote?_eq_none ht
  | case2 =>
    rcases t' with _ | ⟨c, t'⟩
    · rfl
    · have hrest : closeQuote? q t' = none := closeQuote?_eq_none (by simp_all)
      simp [closeQuote?, hrest]
  | case3 c s hc => simp [closeQuote?, hc]
  | case4 c s hc ih => simpa [closeQuote?, hc] using ih (by simpa [closeQuote?, hc] using h)
  | case5 c s he he' hc =>
    rw [List.cons_append, Token.closeQuote?_cons (Token.ne_backslash_of_rest he he'), if_pos hc]
  | case6 s he he' hc =>
    rw [List.cons_append, Token.closeQuote?_cons (Token.ne_backslash_of_rest he he')] at h
    simp [hc] at h
  | case7 c s he he' hc hq ih =>
    have hcons := Token.closeQuote?_cons (q := q) (Token.ne_backslash_of_rest he he')
    rw [List.cons_append, hcons, if_neg hc, if_neg hq] at h ⊢
    rw [ih (by simpa using h), Option.map_none]

/-- What stands behind an open quote stands in quotes if that quote is put behind it. -/
theorem enclosed_of_open {q : Char} {r t : List Char} (h : closeQuote? q (r ++ t) = none)
    (hb : ∀ c ∈ r, isBreak c = false) (hlast : r.getLast? ≠ some '\\') : Enclosed q r := by
  fun_induction closeQuote? q r with
  | case1 => exact .nil
  | case2 => simp at hlast
  | case3 c s hc => simp [hb c (by simp)] at hc
  | case4 c s hc ih =>
    refine .escaped (by simpa using hc) (ih ?_ (fun x hx => hb x (by simp [hx])) ?_)
    · simpa [closeQuote?, hc] using h
    · rcases s with _ | ⟨x, s⟩
      · simp
      · simpa using hlast
  | case5 c s he he' hc => simp [hb c List.mem_cons_self] at hc
  | case6 s he he' hc =>
    rw [List.cons_append, Token.closeQuote?_cons (Token.ne_backslash_of_rest he he')] at h
    simp [hc] at h
  | case7 c s he he' hc hq ih =>
    have hne := Token.ne_backslash_of_rest he he'
    rw [List.cons_append, Token.closeQuote?_cons hne, if_neg hc, if_neg hq] at h
    refine .plain hq hne (by simpa using hc)
      (ih (by simpa using h) (fun x hx => hb x (by simp [hx])) ?_)
    rcases s with _ | ⟨x, s⟩
    · simp
    · simpa using hlast

theorem enclosed_of_notMem {q : Char} {s : List Char} (hq : q ∉ s)
    (hb : ∀ c ∈ s, isBreak c = false) (hlast : s.getLast? ≠ some '\\') : Enclosed q s :=
  enclosed_of_open (t := []) (closeQuote?_eq_none (by simpa using hq)) hb hlast

/-! ## Quotes that close in canonical arguments -/

theorem TermKeys.head {a : Argument} {args : List Argument} (h : TermKeys (a :: args)) :
    ∀ c ∈ ' ' :: keyText a, isQuote c = false ∧ isBreak c = false := by
  obtain ⟨key, value⟩ := a
  intro c hc
  rcases List.mem_cons.mp hc with rfl | hc
  · exact ⟨rfl, rfl⟩
  · cases key with
    | none => simp [keyText] at hc
    | some key =>
      rcases List.mem_append.mp hc with hc | hc
      · have hterm := isTermChar_iff.mp ((h _ List.mem_cons_self key rfl).all c hc)
        exact ⟨hterm.2.2.1, hterm.2.1⟩
      · obtain rfl := List.mem_singleton.mp hc
        exact ⟨rfl, rfl⟩

theorem TermKeys.tail {a : Argument} {args : List Argument} (h : TermKeys (a :: args)) :
    TermKeys args := fun b hb => h b (List.mem_cons_of_mem _ hb)

theorem getLast?_keyText (a : Argument) : (' ' :: keyText a).getLast? ≠ some '\\' := by
  unfold keyText
  split
  · rw [← List.cons_append, List.getLast?_concat]
    simp
  · simp

theorem argumentsText_plain {a : Argument} (args : List Argument)
    (h : isPlain a.value.toList = true) :
    argumentsText (a :: args) = (' ' :: keyText a ++ a.value.toList) ++ argumentsText args := by
  rw [argumentsText_cons, Argument.toList_render, keyText, renderValue, if_pos h]
  cases a.key <;> simp

theorem argumentsText_quoted {a : Argument} (args : List Argument)
    (h : ¬isPlain a.value.toList = true) :
    argumentsText (a :: args) = (' ' :: keyText a) ++ '"' :: inside a.value.toList args := by
  rw [argumentsText_cons, Argument.toList_render, keyText, renderValue, if_neg h, inside]
  cases a.key <;> simp

section Jump

variable {q : Char} {args : List Argument} (tail : List Char)

/-- The quote `q` closes within a value of the text, if that stands before `tail`. -/
def ClosesInside (q : Char) (text tail : List Char) : Prop :=
  ∃ body value args, closeQuote? q (text ++ tail) = some (body, inside value args ++ tail)
    ∧ TermKeys args

variable {tail}

theorem ClosesInside.enclosed {s t : List Char} (h : ClosesInside q t tail) (hs : Enclosed q s) :
    ClosesInside q (s ++ t) tail := by
  obtain ⟨body, value, args, hclose, hkeys⟩ := h
  exact ⟨s ++ body, value, args, by rw [List.append_assoc, closeQuote?_enclosed hs, hclose]; rfl,
    hkeys⟩

theorem closesInside_self (hq : isQuote q = true) (hkeys : TermKeys args) (value : List Char) :
    ClosesInside q (q :: inside value args) tail :=
  ⟨[q], value, args, closeQuote?_self hq _, hkeys⟩

/-- A single quote that closes in the arguments behind a value closes from within that value. -/
theorem closesInside_value (hkeys : TermKeys args)
    (hargs : '\'' ∈ argumentsText args → ClosesInside '\'' (argumentsText args) tail)
    {value : List Char} (h : '\'' ∈ inside value args) :
    ClosesInside '\'' (inside value args) tail := by
  induction value with
  | nil =>
    have hmem : '\'' ∈ argumentsText args := by simpa [inside] using h
    exact (hargs hmem).enclosed (.plain (by decide) (by decide) rfl .nil)
  | cons c value ih =>
    have hcons : inside (c :: value) args = escapeChar c ++ inside value args := by simp [inside]
    rw [hcons] at h ⊢
    rcases escapeChar_cases c with ⟨e, he, -, hterm⟩ | ⟨he, hc, -, hb⟩
    · have hne : '\'' ≠ e := by
        rintro rfl
        simp [isTermChar, isQuote] at hterm
      rw [he] at h ⊢
      exact (ih (by simpa [hne] using h)).enclosed (.escaped (isBreak_of_escape hterm) .nil)
    · rw [he] at h ⊢
      by_cases hq : c = '\''
      · subst hq
        exact closesInside_self rfl hkeys value
      · exact (ih (by simpa [Ne.symm hq] using h)).enclosed (.plain hq hc hb .nil)

/-- A quote that stands in canonical arguments closes there, within a value. -/
theorem closesInside_argumentsText (hq : isQuote q = true) (hkeys : TermKeys args)
    (h : q ∈ argumentsText args) {s : List Char}
    (hs : ∀ c ∈ s, isQuote c = false ∧ isBreak c = false) :
    ClosesInside q (s ++ argumentsText args) tail := by
  induction args generalizing s with
  | nil => simp at h
  | cons a args ih =>
    have hnot : ∀ {s : List Char}, (∀ c ∈ s, isQuote c = false ∧ isBreak c = false) → q ∉ s := by
      intro s hs hmem
      simp [(hs q hmem).1] at hq
    have hpre : ∀ c ∈ s ++ ' ' :: keyText a, isQuote c = false ∧ isBreak c = false :=
      fun c hc => (List.mem_append.mp hc).elim (hs c) (hkeys.head c)
    by_cases hv : isPlain a.value.toList = true
    · rw [argumentsText_plain args hv] at h ⊢
      have hvalue : ∀ c ∈ a.value.toList, isQuote c = false ∧ isBreak c = false := by
        intro c hc
        have hterm := isTermChar_iff.mp ((isTerm_of_isPlain hv).all c hc)
        exact ⟨hterm.2.2.1, hterm.2.1⟩
      have hs' : ∀ c ∈ s ++ ' ' :: keyText a ++ a.value.toList,
          isQuote c = false ∧ isBreak c = false :=
        fun c hc => (List.mem_append.mp hc).elim (hpre c) (hvalue c)
      have hmem : q ∈ argumentsText args := by
        rcases List.mem_append.mp h with h | h
        · exact absurd h ((List.mem_append.not.mpr fun h =>
            h.elim (hnot hkeys.head) (hnot hvalue)))
        · exact h
      simpa using ih hkeys.tail hmem hs'
    · rw [argumentsText_quoted args hv] at h ⊢
      have hlast : (s ++ ' ' :: keyText a).getLast? ≠ some '\\' := by
        rw [List.getLast?_append_of_ne_nil _ (List.cons_ne_nil _ _)]
        exact getLast?_keyText a
      have hs' : Enclosed q (s ++ ' ' :: keyText a) :=
        enclosed_of_notMem (hnot hpre) (fun c hc => (hpre c hc).2) hlast
      rw [← List.append_assoc]
      refine ClosesInside.enclosed ?_ hs'
      by_cases hdouble : q = '"'
      · subst hdouble
        exact closesInside_self rfl hkeys.tail _
      · obtain rfl : q = '\'' := by simpa [isQuote, hdouble] using hq
        have hmem : '\'' ∈ inside a.value.toList args := by
          rcases List.mem_append.mp h with h | h
          · exact absurd h (hnot hkeys.head)
          · simpa using h
        have hargs : '\'' ∈ argumentsText args →
            ClosesInside '\'' (argumentsText args) tail :=
          fun h => ih hkeys.tail h (s := []) (by simp)
        exact (closesInside_value hkeys.tail hargs hmem).enclosed
          (s := ['"']) (.plain (by decide) (by decide) rfl .nil)

end Jump

/-! ## Classes of tokens -/

namespace Token

/-- The classes of a text's tokens. -/
def kinds (lineStart : Bool) (s : List Char) : List Kind := (scanFrom 0 lineStart s).map kind

theorem map_kind_scanFrom (offset : Nat) (lineStart : Bool) (s : List Char) :
    (scanFrom offset lineStart s).map kind = kinds lineStart s := by
  rw [kinds, ← Nat.add_zero offset, scanFrom_shift, List.map_map]
  rfl

theorem kinds_lexeme {lineStart : Bool} {k : Kind} {text rest : List Char}
    (h : Lexeme lineStart k text rest) :
    kinds lineStart (text ++ rest) = k :: kinds (k = .lineBreak) rest := by
  rw [kinds, scanFrom_lexeme 0 h, List.map_cons, map_kind_scanFrom]

theorem kinds_quote {q : Char} (hq : isQuote q = true) (lineStart : Bool) (s : List Char) :
    kinds lineStart (q :: s) = match closeQuote? q s with
      | some (_, rest) => .quoted :: kinds false rest
      | none => .openQuote :: kinds false s := by
  split
  · rename_i body rest h
    obtain ⟨inner, hinner, -, rfl⟩ := enclosed_of_closeQuote? h
    have hk := kinds_lexeme (.quoted hq hinner : Lexeme lineStart .quoted _ rest)
    simpa using hk
  · rename_i h
    exact kinds_lexeme (.openQuote hq h : Lexeme lineStart .openQuote [q] s)

/-- A character before a text joins the run that the text starts with, or is a run of its own. -/
theorem kinds_cons_run {p : Char → Bool} {k : Kind} (hk : k ≠ .lineBreak)
    (hrun : ∀ {run rest : List Char}, IsRun p run rest → Lexeme false k run rest) {c : Char}
    (hc : p c = true) (s : List Char) :
    kinds false (c :: s) = kinds false s ∨ kinds false (c :: s) = k :: kinds false s := by
  rcases s with _ | ⟨x, s⟩
  · have hr : IsRun p [c] [] := ⟨List.cons_ne_nil _ _, by simpa using hc, by simp⟩
    have h := kinds_lexeme (hrun hr)
    simp only [decide_eq_false hk] at h
    exact .inr h
  · by_cases hx : p x = true
    · have hr := isRun_takeWhile hx s
      have hr' : IsRun p (c :: x :: s.takeWhile p) (s.dropWhile p) :=
        ⟨List.cons_ne_nil _ _, List.forall_mem_cons.mpr ⟨hc, hr.all⟩, hr.stops⟩
      have h := kinds_lexeme (hrun hr)
      have h' := kinds_lexeme (hrun hr')
      rw [List.cons_append, List.takeWhile_append_dropWhile] at h
      rw [List.cons_append, List.cons_append, List.takeWhile_append_dropWhile] at h'
      exact .inl (h'.trans h.symm)
    · have hr : IsRun p [c] (x :: s) := ⟨List.cons_ne_nil _ _, by simpa using hc, by simpa using hx⟩
      have h := kinds_lexeme (hrun hr)
      simp only [decide_eq_false hk] at h
      exact .inr h

/-! ## Lines that are no command -/

/-- On the first line of these tokens is a slash, an open quote, or a quoted text right behind a
term. -/
inductive Spoiled : List Kind → Prop
  | slash {ks : List Kind} : Spoiled (.slash :: ks)
  | openQuote {ks : List Kind} : Spoiled (.openQuote :: ks)
  | glued {ks : List Kind} : Spoiled (.term :: .quoted :: ks)
  | cons {k : Kind} {ks : List Kind} (hk : k ≠ .lineBreak) (h : Spoiled ks) : Spoiled (k :: ks)

/-- No slash of these tokens starts a command: its line is spoiled behind it. -/
inductive Inert : List Kind → Prop
  | nil : Inert []
  | cons {k : Kind} {ks : List Kind} (hk : k ≠ .commandStart) (hs : k = .slash → Spoiled ks)
      (h : Inert ks) : Inert (k :: ks)

theorem Inert.of_quiet {ks : List Kind} (h : ∀ k ∈ ks, k ≠ .slash ∧ k ≠ .commandStart) :
    Inert ks := by
  induction ks with
  | nil => exact .nil
  | cons k ks ih =>
    obtain ⟨hs, hc⟩ := h k List.mem_cons_self
    exact .cons hc (fun h => absurd h hs) (ih fun k hk => h k (List.mem_cons_of_mem _ hk))

theorem Inert.of_append {k : Kind} {ks ks' : List Kind} (h : Inert (ks ++ k :: ks')) :
    k ≠ .commandStart ∧ (k = .slash → Spoiled ks') := by
  induction ks with
  | nil =>
    cases h with
    | cons hk hs _ => exact ⟨hk, hs⟩
  | cons _ ks ih =>
    cases h with
    | cons _ _ h => exact ih h

theorem Spoiled.append {ks ks' : List Kind} (h : Spoiled ks') (hk : ∀ k ∈ ks, k ≠ .lineBreak) :
    Spoiled (ks ++ ks') := by
  induction ks with
  | nil => exact h
  | cons k ks ih =>
    exact .cons (hk k List.mem_cons_self) (ih fun k hk' => hk k (List.mem_cons_of_mem _ hk'))

theorem Spoiled.of_cons {k : Kind} {ks : List Kind} (h : Spoiled (k :: ks)) (hs : k ≠ .slash)
    (hq : k ≠ .openQuote) : k = .term ∧ ks.head? = some .quoted ∨ Spoiled ks := by
  cases h with
  | slash => exact absurd rfl hs
  | openQuote => exact absurd rfl hq
  | glued => exact .inl ⟨rfl, rfl⟩
  | cons _ h => exact .inr h

theorem Spoiled.of_argument {ks ks' : List Kind} (h : Spoiled (ks ++ ks'))
    (hks : ks ∈ argumentKinds) : ks'.head? = some .quoted ∨ Spoiled ks' := by
  have hterm : ∀ {ks : List Kind}, Spoiled (.term :: ks) → ks.head? = some .quoted ∨ Spoiled ks :=
    fun h => (h.of_cons (by simp) (by simp)).imp_left And.right
  have hquoted : ∀ {ks : List Kind}, Spoiled (.quoted :: ks) → Spoiled ks :=
    fun h => (h.of_cons (by simp) (by simp)).resolve_left (by simp)
  have hassign : ∀ {ks : List Kind}, Spoiled (.term :: .assign :: ks) → Spoiled ks :=
    fun h => (((hterm h).resolve_left (by simp)).of_cons (by simp) (by simp)).resolve_left (by simp)
  simp only [argumentKinds, List.mem_cons, List.not_mem_nil, or_false] at hks
  rcases hks with rfl | rfl | rfl | rfl | rfl
  · exact hterm h
  · exact .inr (hquoted h)
  · exact .inr (hassign h)
  · exact hterm (hassign h)
  · exact .inr (hquoted (hassign h))

/-- A line that is spoiled is no command's. -/
theorem line_not_spoiled {name : List Char} {tokens : List Token} {l : Line}
    (h : line name tokens = .ok l) :
    (tokens.map kind).head? ≠ some .quoted ∧ ¬Spoiled (tokens.map kind) := by
  fun_induction line name tokens generalizing l with
  | case1 => exact ⟨by simp, by rintro ⟨⟩⟩
  | case2 token tokens hk =>
    refine ⟨by simp [hk], ?_⟩
    rw [List.map_cons, hk]
    rintro ⟨⟩
    contradiction
  | case3 token hk =>
    refine ⟨by simp [hk], ?_⟩
    rw [List.map_cons, hk]
    rintro (_ | _ | _ | ⟨-, ⟨⟩⟩)
  | case4 token hk next rest hnext =>
    refine ⟨by simp [hk], ?_⟩
    rw [List.map_cons, List.map_cons, hk, hnext]
    rintro (_ | _ | _ | ⟨-, _ | _ | _ | ⟨hne, -⟩⟩)
    exact hne rfl
  | case5 => simp at h
  | case6 token hk next rest hnext a n harg ih =>
    obtain ⟨l', hl', -⟩ := map_eq_ok.mp h
    obtain ⟨hhead, hrest⟩ := ih hl'
    refine ⟨by simp [hk], ?_⟩
    rw [List.map_cons, hk]
    rintro (_ | _ | _ | ⟨-, hs⟩)
    rw [← List.take_append_drop n rest, ← List.cons_append, List.map_append] at hs
    exact (hs.of_argument (argument_kinds harg).2).elim hhead hrest
  | case7 => simp at h

theorem command_not_spoiled {slash : Token} {tokens : List Token} {name : List Char} {l : Line}
    (h : command slash tokens = .ok (name, l)) : ¬Spoiled (tokens.map kind) := by
  rcases tokens with _ | ⟨t, tokens⟩
  · simp [command] at h
  · rw [command] at h
    split_ifs at h with hk
    obtain ⟨l', hl, -⟩ := map_eq_ok.mp h
    obtain ⟨hhead, hrest⟩ := line_not_spoiled hl
    rw [List.map_cons, hk]
    exact fun hs => (hs.of_cons (by simp) (by simp)).elim (fun h => hhead h.2) hrest

end Token

/-! ## What stands inside a value -/

open Token (kinds kinds_lexeme kinds_quote kinds_cons_run Spoiled Inert)

/-- No command is read from these tokens, nor from others of their line before them. -/
structure Dead (ks : List Token.Kind) : Prop where
  spoiled : Spoiled ks
  inert : Inert ks

theorem Dead.cons {k : Token.Kind} {ks : List Token.Kind} (h : Dead ks) (hb : k ≠ .lineBreak)
    (hs : k ≠ .commandStart) : Dead (k :: ks) :=
  ⟨.cons hb h.spoiled, .cons hs (fun _ => h.spoiled) h.inert⟩

theorem Dead.append {ks ks' : List Token.Kind} (h : Dead ks')
    (hks : ∀ k ∈ ks, k ≠ .lineBreak ∧ k ≠ .commandStart) : Dead (ks ++ ks') := by
  induction ks with
  | nil => exact h
  | cons k ks ih =>
    obtain ⟨hb, hs⟩ := hks k List.mem_cons_self
    exact (ih fun k hk => hks k (List.mem_cons_of_mem _ hk)).cons hb hs

theorem lineEnd_of_forall {tail : List Char} (h : ∀ c ∈ tail, isBreak c = true) (offset : Nat) :
    LineEnd offset tail (Token.dropBreak tail) [] := by
  rcases eq_or_ne tail [] with rfl | hne
  · exact .stop
  · have hrun : IsRun isBreak tail [] := ⟨hne, h, by simp⟩
    have he : LineEnd offset (tail ++ []) _ _ := .breaks hrun
    rwa [List.append_nil, Token.scanFrom_nil] at he

section Inside

variable {args : List Argument} {tail : List Char}

theorem quiet_argumentsText (hkeys : TermKeys args) (ht : ∀ c ∈ tail, isBreak c = true) :
    ∀ k ∈ kinds false (argumentsText args ++ tail), k ≠ .slash ∧ k ≠ .commandStart := by
  obtain ⟨used, hused, hslash, -⟩ := Token.line_tokens
    (Token.line_of_text [] (argumentsText_text hkeys) (lineEnd_of_forall ht (0 + _)))
  rw [List.append_nil] at hused
  intro k hk
  rw [kinds, hused] at hk
  obtain ⟨t, htmem, rfl⟩ := List.mem_map.mp hk
  exact ⟨fun h => hslash t htmem (.inr h), fun h => hslash t htmem (.inl h)⟩

/-- A character before a text without commands, if it is neither a quote nor a break. -/
theorem Dead.cons_char {c : Char} {s : List Char} (h : Dead (kinds false s))
    (hq : isQuote c = false) (hb : isBreak c = false) : Dead (kinds false (c :: s)) := by
  have hrun : ∀ {p : Char → Bool} {k : Token.Kind}, k ≠ .lineBreak → k ≠ .commandStart →
      (∀ {run rest : List Char}, IsRun p run rest → Lexeme false k run rest) → p c = true →
      Dead (kinds false (c :: s)) := by
    intro p k hne hstart hlexeme hc
    rcases kinds_cons_run hne hlexeme hc s with he | he <;> rw [he]
    · exact h
    · exact h.cons hne hstart
  by_cases hs : c = '/'
  · have hk := kinds_lexeme (.slash rfl : Lexeme false .slash ['/'] s)
    rw [hs]
    exact hk ▸ h.cons (by simp) (by simp)
  by_cases ha : c = '='
  · have hk := kinds_lexeme (.assign : Lexeme false .assign ['='] s)
    rw [ha]
    exact hk ▸ h.cons (by simp) (by simp)
  by_cases hg : isGap c = true
  · exact hrun (by simp) (by simp) .blank hg
  · exact hrun (by simp) (by simp) .term
      (isTermChar_iff.mpr ⟨by simpa using hg, hb, hq, hs, ha⟩)

/-- An escaped double quote ends a term, and stands before quoted text that ends with the value. -/
theorem dead_escaped_quote (hkeys : TermKeys args) (ht : ∀ c ∈ tail, isBreak c = true)
    (value : List Char) : Dead (kinds false ('\\' :: '"' :: (inside value args ++ tail))) := by
  have hclose : closeQuote? '"' (inside value args ++ tail)
      = some (value.flatMap escapeChar ++ ['"'], argumentsText args ++ tail) := by
    rw [inside, List.append_assoc, List.cons_append]
    exact Token.closeQuote?_of_enclosed rfl (enclosed_escape value) _
  have hrun : IsRun isTermChar ['\\'] ('"' :: (inside value args ++ tail)) :=
    ⟨List.cons_ne_nil _ _, by simp [isTermChar, isGap, isBreak, isQuote],
      by simp [isTermChar, isQuote]⟩
  have hkinds : kinds false ('\\' :: '"' :: (inside value args ++ tail))
      = .term :: .quoted :: kinds false (argumentsText args ++ tail) := by
    have h := kinds_lexeme (.term hrun : Lexeme false .term _ _)
    rw [show decide (Token.Kind.term = .lineBreak) = false from rfl, kinds_quote rfl, hclose] at h
    exact h
  rw [hkinds]
  exact ⟨.glued, .of_quiet (by simpa using quiet_argumentsText hkeys ht)⟩

/-- A quote before a text stands open, or it closes within a value of the text, and what is left of
the text then has no command. -/
theorem dead_quote {q : Char} {s : List Char} (hq : isQuote q = true)
    (ht : ∀ c ∈ tail, isBreak c = true) (hcloses : q ∈ s → ClosesInside q s tail)
    (hopen : Inert (kinds false (s ++ tail)))
    (hclosed : ∀ {value args}, TermKeys args → (inside value args).length ≤ s.length →
      Dead (kinds false (inside value args ++ tail))) :
    Dead (kinds false (q :: (s ++ tail))) := by
  rw [kinds_quote hq]
  by_cases hmem : q ∈ s
  · obtain ⟨body, value, args, hclose, hkeys⟩ := hcloses hmem
    have hlen := congrArg List.length (Token.closeQuote?_append hclose)
    simp only [List.length_append] at hlen
    rw [hclose]
    exact (hclosed hkeys (by omega)).cons (by simp) (by simp)
  · have htail : q ∉ tail := fun h => by simpa [Token.isBreak_of_isQuote hq] using ht q h
    rw [closeQuote?_eq_none (by simp [hmem, htail])]
    exact ⟨.openQuote, .cons (by simp) (by simp) hopen⟩

/-- What stands within a quoted value of a canonical text is not read as a command. -/
theorem dead_inside (hkeys : TermKeys args) (ht : ∀ c ∈ tail, isBreak c = true)
    (value : List Char) : Dead (kinds false (inside value args ++ tail)) := by
  induction hn : (inside value args).length using Nat.strongRecOn generalizing value args with
  | _ n ih =>
    subst hn
    have hargs : ∀ {q : Char}, isQuote q = true → q ∈ argumentsText args →
        ClosesInside q (argumentsText args) tail :=
      fun hq h => closesInside_argumentsText hq hkeys h (s := []) (by simp)
    -- a quote that closes does so in what is shorter than this value with its arguments
    have hshorter : ∀ {s : List Char}, s.length < (inside value args).length → ∀ {value' args'},
        TermKeys args' → (inside value' args').length ≤ s.length →
        Dead (kinds false (inside value' args' ++ tail)) :=
      fun hlen _ _ hkeys' hle => ih _ (hle.trans_lt hlen) hkeys' _ rfl
    rcases value with _ | ⟨c, value⟩
    · exact dead_quote rfl ht (hargs rfl) (.of_quiet (quiet_argumentsText hkeys ht))
        (hshorter (by simp [inside]))
    · have hcons : inside (c :: value) args = escapeChar c ++ inside value args := by simp [inside]
      have hlen : (inside value args).length < (inside (c :: value) args).length := by
        rw [hcons, List.length_append]
        rcases escapeChar_cases c with ⟨e, he, -⟩ | ⟨he, -⟩ <;> simp [he]
      have hrest := ih _ hlen hkeys value rfl
      rw [hcons]
      rcases escapeChar_cases c with ⟨e, he, -, rfl | hterm⟩ | ⟨he, hc, hdouble, hb⟩
      · rw [he]
        exact dead_escaped_quote hkeys ht value
      · have hchar := isTermChar_iff.mp hterm
        rw [he]
        exact (hrest.cons_char hchar.2.2.1 hchar.2.1).cons_char rfl rfl
      · rw [he]
        by_cases hq : isQuote c = true
        · obtain rfl : c = '\'' := by simpa [isQuote, hdouble] using hq
          exact dead_quote rfl ht (closesInside_value hkeys (hargs rfl)) hrest.inert (hshorter hlen)
        · exact hrest.cons_char (by simpa using hq) hb

end Inside

end Briefing.Task
