import Briefing.Proofs.Parts

/-!
# Placeholders at the end of a line

A line break behind a content is a segment of its own (`segments_concat_break`). What follows a line
is cut as if it stood alone, unless a command for the shell is left open in the line and goes on
over the break (`segments_seam`): no parameter and no reference holds a break.
-/

namespace Briefing.Expansion

open Briefing.Task (EndsIn isBreak)

/-! ## A break behind a content -/

/-- What is found in a text, with a break behind what is left. -/
def endRest (found : Option (Segment × List Char)) : Option (Segment × List Char) :=
  found.map fun n => (n.1, n.2 ++ ['\n'])

theorem cutClosed_concat_break {mark : Char} (hm : mark ≠ '\n') (s : List Char) :
    cutClosed mark (s ++ ['\n']) = (cutClosed mark s).map fun n => (n.1, n.2 ++ ['\n']) := by
  induction s with
  | nil => simp [cutClosed, hm.symm]
  | cons c s ih =>
    rw [List.cons_append, cutClosed, cutClosed, ih]
    split
    · rfl
    · cases cutClosed mark s <;> rfl

theorem parameter?_concat_break (s : List Char) :
    parameter? (s ++ ['\n']) = endRest (parameter? s) := by
  rcases s with _ | ⟨c, s⟩
  · rfl
  · by_cases hc : c = '\x7b'
    · rw [hc, List.cons_append, parameter?_brace, parameter?_brace,
        cutClosed_concat_break (by decide)]
      rcases cutClosed '\x7d' s with _ | ⟨t, r⟩
      · rfl
      · dsimp only [Option.map_some, Option.bind_some]
        split <;> rfl
    · simp [parameter?, hc, endRest]

theorem command?_concat_break (s : List Char) :
    command? (s ++ ['\n']) = endRest (command? s) := by
  rcases s with _ | ⟨c, s⟩
  · rfl
  · by_cases hc : c = '`'
    · rw [hc, List.cons_append, command?_backtick, command?_backtick,
        cutClosed_concat_break (by decide)]
      rcases cutClosed '`' s with _ | ⟨t, r⟩
      · rfl
      · dsimp only [Option.map_some, Option.bind_some]
        split <;> rfl
    · simp [command?, hc, endRest]

theorem pathStart_concat_break (s : List Char) : pathStart (s ++ ['\n']) = pathStart s := by
  fun_induction pathStart s with
  | case1 s ih => rw [List.cons_append, List.cons_append, pathStart, ih]
  | case2 c s hne hc =>
    rw [List.cons_append, pathStart, if_pos hc]
    rintro _ rfl
    exact absurd hc (by decide)
  | case3 c s hne hc ih =>
    rw [List.cons_append, pathStart, if_neg hc, ih]
    intro t hslash ht
    rcases s with _ | ⟨x, s⟩
    · simp at ht
    · exact hne s hslash (by rw [(List.cons.inj ht).1])
  | case4 => rfl

theorem reference?_concat_break (before : Option Char) (s : List Char) :
    reference? before (s ++ ['\n']) = endRest (reference? before s) := by
  have hhead : (s ++ ['\n']).head?.any startsPath = s.head?.any startsPath := by
    cases s <;> rfl
  have hwritten : writtenPath (s ++ ['\n']) = writtenPath s := by
    rw [writtenPath, pathStart_concat_break, writtenPath]
  rw [reference?, reference?, hhead, hwritten]
  split
  · rfl
  · dsimp only
    split
    · rfl
    · rw [List.drop_append_of_le_length (isPrefix_writtenPath s).length_le]
      rfl

theorem placeholder?_concat_break (before : Option Char) (c : Char) (s : List Char) :
    placeholder? before c (s ++ ['\n']) = endRest (placeholder? before c s) := by
  unfold placeholder?
  split_ifs
  · exact parameter?_concat_break s
  · exact command?_concat_break s
  · exact reference?_concat_break before s
  · rfl

/-- A break behind a content is a segment of its own. -/
theorem segments_concat_break (before : Option Char) (s : List Char) :
    segments before (s ++ ['\n']) = segments before s ++ [.char '\n'] := by
  fun_induction segments before s with
  | case1 =>
    rw [List.nil_append, segments_cons_none rfl, segments]
    rfl
  | case2 before c s n ih =>
    have hnext : next before c (s ++ ['\n']) = (n.1, n.2 ++ ['\n']) := by
      rw [next, placeholder?_concat_break]
      cases h : placeholder? before c s <;> simp [n, next, h, endRest]
    rw [List.cons_append, segments, hnext]
    exact congrArg (n.1 :: ·) ih

/-! ## A text behind a line -/

/-- No placeholder goes over from a text into the one behind it. -/
def Splits (x y : List Char) : Prop := segments none (x ++ y) = segments none x ++ segments none y

theorem splits_nil (y : List Char) : Splits [] y := by
  rw [Splits, List.nil_append, segments.eq_1 none, List.nil_append]

theorem notMem_pathStart (s : List Char) : '\n' ∉ pathStart s := by
  fun_induction pathStart s with
  | case1 s ih => simpa using ih
  | case2 => simp
  | case3 c s _ hc ih =>
    refine List.not_mem_cons_of_ne_of_not_mem ?_ ih
    rintro rfl
    exact absurd (by decide) hc
  | case4 => simp

theorem notMem_isParameterName {name : List Char} (h : isParameterName name = true) :
    '\n' ∉ name := by
  intro hmem
  rcases name with _ | ⟨c, s⟩
  · simp at hmem
  · simp only [isParameterName, Bool.or_eq_true, Bool.and_eq_true, List.all_eq_true] at h
    rcases h with h | ⟨hc, hs⟩
    · exact absurd (h _ hmem) (by decide)
    · rcases List.mem_cons.mp hmem with rfl | hmem
      · exact absurd hc (by decide)
      · exact absurd (hs _ hmem) (by decide)

/-- A placeholder with a break in it is a command for the shell. -/
theorem exists_command_of_mem {before : Option Char} {c : Char} {s r : List Char} {p : Segment}
    (h : placeholder? before c s = some (p, r)) (hmem : '\n' ∈ p.source) :
    ∃ text, p = .command text := by
  unfold placeholder? at h
  split at h
  · unfold parameter? at h
    repeat' split at h
    all_goals simp only [reduceCtorEq, Option.some.injEq, Prod.mk.injEq] at h
    obtain ⟨rfl, rfl⟩ := h
    have hname := notMem_isParameterName ‹_›
    simp [Segment.source, hname] at hmem
  split at h
  · unfold command? at h
    repeat' split at h
    all_goals simp only [reduceCtorEq, Option.some.injEq, Prod.mk.injEq] at h
    exact ⟨_, h.1.symm⟩
  split at h
  · simp only [reference?] at h
    repeat' split at h
    all_goals simp only [reduceCtorEq, Option.some.injEq, Prod.mk.injEq] at h
    obtain ⟨rfl, rfl⟩ := h
    have hpath := fun hm => notMem_pathStart s ((isPrefix_dropEnd isTrailing _).subset hm)
    rw [Segment.source, List.mem_cons] at hmem
    exact (hpath (hmem.resolve_left (by decide))).elim
  · cases h

/-- A command for the shell that goes over from the end of a line into a text that the separator
opens has the separator in it, with the break before it. -/
theorem infix_of_command {text x y r : List Char} (hx : x.getLast? = some '\n')
    (hy : "---\n".toList <+: y ++ r) (hne : y ≠ [])
    (h : x ++ y = (Segment.command text).source) : "\n---\n".toList <:+: text := by
  obtain ⟨x, rfl⟩ := List.getLast?_eq_some_iff.mp hx
  obtain ⟨z, hz⟩ := hy
  have hlast : y.getLast? = some '`' := by
    have hl := congrArg List.getLast? h
    rwa [List.getLast?_append_of_ne_nil _ hne, Segment.source, List.getLast?_concat] at hl
  obtain ⟨w, rfl⟩ : ∃ w, y = "---\n".toList ++ (w ++ ['`']) := by
    rcases List.append_eq_append_iff.mp hz with ⟨a, rfl, -⟩ | ⟨a, ha, -⟩
    · rcases List.eq_nil_or_concat a with rfl | ⟨w, b, rfl⟩
      · simp at hlast
      · rw [List.concat_eq_append, ← List.append_assoc, List.getLast?_concat] at hlast
        obtain rfl := Option.some.inj hlast
        exact ⟨w, by rw [List.concat_eq_append]⟩
    · have hmem : '`' ∈ "---\n".toList := ha ▸ List.mem_append_left _ (List.mem_of_getLast? hlast)
      simp at hmem
  have htext : x ++ '\n' :: ("---\n".toList ++ w) = '!' :: '`' :: text := by
    have hsource : x ++ '\n' :: ("---\n".toList ++ w) ++ ['`'] = '!' :: '`' :: text ++ ['`'] := by
      simpa [Segment.source] using h
    exact List.append_cancel_right hsource
  rcases x with _ | ⟨a, _ | ⟨b, x⟩⟩
  · simp at htext
  · simp at htext
  · obtain ⟨-, htext⟩ := List.cons.inj htext
    obtain ⟨-, rfl⟩ := List.cons.inj htext
    exact ⟨x, w, by simp⟩

/-- The segments of a line and of a text that the separator opens are those of each, unless a
command for the shell goes over the separator. -/
theorem segments_seam {y : List Char} (hy : "---\n".toList <+: y) {x : List Char}
    (hx : x.getLast? = some '\n') (before : Option Char) :
    segments before (x ++ y) = segments before x ++ segments none y
      ∨ ∃ text, .command text ∈ segments before (x ++ y) ∧ "\n---\n".toList <:+: text := by
  induction hn : x.length using Nat.strongRecOn generalizing x before with
  | _ n ih =>
    subst hn
    have hcut : IsCut x y := .inl ⟨'\n', hx, rfl⟩
    obtain ⟨c, s, rfl⟩ := List.exists_cons_of_ne_nil hcut.ne_nil
    rw [List.cons_append, segments, segments]
    rcases next_cut before hcut with hnext | ⟨p, r, hn, hlt⟩
    · have happend := next_append before c s
      have hlength := next_rest_length before c s
      rw [hnext]
      generalize next before c s = n at happend hlength
      obtain ⟨p, x⟩ := n
      dsimp only at happend hlength ⊢
      rw [happend] at hx
      rcases eq_or_ne x [] with rfl | hne
      · rw [List.append_nil] at hx
        rw [hx, List.nil_append, segments_of_not_word (by decide), segments.eq_1]
        exact .inl rfl
      · rw [List.getLast?_append_of_ne_nil _ hne] at hx
        rcases ih x.length hlength hx p.source.getLast? rfl with h | ⟨text, hmem, hinfix⟩
        · exact .inl (by rw [h]; rfl)
        · exact .inr ⟨text, List.mem_cons_of_mem _ hmem, hinfix⟩
    · -- the placeholder has the line's break in it, so it is a command
      have happend := placeholder?_append hn
      rw [← List.cons_append] at happend
      obtain ⟨a, hp, rfl⟩ : ∃ a, p.source = c :: s ++ a ∧ y = a ++ r := by
        rcases List.append_eq_append_iff.mp happend with ⟨a, hp, hy⟩ | ⟨a, -, hr⟩
        · exact ⟨a, hp, hy⟩
        · rw [hr, List.length_append] at hlt
          omega
      have hne : a ≠ [] := by
        rintro rfl
        exact absurd hlt (by simp)
      have hbreak : '\n' ∈ p.source := by
        rw [hp]
        exact List.mem_append_left _ (List.mem_of_getLast? hx)
      obtain ⟨text, rfl⟩ := exists_command_of_mem hn hbreak
      rw [next, hn]
      exact .inr ⟨text, List.mem_cons_self, infix_of_command hx hy hne hp.symm⟩

/-! ## Texts that hold no placeholder -/

theorem segments_break : segments none ['\n'] = [.char '\n'] := by
  rw [segments_cons_none rfl, segments]

theorem splits_break (x : List Char) : Splits x ['\n'] := by
  rw [Splits, segments_concat_break, segments_break]

theorem segments_separator (z : List Char) :
    segments none ("---\n".toList ++ z) = "---\n".toList.map .char ++ segments none z := by
  change segments none ('-' :: '-' :: '-' :: '\n' :: z) = _
  rw [segments_cons_none rfl, segments_cons_none rfl, segments_cons_none rfl,
    segments_cons_none rfl, segments_of_not_word (by decide)]
  rfl

theorem splits_separator (z : List Char) : Splits "---\n".toList z := by
  have hsep := segments_separator []
  rw [List.append_nil, segments.eq_1, List.append_nil] at hsep
  rw [Splits, segments_separator, hsep]

end Briefing.Expansion
