/-!
# Searching text

A text holds another one if it can be cut so that the other stands between the cuts; the first
place where it does is where texts are cut in two and replaced.
-/

namespace Briefing.Text

/-- Whether `s` holds `needle`. -/
def contains (needle : List Char) : List Char → Bool
  | [] => needle.isEmpty
  | c :: s => needle.isPrefixOf (c :: s) || contains needle s

/-- What stands before and after the first `needle` in `s`. -/
def cutAt (needle : List Char) : List Char → Option (List Char × List Char)
  | [] => if needle.isEmpty then some ([], []) else none
  | c :: s =>
    match needle.isPrefixOf? (c :: s) with
    | some rest => some ([], rest)
    | none => (cutAt needle s).map fun (before, after) => (c :: before, after)

/-- Lines as they are read: a line ends with LF or CR LF, and an empty text has none. -/
def lines (s : List Char) : List (List Char) :=
  let parts := s.splitOn '\n'
  let parts := if parts.getLast? = some [] then parts.dropLast.map (·, true)
    else parts.dropLast.map (·, true) ++ (parts.getLast?.map (·, false)).toList
  parts.map fun (line, ended) =>
    if ended && line.getLast? = some '\r' then line.dropLast else line

/-- A text is without a character, or it is a text without it, the character and another text. -/
theorem cut_induction {c : Char} {p : List Char → Prop} (last : ∀ s, c ∉ s → p s)
    (cut : ∀ s rest, c ∉ s → p rest → p (s ++ c :: rest)) (s : List Char) : p s := by
  induction hn : s.length using Nat.strongRecOn generalizing s with
  | _ n ih =>
    subst hn
    by_cases hs : c ∈ s
    · obtain ⟨front, rest, rfl, hfront⟩ := List.eq_append_cons_of_mem hs
      exact cut front rest hfront (ih _ (by simp; omega) rest rfl)
    · exact last s hs

/-! ## Texts between separators -/

section Split

variable {c : Char} {s front part : List Char}

theorem splitOn_cut (h : c ∉ front) (rest : List Char) :
    (front ++ c :: rest).splitOn c = front :: rest.splitOn c := by
  rw [List.splitOn_append_cons_self, List.splitOn_eq_singleton h, List.singleton_append]

/-- What stands between separators is in the text, without a separator. -/
theorem of_mem_splitOn (h : part ∈ s.splitOn c) : c ∉ part ∧ part ⊆ s := by
  induction s using cut_induction (c := c) with
  | last s hs =>
    rw [List.splitOn_eq_singleton hs, List.mem_singleton] at h
    rw [h]
    exact ⟨hs, List.Subset.refl s⟩
  | cut front rest hfront ih =>
    rw [splitOn_cut hfront, List.mem_cons] at h
    rcases h with rfl | h
    · exact ⟨hfront, List.subset_append_left ..⟩
    · obtain ⟨hpart, hrest⟩ := ih h
      exact ⟨hpart, fun d hd => List.mem_append_right _ (List.mem_cons_of_mem _ (hrest hd))⟩

theorem length_splitOn (c : Char) (s : List Char) :
    (s.splitOn c).length = s.count c + 1 := by
  induction s using cut_induction (c := c) with
  | last s hs =>
    rw [List.splitOn_eq_singleton hs, List.count_eq_zero.mpr hs]
    rfl
  | cut front rest hfront ih =>
    rw [splitOn_cut hfront, List.length_cons, ih, List.count_append,
      List.count_eq_zero.mpr hfront, List.count_cons_self, Nat.zero_add]

end Split

end Briefing.Text
