import Mathlib.Data.List.Basic
import Mathlib.Data.Prod.Lex

/-!
# Lists in order

A list is in order if an item comes only when all that are to come before it have come
(`InOrder`); an item may come again. So the first time that an item comes tells its place. Lists in
order one after the other are in order, if the order within them is finer than their own
(`InOrder.flatMap`), as they are when their items are numbered by list (`inOrder_numbered`).
-/

namespace Briefing

/-- A list in which an item comes only when all that are to come before it have come. -/
def InOrder {α κ : Type} [LT κ] (key : α → κ) (l : List α) : Prop :=
  ∀ front x back, l = front ++ x :: back → ∀ y ∈ l, key y < key x → y ∈ front

variable {α β κ κ' : Type}

theorem flatMap_eq_append_cons {f : β → List α} {x : α} {back : List α} :
    ∀ {xs : List β} {front : List α}, xs.flatMap f = front ++ x :: back →
      ∃ xs₁ i xs₂ b₁ b₂, xs = xs₁ ++ i :: xs₂ ∧ f i = b₁ ++ x :: b₂
        ∧ front = xs₁.flatMap f ++ b₁
  | [], front, h => by simp at h
  | i :: xs, front, h => by
    rw [List.flatMap_cons] at h
    rcases List.append_eq_append_iff.mp h with ⟨z, rfl, hz⟩ | ⟨z, hz, hx⟩
    · obtain ⟨xs₁, j, xs₂, b₁, b₂, rfl, hj, rfl⟩ := flatMap_eq_append_cons hz
      exact ⟨i :: xs₁, j, xs₂, b₁, b₂, rfl, hj, by simp⟩
    · rcases z with _ | ⟨y, z⟩
      · rw [List.nil_append] at hx
        obtain ⟨xs₁, j, xs₂, b₁, b₂, rfl, hj, hb⟩ :=
          @flatMap_eq_append_cons f x back xs [] hx.symm
        obtain ⟨h₁, rfl⟩ := List.append_eq_nil_iff.mp hb.symm
        refine ⟨i :: xs₁, j, xs₂, [], b₂, rfl, hj, ?_⟩
        rw [List.flatMap_cons, h₁, hz]
        simp
      · obtain ⟨rfl, -⟩ := List.cons.inj hx
        exact ⟨[], i, xs, front, z, rfl, hz, rfl⟩

theorem InOrder.of_pairwise [LinearOrder κ] {key : α → κ} {l : List α}
    (h : l.Pairwise fun x y => key x ≤ key y) : InOrder key l := by
  rintro front x back rfl y hy hlt
  rcases List.mem_append.mp hy with hy | hy
  · exact hy
  · rw [List.pairwise_append] at h
    rcases List.mem_cons.mp hy with rfl | hy
    · exact absurd hlt (lt_irrefl _)
    · exact absurd hlt (not_lt.mpr ((List.pairwise_cons.mp h.2.1).1 y hy))

/-- Lists in order one after the other are in order, if an item of a later list is never to come
before one of an earlier list. -/
theorem InOrder.flatMap [LT κ] [LT κ'] {key : α → κ} {key' : β → κ'} {xs : List β}
    {f : β → List α} (hxs : InOrder key' xs) (hf : ∀ i ∈ xs, InOrder key (f i))
    (hk : ∀ i ∈ xs, ∀ j ∈ xs, ∀ x ∈ f i, ∀ y ∈ f j, key y < key x → key' j < key' i ∨ i = j) :
    InOrder key (xs.flatMap f) := by
  intro front x back h y hy hlt
  obtain ⟨xs₁, i, xs₂, b₁, b₂, rfl, hi, rfl⟩ := flatMap_eq_append_cons h
  obtain ⟨j, hj, hyj⟩ := List.mem_flatMap.mp hy
  have hmem : i ∈ xs₁ ++ i :: xs₂ := by simp
  rcases hk i hmem j hj x (by simp [hi]) y hyj hlt with hlt' | rfl
  · exact List.mem_append_left _
      (List.mem_flatMap.mpr ⟨j, hxs xs₁ i xs₂ rfl j hj hlt', hyj⟩)
  · exact List.mem_append_right _ (hf i hmem b₁ x b₂ hi y hyj hlt)

theorem InOrder.map [LT κ] {key : α → κ} {g : β → α} {l : List β}
    (h : InOrder (fun b => key (g b)) l) : InOrder key (l.map g) := by
  intro front x back hl y hy hlt
  obtain ⟨front', rest, rfl, rfl, hrest⟩ := List.map_eq_append_iff.mp hl
  obtain ⟨x', back', rfl, rfl, rfl⟩ := List.map_eq_cons_iff.mp hrest
  obtain ⟨y', hy', rfl⟩ := List.mem_map.mp hy
  exact List.mem_map_of_mem (h front' x' back' rfl y' hy' hlt)

theorem InOrder.filter [LT κ] {key : α → κ} {l : List α} (h : InOrder key l) (p : α → Bool) :
    InOrder key (l.filter p) := by
  intro front x back hl y hy hlt
  obtain ⟨l₁, l₂, rfl, rfl, h₂⟩ := List.filter_eq_append_iff.mp hl
  obtain ⟨m, back', rfl, hm, -, rfl⟩ := List.filter_eq_cons_iff.mp h₂
  obtain ⟨hy, hp⟩ := List.mem_filter.mp hy
  have hmem := h (l₁ ++ m) x back' (by simp) y hy hlt
  rcases List.mem_append.mp hmem with hmem | hmem
  · exact List.mem_filter.mpr ⟨hmem, hp⟩
  · exact absurd hp (by simpa using hm y hmem)

/-- The items of lists one after the other, each with the number of its list before its key. -/
def numbered (f : β → List (κ × α)) (xs : List β) : List ((ℕ ×ₗ κ) × α) :=
  xs.zipIdx.flatMap fun x => (f x.1).map (Prod.map (fun k => toLex (x.2, k)) id)

theorem map_snd_numbered (f : β → List (κ × α)) (xs : List β) :
    (numbered f xs).map Prod.snd = xs.flatMap fun x => (f x).map Prod.snd := by
  rw [numbered, List.map_flatMap]
  conv_rhs => rw [← List.zipIdx_map_fst 0 xs, List.flatMap_map]
  refine List.flatMap_congr fun x _ => ?_
  rw [List.map_map]
  rfl

theorem mem_numbered {f : β → List (κ × α)} {xs : List β} {i : ℕ} {k : κ} {a : α} :
    (toLex (i, k), a) ∈ numbered f xs ↔ ∃ x, xs[i]? = some x ∧ (k, a) ∈ f x := by
  simp only [numbered, List.mem_flatMap, List.mem_map, Prod.exists, List.mem_zipIdx_iff_getElem?,
    Prod.map_apply, id, Prod.mk.injEq, EmbeddingLike.apply_eq_iff_eq]
  constructor
  · rintro ⟨x, j, hx, k', a', ha, ⟨rfl, rfl⟩, rfl⟩
    exact ⟨x, hx, ha⟩
  · rintro ⟨x, hx, ha⟩
    exact ⟨x, i, hx, k, a, ha, ⟨rfl, rfl⟩, rfl⟩

theorem inOrder_numbered [LT κ] {f : β → List (κ × α)} {xs : List β}
    (h : ∀ x ∈ xs, InOrder Prod.fst (f x)) : InOrder Prod.fst (numbered f xs) := by
  have hxs : InOrder Prod.snd xs.zipIdx := by
    refine .of_pairwise (List.Pairwise.of_map Prod.snd (fun _ _ hle => hle) ?_)
    rw [List.zipIdx_map_snd]
    exact (List.pairwise_lt_range' (s := 0) (n := xs.length)).imp Nat.le_of_lt
  refine hxs.flatMap (fun ⟨x, i⟩ hx => ?_) ?_
  · have hmem := List.mem_of_getElem? (List.mem_zipIdx_iff_getElem?.mp hx)
    refine InOrder.map fun front y back hl z hz hlt => h x hmem front y back hl z hz ?_
    rcases Prod.Lex.toLex_lt_toLex.mp hlt with hlt | ⟨-, hlt⟩
    · exact absurd hlt (lt_irrefl i)
    · exact hlt
  · rintro ⟨x, i⟩ hx ⟨x', j⟩ hx' _ hy _ hz hlt
    obtain ⟨⟨k, a⟩, -, rfl⟩ := List.mem_map.mp hy
    obtain ⟨⟨k', a'⟩, -, rfl⟩ := List.mem_map.mp hz
    rcases Prod.Lex.toLex_lt_toLex.mp hlt with hlt | ⟨hij, -⟩
    · exact .inl hlt
    · obtain rfl : j = i := hij
      have heq : some x = some x' := (List.mem_zipIdx_iff_getElem?.mp hx).symm.trans
        (List.mem_zipIdx_iff_getElem?.mp hx')
      exact .inr (by rw [Option.some.inj heq])

end Briefing
