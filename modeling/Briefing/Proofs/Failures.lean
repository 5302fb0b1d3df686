import Briefing.Session
import Mathlib.Tactic.Common

/-!
# What fails

What is done step by step fails because one of its steps does, and what is done for all items of a
list because of one of them (`exists_of_mapM_error`). So all failures of an activity have a property
if those of its parts do (`FailsOnly`).
-/

namespace Briefing

section Except

variable {ε α β : Type} {e : ε}

theorem of_bind_eq_error {x : Except ε α} {f : α → Except ε β} (h : (x >>= f) = .error e) :
    x = .error e ∨ ∃ a, x = .ok a ∧ f a = .error e := by
  cases x with
  | error e' => exact .inl (congrArg Except.error (Except.error.inj h))
  | ok a => exact .inr ⟨a, rfl, h⟩

/-- What is done for all items of a list, if nothing fails. -/
theorem exists_of_mapM_ok [Inhabited β] {f : α → Except ε β} :
    ∀ {xs : List α} {ys : List β}, xs.mapM f = .ok ys →
      ∃ g : α → β, ys = xs.map g ∧ ∀ x ∈ xs, f x = .ok (g x) := by
  intro xs ys h
  refine ⟨fun x => (f x).toOption.getD default, ?_⟩
  induction xs generalizing ys with
  | nil =>
    obtain rfl : [] = ys := Except.ok.inj h
    simp
  | cons x xs ih =>
    rw [List.mapM_cons] at h
    cases hx : f x with
    | error e => simp [hx, bind, Except.bind] at h
    | ok y =>
      cases hxs : xs.mapM f with
      | error e => simp [hx, hxs, bind, Except.bind] at h
      | ok ys' =>
        obtain ⟨hmap, hall⟩ := ih hxs
        obtain rfl : y :: ys' = ys := by
          simpa [hx, hxs, bind, Except.bind, pure, Except.pure] using h
        rw [List.map_cons, ← hmap, List.forall_mem_cons]
        simp only [hx, Except.toOption, Option.getD_some, true_and]
        exact hall

theorem exists_of_mem_forall₂ {R : α → β → Prop} {xs : List α} {ys : List β}
    (h : List.Forall₂ R xs ys) : ∀ y ∈ ys, ∃ x ∈ xs, R x y := by
  induction h with
  | nil => simp
  | cons hR _ ih =>
    intro y hy
    rcases List.mem_cons.mp hy with rfl | hy
    · exact ⟨_, List.mem_cons_self, hR⟩
    · obtain ⟨x, hx, hxy⟩ := ih y hy
      exact ⟨x, List.mem_cons_of_mem _ hx, hxy⟩

/-- What goes well for each item by one function and, as to a relation, by another one, goes well
for all of them. -/
theorem mapM_ok_of_forall {γ : Type} {f : α → Except ε β} {g : α → Except ε γ} {R : β → γ → Prop} :
    ∀ {xs : List α} {ys : List β}, xs.mapM f = .ok ys →
      (∀ x ∈ xs, ∀ y, f x = .ok y → ∃ z, g x = .ok z ∧ R y z) →
        ∃ zs, xs.mapM g = .ok zs ∧ List.Forall₂ R ys zs
  | [], ys, h, _ => by
    obtain rfl : [] = ys := Except.ok.inj h
    exact ⟨[], rfl, .nil⟩
  | x :: xs, ys, h, hall => by
    rw [List.mapM_cons] at h
    rcases hy : f x with e | y
    · simp [hy, bind, Except.bind] at h
    · rcases hys : xs.mapM f with e | ys'
      · simp [hy, hys, bind, Except.bind] at h
      · obtain rfl : y :: ys' = ys := by
          simpa [hy, hys, bind, Except.bind, pure, Except.pure] using h
        obtain ⟨z, hz, hR⟩ := hall x List.mem_cons_self y hy
        obtain ⟨zs, hzs, hRs⟩ := mapM_ok_of_forall hys fun x hx =>
          hall x (List.mem_cons_of_mem _ hx)
        exact ⟨z :: zs, by rw [List.mapM_cons, hz, hzs]; rfl, .cons hR hRs⟩

theorem exists_of_mapM_error {f : α → Except ε β} :
    ∀ {xs : List α}, xs.mapM f = .error e → ∃ x ∈ xs, f x = .error e
  | [], h => by cases h
  | x :: xs, h => by
    rw [List.mapM_cons] at h
    rcases of_bind_eq_error h with h | ⟨_, -, h⟩
    · exact ⟨x, List.mem_cons_self, h⟩
    · rcases of_bind_eq_error h with h | ⟨_, -, ⟨⟩⟩
      obtain ⟨y, hy, h⟩ := exists_of_mapM_error h
      exact ⟨y, List.mem_cons_of_mem x hy, h⟩

theorem exists_of_filterMapM_error {f : α → Except ε (Option β)} :
    ∀ {xs : List α}, xs.filterMapM f = .error e → ∃ x ∈ xs, f x = .error e
  | [], h => by cases h
  | x :: xs, h => by
    rw [List.filterMapM_cons] at h
    rcases of_bind_eq_error h with h | ⟨y, -, h⟩
    · exact ⟨x, List.mem_cons_self, h⟩
    · split at h
      · obtain ⟨y, hy, h⟩ := exists_of_filterMapM_error h
        exact ⟨y, List.mem_cons_of_mem x hy, h⟩
      · rcases of_bind_eq_error h with h | ⟨_, -, ⟨⟩⟩
        obtain ⟨y, hy, h⟩ := exists_of_filterMapM_error h
        exact ⟨y, List.mem_cons_of_mem x hy, h⟩

end Except

namespace Activity

variable {α β : Type}

theorem exists_of_bind_ok {a : Activity α} {f : α → Activity β} {s : Session} {y : β}
    (h : ((a >>= f).run s).1 = .ok y) :
    ∃ x s', a.run s = (.ok x, s') ∧ ((f x).run s').1 = .ok y := by
  rw [run_bind] at h
  rcases hrun : a.run s with ⟨e | x, s'⟩
  · rw [hrun] at h
    cases h
  · rw [hrun] at h
    exact ⟨x, s', rfl, h⟩

/-- If something is known of its answer, an activity has one. -/
theorem exists_of_toOption {ended : Except Error α × Session} {f : α → β} {y : β}
    (h : ended.1.toOption.map f = some y) : ∃ x s', ended = (.ok x, s') ∧ f x = y := by
  rcases ended with ⟨e | x, s'⟩
  · simp [Except.toOption] at h
  · exact ⟨x, s', rfl, Option.some.inj h⟩

/-- An activity that fails only with errors that have a property. -/
def FailsOnly (p : Error → Prop) (a : Activity α) : Prop := ∀ s e, (a.run s).1 = .error e → p e

section FailsOnly

variable {p : Error → Prop}

theorem failsOnly_pure (x : α) : FailsOnly p (pure x : Activity α) := by
  rintro s e ⟨⟩

theorem failsOnly_fail {e : Error} (h : p e) : FailsOnly p (fail e : Activity α) := by
  rintro s e ⟨⟩
  exact h

theorem failsOnly_ofExcept {x : Except Error α} (h : ∀ e, x = .error e → p e) :
    FailsOnly p (ofExcept x) := by
  cases x with
  | ok x => exact failsOnly_pure x
  | error e => exact failsOnly_fail (h e rfl)

theorem failsOnly_onDisk {f : Disk → Except Error α} (h : ∀ d e, f d = .error e → p e) :
    FailsOnly p (onDisk f) := fun s e => h s.disk e

theorem failsOnly_change {f : Disk → Except Error Disk} (h : ∀ d e, f d = .error e → p e) :
    FailsOnly p (change f) := by
  intro s e he
  rw [run, change] at he
  split at he
  · cases he
  · cases he
    exact h _ _ ‹_›

theorem FailsOnly.bind {a : Activity α} {f : α → Activity β} (h : a.FailsOnly p)
    (hf : ∀ x, (f x).FailsOnly p) : (a >>= f).FailsOnly p := by
  intro s e he
  have ha := h s e
  rw [run_bind] at he
  rcases hrun : a.run s with ⟨e' | x, s'⟩
  · rw [hrun] at he ha
    exact ha (congrArg Except.error (Except.error.inj he))
  · rw [hrun] at he
    exact hf x s' e he

theorem failsOnly_ite {c : Prop} [Decidable c] {a b : Activity α} (ha : a.FailsOnly p)
    (hb : b.FailsOnly p) : (if c then a else b).FailsOnly p := by
  split
  · exact ha
  · exact hb

theorem failsOnly_mapM {f : α → Activity β} (h : ∀ x, (f x).FailsOnly p) :
    ∀ xs : List α, (xs.mapM f).FailsOnly p
  | [] => failsOnly_pure []
  | x :: xs => by
    rw [List.mapM_cons]
    exact (h x).bind fun _ => (failsOnly_mapM h xs).bind fun _ => failsOnly_pure _

end FailsOnly

end Activity

end Briefing
