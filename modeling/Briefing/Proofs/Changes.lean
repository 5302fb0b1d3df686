import Briefing.Proofs.Following
import Briefing.Proofs.Loading
import Mathlib.Data.List.Induction

/-!
# Making and removing directories

A directory that is made on a disk is all that is new there (`MadeAt`), and its path leads to it. A
path that ends with a name leads nowhere once what it leads to is removed (`resolve_removeAll`). On
a disk where everything is in a directory, nothing is below a location where nothing is
(`IsTree.nothing_below`), so a new directory is empty (`MadeAt.nothing_below`).
-/

namespace Briefing

namespace Disk

/-! ## What is below a location -/

/-- Everything on a disk is in a directory. -/
def IsTree (d : Disk) : Prop := ∀ e ∈ d.entries, d.isDirectoryAt e.1.dropLast = true

instance (d : Disk) : Decidable d.IsTree :=
  inferInstanceAs (Decidable (∀ e ∈ d.entries, d.isDirectoryAt e.1.dropLast = true))

section Tree

variable {d : Disk} {location below : Location}

theorem mem_entries {entry : Entry} (h : d.entry? location = some entry) (hne : location ≠ []) :
    (location, entry) ∈ d.entries := by
  unfold entry? at h
  rw [if_neg hne] at h
  obtain ⟨front, back, hentries, -⟩ := List.lookup_eq_some_iff.mp h
  simp [hentries]

/-- Where nothing is, nothing is below. -/
theorem IsTree.nothing_below (h : d.IsTree) (hnone : d.entry? location = none)
    (hbelow : location <+: below) : d.entry? below = none := by
  obtain ⟨names, rfl⟩ := hbelow
  induction names using List.reverseRecOn with
  | nil => simpa using hnone
  | append_singleton names name ih =>
    by_contra hsome
    obtain ⟨entry, hentry⟩ := Option.ne_none_iff_exists'.mp hsome
    have hdirectory := h _ (mem_entries hentry (by simp))
    rw [← List.append_assoc, List.dropLast_concat, isDirectoryAt, ih] at hdirectory
    cases hdirectory

end Tree

/-- Two disks that have the same entries. -/
structure SameEntries (d d' : Disk) : Prop where
  current : d'.current = d.current
  entries : ∀ location, d'.entry? location = d.entry? location

theorem SameEntries.refl (d : Disk) : SameEntries d d := ⟨rfl, fun _ => rfl⟩

/-- Two disks that have the same entries, but for what is at or below a location. -/
structure SameOutside (location : Location) (d d' : Disk) : Prop where
  current : d'.current = d.current
  entries : ∀ other, ¬location <+: other → d'.entry? other = d.entry? other

section Remove

variable {d : Disk} {location : Location}

theorem lookup_filter_none {p : Location → Bool} {location : Location} (h : p location = false) :
    ∀ entries : List (Location × Entry),
      (entries.filter fun e => p e.1).lookup location = none
  | [] => rfl
  | (other, entry) :: entries => by
    have ih := lookup_filter_none h entries
    rw [List.filter_cons]
    split
    · rename_i hother
      have hne : location ≠ other := by
        rintro rfl
        simp [h] at hother
      rw [List.lookup_cons, beq_false_of_ne hne, ih]
    · exact ih

theorem entry?_remove (other : Location) : Disk.entry? (d.remove location) other
    = if other ≠ [] ∧ location <+: other then none else d.entry? other := by
  unfold entry? remove
  by_cases hroot : other = []
  · simp [hroot]
  · rw [if_neg hroot, if_neg hroot]
    split_ifs with h
    · exact lookup_filter_none (p := fun l => !location.isPrefixOf l) (by simpa using h.2) d.entries
    · refine lookup_filter (p := fun l => !location.isPrefixOf l) ?_ d.entries
      rw [Bool.not_eq_true', ← Bool.not_eq_true, List.isPrefixOf_iff_prefix]
      exact fun hpre => h ⟨hroot, hpre⟩

theorem extends_remove : Extends (d.remove location) d := by
  refine ⟨rfl, fun {other entry} h => ?_⟩
  rw [entry?_remove] at h
  split_ifs at h
  exact h

/-- Where the last name of a path leads, nothing is left once that is removed. -/
theorem resolve_removeAll {p : Path} {front : List String} {name : String}
    (hsteps : steps p.text = front ++ [name]) (hname : IsName name) (other : Location) :
    (d.removeAll p).resolve false p ≠ .ok other := by
  intro h
  rw [removeAll] at h
  rcases hresolve : d.resolve false p with fault | location
  · rw [hresolve] at h
    cases hresolve.symm.trans h
  · rw [hresolve] at h
    dsimp only at h
    obtain ⟨htaken, links, hle, hleads⟩ := resolve_eq_ok.mp h
    -- what a path leads to on the smaller disk, it led to before
    have hbefore : d.resolve false p = .ok other :=
      resolve_eq_ok.mpr ⟨htaken, links, hle, hleads.extends extends_remove⟩
    have hsame : location = other := Except.ok.inj (hresolve.symm.trans hbefore)
    rw [hsteps] at hleads
    obtain ⟨middle, links₁, links₂, -, -, hlast⟩ := hleads.split (List.cons_ne_nil _ _)
    have hother := hlast.eq_append hname
    obtain ⟨entry, hentry⟩ := hlast.exists_entry hname.ne_empty hname.ne_here hname.ne_up
    rw [← hother, entry?_remove, if_pos ⟨by simp [hother], by simp [hsame]⟩] at hentry
    cases hentry

end Remove

/-! ## The download directory -/

section Make

variable {d d' : Disk} {p : Path} {front : List String} {name : String}

/-- A directory that was made where nothing was. -/
structure MadeAt (location : Location) (d d' : Disk) : Prop where
  fresh : d.entry? location = none
  made : ∃ mode, d'.entry? location = some (.directory mode)
  current : d'.current = d.current
  entries : ∀ other, other ≠ location → d'.entry? other = d.entry? other

theorem MadeAt.extends {location : Location} (h : MadeAt location d d') : Extends d d' := by
  refine ⟨h.current, fun {other entry} hentry => ?_⟩
  rw [h.entries other, hentry]
  rintro rfl
  rw [h.fresh] at hentry
  cases hentry

theorem exists_locate_of_makeDirectory (h : d.makeDirectory p = .ok d') : ∃ directory name,
    d.locate p = .ok (directory, name) ∧ name ≠ "." ∧ name ≠ ".."
      ∧ d.entry? (directory ++ [name]) = none
      ∧ d' = d.put (directory ++ [name]) (.directory directoryMode) := by
  unfold makeDirectory at h
  rcases hlocate : d.locate p with fault | ⟨directory, name⟩
  · simp [hlocate, bind, Except.bind] at h
  · simp only [hlocate, bind, Except.bind, throw, throwThe, MonadExceptOf.throw, pure,
      Except.pure] at h
    split_ifs at h with hfree
    obtain rfl := Except.ok.inj h
    simp only [Bool.or_eq_true, decide_eq_true_eq, not_or, Bool.not_eq_true,
      Option.isSome_eq_false_iff, Option.isNone_iff_eq_none] at hfree
    exact ⟨directory, name, rfl, hfree.1.1, hfree.1.2, hfree.2, rfl⟩

theorem makeDirectory_eq_ok (hsteps : steps p.text = front ++ [name]) (hne : name ≠ "")
    (h : d.makeDirectory p = .ok d') : ∃ directory, d.locate p = .ok (directory, name)
      ∧ IsName name ∧ d.entry? (directory ++ [name]) = none
      ∧ d' = d.put (directory ++ [name]) (.directory directoryMode) := by
  obtain ⟨directory, name', hlocate, hhere, hup, hnone, hmade⟩ := exists_locate_of_makeDirectory h
  obtain ⟨-, hsize, rfl, -⟩ := (locate_eq_ok hsteps hne).mp hlocate
  exact ⟨directory, hlocate, ⟨hne, hhere, hup, hsize⟩, hnone, hmade⟩

theorem MadeAt.put {location : Location} (h : MadeAt location d d') (hne : location ≠ [])
    (mode : Nat) : MadeAt location d (d'.put location (.directory mode)) := by
  refine ⟨h.fresh, ⟨mode, ?_⟩, h.current, fun other hother => ?_⟩
  · rw [entry?_put, if_neg hne, if_pos rfl]
  · rw [← h.entries other hother, entry?_put, if_neg hother]
    split_ifs with hroot
    · rw [hroot]
      rfl
    · rfl

theorem madeAt_put {location : Location} (h : d.entry? location = none) (hne : location ≠ [])
    (mode : Nat) : MadeAt location d (d.put location (.directory mode)) := by
  refine ⟨h, ⟨mode, ?_⟩, rfl, fun other hother => ?_⟩
  · rw [entry?_put, if_neg hne, if_pos rfl]
  · rw [entry?_put, if_neg hother]
    split_ifs with hroot
    · rw [hroot]
      rfl
    · rfl

theorem MadeAt.nothing_below {location below : Location} (htree : d.IsTree)
    (h : MadeAt location d d') (hpre : location <+: below) (hne : below ≠ location) :
    d'.entry? below = none := by
  rw [h.entries below hne]
  exact htree.nothing_below h.fresh hpre

end Make

end Disk

end Briefing
