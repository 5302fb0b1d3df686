import Briefing.Proofs.Discovery
import Briefing.Proofs.Following
import Briefing.Proofs.Loading

/-!
# One directory by two paths

Where a path leads from a directory does not depend on the path by which the directory was reached
(`LeadsInto.exists_leads`), only whether it leads anywhere does: the links and the bytes on the way
to the directory count as well (`WithinLimits`). So, as far as the limits allow, each path leads
from a directory to the same place by two ways (`resolve_join_of_leadsInto`), and a walk of a
directory finds the same files by both, in the same order (`walk_alike`). The walk is followed by
induction on its fuel, with the same locations around it and different paths (`WalksAlike`).
-/

namespace Briefing

namespace Disk

/-! ## Directories and limits -/

/-- A name that a file can have. -/
structure IsFileName (name : String) : Prop extends IsName name where
  noSlash : '/' ∉ name.toList
  noNul : '\x00' ∉ name.toList

instance (name : String) : Decidable (IsFileName name) :=
  decidable_of_iff ((name ≠ "" ∧ name ≠ "." ∧ name ≠ ".." ∧ name.utf8ByteSize ≤ nameLimit)
      ∧ '/' ∉ name.toList ∧ '\x00' ∉ name.toList)
    ⟨fun ⟨⟨h₁, h₂, h₃, h₄⟩, h₅, h₆⟩ => ⟨⟨h₁, h₂, h₃, h₄⟩, h₅, h₆⟩,
      fun h => ⟨⟨h.ne_empty, h.ne_here, h.ne_up, h.size⟩, h.noSlash, h.noNul⟩⟩

/-- Everything on a disk has a name that a file can have. -/
def HasFileNames (d : Disk) : Prop := ∀ e ∈ d.entries, ∀ name ∈ e.1, IsFileName name

instance (d : Disk) : Decidable d.HasFileNames :=
  inferInstanceAs (Decidable (∀ e ∈ d.entries, ∀ name ∈ e.1, IsFileName name))

/-- If a path leads anywhere at all, it does so over no more links and with no more bytes than a
path may have. -/
def WithinLimits (d : Disk) (p : Path) : Prop :=
  ∀ links there, d.Leads true links (d.start p) (steps p.text) there →
    links ≤ linkLimit ∧ p.text.utf8ByteSize ≤ pathLimit

/-- A path leads to a directory, over however many links. -/
structure LeadsInto (d : Disk) (p : Path) (location : Location) : Prop where
  ne_empty : p.text ≠ ""
  noNul : p.hasNul = false
  directory : d.isDirectoryAt location = true
  leads : ∃ links, d.Leads true links (d.start p) (entrySteps p) location

section LeadsInto

variable {d : Disk} {p q r : Path} {location there : Location} {name : String}

theorem leadsInto_of_resolve (h : d.resolve true p = .ok location)
    (hd : d.isDirectoryAt location = true) : LeadsInto d p location := by
  obtain ⟨⟨hne, hnul, -⟩, links, -, hleads⟩ := resolve_eq_ok.mp h
  refine ⟨hne, hnul, hd, ?_⟩
  rcases steps_eq_entrySteps p with hsteps | hsteps
  · exact ⟨links, hsteps ▸ hleads⟩
  · rw [hsteps] at hleads
    obtain ⟨middle, links₁, links₂, -, hmiddle, hlast⟩ := hleads.split (List.cons_ne_nil _ _)
    rw [hlast.eq_of_silent]
    exact ⟨links₁, hmiddle⟩

theorem start_join (h : r.isAbsolute = false) : d.start (p.join r) = d.start p := by
  rw [start, start, isAbsolute_join h]

/-- What a path leads to from a directory does not depend on how the directory was reached. -/
theorem LeadsInto.exists_leads (h : LeadsInto d p location) (hr : r.isAbsolute = false)
    (hresolve : d.resolve true (p.join r) = .ok there) :
    ∃ links, d.Leads true links location (steps r.text) there := by
  obtain ⟨-, links, -, hleads⟩ := resolve_eq_ok.mp hresolve
  rw [start_join hr, steps_join hr] at hleads
  obtain ⟨middle, links₁, links₂, -, hmiddle, hrest⟩ :=
    hleads.split (by simp [steps, Path.segments])
  obtain ⟨links₀, hinto⟩ := h.leads
  rw [hinto.eq hmiddle]
  exact ⟨links₂, hrest⟩

theorem LeadsInto.resolve_join (h : LeadsInto d p location) (hr : r.isAbsolute = false)
    (hnul : r.hasNul = false) (hlimits : WithinLimits d (p.join r)) {links : ℕ}
    (hleads : d.Leads true links location (steps r.text) there) :
    d.resolve true (p.join r) = .ok there := by
  obtain ⟨links₀, hinto⟩ := h.leads
  have hall : d.Leads true (links₀ + links) (d.start (p.join r)) (steps (p.join r).text) there := by
    rw [start_join hr, steps_join hr]
    exact hinto.append (by simp [steps, Path.segments]) hleads
  obtain ⟨hlinks, hsize⟩ := hlimits _ _ hall
  refine resolve_eq_ok.mpr ⟨⟨fun hempty => h.ne_empty ?_, ?_, hsize⟩, _, hlinks, hall⟩
  · have hle := size_le_join (p := p) hr
    rw [hempty] at hle
    simpa using hle
  · rw [hasNul_join hr, h.noNul, hnul]
    rfl

/-- From one directory a path leads to the same place by two ways, as far as the limits allow. -/
theorem resolve_join_of_leadsInto (hp : LeadsInto d p location) (hq : LeadsInto d q location)
    (hlimits : WithinLimits d (q.join r)) (h : d.resolve true (p.join r) = .ok there) :
    d.resolve true (q.join r) = .ok there := by
  cases hr : r.isAbsolute with
  | true =>
    rw [Path.join, hr] at h ⊢
    exact h
  | false =>
    obtain ⟨links, hleads⟩ := hp.exists_leads hr h
    have hnul := (resolve_eq_ok.mp h).1.noNul
    rw [hasNul_join hr, Bool.or_eq_false_iff] at hnul
    exact hq.resolve_join hr hnul.2 hlimits hleads

theorem find_join_of_leadsInto (hp : LeadsInto d p location) (hq : LeadsInto d q location)
    (hlimits : WithinLimits d (q.join r)) {x : Location × Entry} (h : d.find (p.join r) = .ok x) :
    d.find (q.join r) = .ok x := by
  obtain ⟨hresolve, hentry⟩ := find_eq_ok.mp h
  exact find_eq_ok.mpr ⟨resolve_join_of_leadsInto hp hq hlimits hresolve, hentry⟩

theorem isAbsolute_fileName (hname : IsFileName name) : Path.isAbsolute name = false :=
  isAbsolute_name hname.noSlash

theorem LeadsInto.join (h : LeadsInto d p location) (hname : IsFileName name) {links : ℕ}
    (hleads : d.Leads true links location [name] there) (hd : d.isDirectoryAt there = true) :
    LeadsInto d (p.join name) there := by
  have hr := isAbsolute_fileName hname
  have hsteps := steps_join_name (p := p) hname.noSlash
  obtain ⟨links₀, hinto⟩ := h.leads
  refine ⟨fun hempty => h.ne_empty ?_, ?_, hd, links₀ + links, ?_⟩
  · have hle := size_le_join (p := p) hr
    rw [hempty] at hle
    simpa using hle
  · rw [hasNul_join hr, h.noNul]
    simpa [Path.hasNul] using hname.noNul
  · rw [start_join hr, entrySteps_of_steps hname.ne_empty hsteps, hsteps]
    exact hinto.append (List.cons_ne_nil _ _) hleads

/-- A path that leads below a name leads into a directory by that name. -/
theorem LeadsInto.exists_join (h : LeadsInto d p location) (hname : IsFileName name)
    (hr : r.isAbsolute = false) (hresolve : d.resolve true ((p.join name).join r) = .ok there) :
    ∃ links middle, d.Leads true links location [name] middle
      ∧ d.isDirectoryAt middle = true := by
  have hsteps := steps_join_name (p := p) hname.noSlash
  obtain ⟨-, links, -, hleads⟩ := resolve_eq_ok.mp hresolve
  rw [start_join hr, steps_join hr, entrySteps_of_steps hname.ne_empty hsteps, hsteps,
    start_join (isAbsolute_fileName hname), List.append_assoc] at hleads
  obtain ⟨middle, links₁, links₂, -, hmiddle, hrest⟩ := hleads.split (by simp)
  obtain ⟨links₀, hinto⟩ := h.leads
  rw [← hinto.eq hmiddle] at hrest
  have hne : steps r.text ≠ [] := by simp [steps, Path.segments]
  obtain ⟨inner, links₃, links₄, -, hinner, hlast⟩ := hrest.split hne
  obtain ⟨step, rest, hcons⟩ := List.exists_cons_of_ne_nil hne
  rw [hcons] at hlast
  exact ⟨links₃, inner, hinner, hlast.isDirectoryAt⟩

end LeadsInto

/-! ## File names -/

section FileName

variable {p q : Path} {name : String}

theorem toList_join (h : q.isAbsolute = false) : ∃ front,
    (p.join q).text.toList = front ++ q.text.toList
      ∧ (front = [] ∨ front.getLast? = some '/') := by
  rw [join_of_relative h]
  split_ifs with hp hs
  · exact ⟨[], rfl, .inl rfl⟩
  · exact ⟨p.text.toList, String.toList_append, .inr hs⟩
  · exact ⟨p.text.toList ++ ['/'], by simp, .inr (by simp)⟩

theorem segments_append_name {front : List Char} (hfront : front = [] ∨ front.getLast? = some '/')
    (h : '/' ∉ name.toList) :
    ∃ before, Path.segments (front ++ name.toList) = before ++ [name.toList] := by
  rcases hfront with rfl | hfront
  · exact ⟨[], List.splitOn_eq_singleton h⟩
  · obtain ⟨before, rfl⟩ := List.getLast?_eq_some_iff.mp hfront
    refine ⟨Path.segments before, ?_⟩
    rw [List.append_assoc, Path.segments, List.singleton_append, List.splitOn_append_cons_self,
      List.splitOn_eq_singleton h, Path.segments]

theorem exists_cutStart {front : List Char} (hfront : front = [] ∨ front.getLast? = some '/')
    (hname : IsFileName name) : ∃ start front',
      Path.cutStart (front ++ name.toList) = (start, front' ++ name.toList)
        ∧ (front' = [] ∨ front'.getLast? = some '/') := by
  have hslash := hname.noSlash
  unfold Path.cutStart
  rcases front with _ | ⟨c, front⟩
  · -- a name is no start
    rw [List.nil_append]
    split
    · simp_all
    · exact absurd (String.toList_inj.mp ‹_›) hname.ne_here
    · simp_all
    · exact ⟨[], [], rfl, .inl rfl⟩
  · have hrest : front = [] ∨ front.getLast? = some '/' := by
      rcases front with _ | ⟨c', front⟩
      · exact .inl rfl
      · simpa using hfront
    rw [List.cons_append]
    split
    · rename_i rest heq
      obtain ⟨-, rfl⟩ := List.cons.inj heq
      exact ⟨['/'], front, rfl, hrest⟩
    · rename_i heq
      have hempty := (List.append_eq_nil_iff.mp (List.cons.inj heq).2).2
      exact absurd (String.toList_inj.mp hempty) hname.ne_empty
    · rename_i rest heq
      exact ⟨['.'], front, by rw [(List.cons.inj heq).2], hrest⟩
    · exact ⟨[], c :: front, rfl, hfront⟩

theorem fileName?_join (hname : IsFileName name) : (p.join name).fileName? = some name := by
  obtain ⟨front, htext, hfront⟩ := toList_join (p := p) (isAbsolute_fileName hname)
  obtain ⟨start, front', hcut, hfront'⟩ := exists_cutStart hfront hname
  obtain ⟨before, hsegments⟩ := segments_append_name hfront' hname.noSlash
  have hloud : Path.isSilent name.toList = false := by
    have hempty : name.toList ≠ [] := by simpa using hname.ne_empty
    have hhere : name.toList ≠ ['.'] := fun h => hname.ne_here (String.toList_inj.mp h)
    simp [Path.isSilent, hempty, hhere]
  have hup : name.toList ≠ ['.', '.'] := fun h => hname.ne_up (String.toList_inj.mp h)
  rw [Path.fileName?, Path.components, htext, hcut]
  dsimp only
  rw [hsegments, List.filter_append, List.map_append, ← List.append_assoc]
  simp [hloud, hup]

end FileName

section Names

variable {d d' : Disk} {p : Path} {location : Location} {name : String}

theorem exists_mem_entries_iff (hne : location ≠ []) :
    (∃ entry, (location, entry) ∈ d.entries) ↔ (d.entry? location).isSome = true := by
  unfold entry?
  rw [if_neg hne, Option.isSome_iff_ne_none, ne_eq, List.lookup_eq_none_iff]
  simp

theorem mem_namesIn : name ∈ d.namesIn location
    ↔ (d.entry? (location ++ [name])).isSome = true := by
  rw [← exists_mem_entries_iff (by simp), namesIn, List.mem_mergeSort, List.mem_filterMap]
  constructor
  · rintro ⟨⟨other, entry⟩, hmem, hname⟩
    split at hname
    · rename_i hparent
      obtain ⟨front, rfl⟩ := List.getLast?_eq_some_iff.mp hname
      rw [List.dropLast_concat] at hparent
      exact ⟨entry, hparent ▸ hmem⟩
    · cases hname
  · rintro ⟨entry, hmem⟩
    exact ⟨_, hmem, by simp⟩

theorem HasFileNames.isFileName (hd : d.HasFileNames) (h : name ∈ d.namesIn location) :
    IsFileName name := by
  obtain ⟨entry, hmem⟩ := (exists_mem_entries_iff (by simp)).mpr (mem_namesIn.mp h)
  exact hd _ hmem name (by simp)

/-! Permission bits do not count. -/

theorem SameFiles.isSome_entry (h : SameFiles d d') (location : Location) :
    (d.entry? location).isSome = (Disk.entry? d' location).isSome := by
  have hentry := h.entries location
  generalize d.entry? location = x, Disk.entry? d' location = y at hentry
  cases hentry <;> rfl

theorem SameFiles.symm (h : SameFiles d d') : SameFiles d' d :=
  ⟨h.current.symm, fun location => (h.entries location).symm⟩

theorem SameFiles.mem_namesIn (h : SameFiles d d') (hn : name ∈ d.namesIn location) :
    name ∈ d'.namesIn location := by
  rw [Disk.mem_namesIn, ← h.isSome_entry]
  exact Disk.mem_namesIn.mp hn

theorem SameFiles.hasFileNames (h : SameFiles d d') (hd : d.HasFileNames) : d'.HasFileNames := by
  rintro ⟨location, entry⟩ hmem name hname
  have hne : location ≠ [] := List.ne_nil_of_mem hname
  have hsome := (exists_mem_entries_iff hne).mp ⟨entry, hmem⟩
  rw [← h.isSome_entry] at hsome
  obtain ⟨entry', hmem'⟩ := (exists_mem_entries_iff hne).mpr hsome
  exact hd _ hmem' name hname

theorem SameFiles.exists_leads (h : SameFiles d d') {links : ℕ} {here there : Location}
    {names : List String} (hleads : d.Leads true links here names there) :
    ∃ links, d'.Leads true links here names there := by
  have hwalk := hleads.walkSteps le_rfl
  rw [h.walkSteps] at hwalk
  obtain ⟨links', -, hleads'⟩ := Disk.exists_leads hwalk
  exact ⟨links', hleads'⟩

theorem SameFiles.start (h : SameFiles d d') (p : Path) : d.start p = d'.start p := by
  rw [Disk.start, Disk.start, h.current]

theorem SameFiles.withinLimits (h : SameFiles d d') (hp : WithinLimits d p) :
    WithinLimits d' p := by
  intro links there hleads
  obtain ⟨links₀, hleads₀⟩ := h.symm.exists_leads hleads
  rw [← h.start] at hleads₀
  obtain ⟨hlinks₀, hsize⟩ := hp _ _ hleads₀
  have hwalk := hleads₀.walkSteps hlinks₀
  refine ⟨?_, hsize⟩
  by_contra hlinks
  rw [h.walkSteps, h.start, hleads.walkSteps_of_lt (by omega)] at hwalk
  cases hwalk

/-- A path is within the limits if following it does not end for the number of its links. -/
theorem withinLimits_of_walkSteps (hsize : p.text.utf8ByteSize ≤ pathLimit)
    (hwalk : d.walkSteps true linkLimit (d.start p) (steps p.text) ≠ .error .linkLoop) :
    WithinLimits d p := by
  intro links there hleads
  refine ⟨?_, hsize⟩
  by_contra hlinks
  exact hwalk (hleads.walkSteps_of_lt (by omega))

end Names

end Disk

namespace Files

open Disk

/-! ## Walks by two ways -/

/-- The names by which a walk looks at something that is in the directories `within`, the innermost
first. -/
inductive Visits (d : Disk) : List Location → List String → Prop
  | name {here : Location} {within : List Location} {name : String} (hn : name ∈ d.namesIn here) :
      Visits d (here :: within) [name]
  | directory {here : Location} {within : List Location} {name : String} {names : List String}
      (hn : name ∈ d.namesIn here) (hd : d.isDirectoryAt (here ++ [name]) = true)
      (hv : Visits d ((here ++ [name]) :: here :: within) names) :
      Visits d (here :: within) (name :: names)
  | link {here there : Location} {within : List Location} {links : ℕ} {name : String}
      {names : List String} (hn : name ∈ d.namesIn here)
      (h : d.Leads true links here [name] there) (hnew : there ∉ here :: within)
      (hv : Visits d (there :: here :: within) names) : Visits d (here :: within) (name :: names)

/-- The limits let a walk look at everything, if it has come to the innermost directory by a
path. -/
def LimitsBelow (d : Disk) (p : Path) (within : List Location) : Prop :=
  ∀ names, Visits d within names → WithinLimits d (p.below names)

/-- Paths of one file, both or none of which a search looks at. -/
structure SameFile (d : Disk) (p q : Path) : Prop where
  identity : d.identity p = d.identity q
  markdown : Search.isMarkdown p = Search.isMarkdown q

section Walk

variable {d : Disk} {p q : Path} {here there : Location} {within : List Location} {name : String}

theorem LimitsBelow.join (h : LimitsBelow d p (here :: within)) (hn : name ∈ d.namesIn here) :
    WithinLimits d (p.join name) := h [name] (.name hn)

theorem LimitsBelow.directory (h : LimitsBelow d p (here :: within)) (hn : name ∈ d.namesIn here)
    (hd : d.isDirectoryAt (here ++ [name]) = true) :
    LimitsBelow d (p.join name) ((here ++ [name]) :: here :: within) :=
  fun names hv => h (name :: names) (.directory hn hd hv)

theorem LimitsBelow.link (h : LimitsBelow d p (here :: within)) (hn : name ∈ d.namesIn here)
    {links : ℕ} (hl : d.Leads true links here [name] there) (hnew : there ∉ here :: within) :
    LimitsBelow d (p.join name) (there :: here :: within) :=
  fun names hv => h (name :: names) (.link hn hl hnew hv)

theorem isMarkdown_join (hname : IsFileName name) :
    Search.isMarkdown (p.join name) = Search.isMarkdown (q.join name) := by
  simp only [Search.isMarkdown, Path.extension?, fileName?_join hname]

/-- What a name leads to is the same file by both ways. -/
theorem sameFile_join (hp : LeadsInto d p here) (hq : LeadsInto d q here)
    (hname : IsFileName name) (hlp : WithinLimits d (p.join name))
    (hlq : WithinLimits d (q.join name)) {links : ℕ} (h : d.Leads true links here [name] there) :
    SameFile d (p.join name) (q.join name) := by
  have hr := isAbsolute_fileName hname
  have hnul : Path.hasNul name = false := by simpa [Path.hasNul] using hname.noNul
  rw [← steps_name hname.noSlash] at h
  refine ⟨?_, isMarkdown_join hname⟩
  rw [identity, identity, canonical?, canonical?, hp.resolve_join hr hnul hlp h,
    hq.resolve_join hr hnul hlq h]
  rfl

/-- A walk that ends without a fault does so by another path, too, and finds the same files. -/
def WalksAlike (d : Disk) (fuel : ℕ) : Prop :=
  ∀ {here : Location} {p q : Path} {within within' : List Ancestor} {files : List Path},
    LeadsInto d p here → LeadsInto d q here →
    within.map Ancestor.location = within'.map Ancestor.location →
    LimitsBelow d p (here :: within.map Ancestor.location) →
    LimitsBelow d q (here :: within.map Ancestor.location) →
    walkIn d fuel (⟨here, p⟩ :: within) = .ok files →
    ∃ files', walkIn d fuel (⟨here, q⟩ :: within') = .ok files'
      ∧ List.Forall₂ (SameFile d) files files'

theorem find?_location_eq_none {ancestors : List Ancestor} :
    ancestors.find? (·.location = there) = none ↔ there ∉ ancestors.map Ancestor.location := by
  simp [List.find?_eq_none]

theorem visit_alike (hd : d.HasFileNames) {fuel : ℕ} (ih : WalksAlike d fuel)
    {within within' : List Ancestor} {files : List Path} (hp : LeadsInto d p here)
    (hq : LeadsInto d q here)
    (hwithin : within.map Ancestor.location = within'.map Ancestor.location)
    (hlp : LimitsBelow d p (here :: within.map Ancestor.location))
    (hlq : LimitsBelow d q (here :: within.map Ancestor.location)) (hn : name ∈ d.namesIn here)
    (h : visit d fuel ⟨here, p⟩ within name = .ok files) :
    ∃ files', visit d fuel ⟨here, q⟩ within' name = .ok files'
      ∧ List.Forall₂ (SameFile d) files files' := by
  have hname := hd.isFileName hn
  have hsame : ∀ {links there}, d.Leads true links here [name] there →
      SameFile d (p.join name) (q.join name) :=
    fun hleads => sameFile_join hp hq hname (hlp.join hn) (hlq.join hn) hleads
  unfold visit at h ⊢
  rcases hentry : d.entry? (here ++ [name]) with _ | entry
  · rw [hentry] at h
    obtain rfl := Except.ok.inj h
    exact ⟨[], rfl, .nil⟩
  · rw [hentry] at h
    cases entry with
    | file contents mode =>
      obtain rfl := Except.ok.inj h
      exact ⟨_, rfl, .cons (hsame (.name hp.directory hname.toIsName hentry (by simp) (.done _)))
        .nil⟩
    | device contents =>
      obtain rfl := Except.ok.inj h
      exact ⟨[], rfl, .nil⟩
    | directory mode =>
      have hdirectory : d.isDirectoryAt (here ++ [name]) = true := by rw [isDirectoryAt, hentry]
      have hleads : d.Leads true 0 here [name] (here ++ [name]) :=
        .name hp.directory hname.toIsName hentry (by simp) (.done _)
      refine @ih _ _ _ (⟨here, p⟩ :: within) (⟨here, q⟩ :: within') _
        (hp.join hname hleads hdirectory) (hq.join hname hleads hdirectory) ?_
        (hlp.directory hn hdirectory) (hlq.directory hn hdirectory) h
      rw [List.map_cons, List.map_cons, hwithin]
    | link target =>
      dsimp only at h ⊢
      rcases hfind : d.find (p.join name) with fault | ⟨there, entry⟩
      · rw [hfind] at h
        cases h
      · obtain ⟨links, hleads⟩ := hp.exists_leads (isAbsolute_fileName hname)
          (find_eq_ok.mp hfind).1
        rw [steps_name hname.noSlash] at hleads
        rw [find_join_of_leadsInto hp hq (hlq.join hn) hfind]
        rw [hfind] at h
        cases entry with
        | file contents mode =>
          obtain rfl := Except.ok.inj h
          exact ⟨_, rfl, .cons (hsame hleads) .nil⟩
        | device contents | link target =>
          obtain rfl := Except.ok.inj h
          exact ⟨[], rfl, .nil⟩
        | directory mode =>
          have hdirectory : d.isDirectoryAt there = true := by
            rw [isDirectoryAt, (find_eq_ok.mp hfind).2]
          dsimp only at h ⊢
          split at h
          · cases h
          · rename_i hnone
            have hnew := find?_location_eq_none.mp hnone
            rw [find?_location_eq_none.mpr (by simpa [hwithin] using hnew)]
            refine @ih _ _ _ (⟨here, p⟩ :: within) (⟨here, q⟩ :: within') _
              (hp.join hname hleads hdirectory) (hq.join hname hleads hdirectory) ?_
              (hlp.link hn hleads hnew) (hlq.link hn hleads hnew) h
            rw [List.map_cons, List.map_cons, hwithin]

theorem walksAlike (hd : d.HasFileNames) : ∀ fuel : ℕ, WalksAlike d fuel
  | 0, here, p, q, within, within', files, _, _, _, _, _, h => by
    rw [walkIn] at h
    obtain rfl := Except.ok.inj h
    exact ⟨[], by rw [walkIn], .nil⟩
  | fuel + 1, here, p, q, within, within', files, hp, hq, hwithin, hlp, hlq, h => by
    rw [walkIn_succ] at h ⊢
    rcases hbelow : (d.namesIn here).mapM (visit d fuel ⟨here, p⟩ within) with e | below
    · simp [hbelow, bind, Except.bind] at h
    · obtain ⟨below', hbelow', hfiles⟩ := mapM_ok_of_forall hbelow fun name hn found hfound =>
        visit_alike hd (walksAlike hd fuel) hp hq hwithin hlp hlq hn hfound
      rw [hbelow] at h
      obtain rfl := Except.ok.inj h
      exact ⟨below'.flatten, by rw [hbelow']; rfl, List.rel_flatten hfiles⟩

/-- A walk below a directory finds the same files by both paths. -/
theorem walk_alike (hd : d.HasFileNames) {mode : ℕ} {files : List Path}
    (hp : d.find p = .ok (here, .directory mode)) (hq : d.find q = .ok (here, .directory mode))
    (hlp : LimitsBelow d p [here]) (hlq : LimitsBelow d q [here]) (h : walk d p = .ok files) :
    ∃ files', walk d q = .ok files' ∧ List.Forall₂ (SameFile d) files files' := by
  obtain ⟨hresolvep, hentry⟩ := find_eq_ok.mp hp
  have hresolveq := (find_eq_ok.mp hq).1
  have hdirectory : d.isDirectoryAt here = true := by rw [isDirectoryAt, hentry]
  rw [walk, canonical?, hresolvep] at h
  rw [walk, canonical?, hresolveq]
  exact walksAlike hd _ (leadsInto_of_resolve hresolvep hdirectory)
    (leadsInto_of_resolve hresolveq hdirectory) rfl hlp hlq h

end Walk

end Files

end Briefing
