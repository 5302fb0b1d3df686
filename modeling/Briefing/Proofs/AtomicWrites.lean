import Briefing.Output
import Briefing.Proofs.Directories

/-!
# A text is written as a whole or not at all

A write makes directories, puts the text in a new file beside the target and gives that file the
target's name; it stops at the first step that fails (`write_cases`, `moveInto_cases`). The new file
lies where nothing was, so without it the disk is the one from before
(`IsTree.sameEntries_remove_put`). What is left of a failed write is new directories, and of one
that is done the text in the place that the path named (`write_atomic`). What the path then reads
depends on its way: it may go back out of a new directory, or lead over the link that the new file
replaces (`write_not_atomic`).
-/

namespace Briefing

namespace Disk

open Files (Fault)

/-! ## Disks that differ in one place -/

/-- Two disks that have the same entries but at one location. -/
structure SameBut (location : Location) (d d' : Disk) : Prop where
  current : d'.current = d.current
  entries : ∀ other, other ≠ location → d'.entry? other = d.entry? other

section SameBut

variable {d d' : Disk} {location : Location}

theorem SameBut.symm (h : SameBut location d d') : SameBut location d' d :=
  ⟨h.current.symm, fun other hother => (h.entries other hother).symm⟩

theorem SameBut.trans {d'' : Disk} (h : SameBut location d d') (h' : SameBut location d' d'') :
    SameBut location d d'' :=
  ⟨h'.current.trans h.current,
    fun other hother => (h'.entries other hother).trans (h.entries other hother)⟩

theorem SameEntries.sameBut (h : SameEntries d d') (location : Location) : SameBut location d d' :=
  ⟨h.current, fun other _ => h.entries other⟩

theorem SameBut.isDirectoryAt (h : SameBut location d d') {other : Location}
    (hother : other ≠ location) : d'.isDirectoryAt other = d.isDirectoryAt other := by
  rw [Disk.isDirectoryAt, Disk.isDirectoryAt, h.entries other hother]

theorem SameBut.put (h : SameBut location d d') (entry : Entry) :
    SameBut location d (d'.put location entry) := by
  refine ⟨h.current, fun other hother => ?_⟩
  rw [← h.entries other hother, entry?_put, if_neg hother]
  split_ifs with hroot
  · rw [hroot]
    rfl
  · rfl

theorem Leads.isDirectoryAt_start {follow : Bool} {links : ℕ} {here there : Location}
    {names : List String} (h : d.Leads follow links here names there)
    (hthere : d.isDirectoryAt there = true) : d.isDirectoryAt here = true := by
  cases names with
  | nil =>
    cases h
    exact hthere
  | cons name names => exact h.isDirectoryAt

/-- The way to a directory does not pass what is neither a directory nor a link, so it is the same
whether that is there or not. -/
theorem SameBut.leads (h : SameBut location d d') (hnot : d.isDirectoryAt location = false)
    (hlink : ∀ target, d.entry? location ≠ some (.link target)) {links : ℕ}
    {here there : Location} {names : List String} (hleads : d.Leads true links here names there)
    (hthere : d.isDirectoryAt there = true) : d'.Leads true links here names there := by
  have hdirectory : ∀ {other}, d.isDirectoryAt other = true → d'.isDirectoryAt other = true := by
    intro other hother
    rw [h.isDirectoryAt, hother]
    rintro rfl
    simp [hnot] at hother
  induction hleads with
  | done => exact .done _
  | stay hd hs _ ih => exact .stay (hdirectory hd) hs (ih hthere)
  | up hd _ ih => exact .up (hdirectory hd) (ih hthere)
  | @name _ here _ step _ entry hd hs he hl hrest ih =>
    -- from there the way would have to go on, or end at a directory
    have hne : here ++ [step] ≠ location := by
      intro hsame
      simp [← hsame, hrest.isDirectoryAt_start hthere] at hnot
    exact .name (hdirectory hd) hs ((h.entries _ hne).trans he) hl (ih hthere)
  | stop _ _ _ hf => cases hf
  | @link _ here _ step target _ hd hs he hf _ ih =>
    have hne : here ++ [step] ≠ location := by
      rintro rfl
      exact hlink target he
    exact .link (hdirectory hd) hs ((h.entries _ hne).trans he) hf (ih hthere)

/-- Nothing is below what is no directory. -/
theorem IsTree.eq_none (h : d.IsTree) (hnot : d.isDirectoryAt location = false) {below : Location}
    (hbelow : location <+: below) (hne : below ≠ location) : d.entry? below = none := by
  obtain ⟨names, rfl⟩ := hbelow
  induction names using List.reverseRecOn with
  | nil => simp at hne
  | append_singleton names name ih =>
    by_contra hsome
    obtain ⟨entry, hentry⟩ := Option.ne_none_iff_exists'.mp hsome
    have hdirectory := h _ (mem_entries hentry (by simp))
    rw [← List.append_assoc, List.dropLast_concat] at hdirectory
    rcases eq_or_ne (location ++ names) location with hsame | hne
    · simp [hsame, hnot] at hdirectory
    · rw [Disk.isDirectoryAt, ih hne] at hdirectory
      cases hdirectory

theorem IsTree.sameBut_remove (h : d.IsTree) (hnot : d.isDirectoryAt location = false) :
    SameBut location d (d.remove location) := by
  refine ⟨rfl, fun other hother => ?_⟩
  rw [entry?_remove]
  split_ifs with hbelow
  · exact (h.eq_none hnot hbelow.2 hother).symm
  · rfl

/-- A file that is put where nothing was and removed again leaves no trace. -/
theorem IsTree.sameEntries_remove_put (h : d.IsTree) (hnone : d.entry? location = none)
    (entry : Entry) : SameEntries d ((d.put location entry).remove location) := by
  refine ⟨rfl, fun other => ?_⟩
  rw [entry?_remove, entry?_put]
  split_ifs with hbelow hroot hsame
  · exact (h.nothing_below hnone hbelow.2).symm
  · rw [hroot]
    rfl
  · exact absurd ⟨hroot, by simp [hsame]⟩ hbelow
  · rfl

end SameBut

end Disk

namespace Output

open Files (Fault)
open Disk

/-! ## The place that a path names -/

section Nameable

variable {d d' : Disk} {path : Path} {location : Location}

theorem getLast_ne_slash {front : List String} {name : String} (hne : name ≠ "")
    (hsteps : steps path.text = front ++ [name]) : path.text.toList.getLast? ≠ some '/' := by
  intro hslash
  obtain ⟨text, htext⟩ := exists_append_slash hslash
  rw [htext, steps_append_final_slash] at hsteps
  obtain ⟨-, hlast⟩ := List.append_inj' hsteps rfl
  exact hne (List.singleton_inj.mp hlast).symm

theorem getLast_eq_slash {front : List String} (hsteps : steps path.text = front ++ [""]) :
    path.text = "" ∨ path.text.toList.getLast? = some '/' := by
  have htext := joinSegments_segments path.text.toList
  obtain ⟨segments, last, hsegments, -, hlast⟩ := List.map_eq_append_iff.mp hsteps
  obtain ⟨segment, rfl, hsegment⟩ := List.map_eq_singleton_iff.mp hlast
  obtain rfl : segment = [] := String.ofList_inj.mp hsegment
  rw [hsegments] at htext
  rcases eq_or_ne segments [] with rfl | hne
  · exact .inl (String.toList_eq_nil_iff.mp htext.symm)
  · rw [joinSegments_append hne (List.cons_ne_nil _ _)] at htext
    refine .inr ?_
    rw [← htext]
    exact List.getLast?_concat

/-- Nothing silent is behind the name that a path gives, if no slash is at its end. -/
theorem silent_eq_nil {front silent : List String} {name : String} (hempty : path.text ≠ "")
    (hslash : path.text.toList.getLast? ≠ some '/')
    (hsteps : steps path.text = front ++ name :: silent) (hsilent : ∀ step ∈ silent, step = "") : silent = [] := by
  rcases List.eq_nil_or_concat silent with hnil | ⟨more, last, rfl⟩
  · exact hnil
  · obtain rfl := hsilent last (by simp)
    have hend : steps path.text = (front ++ name :: more) ++ [""] := by simp [hsteps]
    exact ((getLast_eq_slash hend).elim hempty hslash).elim

/-- What a path names is at the end of its steps. -/
theorem nameable_eq_ok : nameable d path = .ok location ↔ IsTaken path
    ∧ ∃ front name directory, steps path.text = front ++ [name] ∧ IsName name
      ∧ location = directory ++ [name] ∧ d.isDirectoryAt directory = true
      ∧ d.isDirectoryAt location = false
      ∧ ∃ links ≤ linkLimit, d.Leads true links (d.start path) front directory := by
  constructor
  · intro h
    rw [nameable] at h
    simp only [bind, Except.bind, throw, throwThe, MonadExceptOf.throw, pure, Except.pure] at h
    split at h
    · cases h
    · rename_i hempty
      split at h
      · cases h
      · cases h
      · rename_i directory name hlocate
        split_ifs at h with hdots hslash hnot
        obtain rfl := Except.ok.inj h
        obtain ⟨hne, hsize, -, front, silent, -, hsteps, hsilent, -⟩ := steps_of_locate hlocate
        obtain rfl := silent_eq_nil (by simpa using hempty) hslash hsteps hsilent
        obtain ⟨htaken, -, -, hparent, hleads⟩ := (locate_eq_ok hsteps hne).mp hlocate
        rw [not_or] at hdots
        exact ⟨htaken, front, name, directory, hsteps, ⟨hne, hdots.1, hdots.2, hsize⟩, rfl,
          hparent, by simpa using hnot, hleads⟩
  · rintro ⟨htaken, front, name, directory, hsteps, hname, rfl, hparent, hnot, links, hle, hleads⟩
    have hlocate : d.locate path = .ok (directory, name) :=
      (locate_eq_ok hsteps hname.ne_empty).mpr
        ⟨htaken, hname.size, rfl, hparent, links, hle, hleads⟩
    rw [nameable, hlocate, if_neg (by simpa using htaken.ne_empty)]
    dsimp only
    rw [if_neg (by simp [hname.ne_here, hname.ne_up]),
      if_neg (getLast_ne_slash hname.ne_empty hsteps), if_neg (by simp [hnot])]
    rfl

/-- What a path names it names on a disk that differs in a place that is neither a directory nor a
link, unless a directory is there. -/
theorem nameable_sameBut {other : Location} (h : SameBut other d d')
    (hnot : d.isDirectoryAt other = false) (hlink : ∀ target, d.entry? other ≠ some (.link target))
    (hnot' : d'.isDirectoryAt other = false) (hnameable : nameable d path = .ok location) :
    nameable d' path = .ok location := by
  obtain ⟨htaken, front, name, directory, hsteps, hname, rfl, hparent, hfree, links, hle, hleads⟩ :=
    nameable_eq_ok.mp hnameable
  refine nameable_eq_ok.mpr ⟨htaken, front, name, directory, hsteps, hname, rfl, ?_, ?_, links, hle,
    ?_⟩
  · rw [h.isDirectoryAt, hparent]
    rintro rfl
    simp [hnot] at hparent
  · rcases eq_or_ne (directory ++ [name]) other with hsame | hne
    · rw [hsame, hnot']
    · rw [h.isDirectoryAt hne, hfree]
  · rw [start, h.current, ← start]
    exact h.leads hnot hlink hleads hparent

end Nameable

/-! ## The steps of a write -/

section Steps

variable {d d' : Disk} {path : Path} {text : String} {trouble : Option Trouble}

theorem attempt_eq_ok {α : Type} {step : Step} {result : Except Fault α} {x : α}
    (h : attempt trouble step result = .ok x) : result = .ok x := by
  unfold attempt at h
  split at h
  · split_ifs at h
    exact h
  · exact h

theorem beside_eq_ok {directory : Path} {location : Location}
    (h : beside d directory = .ok location) : d.entry? location = none := by
  rw [beside] at h
  rcases hresolve : d.resolve true (d.absolute directory) with fault | here
  · simp [hresolve, bind, Except.bind] at h
  · simp only [hresolve, bind, Except.bind, throw, throwThe, MonadExceptOf.throw, pure,
      Except.pure] at h
    split_ifs at h with hdirectory hsize hfree
    obtain rfl := Except.ok.inj h
    simpa using hfree

theorem misses_of_directoryOf {behind : List String} (h : d.Misses (directoryOf path) behind) :
    ∃ behind, d.Misses path behind := by
  have hdot : ¬d.Misses "." behind := by
    intro hmisses
    obtain ⟨name, hmem, hname⟩ := hmisses.exists_name
    exact hname.ne_here (List.mem_singleton.mp hmem)
  rw [directoryOf] at h
  split at h
  · split_ifs at h
    · exact absurd h hdot
    · exact h.of_parent ‹_›
  · exact absurd h hdot

theorem misses_of_above {behind : List String} : ∀ (n : ℕ) {p : Path}, d.Misses (above n p) behind →
    ∃ behind, d.Misses p behind
  | 0, p, h => ⟨behind, h⟩
  | n + 1, p, h => by
    rw [above] at h
    split at h
    · obtain ⟨behind, h⟩ := misses_of_above n h
      exact h.of_parent ‹_›
    · obtain ⟨name, hmem, hname⟩ := h.exists_name
      exact absurd (List.mem_singleton.mp hmem) hname.ne_empty

/-- Whatever directories are made, they are on the way to the file. -/
theorem madeAlong_makeParents (trouble : Option Trouble) (d : Disk) (path : Path) :
    MadeAlong d path (makeParents trouble d (directoryOf path)).1 := by
  have hdirectory := (madeAlong_makePath d (directoryOf path)).imp misses_of_directoryOf
  rcases trouble with _ | t
  · rwa [makeParents]
  · have habove := (madeAlong_makePath d (above (t.unmade + 1) (directoryOf path))).imp
      fun hmisses => (misses_of_above _ hmisses).elim fun _ => misses_of_directoryOf
    rw [makeParents]
    split_ifs
    · dsimp only
      exact habove
    · exact hdirectory

theorem makeParents_eq_ok {directory : Path} (h : makeParents trouble d directory = (d', .ok ())) :
    d' = (d.makePath directory).1 := by
  unfold makeParents at h
  split at h
  · split_ifs at h
    · cases h
    · rw [h]
  · rw [h]

/-- A new file is removed, or it takes the name of the target and nothing was done amiss. -/
theorem moveInto_cases (trouble : Option Trouble) (d : Disk) (path : Path) (text : String)
    (location : Location) :
    (∃ fault contents, moveInto trouble d path text location
      = ((d.put location (.file contents besideMode)).remove location, .error fault))
    ∨ ∃ target, nameable (d.put location (.file text.toUTF8 besideMode)) path = .ok target
      ∧ moveInto trouble d path text location
        = (((d.put location (.file text.toUTF8 besideMode)).remove location).put target
            (.file text.toUTF8 besideMode), .ok ()) := by
  rw [moveInto]
  split
  · exact .inl ⟨_, _, rfl⟩
  · dsimp only
    split
    · exact .inl ⟨_, _, rfl⟩
    · exact .inr ⟨_, attempt_eq_ok ‹_›, rfl⟩

/-- A write stops behind the making of directories, or it goes on with a new file. -/
theorem write_cases (d : Disk) (path : Path) (text : String) (trouble : Option Trouble) :
    (∃ fault, write d path text trouble
      = ((makeParents trouble d (directoryOf path)).1, .error fault))
    ∨ ∃ made location, makeParents trouble d (directoryOf path) = (made, .ok ())
      ∧ made.entry? location = none
      ∧ write d path text trouble = moveInto trouble made path text location := by
  rw [write]
  split
  · rename_i hmade
    exact .inl ⟨_, by rw [hmade]⟩
  · rename_i made hmade
    split
    · exact .inl ⟨_, by rw [hmade]⟩
    · rename_i location hbeside
      exact .inr ⟨made, location, hmade, beside_eq_ok (attempt_eq_ok hbeside), rfl⟩

end Steps

/-! ## What a write leaves -/

/-- What a failed write leaves: nothing is new but directories, so the path still reads what it
read. It reads no more than that, unless it goes back out of a new directory. -/
structure Unwritten (d : Disk) (path : Path) (d' : Disk) : Prop where
  grown : Grown d d'
  reads : ∀ contents, d.read path = .ok contents → d'.read path = .ok contents
  readsNoMore : ¬GoesBack d path →
    ∀ contents, d'.read path = .ok contents → d.read path = .ok contents

/-- A path names a link that is on the way to what it names. -/
def LeadsOverItself (d : Disk) (path : Path) : Prop :=
  ∃ location target, nameable d path = .ok location ∧ d.entry? location = some (.link target)
    ∧ nameable (d.remove location) path ≠ .ok location

/-- What a write leaves: once the directory is made with those on the way to it, all that changes is
what the path names, which is a file with the text. The path reads the text, unless it led over the
link that the file replaces. -/
structure Written (d : Disk) (path : Path) (text : String) (d' : Disk) : Prop where
  grown : Grown d (d.makePath (directoryOf path)).1
  replaced : ∃ location, nameable (d.makePath (directoryOf path)).1 path = .ok location
    ∧ d'.entry? location = some (.file text.toUTF8 besideMode)
    ∧ SameBut location (d.makePath (directoryOf path)).1 d'
  reads : d'.read path = .ok text.toUTF8 ↔ ¬LeadsOverItself (d.makePath (directoryOf path)).1 path

section Write

variable {d d' : Disk} {path : Path} {text : String} {trouble : Option Trouble}

theorem unwritten_of_madeAlong (h : MadeAlong d path d') (htree : d.IsTree) : Unwritten d path d' :=
  ⟨h.grown, fun _ => h.grown.extends.read,
    fun hback _ => (h.read_eq_ok htree hback).mp⟩

theorem Unwritten.sameEntries {d'' : Disk} (h : Unwritten d path d') (hsame : SameEntries d' d'') :
    Unwritten d path d'' := by
  refine ⟨h.grown.trans hsame.grown, ?_, ?_⟩
  · rw [hsame.read]
    exact h.reads
  · rw [hsame.read]
    exact h.readsNoMore

/-- Where a file took the place that a path named, the path reads it if the path names that place
without what was there. -/
theorem read_of_nameable {location : Location} {contents : ByteArray} {mode : ℕ}
    (h : SameBut location d d') (hfile : d'.entry? location = some (.file contents mode))
    (hnameable : nameable (d.remove location) path = .ok location) :
    d'.read path = .ok contents := by
  obtain ⟨htaken, front, name, directory, hsteps, hname, rfl, hparent, -, hleads⟩ :=
    nameable_eq_ok.mp hnameable
  have hlocate := (locate_eq_ok hsteps hname.ne_empty (x := (directory, name))).mpr
    ⟨htaken, hname.size, rfl, hparent, hleads⟩
  have hext : Extends (d.remove (directory ++ [name])) d' := by
    refine ⟨h.current, fun {other entry} hentry => ?_⟩
    rw [entry?_remove] at hentry
    split_ifs at hentry with hbelow
    rw [h.entries other, hentry]
    rintro rfl
    exact hbelow ⟨by simp, List.prefix_rfl⟩
  have hfind : d'.find path = .ok (directory ++ [name], .file contents mode) :=
    find_eq_ok.mpr ⟨resolve_of_locate hsteps hname hlocate hext hfile (by simp), hfile⟩
  rw [Disk.read, hfind]
  rfl

/-- If a path reads anything where a file took the place that it named, it names that place without
what was there. -/
theorem nameable_of_read {location : Location} {contents contents' : ByteArray} {mode : ℕ}
    (htree : d.IsTree) (h : SameBut location d d')
    (hfile : d'.entry? location = some (.file contents mode))
    (hnameable : nameable d path = .ok location) (hread : d'.read path = .ok contents') :
    nameable (d.remove location) path = .ok location := by
  obtain ⟨htaken, front, name, directory, hsteps, hname, rfl, hparent, hnot, _, -, hleads⟩ :=
    nameable_eq_ok.mp hnameable
  rcases hfind : d'.find path with fault | ⟨there, entry⟩
  · rw [Disk.read, hfind] at hread
    cases hread
  · obtain ⟨-, links, hle, hleads'⟩ := resolve_eq_ok.mp (find_eq_ok.mp hfind).1
    rw [hsteps] at hleads'
    obtain ⟨middle, links₁, links₂, hlinks, hfront, hback⟩ := hleads'.split (List.cons_ne_nil _ _)
    have hmiddle := hback.isDirectoryAt
    have hnot' : d'.isDirectoryAt (directory ++ [name]) = false := by
      rw [isDirectoryAt, hfile]
    have hbut := h.symm.trans (htree.sameBut_remove hnot)
    have hway := hbut.leads hnot' (by simp [hfile]) hfront hmiddle
    -- on the smaller disk the way leads where it led before
    obtain rfl : middle = directory := by
      rw [start, h.current, ← start] at hway
      exact (hway.extends extends_remove).eq hleads
    refine nameable_eq_ok.mpr ⟨htaken, front, name, middle, hsteps, hname, rfl, ?_, ?_, links₁,
      by omega, ?_⟩
    · rw [hbut.isDirectoryAt (by simp), hmiddle]
    · rw [isDirectoryAt, entry?_remove, if_pos ⟨by simp, List.prefix_rfl⟩]
    · rwa [start, h.current, ← start] at hway

/-- The path reads the text that took the place it named, unless it led over the link there. -/
theorem read_iff_not_leadsOverItself {location : Location} (htree : d.IsTree)
    (hnameable : nameable d path = .ok location)
    (hfile : d'.entry? location = some (.file text.toUTF8 besideMode))
    (h : SameBut location d d') : d'.read path = .ok text.toUTF8 ↔ ¬LeadsOverItself d path := by
  constructor
  · rintro hread ⟨location', target, hnameable', -, hover⟩
    obtain rfl := Except.ok.inj (hnameable'.symm.trans hnameable)
    exact hover (nameable_of_read htree h hfile hnameable hread)
  · intro hover
    refine read_of_nameable h hfile ?_
    by_cases hlink : ∃ target, d.entry? location = some (.link target)
    · obtain ⟨target, hlink⟩ := hlink
      by_contra hnot
      exact hover ⟨location, target, hnameable, hlink, hnot⟩
    · obtain ⟨-, front, name, directory, -, -, rfl, -, hfree, -⟩ := nameable_eq_ok.mp hnameable
      have hbut := htree.sameBut_remove hfree
      refine nameable_sameBut hbut hfree (not_exists.mp hlink) ?_ hnameable
      rw [isDirectoryAt, entry?_remove, if_pos ⟨by simp, List.prefix_rfl⟩]

theorem written_of_put {made : Disk} {location target : Location} (htree : made.IsTree)
    (hmade : Grown d made) (hmadePath : made = (d.makePath (directoryOf path)).1)
    (hnone : made.entry? location = none)
    (hnameable : nameable (made.put location (.file text.toUTF8 besideMode)) path = .ok target) :
    Written d path text (((made.put location (.file text.toUTF8 besideMode)).remove location).put
      target (.file text.toUTF8 besideMode)) := by
  have hne : location ≠ [] := by
    rintro rfl
    cases hnone
  have hput : Disk.entry? (made.put location (.file text.toUTF8 besideMode)) location
      = some (.file text.toUTF8 besideMode) := by
    rw [entry?_put, if_neg hne, if_pos rfl]
  -- the path names the same place without the new file
  have hnameable' : nameable made path = .ok target :=
    nameable_sameBut (((SameEntries.refl made).sameBut location).put _).symm
      (by rw [isDirectoryAt, hput]) (fun _ hlink => by cases hput.symm.trans hlink)
      (by rw [isDirectoryAt, hnone]) hnameable
  have hbut : SameBut target made _ :=
    ((htree.sameEntries_remove_put hnone (.file text.toUTF8 besideMode)).sameBut target).put
      (.file text.toUTF8 besideMode)
  have hfile : Disk.entry? (((made.put location (.file text.toUTF8 besideMode)).remove
      location).put target (.file text.toUTF8 besideMode)) target
        = some (.file text.toUTF8 besideMode) := by
    obtain ⟨-, front, name, directory, -, -, rfl, -⟩ := nameable_eq_ok.mp hnameable'
    rw [entry?_put, if_neg (by simp), if_pos rfl]
  subst hmadePath
  exact ⟨hmade, ⟨target, hnameable', hfile, hbut⟩,
    read_iff_not_leadsOverItself htree hnameable' hfile hbut⟩

/-- A text is written as a whole or not at all, whatever step fails. -/
theorem write_atomic (htree : d.IsTree) (path : Path) (text : String) (trouble : Option Trouble) :
    let ended := write d path text trouble
    (∀ fault, ended.2 = .error fault → Unwritten d path ended.1)
      ∧ (ended.2 = .ok () → Written d path text ended.1) := by
  have hparents := madeAlong_makeParents trouble d path
  intro ended
  rcases write_cases d path text trouble with
    ⟨fault, hwrite⟩ | ⟨made, location, hmade, hnone, hwrite⟩
  · simp only [ended, hwrite]
    exact ⟨fun _ _ => unwritten_of_madeAlong hparents htree, by rintro ⟨⟩⟩
  · rw [hmade] at hparents
    have htree' := hparents.isTree htree
    rcases moveInto_cases trouble made path text location with
      ⟨fault, contents, hmove⟩ | ⟨target, hnameable, hmove⟩
    · simp only [ended, hwrite, hmove]
      exact ⟨fun _ _ => (unwritten_of_madeAlong hparents htree).sameEntries
        (htree'.sameEntries_remove_put hnone _), by rintro ⟨⟩⟩
    · simp only [ended, hwrite, hmove]
      exact ⟨by rintro _ ⟨⟩, fun _ =>
        written_of_put htree' hparents.grown (makeParents_eq_ok hmade) hnone hnameable⟩

end Write

/-! ## A disk with a link -/

/-- A disk with a file and with a link to a directory. -/
def linkedDisk : Disk where
  entries := [(["w"], .directory 0o755), (["w", "sub"], .directory 0o755),
    (["w", "lnk"], .link "sub"), (["w", "f"], .file "old".toUTF8 0o644)]
  current := ["w"]

/-- A rename that fails. -/
def noRename : Trouble where
  step := .rename
  fault := .permissionDenied
  written := 0
  unmade := 0

/-- A failed write over a file keeps it, and a write by way of a link is read. -/
theorem write_atomic_linkedDisk :
    let failed := write linkedDisk "f" "new" (some noRename)
    let done := write linkedDisk "lnk/new/p" "text"
    linkedDisk.IsTree ∧ failed.2.toOption = none ∧ failed.1.read "f" = .ok "old".toUTF8
      ∧ done.2.toOption = some () ∧ done.1.read "lnk/new/p" = .ok "text".toUTF8 := by
  have htree : linkedDisk.IsTree := by decide
  have hfailed := (write_atomic htree "f" "new" (some noRename)).1
  have hdone := (write_atomic htree "lnk/new/p" "text" none).2
  intro failed done
  have hleft : failed.2.toOption = none := by decide +kernel
  have hok : done.2.toOption = some () := by decide +kernel
  refine ⟨htree, hleft, ?_, hok, ?_⟩
  · rcases hended : failed.2 with fault | _
    · exact (hfailed fault hended).reads _ rfl
    · rw [hended] at hleft
      cases hleft
  · rcases hended : done.2 with fault | _
    · rw [hended] at hok
      cases hok
    · refine (hdone hended).reads.mpr ?_
      rintro ⟨location, target, hnameable, hlink, -⟩
      have hplace : (nameable (linkedDisk.makePath (directoryOf "lnk/new/p")).1
          "lnk/new/p").toOption = some ["w", "sub", "new", "p"] := by decide +kernel
      have hfree : (Disk.entry? (linkedDisk.makePath (directoryOf "lnk/new/p")).1
          ["w", "sub", "new", "p"]).isNone = true := by decide +kernel
      rw [hnameable] at hplace
      obtain rfl := Option.some.inj hplace
      rw [hlink] at hfree
      cases hfree

/-- A path that goes back out of a new directory can be read after a failed write though it could
not be read before, and one that leads over the link that is replaced cannot be read after a write
that is done. -/
theorem write_not_atomic :
    let failed := write linkedDisk "new/../f" "text" (some noRename)
    let done := write linkedDisk "lnk/../lnk" "text"
    linkedDisk.IsTree ∧ failed.2.toOption = none ∧ (linkedDisk.read "new/../f").toOption = none
      ∧ (failed.1.read "new/../f").toOption = some "old".toUTF8
      ∧ done.2.toOption = some () ∧ (done.1.read "lnk/../lnk").toOption = none := by
  decide +kernel

end Output

end Briefing
