import Briefing.Proofs.Changes
import Mathlib.Data.List.DropRight

/-!
# Making directories with those on the way

A directory is made together with those on the way to it that are missing. Nothing else is new
(`Grown`), and something is new only if the path of the directory leads to a name that is missing
(`madeAlong_makePath`). Steps behind such a name that do not go up again pass nothing that was there
before (`Grown.entry?_leads`), so a path that does not go back out of a new directory reads what it
read before (`MadeAlong.read_eq_ok`).
-/

namespace Briefing

namespace Disk

open Files (Fault)

/-! ## Disks that grow -/

section Grown

variable {d d' d'' : Disk}

/-- A disk on which nothing is new but directories. -/
structure Grown (d d' : Disk) : Prop where
  current : d'.current = d.current
  entries : ∀ location, d'.entry? location = d.entry? location
    ∨ d.entry? location = none ∧ ∃ mode, d'.entry? location = some (.directory mode)

theorem SameEntries.grown (h : SameEntries d d') : Grown d d' :=
  ⟨h.current, fun location => .inl (h.entries location)⟩

theorem SameEntries.extends (h : SameEntries d d') : Extends d d' :=
  ⟨h.current, fun {location _} hentry => (h.entries location).trans hentry⟩

theorem SameEntries.symm (h : SameEntries d d') : SameEntries d' d :=
  ⟨h.current.symm, fun location => (h.entries location).symm⟩

theorem SameEntries.read (h : SameEntries d d') (p : Path) : d'.read p = d.read p :=
  SameFiles.read ⟨h.current, fun location => h.entries location ▸ .refl _⟩ p

theorem MadeAt.grown {location : Location} (h : MadeAt location d d') : Grown d d' := by
  refine ⟨h.current, fun other => ?_⟩
  by_cases hother : other = location
  · rw [hother]
    exact .inr ⟨h.fresh, h.made⟩
  · exact .inl (h.entries other hother)

theorem Grown.trans (h : Grown d d') (h' : Grown d' d'') : Grown d d'' := by
  refine ⟨h'.current.trans h.current, fun location => ?_⟩
  rcases h'.entries location with hsame' | ⟨hnone', hmade'⟩
  · rw [hsame']
    exact h.entries location
  · rcases h.entries location with hsame | ⟨hnone, -⟩
    · exact .inr ⟨hsame ▸ hnone', hmade'⟩
    · exact .inr ⟨hnone, hmade'⟩

theorem Grown.extends (h : Grown d d') : Extends d d' := by
  refine ⟨h.current, fun {location entry} hentry => ?_⟩
  rcases h.entries location with hsame | ⟨hnone, -⟩
  · rw [hsame, hentry]
  · cases hnone.symm.trans hentry

end Grown

/-! ## The way to a parent -/

section Parent

variable {p parent : Path}

theorem joinSegments_append : ∀ {front back : List (List Char)}, front ≠ [] → back ≠ [] →
    Path.joinSegments (front ++ back) = Path.joinSegments front ++ '/' :: Path.joinSegments back
  | [], _, h, _ => absurd rfl h
  | [s], [], _, h => absurd rfl h
  | [s], b :: back, _, _ => by simp [Path.joinSegments, List.intercalate]
  | s :: s' :: front, back, _, hback => by
    have ih := joinSegments_append (List.cons_ne_nil s' front) hback
    simp only [Path.joinSegments, List.intercalate, List.cons_append] at ih ⊢
    simp [ih]

theorem cutStart_cases (text : List Char) : Path.cutStart text = ([], text)
    ∨ (∃ rest, text = '/' :: rest ∧ Path.cutStart text = (['/'], rest))
    ∨ (text = ['.'] ∧ Path.cutStart text = (['.'], []))
    ∨ ∃ rest, text = '.' :: '/' :: rest ∧ Path.cutStart text = (['.'], '/' :: rest) := by
  unfold Path.cutStart
  split
  · exact .inr (.inl ⟨_, rfl, rfl⟩)
  · exact .inr (.inr (.inl ⟨rfl, rfl⟩))
  · exact .inr (.inr (.inr ⟨_, rfl, rfl⟩))
  · exact .inl rfl

theorem exists_append_trimSegments (segments : List (List Char)) :
    ∃ silent, segments = Path.trimSegments segments ++ silent :=
  ⟨segments.rtakeWhile Path.isSilent, List.rdropWhile_append_rtakeWhile.symm⟩

theorem joinSegments_segments (text : List Char) :
    Path.joinSegments (Path.segments text) = text := List.intercalate_splitOn ..

/-- A parent keeps what its path starts with and some of the segments behind that, not all. -/
theorem parent?_eq_some (h : p.parent? = some parent) : parent.text = ""
    ∨ ∃ kept more, more ≠ []
      ∧ Path.segments (Path.cutStart p.text.toList).2 = kept ++ more
      ∧ parent.text.toList = (Path.cutStart p.text.toList).1 ++ Path.joinSegments kept := by
  rw [Path.parent?] at h
  obtain ⟨silent, hsegments⟩ :=
    exists_append_trimSegments (Path.segments (Path.cutStart p.text.toList).2)
  dsimp only at h
  generalize Path.trimSegments (Path.segments (Path.cutStart p.text.toList).2) = trimmed
    at h hsegments
  split_ifs at h with hnil hdot
  · obtain rfl := Option.some.inj h
    exact .inl rfl
  · obtain rfl := Option.some.inj h
    rw [List.isEmpty_iff] at hnil
    obtain ⟨silent', hkept⟩ := exists_append_trimSegments trimmed.dropLast
    refine .inr ⟨_, silent' ++ trimmed.getLast hnil :: silent, by simp, ?_,
      String.toList_ofList ..⟩
    rw [hsegments, ← List.append_assoc, ← hkept, ← List.concat_append,
      List.concat_eq_append, List.dropLast_append_getLast]

theorem cutStart_append (text : List Char) :
    (Path.cutStart text).1 ++ (Path.cutStart text).2 = text := by
  rcases cutStart_cases text with h | ⟨rest, rfl, h⟩ | ⟨rfl, h⟩ | ⟨rest, rfl, h⟩ <;> rw [h] <;> rfl

/-- A path goes on from its parent behind a slash, unless the parent is empty or the root. -/
theorem parent_text (h : p.parent? = some parent) : parent.text = "" ∨ parent.text = "/"
    ∨ parent.text ≠ "" ∧ ∃ tail, p.text = parent.text ++ "/" ++ tail := by
  by_cases hempty : parent.text = ""
  · exact .inl hempty
  obtain ⟨kept, more, hmore, hsegments, htext⟩ := (parent?_eq_some h).resolve_left hempty
  have hbody := joinSegments_segments (Path.cutStart p.text.toList).2
  have happend := cutStart_append p.text.toList
  rw [hsegments] at hbody
  by_cases hkept : kept = []
  -- the parent is what the path starts with
  · subst hkept
    rw [show Path.joinSegments [] = [] from rfl, List.append_nil] at htext
    rcases cutStart_cases p.text.toList with hcut | ⟨rest, -, hcut⟩ | ⟨hone, hcut⟩ |
      ⟨rest, hp, hcut⟩
    · rw [hcut] at htext
      exact absurd (String.toList_eq_nil_iff.mp htext) hempty
    · rw [hcut] at htext
      exact .inr (.inl (String.toList_inj.mp htext))
    · have hp : p = "." := congrArg Path.mk (String.toList_inj.mp hone)
      rw [hp] at h
      exact .inl (congrArg Path.text (Option.some.inj h)).symm
    · rw [hcut] at htext
      refine .inr (.inr ⟨hempty, String.ofList rest, String.toList_inj.mp ?_⟩)
      simp [htext, hp]
  · refine .inr (.inr ⟨hempty, String.ofList (Path.joinSegments more), String.toList_inj.mp ?_⟩)
    rw [joinSegments_append hkept hmore] at hbody
    rw [← happend, ← hbody]
    simp [htext]

end Parent

/-! ## Names that are missing -/

/-- A path leads to a name that is missing, with more steps behind it. -/
def Misses (d : Disk) (p : Path) (behind : List String) : Prop :=
  ∃ links front here name, d.Leads true links (d.start p) front here ∧ IsName name
    ∧ d.entry? (here ++ [name]) = none ∧ steps p.text = front ++ name :: behind

section Misses

variable {d d' : Disk} {p parent : Path} {behind : List String}

theorem Misses.exists_name (h : d.Misses p behind) : ∃ name ∈ steps p.text, IsName name := by
  obtain ⟨links, front, here, name, -, hname, -, hsteps⟩ := h
  exact ⟨name, by simp [hsteps], hname⟩

theorem SameEntries.misses (hsame : SameEntries d d') (h : d'.Misses p behind) :
    d.Misses p behind := by
  obtain ⟨links, front, here, name, hleads, hname, hnone, hsteps⟩ := h
  refine ⟨links, front, here, name, ?_, hname, (hsame.entries _).symm.trans hnone, hsteps⟩
  rw [hsame.extends.start]
  exact hleads.extends hsame.symm.extends

/-- What is missing on the way to a directory is missing on the way to what is in it. -/
theorem Misses.of_parent (hparent : p.parent? = some parent) (h : d.Misses parent behind) :
    ∃ behind, d.Misses p behind := by
  rcases parent_text hparent with hempty | hroot | ⟨hne, tail, htext⟩
  · obtain ⟨name, hmem, hname⟩ := h.exists_name
    rw [hempty, steps_empty, List.mem_singleton] at hmem
    exact absurd hmem hname.ne_empty
  · obtain ⟨name, hmem, hname⟩ := h.exists_name
    rw [hroot, show steps "/" = ["", ""] from rfl] at hmem
    exact absurd (by simpa using hmem) hname.ne_empty
  · obtain ⟨links, front, here, name, hleads, hname, hnone, hsteps⟩ := h
    refine ⟨behind ++ steps tail, links, front, here, name, ?_, hname, hnone, ?_⟩
    · have habsolute : p.isAbsolute = parent.isAbsolute := by
        rw [Path.isAbsolute, htext, String.append_assoc]
        exact isAbsolute_append hne
      rwa [start, habsolute, ← start]
    · rw [htext, steps_append_slash, hsteps, List.append_assoc, List.cons_append]

/-- What is made is no link. -/
theorem Grown.not_link (h : Grown d d') {location : Location} (hnone : d.entry? location = none)
    (target : String) : d'.entry? location ≠ some (.link target) := by
  intro hlink
  rcases h.entries location with hsame | ⟨-, mode, hmade⟩
  · cases hlink.symm.trans (hsame.trans hnone)
  · cases hlink.symm.trans hmade

theorem Grown.leads_missing (h : Grown d d') {links : ℕ} {here there : Location} {name : String}
    (hname : IsName name) (hnone : d.entry? (here ++ [name]) = none)
    (hleads : d'.Leads true links here (name :: behind) there) :
    d'.Leads true links (here ++ [name]) behind there := by
  cases hleads with
  | stay _ hs => exact absurd hs (by simp [hname.ne_empty, hname.ne_here])
  | up => exact absurd rfl hname.ne_up
  | name _ _ _ _ hrest => exact hrest
  | stop _ _ he => exact absurd he (h.not_link hnone _)
  | link _ _ he => exact absurd he (h.not_link hnone _)

/-- Below a location where nothing was, steps that do not go up pass nothing that was there. -/
theorem Grown.entry?_leads (h : Grown d d') (htree : d.IsTree) {links : ℕ} {here there : Location}
    {names : List String} (hleads : d'.Leads true links here names there)
    (hnone : d.entry? here = none) (hup : ".." ∉ names) : d.entry? there = none := by
  have hbelow : ∀ {here : Location} (step : String), d.entry? here = none →
      d.entry? (here ++ [step]) = none :=
    fun step hnone => htree.nothing_below hnone (List.prefix_append ..)
  induction hleads with
  | done => exact hnone
  | stay _ _ _ ih => exact ih hnone (List.not_mem_of_not_mem_cons hup)
  | up => simp at hup
  | name _ _ _ _ _ ih => exact ih (hbelow _ hnone) (List.not_mem_of_not_mem_cons hup)
  | stop _ _ _ hf => cases hf
  | link _ _ he => exact absurd he (h.not_link (hbelow _ hnone) _)

/-- A path that leads to a missing name and does not go up behind it can be read neither before
directories are made nor afterwards. -/
theorem Grown.read_ne_ok (h : Grown d d') (htree : d.IsTree) (hmisses : d.Misses p behind)
    (hup : ".." ∉ behind) (contents : ByteArray) : d'.read p ≠ .ok contents := by
  obtain ⟨links, front, here, name, hleads, hname, hnone, hsteps⟩ := hmisses
  intro hread
  rcases hfind : d'.find p with fault | ⟨location, entry⟩
  · rw [read, hfind] at hread
    cases hread
  · obtain ⟨hresolve, hentry⟩ := find_eq_ok.mp hfind
    obtain ⟨-, links', -, hleads'⟩ := resolve_eq_ok.mp hresolve
    rw [hsteps] at hleads'
    obtain ⟨middle, _, _, -, hfront, hback⟩ := hleads'.split (List.cons_ne_nil _ _)
    obtain rfl : middle = here := hfront.eq (h.extends.start p ▸ hleads.extends h.extends)
    have hnone' := h.entry?_leads htree (h.leads_missing hname hnone hback) hnone hup
    rcases h.entries location with hsame | ⟨-, mode, hmade⟩
    · cases hentry.symm.trans (hsame.trans hnone')
    · obtain rfl := Option.some.inj (hentry.symm.trans hmade)
      rw [read, hfind] at hread
      cases hread

end Misses

/-! ## Making directories -/

/-- Directories were made along the path of one of them, if any. -/
structure MadeAlong (d : Disk) (p : Path) (d' : Disk) : Prop where
  grown : Grown d d'
  isTree : d.IsTree → d'.IsTree
  missed : SameEntries d d' ∨ ∃ behind, d.Misses p behind

section Make

variable {d d₁ d' : Disk} {p parent : Path}

theorem MadeAlong.refl (d : Disk) (p : Path) : MadeAlong d p d :=
  ⟨(SameEntries.refl d).grown, id, .inl (.refl d)⟩

/-- What is made along a path is made along another one on which the same is missing. -/
theorem MadeAlong.imp {q : Path} (h : MadeAlong d p d')
    (hmisses : ∀ {behind}, d.Misses p behind → ∃ behind, d.Misses q behind) : MadeAlong d q d' :=
  ⟨h.grown, h.isTree, h.missed.imp_right fun ⟨_, h⟩ => hmisses h⟩

/-- What is made behind directories on the way is made along the same path. -/
theorem MadeAlong.trans (h : MadeAlong d p d₁) (h' : MadeAlong d₁ p d') : MadeAlong d p d' := by
  refine ⟨h.grown.trans h'.grown, fun htree => h'.isTree (h.isTree htree), ?_⟩
  rcases h.missed with hsame | hmissed
  · rcases h'.missed with hsame' | ⟨behind, hmisses⟩
    · exact .inl ⟨hsame'.current.trans hsame.current,
        fun location => (hsame'.entries location).trans (hsame.entries location)⟩
    · exact .inr ⟨behind, hsame.misses hmisses⟩
  · exact .inr hmissed

theorem IsTree.put_directory (htree : d.IsTree) {location : Location}
    (hnone : d.entry? location = none) (hparent : d.isDirectoryAt location.dropLast = true)
    (mode : ℕ) : (d.put location (.directory mode)).IsTree := by
  have hne : location ≠ [] := by
    rintro rfl
    cases hnone
  have hext := (madeAt_put hnone hne mode).extends
  intro e he
  rcases List.mem_cons.mp he with rfl | hmem
  · exact hext.isDirectoryAt hparent
  · exact hext.isDirectoryAt (htree e (List.mem_filter.mp hmem).1)

/-- The name that a path gives in a directory has nothing but slashes behind it. -/
theorem steps_of_locate {directory : Location} {name : String}
    (h : d.locate p = .ok (directory, name)) : name ≠ "" ∧ name.utf8ByteSize ≤ nameLimit
      ∧ d.isDirectoryAt directory = true ∧ ∃ front silent links,
        steps p.text = front ++ name :: silent ∧ (∀ step ∈ silent, step = "")
          ∧ d.Leads true links (d.start p) front directory := by
  have hlast := List.rdropWhile_last_not (decide <| · = "") (steps p.text)
  obtain ⟨silent, hsilent, hsteps⟩ : ∃ silent : List String, (∀ step ∈ silent, step = "")
      ∧ (steps p.text).rdropWhile (decide <| · = "") ++ silent = steps p.text :=
    ⟨_, fun _ hmem => by simpa using List.mem_rtakeWhile_imp hmem,
      List.rdropWhile_append_rtakeWhile⟩
  rw [List.rdropWhile] at hsteps hlast
  unfold locate at h
  dsimp only at h
  generalize ((steps p.text).reverse.dropWhile (decide <| · = "")).reverse = kept at h hsteps hlast
  rcases List.eq_nil_or_concat kept with rfl | ⟨front, last, rfl⟩
  · simp only [bind, Except.bind, throw, throwThe, MonadExceptOf.throw, List.getLast?_nil] at h
    split_ifs at h
  · simp only [List.concat_eq_append] at h hsteps hlast
    simp only [bind, Except.bind, throw, throwThe, MonadExceptOf.throw, pure, Except.pure,
      List.getLast?_concat, List.dropLast_concat] at h
    rw [← start] at h
    rcases hwalk : d.walkSteps true linkLimit (d.start p) front with fault | there
    · rw [hwalk] at h
      split_ifs at h
    · rw [hwalk] at h
      dsimp only at h
      split_ifs at h with hnul hsize hdirectory hname
      obtain ⟨rfl, rfl⟩ := Prod.mk.inj (Except.ok.inj h)
      obtain ⟨links, -, hleads⟩ := exists_leads hwalk
      refine ⟨by simpa using hlast, by omega, by simpa using hdirectory, front, silent, links, ?_,
        hsilent, hleads⟩
      rw [← hsteps, List.append_assoc, List.singleton_append]

theorem madeAlong_makeDirectory (h : d.makeDirectory p = .ok d') : MadeAlong d p d' := by
  obtain ⟨directory, name, hlocate, hhere, hup, hnone, rfl⟩ := exists_locate_of_makeDirectory h
  obtain ⟨hne, hsize, hdirectory, front, silent, links, hsteps, -, hleads⟩ :=
    steps_of_locate hlocate
  exact ⟨(madeAt_put hnone (by simp) _).grown,
    fun htree => htree.put_directory hnone (by simpa using hdirectory) _,
    .inr ⟨silent, links, front, directory, name, hleads, ⟨hne, hhere, hup, hsize⟩, hnone, hsteps⟩⟩

theorem madeAlong_makeDirectories : ∀ (fuel : ℕ) (d : Disk) (p : Path),
    MadeAlong d p (d.makeDirectories fuel p).1
  | 0, d, p => .refl d p
  | fuel + 1, d, p => by
    rw [makeDirectories]
    split
    · exact .refl d p
    · split
      · exact madeAlong_makeDirectory ‹_›
      · split
        · exact .refl d p
        · rename_i parent hparent
          have ih := (madeAlong_makeDirectories fuel d parent).imp (·.of_parent hparent)
          split
          · rename_i hmade
            rwa [hmade] at ih
          · rename_i hmade
            rw [hmade] at ih
            split
            · exact ih.trans (madeAlong_makeDirectory ‹_›)
            · exact ih
      · exact .refl d p

theorem madeAlong_makePath (d : Disk) (p : Path) : MadeAlong d p (d.makePath p).1 :=
  madeAlong_makeDirectories ..

end Make

/-! ## Reading afterwards -/

/-- A path goes up by `..` behind a name that is missing. -/
def GoesBack (d : Disk) (p : Path) : Prop := ∃ behind, d.Misses p behind ∧ ".." ∈ behind

section Read

variable {d d' : Disk} {p : Path} {contents : ByteArray}

theorem Extends.read (h : Extends d d') (hread : d.read p = .ok contents) :
    d'.read p = .ok contents := by
  rcases hfind : d.find p with fault | ⟨location, entry⟩
  · rw [Disk.read, hfind] at hread
    cases hread
  · have hfind' : d'.find p = .ok (location, entry) := by
      obtain ⟨hresolve, hentry⟩ := find_eq_ok.mp hfind
      exact find_eq_ok.mpr ⟨h.resolve hresolve, h.entries hentry⟩
    rw [Disk.read, hfind] at hread
    rw [Disk.read, hfind', hread]

theorem MadeAlong.read_eq_ok (h : MadeAlong d p d') (htree : d.IsTree) (hback : ¬GoesBack d p) :
    d'.read p = .ok contents ↔ d.read p = .ok contents := by
  rcases h.missed with hsame | ⟨behind, hmisses⟩
  · rw [hsame.read]
  · have hup : ".." ∉ behind := fun hup => hback ⟨behind, hmisses, hup⟩
    have hnone := h.grown.read_ne_ok htree hmisses hup contents
    exact iff_of_false hnone fun hread => hnone (h.grown.extends.read hread)

end Read

end Disk

end Briefing
