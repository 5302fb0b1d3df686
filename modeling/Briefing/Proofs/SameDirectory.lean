import Briefing.Proofs.Aliases

/-!
# Searching one directory by two paths

What a search finds below a directory by one path it finds by another one, too, as far as the limits
let it look at everything by both (`OneDirectory`). So the second path adds nothing to what is found
by the first: no candidate (`OneDirectory.candidates`) and no file of a skill
(`OneDirectory.skillFiles`).
-/

namespace Briefing

namespace Search

open Disk
open Files (Visits LimitsBelow SameFile)

/-- What a search below a directory looks at, if it has come there by a path. -/
inductive LooksAt (d : Disk) (table : AgentTable) (p : Path) : Path → Prop
  | place {kind : Kind} {r : Path} (hr : r ∈ table.places kind) : LooksAt d table p (p.join r)
  | below {kind : Kind} {r : Path} {location : Location} {links : ℕ} {names : List String}
      (hk : kind ≠ .skills) (hr : r ∈ table.places kind)
      (hl : d.Leads true links (d.start (p.join r)) (steps (p.join r).text) location)
      (hv : Visits d [location] names) : LooksAt d table p ((p.join r).below names)
  | skill {r : Path} {location : Location} {links : ℕ} {name : String}
      (hr : r ∈ table.places .skills)
      (hl : d.Leads true links (d.start (p.join r)) (steps (p.join r).text) location)
      (hn : name ∈ d.namesIn location) :
      LooksAt d table p (((p.join r).join name).join skillFile)

/-- Two paths to one directory. The limits let a search look at everything below it by both. -/
structure OneDirectory (d : Disk) (table : AgentTable) (p q : Path) : Prop where
  names : d.HasFileNames
  directory : ∃ location, d.resolve true p = .ok location ∧ d.resolve true q = .ok location
    ∧ d.isDirectoryAt location = true
  limits : ∀ path, LooksAt d table p path ∨ LooksAt d table q path → WithinLimits d path

section Alike

variable {d : Disk} {table : AgentTable} {p q r : Path} {kind : Kind}

theorem OneDirectory.symm (h : OneDirectory d table p q) : OneDirectory d table q p := by
  obtain ⟨location, hp, hq, hd⟩ := h.directory
  exact ⟨h.names, ⟨location, hq, hp, hd⟩, fun path hlooks => h.limits path hlooks.symm⟩

theorem OneDirectory.find_of_ok (h : OneDirectory d table p q) (hr : r ∈ table.places kind)
    {x : Location × Entry} (hfind : d.find (p.join r) = .ok x) : d.find (q.join r) = .ok x := by
  obtain ⟨location, hp, hq, hd⟩ := h.directory
  exact find_join_of_leadsInto (leadsInto_of_resolve hp hd) (leadsInto_of_resolve hq hd)
    (h.limits _ (.inr (.place hr))) hfind

/-- A place is the same thing by both paths, or nothing. -/
theorem OneDirectory.find_cases (h : OneDirectory d table p q) (hr : r ∈ table.places kind) :
    (∃ fault fault', d.find (p.join r) = .error fault ∧ d.find (q.join r) = .error fault')
      ∨ ∃ x, d.find (p.join r) = .ok x ∧ d.find (q.join r) = .ok x := by
  rcases hp : d.find (p.join r) with fault | x
  · rcases hq : d.find (q.join r) with fault' | x
    · exact .inl ⟨fault, fault', rfl, rfl⟩
    · cases hp.symm.trans (h.symm.find_of_ok hr hq)
  · exact .inr ⟨x, rfl, h.find_of_ok hr hp⟩

theorem OneDirectory.limitsBelow (h : OneDirectory d table p q) (hk : kind ≠ .skills)
    (hr : r ∈ table.places kind) {location : Location}
    (hresolve : d.resolve true (p.join r) = .ok location) :
    LimitsBelow d (p.join r) [location] := by
  obtain ⟨-, links, -, hleads⟩ := resolve_eq_ok.mp hresolve
  exact fun names hv => h.limits _ (.inl (.below hk hr hleads hv))

/-- What is found at a place by the one path is found there by the other. -/
theorem OneDirectory.filesAt (h : OneDirectory d table p q) (hk : kind ≠ .skills)
    (hr : r ∈ table.places kind) {files : List Path}
    (hfiles : Search.filesAt d (p.join r) = .ok files) :
    ∃ files', Search.filesAt d (q.join r) = .ok files'
      ∧ ∀ f' ∈ files', ∃ f ∈ files, d.identity f = d.identity f' := by
  rw [Search.filesAt, isFile, isDirectory] at hfiles ⊢
  rcases h.find_cases hr with ⟨fault, fault', hp, hq⟩ | ⟨⟨location, entry⟩, hp, hq⟩
  · rw [hq]
    exact ⟨[], rfl, by simp⟩
  · rw [hp] at hfiles
    rw [hq]
    cases entry with
    | file contents mode =>
      obtain rfl := Except.ok.inj hfiles
      refine ⟨_, rfl, ?_⟩
      simp [identity_eq_of_find hp, identity_eq_of_find hq]
    | device contents | link target => exact ⟨[], rfl, by simp⟩
    | directory mode =>
      dsimp only [Bool.false_eq_true] at hfiles ⊢
      rw [if_neg (by simp), if_pos rfl] at hfiles ⊢
      rcases hwalk : Files.walk d (p.join r) with fault | found
      · rw [hwalk] at hfiles
        cases hfiles
      · rw [hwalk] at hfiles
        obtain rfl := Except.ok.inj hfiles
        obtain ⟨found', hwalk', hsame⟩ := Files.walk_alike h.names hp hq
          (h.limitsBelow hk hr (find_eq_ok.mp hp).1)
          (h.symm.limitsBelow hk hr (find_eq_ok.mp hq).1) hwalk
        rw [hwalk']
        refine ⟨_, rfl, fun f' hf' => ?_⟩
        obtain ⟨hf', hmarkdown⟩ := List.mem_filter.mp hf'
        obtain ⟨f, hf, hsame⟩ := exists_of_mem_forall₂ hsame f' hf'
        exact ⟨f, List.mem_filter.mpr ⟨hf, hsame.markdown ▸ hmarkdown⟩, hsame.identity⟩

theorem locations_eq (table : AgentTable) (p : Path) (kind : Kind) :
    locations table ⟨p, false⟩ kind = (table.places kind).map p.join := by
  rw [locations, if_neg (by simp)]

/-- Every candidate by the one path is the file of a candidate by the other. -/
theorem OneDirectory.below (h : OneDirectory d table p q) (hk : kind ≠ .skills)
    {cs : List Candidate} (hcs : Search.below d table kind ⟨p, false⟩ = .ok cs) :
    ∃ cs', Search.below d table kind ⟨q, false⟩ = .ok cs'
      ∧ ∀ c' ∈ cs', ∃ c ∈ cs, d.identity c.path = d.identity c'.path := by
  rw [Search.below, locations_eq, List.mapM_map] at hcs ⊢
  rcases hfound : (table.places kind).mapM (Search.filesAt d ∘ p.join) with e | found
  · simp [hfound, bind, Except.bind] at hcs
  · rw [hfound] at hcs
    obtain rfl := Except.ok.inj hcs
    obtain ⟨found', hfound', hsame⟩ :=
      mapM_ok_of_forall (g := Search.filesAt d ∘ q.join) hfound fun r hr files hfiles =>
        h.filesAt hk hr hfiles
    rw [hfound']
    refine ⟨_, rfl, fun c' hc' => ?_⟩
    obtain ⟨f', hf', rfl⟩ := List.mem_map.mp hc'
    obtain ⟨files', hfiles', hf'⟩ := List.mem_flatten.mp hf'
    obtain ⟨files, hfiles, hsame⟩ := exists_of_mem_forall₂ hsame files' hfiles'
    obtain ⟨f, hf, hidentity⟩ := hsame f' hf'
    exact ⟨_, List.mem_map.mpr ⟨f, List.mem_flatten.mpr ⟨files, hfiles, hf⟩, rfl⟩, hidentity⟩

/-- Items whose files are among those before them add nothing. -/
theorem distinctFiles_insert {α : Type} {path : α → Path} {xs ys zs : List α} :
    ∀ {seen : List Location},
      (∀ y ∈ ys, d.identity (path y) ∈ seen ∨ ∃ x ∈ xs, d.identity (path x) = d.identity (path y)) →
        distinctFiles d path seen (xs ++ (ys ++ zs)) = distinctFiles d path seen (xs ++ zs) := by
  induction xs with
  | nil =>
    intro seen h
    induction ys with
    | nil => rfl
    | cons y ys ih =>
      obtain ⟨hy, hys⟩ := List.forall_mem_cons.mp h
      have hseen : d.identity (path y) ∈ seen := by simpa using hy
      rw [List.nil_append, List.cons_append, distinctFiles,
        if_pos (List.contains_iff_mem.mpr hseen)]
      exact ih hys
  | cons x xs ih =>
    intro seen h
    rw [List.cons_append, List.cons_append, distinctFiles, distinctFiles]
    split
    · rename_i hx
      refine ih fun y hy => ?_
      rcases h y hy with hseen | ⟨x', hx', hsame⟩
      · exact .inl hseen
      · rcases List.mem_cons.mp hx' with rfl | hx'
        · exact .inl (hsame ▸ List.contains_iff_mem.mp hx)
        · exact .inr ⟨x', hx', hsame⟩
    · refine congrArg (x :: ·) (ih fun y hy => ?_)
      rcases h y hy with hseen | ⟨x', hx', hsame⟩
      · exact .inl (List.mem_cons_of_mem _ hseen)
      · rcases List.mem_cons.mp hx' with rfl | hx'
        · exact .inl (hsame ▸ List.mem_cons_self)
        · exact .inr ⟨x', hx', hsame⟩

/-- A search finds nothing more in a directory that it has been in by another path. -/
theorem OneDirectory.candidates (h : OneDirectory d table p q) (hk : kind ≠ .skills)
    {front : List Base} (hp : ⟨p, false⟩ ∈ front) (back : List Base) :
    Search.candidates d table (front ++ ⟨q, false⟩ :: back) kind
      = Search.candidates d table (front ++ back) kind := by
  rw [Search.candidates, Search.candidates, List.mapM_append, List.mapM_append, List.mapM_cons]
  rcases hfront : front.mapM (Search.below d table kind) with e | found
  · rfl
  · obtain ⟨cs, hcs, hfound⟩ : ∃ cs ∈ found, Search.below d table kind ⟨p, false⟩ = .ok cs := by
      obtain ⟨g, rfl, hg⟩ := exists_of_mapM_ok hfront
      exact ⟨_, List.mem_map_of_mem hp, hg _ hp⟩
    obtain ⟨cs', hcs', hsame⟩ := h.below hk hfound
    rw [hcs']
    rcases back.mapM (Search.below d table kind) with e | found'
    · rfl
    · have hinsert := @distinctFiles_insert d _ Candidate.path found.flatten cs' found'.flatten []
        fun c' hc' => by
          obtain ⟨c, hc, hidentity⟩ := hsame c' hc'
          exact .inr ⟨c, List.mem_flatten.mpr ⟨cs, hcs, hc⟩, hidentity⟩
      simp only [bind, Except.bind, pure, Except.pure, List.flatten_append, List.flatten_cons,
        hinsert]

/-- A file of a skill by the one path is one by the other. -/
theorem OneDirectory.skillFile (h : OneDirectory d table p q) (hr : r ∈ table.places .skills)
    {f' : Path} (hf' : f' ∈ skillFilesAt d (q.join r)) (hfile : d.isFile f' = true) :
    ∃ f ∈ skillFilesAt d (p.join r), d.isFile f = true ∧ d.identity f = d.identity f' := by
  unfold skillFilesAt at hf' ⊢
  rcases h.find_cases hr with ⟨fault, fault', hp, hq⟩ | ⟨⟨location, entry⟩, hp, hq⟩
  · rw [hq] at hf'
    simp at hf'
  · rw [hq] at hf'
    rw [hp]
    cases entry with
    | file _ _ | link _ | device _ => simp at hf'
    | directory mode =>
      obtain ⟨name, hn, rfl⟩ := List.mem_map.mp hf'
      have hname := h.names.isFileName hn
      obtain ⟨hresolvep, hentry⟩ := find_eq_ok.mp hp
      have hdirectory : d.isDirectoryAt location = true := by rw [isDirectoryAt, hentry]
      have hintop := leadsInto_of_resolve hresolvep hdirectory
      have hintoq := leadsInto_of_resolve (find_eq_ok.mp hq).1 hdirectory
      obtain ⟨-, links, -, hleads⟩ := resolve_eq_ok.mp hresolvep
      have hlimits := h.limits _ (.inl (.skill hr hleads hn))
      rw [isFile] at hfile
      rcases hfind : d.find (((q.join r).join name).join Briefing.skillFile) with fault | x
      · rw [hfind] at hfile
        cases hfile
      · -- the name leads to a directory, by both paths
        obtain ⟨links, middle, hmiddle, hd⟩ := hintoq.exists_join hname rfl (find_eq_ok.mp hfind).1
        have hfind' := find_join_of_leadsInto (hintoq.join hname hmiddle hd)
          (hintop.join hname hmiddle hd) hlimits hfind
        refine ⟨_, List.mem_map_of_mem hn, ?_, ?_⟩
        · rw [isFile, hfind', ← hfind]
          exact hfile
        · obtain ⟨there, entry⟩ := x
          rw [identity_eq_of_find hfind, identity_eq_of_find hfind']

theorem OneDirectory.skillFiles (h : OneDirectory d table p q) {front : List Base}
    (hp : ⟨p, false⟩ ∈ front) (back : List Base) :
    Search.skillFiles d table (front ++ ⟨q, false⟩ :: back)
      = Search.skillFiles d table (front ++ back) := by
  rw [Search.skillFiles, Search.skillFiles]
  rw [List.flatMap_append, List.flatMap_append, List.flatMap_cons, List.flatMap_append,
    List.flatMap_append, List.flatMap_append, List.filter_append, List.filter_append,
    List.filter_append]
  refine distinctFiles_insert fun f' hf' => .inr ?_
  obtain ⟨hf', hfile⟩ := List.mem_filter.mp hf'
  obtain ⟨place, hplace, hf'⟩ := List.mem_flatMap.mp hf'
  rw [locations_eq] at hplace
  obtain ⟨r, hr, rfl⟩ := List.mem_map.mp hplace
  obtain ⟨f, hf, hisFile, hidentity⟩ := h.skillFile hr hf' hfile
  refine ⟨f, List.mem_filter.mpr ⟨List.mem_flatMap.mpr ⟨p.join r, ?_, hf⟩, hisFile⟩, hidentity⟩
  refine List.mem_flatMap.mpr ⟨_, hp, ?_⟩
  rw [locations_eq]
  exact List.mem_map_of_mem hr

/-! Permission bits do not count. -/

theorem visits_sameFiles {d' : Disk} (h : d.SameFiles d') {within : List Location}
    {names : List String} (hv : Visits d within names) : Visits d' within names := by
  induction hv with
  | name hn => exact .name (h.mem_namesIn hn)
  | directory hn hd _ ih => exact .directory (h.mem_namesIn hn) (h.isDirectoryAt _ ▸ hd) ih
  | link hn hl hnew _ ih =>
    obtain ⟨links, hl⟩ := h.exists_leads hl
    exact .link (h.mem_namesIn hn) hl hnew ih

theorem LooksAt.sameFiles {d' : Disk} (h : d.SameFiles d') {path : Path}
    (hlooks : LooksAt d table p path) : LooksAt d' table p path := by
  cases hlooks with
  | place hr => exact .place hr
  | below hk hr hl hv =>
    obtain ⟨links, hl⟩ := h.exists_leads hl
    exact .below hk hr (h.start _ ▸ hl) (visits_sameFiles h hv)
  | skill hr hl hn =>
    obtain ⟨links, hl⟩ := h.exists_leads hl
    exact .skill hr (h.start _ ▸ hl) (h.mem_namesIn hn)

theorem OneDirectory.sameFiles {d' : Disk} (hone : OneDirectory d table p q)
    (h : d.SameFiles d') : OneDirectory d' table p q := by
  obtain ⟨location, hp, hq, hd⟩ := hone.directory
  rw [h.resolve] at hp hq
  rw [h.isDirectoryAt] at hd
  refine ⟨h.hasFileNames hone.names, ⟨location, hp, hq, hd⟩, fun path hlooks => ?_⟩
  exact h.withinLimits (hone.limits path (hlooks.imp (.sameFiles h.symm) (.sameFiles h.symm)))

end Alike

end Search

end Briefing
