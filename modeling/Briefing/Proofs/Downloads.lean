import Briefing.Proofs.CallOrder
import Briefing.Proofs.Changes
import Briefing.Proofs.Listing
import Briefing.Proofs.RuleOrder

/-!
# Downloads

Remote sources are fetched one after the other (`FetchesAll`), each to a place of its own below a
directory that is made for them where nothing was (`run_makeDownloads`). As long as a fetch changes
nothing but what is at its place or below, the places of later ones stay free (`InUse.fetch`). The
directory is removed if a fetch fails and when its use ends, however it ends
(`downloads_are_scoped`).
-/

namespace Briefing

namespace SearchRoots

open Disk

/-! ## Names of downloads -/

section Names

theorem slash_notMem_digits (n : ℕ) : '/' ∉ Nat.toDigits 10 n := by
  intro h
  have hdigit := Nat.isDigit_of_mem_toDigits (by decide) (by decide) h
  revert hdigit
  decide

theorem slash_notMem_freshName (d : Disk) (parent : Location) :
    '/' ∉ (d.freshName parent downloadName).toList := by
  unfold freshName sixDigits
  simp [slash_notMem_digits, downloadName, List.mem_replicate]

/-- The name of the directory for the source with number `i`. -/
def sourceName (i : ℕ) : String := "source-" ++ Text.decimal i

theorem sourceName_ne {i : ℕ} {name : String} (h : name.toList.head? ≠ some 's') :
    sourceName i ≠ name := by
  rintro rfl
  simp [sourceName] at h

theorem sourceName_inj {i j : ℕ} (h : sourceName i = sourceName j) : i = j :=
  Text.decimal_inj (by simpa [sourceName] using h)

theorem slash_notMem_sourceName (i : ℕ) : '/' ∉ (sourceName i).toList := by
  simp [sourceName, Text.decimal, slash_notMem_digits]

theorem freshName_ne (d : Disk) (parent : Location) {name : String}
    (h : name.toList.head? ≠ some 'c') : d.freshName parent downloadName ≠ name := by
  rintro rfl
  simp [freshName, downloadName] at h

end Names

/-! ## Making the download directory -/

section Make

variable {host : Host} {s : Session}

/-- Where a download directory is made. -/
def placeFor (host : Host) (d : Disk) : Path := downloadPath d (d.absolute host.temporary)

theorem exists_steps_placeFor (host : Host) (d : Disk) :
    ∃ front name, steps (placeFor host d).text = front ++ [name] ∧ name ≠ "" :=
  ⟨_, _, steps_join_name (slash_notMem_freshName d _), freshName_ne _ _ (by decide)⟩

/-- A path that ends with a name. -/
def EndsInName (p : Path) : Prop := ∃ front name, steps p.text = front ++ [name] ∧ IsName name

/-- A download directory is made where nothing is, unless no directory can be made there. -/
theorem run_makeDownloads (host : Host) (s : Session) :
    (∃ fault, s.disk.makeDirectory (placeFor host s.disk) = .error fault
        ∧ (makeDownloads host).run s = (.error (.noTemporary (placeFor host s.disk) fault), s))
      ∨ ∃ location d, MadeAt location s.disk d ∧ location ≠ [] ∧ EndsInName (placeFor host s.disk)
        ∧ (∀ follow, d.resolve follow (placeFor host s.disk) = .ok location)
        ∧ (makeDownloads host).run s = (.ok (placeFor host s.disk), { s with disk := d }) := by
  obtain ⟨front, last, hsteps, hne⟩ := exists_steps_placeFor host s.disk
  unfold makeDownloads
  rw [Activity.run_bind, Activity.run_onDisk]
  dsimp only
  rw [Activity.run_bind, Activity.run_onDisk]
  dsimp only
  rw [← placeFor]
  generalize placeFor host s.disk = path at hsteps ⊢
  rw [Activity.run_bind, Activity.run, Activity.change]
  rcases hmake : s.disk.makeDirectory path with fault | d
  · exact .inl ⟨fault, rfl, rfl⟩
  · obtain ⟨directory, hlocate, hname, hfree, rfl⟩ := makeDirectory_eq_ok hsteps hne hmake
    have hroot : directory ++ [last] ≠ [] := by simp
    have hmade := madeAt_put hfree hroot directoryMode
    have hfind : (s.disk.put (directory ++ [last]) (.directory directoryMode)).find path
        = .ok (directory ++ [last], .directory directoryMode) := by
      have hentry : Disk.entry? (s.disk.put (directory ++ [last]) (.directory directoryMode))
          (directory ++ [last]) = some (.directory directoryMode) := by
        rw [entry?_put, if_neg hroot, if_pos rfl]
      exact find_eq_ok.mpr ⟨resolve_of_locate hsteps hname hlocate hmade.extends hentry (by simp),
        hentry⟩
    have hset := hmade.put hroot downloadMode
    obtain ⟨mode, hentry⟩ := hset.made
    refine .inr ⟨_, _, hset, hroot, ⟨front, last, hsteps, hname⟩, fun follow =>
      resolve_of_locate hsteps hname hlocate hset.extends hentry (by simp), ?_⟩
    simp only [setMode, hfind, bind, Except.bind, pure, Except.pure]
    rfl

end Make

/-! ## Fetching -/

section Fetch

variable {host : Host} {d d₁ : Disk} {s s' : Session} {path : Path} {location : Location}

/-- A path names something at or above a location. -/
def Covers (d : Disk) (p : Path) (location : Location) : Prop :=
  ∃ directory name, d.locate p = .ok (directory, name) ∧ directory ++ [name] <+: location

/-- The host fetches to where nothing is and changes nothing but what is there or below. -/
structure FetchesBelow (host : Host) : Prop where
  current : ∀ source p (s : Session), s.disk.pathExists p = false →
    (host.fetchDirectory source p s).2.current = s.disk.current
  entries : ∀ source p (s : Session) location, s.disk.pathExists p = false →
    ¬Covers s.disk p location →
      Disk.entry? (host.fetchDirectory source p s).2 location = s.disk.entry? location

/-- Fetches one after the other, each to where nothing is, up to the first one that fails. -/
inductive FetchesAll (host : Host) :
    Session → List (Source × Path) → Except Error Unit × Session → Prop
  | done (s : Session) : FetchesAll host s [] (.ok (), s)
  | next {s s' : Session} {source : Source} {destination : Path} {rest : List (Source × Path)}
      {ended : Except Error Unit × Session} (hfree : s.disk.pathExists destination = false)
      (h : (host.fetch source destination).run s = (.ok (), s'))
      (hs : FetchesAll host s' rest ended) : FetchesAll host s ((source, destination) :: rest) ended
  | failed {s s' : Session} {source : Source} {destination : Path} {rest : List (Source × Path)}
      {e : Error} (hfree : s.disk.pathExists destination = false)
      (h : (host.fetch source destination).run s = (.error e, s')) :
      FetchesAll host s ((source, destination) :: rest) (.error e, s')

/-- The remote sources, numbered from `k`, with the places for them below the downloads. -/
def remotes (downloads : Path) (k : ℕ) (sources : List Source) : List (Source × Path) :=
  (sources.zipIdx k).filterMap fun x =>
    if Source.isLocal x.1 then none else some (x.1, destination downloads x.2)

/-- The directory for a numbered source. -/
def rootPath (base downloads : Path) (x : Source × ℕ) : Path :=
  if Source.isLocal x.1 then Source.localPath x.1 base else destination downloads x.2

/-- What a fetch leaves in the log, if nothing was at its destination. -/
def asked (x : Source × Path) : Fetch := .directory x.1 x.2 false

theorem run_fetch (host : Host) (source : Source) (p : Path) (s : Session) :
    (host.fetch source p).run s = ((host.fetchDirectory source p s).1,
      ⟨(host.fetchDirectory source p s).2, s.calls,
        s.fetches ++ [.directory source p (s.disk.pathExists p)]⟩) := rfl

/-- The log gets the first fetches, and all of them if none fails. -/
theorem FetchesAll.fetches {plan : List (Source × Path)} {ended : Except Error Unit × Session}
    (h : FetchesAll host s plan ended) : ∃ made rest, plan = made ++ rest
      ∧ ended.2.fetches = s.fetches ++ made.map asked ∧ (ended.1 = .ok () → rest = []) := by
  induction h with
  | done s => exact ⟨[], [], rfl, by simp, fun _ => rfl⟩
  | @next s s' source destination rest ended hfree h _ ih =>
    obtain ⟨made, rest, rfl, hlog, hrest⟩ := ih
    refine ⟨(source, destination) :: made, rest, rfl, ?_, hrest⟩
    rw [run_fetch, hfree] at h
    rw [hlog, ← (Prod.mk.inj h).2]
    simp [asked]
  | @failed s s' source destination rest e hfree h =>
    refine ⟨[(source, destination)], rest, rfl, ?_, by rintro ⟨⟩⟩
    rw [run_fetch, hfree] at h
    rw [← (Prod.mk.inj h).2]
    rfl

theorem steps_destination (downloads : Path) (i : ℕ) : Disk.steps (destination downloads i).text
    = entrySteps downloads ++ [sourceName i] := steps_join_name (slash_notMem_sourceName i)

theorem destination_inj {i j : ℕ} (h : destination path i = destination path j) : i = j := by
  have hsteps := steps_destination path i
  rw [h, steps_destination] at hsteps
  exact (sourceName_inj (List.cons.inj (List.append_cancel_left hsteps)).1).symm

theorem remotes_cons (downloads : Path) (k : ℕ) (source : Source) (sources : List Source) :
    remotes downloads k (source :: sources)
      = (if Source.isLocal source then [] else [(source, destination downloads k)])
        ++ remotes downloads (k + 1) sources := by
  rw [remotes, List.zipIdx_cons, List.filterMap_cons]
  cases Source.isLocal source <;> rfl

theorem exists_of_mem_remotes {x : Source × Path} : ∀ {sources : List Source} {k : ℕ},
    x ∈ remotes path k sources → ∃ i ≥ k, x.2 = destination path i
  | [], k, h => by simp [remotes] at h
  | source :: sources, k, h => by
    rw [remotes_cons, List.mem_append] at h
    rcases h with h | h
    · split at h
      · simp at h
      · exact ⟨k, le_rfl, by simp [List.mem_singleton.mp h]⟩
    · obtain ⟨i, hi, hx⟩ := exists_of_mem_remotes h
      exact ⟨i, by omega, hx⟩

/-- No two sources are fetched to one place. -/
theorem nodup_remotes (path : Path) :
    ∀ (sources : List Source) (k : ℕ), ((remotes path k sources).map Prod.snd).Nodup
  | [], _ => List.nodup_nil
  | source :: sources, k => by
    have ih := nodup_remotes path sources (k + 1)
    rw [remotes_cons]
    split
    · exact ih
    · refine List.nodup_cons.mpr ⟨fun hmem => ?_, ih⟩
      obtain ⟨x, hx, hsame⟩ := List.mem_map.mp hmem
      obtain ⟨i, hi, hplace⟩ := exists_of_mem_remotes hx
      have := destination_inj (hplace.symm.trans hsame)
      omega

/-- A fresh download directory, on the disk where it was just made. -/
structure IsFresh (d₁ : Disk) (path : Path) (location : Location) : Prop where
  steps : entrySteps path = Disk.steps path.text
  leads : d₁.resolve true path = .ok location
  empty : ∀ below, location <+: below → below ≠ location → d₁.entry? below = none

/-- A disk on which only the places for the sources before number `k` may be in use. -/
structure InUse (d₁ : Disk) (location : Location) (k : ℕ) (d : Disk) : Prop where
  kept : Extends d₁ d
  outside : SameOutside location d₁ d
  free : ∀ i ≥ k, d.entry? (location ++ [sourceName i]) = none

theorem InUse.leads {k : ℕ} (h : InUse d₁ location k d) (hfresh : IsFresh d₁ path location)
    (i : ℕ) : ∃ links, d.Leads true links (d.start (destination path i)) (entrySteps path)
      location := by
  obtain ⟨-, links, -, hleads⟩ := resolve_eq_ok.mp hfresh.leads
  have hstart : d.start (destination path i) = d₁.start path := by
    rw [← h.kept.start, start, start, destination, ← sourceName,
      isAbsolute_join (isAbsolute_name (slash_notMem_sourceName i))]
  rw [hstart, hfresh.steps]
  exact ⟨links, hleads.extends h.kept⟩

/-- Nothing is at a place that is not in use. -/
theorem InUse.pathExists {k i : ℕ} (h : InUse d₁ location k d) (hfresh : IsFresh d₁ path location)
    (hi : k ≤ i) : d.pathExists (destination path i) = false := by
  rw [Disk.pathExists]
  rcases hfind : d.find (destination path i) with fault | ⟨there, entry⟩
  · rfl
  · obtain ⟨-, links, -, hleads⟩ := resolve_eq_ok.mp (find_eq_ok.mp hfind).1
    obtain ⟨links₀, hparent⟩ := h.leads hfresh i
    rw [steps_destination] at hleads
    obtain ⟨middle, links₁, links₂, -, hmiddle, hlast⟩ := hleads.split (List.cons_ne_nil _ _)
    obtain rfl := hparent.eq hmiddle
    obtain ⟨entry, hentry⟩ := hlast.exists_entry (sourceName_ne (by decide))
      (sourceName_ne (by decide)) (sourceName_ne (by decide))
    rw [h.free i hi] at hentry
    cases hentry

theorem InUse.covers {k i : ℕ} (h : InUse d₁ location k d) (hfresh : IsFresh d₁ path location)
    {other : Location} (hcovers : Covers d (destination path i) other) :
    location ++ [sourceName i] <+: other := by
  obtain ⟨directory, name, hlocate, hpre⟩ := hcovers
  obtain ⟨-, -, rfl, -, links, -, hleads⟩ :=
    (locate_eq_ok (steps_destination path i) (sourceName_ne (by decide))).mp hlocate
  obtain ⟨links₀, hparent⟩ := h.leads hfresh i
  rwa [hparent.eq hleads]

/-- A fetch uses its own place only. -/
theorem InUse.fetch {k : ℕ} (hhost : FetchesBelow host) (hfresh : IsFresh d₁ path location)
    (h : InUse d₁ location k s.disk) (source : Source) :
    InUse d₁ location (k + 1) ((host.fetch source (destination path k)).run s).2.disk := by
  have hfree := h.pathExists hfresh le_rfl
  have hcurrent := hhost.current source _ s hfree
  have hkept := fun other hcovers => hhost.entries source _ s other hfree hcovers
  rw [run_fetch]
  dsimp only
  generalize (host.fetchDirectory source (destination path k) s).2 = d' at hcurrent hkept
  refine ⟨⟨hcurrent.trans h.kept.current, fun {other entry} hentry => ?_⟩,
    ⟨hcurrent.trans h.outside.current, fun other hother => ?_⟩, fun i hi => ?_⟩
  · rw [hkept other, h.kept.entries hentry]
    intro hcovers
    have hpre := h.covers hfresh hcovers
    rw [hfresh.empty other ((List.prefix_append _ _).trans hpre)] at hentry
    · cases hentry
    · rintro rfl
      simpa using hpre.length_le
  · rw [hkept other, h.outside.entries other hother]
    exact fun hcovers => hother ((List.prefix_append _ _).trans (h.covers hfresh hcovers))
  · rw [hkept, h.free i (by omega)]
    intro hcovers
    have hname := List.prefix_append_right_inj _ |>.mp (h.covers hfresh hcovers)
    have := sourceName_inj (by simpa using hname)
    omega

/-- Remote sources are fetched one after the other, and the roots are where they were fetched to. -/
theorem run_roots (hhost : FetchesBelow host) (hfresh : IsFresh d₁ path location) (base : Path) :
    ∀ (sources : List Source) {k : ℕ} {s : Session}, InUse d₁ location k s.disk →
      ∃ answer s', FetchesAll host s (remotes path k sources) (answer, s')
        ∧ (∃ k', InUse d₁ location k' s'.disk)
        ∧ ((sources.zipIdx k).mapM (rootOf host base path)).run s
          = (answer.map fun _ => (sources.zipIdx k).map (rootPath base path), s')
  | [], k, s, h => ⟨.ok (), s, .done s, ⟨k, h⟩, rfl⟩
  | source :: sources, k, s, h => by
    rw [remotes_cons, List.zipIdx_cons, List.mapM_cons, Activity.run_bind, rootOf, List.map_cons,
      rootPath]
    cases Source.isLocal source with
    | true =>
      have hnext : InUse d₁ location (k + 1) s.disk :=
        ⟨h.kept, h.outside, fun i hi => h.free i (by omega)⟩
      obtain ⟨answer, s', hall, huse, hrun⟩ := run_roots hhost hfresh base sources hnext
      refine ⟨answer, s', hall, huse, ?_⟩
      simp only [if_true, Activity.run_pure, Activity.run_bind, hrun]
      cases answer <;> rfl
    | false =>
      have hfree := h.pathExists hfresh le_rfl
      have hnext := h.fetch hhost hfresh source
      simp only [Bool.false_eq_true, if_false, Activity.run_bind]
      rcases hfetch : (host.fetch source (destination path k)).run s with ⟨e | _, s₁⟩
      · rw [hfetch] at hnext
        exact ⟨.error e, s₁, .failed hfree hfetch, ⟨_, hnext⟩, rfl⟩
      · rw [hfetch] at hnext
        obtain ⟨answer, s', hall, huse, hrun⟩ := run_roots hhost hfresh base sources hnext
        refine ⟨answer, s', .next hfree hfetch hall, huse, ?_⟩
        simp only [Activity.run_pure, hrun]
        cases answer <;> rfl

/-! ## The search roots -/

/-- How sources become search roots. If all are local, nothing is done. Else a directory is made
where nothing was, unless none can be made, and the remote sources are fetched to places below it.
If a fetch fails, everything is as it was before. -/
inductive Resolved (host : Host) (sources : List Source) (base : Path) (s : Session) :
    Except Error SearchRoots × Session → Prop
  | allLocal (h : sources.all Source.isLocal = true) :
      Resolved host sources base s (.ok ⟨sources.map (Source.localPath · base), none⟩, s)
  | noTemporary {fault : Files.Fault} (h : sources.all Source.isLocal = false)
      (hmake : s.disk.makeDirectory (placeFor host s.disk) = .error fault) :
      Resolved host sources base s (.error (.noTemporary (placeFor host s.disk) fault), s)
  | fetched {path : Path} {location : Location} {d : Disk} {s' : Session}
      (h : sources.all Source.isLocal = false) (hname : EndsInName path)
      (hmade : MadeAt location s.disk d)
      (hall : FetchesAll host { s with disk := d } (remotes path 0 sources) (.ok (), s'))
      (hleads : ∀ follow, s'.disk.resolve follow path = .ok location)
      (hsame : SameEntries s.disk (s'.disk.removeAll path)) :
      Resolved host sources base s
        (.ok ⟨sources.zipIdx.map (rootPath base path), some path⟩, s')
  | failed {path : Path} {location : Location} {d : Disk} {s' : Session} {e : Error}
      (h : sources.all Source.isLocal = false) (hname : EndsInName path)
      (hmade : MadeAt location s.disk d)
      (hall : FetchesAll host { s with disk := d } (remotes path 0 sources) (.error e, s'))
      (hsame : SameEntries s.disk (s'.disk.removeAll path)) :
      Resolved host sources base s (.error e, { s' with disk := s'.disk.removeAll path })

theorem isFresh_of_madeAt (htree : d.IsTree) (h : MadeAt location d d₁) (hname : EndsInName path)
    (hleads : ∀ follow, d₁.resolve follow path = .ok location) : IsFresh d₁ path location := by
  obtain ⟨front, name, hsteps, hname⟩ := hname
  exact ⟨entrySteps_of_steps hname.ne_empty hsteps, hleads true, fun below => h.nothing_below htree⟩

/-- With the downloads removed, everything is as it was before they were made. -/
theorem InUse.sameEntries {k : ℕ} {d' : Disk} (htree : d.IsTree) (hmade : MadeAt location d d₁)
    (hne : location ≠ []) (hleads : d'.resolve false path = .ok location)
    (h : InUse d₁ location k d') : SameEntries d (d'.removeAll path) := by
  rw [removeAll, hleads]
  refine ⟨h.kept.current.trans hmade.current, fun other => ?_⟩
  rw [entry?_remove]
  split_ifs with hbelow
  · exact (htree.nothing_below hmade.fresh hbelow.2).symm
  · by_cases hroot : other = []
    · rw [hroot]
      rfl
    · have houtside : ¬location <+: other := fun hpre => hbelow ⟨hroot, hpre⟩
      rw [h.outside.entries other houtside, hmade.entries other]
      rintro rfl
      exact houtside List.prefix_rfl

theorem resolved (hhost : FetchesBelow host) (htree : s.disk.IsTree) (sources : List Source)
    (base : Path) : Resolved host sources base s ((resolve host sources base).run s) := by
  rw [resolve]
  cases hlocal : sources.all Source.isLocal with
  | true => exact .allLocal hlocal
  | false =>
    simp only [Bool.false_eq_true, if_false]
    rw [Activity.run_bind]
    rcases run_makeDownloads host s with ⟨fault, hmake, hrun⟩
      | ⟨location, d, hmade, hne, hname, hleads, hrun⟩
    · rw [hrun]
      exact .noTemporary hlocal hmake
    · rw [hrun]
      dsimp only
      generalize placeFor host s.disk = path at hname hleads
      have hfresh := isFresh_of_madeAt htree hmade hname hleads
      have hstart : InUse d location 0 d := by
        refine ⟨⟨rfl, id⟩, ⟨rfl, fun _ _ => rfl⟩, fun i _ => hfresh.empty _ ?_ ?_⟩
        · exact List.prefix_append _ _
        · simp
      obtain ⟨answer, s', hall, ⟨k, huse⟩, hroots⟩ :=
        @run_roots host d path location hhost hfresh base sources 0 { s with disk := d } hstart
      have hthere : ∀ follow, s'.disk.resolve follow path = .ok location := fun follow =>
        huse.kept.resolve (hleads follow)
      have hsame := huse.sameEntries htree hmade hne (hthere false)
      rw [Activity.run_bind, Activity.run, removingOnFailure]
      rw [Activity.run] at hroots
      rw [hroots]
      cases answer with
      | ok _ => exact .fetched hlocal hname hmade hall hthere hsame
      | error e => exact .failed hlocal hname hmade hall hsame

theorem remotes_of_allLocal (path : Path) : ∀ {sources : List Source} (k : ℕ),
    sources.all Source.isLocal = true → remotes path k sources = []
  | [], _, _ => rfl
  | source :: sources, k, h => by
    rw [List.all_cons, Bool.and_eq_true] at h
    rw [remotes_cons, h.1, remotes_of_allLocal path (k + 1) h.2]
    rfl

/-- The log gets the first fetches, each to where nothing was, and all of them if the roots are
made. -/
theorem Resolved.fetches {sources : List Source} {base : Path}
    {ended : Except Error SearchRoots × Session} (h : Resolved host sources base s ended) :
    ∃ path made rest, remotes path 0 sources = made ++ rest
      ∧ ended.2.fetches = s.fetches ++ made.map asked
      ∧ ∀ roots, ended.1 = .ok roots → rest = [] ∧ (roots.downloads = some path ∨ made = []) := by
  cases h with
  | allLocal h =>
    exact ⟨base, [], [], remotes_of_allLocal base 0 h, by simp, fun _ _ => ⟨rfl, .inr rfl⟩⟩
  | noTemporary => exact ⟨base, [], _, rfl, by simp, by rintro _ ⟨⟩⟩
  | @fetched path _ _ _ _ _ _ hall =>
    obtain ⟨made, rest, hplan, hlog, hrest⟩ := hall.fetches
    refine ⟨path, made, rest, hplan, hlog, ?_⟩
    rintro _ ⟨⟩
    exact ⟨hrest rfl, .inl rfl⟩
  | @failed path _ _ _ _ _ _ _ hall =>
    obtain ⟨made, rest, hplan, hlog, -⟩ := hall.fetches
    exact ⟨path, made, rest, hplan, hlog, by rintro _ ⟨⟩⟩

/-! ## Runs -/

/-- The search roots of a run, or the disk as it was. -/
theorem searchRoots_cases (hhost : FetchesBelow host) (htree : s.disk.IsTree) (options : Options) :
    (∃ e s₁, (options.searchRoots host).run s = (.error e, s₁) ∧ SameEntries s.disk s₁.disk)
      ∨ (∃ roots s₁, (options.searchRoots host).run s = (.ok ⟨roots, none⟩, s₁)
        ∧ SameEntries s.disk s₁.disk)
      ∨ ∃ roots path location s₁, (options.searchRoots host).run s = (.ok ⟨roots, some path⟩, s₁)
        ∧ EndsInName path ∧ location ≠ [] ∧ s₁.disk.resolve false path = .ok location
        ∧ SameEntries s.disk (s₁.disk.removeAll path) := by
  have hdisk := disk_listedSources host options s
  rw [Options.searchRoots, Activity.run_bind]
  rcases hlisted : (options.listedSources host).run s with ⟨e | listed, s'⟩
  · rw [hlisted] at hdisk
    exact .inl ⟨e, s', rfl, hdisk ▸ .refl _⟩
  · rw [hlisted] at hdisk
    rw [← hdisk] at htree ⊢
    dsimp only
    have hresolved := resolved hhost htree (options.sources ++ listed) options.directory
    generalize (resolve host (options.sources ++ listed) options.directory).run s' = ended
      at hresolved
    cases hresolved with
    | allLocal => exact .inr (.inl ⟨_, _, rfl, .refl _⟩)
    | noTemporary => exact .inl ⟨_, _, rfl, .refl _⟩
    | @fetched path location _ _ _ hname hmade _ hleads hsame =>
      have hne : location ≠ [] := by
        rintro rfl
        cases hmade.fresh
      exact .inr (.inr ⟨_, path, location, _, rfl, hname, hne, hleads false, hsame⟩)
    | failed _ _ _ _ hsame => exact .inl ⟨_, _, rfl, hsame⟩

/-- Whatever program runs, a path keeps leading to a location. -/
def KeepsWay (host : Host) (path : Path) (location : Location) : Prop :=
  ∀ c s, s.disk.resolve false path = .ok location →
    (host.run c s).2.resolve false path = .ok location

theorem KeepsWay.afterAll (h : KeepsWay host path location) : ∀ (steps : List Step) {s : Session},
    s.disk.resolve false path = .ok location →
      (Step.afterAll host s steps).disk.resolve false path = .ok location
  | [], _, hs => hs
  | step :: steps, s, hs => by
    have hprepared : (step.prepare s).disk.resolve false path = .ok location := by
      rw [← (Step.sameFiles_prepare s step).resolve]
      exact hs
    exact KeepsWay.afterAll h steps (s := step.after host s) (h step.call _ hprepared)

/-- A run does no more to the disk than its programs do. -/
theorem exists_afterAll (host : Host) (options : Options) (bases : List Base) (name : String)
    (s : Session) : ∃ steps, ((Assembly.assembleIn host options bases name).run s).2.disk
      = (Step.afterAll host s steps).disk := by
  rcases Assembly.run_assembleIn_cases host options bases name s
    with ⟨e, hrun, -⟩ | ⟨document, agent, blocks, -, hrun⟩
  · exact ⟨[], by rw [hrun]; rfl⟩
  · obtain ⟨made, -, -, hmade, -⟩ := (@Assembly.follows_assembleFrom host options bases s name
      document agent blocks).exists_made
    exact ⟨made, by rw [hrun, hmade]⟩

theorem list_sameEntries (hhost : FetchesBelow host) (htree : s.disk.IsTree) (options : Options) :
    SameEntries s.disk ((TaskSummary.list host options).run s).2.disk := by
  rw [TaskSummary.list_eq, Activity.run_bind]
  rcases searchRoots_cases hhost htree options with ⟨e, s₁, hrun, hsame⟩ | ⟨roots, s₁, hrun, hsame⟩
    | ⟨roots, path, location, s₁, hrun, -, -, -, hsame⟩
  · rw [hrun]
    exact hsame
  · rw [hrun]
    exact hsame
  · rw [hrun]
    exact hsame

/-- Downloads are fetched for one use and do not outlast it. -/
theorem downloads_are_scoped (hhost : FetchesBelow host) (htree : s.disk.IsTree) :
    (∀ sources base, let ended := (resolve host sources base).run s
      Resolved host sources base s ended
        ∧ (∀ path, ((remotes path 0 sources).map Prod.snd).Nodup)
        ∧ ∃ path made rest, remotes path 0 sources = made ++ rest
          ∧ ended.2.fetches = s.fetches ++ made.map asked
          ∧ ∀ roots, ended.1 = .ok roots →
            rest = [] ∧ (roots.downloads = some path ∨ made = []))
      ∧ (∀ options, SameEntries s.disk ((TaskSummary.list host options).run s).2.disk)
      ∧ ∀ options name, let ended := (Assembly.assemble host options name).run s
        ((∀ roots path s₁, (options.searchRoots host).run s ≠ (.ok ⟨roots, some path⟩, s₁)) →
            SameEntries s.disk ((options.searchRoots host).run s).2.disk)
          ∧ ∀ roots path s₁, (options.searchRoots host).run s = (.ok ⟨roots, some path⟩, s₁) →
            (∀ other, ended.2.disk.resolve false path ≠ .ok other)
              ∧ ∀ location, s₁.disk.resolve false path = .ok location →
                KeepsWay host path location →
                  ∀ below, location <+: below → ended.2.disk.entry? below = none := by
  refine ⟨fun sources base => ?_, list_sameEntries hhost htree, fun options name => ⟨?_, ?_⟩⟩
  · have hresolved := resolved hhost htree sources base
    exact ⟨hresolved, fun path => nodup_remotes path sources 0, hresolved.fetches⟩
  · intro hnone
    rcases searchRoots_cases hhost htree options with ⟨e, s₁, hrun, hsame⟩
      | ⟨roots, s₁, hrun, hsame⟩ | ⟨roots, path, location, s₁, hrun, -⟩
    · rwa [hrun]
    · rwa [hrun]
    · exact absurd hrun (hnone _ _ _)
  · intro roots path s₁ hroots
    have hended : ((Assembly.assemble host options name).run s).2.disk
        = ((Assembly.assembleIn host options (options.bases roots) name).run s₁).2.disk.removeAll
          path := by
      rw [Assembly.run_assemble hroots]
      rfl
    obtain ⟨steps, hsteps⟩ := exists_afterAll host options (options.bases roots) name s₁
    rw [hended, hsteps]
    rcases searchRoots_cases hhost htree options with ⟨e, s₁', hrun, -⟩ | ⟨roots', s₁', hrun, -⟩
      | ⟨roots', path', location, s₁', hrun, ⟨front, last, hfront, hlast⟩, hne, hleads, -⟩
    · cases hrun.symm.trans hroots
    · cases hrun.symm.trans hroots
    · obtain ⟨⟨⟩, rfl⟩ := Prod.mk.inj (hrun.symm.trans hroots)
      refine ⟨resolve_removeAll hfront hlast, fun location' hleads' hway below hbelow => ?_⟩
      obtain rfl : location = location' := Except.ok.inj (hleads.symm.trans hleads')
      have hroot : below ≠ [] := by
        rintro rfl
        exact hne (List.prefix_nil.mp hbelow)
      rw [removeAll, hway.afterAll steps hleads, entry?_remove, if_pos ⟨hroot, hbelow⟩]

end Fetch

/-! ## A run with a remote source -/

/-- What a fetch brings: a task. -/
def fetchedTask : List (Location × Entry) :=
  [([], .directory 0o755), ([".agents"], .directory 0o755),
    ([".agents", "tasks"], .directory 0o755),
    ([".agents", "tasks", "t.md"], .file "Do it\n".toUTF8 0o644)]

/-- A host that fetches a task, wherever from. -/
def taskHost : Host :=
  { Assembly.steadyHost Assembly.printCommand with
    fetchDirectory := fun _ p s =>
      match s.disk.locate p with
      | .ok (directory, name) =>
        (.ok (), fetchedTask.foldl (fun d e => d.put (directory ++ [name] ++ e.1) e.2) s.disk)
      | .error fault => (.error (.file fault), s.disk) }

theorem sameOutside_foldl_put {location : Location} : ∀ (entries : List (Location × Entry))
    (d : Disk), SameOutside location d (entries.foldl (fun d e => d.put (location ++ e.1) e.2) d)
  | [], _ => ⟨rfl, fun _ _ => rfl⟩
  | e :: entries, d => by
    obtain ⟨hcurrent, hentries⟩ := sameOutside_foldl_put entries (d.put (location ++ e.1) e.2)
    refine ⟨hcurrent, fun other hother => ?_⟩
    rw [List.foldl_cons, hentries other hother, entry?_put]
    split_ifs with hroot hsame
    · rw [hroot]
      rfl
    · exact absurd (hsame ▸ List.prefix_append _ _) hother
    · rfl

theorem fetchesBelow_taskHost : FetchesBelow taskHost := by
  constructor
  · intro source p s _
    dsimp only [taskHost]
    split
    · exact (sameOutside_foldl_put fetchedTask s.disk).current
    · rfl
  · intro source p s location _ hcovers
    dsimp only [taskHost]
    split
    · rename_i directory name hlocate
      exact (sameOutside_foldl_put fetchedTask s.disk).entries location
        fun hpre => hcovers ⟨directory, name, hlocate, hpre⟩
    · rfl

/-- A disk with nothing but directories. -/
def emptyDisk : Disk where
  entries := [(["tmp"], .directory 0o1777), (["v"], .directory 0o755), (["w"], .directory 0o755)]
  current := []

/-- Options with a local and a remote source, for a session that goes on. -/
def remoteOptions : Options :=
  { Assembly.taskOptions with sources := ["/v", "git::h/r"], resume := true }

/-- The task is used that was fetched, and then nothing of it is left. -/
theorem downloads_are_scoped_task :
    let ended := (Assembly.assemble taskHost remoteOptions "t").run ⟨emptyDisk, [], []⟩
    ended.1.toOption.map Assembly.prompt = some "Do it\n"
      ∧ ended.2.fetches = [.directory "git::h/r" "/tmp/coding-context-000000/source-1" false]
      ∧ (∀ other, ended.2.disk.resolve false "/tmp/coding-context-000000" ≠ .ok other)
      ∧ ∀ below, ["tmp", "coding-context-000000"] <+: below →
        ended.2.disk.entry? below = none := by
  obtain ⟨-, -, hruns⟩ := @downloads_are_scoped taskHost ⟨emptyDisk, [], []⟩ fetchesBelow_taskHost
    (by decide +kernel)
  obtain ⟨-, hscoped⟩ := hruns remoteOptions "t"
  have hdownloads : ((remoteOptions.searchRoots taskHost).run
      ⟨emptyDisk, [], []⟩).1.toOption.bind SearchRoots.downloads
        = some "/tmp/coding-context-000000" := by decide +kernel
  have hleads : ((remoteOptions.searchRoots taskHost).run
      ⟨emptyDisk, [], []⟩).2.disk.resolve false "/tmp/coding-context-000000"
        = .ok ["tmp", "coding-context-000000"] := by decide +kernel
  rcases hroots : (remoteOptions.searchRoots taskHost).run ⟨emptyDisk, [], []⟩
    with ⟨e | ⟨roots, downloads⟩, s₁⟩
  · rw [hroots] at hdownloads
    cases hdownloads
  · rw [hroots] at hdownloads hleads
    obtain rfl : downloads = some "/tmp/coding-context-000000" := hdownloads
    obtain ⟨hnowhere, hnothing⟩ := hscoped roots _ s₁ hroots
    have hway : KeepsWay taskHost "/tmp/coding-context-000000" ["tmp", "coding-context-000000"] :=
      fun _ _ h => h
    exact ⟨by decide +kernel, by decide +kernel, hnowhere, hnothing _ hleads hway⟩

end SearchRoots

end Briefing
