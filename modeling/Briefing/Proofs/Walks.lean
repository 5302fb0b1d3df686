import Briefing.Files.Walk
import Briefing.Proofs.Failures
import Briefing.Proofs.InOrder
import Mathlib.Data.List.Nodup
import Mathlib.Data.List.Lex
import Mathlib.Data.String.Basic

/-!
# What a walk finds

A walk that does not end with a fault finds every regular file below a directory, links followed,
and nothing else, in the order of the names that lead to it (`walkIn_ok`). It is never cut short by
the bound on its depth: it gets deeper only by a name of the directory it is in, or by a link to a
directory that it is not in. So the directories it is in fall into stretches that start at different
directories and on which locations get longer (`Trail.length_le`).
-/

namespace Briefing

/-- The path that names lead to from a path. -/
def Path.below (path : Path) (names : List String) : Path :=
  names.foldl (fun (p : Path) (name : String) => p.join name) path

theorem Disk.find_eq_ok {d : Disk} {p : Path} {location : Location} {entry : Entry} :
    d.find p = .ok (location, entry) ↔
      d.resolve true p = .ok location ∧ d.entry? location = some entry := by
  rw [Disk.find]
  cases d.resolve true p with
  | error fault => simp [bind, Except.bind]
  | ok location' =>
    simp only [bind, Except.bind, Except.ok.injEq]
    constructor
    · intro h
      split at h
      · obtain ⟨rfl, rfl⟩ := Prod.mk.inj (Except.ok.inj h)
        exact ⟨rfl, ‹_›⟩
      · simp [throw, throwThe, MonadExceptOf.throw] at h
    · rintro ⟨rfl, h⟩
      rw [h]
      rfl

namespace Files

/-- What a name in a directory leads to: what has the name, or what its path leads to if that is a
link. -/
def leadsTo (d : Disk) (here : Location) (path : Path) (name : String) :
    Except Fault (Location × Entry) :=
  match d.entry? (here ++ [name]) with
  | none => .error .notFound
  | some (.link _) => d.find (path.join name)
  | some entry => .ok (here ++ [name], entry)

/-- The names that lead to a regular file from a directory, by way of directories. -/
inductive LiesBelow (d : Disk) : Location → Path → List String → Prop
  | file {here location : Location} {path : Path} {name : String} {contents : ByteArray}
      {mode : Nat} (hn : name ∈ d.namesIn here)
      (h : leadsTo d here path name = .ok (location, .file contents mode)) :
      LiesBelow d here path [name]
  | directory {here location : Location} {path : Path} {name : String} {names : List String}
      {mode : Nat} (hn : name ∈ d.namesIn here)
      (h : leadsTo d here path name = .ok (location, .directory mode))
      (hb : LiesBelow d location (path.join name) names) : LiesBelow d here path (name :: names)

theorem leadsTo_entry {d : Disk} {here location : Location} {path : Path} {name : String}
    {entry : Entry} (h : leadsTo d here path name = .ok (location, entry)) :
    d.entry? location = some entry := by
  unfold leadsTo at h
  split at h
  · simp at h
  · exact (Disk.find_eq_ok.mp h).2
  · rename_i hentry
    obtain ⟨rfl, rfl⟩ := Prod.mk.inj (Except.ok.inj h)
    exact hentry

/-! ## The depth of a walk -/

section Depth

variable {d : Disk}

/-- The directories a walk is in, the innermost first. `starts` are the locations that it did not
get to by a name of the directory it was in; `stretch` are the locations from the last of them on,
the innermost first. -/
inductive Trail (d : Disk) : List Location → List Location → List Ancestor → Prop
  | start {a : Ancestor} (hd : d.isDirectoryAt a.location = true) :
      Trail d [a.location] [a.location] [a]
  | down {starts stretch : List Location} {a here : Ancestor} {within : List Ancestor}
      {name : String} (h : Trail d starts stretch (here :: within))
      (hd : d.isDirectoryAt a.location = true) (hn : a.location = here.location ++ [name]) :
      Trail d starts (a.location :: stretch) (a :: here :: within)
  | enter {starts stretch : List Location} {a here : Ancestor} {within : List Ancestor}
      (h : Trail d starts stretch (here :: within)) (hd : d.isDirectoryAt a.location = true)
      (hnew : ∀ b ∈ here :: within, b.location ≠ a.location) :
      Trail d (a.location :: starts) [a.location] (a :: here :: within)

theorem length_le_of_directories {locations : List Location} (hn : locations.Nodup)
    (h : ∀ l ∈ locations, d.isDirectoryAt l = true) : locations.length ≤ d.entries.length + 1 := by
  have hsub : locations ⊆ [] :: d.entries.map Prod.fst := by
    intro l hl
    have hd := h l hl
    unfold Disk.isDirectoryAt Disk.entry? at hd
    split_ifs at hd with hnil
    · exact hnil ▸ List.mem_cons_self
    · split at hd
      · rename_i hentry
        obtain ⟨front, back, hentries, -⟩ := List.lookup_eq_some_iff.mp hentry
        simp [hentries]
      · simp at hd
  simpa using hn.length_le_of_subset hsub

/-- On a stretch locations get longer. -/
theorem Trail.stretch {starts stretch : List Location} {within : List Ancestor}
    (h : Trail d starts stretch within) :
    stretch.head? = within.head?.map Ancestor.location
      ∧ stretch.Pairwise (fun l l' => l'.length < l.length)
      ∧ ∀ l ∈ stretch, d.isDirectoryAt l = true := by
  induction h with
  | start hd => exact ⟨rfl, List.pairwise_singleton _ _, by simpa using hd⟩
  | @down starts stretch a here within name _ hd hn ih =>
    obtain ⟨hhead, hlen, hdir⟩ := ih
    refine ⟨rfl, List.pairwise_cons.mpr ⟨?_, hlen⟩, List.forall_mem_cons.mpr ⟨hd, hdir⟩⟩
    obtain ⟨tail, rfl⟩ := List.head?_eq_some_iff.mp hhead
    intro l hl
    rw [hn, List.length_append]
    rcases List.mem_cons.mp hl with rfl | hl
    · simp
    · have := (List.pairwise_cons.mp hlen).1 l hl
      simp
      omega
  | enter _ hd _ => exact ⟨rfl, List.pairwise_singleton _ _, by simpa using hd⟩

/-- No stretch starts where another one does. -/
theorem Trail.starts {starts stretch : List Location} {within : List Ancestor}
    (h : Trail d starts stretch within) :
    starts.Nodup ∧ ∀ l ∈ starts, d.isDirectoryAt l = true ∧ l ∈ within.map Ancestor.location := by
  induction h with
  | start hd => simpa using hd
  | down _ _ _ ih =>
    exact ⟨ih.1, fun l hl => ⟨(ih.2 l hl).1, List.mem_cons_of_mem _ (ih.2 l hl).2⟩⟩
  | enter _ hd hnew ih =>
    refine ⟨List.nodup_cons.mpr ⟨fun hmem => ?_, ih.1⟩, List.forall_mem_cons.mpr ⟨⟨hd, by simp⟩,
      fun l hl => ⟨(ih.2 l hl).1, List.mem_cons_of_mem _ (ih.2 l hl).2⟩⟩⟩
    obtain ⟨b, hb, hloc⟩ := List.mem_map.mp (ih.2 _ hmem).2
    exact hnew b hb hloc

theorem Trail.stretch_length {starts stretch : List Location} {within : List Ancestor}
    (h : Trail d starts stretch within) : stretch.length ≤ d.entries.length + 1 := by
  obtain ⟨-, hlen, hdir⟩ := h.stretch
  refine length_le_of_directories (hlen.imp fun hlt heq => ?_) hdir
  simp [heq] at hlt

/-- A walk is never in more directories than it may be. -/
theorem Trail.length_le {starts stretch : List Location} {within : List Ancestor}
    (h : Trail d starts stretch within) :
    within.length ≤ (d.entries.length + 1) * (d.entries.length + 1) := by
  generalize hn : d.entries.length + 1 = n
  have hsum : within.length + n ≤ starts.length * n + stretch.length := by
    induction h with
    | start _ => simp; omega
    | down _ _ _ ih => simp only [List.length_cons] at ih ⊢; omega
    | enter h _ _ ih =>
      have hstretch := h.stretch_length
      simp only [List.length_cons, List.length_nil, Nat.add_mul] at ih ⊢
      omega
  obtain ⟨hnodup, hdir⟩ := h.starts
  have hstarts := length_le_of_directories hnodup fun l hl => (hdir l hl).1
  have hstretch := h.stretch_length
  have hmul : starts.length * n ≤ n * n := Nat.mul_le_mul_right n (hn ▸ hstarts)
  omega

end Depth

/-! ## One name -/

section Visit

variable {d : Disk} {fuel : Nat} {here : Ancestor} {within : List Ancestor} {name : String}

/-- What a walk finds by a name of the innermost directory it is in. -/
def visit (d : Disk) (fuel : Nat) (here : Ancestor) (within : List Ancestor) (name : String) :
    Except WalkFault (List Path) :=
  let path := here.path.join name
  let enter := fun location => walkIn d fuel (⟨location, path⟩ :: here :: within)
  match d.entry? (here.location ++ [name]) with
  | some (.file ..) => .ok [path]
  | some (.device _) => .ok []
  | some (.directory _) => enter (here.location ++ [name])
  | some (.link _) =>
    match d.find path with
    | .error fault => .error (.unreadable path fault)
    | .ok (location, .directory _) =>
      match (here :: within).find? (·.location = location) with
      | some ancestor => .error (.circle path ancestor.path)
      | none => enter location
    | .ok (_, .file ..) => .ok [path]
    | .ok _ => .ok []
  | none => .ok []

theorem walkIn_succ : walkIn d (fuel + 1) (here :: within) = (do
    let below ← (d.namesIn here.location).mapM (visit d fuel here within)
    return below.flatten) := by
  rw [walkIn]
  rfl

/-- By a name a walk finds a file, or what is below a directory, or nothing. -/
theorem visit_ok {files : List Path} (h : visit d fuel here within name = .ok files) :
    (∃ location contents mode,
        leadsTo d here.location here.path name = .ok (location, .file contents mode)
          ∧ files = [here.path.join name])
      ∨ (∃ location mode, leadsTo d here.location here.path name = .ok (location, .directory mode)
          ∧ walkIn d fuel (⟨location, here.path.join name⟩ :: here :: within) = .ok files
          ∧ (location = here.location ++ [name]
            ∨ ∀ b ∈ here :: within, b.location ≠ location))
      ∨ files = [] ∧ ∀ location entry,
        leadsTo d here.location here.path name = .ok (location, entry) →
          (∀ contents mode, entry ≠ .file contents mode) ∧ ∀ mode, entry ≠ .directory mode := by
  unfold visit at h
  unfold leadsTo
  split at h
  · rename_i hentry
    rw [hentry]
    exact .inl ⟨_, _, _, rfl, (Except.ok.inj h).symm⟩
  · rename_i hentry
    rw [hentry]
    refine .inr (.inr ⟨(Except.ok.inj h).symm, ?_⟩)
    rintro location entry ⟨⟩
    simp
  · rename_i hentry
    rw [hentry]
    exact .inr (.inl ⟨_, _, rfl, h, .inl rfl⟩)
  · rename_i hentry
    rw [hentry]
    dsimp only at h ⊢
    rcases hfind : d.find (here.path.join name) with fault | ⟨location, entry⟩
    · simp [hfind] at h
    · rw [hfind] at h
      cases entry with
      | file contents mode => exact .inl ⟨_, _, _, rfl, (Except.ok.inj h).symm⟩
      | directory mode =>
        dsimp only at h
        split at h
        · simp at h
        · rename_i hnew
          refine .inr (.inl ⟨_, _, rfl, h, .inr fun b hb => ?_⟩)
          simpa using List.find?_eq_none.mp hnew b hb
      | link target | device contents =>
        refine .inr (.inr ⟨(Except.ok.inj h).symm, ?_⟩)
        rintro location' entry' ⟨⟩
        simp
  · rename_i hentry
    rw [hentry]
    exact .inr (.inr ⟨(Except.ok.inj h).symm, by simp⟩)

end Visit

/-! ## All names -/

theorem inOrder_namesIn (d : Disk) (location : Location) : InOrder id (d.namesIn location) := by
  refine InOrder.of_pairwise ?_
  have hle : ∀ a b : String, (!decide (b < a)) = true ↔ a ≤ b := by
    intro a b
    rw [Bool.not_eq_true', decide_eq_false_iff_not, not_lt]
  have hsorted := @List.pairwise_mergeSort _ (fun a b : String => !decide (b < a))
    (fun a b c hab hbc => (hle a c).mpr (((hle a b).mp hab).trans ((hle b c).mp hbc)))
    (fun a b => Bool.or_eq_true_iff.mpr ((le_total a b).imp (hle a b).mpr (hle b a).mpr))
    (d.entries.filterMap fun e => if e.1.dropLast = location then e.1.getLast? else none)
  exact hsorted.imp fun h => (hle _ _).mp h

section All

variable {d : Disk} {fuel : Nat} {here : Ancestor} {within : List Ancestor} {files : List Path}

/-- A walk in a directory that found some files did so by the names that lead to them. -/
def FindsBelow (d : Disk) (here : Ancestor) (files : List Path) : Prop :=
  ∃ found : List (List String), files = found.map here.path.below ∧ InOrder id found
    ∧ ∀ names, names ∈ found ↔ LiesBelow d here.location here.path names

theorem liesBelow_cons {here : Location} {path : Path} {name : String} {names : List String} :
    LiesBelow d here path (name :: names) ↔ name ∈ d.namesIn here ∧
      ((∃ location contents mode,
          leadsTo d here path name = .ok (location, .file contents mode) ∧ names = [])
        ∨ ∃ location mode, leadsTo d here path name = .ok (location, .directory mode)
          ∧ LiesBelow d location (path.join name) names) := by
  constructor
  · intro h
    cases h with
    | file hn h => exact ⟨hn, .inl ⟨_, _, _, h, rfl⟩⟩
    | directory hn h hb => exact ⟨hn, .inr ⟨_, _, h, hb⟩⟩
  · rintro ⟨hn, ⟨location, contents, mode, h, rfl⟩ | ⟨location, mode, h, hb⟩⟩
    · exact .file hn h
    · exact .directory hn h hb

/-- What a walk finds by a name, if deeper walks find what is below directories. -/
theorem visit_names {name : String} (hn : name ∈ d.namesIn here.location)
    (h : visit d fuel here within name = .ok files)
    (ht : ∃ starts stretch, Trail d starts stretch (here :: within))
    (ih : ∀ {a : Ancestor} {files : List Path},
      (∃ starts stretch, Trail d starts stretch (a :: here :: within)) →
        walkIn d fuel (a :: here :: within) = .ok files → FindsBelow d a files) :
    ∃ found : List (List String), files = found.map (here.path.join name).below
      ∧ InOrder id found
      ∧ ∀ names, names ∈ found ↔ LiesBelow d here.location here.path (name :: names) := by
  simp only [liesBelow_cons, hn, true_and]
  rcases visit_ok h with ⟨location, contents, mode, hleads, rfl⟩
    | ⟨location, mode, hleads, hwalk, hnew⟩ | ⟨rfl, hnone⟩
  · refine ⟨[[]], rfl, .of_pairwise (List.pairwise_singleton _ _), fun names => ?_⟩
    simp [hleads]
  · have hd : d.isDirectoryAt location = true := by
      rw [Disk.isDirectoryAt, leadsTo_entry hleads]
    obtain ⟨starts, stretch, ht⟩ := ht
    have htrail : ∃ starts stretch,
        Trail d starts stretch (⟨location, here.path.join name⟩ :: here :: within) := by
      rcases hnew with hname | hnew
      · exact ⟨_, _, ht.down hd hname⟩
      · exact ⟨_, _, ht.enter hd hnew⟩
    obtain ⟨found, hfiles, horder, hmem⟩ := ih htrail hwalk
    refine ⟨found, hfiles, horder, fun names => ?_⟩
    simp [hleads, hmem]
  · refine ⟨[], rfl, .of_pairwise .nil, fun names => ?_⟩
    constructor
    · simp
    · rintro (⟨_, contents, mode, hleads, -⟩ | ⟨_, mode, hleads, -⟩)
      · exact absurd rfl ((hnone _ _ hleads).1 contents mode)
      · exact absurd rfl ((hnone _ _ hleads).2 mode)

/-- A walk that ends without a fault finds the files below a directory, in the order of the names
that lead to them. -/
theorem walkIn_ok : ∀ {fuel : Nat} {here : Ancestor} {within : List Ancestor} {files : List Path},
    (∃ starts stretch, Trail d starts stretch (here :: within)) →
    (d.entries.length + 1) * (d.entries.length + 1) < fuel + (here :: within).length →
    walkIn d fuel (here :: within) = .ok files → FindsBelow d here files
  | 0, here, within, _, ⟨_, _, ht⟩, hfuel, _ => by
    have := ht.length_le
    omega
  | fuel + 1, here, within, files, ht, hfuel, h => by
    rw [walkIn_succ] at h
    obtain ⟨below, hbelow, rfl⟩ : ∃ below,
        (d.namesIn here.location).mapM (visit d fuel here within) = .ok below
          ∧ below.flatten = files := by
      cases hm : (d.namesIn here.location).mapM (visit d fuel here within) with
      | error e => simp [hm, bind, Except.bind] at h
      | ok below => exact ⟨below, rfl, by simpa [hm, bind, Except.bind, pure, Except.pure] using h⟩
    obtain ⟨g, rfl, hg⟩ := exists_of_mapM_ok hbelow
    have hnames : ∀ name ∈ d.namesIn here.location, ∃ found : List (List String),
        g name = found.map (here.path.join name).below ∧ InOrder id found
          ∧ ∀ names, names ∈ found ↔ LiesBelow d here.location here.path (name :: names) := by
      intro name hn
      refine visit_names hn (hg name hn) ht fun ht' hwalk => walkIn_ok ht' ?_ hwalk
      simp only [List.length_cons] at hfuel ⊢
      omega
    choose! found hfound horder hmem using hnames
    refine ⟨(d.namesIn here.location).flatMap fun name => (found name).map (name :: ·), ?_, ?_, ?_⟩
    · rw [List.map_flatMap, ← List.flatMap_def]
      refine List.flatMap_congr fun name hn => ?_
      rw [hfound name hn, List.map_map]
      rfl
    · refine (inOrder_namesIn d here.location).flatMap (fun name hn => ?_) ?_
      · refine InOrder.map fun front x back hl y hy hlt => horder name hn front x back hl y hy ?_
        rcases List.cons_lt_cons_iff.mp hlt with hlt | ⟨-, hlt⟩
        · exact absurd hlt (lt_irrefl name)
        · exact hlt
      · intro name _ name' _ x hx y hy hlt
        obtain ⟨x, -, rfl⟩ := List.mem_map.mp hx
        obtain ⟨y, -, rfl⟩ := List.mem_map.mp hy
        rcases List.cons_lt_cons_iff.mp hlt with hlt | ⟨rfl, -⟩
        · exact .inl hlt
        · exact .inr rfl
    · intro names
      rw [List.mem_flatMap]
      constructor
      · rintro ⟨name, hn, hmap⟩
        obtain ⟨rest, hrest, rfl⟩ := List.mem_map.mp hmap
        exact (hmem name hn rest).mp hrest
      · intro hlies
        rcases names with _ | ⟨name, rest⟩
        · cases hlies
        · have hn := (liesBelow_cons.mp hlies).1
          exact ⟨name, hn, List.mem_map_of_mem ((hmem name hn rest).mpr hlies)⟩

/-- A walk below a directory that ends without a fault finds the files below it. -/
theorem walk_ok {root : Path} {location : Location} {mode : Nat}
    (hroot : d.find root = .ok (location, .directory mode)) (h : walk d root = .ok files) :
    FindsBelow d ⟨location, root⟩ files := by
  obtain ⟨hlocation, hentry⟩ := Disk.find_eq_ok.mp hroot
  rw [walk, Disk.canonical?, hlocation] at h
  have hd : d.isDirectoryAt location = true := by rw [Disk.isDirectoryAt, hentry]
  refine walkIn_ok ⟨_, _, .start (a := ⟨location, root⟩) hd⟩ ?_ h
  simp

end All

end Files

end Briefing
