import Briefing.Search
import Briefing.Proofs.Walks

/-!
# What a search finds

A search finds files at places below its bases. Where it finds one is told by the number of the
base, the number of the place and the names below the place (`Position`), and positions are ordered
as the search goes. A file may be found at several positions, and the search keeps the first one. So
its candidates are the files that it finds, each where it is found first, in the order of these
positions (`candidates_ok`).
-/

namespace Briefing.Search

open Files (LiesBelow)

/-- A place holds a file: it is the file, or the file is below it and has a proper name. The names
lead from the place to the file. -/
inductive Holds (d : Disk) (place : Path) : List String → Prop
  | itself (h : d.isFile place = true) : Holds d place []
  | below {location : Location} {mode : Nat} {names : List String}
      (h : d.find place = .ok (location, .directory mode)) (hb : LiesBelow d location place names)
      (hm : isMarkdown (place.below names) = true) : Holds d place names

/-- Where a search finds a file: the number of the base, the number of the place among those of the
base, and the names that lead to the file from the place. -/
abbrev Position := ℕ ×ₗ ℕ ×ₗ List String

/-- The candidate that names lead to from a place below a base. -/
def candidateAt (base : Base) (place : Path) (names : List String) : Candidate :=
  ⟨place.below names, ((place.below names).stripPrefix? base.directory).getD (place.below names)⟩

/-- A place below a base has the number. Below the user's own directory the places for rules are
those of the user. All other places are those of the agents, in the order of the table. -/
inductive PlaceAt (table : AgentTable) (base : Base) : Kind → ℕ → Path → Prop
  | ofUser {j : ℕ} {path : Path} (hhome : base.isHome = true)
      (h : table.userRules[j]? = some path) :
      PlaceAt table base .rules j (base.directory.join path)
  | ofAgents {kind : Kind} {j : ℕ} {path : Path} (hkind : base.isHome = true → kind ≠ .rules)
      (h : (table.places kind)[j]? = some path) :
      PlaceAt table base kind j (base.directory.join path)

/-- A search finds the candidate at the position. -/
inductive FoundAt (d : Disk) (table : AgentTable) (bases : List Base) (kind : Kind) :
    Position → Candidate → Prop
  | intro {i j : ℕ} {base : Base} {place : Path} {names : List String}
      (hbase : bases[i]? = some base) (hplace : PlaceAt table base kind j place)
      (h : Holds d place names) :
      FoundAt d table bases kind (toLex (i, toLex (j, names))) (candidateAt base place names)

/-- A search finds the file of the candidate at the position for the first time. -/
structure FirstAt (d : Disk) (table : AgentTable) (bases : List Base) (kind : Kind)
    (position : Position) (c : Candidate) : Prop where
  found : FoundAt d table bases kind position c
  first : ∀ position' c', FoundAt d table bases kind position' c' →
    d.identity c'.path = d.identity c.path → position ≤ position'

section Distinct

variable {α β : Type} {d : Disk} {path : α → Path}

theorem distinctFiles_map (g : β → α) (seen : List Location) (l : List β) :
    distinctFiles d path seen (l.map g)
      = (distinctFiles d (fun x => path (g x)) seen l).map g := by
  induction l generalizing seen with
  | nil => rfl
  | cons x l ih =>
    rw [List.map_cons, distinctFiles, distinctFiles]
    split
    · exact ih _
    · exact congrArg (g x :: ·) (ih _)

/-- An item stands in a list behind items with a property. -/
theorem exists_append_cons {p : α → Prop} {z x : α} {l : List α} :
    (∃ front back, z :: l = front ++ x :: back ∧ ∀ y ∈ front, p y) ↔
      z = x ∨ p z ∧ ∃ front back, l = front ++ x :: back ∧ ∀ y ∈ front, p y := by
  constructor
  · rintro ⟨_ | ⟨y, front⟩, back, h, hfront⟩
    · exact .inl (List.cons.inj h).1
    · rw [List.cons_append] at h
      obtain ⟨rfl, hl⟩ := List.cons.inj h
      obtain ⟨hy, hfront⟩ := List.forall_mem_cons.mp hfront
      exact .inr ⟨hy, front, back, hl, hfront⟩
  · rintro (rfl | ⟨hz, front, back, rfl, hfront⟩)
    · exact ⟨[], l, rfl, by simp⟩
    · exact ⟨z :: front, back, rfl, List.forall_mem_cons.mpr ⟨hz, hfront⟩⟩

/-- The items that are kept are those before which no item is the same file. -/
theorem mem_distinctFiles {seen : List Location} {l : List α} {x : α} :
    x ∈ distinctFiles d path seen l ↔ d.identity (path x) ∉ seen ∧
      ∃ front back, l = front ++ x :: back
        ∧ ∀ y ∈ front, d.identity (path y) ≠ d.identity (path x) := by
  induction l generalizing seen with
  | nil => simp [distinctFiles]
  | cons z l ih =>
    rw [distinctFiles, exists_append_cons]
    split
    · rename_i hz
      have hz := List.contains_iff_mem.mp hz
      rw [ih]
      constructor
      · rintro ⟨hx, hsplit⟩
        exact ⟨hx, .inr ⟨fun heq => hx (heq ▸ hz), hsplit⟩⟩
      · rintro ⟨hx, rfl | ⟨-, hsplit⟩⟩
        · exact absurd hz hx
        · exact ⟨hx, hsplit⟩
    · rename_i hz
      have hz : d.identity (path z) ∉ seen := fun hmem => hz (List.contains_iff_mem.mpr hmem)
      rw [List.mem_cons, ih, List.mem_cons, not_or]
      constructor
      · rintro (rfl | ⟨⟨hxz, hx⟩, hsplit⟩)
        · exact ⟨hz, .inl rfl⟩
        · exact ⟨hx, .inr ⟨Ne.symm hxz, hsplit⟩⟩
      · rintro ⟨hx, rfl | ⟨hzx, hsplit⟩⟩
        · exact .inl rfl
        · exact .inr ⟨⟨Ne.symm hzx, hx⟩, hsplit⟩

/-- Every file is kept, at some item. -/
theorem exists_mem_distinctFiles {l : List α} {x : α} (hx : x ∈ l) :
    ∃ y ∈ distinctFiles d path [] l, d.identity (path y) = d.identity (path x) := by
  obtain ⟨y, hy⟩ : ∃ y, l.find? (fun y => d.identity (path y) = d.identity (path x)) = some y :=
    Option.isSome_iff_exists.mp (List.find?_isSome.mpr ⟨x, hx, by simp⟩)
  obtain ⟨hsame, front, back, rfl, hfront⟩ := List.find?_eq_some_iff_append.mp hy
  have hsame : d.identity (path y) = d.identity (path x) := by simpa using hsame
  refine ⟨y, mem_distinctFiles.mpr ⟨by simp, front, back, rfl, fun z hz => ?_⟩, hsame⟩
  rw [hsame]
  simpa using hfront z hz

/-- The items that are kept of a list in order ascend strictly. -/
theorem pairwise_distinctFiles {κ : Type} [LinearOrder κ] {key : α → κ} {l : List α}
    (h : InOrder key l)
    (hkey : ∀ x ∈ l, ∀ y ∈ l, key x = key y → d.identity (path x) = d.identity (path y)) :
    (distinctFiles d path [] l).Pairwise fun x y => key x < key y := by
  -- by induction on what is to come, behind what has come and been seen
  have hgoal : ∀ (back : List α) {front : List α} {seen : List Location}, l = front ++ back →
      (∀ x ∈ front, d.identity (path x) ∈ seen) →
        (distinctFiles d path seen back).Pairwise fun x y => key x < key y := by
    intro back
    induction back with
    | nil => exact fun _ _ => .nil
    | cons x back ih =>
      intro front seen hl hseen
      have hl' : l = (front ++ [x]) ++ back := by simpa using hl
      rw [distinctFiles]
      split
      · rename_i hx
        refine ih hl' fun y hy => ?_
        rcases List.mem_append.mp hy with hy | hy
        · exact hseen y hy
        · obtain rfl := List.mem_singleton.mp hy
          exact List.contains_iff_mem.mp hx
      · refine List.pairwise_cons.mpr ⟨fun y hy => ?_, ih hl' fun y hy => ?_⟩
        · obtain ⟨hnew, m, m', rfl, -⟩ := mem_distinctFiles.mp hy
          obtain ⟨hyx, hyseen⟩ := not_or.mp (fun hor => hnew (List.mem_cons.mpr hor))
          refine lt_of_le_of_ne (not_lt.mp fun hlt => ?_) fun heq => ?_
          · exact hyseen (hseen y (h front x _ hl y (by simp [hl]) hlt))
          · exact hyx (hkey y (by simp [hl]) x (by simp [hl]) heq.symm)
        · rcases List.mem_append.mp hy with hy | hy
          · exact List.mem_cons_of_mem _ (hseen y hy)
          · obtain rfl := List.mem_singleton.mp hy
            exact List.mem_cons_self
  exact @hgoal l [] [] rfl (by simp)

end Distinct

/-! ## All places and all bases -/

/-- The files of a place are those that it holds, in the order of the names that lead to them. -/
theorem filesAt_ok {d : Disk} {place : Path} {files : List Path} (h : filesAt d place = .ok files) :
    ∃ found : List (List String), files = found.map place.below ∧ InOrder id found
      ∧ ∀ names, names ∈ found ↔ Holds d place names := by
  rw [filesAt] at h
  split at h
  · rename_i hfile
    refine ⟨[[]], (Except.ok.inj h).symm, .of_pairwise (List.pairwise_singleton _ _),
      fun names => ?_⟩
    rw [List.mem_singleton]
    constructor
    · rintro rfl
      exact .itself hfile
    · intro hholds
      cases hholds with
      | itself => rfl
      | below hfind => simp [Disk.isFile, hfind] at hfile
  · rename_i hfile
    split at h
    · rename_i hdirectory
      obtain ⟨location, mode, hfind⟩ : ∃ location mode,
          d.find place = .ok (location, .directory mode) := by
        rw [Disk.isDirectory] at hdirectory
        split at hdirectory
        · exact ⟨_, _, ‹_›⟩
        · cases hdirectory
      split at h
      · rename_i walked hwalk
        obtain ⟨found, rfl, horder, hmem⟩ := Files.walk_ok hfind hwalk
        refine ⟨found.filter fun names => isMarkdown (place.below names), ?_, horder.filter _,
          fun names => ?_⟩
        · rw [← Except.ok.inj h, List.filter_map]
          rfl
        · rw [List.mem_filter, hmem]
          constructor
          · exact fun ⟨hb, hm⟩ => .below hfind hb hm
          · intro hholds
            cases hholds with
            | itself hitself => exact absurd hitself hfile
            | below hfind' hb hm =>
              obtain ⟨rfl, -⟩ := Prod.mk.inj (Except.ok.inj (hfind.symm.trans hfind'))
              exact ⟨hb, hm⟩
      · cases h
    · rename_i hdirectory
      refine ⟨[], (Except.ok.inj h).symm, .of_pairwise .nil, fun names => ?_⟩
      constructor
      · simp
      · intro hholds
        cases hholds with
        | itself hitself => exact absurd hitself hfile
        | below hfind => simp [Disk.isDirectory, hfind] at hdirectory

variable {d : Disk} {table : AgentTable} {bases : List Base} {kind : Kind}

/-- The candidates below a base, with the places that hold them. -/
theorem below_ok {base : Base} {cs : List Candidate} (h : below d table kind base = .ok cs) :
    ∃ found : List ((ℕ ×ₗ List String) × Candidate), cs = found.map Prod.snd
      ∧ InOrder Prod.fst found
      ∧ ∀ j names c, (toLex (j, names), c) ∈ found ↔
        ∃ place, (locations table base kind)[j]? = some place ∧ Holds d place names
          ∧ candidateAt base place names = c := by
  rw [below] at h
  rcases hfiles : (locations table base kind).mapM (filesAt d) with e | files
  · simp [hfiles, bind, Except.bind] at h
  · obtain ⟨g, rfl, hg⟩ := exists_of_mapM_ok hfiles
    choose! found hfound horder hmem using fun place hplace => filesAt_ok (hg place hplace)
    let f (place : Path) := (found place).map fun names => (names, candidateAt base place names)
    refine ⟨numbered f (locations table base kind), ?_, ?_, fun j names c => ?_⟩
    · rw [hfiles] at h
      rw [map_snd_numbered, ← Except.ok.inj h, ← List.flatMap_def, List.map_flatMap]
      refine List.flatMap_congr fun place hplace => ?_
      rw [hfound place hplace, List.map_map, List.map_map]
      rfl
    · exact inOrder_numbered fun place hplace => .map (horder place hplace)
    · rw [mem_numbered]
      constructor
      · rintro ⟨place, hplace, hf⟩
        obtain ⟨names, hnames, heq⟩ := List.mem_map.mp hf
        obtain ⟨rfl, rfl⟩ := Prod.mk.inj heq
        exact ⟨place, hplace, (hmem place (List.mem_of_getElem? hplace) names).mp hnames, rfl⟩
      · rintro ⟨place, hplace, hholds, rfl⟩
        have hnames := (hmem place (List.mem_of_getElem? hplace) names).mpr hholds
        exact ⟨place, hplace, List.mem_map_of_mem hnames⟩

/-- The search goes through the places in the order of their numbers. -/
theorem placeAt_iff {base : Base} {j : ℕ} {place : Path} :
    PlaceAt table base kind j place ↔ (locations table base kind)[j]? = some place := by
  rw [locations, List.getElem?_map, Option.map_eq_some_iff]
  constructor
  · intro h
    cases h with
    | ofUser hhome h => exact ⟨_, by rw [if_pos ⟨hhome, rfl⟩, h], rfl⟩
    | ofAgents hkind h => exact ⟨_, by rw [if_neg fun hrules => hkind hrules.1 hrules.2, h], rfl⟩
  · rintro ⟨path, hpath, rfl⟩
    split at hpath
    · rename_i hrules
      obtain ⟨hhome, rfl⟩ := hrules
      exact .ofUser hhome hpath
    · rename_i hrules
      exact .ofAgents (fun hhome hkind => hrules ⟨hhome, hkind⟩) hpath

theorem foundAt_iff {i j : ℕ} {names : List String} {c : Candidate} :
    FoundAt d table bases kind (toLex (i, toLex (j, names))) c ↔
      ∃ base, bases[i]? = some base ∧ ∃ place, (locations table base kind)[j]? = some place
        ∧ Holds d place names ∧ candidateAt base place names = c := by
  constructor
  · rintro ⟨hbase, hplace, h⟩
    exact ⟨_, hbase, _, placeAt_iff.mp hplace, h, rfl⟩
  · rintro ⟨base, hbase, place, hplace, h, rfl⟩
    exact .intro hbase (placeAt_iff.mpr hplace) h

theorem FoundAt.eq {position : Position} {c c' : Candidate}
    (h : FoundAt d table bases kind position c) (h' : FoundAt d table bases kind position c') :
    c = c' := by
  obtain ⟨hbase, hplace, -⟩ := h
  obtain ⟨base', hbase', place', hplace', -, rfl⟩ := foundAt_iff.mp h'
  obtain rfl := Option.some.inj (hbase.symm.trans hbase')
  obtain rfl := Option.some.inj ((placeAt_iff.mp hplace).symm.trans hplace')
  rfl

/-- What a search finds below all bases, in the order of the positions. -/
theorem found_ok {found : List (List Candidate)}
    (h : bases.mapM (below d table kind) = .ok found) :
    ∃ all : List (Position × Candidate), found.flatten = all.map Prod.snd
      ∧ InOrder Prod.fst all
      ∧ ∀ position c, (position, c) ∈ all ↔ FoundAt d table bases kind position c := by
  obtain ⟨g, rfl, hg⟩ := exists_of_mapM_ok h
  choose! below hbelow horder hmem using fun base hbase => below_ok (hg base hbase)
  refine ⟨numbered below bases, ?_, inOrder_numbered horder, fun position c => ?_⟩
  · rw [map_snd_numbered, ← List.flatMap_def]
    exact List.flatMap_congr hbelow
  · obtain ⟨i, j, names⟩ := position
    refine mem_numbered.trans (Iff.trans ?_ foundAt_iff.symm)
    refine exists_congr fun base => and_congr_right fun hbase => ?_
    exact hmem base (List.mem_of_getElem? hbase) j names c

/-- The candidates of a search are the files that it finds, each where it is found first, in the
order of these positions; and no file is left out. -/
theorem candidates_ok {cs : List Candidate} (h : candidates d table bases kind = .ok cs) :
    ∃ firsts : List (Position × Candidate), cs = firsts.map Prod.snd
      ∧ firsts.Pairwise (fun x y => x.1 < y.1)
      ∧ (∀ position c, (position, c) ∈ firsts ↔ FirstAt d table bases kind position c)
      ∧ ∀ position c, FoundAt d table bases kind position c →
        ∃ first ∈ firsts, d.identity first.2.path = d.identity c.path := by
  rw [candidates] at h
  rcases hfound : bases.mapM (below d table kind) with e | found
  · simp [hfound, bind, Except.bind] at h
  · obtain ⟨all, hall, horder, hmem⟩ := found_ok hfound
    rw [hfound] at h
    refine ⟨distinctFiles d (fun x => x.2.path) [] all, ?_, ?_, fun position c => ?_,
      fun position c hc => exists_mem_distinctFiles ((hmem position c).mpr hc)⟩
    · rw [← distinctFiles_map Prod.snd, ← hall]
      exact (Except.ok.inj h).symm
    · refine pairwise_distinctFiles horder ?_
      rintro ⟨position, c⟩ hx ⟨position', c'⟩ hy (rfl : position = position')
      rw [((hmem _ _).mp hx).eq ((hmem _ _).mp hy)]
    · constructor
      · intro hc
        obtain ⟨-, front, back, rfl, hfront⟩ := mem_distinctFiles.mp hc
        refine ⟨(hmem position c).mp (by simp), fun position' c' hc' hsame => ?_⟩
        exact not_lt.mp fun hlt => hfront (position', c')
          (horder front _ back rfl _ ((hmem position' c').mpr hc') hlt) hsame
      · intro hc
        obtain ⟨⟨position', c'⟩, hc', hsame⟩ := @exists_mem_distinctFiles _ d
          (fun x : Position × Candidate => x.2.path) _ _ ((hmem position c).mpr hc.found)
        obtain ⟨-, front, back, rfl, hfront⟩ := mem_distinctFiles.mp hc'
        have hfound := (hmem position' c').mp (by simp)
        obtain rfl : position = position' := by
          refine le_antisymm (hc.first position' c' hfound hsame) (not_lt.mp fun hlt => ?_)
          exact hfront _ (horder front _ back rfl _ ((hmem position c).mpr hc.found) hlt) hsame.symm
        rwa [hc.found.eq hfound]

end Briefing.Search
