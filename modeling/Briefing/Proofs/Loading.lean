import Briefing.Error
import Briefing.Proofs.Walks

/-!
# Loading files

What is loaded by a path is what is in the file that the path leads to. So two paths to one file
give documents that differ in their paths only (`load_of_identity`). Permission bits do not count:
paths lead to the same places and give the same documents on disks that differ in nothing else
(`SameFiles.resolve`, `SameFiles.load`), and setting the bits of a file makes such a disk
(`sameFiles_setMode`).
-/

namespace Briefing

namespace Disk

/-! ## One file by two paths -/

section Paths

variable {d : Disk} {p q : Path}

theorem identity_eq_of_find {location : Location} {entry : Entry}
    (h : d.find p = .ok (location, entry)) : d.identity p = location := by
  rw [identity, canonical?, (find_eq_ok.mp h).1]
  rfl

theorem find_eq_of_identity {x y : Location × Entry} (hp : d.find p = .ok x)
    (hq : d.find q = .ok y) (h : d.identity p = d.identity q) : x = y := by
  obtain ⟨location, entry⟩ := x
  obtain ⟨location', entry'⟩ := y
  rw [identity_eq_of_find hp, identity_eq_of_find hq] at h
  obtain rfl := h
  have hentry := (find_eq_ok.mp hp).2.symm.trans (find_eq_ok.mp hq).2
  rw [Option.some.inj hentry]

theorem load_eq_ok {document : Document} (h : d.load p = .ok document) :
    ∃ text, d.readText p = .ok text ∧ Document.parse p text = .ok document := by
  unfold load at h
  split at h
  · cases h
  · split at h
    · cases h
    · cases h
      exact ⟨_, ‹_›, ‹_›⟩

theorem find_of_readText {text : String} (h : d.readText p = .ok text) : ∃ x, d.find p = .ok x := by
  rcases hfind : d.find p with fault | x
  · simp [readText, read, hfind, bind, Except.bind] at h
  · exact ⟨x, rfl⟩

theorem parse_path (text : String) : Document.parse q text
    = (Document.parse p text).map fun document => { document with path := q } := by
  unfold Document.parse
  rcases FrontMatter.split text with fault | ⟨_ | yaml, content⟩
  · rfl
  · rfl
  · simp only [bind, Except.bind]
    rcases FrontMatter.parse yaml with fault | frontMatter <;> rfl

/-- Two paths to one file give documents that differ in their paths only. -/
theorem load_of_identity {document document' : Document} (hp : d.load p = .ok document)
    (hq : d.load q = .ok document') (h : d.identity p = d.identity q) :
    document' = { document with path := q } := by
  obtain ⟨text, hread, hparse⟩ := load_eq_ok hp
  obtain ⟨text', hread', hparse'⟩ := load_eq_ok hq
  obtain ⟨x, hfind⟩ := find_of_readText hread
  obtain ⟨y, hfind'⟩ := find_of_readText hread'
  obtain rfl := find_eq_of_identity hfind hfind' h
  obtain rfl : text = text' := by
    rw [readText, read, hfind] at hread
    rw [readText, read, hfind', hread] at hread'
    exact Except.ok.inj hread'
  rw [parse_path (p := p), hparse] at hparse'
  exact (Except.ok.inj hparse').symm

theorem load_path {document : Document} (h : d.load p = .ok document) : document.path = p := by
  obtain ⟨text, -, hparse⟩ := load_eq_ok h
  have hpath := parse_path (p := p) (q := p) text
  rw [hparse] at hpath
  exact congrArg Document.path (Except.ok.inj hpath)

end Paths

end Disk

/-! ## Disks that differ in permission bits -/

/-- What two disks have at a location, if they differ in permission bits only. -/
inductive SameEntry : Option Entry → Option Entry → Prop
  | refl (entry : Option Entry) : SameEntry entry entry
  | file (contents : ByteArray) (mode mode' : Nat) :
      SameEntry (some (.file contents mode)) (some (.file contents mode'))
  | directory (mode mode' : Nat) : SameEntry (some (.directory mode)) (some (.directory mode'))

theorem SameEntry.trans {x y z : Option Entry} (h : SameEntry x y) (h' : SameEntry y z) :
    SameEntry x z := by
  cases h with
  | refl => exact h'
  | file contents mode mode' => cases h' <;> exact .file ..
  | directory mode mode' => cases h' <;> exact .directory ..

theorem SameEntry.symm {x y : Option Entry} (h : SameEntry x y) : SameEntry y x := by
  cases h with
  | refl => exact .refl _
  | file contents mode mode' => exact .file ..
  | directory mode mode' => exact .directory ..

namespace Disk

/-- Two disks that differ in nothing but permission bits. -/
structure SameFiles (d d' : Disk) : Prop where
  current : d.current = d'.current
  entries : ∀ location, SameEntry (d.entry? location) (Disk.entry? d' location)

theorem sameFiles_refl (d : Disk) : SameFiles d d := ⟨rfl, fun _ => .refl _⟩

theorem SameFiles.trans {d d' d'' : Disk} (h : SameFiles d d') (h' : SameFiles d' d'') :
    SameFiles d d'' :=
  ⟨h.current.trans h'.current, fun location => (h.entries location).trans (h'.entries location)⟩

section Same

variable {d d' : Disk}

theorem SameFiles.isDirectoryAt (h : SameFiles d d') (location : Location) :
    d.isDirectoryAt location = d'.isDirectoryAt location := by
  have hentry := h.entries location
  unfold Disk.isDirectoryAt
  generalize d.entry? location = x, Disk.entry? d' location = y at hentry
  cases hentry <;> rfl

theorem SameFiles.walkWith (h : SameFiles d d') (follow : Bool)
    (onLink : Location → List String → Except Files.Fault Location) :
    ∀ (names : List String) (location : Location),
      d.walkWith follow onLink location names = d'.walkWith follow onLink location names
  | [], _ => rfl
  | name :: names, location => by
    have ih := h.walkWith follow onLink names
    rw [Disk.walkWith, Disk.walkWith, h.isDirectoryAt, ih, ih]
    have hentry := h.entries (location ++ [name])
    generalize d.entry? (location ++ [name]) = x, Disk.entry? d' (location ++ [name]) = y
      at hentry ⊢
    cases hentry <;> simp only [ih]

theorem SameFiles.walkSteps (h : SameFiles d d') (follow : Bool) :
    ∀ links : Nat, d.walkSteps follow links = d'.walkSteps follow links
  | 0 => by
    funext location names
    exact h.walkWith follow _ names location
  | links + 1 => by
    funext location names
    rw [Disk.walkSteps, Disk.walkSteps, h.walkSteps follow links]
    exact h.walkWith follow _ names location

/-- Paths lead to the same locations. -/
theorem SameFiles.resolve (h : SameFiles d d') (follow : Bool) (p : Path) :
    d.resolve follow p = d'.resolve follow p := by
  rw [Disk.resolve, Disk.resolve, h.walkSteps, h.current]

theorem SameFiles.read (h : SameFiles d d') (p : Path) : d.read p = d'.read p := by
  rw [Disk.read, Disk.read, find, find, h.resolve]
  rcases d'.resolve true p with fault | location
  · rfl
  · simp only [bind, Except.bind]
    have hentry := h.entries location
    generalize d.entry? location = x, Disk.entry? d' location = y at hentry ⊢
    cases hentry <;> rfl

/-- Files give the same documents. -/
theorem SameFiles.load (h : SameFiles d d') (p : Path) : d.load p = d'.load p := by
  rw [Disk.load, Disk.load, readText, readText, h.read]

end Same

section Put

variable {d : Disk}

theorem lookup_filter {p : Location → Bool} {location : Location} (h : p location = true) :
    ∀ entries : List (Location × Entry),
      (entries.filter fun e => p e.1).lookup location = entries.lookup location
  | [] => rfl
  | (other, entry) :: entries => by
    have ih := lookup_filter h entries
    rw [List.filter_cons]
    split
    · rw [List.lookup_cons, List.lookup_cons, ih]
    · rename_i hother
      have hne : location ≠ other := by
        rintro rfl
        exact hother h
      rw [ih, List.lookup_cons, beq_false_of_ne hne]

theorem entry?_put (location location' : Location) (entry : Entry) :
    Disk.entry? (d.put location entry) location'
      = if location' = [] then some (.directory 0o755)
        else if location' = location then some entry else d.entry? location' := by
  unfold entry? put
  split
  · rfl
  · rename_i hne
    dsimp only
    rw [List.lookup_cons]
    split
    · rename_i heq
      rw [if_pos (beq_iff_eq.mp heq)]
    · rename_i heq
      have heq : location' ≠ location := fun h => by simp [h] at heq
      rw [if_neg heq, lookup_filter (p := (decide <| · ≠ location)) (by simp [heq])]

theorem sameFiles_put {location : Location} {entry : Entry}
    (h : SameEntry (d.entry? location) (some entry)) : SameFiles d (d.put location entry) := by
  refine ⟨rfl, fun location' => ?_⟩
  rw [entry?_put]
  split
  · rename_i hroot
    rw [hroot]
    exact .refl _
  · split
    · rename_i heq
      rwa [heq]
    · exact .refl _

/-- Permission bits are all that is set. -/
theorem sameFiles_setMode {d' : Disk} {p : Path} {mode : Nat} (h : d.setMode p mode = .ok d') :
    SameFiles d d' := by
  rcases hfind : d.find p with fault | ⟨location, entry⟩
  · simp [setMode, hfind, bind, Except.bind] at h
  · have hentry := (find_eq_ok.mp hfind).2
    simp only [setMode, hfind, bind, Except.bind] at h
    cases entry <;> cases h
    · exact sameFiles_put (hentry ▸ .file ..)
    · exact sameFiles_put (hentry ▸ .directory ..)
    · exact sameFiles_refl d

end Put

end Disk

end Briefing
