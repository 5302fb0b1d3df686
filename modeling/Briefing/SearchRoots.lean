import Briefing.Session

/-!
# Search roots

Sources become directories to search: a local one is its path, any other is fetched into a
directory of its own below one download directory. The download directory is made only if some
source is remote, and it does not outlast its use.
-/

namespace Briefing

/-- The directories of sources, in their order, and where downloads are, if there are any. -/
structure SearchRoots where
  roots : List Path
  downloads : Option Path

namespace SearchRoots

/-- What the name of a download directory starts with. -/
def downloadName : String := "coding-context-"

/-- The permission bits of a download directory. -/
def downloadMode : Nat := 0o700

/-- A name for a download directory that nothing has yet. -/
def downloadPath (d : Disk) (parent : Path) : Path :=
  parent.join (d.freshName (d.identity parent) downloadName)

/-- Makes a fresh download directory and answers with its path. -/
def makeDownloads (host : Host) : Activity Path := do
  let parent ← Activity.onDisk fun d => .ok (d.absolute host.temporary)
  let path ← Activity.onDisk fun d => .ok (downloadPath d parent)
  Activity.change fun d =>
    match d.makeDirectory path >>= (·.setMode path downloadMode) with
    | .ok d => .ok d
    | .error fault => .error (.noTemporary path fault)
  return path

/-- The directory for the source with number `i`. -/
def destination (downloads : Path) (i : Nat) : Path := downloads.join ("source-" ++ Text.decimal i)

/-- The directory of a source, which is fetched if it is remote. -/
def rootOf (host : Host) (base downloads : Path) (source : Source × Nat) : Activity Path :=
  if Source.isLocal source.1 then return Source.localPath source.1 base
  else do
    let path := destination downloads source.2
    host.fetch source.1 path
    return path

/-- The activity, after which the downloads are gone if it fails. -/
def removingOnFailure {α : Type} (downloads : Path) (a : Activity α) : Activity α := fun s =>
  match a s with
  | (.ok x, s) => (.ok x, s)
  | (.error e, s) => (.error e, { s with disk := s.disk.removeAll downloads })

/-- The search roots of sources; local ones start from the directory `base`. -/
def resolve (host : Host) (sources : List Source) (base : Path) : Activity SearchRoots :=
  if sources.all Source.isLocal then return ⟨sources.map (Source.localPath · base), none⟩
  else do
    let downloads ← makeDownloads host
    let roots ← removingOnFailure downloads (sources.zipIdx.mapM (rootOf host base downloads))
    return ⟨roots, some downloads⟩

/-- Removes the downloads. -/
def release (roots : SearchRoots) (d : Disk) : Disk :=
  match roots.downloads with
  | some downloads => d.removeAll downloads
  | none => d

/-- An activity with the search roots of sources, after which the downloads are gone. -/
def use {α : Type} (host : Host) (sources : List Source) (base : Path)
    (body : List Path → Activity α) : Activity α := do
  let roots ← resolve host sources base
  (body roots.roots).finallyChange roots.release

end SearchRoots

end Briefing
