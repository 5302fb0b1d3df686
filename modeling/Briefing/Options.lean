import Briefing.Search
import Briefing.SearchRoots

/-!
# Options

What a prompt is put together from: the working directory, further sources and the user's own
directory, the parameters and selectors, and what the user wants besides.
-/

namespace Briefing

/-- What a prompt is put together from. -/
structure Options where
  /-- The first base, from which relative paths start and where programs run. -/
  directory : Path
  /-- The user's own directory, searched last. -/
  home : Option Path
  sources : List Source
  /-- A text that lists further sources. -/
  manifest : Option Source
  params : Params
  selectors : Selectors
  agent : Option Agent
  /-- Whether an earlier session goes on: rules and skills are left out. -/
  resume : Bool
  /-- A text to add to the task. -/
  prompt : Option String
  table : AgentTable

namespace Options

/-- The bases of the search: the working directory, the search roots, the user's own directory. -/
def bases (options : Options) (roots : List Path) : List Base :=
  (options.directory :: roots).map (⟨·, false⟩) ++ (options.home.map (⟨·, true⟩)).toList

/-- The sources that the manifest lists. -/
def listedSources (options : Options) (host : Host) : Activity (List Source) :=
  match options.manifest with
  | none => return []
  | some manifest =>
    if Source.isLocal manifest then
      let path := Source.localPath manifest options.directory
      Activity.onDisk fun d =>
        match d.readText path with
        | .ok text => .ok (Source.manifest text)
        | .error fault => .error (.unreadable path fault)
    else do return Source.manifest (← host.fetchedText manifest)

/-- An activity with the bases of the search; what is fetched for them does not outlast it. -/
def useBases {α : Type} (options : Options) (host : Host) (body : List Base → Activity α) :
    Activity α := do
  let listed ← options.listedSources host
  SearchRoots.use host (options.sources ++ listed) options.directory fun roots =>
    body (options.bases roots)

end Options

end Briefing
