import Briefing.Files.Path
import Briefing.Text.Search
import Briefing.Text.White

/-!
# Sources

A source names a place to search besides the working directory. It is a local path, perhaps
written as a `file` address, or it has to be fetched: an address with a scheme is remote, and so is
anything with a marker such as `git::`. A manifest is a text that lists sources.
-/

namespace Briefing

/-- Where something to search is, as it is written. -/
abbrev Source := String

namespace Source

/-- What a local address starts with. -/
def fileScheme : String := "file://"

/-- The rest of a text behind its start. -/
def dropStart? (start text : String) : Option String :=
  (start.toList.isPrefixOf? text.toList).map String.ofList

def startsWith (start text : String) : Bool := start.toList.isPrefixOf text.toList

def endsWith (ending text : String) : Bool := ending.toList.isSuffixOf text.toList

/-- Whether a source is on this machine. -/
def isLocal (source : Source) : Bool :=
  startsWith fileScheme source ||
    !Text.contains "://".toList source.toList && !Text.contains "::".toList source.toList

/-- The path of a local source below a directory. -/
def localPath (source : Source) (base : Path) : Path :=
  base.join ((dropStart? fileScheme source).getD source)

/-- Whether a source is a file on the web. -/
def isHttp (source : Source) : Bool :=
  startsWith "http://" source || startsWith "https://" source

/-- What stands before a reference to a branch, and the branch. -/
def cutReference (address : String) : String × Option String :=
  match Text.cutAt "?ref=".toList address.toList with
  | some (address, reference) => (String.ofList address, some (String.ofList reference))
  | none => (address, none)

/-- The address of the repository that a source names. -/
def repository? (source : Source) : Option String :=
  match dropStart? "git::" source with
  | some address => some address
  | none =>
    if startsWith "git@" source || endsWith ".git" (cutReference source).1 then some source
  else none

/-- The name for a file from the web: the last step of its path, if it is fit for a name. -/
def fileName (source : Source) : String :=
  let path := source.toList.takeWhile fun c => c ≠ '?' && c ≠ '#'
  let last := (path.reverse.takeWhile (· ≠ '/')).reverse
  if last.isEmpty || last.contains ':' then "index.md" else String.ofList last

/-- The sources that a manifest lists: its lines, without blank ones and comments. -/
def manifest (text : String) : List Source :=
  ((Text.lines text.toList).map Text.trimChars).filterMap fun line =>
    if line.isEmpty || line.head? = some '#' then none else some (String.ofList line)

end Source

end Briefing
