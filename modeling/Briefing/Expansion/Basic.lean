import Briefing.Expansion.Segment
import Briefing.Session

/-!
# Expansion

An expanded content has values in the place of its placeholders: a parameter's value, what a
command printed, a file in a fenced block. Values are not looked at again. A parameter without a
value and a file that is not readable stay as they are written.
-/

namespace Briefing.Expansion

/-- A file's text in a fenced block. -/
def fileBlock (path body : String) : String :=
  let ending := if body.toList.getLast? = some '\n' then "" else "\n"
  "\n\nFile: " ++ path ++ "\n```\n" ++ body ++ ending ++ "```\n\n"

/-- What stands in the place of a reference to a file. -/
def readReference (base : Path) (written : List Char) (d : Disk) : String :=
  let path := String.ofList (unescapeBlanks written)
  match d.readText (base.join path) with
  | .ok body => fileBlock path body
  | .error _ => String.ofList (Segment.reference written).source

theorem readReference_ok {base : Path} {written : List Char} {d : Disk} {body : String}
    (h : d.readText (base.join (String.ofList (unescapeBlanks written))) = .ok body) :
    readReference base written d = fileBlock (String.ofList (unescapeBlanks written)) body := by
  delta readReference
  simp only [h]

theorem readReference_error {base : Path} {written : List Char} {d : Disk} {fault : Files.Fault}
    (h : d.readText (base.join (String.ofList (unescapeBlanks written))) = .error fault) :
    readReference base written d = String.ofList (Segment.reference written).source := by
  delta readReference
  simp only [h]

/-- What stands in the place of a segment. Paths and commands start from the directory `base`. -/
def expandSegment (host : Host) (params : Params) (base : Path) : Segment → Activity String
  | .char c => pure (String.singleton c)
  | .parameter name =>
    pure ((params.get? (String.ofList name)).getD (String.ofList (Segment.parameter name).source))
  | .command text => do
    let outcome ← host.call (.shell (String.ofList text) base)
    return outcome.output
  | .reference written => Activity.onDisk fun d => .ok (readReference base written d)

/-- The text behind `done` with values in the place of its placeholders, put after `done`; `before`
is the character before it. What a value holds is passed over with the placeholder. -/
def expandAfter (host : Host) (params : Params) (base : Path) (done : String)
    (before : Option Char) : List Char → Activity String
  | [] => return done
  | c :: s =>
    match _ : placeholder? before c s with
    | none => expandAfter host params base (done.push c) (some c) s
    | some (p, rest) => do
      let value ← expandSegment host params base p
      expandAfter host params base (done ++ value) p.source.getLast? rest
termination_by s => s.length
decreasing_by
  · exact Nat.lt_succ_self _
  · exact placeholder?_rest_length ‹_›

/-- The content with values in the place of its placeholders. -/
def expand (host : Host) (params : Params) (base : Path) (content : String) : Activity String :=
  expandAfter host params base "" none content.toList

end Briefing.Expansion
