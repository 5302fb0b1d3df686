import Briefing.Json
import Briefing.Task.Command

/-!
# Parameters

Parameters are given as assignments `key=value`. Blanks around the key do not count, and the value
is read as that of an argument is. A later assignment to a key replaces an earlier one.
-/

namespace Briefing

/-- The text before the first equals sign and the text after it. -/
def cutAssign : List Char → Option (List Char × List Char)
  | [] => none
  | c :: s => if c = '=' then some ([], s) else (cutAssign s).map fun (k, v) => (c :: k, v)

/-- The key, trimmed and not empty, and the value of an assignment. -/
def parseAssignment (item : String) : Option (String × String) :=
  (cutAssign item.toList).bind fun (key, value) =>
    let key := Text.trimChars key
    if key.isEmpty then none else some (String.ofList key, String.ofList value)

namespace Params

/-- The parameter that an assignment binds. -/
def binding? (item : String) : Option (String × String) :=
  (parseAssignment item).map fun (key, value) => (key, Task.decodeValueText value)

/-- The table of assignments, or the first item that is none. -/
def ofAssignments (items : List String) : Except String Params :=
  (items.mapM fun item => match binding? item with
    | some b => Except.ok b
    | none => .error item).map Table.ofList

/-- The bindings of `params` under those of `upper`. -/
def overlay (params upper : Params) : Params := params.insertAll upper.entries

def toJson (params : Params) : Json :=
  .object (params.entries.map fun (k, v) => (k, .string v))

end Params

end Briefing
