import Briefing.Yaml.Node
import Briefing.Yaml.Number

/-!
# Values of a YAML document

A plain scalar is null, a boolean, a number or a string; any other scalar is a string, and a tag of
the standard's may say which it is. Tags of one's own are kept, as they tell keys apart; below
such a tag at a mapping the tags of its keys do not count. Aliases are replaced by what they stand
for.

A mapping has no key twice. Collections are nested at most 128 deep, and aliases are followed at
most a hundred times as often as the document has nodes.
-/

namespace Briefing.Yaml

/-- The value of a node. -/
inductive Value
  | null
  | bool (b : Bool)
  | number (n : Number)
  | string (s : String)
  | sequence (items : List Value)
  | mapping (entries : List (Value × Value))
  | tagged (tag : List UInt8) (value : Value)

namespace Value

/-- Whether two numbers are the same key. -/
def sameNumber : Number → Number → Bool
  | .int a, .int b => a = b
  | .float a, .float b => a.same b
  | _, _ => false

/-- A tag without one mark in front, unless it is the mark alone. -/
def bareTag : List UInt8 → List UInt8
  | 0x21 :: b :: rest => b :: rest
  | tag => tag

mutual

/-- Whether two values are the same key. The order of a mapping's entries does not matter. -/
def same : Value → Value → Bool
  | null, null => true
  | bool a, bool b => a = b
  | number a, number b => sameNumber a b
  | string a, string b => a = b
  | sequence a, sequence b => sameItems a b
  | mapping a, mapping b => a.length = b.length && sameEntries a b
  | tagged t a, tagged u b => bareTag t = bareTag u && same a b
  | _, _ => false

def sameItems : List Value → List Value → Bool
  | [], [] => true
  | a :: as, b :: bs => same a b && sameItems as bs
  | _, _ => false

def sameEntries : List (Value × Value) → List (Value × Value) → Bool
  | [], _ => true
  | (k, v) :: es, fs => fs.any (fun (k', v') => same k k' && same v v') && sameEntries es fs

end

/-- The value of a plain scalar without a tag. -/
def ofPlain (text : List Char) : Except Fault Value := do
  if text.isEmpty || ["null".toList, "Null".toList, "NULL".toList, ['~']].contains text then
    return null
  else if ["true".toList, "True".toList, "TRUE".toList].contains text then return bool true
  else if ["false".toList, "False".toList, "FALSE".toList].contains text then return bool false
  else
    match ← Yaml.number text with
    | some n => return .number n
    | none => return string (String.ofList text)

/-- A tag of the standard's. -/
def standardTag (name : String) : List UInt8 := ("tag:yaml.org,2002:" ++ name).toUTF8.toList

/-- The value of a scalar with a tag that is not one's own. -/
def ofTagged (tag : List UInt8) (text : List Char) : Except Fault Value := do
  let fits := fun (v : Option Value) => match v with
    | some v => Except.ok v
    | none => .error .badTaggedValue
  if tag = standardTag "bool" then
    match ← ofPlain text with
    | bool b => return bool b
    | _ => throw .badTaggedValue
  else if tag = standardTag "int" then fits ((← integer text).map fun i => .number (.int i))
  else if tag = standardTag "float" then fits ((float? text).map fun x => .number (.float x))
  else if tag = standardTag "null" then
    if text.isEmpty then throw .badTaggedValue
    match ← ofPlain text with
    | null => return null
    | _ => throw .badTaggedValue
  else return string (String.ofList text)

/-- The tag that is one's own, without its mark: one that starts with the mark, in UTF-8. -/
def ownTag? (tag : Option (List UInt8)) : Option (List UInt8) :=
  tag.bind fun
    | 0x21 :: rest =>
      let bare := if rest.isEmpty then [0x21] else rest
      if (String.fromUTF8? ⟨bare.toArray⟩).isSome then some bare else none
    | _ => none

/-- Puts a tag of one's own at a value. -/
def withTag (tag : Option (List UInt8)) (value : Value) : Value :=
  match ownTag? tag with
  | some t => tagged t value
  | none => value

/-- The value of a scalar. -/
def ofScalar (tag : Option (List UInt8)) (isPlain : Bool) (text : List Char) :
    Except Fault Value :=
  match tag with
  | none => if isPlain then ofPlain text else .ok (string (String.ofList text))
  | some t =>
    if t.head? = some 0x21 then
      (if isPlain then ofPlain text else .ok (string (String.ofList text))).map (withTag tag)
    else ofTagged t text

/-- How often aliases may still be followed. -/
abbrev Reader := StateT Nat (Except Fault)

/-- The node itself, or the one that an alias stands for. -/
def follow (d : Document) : Node → Reader Node
  | .alias anchor => do
    match ← get with
    | 0 => throw .tooManyAliases
    | n + 1 =>
      set n
      match d.lookUp anchor with
      | some node => return node
      | none => throw .unknownAnchor
  | node => return node

/-- The value of a node within which collections may be nested `depth` deep. The tag that is
written at the node does not count if it is `bare`, nor do those of its keys; that of a node which
an alias stands for does. -/
def ofNode (d : Document) : Nat → Bool → Node → Reader Value
  | 0, bare, node => do
    let bare := bare && !node.isAlias
    match ← follow d node with
    | .scalar tag isPlain text => ofScalar (if bare then none else tag) isPlain text
    | _ => throw .tooDeep
  | depth + 1, bare, node => do
    let bare := bare && !node.isAlias
    match ← follow d node with
    | .alias _ => throw .unknownAnchor
    | .scalar tag isPlain text => ofScalar (if bare then none else tag) isPlain text
    | .sequence tag items =>
      let items ← items.mapM fun item => ofNode d depth false item
      return withTag (if bare then none else tag) (sequence items)
    | .mapping tag entries =>
      let entries ← entries.foldlM (fun done (k, v) => do
        let key ← ofNode d depth (bare || (ownTag? tag).isSome) k
        if done.any fun e => same e.1 key then throw .duplicateKey
        let value ← ofNode d depth false v
        return done ++ [(key, value)]) []
      return withTag (if bare then none else tag) (mapping entries)

end Value

/-- How deep collections may be nested. -/
def depthLimit : Nat := 128

/-- The value of a YAML text; null if it has no content. -/
def read (text : String) : Except Fault Value := do
  match ← document text.toList with
  | none => return .null
  | some d => (Value.ofNode d depthLimit false d.root).run' (100 * d.root.size)

end Briefing.Yaml
