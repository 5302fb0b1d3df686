import Briefing.Yaml.Token

/-!
# Nodes of a YAML document

A document is one node: a scalar, a sequence, a mapping, or an alias of a node with an anchor. An
anchor is known from where its node begins. What an alias stands for is looked up once the whole
document is read, so that an anchor set again later may change it, and a node may hold its own
alias.
-/

namespace Briefing.Yaml

/-- A node of a document, with the octets of its tag. -/
inductive Node
  | alias (anchor : Nat)
  | scalar (tag : Option (List UInt8)) (isPlain : Bool) (text : List Char)
  | sequence (tag : Option (List UInt8)) (items : List Node)
  | mapping (tag : Option (List UInt8)) (entries : List (Node × Node))

namespace Node

def isAlias : Node → Bool
  | .alias _ => true
  | _ => false

/-- The scalar that stands where nothing is written. -/
def empty : Node := scalar none true []

mutual

/-- The number of a node's beginnings and ends: two for a collection, one for anything else. -/
def size : Node → Nat
  | .alias _ | .scalar .. => 1
  | .sequence _ items => sizeItems items + 2
  | .mapping _ entries => sizeEntries entries + 2

def sizeItems : List Node → Nat
  | [] => 0
  | n :: ns => size n + sizeItems ns

def sizeEntries : List (Node × Node) → Nat
  | [] => 0
  | (k, v) :: es => size k + size v + sizeEntries es

end

end Node

/-- What is known while a document is read. -/
structure Compose where
  tokens : List Token
  /-- What tag handles stand for. -/
  handles : List (List Char × List UInt8)
  /-- The numbers of the anchors by name. -/
  anchors : List (List Char × Nat)
  /-- The numbers of all anchored nodes in the order of their beginnings, with the nodes that have
  ended. -/
  anchored : Array (Nat × Option Node)

namespace Compose

/-- Reading a part of a document. -/
abbrev Reader := StateT Compose (Except Fault)

def fail {α : Type} (f : Fault) : Reader α := throw f

/-- The next token; none at the text's end. -/
def peek : Reader (Option Token) := do return (← get).tokens.head?

def next : Reader Unit := modify fun s => { s with tokens := s.tokens.drop 1 }

/-- Takes the token if it is next. -/
def accept (token : Token) : Reader Bool := do
  if (← peek) = some token then
    next
    return true
  else return false

/-- Gives a node that begins here the anchor, with the place where the node is to be put. The
number is that of the names known so far, also where the name is known already. -/
def setAnchor (name : List Char) : Reader Nat := do
  let s ← get
  let number := s.anchors.length
  let anchors :=
    if s.anchors.any (·.1 = name) then
      s.anchors.map fun (n, i) => if n = name then (n, number) else (n, i)
    else s.anchors ++ [(name, number)]
  set { s with anchors, anchored := s.anchored.push (number, none) }
  return s.anchored.size

/-- The tag that a handle and a suffix write. -/
def resolveTag (handle : List Char) (suffix : List UInt8) : Reader (List UInt8) := do
  if handle.isEmpty then return suffix
  match (← get).handles.find? (·.1 = handle) with
  | some (_, start) => return start ++ suffix
  | none => fail .unknownTagHandle

/-- The anchor and the tag of a node, each optional, in either order. The place where the node is
to be put is given for an anchor. -/
def properties : Reader (Option Nat × Option (List UInt8)) := do
  let readAnchor : Reader (Option (List Char)) := do
    match ← peek with
    | some (.anchor name) => next; return some name
    | _ => return none
  let readTag : Reader (Option (List Char × List UInt8)) := do
    match ← peek with
    | some (.tag handle suffix) => next; return some (handle, suffix)
    | _ => return none
  let before ← readAnchor
  let tag ← readTag
  let after ← if before.isNone && tag.isSome then readAnchor else pure none
  let tag ← match tag with
    | some (handle, suffix) => some <$> resolveTag handle suffix
    | none => pure none
  let place ← match before.or after with
    | some name => some <$> setAnchor name
    | none => pure none
  return (place, tag)

/-- Puts a node that has ended at its anchor's place. -/
def place (at? : Option Nat) (node : Node) : Reader Node := do
  match at? with
  | some i => modify fun s =>
      { s with anchored := s.anchored.modify i fun (number, _) => (number, some node) }
  | none => pure ()
  return node

/-- Whether a node of a block is missing before the token. -/
def endsEntry : Option Token → Bool
  | some .blockEntry | some .key | some .value | some .blockEnd => true
  | _ => false

/-- Whether the value of an entry within brackets is missing before the token. -/
def endsFlow (close : Token) (token : Option Token) : Bool :=
  token = some .flowEntry || token = some close

mutual

/-- A node. Only `inBlock` may it be a block, and only in an `entry` of a mapping a sequence that
is not indented. -/
def node (inBlock entry : Bool) : Nat → Reader Node
  | 0 => fail .tooDeep
  | fuel + 1 => do
    match ← peek with
    | some (.alias name) =>
      next
      match (← get).anchors.find? (·.1 = name) with
      | some (_, number) => return .alias number
      | none => fail .unknownAnchor
    | _ =>
      let (at?, tag) ← properties
      match ← peek with
      | some (.scalar text isPlain) =>
        next
        place at? (.scalar tag isPlain text)
      | some .flowSequenceStart =>
        next
        place at? (.sequence tag (← flowItems true fuel))
      | some .flowMappingStart =>
        next
        place at? (.mapping tag (← flowEntries true fuel))
      | some token =>
        if entry && token = .blockEntry then
          place at? (.sequence tag (← looseItems fuel))
        else if inBlock && token = .blockSequenceStart then
          next
          place at? (.sequence tag (← blockItems fuel))
        else if inBlock && token = .blockMappingStart then
          next
          place at? (.mapping tag (← blockEntries fuel))
        else if at?.isSome || tag.isSome then place at? (.scalar tag true [])
        else fail .missingContent
      | none =>
        if at?.isSome || tag.isSome then place at? (.scalar tag true []) else fail .missingContent

/-- The items of an indented sequence. -/
def blockItems : Nat → Reader (List Node)
  | 0 => fail .tooDeep
  | fuel + 1 => do
    if ← accept .blockEntry then
      let t ← peek
      let item ← if t = some .blockEntry || t = some .blockEnd then pure Node.empty
        else node true false fuel
      return item :: (← blockItems fuel)
    else if ← accept .blockEnd then return []
    else fail .missingEntry

/-- The items of a sequence that is no further right than the key it belongs to. -/
def looseItems : Nat → Reader (List Node)
  | 0 => fail .tooDeep
  | fuel + 1 => do
    if ← accept .blockEntry then
      let item ← if endsEntry (← peek) then pure Node.empty else node true false fuel
      return item :: (← looseItems fuel)
    else return []

/-- The entries of a block mapping. -/
def blockEntries : Nat → Reader (List (Node × Node))
  | 0 => fail .tooDeep
  | fuel + 1 => do
    if ← accept .key then
      let missing := fun (t : Option Token) =>
        t = some .key || t = some .value || t = some .blockEnd
      let key ← if missing (← peek) then pure Node.empty else node true true fuel
      let value ←
        if ← accept .value then
          if missing (← peek) then pure Node.empty else node true true fuel
        else pure Node.empty
      return (key, value) :: (← blockEntries fuel)
    else if ← accept .blockEnd then return []
    else fail .missingKey

/-- The items of a sequence in brackets. An entry of a mapping counts as an item. -/
def flowItems (isFirst : Bool) : Nat → Reader (List Node)
  | 0 => fail .tooDeep
  | fuel + 1 => do
    if ← accept .flowSequenceEnd then return []
    if !isFirst then
      if !(← accept .flowEntry) then fail .missingEntry
      if ← accept .flowSequenceEnd then return []
    let item ←
      if ← accept .key then
        let t ← peek
        -- A key that is missing takes the token that shows it.
        let key ← if t = some .value || endsFlow .flowSequenceEnd t then next *> pure Node.empty
          else node false false fuel
        let value ←
          if ← accept .value then
            if endsFlow .flowSequenceEnd (← peek) then pure Node.empty else node false false fuel
          else pure Node.empty
        pure (Node.mapping none [(key, value)])
      else node false false fuel
    return item :: (← flowItems false fuel)

/-- The entries of a mapping in brackets. -/
def flowEntries (isFirst : Bool) : Nat → Reader (List (Node × Node))
  | 0 => fail .tooDeep
  | fuel + 1 => do
    if ← accept .flowMappingEnd then return []
    if !isFirst then
      if !(← accept .flowEntry) then fail .missingEntry
      if ← accept .flowMappingEnd then return []
    let entry ←
      if ← accept .key then
        let t ← peek
        let key ← if t = some .value || endsFlow .flowMappingEnd t then pure Node.empty
          else node false false fuel
        let value ←
          if ← accept .value then
            if endsFlow .flowMappingEnd (← peek) then pure Node.empty else node false false fuel
          else pure Node.empty
        pure (key, value)
      else
        let key ← node false false fuel
        pure (key, Node.empty)
    return entry :: (← flowEntries false fuel)

end

/-- The tag handles that every document has. -/
def standardHandles : List (List Char × List UInt8) :=
  [(['!'], [0x21]), (['!', '!'], "tag:yaml.org,2002:".toUTF8.toList)]

/-- The directives of a document. -/
def directives : Nat → Bool → List (List Char × List UInt8) →
    Reader (List (List Char × List UInt8))
  | 0, _, handles => return handles
  | fuel + 1, versioned, handles => do
    match ← peek with
    | some (.version major minor) =>
      if versioned || major ≠ 1 || !(minor = 1 || minor = 2) then fail .badDirective
      next
      directives fuel true handles
    | some (.tagDirective handle start) =>
      if handles.any (·.1 = handle) then fail .badDirective
      next
      directives fuel versioned (handles ++ [(handle, start)])
    | _ => return handles

/-- Whether the content of a document with a start mark is missing before the token. -/
def endsDocument : Option Token → Bool
  | none => true
  | some (.version ..) | some (.tagDirective ..) => true
  | some .documentStart | some .documentEnd => true
  | _ => false

/-- Passes document ends. -/
def passEnds : List Token → List Token
  | .documentEnd :: tokens => passEnds tokens
  | tokens => tokens

/-- The only document of a text; none if the text has no content. -/
def document : Reader (Option Node) := do
  let fuel := 3 * (← get).tokens.length + 3
  let root ← match ← peek with
    | none => return none
    | some (.version ..) | some (.tagDirective ..) | some .documentStart =>
      let handles ← directives fuel false []
      modify fun s => { s with handles := handles ++ standardHandles }
      if !(← accept .documentStart) then fail .missingDocumentStart
      if endsDocument (← peek) then pure Node.empty else node true false fuel
    | some _ => node true false fuel
  if (passEnds (← get).tokens).isEmpty then return some root else fail .severalDocuments

end Compose

/-- A document: its node and what its aliases stand for. -/
structure Document where
  root : Node
  anchored : Array (Nat × Option Node)

/-- The document of a YAML text; none if the text has no content. -/
def document (text : List Char) : Except Fault (Option Document) := do
  let tokens ← tokens text
  let (root, s) ← Compose.document.run ⟨tokens, Compose.standardHandles, [], #[]⟩
  return root.map fun root => ⟨root, s.anchored⟩

/-- The node that an alias stands for: of the anchored nodes with its number the last to begin. -/
def Document.lookUp (d : Document) (number : Nat) : Option Node :=
  (d.anchored.toList.reverse.find? (·.1 = number)).bind (·.2)

end Briefing.Yaml
