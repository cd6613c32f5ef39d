import FirmwareMatch.Yaml.Token

/-
  YAML documents as trees.

  A node may carry a name, an anchor, under which an alias refers to it later; an alias names the
  latest node of its name. An entry, key or value that is left out is an empty plain scalar.
-/

namespace FirmwareMatch.Yaml

/-- A node. An alias holds the number of the anchor it refers to. -/
inductive Node
  | scalar (style : Style) (tag : Option String) (text : String)
  | sequence (items : List Node)
  | mapping (pairs : List (Node × Node))
  | alias (anchor : Nat)
deriving Repr

/-- What stands where a node is left out. -/
def Node.empty : Node :=
  .scalar .plain none ""

/-- A document: its root, and the nodes with anchors by their numbers. -/
structure Document where
  root : Node
  anchored : List (Nat × Node)

/-- What is known while nodes are read: the tokens that follow, the tag handles, the numbers of the
anchors by name, the latest first, and the complete nodes with anchors. -/
structure Composer where
  tokens : List Token
  handles : List (List Char × List Char)
  anchors : List (List Char × Nat)
  anchored : List (Nat × Node)

/-- A step of reading nodes. -/
abbrev Compose := StateT Composer Result

namespace Compose

/-! ## Tokens -/

/-- The token that follows. -/
def peek : Compose (Option Token) := do
  return (← get).tokens.head?

/-- Passes over a token. -/
def drop : Compose PUnit :=
  modify fun s => { s with tokens := s.tokens.drop 1 }

/-- Passes over a token if it is `t`. -/
def dropIf (t : Token) : Compose Bool := do
  if (← peek) == some t then drop; return true
  else return false

/-- Whether one of the tokens follows, or nothing. -/
def atOneOf (ts : List Token) : Compose Bool := do
  match ← peek with
  | some t => return ts.contains t
  | none => return true

/-! ## Anchors and tags -/

/-- What stands in front of a node: the number of its anchor, and its tag. -/
structure Properties where
  anchor : Option Nat
  tag : Option (List Char)

/-- Notes a new anchor. -/
def newAnchor (name : List Char) : Compose Nat := do
  let s ← get
  let n := s.anchors.length
  set { s with anchors := (name, n) :: s.anchors }
  return n

/-- The meaning of a tag. -/
def resolveTag (handle suffix : List Char) : Compose (List Char) := do
  if handle.isEmpty then return suffix
  match (← get).handles.lookup handle with
  | some start => return start ++ suffix
  | none => throw "an undefined tag handle"

/-- An anchor, if one follows. -/
def anchor? : Compose (Option Nat) := do
  match ← peek with
  | some (.anchor name) => drop; return some (← newAnchor name)
  | _ => return none

/-- A tag, if one follows. -/
def tag? : Compose (Option (List Char)) := do
  match ← peek with
  | some (.tag handle suffix) => drop; return some (← resolveTag handle suffix)
  | _ => return none

/-- What stands in front of a node, in either order. -/
def properties : Compose Properties := do
  match ← anchor? with
  | some a => return ⟨some a, ← tag?⟩
  | none =>
    match ← tag? with
    | none => return ⟨none, none⟩
    | some t => return ⟨← anchor?, some t⟩

/-- Notes a complete node under its anchor. -/
def complete (p : Properties) (n : Node) : Compose Node := do
  match p.anchor with
  | some a => modify fun s => { s with anchored := (a, n) :: s.anchored }
  | none => pure ⟨⟩
  return n

/-- The tag of a scalar; the tag `!` alone says nothing. -/
def scalarTag (tag : Option (List Char)) : Option String :=
  match tag with
  | some ['!'] | none => none
  | some t => some (String.ofList t)

/-! ## Nodes -/

mutual

/-- A node. `inBlock` tells whether a block collection may stand here, and `indentless` whether the
entries of a sequence may stand here without further indentation. -/
def node (fuel : Nat) (inBlock indentless : Bool) : Compose Node :=
  match fuel with
  | 0 => throw "the text is too deep"
  | fuel + 1 => do
    match ← peek with
    | some (.alias name) =>
      drop
      match (← get).anchors.lookup name with
      | some n => return .alias n
      | none => throw "an unknown anchor"
    | _ => do
      let p ← properties
      match ← peek with
      | some (.scalar style text) =>
        drop
        complete p (.scalar style (scalarTag p.tag) (String.ofList text))
      | some .flowSequence => drop; complete p (.sequence (← flowItems fuel true []))
      | some .flowMapping => drop; complete p (.mapping (← flowPairs fuel true []))
      | t =>
        if inBlock && t == some .blockSequence then
          drop
          complete p (.sequence (← blockItems fuel []))
        else if inBlock && t == some .blockMapping then
          drop
          complete p (.mapping (← blockPairs fuel []))
        else if indentless && t == some .blockEntry then
          complete p (.sequence (← looseItems fuel []))
        else if p.anchor.isSome || p.tag.isSome then
          complete p (.scalar .plain (scalarTag p.tag) "")
        else throw "a node is missing"

/-- A node, or the empty one if one of the tokens follows. -/
def nodeUnless (fuel : Nat) (ends : List Token) (inBlock indentless : Bool) : Compose Node :=
  match fuel with
  | 0 => throw "the text is too deep"
  | fuel + 1 => do
    if ← atOneOf ends then return .empty else node fuel inBlock indentless

/-- The entries of a block sequence; `done` are the earlier ones, backwards. -/
def blockItems (fuel : Nat) (done : List Node) : Compose (List Node) :=
  match fuel with
  | 0 => throw "the text is too deep"
  | fuel + 1 => do
    if ← dropIf .blockEntry then
      let n ← nodeUnless fuel [.blockEntry, .blockEnd] true false
      blockItems fuel (n :: done)
    else if ← dropIf .blockEnd then return done.reverse
    else throw "an entry lacks its hyphen"

/-- The entries of a sequence that is not indented further than what it belongs to. -/
def looseItems (fuel : Nat) (done : List Node) : Compose (List Node) :=
  match fuel with
  | 0 => throw "the text is too deep"
  | fuel + 1 => do
    if ← dropIf .blockEntry then
      let n ← nodeUnless fuel [.blockEntry, .key, .value, .blockEnd] true false
      looseItems fuel (n :: done)
    else return done.reverse

/-- The pairs of a block mapping. -/
def blockPairs (fuel : Nat) (done : List (Node × Node)) : Compose (List (Node × Node)) :=
  match fuel with
  | 0 => throw "the text is too deep"
  | fuel + 1 => do
    if ← dropIf .key then
      let k ← nodeUnless fuel [.key, .value, .blockEnd] true true
      let v ←
        if ← dropIf .value then nodeUnless fuel [.key, .value, .blockEnd] true true
        else pure Node.empty
      blockPairs fuel ((k, v) :: done)
    else if ← dropIf .blockEnd then return done.reverse
    else throw "a pair lacks its key"

/-- A value between brackets, if a colon follows. -/
def flowValue (fuel : Nat) (ending : Token) : Compose Node :=
  match fuel with
  | 0 => throw "the text is too deep"
  | fuel + 1 => do
    if ← dropIf .value then nodeUnless fuel [.flowEntry, ending] false false else return .empty

/-- The items of a sequence between brackets. A pair stands for a mapping of its own. -/
def flowItems (fuel : Nat) (isFirst : Bool) (done : List Node) : Compose (List Node) :=
  match fuel with
  | 0 => throw "the text is too deep"
  | fuel + 1 => do
    if ← dropIf .flowSequenceEnd then return done.reverse
    if !isFirst then
      if !(← dropIf .flowEntry) then throw "an item lacks its comma"
    if ← dropIf .flowSequenceEnd then return done.reverse
    if ← dropIf .key then
      let k ←
        if ← atOneOf [.value, .flowEntry, .flowSequenceEnd] then do drop; pure Node.empty
        else node fuel false false
      let v ← flowValue fuel .flowSequenceEnd
      flowItems fuel false (.mapping [(k, v)] :: done)
    else
      let n ← node fuel false false
      flowItems fuel false (n :: done)

/-- The pairs of a mapping between brackets. A key may stand without a value. -/
def flowPairs (fuel : Nat) (isFirst : Bool) (done : List (Node × Node)) :
    Compose (List (Node × Node)) :=
  match fuel with
  | 0 => throw "the text is too deep"
  | fuel + 1 => do
    if ← dropIf .flowMappingEnd then return done.reverse
    if !isFirst then
      if !(← dropIf .flowEntry) then throw "a pair lacks its comma"
    if ← dropIf .flowMappingEnd then return done.reverse
    if ← dropIf .key then
      let k ← nodeUnless fuel [.value, .flowEntry, .flowMappingEnd] false false
      let v ← flowValue fuel .flowMappingEnd
      flowPairs fuel false ((k, v) :: done)
    else
      let k ← node fuel false false
      flowPairs fuel false ((k, .empty) :: done)

end

/-! ## Documents -/

/-- The tag handles that are always known. -/
def standardHandles : List (List Char × List Char) :=
  [(['!'], ['!']), (['!', '!'], "tag:yaml.org,2002:".toList)]

/-- The directives in front of a document. `versioned` tells whether there was a version. -/
def directives : Nat → Bool → List (List Char × List Char) → Compose PUnit
  | 0, _, _ => throw "too many directives"
  | fuel + 1, versioned, given => do
    match ← peek with
    | some (.version major minor) =>
      if versioned then throw "two versions"
      if major != 1 || (minor != 1 && minor != 2) then throw "an unknown version"
      drop
      directives fuel true given
    | some (.tagHandle handle start) =>
      if (given.lookup handle).isSome then throw "a tag handle is given twice"
      drop
      directives fuel versioned ((handle, start) :: given)
    | _ => modify fun s => { s with handles := given ++ standardHandles }

/-- Whether a token belongs to what stands between documents. -/
def isBetween : Option Token → Bool
  | none | some (.version ..) | some (.tagHandle ..) | some .documentStart => true
  | _ => false

/-- The root of the first document; nothing if there is no document. -/
def firstRoot (fuel : Nat) : Compose (Option Node) := do
  let t ← peek
  if t.isNone then return none
  else if !isBetween t then return some (← node fuel true false)
  else
    directives fuel false []
    if !(← dropIf .documentStart) then throw "a document lacks its start"
    let t ← peek
    if isBetween t || t == some .documentEnd then return some .empty
    else return some (← node fuel true false)

/-- The only document of a text; the empty scalar if there is none. -/
def onlyDocument (fuel : Nat) : Compose Document := do
  let root := (← firstRoot fuel).getD .empty
  modify fun s => { s with tokens := s.tokens.dropWhile (· == .documentEnd) }
  let s ← get
  if s.tokens.isEmpty then return ⟨root, s.anchored⟩
  else throw "more than one document"

end Compose

/-- A text without the mark that may open it. -/
def dropMark : List Char → List Char
  | '\uFEFF' :: cs => cs
  | cs => cs

/-- The document that a text holds. -/
def parse (text : String) : Result Document := do
  let ts ← tokens (dropMark text.toList)
  let s : Composer := ⟨ts, Compose.standardHandles, [], []⟩
  let (d, _) ← (Compose.onlyDocument (4 * ts.length + 8)).run s
  return d

end FirmwareMatch.Yaml
