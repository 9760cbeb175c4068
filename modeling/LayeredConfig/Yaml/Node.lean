import LayeredConfig.OrderedMap
import LayeredConfig.Yaml.Token

/-!
# Nodes

The document of a YAML text as a tree.  Aliases stay in it as references to the nodes that anchors name, so
that a document may refer to one of its nodes often, or even from within that node.
-/

namespace LayeredConfig.Yaml

/-- A node of a document, with its tag if it has one. -/
inductive Node where
  | scalar (tag : Option String) (isPlain : Bool) (text : String)
  | sequence (tag : Option String) (items : List Node)
  | mapping (tag : Option String) (entries : List (Node × Node))
  | alias (anchor : Nat)

namespace Node

/-- A scalar that is left out. -/
def omitted : Node := .scalar none true ""

mutual

/-- How many scalars, aliases, starts and ends of collections a node is made of. -/
def size : Node → Nat
  | .scalar .. => 1
  | .sequence _ items => 2 + sizeOfItems items
  | .mapping _ entries => 2 + sizeOfEntries entries
  | .alias _ => 1

/-- The size of the items of a sequence. -/
def sizeOfItems : List Node → Nat
  | [] => 0
  | n :: rest => n.size + sizeOfItems rest

/-- The size of the entries of a mapping. -/
def sizeOfEntries : List (Node × Node) → Nat
  | [] => 0
  | (k, v) :: rest => k.size + v.size + sizeOfEntries rest

end

end Node

/-- The anchors of a document.  A name is numbered by how many names there were when it was last defined;
names that share a number share the node that was defined last under it. -/
structure Anchors where
  /-- The number of each name. -/
  numbers : List (String × Nat) := []
  /-- How many nodes have been given a name. -/
  defined : Nat := 0
  /-- The nodes defined under each number, by the order of their definition, latest first. -/
  latest : List (Nat × Nat) := []
  /-- The nodes by the order of their definition. -/
  nodes : List (Nat × Node) := []

namespace Anchors

/-- Give a name to the next node; the answer tells which one it is. -/
def define (a : Anchors) : Option String → Option Nat × Anchors
  | none => (none, a)
  | some name =>
    let number := a.numbers.length
    (some a.defined, { a with
      numbers := Entries.put name number a.numbers
      defined := a.defined + 1
      latest := (number, a.defined) :: a.latest })

/-- Store a node that has been given a name. -/
def store (a : Anchors) (slot : Option Nat) (n : Node) : Anchors :=
  match slot with
  | none => a
  | some slot => { a with nodes := (slot, n) :: a.nodes }

/-- The node under a number. -/
def node? (a : Anchors) (number : Nat) : Option Node := do
  let slot ← a.latest.lookup number
  a.nodes.lookup slot

end Anchors

/-- A document; an empty text has no root. -/
structure Document where
  root : Option Node
  anchors : Anchors := {}

/-- What is left of the tokens, and what has been named before them. -/
structure Parser where
  tokens : List Token
  anchors : Anchors := {}

/-- What the handles of tags stand for. -/
abbrev TagHandles := List (String × String)

namespace TagHandles

/-- The handles that need no directive. -/
def standard : TagHandles := [("!", "!"), ("!!", "tag:yaml.org,2002:")]

/-- The tag that a written tag stands for. -/
def resolve? (handles : TagHandles) (t : RawTag) : Option String :=
  if t.handle.isEmpty then some t.suffix
  else (Entries.get? t.handle handles).map (· ++ t.suffix)

end TagHandles

namespace Parser

/-- The anchor and the tag in front of a node, in either order. -/
def properties? (handles : TagHandles) (tokens : List Token) :
    Option (Option String × Option String × List Token) := do
  let resolved (t : RawTag) : Option (Option String) := (handles.resolve? t).map some
  match tokens with
  | .anchor name :: .tag t :: rest => return (some name, ← resolved t, rest)
  | .tag t :: .anchor name :: rest => return (some name, ← resolved t, rest)
  | .anchor name :: rest => return (some name, none, rest)
  | .tag t :: rest => return (none, ← resolved t, rest)
  | rest => return (none, none, rest)

/-- The tag of a scalar; one that is nothing but an exclamation mark says nothing. -/
def scalarTag (tag : Option String) : Option String := tag.filter (· ≠ "!")

/-- Whether an entry of a block mapping ends before some tokens. -/
def endsBlockEntry : List Token → Bool
  | .key :: _ | .value :: _ | .blockEnd :: _ => true
  | _ => false

/-- Whether an entry of a flow collection that is closed by `close` ends before some tokens. -/
def endsFlowEntry (close : Token) : List Token → Bool
  | t :: _ => t = .flowEntry || t = close
  | [] => false

mutual

/-- The node at the front of the tokens.  An anchor or a tag with nothing behind it stands for a scalar that
is left out.  `block` tells whether the node may be a block collection, and `indentless` whether it may be a
sequence at the column of its key. -/
def node? (handles : TagHandles) (block indentless : Bool) : Nat → Parser → Option (Node × Parser)
  | 0, _ => none
  | fuel + 1, p =>
    match p.tokens with
    | .alias name :: rest => do
      return (.alias (← Entries.get? name p.anchors.numbers), { p with tokens := rest })
    | tokens => do
      let (name, tag, tokens) ← properties? handles tokens
      let (slot, anchors) := p.anchors.define name
      let store (n : Node) (p : Parser) : Node × Parser :=
        (n, { p with anchors := p.anchors.store slot n })
      let sequence (r : List Node × Parser) : Node × Parser := store (.sequence tag r.1) r.2
      let mapping (r : List (Node × Node) × Parser) : Node × Parser := store (.mapping tag r.1) r.2
      let bare : Option (Node × Parser) :=
        if name.isSome || tag.isSome then some (store (.scalar tag true "") ⟨tokens, anchors⟩) else none
      match tokens with
      | .scalar isPlain text :: rest =>
        return store (.scalar (scalarTag tag) isPlain text) ⟨rest, anchors⟩
      | .flowSequenceStart :: rest =>
        return sequence (← flowItems? handles true fuel ⟨rest, anchors⟩)
      | .flowMappingStart :: rest =>
        return mapping (← flowEntries? handles true fuel ⟨rest, anchors⟩)
      | .blockEntry :: _ =>
        if indentless then return sequence (← indentlessItems? handles fuel ⟨tokens, anchors⟩) else bare
      | .blockSequenceStart :: rest =>
        if block then return sequence (← blockItems? handles fuel ⟨rest, anchors⟩) else bare
      | .blockMappingStart :: rest =>
        if block then return mapping (← blockEntries? handles fuel ⟨rest, anchors⟩) else bare
      | _ => bare

/-- The items of a block sequence, up to its end. -/
def blockItems? (handles : TagHandles) : Nat → Parser → Option (List Node × Parser)
  | 0, _ => none
  | fuel + 1, p =>
    match p.tokens with
    | .blockEnd :: rest => some ([], { p with tokens := rest })
    | .blockEntry :: rest => do
      let p := { p with tokens := rest }
      let (n, p) ←
        match rest with
        | .blockEntry :: _ | .blockEnd :: _ => some (Node.omitted, p)
        | _ => node? handles true false fuel p
      let (items, p) ← blockItems? handles fuel p
      return (n :: items, p)
    | _ => none

/-- The items of a sequence at the column of its key, which ends where no item follows. -/
def indentlessItems? (handles : TagHandles) : Nat → Parser → Option (List Node × Parser)
  | 0, _ => none
  | fuel + 1, p =>
    match p.tokens with
    | .blockEntry :: rest => do
      let p := { p with tokens := rest }
      let ends :=
        match rest with
        | .blockEntry :: _ => true
        | _ => endsBlockEntry rest
      let (n, p) ← if ends then some (Node.omitted, p) else node? handles true false fuel p
      let (items, p) ← indentlessItems? handles fuel p
      return (n :: items, p)
    | _ => some ([], p)

/-- The entries of a block mapping, up to its end. -/
def blockEntries? (handles : TagHandles) : Nat → Parser → Option (List (Node × Node) × Parser)
  | 0, _ => none
  | fuel + 1, p =>
    match p.tokens with
    | .blockEnd :: rest => some ([], { p with tokens := rest })
    | .key :: rest => do
      let (k, p) ← blockPart? handles fuel { p with tokens := rest }
      let (v, p) ←
        match p.tokens with
        | .value :: rest => blockPart? handles fuel { p with tokens := rest }
        | _ => some (Node.omitted, p)
      let (entries, p) ← blockEntries? handles fuel p
      return ((k, v) :: entries, p)
    | _ => none

/-- A key or a value of a block mapping. -/
def blockPart? (handles : TagHandles) : Nat → Parser → Option (Node × Parser)
  | 0, _ => none
  | fuel + 1, p =>
    if endsBlockEntry p.tokens then some (.omitted, p) else node? handles true true fuel p

/-- The items of a flow sequence, up to its end.  An item with a key is a mapping of one entry. -/
def flowItems? (handles : TagHandles) (first : Bool) : Nat → Parser → Option (List Node × Parser)
  | 0, _ => none
  | fuel + 1, p => do
    let close := Token.flowSequenceEnd
    if p.tokens.head? = some close then return ([], { p with tokens := p.tokens.tail })
    let p ←
      if first then some p
      else if p.tokens.head? = some .flowEntry then some { p with tokens := p.tokens.tail }
      else none
    match p.tokens with
    | .key :: rest =>
      let (k, p) ←
        match rest with
        | .value :: rest | .flowEntry :: rest | .flowSequenceEnd :: rest =>
          some (Node.omitted, { p with tokens := rest })
        | _ => node? handles false false fuel { p with tokens := rest }
      let (v, p) ← flowValue? handles close fuel p
      let (items, p) ← flowItems? handles false fuel p
      return (.mapping none [(k, v)] :: items, p)
    | .flowSequenceEnd :: rest => return ([], { p with tokens := rest })
    | _ =>
      let (n, p) ← node? handles false false fuel p
      let (items, p) ← flowItems? handles false fuel p
      return (n :: items, p)

/-- The entries of a flow mapping, up to its end.  An entry without a key mark has no value. -/
def flowEntries? (handles : TagHandles) (first : Bool) :
    Nat → Parser → Option (List (Node × Node) × Parser)
  | 0, _ => none
  | fuel + 1, p => do
    let close := Token.flowMappingEnd
    if p.tokens.head? = some close then return ([], { p with tokens := p.tokens.tail })
    let p ←
      if first then some p
      else if p.tokens.head? = some .flowEntry then some { p with tokens := p.tokens.tail }
      else none
    match p.tokens with
    | .key :: rest =>
      let p := { p with tokens := rest }
      let (k, p) ←
        if rest.head? = some .value || endsFlowEntry close rest then some (Node.omitted, p)
        else node? handles false false fuel p
      let (v, p) ← flowValue? handles close fuel p
      let (entries, p) ← flowEntries? handles false fuel p
      return ((k, v) :: entries, p)
    | .flowMappingEnd :: rest => return ([], { p with tokens := rest })
    | _ =>
      let (n, p) ← node? handles false false fuel p
      let (entries, p) ← flowEntries? handles false fuel p
      return ((n, .omitted) :: entries, p)

/-- The value of an entry of a flow collection that is closed by `close`; it may be left out. -/
def flowValue? (handles : TagHandles) (close : Token) : Nat → Parser → Option (Node × Parser)
  | 0, _ => none
  | fuel + 1, p =>
    match p.tokens with
    | .value :: rest =>
      let p := { p with tokens := rest }
      if endsFlowEntry close rest then some (.omitted, p) else node? handles false false fuel p
    | _ => some (.omitted, p)

end

/-- The handles that the directives in front of some tokens give a meaning to, and the other tokens.  The
version may be given once, and must be one that is known. -/
def directives? (versioned : Bool) (handles : TagHandles) :
    List Token → Option (TagHandles × List Token)
  | .directive (.version major minor) :: rest =>
    if versioned || major ≠ 1 || (minor ≠ 1 && minor ≠ 2) then none
    else directives? true handles rest
  | .directive (.meaning handle start) :: rest =>
    if (Entries.get? handle handles).isSome then none
    else directives? versioned (handles ++ [(handle, start)]) rest
  | rest => some (handles, rest)

/-- The root of a document.  Behind the mark that starts it, it may be left out. -/
def root? (tokens : List Token) : Option (Node × Parser) := do
  let fuel := 2 * tokens.length + 2
  let (handles, rest) ← directives? false [] tokens
  let handles := handles ++ TagHandles.standard
  match tokens, rest with
  | _, .documentStart :: .documentStart :: _
  | _, .documentStart :: .documentEnd :: _
  | _, .documentStart :: .directive _ :: _ => return (.omitted, ⟨rest.tail, {}⟩)
  | _, [.documentStart] => return (.omitted, ⟨[], {}⟩)
  | _, .documentStart :: rest => node? handles true false fuel ⟨rest, {}⟩
  | .directive _ :: _, _ => none
  | _, _ => node? handles true false fuel ⟨rest, {}⟩

end Parser

/-- The only document of a text. -/
def Document.read? (text : List Char) : Option Document := do
  match ← Token.list? text with
  | [] => return { root := none }
  | tokens =>
    let (root, p) ← Parser.root? tokens
    if p.tokens.all (· = .documentEnd) then return { root := some root, anchors := p.anchors } else none

end LayeredConfig.Yaml
