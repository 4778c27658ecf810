import Tinct.Yaml.Token

/-! # YAML nodes

The tokens of a document form a tree of scalars, sequences and mappings.  Nodes may carry an anchor,
and an alias stands for the node with the anchor of its name.

The readers of the collections are given the reader of the nodes in them, and `node?` ties the knot
with a bound on the nesting.

* `documentNode?` reads the node of a text with at most one document;
* `Node.link?` replaces the names of anchors by numbers. -/

namespace Tinct.Yaml

/-- The anchor and the tag of a node. -/
structure Properties (α : Type) where
  anchor : Option α
  tag : Option String
deriving DecidableEq, Repr

/-- The properties of a scalar, for which a lone exclamation mark is no tag. -/
def Properties.ofScalar {α : Type} (p : Properties α) : Properties α :=
  if p.tag = some "!" then ⟨p.anchor, none⟩ else p

/-- A node of a YAML document; anchors are named by `α`. -/
inductive Node (α : Type) where
  | alias (anchor : α)
  | scalar (properties : Properties α) (isPlain : Bool) (text : String)
  | sequence (properties : Properties α) (items : List (Node α))
  | mapping (properties : Properties α) (entries : List (Node α × Node α))

/-- The scalar that stands where a node is left out. -/
def Node.absent {α : Type} : Node α := .scalar ⟨none, none⟩ true ""

/-! ## Reading nodes -/

/-- What a reader finds at the start of a list of tokens, and the tokens behind it. -/
abbrev Reader (α : Type) := List Token → Option (α × List Token)

/-- The values of tag handles. -/
abbrev TagHandles := List (String × String)

/-- The handles that are known without a directive. -/
def TagHandles.builtin : TagHandles := [("!", "!"), ("!!", "tag:yaml.org,2002:")]

/-- The tag of a handle and a suffix. -/
def TagHandles.tag? (handles : TagHandles) (handle suffix : String) : Option String :=
  if handle = "" then some suffix else (handles.lookup handle).map (· ++ suffix)

/-- The properties in front of a node: an anchor and a tag, in either order. -/
def properties? (handles : TagHandles) : Reader (Properties String)
  | .anchor a :: .tag h t :: rest =>
    (handles.tag? h t).map fun tag => (⟨some a, some tag⟩, rest)
  | .tag h t :: .anchor a :: rest =>
    (handles.tag? h t).map fun tag => (⟨some a, some tag⟩, rest)
  | .anchor a :: rest => some (⟨some a, none⟩, rest)
  | .tag h t :: rest => (handles.tag? h t).map fun tag => (⟨none, some tag⟩, rest)
  | ts => some (⟨none, none⟩, ts)

/-- Where a node stands. -/
inductive Position where
  /-- In a block sequence, or at the top of a document. -/
  | block
  /-- In a block mapping, where the items of a sequence need no indentation. -/
  | entry
  /-- In a flow collection. -/
  | flow
deriving DecidableEq, Repr

/-- Reads a node at a position, or finds it left out in front of one of the given tokens. -/
def orAbsent? (node : Position → Reader (Node String)) (position : Position) (marks : List Token) :
    Reader (Node String) := fun ts =>
  if ts.head?.any marks.contains then some (.absent, ts) else node position ts

/-- Repeats a reader until it finds no more. -/
def collect? {α : Type} (next : Reader (Option α)) (ts : List Token) :
    Option (List α × List Token) :=
  match next ts with
  | none => none
  | some (none, rest) => some ([], rest)
  | some (some a, rest) =>
    if rest.length < ts.length then (collect? next rest).map fun (as, behind) => (a :: as, behind)
    else none
termination_by ts.length

section Collections

variable (node : Position → Reader (Node String))

/-- The next item of a block sequence, or its end. -/
def blockItem? : Reader (Option (Node String))
  | .blockEntry :: rest => do
    let (item, rest) ← orAbsent? node .block [.blockEntry, .blockEnd] rest
    return (some item, rest)
  | .blockEnd :: rest => some (none, rest)
  | _ => none

/-- The next item of a sequence without indentation; any other token ends it. -/
def bareItem? : Reader (Option (Node String))
  | .blockEntry :: rest => do
    let (item, rest) ← orAbsent? node .block [.blockEntry, .key, .value, .blockEnd] rest
    return (some item, rest)
  | ts => some (none, ts)

/-- The value behind a key, which is left out where no value is marked. -/
def value? (position : Position) (marks : List Token) : Reader (Node String)
  | .value :: rest => orAbsent? node position marks rest
  | ts => some (.absent, ts)

/-- The next entry of a block mapping, or its end. -/
def blockPair? : Reader (Option (Node String × Node String))
  | .key :: rest => do
    let (key, rest) ← orAbsent? node .entry [.key, .value, .blockEnd] rest
    let (value, rest) ← value? node .entry [.key, .value, .blockEnd] rest
    return (some (key, value), rest)
  | .blockEnd :: rest => some (none, rest)
  | _ => none

/-- An item of a flow sequence.  An entry of a mapping is a mapping of its own; where its key is
left out, the token behind the mark is passed over. -/
def flowItem? : Reader (Node String)
  | .key :: rest => do
    let (key, rest) ←
      if rest.head?.any [Token.value, .flowEntry, .flowSequenceEnd].contains then
        some (Node.absent, rest.tail)
      else node .flow rest
    let (value, rest) ← value? node .flow [.flowEntry, .flowSequenceEnd] rest
    return (.mapping ⟨none, none⟩ [(key, value)], rest)
  | ts => node .flow ts

/-- An entry of a flow mapping; without a mark it is a key without a value. -/
def flowPair? : Reader (Node String × Node String)
  | .key :: rest => do
    let (key, rest) ← orAbsent? node .flow [.value, .flowEntry, .flowMappingEnd] rest
    let (value, rest) ← value? node .flow [.flowEntry, .flowMappingEnd] rest
    return ((key, value), rest)
  | ts => do
    let (key, rest) ← node .flow ts
    return ((key, .absent), rest)

/-- What follows a comma in a flow collection, or its end; a comma may stand before the end. -/
def afterComma? {α : Type} (item : Reader α) (close : Token) : Reader (Option α)
  | .flowEntry :: rest =>
    if rest.head? = some close then some (none, rest.tail)
    else (item rest).map fun (a, behind) => (some a, behind)
  | t :: rest => if t = close then some (none, rest) else none
  | [] => none

/-- The items of a flow collection and its end. -/
def flow? {α : Type} (item : Reader α) (close : Token) : Reader (List α) := fun ts =>
  if ts.head? = some close then some ([], ts.tail)
  else do
    let (first, rest) ← item ts
    let (others, rest) ← collect? (afterComma? item close) rest
    return (first :: others, rest)

/-- Reads a node whose collections hold the nodes of the given reader. -/
def nodeOf? (handles : TagHandles) (position : Position) : Reader (Node String)
  | .alias a :: rest => some (.alias a, rest)
  | ts => do
    let (p, rest) ← properties? handles ts
    match position, rest with
    | .entry, .blockEntry :: _ =>
      let (items, rest) ← collect? (bareItem? node) rest
      return (.sequence p items, rest)
    | _, .scalar isPlain text :: rest => return (.scalar p.ofScalar isPlain text, rest)
    | _, .flowSequenceStart :: rest =>
      let (items, rest) ← flow? (flowItem? node) .flowSequenceEnd rest
      return (.sequence p items, rest)
    | _, .flowMappingStart :: rest =>
      let (entries, rest) ← flow? (flowPair? node) .flowMappingEnd rest
      return (.mapping p entries, rest)
    | .flow, rest => if p = ⟨none, none⟩ then none else return (.scalar p true "", rest)
    | _, .blockSequenceStart :: rest =>
      let (items, rest) ← collect? (blockItem? node) rest
      return (.sequence p items, rest)
    | _, .blockMappingStart :: rest =>
      let (entries, rest) ← collect? (blockPair? node) rest
      return (.mapping p entries, rest)
    | _, rest => if p = ⟨none, none⟩ then none else return (.scalar p true "", rest)

end Collections

/-- Reads a node with at most the given number of collections around each other. -/
def node? (handles : TagHandles) : Nat → Position → Reader (Node String)
  | 0, _ => fun _ => none
  | depth + 1, position => nodeOf? (node? handles depth) handles position

/-! ## Documents -/

/-- What the directives in front of a document say. -/
structure Directives where
  version : Option (Nat × Nat) := none
  handles : TagHandles := []
deriving DecidableEq, Repr

/-- Takes a directive.  There is at most one for the version, which has to be 1.1 or 1.2, and one
for each tag handle. -/
def Directives.add? (d : Directives) : Token → Option Directives
  | .versionDirective major minor =>
    if d.version.isNone && major = 1 && (minor = 1 || minor = 2) then
      some { d with version := some (major, minor) }
    else none
  | .tagDirective handle value =>
    if (d.handles.lookup handle).isSome then none
    else some { d with handles := (handle, value) :: d.handles }
  | _ => none

/-- Whether a token is a directive. -/
def Token.isDirective : Token → Bool
  | .versionDirective _ _ => true
  | .tagDirective _ _ => true
  | _ => false

/-- Reads a document that starts with directives or a mark. -/
def explicitDocument? (ts : List Token) : Option (Node String × List Token) := do
  let d ← (ts.takeWhile Token.isDirective).foldlM Directives.add? {}
  match ts.dropWhile Token.isDirective with
  | .documentStart :: rest =>
    match rest with
    | [] => return (.absent, [])
    | t :: _ =>
      if t.isDirective || t = .documentStart || t = .documentEnd then return (.absent, rest)
      else node? (d.handles ++ .builtin) ts.length .block rest
  | _ => none

/-- The node of the only document of a text; there is none in a text without documents. -/
def documentNode? (ts : List Token) : Option (Option (Node String)) :=
  match ts with
  | [] => some none
  | t :: _ => do
    let (n, rest) ←
      if t.isDirective || t = .documentStart then explicitDocument? ts
      else node? .builtin ts.length .block ts
    if rest.all (· = .documentEnd) then some (some n) else none

/-! ## Anchors -/

/-- The anchors that were met. -/
structure Anchors where
  /-- The names with their numbers, the latest first. -/
  numbers : List (String × Nat) := []
  /-- How many different names there are. -/
  count : Nat := 0
deriving DecidableEq, Repr

/-- Gives an anchor the number of different names met before it. -/
def Anchors.add (known : Anchors) (name : String) : Anchors × Nat :=
  let count := if (known.numbers.lookup name).isSome then known.count else known.count + 1
  (⟨(name, known.count) :: known.numbers, count⟩, known.count)

/-- Gives the anchor of a node its number. -/
def Properties.link (known : Anchors) (p : Properties String) : Anchors × Properties Nat :=
  match p.anchor with
  | none => (known, ⟨none, p.tag⟩)
  | some name =>
    let (known, n) := known.add name
    (known, ⟨some n, p.tag⟩)

mutual

/-- The node with numbers for the names of anchors.  An alias needs an anchor in front of it. -/
def Node.link? (known : Anchors) : Node String → Option (Anchors × Node Nat)
  | .alias name => (known.numbers.lookup name).map fun n => (known, .alias n)
  | .scalar p isPlain text =>
    let (known, p) := p.link known
    some (known, .scalar p isPlain text)
  | .sequence p items => do
    let (known, p) := p.link known
    let (known, items) ← linkItems? known items
    return (known, .sequence p items)
  | .mapping p entries => do
    let (known, p) := p.link known
    let (known, entries) ← linkEntries? known entries
    return (known, .mapping p entries)

/-- The nodes of a list with numbers for the names of anchors. -/
def linkItems? (known : Anchors) : List (Node String) → Option (Anchors × List (Node Nat))
  | [] => some (known, [])
  | item :: rest => do
    let (known, item) ← item.link? known
    let (known, rest) ← linkItems? known rest
    return (known, item :: rest)

/-- The entries of a mapping with numbers for the names of anchors. -/
def linkEntries? (known : Anchors) :
    List (Node String × Node String) → Option (Anchors × List (Node Nat × Node Nat))
  | [] => some (known, [])
  | (key, value) :: rest => do
    let (known, key) ← key.link? known
    let (known, value) ← value.link? known
    let (known, rest) ← linkEntries? known rest
    return (known, (key, value) :: rest)

end

/-- The number of the anchor of a node. -/
def Node.anchor? : Node Nat → Option Nat
  | .alias _ => none
  | .scalar p _ _ => p.anchor
  | .sequence p _ => p.anchor
  | .mapping p _ => p.anchor

mutual

/-- A node and all nodes in it, each before those in it. -/
def Node.all : Node Nat → List (Node Nat)
  | .alias a => [.alias a]
  | .scalar p isPlain text => [.scalar p isPlain text]
  | .sequence p items => .sequence p items :: allItems items
  | .mapping p entries => .mapping p entries :: allEntries entries

/-- All nodes in the nodes of a list. -/
def allItems : List (Node Nat) → List (Node Nat)
  | [] => []
  | item :: rest => item.all ++ allItems rest

/-- All nodes in the entries of a mapping. -/
def allEntries : List (Node Nat × Node Nat) → List (Node Nat)
  | [] => []
  | (key, value) :: rest => key.all ++ value.all ++ allEntries rest

end

/-- A document as its node, or as nothing if it is empty. -/
structure Document where
  node? : Option (Node Nat)

namespace Document

/-- The document of a text. -/
def parse? (text : String) : Option Document := do
  match ← documentNode? (← Token.ofChars? text.toList) with
  | none => return ⟨none⟩
  | some n => return ⟨some (← n.link? {}).2⟩

/-- The node that an alias stands for: the last one with the number of the anchor. -/
def resolve (d : Document) : Node Nat → Node Nat
  | .alias a =>
    let nodes := (d.node?.map Node.all).getD []
    (nodes.reverse.find? (·.anchor? = some a)).getD (.alias a)
  | n => n

end Document

end Tinct.Yaml
