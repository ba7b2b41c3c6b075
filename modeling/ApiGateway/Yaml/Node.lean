import ApiGateway.Yaml.Token

/-!
# Nodes

The tokens of a text are put together to one document.  An alias stands for the node with its anchor, and
what is left out is an empty plain scalar.
-/

namespace ApiGateway.Yaml

structure Scalar where
  text : String
  style : Style := .plain
  tag : Option String := none
  deriving DecidableEq, Repr

inductive Node where
  | scalar (scalar : Scalar)
  | sequence (tag : Option String) (items : List Node)
  | mapping (tag : Option String) (entries : List (Node × Node))
  deriving Repr

namespace Node

def empty : Node :=
  .scalar ⟨"", .plain, none⟩

def quoted (text : String) : Node :=
  .scalar ⟨text, .quoted, none⟩

def plain (text : String) : Node :=
  .scalar ⟨text, .plain, none⟩

end Node

/-- What an anchor stands for, and how many aliases one follows to read all of it. -/
structure Anchored where
  node : Node
  references : Nat

/-- What is left of the tokens, and what the anchors stand for.  A node that is not complete yet cannot be
referred to. -/
structure Composer where
  tokens : List Token
  anchors : List (String × Option Anchored) := []
  handles : List (String × String) := []
  /-- The size of what has been read: a collection counts twice, an alias and all else once. -/
  size : Nat := 0
  /-- How many aliases one follows to read all of it. -/
  references : Nat := 0

namespace Composer

def next? (composer : Composer) : Option Token :=
  composer.tokens.head?

def sees (composer : Composer) (tokens : List Token) : Bool :=
  composer.next?.all tokens.contains

def advance (composer : Composer) : Composer :=
  { composer with tokens := composer.tokens.tail }

def grow (composer : Composer) : Composer :=
  { composer with size := composer.size + 1 }

/-- What is left out is an empty scalar. -/
def missing (composer : Composer) : Node × Composer :=
  (.empty, composer.grow)

def setAnchor (composer : Composer) (name? : Option String) (found? : Option Anchored) : Composer :=
  match name? with
  | some name => { composer with anchors := (name, found?) :: composer.anchors }
  | none => composer

/-- Pass an alias of a node. -/
def follow (composer : Composer) (found : Anchored) : Composer :=
  { composer.advance.grow with references := composer.references + 1 + found.references }

/-! ## Properties -/

/-- The tag of a handle and a suffix, if the handle is known. -/
def tagText? (composer : Composer) (handle suffix : String) : Option String :=
  if handle = "" then some suffix else (composer.handles.lookup handle).map (· ++ suffix)

/-- Anchor and tag of a node, in either order. -/
structure Properties where
  anchor : Option String := none
  tag : Option String := none

def properties? (composer : Composer) : Option (Properties × Composer) :=
  match composer.tokens with
  | .anchor name :: .tag handle suffix :: rest | .tag handle suffix :: .anchor name :: rest =>
    (composer.tagText? handle suffix).map fun tag =>
      (⟨some name, some tag⟩, { composer with tokens := rest })
  | .tag handle suffix :: rest =>
    (composer.tagText? handle suffix).map fun tag => (⟨none, some tag⟩, { composer with tokens := rest })
  | .anchor name :: rest => some (⟨some name, none⟩, { composer with tokens := rest })
  | _ => some ({}, composer)

/-- The tag that counts for a scalar; an exclamation mark alone is none. -/
def scalarTag : Option String → Option String
  | some "!" => none
  | tag => tag

/-! ## Content -/

mutual

/-- Read a node.  Blocks are only open to nodes of blocks. -/
def node? (inBlock indentless : Bool) : Nat → Composer → Option (Node × Composer)
  | 0, _ => none
  | fuel + 1, composer =>
    match composer.next? with
    | some (.alias name) =>
      match composer.anchors.lookup name with
      | some (some found) => some (found.node, composer.follow found)
      | _ => none
    | _ => do
      let (found, composer) ← composer.properties?
      let before := composer.references
      let composer := (composer.setAnchor found.anchor none).grow
      let (node, composer) ←
        match composer.next? with
        | some (.scalar text style) =>
          some (.scalar ⟨text, style, scalarTag found.tag⟩, composer.advance)
        | some .openSequence =>
          (flowItems? true fuel composer.advance).map fun (items, composer) =>
            (.sequence found.tag items, composer)
        | some .openMapping =>
          (flowEntries? true fuel composer.advance).map fun (entries, composer) =>
            (.mapping found.tag entries, composer)
        | token =>
          if indentless ∧ token = some .item then
            (indentlessItems? fuel composer).map fun (items, composer) =>
              (Node.sequence found.tag items, composer)
          else if inBlock ∧ token = some .openBlockSequence then
            (blockItems? fuel composer.advance).map fun (items, composer) =>
              (.sequence found.tag items, composer)
          else if inBlock ∧ token = some .openBlockMapping then
            (blockEntries? fuel composer.advance).map fun (entries, composer) =>
              (.mapping found.tag entries, composer)
          else if found.anchor.isSome ∨ found.tag.isSome then
            some (.scalar ⟨"", .plain, found.tag⟩, composer)
          else none
      some (node, composer.setAnchor found.anchor (some ⟨node, composer.references - before⟩))

/-- Read a node, unless one of the tokens stands in its place. -/
def nodeUnless? (tokens : List Token) (inBlock indentless : Bool) : Nat → Composer →
    Option (Node × Composer)
  | 0, _ => none
  | fuel + 1, composer =>
    if composer.sees tokens then some composer.missing else node? inBlock indentless fuel composer

/-- The items of a sequence in a block, and its end. -/
def blockItems? : Nat → Composer → Option (List Node × Composer)
  | 0, _ => none
  | fuel + 1, composer =>
    match composer.next? with
    | some .item => do
      let (item, composer) ← nodeUnless? [.item, .closeBlock] true false fuel composer.advance
      let (items, composer) ← blockItems? fuel composer
      return (item :: items, composer)
    | some .closeBlock => some ([], composer.advance.grow)
    | _ => none

/-- The items of a sequence that is not indented against the key before it. -/
def indentlessItems? : Nat → Composer → Option (List Node × Composer)
  | 0, _ => none
  | fuel + 1, composer =>
    match composer.next? with
    | some .item => do
      let (item, composer) ←
        nodeUnless? [.item, .key, .colon, .closeBlock] true false fuel composer.advance
      let (items, composer) ← indentlessItems? fuel composer
      return (item :: items, composer)
    | _ => some ([], composer.grow)

/-- The entries of a mapping in a block, and its end. -/
def blockEntries? : Nat → Composer → Option (List (Node × Node) × Composer)
  | 0, _ => none
  | fuel + 1, composer =>
    match composer.next? with
    | some .closeBlock => some ([], composer.advance.grow)
    | some .key => do
      let (key, composer) ← nodeUnless? [.key, .colon, .closeBlock] true true fuel composer.advance
      let (value, composer) ← blockValue? fuel composer
      let (entries, composer) ← blockEntries? fuel composer
      return ((key, value) :: entries, composer)
    | _ => none

/-- The value of a key in a block. -/
def blockValue? : Nat → Composer → Option (Node × Composer)
  | 0, _ => none
  | fuel + 1, composer =>
    if composer.next? = some .colon then
      nodeUnless? [.key, .colon, .closeBlock] true true fuel composer.advance
    else some composer.missing

/-- The items of a sequence in brackets, and its end.  A key makes an item a mapping of one entry. -/
def flowItems? (first : Bool) : Nat → Composer → Option (List Node × Composer)
  | 0, _ => none
  | fuel + 1, composer =>
    if composer.next? = some .closeSequence then some ([], composer.advance.grow)
    else if !first ∧ composer.next? ≠ some .comma then none
    else
      let composer := if first then composer else composer.advance
      match composer.next? with
      | some .closeSequence => some ([], composer.advance.grow)
      | some .key => do
        let (entry, composer) ← flowPair? fuel composer.advance.grow
        let (items, composer) ← flowItems? false fuel composer
        return (.mapping none [entry] :: items, composer)
      | _ => do
        let (item, composer) ← node? false false fuel composer
        let (items, composer) ← flowItems? false fuel composer
        return (item :: items, composer)

/-- The entry of a mapping that stands in brackets without braces.  A token that stands for a missing key
is passed. -/
def flowPair? : Nat → Composer → Option ((Node × Node) × Composer)
  | 0, _ => none
  | fuel + 1, composer => do
    let (key, composer) ←
      if composer.sees [.colon, .comma, .closeSequence] then some composer.advance.missing
      else node? false false fuel composer
    let (value, composer) ←
      if composer.next? = some .colon then
        nodeUnless? [.comma, .closeSequence] false false fuel composer.advance
      else some composer.missing
    return ((key, value), composer.grow)

/-- The entries of a mapping in braces, and its end. -/
def flowEntries? (first : Bool) : Nat → Composer → Option (List (Node × Node) × Composer)
  | 0, _ => none
  | fuel + 1, composer =>
    if composer.next? = some .closeMapping then some ([], composer.advance.grow)
    else if !first ∧ composer.next? ≠ some .comma then none
    else
      let composer := if first then composer else composer.advance
      match composer.next? with
      | some .closeMapping => some ([], composer.advance.grow)
      | some .key => do
        let (key, composer) ←
          nodeUnless? [.colon, .comma, .closeMapping] false false fuel composer.advance
        let (value, composer) ←
          if composer.next? = some .colon then
            nodeUnless? [.comma, .closeMapping] false false fuel composer.advance
          else some composer.missing
        let (entries, composer) ← flowEntries? false fuel composer
        return ((key, value) :: entries, composer)
      | _ => do
        let (key, composer) ← node? false false fuel composer
        let (entries, composer) ← flowEntries? false fuel composer
        return ((key, .empty) :: entries, composer.grow)

end

/-! ## Documents -/

/-- The handles that are known without a directive. -/
def standardHandles : List (String × String) :=
  [("!", "!"), ("!!", "tag:yaml.org,2002:")]

/-- What the directives before a document say. -/
structure Directives where
  hasVersion : Bool := false
  handles : List (String × String) := []

/-- Read directives.  A version is given once at most and a handle too. -/
def directives? : List Token → Directives → Option (Directives × List Token)
  | .version major minor :: rest, known =>
    if known.hasVersion ∨ major ≠ 1 ∨ !(minor = 1 ∨ minor = 2) then none
    else directives? rest { known with hasVersion := true }
  | .tagDirective handle lead :: rest, known =>
    if (known.handles.lookup handle).isSome then none
    else directives? rest { known with handles := (handle, lead) :: known.handles }
  | rest, known => some (known, rest)

/-- How deep the reading of so many tokens can go. -/
def fuelFor (tokens : List Token) : Nat :=
  4 * tokens.length + 8

/-- The tokens of the one document, and the handles it may use. -/
def document? (tokens : List Token) : Option (Bool × Composer) := do
  match tokens with
  | .version .. :: _ | .tagDirective .. :: _ | .documentStart :: _ =>
    let (known, rest) ← directives? tokens {}
    match rest with
    | .documentStart :: rest =>
      some (true, { tokens := rest, handles := known.handles ++ standardHandles })
    | _ => none
  | _ => some (false, { tokens, handles := standardHandles })

/-- The one node that tokens describe, and the composer behind it; without any, the node is empty. -/
def root? (tokens : List Token) : Option (Node × Composer) := do
  if tokens = [] then some (.empty, { tokens })
  else
    let (explicit, composer) ← document? tokens
    let isMissing : Bool := explicit && composer.next?.all (fun token => match token with
      | .version .. | .tagDirective .. | .documentStart | .documentEnd => true
      | _ => false)
    let (node, composer) ←
      if isMissing then some composer.missing else node? true false (fuelFor tokens) composer
    if composer.tokens.all (· == .documentEnd) then some (node, composer) else none

/-- How often, on average, one part of a text may be referred to. -/
def referenceLimit : Nat := 100

end Composer

/-- Read a text that is one document. -/
def Node.read? (text : List Char) : Option Node :=
  ((tokens? text).bind Composer.root?).map (·.1)

/-- Read a text that is one document, the aliases of which do not make it far greater than it is. -/
def Node.readAll? (text : List Char) : Option Node := do
  let (node, composer) ← (tokens? text).bind Composer.root?
  if composer.references ≤ composer.size * Composer.referenceLimit then some node else none

end ApiGateway.Yaml
