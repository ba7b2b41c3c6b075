import ApiGateway.Text.Scan

/-!
# The route index

A compressed tree of path texts.  In a template a colon starts a parameter, which stands for one
segment, and an asterisk a remainder, which stands for all that follows; each reaches to the next
slash.  Text at a node decides before a parameter does; a search that fails below a text comes back
to the parameter, unless the failure was one of a trailing slash, which ends the search.
-/

namespace ApiGateway.Route

/-- What a complete template leaves at its node: its value and the names of its parameters. -/
structure Leaf (α : Type) where
  names : List (List Char)
  value : α

mutual

/-- A node: the text leading to it, what ends here, the texts below, and the wildcard below. -/
inductive Tree (α : Type) where
  | node (label : List Char) (leaf : Option (Leaf α)) (branches : Branches α) (wild : Wild α)

/-- Subtrees, each under the first character of its text. -/
inductive Branches (α : Type) where
  | nil
  | cons (first : Char) (child : Tree α) (rest : Branches α)

/-- No wildcard, a parameter that may end here, one that goes on, or a remainder. -/
inductive Wild (α : Type) where
  | none
  | segment (leaf : Option (Leaf α))
  | through (leaf : Option (Leaf α)) (next : Tree α)
  | remainder (leaf : Leaf α)

end

/-- Why a template cannot be added. -/
inductive Refusal where
  /-- Another template ends here, or another kind of wildcard stands here. -/
  | conflict
  /-- A segment has two wildcards. -/
  | crowdedSegment
  /-- A wildcard has no name. -/
  | unnamedParameter
  /-- A remainder does not stand alone at the end. -/
  | misplacedRemainder
  /-- There are more parameters than the index can tell apart. -/
  | tooManyParameters
  deriving DecidableEq, Repr

/-- The text of a refusal; a conflict is settled by the table and has none of its own. -/
def Refusal.message : Refusal → String
  | .conflict => "insertion failed due to conflict with a registered route"
  | .crowdedSegment => "only one parameter is allowed per path segment"
  | .unnamedParameter => "parameters must be registered with a name"
  | .misplacedRemainder => "catch-all parameters are only allowed at the end of a route"
  | .tooManyParameters => "too many route parameters"

/-- Characters that start a wildcard. -/
def isWild (c : Char) : Bool :=
  c == ':' || c == '*'

/-! ## Templates as the index reads them -/

/-- A segment up to its end, and the rest of the text, which is empty or starts with a slash. -/
def segmentEnd (text : List Char) : List Char × List Char :=
  (text.takeWhile (· != '/'), text.dropWhile (· != '/'))

theorem segmentEnd_append (text : List Char) : (segmentEnd text).1 ++ (segmentEnd text).2 = text := by
  simp [segmentEnd, List.takeWhile_append_dropWhile]

theorem segmentEnd_length (text : List Char) : (segmentEnd text).2.length ≤ text.length := by
  simpa [segmentEnd] using (List.dropWhile_suffix (l := text) (· != '/')).length_le

/-- The first wildcard: the text before it, its mark, its name, and the text after it. -/
def firstWild? : List Char → Option (List Char × Char × List Char × List Char)
  | [] => none
  | c :: text =>
    if isWild c then some ([], c, segmentEnd text)
    else (firstWild? text).map fun (before, rest) => (c :: before, rest)

theorem firstWild?_length {text before name after : List Char} {mark : Char}
    (hfound : firstWild? text = some (before, mark, name, after)) : after.length < text.length := by
  induction text generalizing before with
  | nil => simp [firstWild?] at hfound
  | cons c text ih =>
    simp only [firstWild?] at hfound
    split at hfound
    · simp only [Option.some.injEq, Prod.mk.injEq] at hfound
      have := segmentEnd_length text
      rw [hfound.2.2] at this
      simp only at this
      simp only [List.length_cons]
      omega
    · simp only [Option.map_eq_some_iff] at hfound
      obtain ⟨⟨b, rest⟩, hinner, heq⟩ := hfound
      simp only [Prod.mk.injEq] at heq
      obtain ⟨rfl, rfl⟩ := heq
      have := ih hinner
      simp only [List.length_cons]
      omega

/-- How many parameters one template may have. -/
def parameterLimit : Nat := 25

/-- The parameter names of a template from the left, or the first fault of its wildcards. -/
def parameterNames (text : List Char) (count : Nat) : Except Refusal (List (List Char)) :=
  match found : firstWild? text with
  | none => .ok []
  | some (_, mark, name, after) =>
    if name.any isWild then .error .crowdedSegment
    else if name = [] then .error .unnamedParameter
    else if mark = ':' then
      if count < parameterLimit then (parameterNames after (count + 1)).map (name :: ·)
      else .error .tooManyParameters
    else (parameterNames after count).map (name :: ·)
termination_by text.length
decreasing_by all_goals exact firstWild?_length found

/-! ## Insertion -/

/-- A tree and why the template was not added to it, if it was not. -/
abbrev Grown (α : Type) := Tree α × Option Refusal

/-- The node that stands for a template text with nothing below yet.  A text with wildcards keeps
the leaf `old` at its own beginning; a refused remainder leaves an empty node. -/
def plant (leaf : Leaf α) (old : Option (Leaf α)) (route text : List Char) : Grown α :=
  match _found : firstWild? text with
  | none => (.node text (some leaf) .nil .none, none)
  | some (before, mark, _, after) =>
    if mark = ':' then
      if after = [] then (.node before old .nil (.segment (some leaf)), none)
      else
        let (next, refusal) := plant leaf none route after
        (.node before old .nil (.through none next), refusal)
    else if after = [] ∧ (before = [] ∨ before.getLast? = some '/') ∧
        ¬ (text = route ∧ route.head? ≠ some '/') then
      (.node before old .nil (.remainder leaf), none)
    else (.node [] old .nil .none, some .misplacedRemainder)
termination_by text.length
decreasing_by exact firstWild?_length _found

/-- Hang a wildcard below a node that has none; the text starts with its mark. -/
def hang (leaf : Leaf α) (route text : List Char) : Wild α × Option Refusal :=
  match firstWild? text with
  | none => (.none, none)
  | some (_, mark, _, after) =>
    if mark = ':' then
      if after = [] then (.segment (some leaf), none)
      else
        let (next, refusal) := plant leaf none route after
        (.through none next, refusal)
    else if after = [] ∧ ¬ (text = route ∧ route.head? ≠ some '/') then (.remainder leaf, none)
    else (.none, some .misplacedRemainder)

/-- The common beginning of two texts, and what is left of each. -/
def shared : List Char → List Char → List Char × List Char × List Char
  | a :: left, b :: right =>
    if a = b then
      let (common, l, r) := shared left right
      (a :: common, l, r)
    else ([], a :: left, b :: right)
  | left, right => ([], left, right)

theorem shared_left (left right : List Char) :
    (shared left right).1 ++ (shared left right).2.1 = left := by
  fun_induction shared left right with
  | case1 b left right common l r hshared ih => simpa [hshared] using ih
  | case2 => simp
  | case3 => simp

theorem shared_right (left right : List Char) :
    (shared left right).1 ++ (shared left right).2.2 = right := by
  fun_induction shared left right with
  | case1 b left right common l r hshared ih => simpa [hshared] using ih
  | case2 => simp
  | case3 => simp

/-- Add a subtree under a first character. -/
def Branches.push (first : Char) (child : Tree α) : Branches α → Branches α
  | .nil => .cons first child .nil
  | .cons other tree rest => .cons other tree (rest.push first child)

mutual

/-- Add a template below a node; the text is what is left of it there. -/
def Tree.graft (leaf : Leaf α) (route : List Char) : Tree α → List Char → Grown α
  | .node label old branches wild, text =>
    match shared label text with
    | (common, c :: label, []) =>
      (.node common (some leaf) (.cons c (.node (c :: label) old branches wild) .nil) .none, none)
    | (common, c :: label, d :: text) =>
      let below := Branches.cons c (.node (c :: label) old branches wild) .nil
      if isWild d then
        let (wild, refusal) := hang leaf route (d :: text)
        (.node common none below wild, refusal)
      else
        let (child, refusal) := plant leaf none route (d :: text)
        (.node common none (below.push d child) .none, refusal)
    | (_, [], []) =>
      match old with
      | some _ => (.node label old branches wild, some .conflict)
      | none => (.node label (some leaf) branches wild, none)
    | (_, [], d :: text) =>
      match branches.graft? leaf route (d :: text) with
      | some (branches, refusal) => (.node label old branches wild, refusal)
      | none =>
        if isWild d then
          let (wild, refusal) := wild.graft leaf route (d :: text)
          (.node label old branches wild, refusal)
        else
          let (child, refusal) := plant leaf none route (d :: text)
          (.node label old (branches.push d child) wild, refusal)

/-- Add a template to the subtree under its first character, if there is one. -/
def Branches.graft? (leaf : Leaf α) (route : List Char) :
    Branches α → List Char → Option (Branches α × Option Refusal)
  | .nil, _ => none
  | .cons first child rest, text =>
    if text.head? = some first then
      let (child, refusal) := child.graft leaf route text
      some (.cons first child rest, refusal)
    else (rest.graft? leaf route text).map fun (rest, refusal) => (.cons first child rest, refusal)

/-- Add a template whose text starts with a wildcard mark. -/
def Wild.graft (leaf : Leaf α) (route : List Char) : Wild α → List Char → Wild α × Option Refusal
  | .none, text => hang leaf route text
  | .remainder last, _ => (.remainder last, some .conflict)
  | .segment old, text =>
    match firstWild? text with
    | some (_, ':', _, []) =>
      match old with
      | some _ => (.segment old, some .conflict)
      | none => (.segment (some leaf), none)
    | some (_, ':', _, after) =>
      let (next, refusal) := plant leaf none route after
      (.through old next, refusal)
    | _ => (.segment old, some .conflict)
  | .through old next, text =>
    match firstWild? text with
    | some (_, ':', _, []) =>
      match old with
      | some _ => (.through old next, some .conflict)
      | none => (.through (some leaf) next, none)
    | some (_, ':', _, after) =>
      let (next, refusal) := next.graft leaf route after
      (.through old next, refusal)
    | _ => (.through old next, some .conflict)

end

namespace Tree

def empty : Tree α :=
  .node [] none .nil .none

/-- Add a template with a value.  A tree whose root has no text and nothing below is still open:
the first template becomes its root. -/
def insert (tree : Tree α) (route : List Char) (value : α) : Grown α :=
  match parameterNames route 0 with
  | .error refusal => (tree, some refusal)
  | .ok names =>
    match tree with
    | .node [] old .nil .none => plant ⟨names, value⟩ old route route
    | tree => tree.graft ⟨names, value⟩ route route

end Tree

/-! ## Search -/

/-- How a search ends: at a leaf with the wildcard texts passed, without a result so that an earlier
choice may still be revised, or for good. -/
inductive Search (α : Type) where
  | found (leaf : Leaf α) (texts : List (List Char))
  | missed
  | stopped

namespace Search

/-- Put the text of an earlier wildcard in front. -/
def passing (text : List Char) : Search α → Search α
  | .found leaf texts => .found leaf (text :: texts)
  | .missed => .missed
  | .stopped => .stopped

/-- Fail; a path that is down to one slash is not searched for elsewhere. -/
def fail (path : List Char) : Search α :=
  if path = ['/'] then .stopped else .missed

/-- Use the leaf, or end without one. -/
def ofLeaf (leaf : Option (Leaf α)) (texts : List (List Char)) (otherwise : Search α) : Search α :=
  match leaf with
  | some leaf => .found leaf texts
  | none => otherwise

end Search

/-- The tree would accept one more slash here: it is a single slash that ends a template, or an empty
text with a single branch, at a slash. -/
def Tree.wantsSlash : Tree α → Bool
  | .node ['/'] (some _) _ _ => true
  | .node [] _ (.cons '/' _ .nil) _ => true
  | _ => false

/-- There is no wildcard. -/
def Wild.isNone : Wild α → Bool
  | .none => true
  | _ => false

mutual

def Tree.search : Tree α → List Char → Search α
  | .node label leaf branches wild, path =>
    match Text.strip? label path with
    | some [] => .ofLeaf leaf [] (.fail path)
    | some (c :: rest) =>
      match branches.search? (c :: rest) with
      | none => wild.search (c :: rest)
      | some .missed => if wild.isNone then .missed else wild.search (c :: rest)
      | some result => result
    | none => if label = path ++ ['/'] ∧ leaf.isSome then .stopped else .fail path

/-- Search below the first character of the path, if there is a branch for it. -/
def Branches.search? : Branches α → List Char → Option (Search α)
  | .nil, _ => none
  | .cons first child rest, path =>
    if path.head? = some first then some (child.search path) else rest.search? path

def Wild.search : Wild α → List Char → Search α
  | .none, path => .fail path
  | .remainder leaf, path => .found leaf [path]
  | .segment leaf, path =>
    match segmentEnd path with
    | (_, []) => .ofLeaf leaf [path] .stopped
    | (_, rest) => if rest = ['/'] then .stopped else .missed
  | .through leaf next, path =>
    match segmentEnd path with
    | (_, []) => .ofLeaf leaf [path] (if next.wantsSlash then .stopped else .missed)
    | (text, rest) => (next.search rest).passing text

end

/-- The value a path leads to, with the named wildcard texts in order. -/
def Tree.find? (tree : Tree α) (path : List Char) : Option (α × List (List Char × List Char)) :=
  match tree.search path with
  | .found leaf texts => some (leaf.value, leaf.names.zip texts)
  | _ => none

end ApiGateway.Route
