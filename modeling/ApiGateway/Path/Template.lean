import ApiGateway.Text.Scan

/-!
# Path templates

A template is literal text with parts in braces.  A part reaches from an opening brace to the next
closing one; an opening brace that is never closed is literal.  Three views of the pieces are used:
the key, in which all variable names are forgotten, the text for the route index, in which they are
numbered from the left, and the list of the names.
-/

namespace ApiGateway.Path

inductive Piece where
  | literal (char : Char)
  | named (name : List Char)
  deriving DecidableEq, Repr

namespace Template

/-- The pieces of a template, left to right. -/
def pieces (text : List Char) : List Piece :=
  match text with
  | [] => []
  | c :: rest =>
    if c = '{' then
      match _found : Text.cut? '}' rest with
      | some (name, after) => .named name :: pieces after
      | none => .literal c :: pieces rest
    else .literal c :: pieces rest
termination_by text.length
decreasing_by
  all_goals simp only [List.length_cons]
  · have := Text.cut?_length _found; omega
  all_goals omega

/-- The texts of the pieces, the variables rendered by `render` with their position. -/
def renderFrom (render : Nat → List Char → List Char) (position : Nat) : List Piece → List Char
  | [] => []
  | .literal c :: rest => c :: renderFrom render position rest
  | .named name :: rest => render position name ++ renderFrom render (position + 1) rest

/-- The template with its names forgotten: templates with one key are one external path. -/
def key (text : List Char) : List Char :=
  renderFrom (fun _ _ => ['{', '}']) 0 (pieces text)

/-- The name of the variable at a position in the index. -/
def indexName (position : Nat) : List Char :=
  'p' :: (Nat.repr position).toList

/-- The template as the route index reads it. -/
def indexText (text : List Char) : List Char :=
  renderFrom (fun position _ => ':' :: indexName position) 0 (pieces text)

/-- The name of a variable piece. -/
def name? : Piece → Option (List Char)
  | .literal _ => none
  | .named name => some name

/-- The variable names, in template order. -/
def names (text : List Char) : List (List Char) :=
  (pieces text).filterMap name?

/-- The template itself: the pieces with their names put back. -/
def text : List Piece → List Char
  | [] => []
  | .literal c :: rest => c :: text rest
  | .named name :: rest => '{' :: name ++ '}' :: text rest

/-- Nothing of a template is lost in its pieces. -/
theorem text_pieces (source : List Char) : text (pieces source) = source := by
  fun_induction pieces source with
  | case1 => rfl
  | case2 rest name after hfound ih =>
    rw [Text.cut?_eq_some_iff] at hfound
    simp [text, ih, hfound.2]
  | case3 rest hfound ih => simp [text, ih]
  | case4 c rest hother ih => simp [text, ih]

end Template

end ApiGateway.Path
