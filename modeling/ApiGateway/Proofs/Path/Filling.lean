import ApiGateway.Proofs.Route.TemplateSymbols

/-!
# Filled templates

A template stands for the paths that come of it when texts are put in the places of its variables.  Text
without an opening brace stands for itself, so a template that is put together of such text and another
template is filled where the other one is.
-/

namespace ApiGateway.Path.Template

/-- The template with texts in the places of its variables, chosen by position and name. -/
def filled (value : Nat → List Char → List Char) (template : List Char) : List Char :=
  renderFrom value 0 (pieces template)

variable (value : Nat → List Char → List Char)

theorem renderFrom_literals (position : Nat) (text : List Char) (rest : List Piece) :
    renderFrom value position (text.map .literal ++ rest) = text ++ renderFrom value position rest := by
  induction text with
  | nil => rfl
  | cons c text ih => exact congrArg (c :: ·) ih

/-- Plain text in front of a template stays in front of it. -/
theorem filled_append {text : List Char} (hplain : '{' ∉ text) (rest : List Char) :
    filled value (text ++ rest) = text ++ filled value rest := by
  unfold filled
  rw [pieces_append rest hplain, renderFrom_literals]

theorem filled_cons_slash (rest : List Char) :
    filled value ('/' :: rest) = '/' :: filled value rest :=
  filled_append value (show '{' ∉ ['/'] by decide) rest

theorem filled_nil : filled value [] = [] := by
  unfold filled
  rw [pieces, renderFrom]

theorem filled_head? {template : List Char} (hhead : template.head? = some '/') :
    (filled value template).head? = some '/' := by
  cases template with
  | nil => cases hhead
  | cons c rest =>
      cases Option.some.inj hhead
      rw [filled_cons_slash]
      rfl

end ApiGateway.Path.Template
