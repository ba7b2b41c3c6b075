import ApiGateway.Failure
import ApiGateway.Text.Scan

/-!
# Path patterns

A pattern is read into tokens, each of which stands for certain texts; a path matches if it can be cut
into texts of the tokens in order.  `Token.Accepts` says which texts a token stands for, `Token.rests`
computes what can be left of a path behind one.
-/

namespace ApiGateway.Path

namespace Pattern

inductive Token where
  /-- Nothing, or a slash and any text. -/
  | below
  /-- Any text. -/
  | anything
  /-- Any text inside a segment. -/
  | within
  /-- One character inside a segment. -/
  | one
  /-- A segment that is not empty. -/
  | segment
  | literal (char : Char)
  deriving DecidableEq, Repr

inductive Problem where
  | noLeadingSlash (pattern : String)
  | unclosedBrace (pattern : String)
  deriving DecidableEq, Repr

def Problem.message : Problem → String
  | .noLeadingSlash pattern => "Path pattern '" ++ pattern ++ "' must start with '/'"
  | .unclosedBrace pattern => "Unclosed '\x7b' in path pattern '" ++ pattern ++ "'"

def Problem.failure (problem : Problem) : Failure :=
  .configuration problem.message

/-- The tokens of a pattern, unless a brace is not closed. -/
def tokens? (pattern : List Char) : Option (List Token) :=
  match pattern with
  | [] => some []
  | '/' :: '*' :: '*' :: rest => (tokens? rest).map (.below :: ·)
  | '*' :: '*' :: rest => (tokens? rest).map (.anything :: ·)
  | '*' :: rest => (tokens? rest).map (.within :: ·)
  | '?' :: rest => (tokens? rest).map (.one :: ·)
  | c :: rest =>
    if c = '\x7b' then
      match _closed : Text.cut? '\x7d' rest with
      | some (_, after) => (tokens? after).map (.segment :: ·)
      | none => none
    else (tokens? rest).map (.literal c :: ·)
termination_by pattern.length
decreasing_by
  all_goals simp only [List.length_cons]
  · omega
  · omega
  · omega
  · omega
  · have := Text.cut?_length _closed; omega
  · omega

def parse (pattern : String) : Except Problem (List Token) :=
  if pattern.toList.head? = some '/' then
    match tokens? pattern.toList with
    | some tokens => .ok tokens
    | none => .error (.unclosedBrace pattern)
  else .error (.noLeadingSlash pattern)

/-- What can be left of a text once characters that `keep` holds for are taken off its beginning. -/
def dropSome (keep : Char → Bool) : List Char → List (List Char)
  | [] => [[]]
  | c :: text => (c :: text) :: (if keep c then dropSome keep text else [])

theorem mem_dropSome {keep : Char → Bool} {text rest : List Char} :
    rest ∈ dropSome keep text ↔ ∃ part, text = part ++ rest ∧ ∀ c ∈ part, keep c = true := by
  induction text with
  | nil =>
    simp only [dropSome, List.mem_singleton]
    constructor
    · rintro rfl
      exact ⟨[], rfl, by simp⟩
    · rintro ⟨part, hwhole, _⟩
      exact (List.append_eq_nil_iff.1 hwhole.symm).2
  | cons c text ih =>
    constructor
    · intro hinside
      simp only [dropSome, List.mem_cons] at hinside
      rcases hinside with rfl | hinside
      · exact ⟨[], by simp⟩
      · split at hinside
        · next hkept =>
          obtain ⟨part, rfl, hall⟩ := ih.1 hinside
          exact ⟨c :: part, rfl, fun d hinside => by
            rcases List.mem_cons.1 hinside with rfl | hinside
            · exact hkept
            · exact hall d hinside⟩
        · simp at hinside
    · rintro ⟨part, hwhole, hall⟩
      cases part with
      | nil => simp only [List.nil_append] at hwhole; simp [dropSome, ← hwhole]
      | cons d part =>
        simp only [List.cons_append, List.cons.injEq] at hwhole
        obtain ⟨rfl, rfl⟩ := hwhole
        have hkept := hall c (by simp)
        have hinner := ih.2 ⟨part, rfl, fun d hinside => hall d (by simp [hinside])⟩
        simp [dropSome, hkept, hinner]

def isPlain (c : Char) : Bool :=
  c != '\n'

def isInside (c : Char) : Bool :=
  c != '/'

namespace Token

/-- The texts a token stands for.  No line feed is passed where slashes may be. -/
def Accepts : Token → List Char → Prop
  | below, text => text = [] ∨ ∃ rest, text = '/' :: rest ∧ ∀ c ∈ rest, isPlain c = true
  | anything, text => ∀ c ∈ text, isPlain c = true
  | within, text => ∀ c ∈ text, isInside c = true
  | one, text => ∃ c, text = [c] ∧ isInside c = true
  | segment, text => text ≠ [] ∧ ∀ c ∈ text, isInside c = true
  | literal c, text => text = [c]

/-- What can be left of a text behind a token. -/
def rests : Token → List Char → List (List Char)
  | below, '/' :: text => ('/' :: text) :: dropSome isPlain text
  | below, text => [text]
  | anything, text => dropSome isPlain text
  | within, text => dropSome isInside text
  | one, c :: text => if isInside c then [text] else []
  | segment, c :: text => if isInside c then dropSome isInside text else []
  | literal c, d :: text => if c = d then [text] else []
  | _, [] => []

end Token

/-- The path can be cut into texts of the tokens. -/
inductive Cuts : List Token → List Char → Prop where
  | nil : Cuts [] []
  | cons {token : Token} {tokens : List Token} {text rest : List Char}
      (accepted : token.Accepts text) (cut : Cuts tokens rest) : Cuts (token :: tokens) (text ++ rest)

/-- All that can be left of the texts behind the tokens. -/
def remainders (tokens : List Token) (texts : List (List Char)) : List (List Char) :=
  tokens.foldl (fun texts token => (texts.flatMap token.rests).eraseDups) texts

def accepts (tokens : List Token) (path : List Char) : Bool :=
  (remainders tokens [path]).contains []

end Pattern

/-- Patterns, of which a path has to match one. -/
structure Patterns where
  sources : List String := []
  tokens : List (List Pattern.Token) := []
  deriving DecidableEq, Repr

namespace Patterns

def parse (sources : List String) : Except Pattern.Problem Patterns :=
  (sources.mapM Pattern.parse).map fun tokens => { sources, tokens }

def accept (patterns : Patterns) (path : String) : Bool :=
  patterns.tokens.any (Pattern.accepts · path.toList)

end Patterns

end ApiGateway.Path
