import ApiGateway.Text.Scan
import ApiGateway.Text.Percent

/-!
# Query strings

A query is a list of names and values.  Read, a plus sign is a blank, escapes are resolved and empty
pieces are skipped; written, all but the unreserved characters are escaped.
-/

namespace ApiGateway

abbrev Query := List (String × String)

namespace Query

/-- Read a name or a value. -/
def decodeText (text : List Char) : String :=
  .ofList (Text.ofUtf8 (Text.Percent.decode
    ((Text.utf8 text).map fun byte => if byte = 43 then 32 else byte)))

/-- Read one piece; a piece without an equals sign has an empty value. -/
def decodePiece (piece : List Char) : String × String :=
  match Text.cut? '=' piece with
  | some (name, value) => (decodeText name, decodeText value)
  | none => (decodeText piece, "")

/-- Read a raw query string. -/
def decode (raw : String) : Query :=
  ((Text.splitAll '&' raw.toList).filter (· ≠ [])).map decodePiece

def encodePair (pair : String × String) : List Char :=
  Text.Percent.encode pair.1.toList ++ '=' :: Text.Percent.encode pair.2.toList

def encode (query : Query) : String :=
  .ofList (['&'].intercalate (query.map encodePair))

/-- The values of a name, in order. -/
def values (query : Query) (name : String) : List String :=
  (query.filter (·.1 == name)).map (·.2)

end Query

end ApiGateway
