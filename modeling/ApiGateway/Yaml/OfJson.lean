import ApiGateway.Json.Write
import ApiGateway.Yaml.Value

/-!
# Nodes of JSON values

Each value is written as a node: texts in quotes, all else plain.
-/

namespace ApiGateway.Yaml

mutual

def Node.ofJson : Json → Node
  | .string text => .quoted text
  | .array items => .sequence none (ofItems items)
  | .object members => .mapping none (ofMembers members)
  | value => .plain value.write

def Node.ofItems : List Json → List Node
  | [] => []
  | item :: items => .ofJson item :: Node.ofItems items

def Node.ofMembers : List (String × Json) → List (Node × Node)
  | [] => []
  | (name, value) :: members => (.quoted name, .ofJson value) :: Node.ofMembers members

end

end ApiGateway.Yaml
