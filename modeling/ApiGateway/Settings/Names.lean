import ApiGateway.Settings.Basic

/-!
# Names of choices

The names under which settings, and answers about them, refer to policies, strategies and claims.
-/

namespace ApiGateway

/-- The name of a choice in a table that lists every choice. -/
def nameIn [DecidableEq α] (table : List (String × α)) (choice : α) : String :=
  ((table.find? (·.2 = choice)).map (·.1)).getD ""

namespace Route

def CollisionPolicy.names : List (String × CollisionPolicy) :=
  [("reject", .reject), ("replace", .replace)]

def ClaimSource.names : List (String × ClaimSource) :=
  [("principal", .principal), ("authorities", .authorities)]

def InjectionStrategy.names : List (String × InjectionStrategy) :=
  [("replace_always", .replaceAlways), ("replace_if_absent", .replaceIfAbsent),
    ("append_always", .appendAlways), ("append_if_absent", .appendIfAbsent)]

def CollisionPolicy.name (policy : CollisionPolicy) : String := nameIn names policy
def ClaimSource.name (source : ClaimSource) : String := nameIn names source
def InjectionStrategy.name (strategy : InjectionStrategy) : String := nameIn names strategy

theorem CollisionPolicy.lookup_name (policy : CollisionPolicy) : names.lookup policy.name = some policy := by
  cases policy <;> decide

theorem ClaimSource.lookup_name (source : ClaimSource) : names.lookup source.name = some source := by
  cases source <;> decide

theorem InjectionStrategy.lookup_name (strategy : InjectionStrategy) :
    names.lookup strategy.name = some strategy := by
  cases strategy <;> decide

end Route

end ApiGateway
