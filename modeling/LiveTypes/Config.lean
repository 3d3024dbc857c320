import LiveTypes.Diagnostic.Severity

/-!
# Engine configuration
-/
namespace LiveTypes

/-- What a host can set about a type system: `EngineConfig`. -/
structure Config where
  /-- The largest number of hops that the resolution of one selector may take. -/
  maxDepth : Nat := 64
  /-- The severity of relation problems that name none. -/
  severity : Severity := .error
deriving DecidableEq

namespace Config

def describe (c : Config) : String :=
  "EngineConfig \x7b max_selector_depth: " ++ toString c.maxDepth ++ ", default_severity: " ++
    c.severity.describe ++ " \x7d"

end Config
end LiveTypes
