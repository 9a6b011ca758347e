/-!
# Settings

What the operator of an engine configures: the limit of a listing that asks for none, the greatest
limit, and the name of the header that reports the size of a page.
-/

namespace TableQuery

/-- The header that reports the size of a page, unless configured otherwise. -/
def defaultCountHeader : String := "x-total-count"

/-- The configuration of an engine. -/
structure Settings where
  defaultLimit : Option Nat := none
  maxLimit : Option Nat := none
  countHeader : String := defaultCountHeader
  deriving DecidableEq

end TableQuery
