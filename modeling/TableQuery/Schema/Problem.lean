/-!
# Schema problems

What can be wrong with a registry of tables. Every problem names its table.
-/

namespace TableQuery

/-- A fault of a table or of one of its relationships. -/
inductive Problem where
  | duplicateColumn (table column : String)
  | reservedColumn (table column : String)
  | missingKey (table : String)
  | undeclaredKeyColumn (table column : String)
  | duplicateRelationship (table relationship : String)
  | unknownLocalColumn (table relationship column : String)
  | unknownTarget (table relationship target : String)
  | unknownTargetColumn (table relationship target column : String)
  | differentTypes (table relationship : String)
  deriving DecidableEq

namespace Problem

/-- A problem in words. -/
def message : Problem → String
  | duplicateColumn table column => table ++ ": duplicate column '" ++ column ++ "'"
  | reservedColumn table column =>
    table ++ ": column name '" ++ column ++ "' is reserved for expanded rows"
  | missingKey table => table ++ ": no primary key"
  | undeclaredKeyColumn table column =>
    table ++ ": primary key column '" ++ column ++ "' is not declared"
  | duplicateRelationship table relationship =>
    table ++ ": relationship '" ++ relationship ++ "' declared twice"
  | unknownLocalColumn table relationship column =>
    table ++ ": relationship '" ++ relationship ++ "' uses unknown column '" ++ column ++ "'"
  | unknownTarget table relationship target =>
    table ++ ": relationship '" ++ relationship ++ "' targets unknown table '" ++ target ++ "'"
  | unknownTargetColumn table relationship target column =>
    table ++ ": relationship '" ++ relationship ++ "' targets unknown column '" ++ target ++ "."
      ++ column ++ "'"
  | differentTypes table relationship =>
    table ++ ": relationship '" ++ relationship ++ "' joins columns of different types"

/-- The table that a problem names. -/
def table : Problem → String
  | duplicateColumn table _ | reservedColumn table _ | missingKey table
  | undeclaredKeyColumn table _ | duplicateRelationship table _ | unknownLocalColumn table _ _
  | unknownTarget table _ _ | unknownTargetColumn table _ _ _ | differentTypes table _ => table

end Problem

end TableQuery
