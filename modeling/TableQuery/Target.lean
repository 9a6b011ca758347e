import TableQuery.Text.Split

/-!
# Request targets

A request names what it asks for by a path and a query. Either the target begins with the path, or
a scheme and an authority come before it, as in `http://host:80/path?query`; these two have no
influence on the answer, and a path that is empty after them is `/`. Any other target, such as `*`
or `host:80`, has no path that begins with `/`. A fragment is never part of what is asked for.
-/

namespace TableQuery

/-- What a request asks for: the undecoded path and the query, empty when there is none. -/
structure Target where
  path : List Char
  query : String
  deriving DecidableEq

namespace Target

/-- The characters of a scheme: letters, digits and four marks. -/
def isSchemeChar (c : Char) : Bool :=
  c.isAlphanum || c == '+' || c == '-' || c == '.' || c == '~'

/-- Whether a character can stand in an authority, which the path, the query or the fragment
ends. -/
def isAuthorityChar (c : Char) : Bool := c != '/' && c != '?' && c != '#'

/-- A text that begins with `/`, which is put before one that does not. -/
def rooted : List Char → List Char
  | '/' :: rest => '/' :: rest
  | text => '/' :: text

/-- The part of a target after its scheme and its authority, when it names them. -/
def dropOrigin (target : List Char) : List Char :=
  match target.dropWhile isSchemeChar with
  | ':' :: '/' :: '/' :: rest => rooted (rest.dropWhile isAuthorityChar)
  | _ => target

/-- The path and the query of a target; the fragment is dropped. -/
def ofText (text : String) : Target :=
  let target := (dropOrigin text.toList).takeWhile (· ≠ '#')
  match Text.cut '?' target with
  | some (path, query) => ⟨path, String.ofList query⟩
  | none => ⟨target, ""⟩

end Target

end TableQuery
