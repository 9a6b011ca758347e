import TableQuery.Engine
import TableQuery.Target

/-!
# Requests over HTTP

Three paths lead to the engine: `/table` lists a table, `/table/id` gives one row, and
`/table/id/child` lists the rows of a child table. The segments are cut before their percent
encoding is decoded. Every answer of the engine has a JSON body, and a listing reports the size of
its page in the configured header. A path that leads nowhere gets a bare 404; a target whose path
does not even begin with `/` gets one that reports its size.
-/

namespace TableQuery.Http

/-- What a path asks for. -/
inductive Route where
  | list (table : String)
  | one (table id : String)
  | nested (parent id child : String)
  deriving DecidableEq

/-- A response. The names of its headers are in lower case. -/
structure Response where
  status : Nat
  headers : List (String × String)
  body : String
  deriving DecidableEq

namespace Response

/-- The value of a header. -/
def header? (response : Response) (name : String) : Option String :=
  (Header.name? name).bind fun name => response.headers.lookup name

/-- The size of a text in bytes, in decimal. -/
def sizeText (body : String) : String :=
  String.ofList (Decimal.writeNat (Text.utf8Bytes body.toList).length)

/-- A response whose size is reported unless it already has that header. The first header of a name
is the one that counts. -/
def sized (status : Nat) (headers : List (String × String)) (body : String) : Response :=
  ⟨status, headers ++ [("content-length", sizeText body)], body⟩

/-- The response to a path that leads nowhere: it has no body, and reports no size when the path
begins with `/`. -/
def unrouted (path : List Char) : Response :=
  if path.head? = some '/' then ⟨404, [], ""⟩ else sized 404 [] ""

/-- The response to a method that a known path does not answer to. -/
def wrongMethod : Response := sized 405 [("allow", "GET,HEAD")] ""

/-- A response with a JSON body; the given headers come before the type of the body. -/
def json (status : Nat) (headers : List (String × String)) (value : Json) : Response :=
  sized status (headers ++ [("content-type", "application/json")]) value.text

/-- The response to a failed request. -/
def ofFailure (failure : Failure) : Response :=
  json failure.status [] (.obj [("error", .str failure.message)])

/-- The response to a path segment whose bytes are no text. -/
def badSegment (name : String) : Response :=
  sized 400 [("content-type", "text/plain; charset=utf-8")]
    ("Invalid URL: Invalid UTF-8 in \x60" ++ name ++ "\x60")

end Response

/-- The named segments of a path that leads to the engine. Only the last segment has to hold
something. -/
def namedSegments? (path : List Char) : Option (List (String × List Char)) :=
  match path with
  | '/' :: rest =>
    let segments := rest.splitOn '/'
    if segments.getLast? = some [] then none
    else
      match segments with
      | [table] => some [("table", table)]
      | [table, id] => some [("table", table), ("id", id)]
      | [table, id, child] => some [("table", table), ("id", id), ("child", child)]
      | _ => none
  | _ => none

/-- Decode the segments of a path in order; the first that is no text is reported by its name. -/
def decodeSegments : List (String × List Char) → Except String (List String)
  | [] => .ok []
  | (name, segment) :: rest =>
    match Text.segmentDecode? segment with
    | none => .error name
    | some text => do
      let texts ← decodeSegments rest
      .ok (text :: texts)

/-- The route of decoded segments. -/
def Route.ofSegments? : List String → Option Route
  | [table] => some (.list table)
  | [table, id] => some (.one table id)
  | [parent, id, child] => some (.nested parent id child)
  | _ => none

/-- The response to a listing. -/
def respondListing (settings : Settings) (listing : Listing) : Response :=
  match Header.count settings.countHeader listing.returned with
  | .error failure => .ofFailure failure
  | .ok header => .json 200 [header] listing.toJson

/-- Follow a route to the response and the questions asked on the way. -/
def follow (engine : Engine) (source : RowSource) (params : Params) :
    Route → Response × List Call
  | .list table => listing ((engine.list table params).run source)
  | .nested parent id child => listing ((engine.listNested parent id child params).run source)
  | .one table id =>
    match (engine.getOne table id params).run source with
    | (.ok row, calls) => (.json 200 [] row.toJson, calls)
    | (.error failure, calls) => (.ofFailure failure, calls)
where
  /-- The response to the outcome of a listing. -/
  listing : Except Failure Listing × List Call → Response × List Call
    | (.ok result, calls) => (respondListing engine.settings result, calls)
    | (.error failure, calls) => (.ofFailure failure, calls)

/-- The response to a request, and the questions asked. Known paths answer only to `GET`, and to
`HEAD` with the same response without its body. -/
def serve (engine : Engine) (source : RowSource) (method : String) (target : Target) :
    Response × List Call :=
  match namedSegments? target.path with
  | none => (.unrouted target.path, [])
  | some segments =>
    if method ≠ "GET" ∧ method ≠ "HEAD" then (.wrongMethod, [])
    else
      let (response, calls) :=
        match decodeSegments segments with
        | .error name => (Response.badSegment name, [])
        | .ok texts =>
          match Route.ofSegments? texts with
          | none => (Response.unrouted target.path, [])
          | some route => follow engine source (.ofQuery target.query) route
      (if method = "HEAD" then { response with body := "" } else response, calls)

end TableQuery.Http
