import PatchAudit.Report.Html
import PatchAudit.Report.Record
import PatchAudit.Service.Address
import PatchAudit.Service.Basic

/-!
# Requests and responses

A request is matched by its path, segment by segment, and then by its method.  A path that is not
clean is sent back to the clean one.
-/

namespace PatchAudit

/-- A request as it arrives. -/
structure HttpRequest where
  method : Bytes
  /-- The path with its escapes, and the query after a question mark; or a whole address. -/
  target : Bytes
  body : Bytes := []
  /-- Whether the client has gone away. -/
  cancelled : Bool := false
  deriving DecidableEq, Repr

/-- A response.  An empty type is not sent. -/
structure HttpResponse where
  status : Nat
  contentType : Bytes := []
  body : Bytes := []
  /-- The methods that the path has. -/
  allow : Option Bytes := none
  /-- Where to go instead. -/
  location : Option Bytes := none
  deriving DecidableEq, Repr

namespace HttpResponse

/-- The type of plain texts. -/
def plainType : Bytes := "text/plain; charset=utf-8"

/-- A response of one line of text. -/
def line (status : Nat) (text : Bytes) : HttpResponse where
  status := status
  contentType := plainType
  body := text ++ [0x0A]

/-- A response that is a value. -/
def json (stray : StraySpelling) (status : Nat) (v : JsonValue) : HttpResponse where
  status := status
  contentType := "application/json"
  body := v.page stray

/-- A response that tells an error. -/
def error (stray : StraySpelling) (status : Nat) (message : Bytes) : HttpResponse :=
  json stray status (.object [("error", .string message)])

end HttpResponse

/-- The status that goes with an error. -/
def ServiceError.status : ServiceError → Nat
  | run (.discover (.folderMissing _)) => 404
  | run (.discover (.notFolder _)) => 404
  | run (.discover (.noPatches _ _)) => 404
  | run .cancelled => 503
  | _ => 400

/-- What the service offers. -/
inductive Endpoint where
  | health
  | lint
  | run
  | session
  deriving DecidableEq, Repr

namespace Endpoint

/-- The segments of the path of an endpoint. -/
def segments : Endpoint → List Bytes
  | health => ["health"]
  | lint => ["api", "lint"]
  | run => ["api", "run"]
  | session => ["api", "ws"]

/-- The methods of an endpoint. -/
def methods : Endpoint → List Bytes
  | health => ["GET", "HEAD"]
  | lint => ["POST"]
  | run => ["POST"]
  | session => ["GET", "HEAD"]

/-- All endpoints. -/
def all : List Endpoint := [health, lint, run, session]

/-- The endpoint at a path, escapes in its segments resolved. -/
def at? (path : Bytes) : Option Endpoint :=
  let found := ((path.drop 1).splitOn Path.slash).map Percent.decode
  all.find? fun e => e.segments == found

end Endpoint

namespace HttpRequest

/-- Whether a request asks for a tunnel. -/
def isTunnel (r : HttpRequest) : Bool := r.method == Bytes.ofString "CONNECT"

/-- The address that a request is for.  A tunnel is asked for by a host. -/
def address (r : HttpRequest) : Bytes :=
  if r.isTunnel && !Path.isAbsolute r.target then "http://" ++ r.target else r.target

/-- The path of a request, every byte that needs an escape written as one, and its query. -/
def place (r : HttpRequest) : Bytes × Bytes :=
  let (given, query) := (Address.target? r.address).getD (r.target, [])
  let path := if given.all Percent.isGivenPathByte then given
    else Percent.encodePath (Percent.decode given)
  (path, query)

/-- The path that lexically means the same, a slash at the end kept. -/
def cleanPath (path : Bytes) : Bytes :=
  let rooted := if Path.isAbsolute path then path else Path.slash :: path
  let cleaned := Path.clean rooted
  if rooted.getLast? = some Path.slash ∧ cleaned ≠ [Path.slash] then cleaned ++ [Path.slash]
  else cleaned

/-- A text with every byte outside ASCII written as an escape. -/
def asciiOnly (s : Bytes) : Bytes :=
  s.flatMap fun b => if b < 0x80 then [b] else Percent.mark :: Bytes.hexPadded 2 b.toNat

/-- Sends a request to another path, given with its escapes, with the same query. -/
def redirect (r : HttpRequest) (path query : Bytes) : HttpResponse :=
  let tail : Bytes := if query.isEmpty then [] else 0x3F :: query
  let url := path ++ tail
  let isGet : Bool := r.method == Bytes.ofString "GET"
  let isHead : Bool := r.method == Bytes.ofString "HEAD"
  { status := 307
    contentType := if isGet || isHead then "text/html; charset=utf-8" else []
    body :=
      if isGet then "<a href=\"" ++ Markup.escape url ++ "\">Temporary Redirect</a>.\n\n" else []
    location := some (asciiOnly url) }

end HttpRequest

namespace Service

/-- The response of an endpoint.  A session has to be opened by an upgrade, which plain requests do
not ask for. -/
def serve (s : Service) (d : Disk) (r : HttpRequest) : Endpoint → Disk × HttpResponse
  | .health => (d, .json s.strayBytes 200 (.object [("status", .string "ok")]))
  | .lint =>
    match (JsonValue.first? r.body).bind fun v => LintRequest.ofJson? v.1 with
    | none => (d, .error s.strayBytes 400 ServiceError.malformed.message)
    | some request =>
      match s.lint request with
      | .ok report => (d, .json s.strayBytes 200 report.record.toJson)
      | .error why => (d, .error s.strayBytes why.status why.message)
  | .run =>
    match (JsonValue.first? r.body).bind fun v => FolderRequest.ofJson? v.1 with
    | none => (d, .error s.strayBytes 400 ServiceError.malformed.message)
    | some request =>
      match s.run d r.cancelled request with
      | (d, .ok summary) => (d, .json s.strayBytes 200 summary.record.toJson)
      | (d, .error why) => (d, .error s.strayBytes why.status why.message)
  | .session => (d, .line 400 "Bad Request")

/-- The response to a request at a path. -/
def serveAt (s : Service) (d : Disk) (r : HttpRequest) (path : Bytes) : Disk × HttpResponse :=
  match Endpoint.at? path with
  | none => (d, .line 404 "404 page not found")
  | some e =>
    if e.methods.contains r.method then s.serve d r e
    else
      let refusal := HttpResponse.line 405 "Method Not Allowed"
      (d, { refusal with allow := some (Bytes.join ", " e.methods) })

/-- The response to a request.  Only a tunnel request may have a path that is not clean. -/
def respond (s : Service) (d : Disk) (r : HttpRequest) : Disk × HttpResponse :=
  if r.target = Bytes.ofString "*" then (d, { status := 400 })
  else
    let (path, query) := r.place
    let cleaned := HttpRequest.cleanPath path
    if !r.isTunnel ∧ cleaned ≠ path then (d, r.redirect cleaned query)
    else s.serveAt d r path

end Service

end PatchAudit
