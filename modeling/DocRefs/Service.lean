import DocRefs.Input.Json.Encoding
import DocRefs.Input.Json.Parser
import DocRefs.Service.Response
import DocRefs.Workspace

/-!
# The HTTP service

Requests over HTTP: the health of the service, and the same questions about documents that the workspace answers. All
requests share one workspace, which is the one that the service is given, or else one that is made on first use.
-/

namespace DocRefs

/-- A request: method, address, and the bytes of the body. -/
structure HttpRequest where
  method : String
  url : String
  body : List UInt8

/-- Why a request has no response. -/
inductive ServiceError
  | settings (e : SettingsError)
  | request (e : RequestError)
  | sending (e : SendingError)

/-- The questions that can be asked. -/
inductive Endpoint
  | health
  | readiness
  | lint
  | references
  | links
  | complete
deriving Repr, DecidableEq

namespace Endpoint

/-- The paths of the service, each with its method. -/
def routes : List (String × String × Endpoint) :=
  [("/health", "GET", .health), ("/healthz/live", "GET", .health), ("/healthz/ready", "GET", .readiness),
    ("/lint", "POST", .lint), ("/references", "POST", .references), ("/links", "POST", .links),
    ("/complete", "POST", .complete)]

/-- The paths at which the service describes itself. The descriptions are no part of this library, but no other method
than reading is allowed there. -/
def descriptions : List String :=
  ["/docs", "/docs/oauth2-redirect", "/redoc", "/openapi.json"]

/-- The methods that read. -/
def readingMethods : List String :=
  ["GET", "HEAD"]

/-- An address with its ASCII characters in place of their percent codes. -/
def decodePercent : List Char → List Char
  | '%' :: a :: b :: rest =>
    match (Hex.pair? a b).filter (· < 128) with
    | some n => Char.ofNat n :: decodePercent rest
    | none => '%' :: decodePercent (a :: b :: rest)
  | c :: rest => c :: decodePercent rest
  | [] => []

/-- The path of an address: without query and fragment, decoded, and without slashes at its end. -/
def pathOf (url : String) : String :=
  let path := decodePercent (url.toList.takeWhile fun c => c != '?' && c != '#')
  String.ofList (path.reverse.dropWhile (· == '/')).reverse

/-- The response to a path that is not known. -/
def notFound : HttpResponse :=
  ⟨404, .detail "Not Found"⟩

/-- The response to a method that a path does not allow. -/
def notAllowed : HttpResponse :=
  ⟨405, .detail "Method Not Allowed"⟩

/-- The endpoint of a request, or the response that there is none. -/
def find (method url : String) : Except HttpResponse Endpoint :=
  let path := pathOf url
  match routes.find? (·.1 = path) with
  | some (_, m, endpoint) => if m = method then .ok endpoint else .error notAllowed
  | none =>
    .error (if descriptions.contains path && !readingMethods.contains method then notAllowed else notFound)

end Endpoint

/-- A document that a request names, by path and perhaps by text. -/
structure DocumentRequest where
  path : String
  text : Option String

/-- The workspace that requests share: none yet, the given one, or one made on first use. -/
inductive SharedWorkspace
  | none
  | given
  | own (w : Workspace Disk)

/-- The service: the workspace at hand, and the one that its requests share. -/
structure Service (σ : Type) where
  workspace : Workspace σ
  shared : SharedWorkspace

namespace Service

/-- Checks the document of a request. -/
def documentRequest (v : Value) : Checked DocumentRequest :=
  match v with
  | .object _ =>
    (Checked.both (Checked.required "path" Checked.text v)
      (Checked.optional "text" none (Checked.nullable Checked.text) v)).map fun (path, text) => ⟨path, text⟩
  | _ => Checked.refuse .modelAttributesType

/-- Checks the document and the position of a request. -/
def completionRequest (v : Value) : Checked (DocumentRequest × Position) :=
  match v with
  | .object _ =>
    (Checked.both (documentRequest v)
      (Checked.both (Checked.required "line" Checked.natural v) (Checked.required "character" Checked.natural v))).map
      fun (document, line, character) => (document, ⟨line, character⟩)
  | _ => Checked.refuse .modelAttributesType

/-- The response to a request that is at fault. -/
def refused (faults : List Fault) (body : Value) : HttpResponse :=
  ⟨422, .faults faults body⟩

/-- The response to a body that cannot be read. -/
def unparsed : HttpResponse :=
  ⟨400, .detail "There was an error parsing the body"⟩

/-- The body of a request as a value, absent when it is empty, or the response to one that is not JSON. -/
def bodyValue (body : List UInt8) : Except HttpResponse (Option Value) :=
  if body.isEmpty then .ok none
  else
    match (Json.decode? body).map Json.read with
    | some (.ok v) => .ok (some v)
    | some (.error (.unexpected offset)) =>
      .error (refused [⟨[.field "body", .index offset], .jsonInvalid⟩] .null)
    | _ => .error unparsed

/-- Checks the body of a request, which has to be there. -/
def checkBody {α : Type} (check : Value → Checked α) (body : Option Value) : Checked α :=
  Checked.under (.field "body") (match body with
    | none => Checked.refuse .missing
    | some v => check v)

/-- The response to a document that cannot be read. -/
def unreadable (path : String) : ReadError → HttpResponse
  | .file ⟨.notFound, _⟩ => ⟨404, .detail s!"Document not found: {path}"⟩
  | e => ⟨400, .detail s!"Cannot read {path}: {e.message}"⟩

variable {σ : Type} [FileSystem σ]

/-- Answers a question about a document, once the document is opened. -/
def answerDocument {α : Type} (w : Workspace σ) (disk : Disk) (request : DocumentRequest)
    (ask : Document → Except RequestError (Answer σ α)) (body : Document → α → HttpBody) :
    Except ServiceError (Answer σ HttpResponse) :=
  match Document.load disk request.path request.text with
  | .error e => .ok ⟨unreadable request.path e, w, []⟩
  | .ok document =>
    match ask document with
    | .error e => .error (.request e)
    | .ok a => .ok ⟨⟨200, body document a.value⟩, a.workspace, a.log⟩

/-- Whether the root directory that is set is still there. -/
def readiness (w : Workspace σ) : Except ServiceError (Answer σ HttpResponse) :=
  match w.rootOverride with
  | .error e => .error (.request (.noHome e))
  | .ok none => .ok ⟨⟨200, .readiness "ok" none⟩, w, []⟩
  | .ok (some dir) =>
    let (present, fs) := FileSystem.pathExists w.fs dir
    let response := if present then ⟨200, .readiness "ok" (some dir)⟩ else ⟨503, .readiness "degraded" (some dir)⟩
    .ok ⟨response, { w with fs }, []⟩

/-- Answers a request whose endpoint is known over a workspace. -/
def answer (w : Workspace σ) (disk : Disk) (endpoint : Endpoint) (body : Option Value) :
    Except ServiceError (Answer σ HttpResponse) :=
  let withDocument (f : DocumentRequest → Except ServiceError (Answer σ HttpResponse)) :=
    match checkBody documentRequest body with
    | .error faults => .ok ⟨refused faults (body.getD .null), w, []⟩
    | .ok request => f request
  match endpoint with
  | .health => .ok ⟨⟨200, .health "ok"⟩, w, []⟩
  | .readiness => readiness w
  | .lint => withDocument fun r => answerDocument w disk r w.lint fun d items => .diagnostics d.path items
  | .references => withDocument fun r => answerDocument w disk r w.resolve fun d items => .references d.path items
  | .links => withDocument fun r => answerDocument w disk r w.links fun d items => .links d.path items
  | .complete =>
    match checkBody completionRequest body with
    | .error faults => .ok ⟨refused faults (body.getD .null), w, []⟩
    | .ok (r, position) =>
      answerDocument w disk r (fun d => w.complete d position .never) fun _ items => .candidates items

/-- The workspace that requests share, made from the environment and the disk if there is none. -/
def withShared (s : Service σ) (disk : Disk) : Except ServiceError (Service σ) :=
  match s.shared with
  | .none =>
    match Settings.load s.workspace.env disk [] with
    | .error e => .error (.settings e)
    | .ok settings => .ok { s with shared := .own (.new disk s.workspace.env settings) }
  | _ => .ok s

/-- Answers over the shared workspace. -/
def answerShared (s : Service σ) (disk : Disk) (endpoint : Endpoint) (body : Option Value) :
    Except ServiceError (HttpResponse × Service σ × List LogEvent) :=
  match s.shared with
  | .own w =>
    (answer { w with fs := disk } disk endpoint body).map fun a =>
    (a.value, { s with shared := .own a.workspace }, a.log)
  | _ => (answer s.workspace disk endpoint body).map fun a => (a.value, { s with workspace := a.workspace }, a.log)

/-- What becomes of a request: a response or none, the service afterwards, and what was reported on the way. -/
structure Outcome (σ : Type) where
  response : Except ServiceError HttpResponse
  service : Service σ
  log : List LogEvent := []

/-- Responds to a request. -/
def respond (s : Service σ) (disk : Disk) (r : HttpRequest) : Outcome σ :=
  match Endpoint.find r.method r.url with
  | .error response => ⟨.ok response, s, []⟩
  | .ok .health => ⟨.ok ⟨200, .health "ok"⟩, s, []⟩
  | .ok endpoint =>
    let body := if endpoint = .readiness then .ok none else bodyValue r.body
    match body with
    | .error response => ⟨.ok response, s, []⟩
    | .ok body =>
      match s.withShared disk with
      | .error e => ⟨.error e, s, []⟩
      | .ok s =>
        match s.answerShared disk endpoint body with
        | .error e => ⟨.error e, s, []⟩
        | .ok (response, s, log) => ⟨response.sent.mapError .sending, s, log⟩

/-- Ends the service: the shared workspace is closed and forgotten. -/
def shutdown (s : Service σ) : Service σ :=
  match s.shared with
  | .given => { workspace := s.workspace.close, shared := .none }
  | _ => { s with shared := .none }

end Service

end DocRefs
