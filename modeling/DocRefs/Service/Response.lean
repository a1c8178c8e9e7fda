import DocRefs.Input.Check
import DocRefs.Input.Json.Printer
import DocRefs.Record

/-!
# Responses

What the service answers over HTTP, as a status and a record. A record is sent as JSON in UTF-8, which can hold neither
a number that is not finite nor an unpaired surrogate; both can only come from the request.
-/

namespace DocRefs

/-- What a response carries. Faults go with the body that they were found in. -/
inductive HttpBody
  | health (status : String)
  | readiness (status : String) (rootDir : Option String)
  | diagnostics (path : String) (items : List Diagnostic)
  | references (path : String) (items : List ResolvedReference)
  | links (path : String) (items : List Link)
  | candidates (items : Option (List Candidate))
  | detail (text : String)
  | faults (faults : List Fault) (body : Value)

/-- A response: status and body. -/
structure HttpResponse where
  status : Nat
  body : HttpBody

/-- Why a response cannot be sent. -/
inductive SendingError
  | notFinite
  | unpaired (r : Surrogate.Refusal)
deriving Repr, DecidableEq

/-- The text of an error. -/
def SendingError.message : SendingError → String
  | notFinite => "Out of range float values are not JSON compliant"
  | unpaired r =>
    if r.length = 1 then
      let code := String.ofList (Hex.digits 4 r.code)
      s!"'utf-8' codec can't encode character '\\u{code}' in position {r.offset}: surrogates not allowed"
    else
      s!"'utf-8' codec can't encode characters in position {r.offset}-{r.offset + r.length - 1}: surrogates not allowed"

/-- Whether a number is finite. -/
def Binary64.isFinite : Binary64 → Bool
  | finite .. => true
  | _ => false

namespace Value

mutual

/-- Whether all numbers in a value are finite. -/
def isFinite : Value → Bool
  | number x => x.isFinite
  | list items => areFinite items
  | object fields => fieldsAreFinite fields
  | _ => true

/-- Whether all numbers in values are finite. -/
def areFinite : List Value → Bool
  | [] => true
  | v :: vs => v.isFinite && areFinite vs

/-- Whether all numbers in fields are finite. -/
def fieldsAreFinite : List (String × Value) → Bool
  | [] => true
  | (_, v) :: fields => v.isFinite && fieldsAreFinite fields

end

/-- The part of a value at the end of a path. -/
def part? : List PathStep → Value → Option Value
  | [], v => some v
  | .field name :: path, v => (v.field? name).bind (part? path)
  | .index i :: path, .list items => items[i]?.bind (part? path)
  | .index _ :: _, _ => none

end Value

/-- One step of a path. -/
def PathStep.toValue : PathStep → Value
  | field name => .text name
  | index i => .whole i

namespace Fault

/-- What a fault was found in: where something is missing the record that should hold it, and else the value at fault.
Paths begin with the step to the body. -/
def subject (f : Fault) (body : Value) : Value :=
  let path := if f.kind = .missing then f.path.dropLast else f.path
  ((body.part? (path.drop 1)).getD .null)

/-- What a fault is measured by. -/
def context (f : Fault) : List (String × Value) :=
  if f.kind = .greaterThanEqual then [("ctx", .object [("ge", .whole 0)])] else []

/-- A fault with what it was found in. -/
def toValue (body : Value) (f : Fault) : Value :=
  .object ([("type", .text f.kind.name), ("loc", .ofList PathStep.toValue f.path), ("msg", .text f.kind.message),
    ("input", f.subject body)] ++ f.context)

end Fault

/-- What a response carries, as a record. -/
def HttpBody.toValue : HttpBody → Value
  | health status => .object [("status", .text status)]
  | readiness status rootDir => .object [("status", .text status), ("root_dir", .ofOption .text rootDir)]
  | diagnostics path items => .object [("path", .text path), ("diagnostics", .ofList Diagnostic.toValue items)]
  | references path items => .object [("path", .text path), ("references", .ofList ResolvedReference.toValue items)]
  | links path items => .object [("path", .text path), ("links", .ofList Link.toValue items)]
  | candidates items => .object [("candidates", .ofOption (.ofList Candidate.toValue) items)]
  | detail text => .object [("detail", .text text)]
  | faults items body => .object [("detail", .ofList (Fault.toValue body) items)]

/-- A response as it is sent, unless it cannot be. -/
def HttpResponse.sent (r : HttpResponse) : Except SendingError HttpResponse :=
  let record := r.body.toValue
  if !record.isFinite then .error .notFinite
  else
    match Surrogate.find? record.write with
    | some refusal => .error (.unpaired refusal)
    | none => .ok r

end DocRefs
