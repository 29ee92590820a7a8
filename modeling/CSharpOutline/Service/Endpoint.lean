import CSharpOutline.Service.Field
import CSharpOutline.Session

/-!
# The service

One endpoint for each question that can be asked of a text. A request is matched to its endpoint by
path and method, its body is checked, and the checked query is answered. Positions that the text
does not have are the caller's mistake and are reported as such.
-/

namespace CSharpOutline.Service

/-! ## Endpoints -/

/-- The endpoints of the service. -/
inductive Endpoint where
  | health
  | namespaceName
  | className
  | memberName
  | baseNames
  | lineSignature
  | methodSignature
  | propertySignature
  | currentLine
  | lineEnding
  | usings
  | replaceUsings
  deriving DecidableEq, Repr

namespace Endpoint

def all : List Endpoint :=
  [.health, .namespaceName, .className, .memberName, .baseNames, .lineSignature,
    .methodSignature, .propertySignature, .currentLine, .lineEnding, .usings, .replaceUsings]

def path : Endpoint → String
  | .health => "/health"
  | .namespaceName => "/namespace"
  | .className => "/class-name"
  | .memberName => "/member-name"
  | .baseNames => "/inherited-names"
  | .lineSignature => "/signature/line"
  | .methodSignature => "/signature/method"
  | .propertySignature => "/signature/property"
  | .currentLine => "/current-line"
  | .lineEnding => "/line-ending"
  | .usings => "/usings"
  | .replaceUsings => "/usings/replace"

/-- The method by which an endpoint is asked. -/
def method : Endpoint → String
  | .health => "GET"
  | _ => "POST"

/-- The part of a requested path that names an endpoint: a query or fragment after it and slashes at
its end are left aside. -/
def pathName (path : String) : Text :=
  ((path.toList.takeWhile fun c ↦ c ≠ '?' && c ≠ '#').reverse.dropWhile (· == '/')).reverse

def ofPath? (path : String) : Option Endpoint := all.find? (·.path.toList == pathName path)

theorem mem_all (e : Endpoint) : e ∈ all := by
  cases e <;> decide

end Endpoint

/-! ## Queries -/

/-- A request whose body has been checked. -/
inductive Query where
  | health
  | namespaceName (text : Text)
  | className (text : Text)
  | memberName (text : Text)
  | baseNames (text : Text) (includeBase : Bool)
  | lineSignature (text : Text) (line : Nat) (modifier : Text)
  | methodSignature (text : Text) (cursor : Cursor)
  | propertySignature (text : Text) (cursor : Cursor)
  | currentLine (text : Text) (cursor : Cursor)
  | lineEnding (text : Text)
  | usings (text : Text)
  | replaceUsings (text : Text) (statements : List Text) (ending : Option Text)
  deriving DecidableEq, Repr

namespace Query

def text (fields : Fields) : Checked Text := required readText "text" fields

def textAndCursor (fields : Fields) : Checked (Text × Cursor) :=
  ((text fields).both ((required readCount "line" fields).both
    (optional readCount 0 "character" fields))).map
      fun (t, line, character) ↦ (t, ⟨line, character⟩)

/-- Reads the query of an endpoint from the fields of a body. -/
def ofFields (fields : Fields) : Endpoint → Checked Query
  | .health => .ok .health
  | .namespaceName => (text fields).map .namespaceName
  | .className => (text fields).map .className
  | .memberName => (text fields).map .memberName
  | .baseNames =>
    ((text fields).both (optional readBool true "include_base_classes" fields)).map
      fun (t, includeBase) ↦ .baseNames t includeBase
  | .lineSignature =>
    ((text fields).both ((required readCount "line" fields).both
      (optional readText "public".toList "modifier" fields))).map
      fun (t, line, modifier) ↦ .lineSignature t line modifier
  | .methodSignature => (textAndCursor fields).map fun (t, c) ↦ .methodSignature t c
  | .propertySignature => (textAndCursor fields).map fun (t, c) ↦ .propertySignature t c
  | .currentLine => (textAndCursor fields).map fun (t, c) ↦ .currentLine t c
  | .lineEnding => (text fields).map .lineEnding
  | .usings => (text fields).map .usings
  | .replaceUsings =>
    ((text fields).both ((required readTexts "statements" fields).both
      (optional readNullableText none "line_ending" fields))).map
      fun (t, statements, ending) ↦ .replaceUsings t statements ending

/-- Reads the query of an endpoint from a body, which `health` does without. -/
def ofBody (e : Endpoint) (body : Option Value) : Checked Query :=
  match e, body with
  | .health, _ => .ok .health
  | _, none | _, some .null => (Checked.fail .missing).inside (.field "body")
  | e, some (.object fields) => (ofFields fields e).inside (.field "body")
  | _, some _ => (Checked.fail .notObject).inside (.field "body")

/-! ## Answers -/

def ofReport (r : Report) : Value :=
  .object [("name", .ofText? r.name), ("errors", .list (r.errors.map .ofString))]

/-- A signature as a value. No signature is shown as that of no member. -/
def ofSignature (s : Option Signature) : Value :=
  let s := s.getD .unknown
  .object [("signature", .ofText? s.text), ("signature_type", .ofString s.kind.label)]

/-- The editor that shows a text with a cursor. -/
def editor (t : Text) (c : Cursor) : Editor := ⟨.snapshot (.ofText t), c⟩

def answer : Query → Except Fault Value
  | .health => .ok (.object [("status", .ofString "ok")])
  | .namespaceName t => .ok (ofReport t.namespaceName.report)
  | .className t => .ok (ofReport t.className.report)
  | .memberName t => .ok (ofReport ⟨memberName? t, []⟩)
  | .baseNames t includeBase => do
    return .object [("names", .ofTexts (← t.baseNames includeBase))]
  | .lineSignature t line modifier => do
    return ofSignature (← (Document.snapshot (.ofText t)).signatureAt modifier line)
  | .methodSignature t c => do return ofSignature (← (editor t c).methodSignature?)
  | .propertySignature t c => do return ofSignature (← (editor t c).propertySignature?)
  | .currentLine t c => .ok (.object [("line", .ofText? (editor t c).lineAtCursor?)])
  | .lineEnding t =>
    .ok (.object [("text", .text (Document.snapshot (.ofText t)).lineEnding.text)])
  | .usings t => .ok (.object [("statements", .ofTexts t.usings)])
  | .replaceUsings t statements ending =>
    .ok (.object [("text",
      .text (t.replaceUsings statements ((Snapshot.ofText t).ending.orGiven ending)))])

end Query

/-! ## Requests and replies -/

structure Request where
  method : String
  path : String
  body : Option Value

inductive Reply where
  | answer (status : Nat) (body : Value)
  /-- The body of the request was not accepted. -/
  | unprocessable (issues : List Issue)

namespace Reply

/-- The reply that only says what went wrong. -/
def detail (status : Nat) (message : String) : Reply :=
  .answer status (.object [("detail", .ofString message)])

/-- The reply to a query's answer. -/
def ofAnswer : Except Fault Value → Reply
  | .ok body => .answer 200 body
  | .error fault =>
    if fault.isPosition then .detail 400 fault.message else .detail 500 "Internal Server Error"

end Reply

/-- The reply to a request. The case of the letters of its method does not matter. -/
def respond (r : Request) : Reply :=
  match Endpoint.ofPath? r.path with
  | none => .detail 404 "Not Found"
  | some e =>
    if r.method.toUpper ≠ e.method then .detail 405 "Method Not Allowed"
    else match Query.ofBody e r.body with
      | .error issues => .unprocessable issues
      | .ok query => .ofAnswer query.answer

end CSharpOutline.Service
