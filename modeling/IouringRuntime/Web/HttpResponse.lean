import IouringRuntime.Web.HttpRequest

/-!
# HTTP responses

`HttpResponse` (`web/HttpResponse.h`, `HttpResponse.cpp`) up to its bytes:
status line, headers and body as `SerializeHeaders` and `Build` put them
together. `SerializeHeaders` takes the text of the `Date` header as an argument;
`currentHttpDate` is that text.
-/

namespace IouringRuntime

inductive HttpStatus where
  | kOk | kCreated | kNoContent | kMovedPermanently | kFound | kNotModified | kBadRequest
  | kUnauthorized | kForbidden | kNotFound | kMethodNotAllowed | kRequestTimeout
  | kPayloadTooLarge | kUriTooLong | kRequestHeaderFieldsTooLarge | kInternalServerError
  | kNotImplemented | kBadGateway | kServiceUnavailable
  deriving DecidableEq, Repr

namespace HttpStatus

def code : HttpStatus → Nat
  | kOk => 200
  | kCreated => 201
  | kNoContent => 204
  | kMovedPermanently => 301
  | kFound => 302
  | kNotModified => 304
  | kBadRequest => 400
  | kUnauthorized => 401
  | kForbidden => 403
  | kNotFound => 404
  | kMethodNotAllowed => 405
  | kRequestTimeout => 408
  | kPayloadTooLarge => 413
  | kUriTooLong => 414
  | kRequestHeaderFieldsTooLarge => 431
  | kInternalServerError => 500
  | kNotImplemented => 501
  | kBadGateway => 502
  | kServiceUnavailable => 503

/-- `HttpStatusToString`. -/
def text : HttpStatus → String
  | kOk => "OK"
  | kCreated => "Created"
  | kNoContent => "No Content"
  | kMovedPermanently => "Moved Permanently"
  | kFound => "Found"
  | kNotModified => "Not Modified"
  | kBadRequest => "Bad Request"
  | kUnauthorized => "Unauthorized"
  | kForbidden => "Forbidden"
  | kNotFound => "Not Found"
  | kMethodNotAllowed => "Method Not Allowed"
  | kRequestTimeout => "Request Timeout"
  | kPayloadTooLarge => "Payload Too Large"
  | kUriTooLong => "URI Too Long"
  | kRequestHeaderFieldsTooLarge => "Request Header Fields Too Large"
  | kInternalServerError => "Internal Server Error"
  | kNotImplemented => "Not Implemented"
  | kBadGateway => "Bad Gateway"
  | kServiceUnavailable => "Service Unavailable"

/-- `StatusMustNotHaveBody`. -/
def mustNotHaveBody (s : HttpStatus) : Bool := s == kNoContent || s == kNotModified

end HttpStatus

/-- `std::to_string`. -/
def decimal (n : Nat) : Bytes := (Nat.toDigits 10 n).map fun c => c.val.toUInt8

def crlf : Bytes := [13, 10]

/-- The fields of `std::tm` that the date shows. -/
structure Tm where
  wday : Fin 7
  mday : Nat
  mon : Fin 12
  year : Nat
  hour : Nat
  min : Nat
  sec : Nat
  deriving DecidableEq, Repr

def twoDigits (n : Nat) : Bytes := if n < 10 then ascii "0" ++ decimal n else decimal n

def wdayName (d : Fin 7) : Bytes :=
  ascii (["Sun", "Mon", "Tue", "Wed", "Thu", "Fri", "Sat"].get d)

def monName (m : Fin 12) : Bytes :=
  ascii (["Jan", "Feb", "Mar", "Apr", "May", "Jun", "Jul", "Aug", "Sep", "Oct", "Nov", "Dec"].get m)

/-- `strftime` with `%a, %d %b %Y %H:%M:%S GMT`. -/
def currentHttpDate (tm : Tm) : Bytes :=
  wdayName tm.wday ++ ascii ", " ++ twoDigits tm.mday ++ ascii " " ++ monName tm.mon ++ ascii " " ++
  decimal tm.year ++ ascii " " ++ twoDigits tm.hour ++ ascii ":" ++ twoDigits tm.min ++ ascii ":" ++
  twoDigits tm.sec ++ ascii " GMT"

structure HttpResponse where
  status : HttpStatus := .kOk
  headers : List HttpHeader := []
  contentType : Bytes := []
  body : Bytes := []
  keepAlive : Bool := true
  suppressBody : Bool := false
  deriving DecidableEq, Repr

namespace HttpResponse

def headerNameEquals (lhs rhs : Bytes) : Bool := HttpRequest.caseInsensitiveEqual lhs rhs

/-- One of the caller's headers has this name. -/
def callerHas (r : HttpResponse) (name : String) : Bool :=
  r.headers.any fun h => headerNameEquals h.name (ascii name)

def noBody (r : HttpResponse) : Bool := r.status.mustNotHaveBody || r.suppressBody

def headerLine (name : Bytes) (value : Bytes) : Bytes := name ++ ascii ": " ++ value ++ crlf

def serializeHeaders (r : HttpResponse) (date : Bytes) (bodySize : Nat) : Bytes :=
  ascii "HTTP/1.1 " ++ decimal r.status.code ++ ascii " " ++ ascii r.status.text ++ crlf ++
  (if r.callerHas "Server" then []
    else headerLine (ascii "Server") (ascii "iouring_runtime_web")) ++
  (if r.callerHas "Date" then [] else headerLine (ascii "Date") date) ++
  (if r.callerHas "Content-Type" || r.contentType.isEmpty then []
    else headerLine (ascii "Content-Type") r.contentType) ++
  (if r.callerHas "Content-Length" || r.status.mustNotHaveBody then []
    else headerLine (ascii "Content-Length") (decimal bodySize)) ++
  (if r.callerHas "Connection" then []
    else headerLine (ascii "Connection") (ascii (if r.keepAlive then "keep-alive" else "close"))) ++
  (r.headers.flatMap fun h =>
    if r.status.mustNotHaveBody && headerNameEquals h.name (ascii "Content-Length") then []
    else headerLine h.name h.value) ++
  crlf

/-- The body that follows the headers on the wire. -/
def sentBody (r : HttpResponse) (body : Bytes) : Bytes := if r.noBody then [] else body

/-- The whole response, as `Build` lays it out. -/
def serialize (r : HttpResponse) (date : Bytes) : Bytes :=
  r.serializeHeaders date r.body.length ++ r.sentBody r.body

/-- The whole response with a file for its body. -/
def serializeFile (r : HttpResponse) (date content : Bytes) : Bytes :=
  r.serializeHeaders date content.length ++ r.sentBody content

/-! ## Buffers

Sizes are handed to the pool and to `Commit` as `uint32_t`. `lastBuilt` is
`last_built_bytes_` before the call; the result has it after the call. -/

/-- The committed part of a buffer into which the bytes were copied. -/
def committed (bytes : Bytes) : Bytes := bytes.take (bytes.length % 2 ^ 32)

/-- `total_size`. -/
def totalSize (r : HttpResponse) (date : Bytes) : Nat :=
  (r.serializeHeaders date r.body.length).length + if r.noBody then 0 else r.body.length

def build (r : HttpResponse) (date : Bytes) (alloc : Bool) (lastBuilt : Nat) :
    Option Bytes × Nat :=
  if alloc then
    (some (committed (r.serializeHeaders date r.body.length ++ r.sentBody r.body)),
      r.totalSize date)
  else (none, lastBuilt)

/-- The loop of `BuildBuffers`; `alloc` tells which allocations succeed. -/
def bodyBuffers (body : Bytes) (bodyChunkSize : Nat) (alloc : Nat → Bool) (i offset : Nat) :
    Option (List Bytes) :=
  if offset < body.length then
    let nextSize := min (max bodyChunkSize 1) (body.length - offset)
    if alloc i then
      (bodyBuffers body bodyChunkSize alloc (i + 1) (offset + nextSize)).map
        (committed ((body.drop offset).take nextSize) :: ·)
    else none
  else some []
termination_by body.length - offset
decreasing_by omega

def buildBuffers (r : HttpResponse) (date : Bytes) (bodyChunkSize : UInt32) (alloc : Nat → Bool)
    (lastBuilt : Nat) : List Bytes × Nat :=
  let headers := r.serializeHeaders date r.body.length
  if !alloc 0 then ([], lastBuilt)
  else if r.noBody then ([committed headers], headers.length)
  else
    match bodyBuffers r.body bodyChunkSize.toNat alloc 1 0 with
    | none => ([], lastBuilt)
    | some buffers => (committed headers :: buffers, headers.length + r.body.length)

/-! ## Builder methods -/

def header (r : HttpResponse) (name value : Bytes) : HttpResponse :=
  { r with headers := r.headers ++ [⟨name, value⟩] }

def removeHeader (r : HttpResponse) (name : Bytes) : HttpResponse :=
  { r with
    contentType := if headerNameEquals name (ascii "Content-Type") then [] else r.contentType
    headers := r.headers.filter fun h => !headerNameEquals h.name name }

def text (r : HttpResponse) (text : Bytes) : HttpResponse :=
  { r with contentType := ascii "text/plain", body := text }

def json (r : HttpResponse) (body : Bytes) : HttpResponse :=
  { r with contentType := ascii "application/json", body := body }

def redirect (r : HttpResponse) (url : Bytes) (status : HttpStatus) : HttpResponse :=
  (removeHeader { r with status := status, body := [] } (ascii "Location")).header
    (ascii "Location") url

/-- `Error`. -/
def error (r : HttpResponse) (status : HttpStatus) (message : String) : HttpResponse :=
  { r with status := status, contentType := ascii "text/plain", body := ascii message }

end HttpResponse

end IouringRuntime
