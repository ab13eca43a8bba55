import IouringRuntime.Core.Word

/-!
# HTTP requests

`HttpRequest` (`web/HttpRequest.h`) as the parser fills it. Texts are byte
strings. Route parameters and the request id, which the parser never reads, are
left out.
-/

namespace IouringRuntime

inductive HttpMethod where
  | get | head | post | put | delete | options | patch | unknown
  deriving DecidableEq, Repr

/-- `HttpMethodFromLlhttp`. -/
def HttpMethod.fromLlhttp : Nat → HttpMethod
  | 0 => .delete
  | 1 => .get
  | 2 => .head
  | 3 => .post
  | 4 => .put
  | 6 => .options
  | 28 => .patch
  | _ => .unknown

/-- `HttpMethodToString`. -/
def HttpMethod.toString : HttpMethod → Bytes
  | .get => ascii "GET"
  | .head => ascii "HEAD"
  | .post => ascii "POST"
  | .put => ascii "PUT"
  | .delete => ascii "DELETE"
  | .options => ascii "OPTIONS"
  | .patch => ascii "PATCH"
  | .unknown => ascii "UNKNOWN"

structure HttpHeader where
  name : Bytes
  value : Bytes
  deriving DecidableEq, Repr

structure HttpRequest where
  method : HttpMethod := .unknown
  path : Bytes := []
  query : Bytes := []
  body : Bytes := []
  keepAlive : Bool := true
  headers : List HttpHeader := []
  deriving DecidableEq, Repr

namespace HttpRequest

def toLower (c : UInt8) : UInt8 := if 65 ≤ c ∧ c ≤ 90 then c + 32 else c

def caseInsensitiveEqual (lhs rhs : Bytes) : Bool := lhs.map toLower == rhs.map toLower

def getHeader (r : HttpRequest) (name : Bytes) : Bytes :=
  match r.headers.find? fun h => caseInsensitiveEqual h.name name with
  | some h => h.value
  | none => []

def isDigit (c : UInt8) : Bool := 48 ≤ c && c ≤ 57

/-- `std::from_chars` into a 64-bit zero: the digits in front, and zero when
there are none or the number does not fit. -/
def fromChars (text : Bytes) : Nat :=
  let n := (text.takeWhile isDigit).foldl (fun n c => 10 * n + (c.toNat - 48)) 0
  if n < 2 ^ 64 then n else 0

def contentLength (r : HttpRequest) : Nat := fromChars (r.getHeader (ascii "Content-Length"))

def addHeader (r : HttpRequest) (name value : Bytes) : HttpRequest :=
  { r with headers := r.headers ++ [⟨name, value⟩] }

end HttpRequest

end IouringRuntime
