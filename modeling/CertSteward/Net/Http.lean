import CertSteward.Json.Value
import CertSteward.Net.Url

/-!
# Requests to web services

## Main definitions

* `HttpRequest`, `HttpRequest.build` — a request, if it can be made
* `HttpOutcome` — what became of it
* `HttpStatus.text` — a status with its usual reason
-/

namespace CertSteward

/-- A request. -/
structure HttpRequest where
  method : String
  url : Url
  headers : List (String × String) := []
  body : Option Json := none

/-- What became of a request. -/
inductive HttpOutcome
  | reply (status : Nat) (body : String)
  /-- Nobody answered, or the answer broke off. -/
  | unreachable
  /-- The answer did not come in time. -/
  | late
deriving DecidableEq, Repr

/-- Whatever carries requests. -/
abbrev HttpTransport := HttpRequest → HttpOutcome

/-- Nothing that carries requests. -/
def HttpTransport.none : HttpTransport := fun _ => .unreachable

namespace HttpRequest

/-- A character of a header's name. -/
def isNameChar (c : Char) : Bool := Chars.isAlnum c || "!#$%&'*+-.^_`|~".toList.contains c

/-- Whether a text can be a header's name. -/
def isHeaderName (s : String) : Bool := !s.isEmpty && s.toList.all isNameChar

/-- Whether a text can be a header's value. -/
def isHeaderValue (s : String) : Bool :=
  s.toList.all fun c => c == '\t' || (0x20 ≤ c.toNat && c.toNat ≠ 0x7F)

/-- A value in the query of a locator. -/
def formText (s : String) : String :=
  String.ofList ((Utf8.encode s).flatMap fun b =>
    let c := Char.ofNat b.toNat
    if b = 0x20 then ['+']
    else if Chars.isAlnum c || c == '*' || c == '-' || c == '.' || c == '_' then [c]
    else ['%', Url.upperDigit (b.toNat / 16), Url.upperDigit (b.toNat % 16)])

/-- A locator with one more pair in its query. -/
def withPair (u : Url) (name value : String) : Url :=
  let pair := formText name ++ "=" ++ formText value
  { u with query := some (match u.query with
      | none | some "" => pair
      | some q => q ++ "&" ++ pair) }

/-- Why a request cannot be made. -/
def buildFault (u : Option Url) : String :=
  "builder error" ++ u.elim "" fun u => " for url (" ++ u.text ++ ")"

/-- A request, if its locator and its headers are in order. -/
def build (method location : String) (pair : Option (String × String) := none)
    (headers : List (String × String) := []) (body : Option Json := none) :
    Except String HttpRequest :=
  match Url.parse location with
  | .error _ => .error (buildFault none)
  | .ok u =>
    let url := pair.elim u fun (name, value) => withPair u name value
    if u.host.isNone then .error (buildFault (some u))
    else if !headers.all fun (n, v) => isHeaderName n && isHeaderValue v then
      .error (buildFault none)
    else if u.scheme ≠ "http" ∧ u.scheme ≠ "https" then .error (buildFault (some url))
    else .ok { method, url, headers, body }

end HttpRequest

namespace HttpStatus

/-- The usual reasons. -/
def reasons : List (Nat × String) :=
  [(100, "Continue"), (101, "Switching Protocols"), (102, "Processing"), (200, "OK"),
    (201, "Created"), (202, "Accepted"), (203, "Non Authoritative Information"),
    (204, "No Content"), (205, "Reset Content"), (206, "Partial Content"), (207, "Multi-Status"),
    (208, "Already Reported"), (226, "IM Used"), (300, "Multiple Choices"),
    (301, "Moved Permanently"), (302, "Found"), (303, "See Other"), (304, "Not Modified"),
    (305, "Use Proxy"), (307, "Temporary Redirect"), (308, "Permanent Redirect"),
    (400, "Bad Request"), (401, "Unauthorized"), (402, "Payment Required"), (403, "Forbidden"),
    (404, "Not Found"), (405, "Method Not Allowed"), (406, "Not Acceptable"),
    (407, "Proxy Authentication Required"), (408, "Request Timeout"), (409, "Conflict"),
    (410, "Gone"), (411, "Length Required"), (412, "Precondition Failed"),
    (413, "Payload Too Large"), (414, "URI Too Long"), (415, "Unsupported Media Type"),
    (416, "Range Not Satisfiable"), (417, "Expectation Failed"), (418, "I'm a teapot"),
    (421, "Misdirected Request"), (422, "Unprocessable Entity"), (423, "Locked"),
    (424, "Failed Dependency"), (425, "Too Early"), (426, "Upgrade Required"),
    (428, "Precondition Required"), (429, "Too Many Requests"),
    (431, "Request Header Fields Too Large"), (451, "Unavailable For Legal Reasons"),
    (500, "Internal Server Error"), (501, "Not Implemented"), (502, "Bad Gateway"),
    (503, "Service Unavailable"), (504, "Gateway Timeout"), (505, "HTTP Version Not Supported"),
    (506, "Variant Also Negotiates"), (507, "Insufficient Storage"), (508, "Loop Detected"),
    (510, "Not Extended"), (511, "Network Authentication Required")]

/-- A status with its usual reason. -/
def text (status : Nat) : String :=
  toString status ++ " " ++ (reasons.lookup status).getD "<unknown status code>"

/-- Whether a status says that all went well. -/
def isSuccess (status : Nat) : Bool := 200 ≤ status && status < 300

/-- Whether a status says that the service failed. -/
def isServerFault (status : Nat) : Bool := 500 ≤ status && status < 600

end HttpStatus

end CertSteward
