import HourlyPrices.Text.Blank
import HourlyPrices.Text.Utf8

/-!
# Responses

A response has a status, headers and a body. Header names are compared without regard to case; of
several headers with one name the first counts.
-/

namespace HourlyPrices.Http

/-- The standard phrases of statuses. -/
def phrases : List (Nat × String) :=
  [(100, "Continue"), (101, "Switching Protocols"), (102, "Processing"), (200, "OK"),
   (201, "Created"), (202, "Accepted"), (203, "Non Authoritative Information"),
   (204, "No Content"), (205, "Reset Content"), (206, "Partial Content"), (207, "Multi-Status"),
   (208, "Already Reported"), (226, "IM Used"), (300, "Multiple Choices"),
   (301, "Moved Permanently"), (302, "Found"), (303, "See Other"), (304, "Not Modified"),
   (305, "Use Proxy"), (307, "Temporary Redirect"), (308, "Permanent Redirect"),
   (400, "Bad Request"), (401, "Unauthorized"), (402, "Payment Required"), (403, "Forbidden"),
   (404, "Not Found"), (405, "Method Not Allowed"), (406, "Not Acceptable"),
   (407, "Proxy Authentication Required"), (408, "Request Timeout"), (409, "Conflict"),
   (410, "Gone"), (411, "Length Required"), (412, "Precondition Failed"),
   (413, "Payload Too Large"), (414, "URI Too Long"), (415, "Unsupported Media Type"),
   (416, "Range Not Satisfiable"), (417, "Expectation Failed"), (418, "I'm a teapot"),
   (421, "Misdirected Request"), (422, "Unprocessable Entity"), (423, "Locked"),
   (424, "Failed Dependency"), (425, "Too Early"), (426, "Upgrade Required"),
   (428, "Precondition Required"), (429, "Too Many Requests"),
   (431, "Request Header Fields Too Large"), (451, "Unavailable For Legal Reasons"),
   (500, "Internal Server Error"), (501, "Not Implemented"), (502, "Bad Gateway"),
   (503, "Service Unavailable"), (504, "Gateway Timeout"), (505, "HTTP Version Not Supported"),
   (506, "Variant Also Negotiates"), (507, "Insufficient Storage"), (508, "Loop Detected"),
   (510, "Not Extended"), (511, "Network Authentication Required")]

/-- A status with its phrase. -/
def statusText (status : Nat) : String :=
  toString status ++ " " ++ (phrases.lookup status).getD "<unknown status code>"

/-- A response. -/
structure Response where
  status : Nat := 200
  headers : List (String × String) := []
  body : List UInt8 := []
  /-- Whether the body is as long as was announced. -/
  complete : Bool := true

/-- What comes of a request. -/
inductive Reply where
  | response (r : Response)
  /-- The connection ended without a response. -/
  | closed
  /-- There was no response in time. -/
  | timeout

namespace Response

/-- Whether a header may have a character in its name. -/
def isNameChar (c : Char) : Bool := c.isAlphanum || "!#$%&'*+-.^_\x60|~".toList.contains c

/-- Whether a header may have a character in its value. -/
def isValueChar (c : Char) : Bool := c == '\t' || (' ' ≤ c && c != '\x7f')

/-- Whether this is a final response that can be read: its status has three digits and does not
merely announce a response to come, and its headers consist of characters that are allowed in
them. -/
def isFinal (r : Response) : Bool :=
  (r.status == 101 || 200 ≤ r.status && r.status < 1000) &&
  r.headers.all fun (k, v) => !k.isEmpty && k.toList.all isNameChar && v.toList.all isValueChar

/-- Whether the request succeeded. -/
def isSuccess (r : Response) : Bool := 200 ≤ r.status && r.status < 300

/-- Whether the status rules out a body. -/
def hasNoBody (r : Response) : Bool := r.status == 204 || r.status == 304

/-- The text of the body, unless it broke off. -/
def text? (r : Response) : Option String :=
  if r.hasNoBody then some "" else if r.complete then some (Text.ofUtf8 r.body) else none

/-- The value of a header. -/
def header? (r : Response) (name : String) : Option String :=
  let folded := fun s : String => s.toList.map Text.lowerAscii
  (r.headers.find? fun (k, _) => folded k == folded name).map (·.2)

/-- Counters in headers are below this bound. -/
def counterBound : Nat := UInt64.size

/-- The digits of a counter, after a plus sign if any. -/
def counterOfChars? (cs : List Char) : Option Nat :=
  let digits := match cs with
    | '+' :: r => r
    | r => r
  if !digits.isEmpty && digits.all Char.isDigit then
    let n := digits.foldl (fun n c => n * 10 + (c.toNat - 48)) 0
    if n < counterBound then some n else none
  else none

/-- A header that holds a counter. -/
def counter? (r : Response) (name : String) : Option Nat := do
  let value := (← r.header? name).toList
  if value.all fun c => c == '\t' || (' ' ≤ c && c ≤ '~') then
    counterOfChars? (Text.trimChars value)
  else none

end Response

end HourlyPrices.Http
