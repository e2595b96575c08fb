/-!
# Requested addresses

From the address of a request and its parameters comes the target that is sent to the server: a path
in which dots are resolved, and a query. Characters that may not stand there as they are become
bytes behind percent signs; parameters are written as a form.
-/

namespace HourlyPrices.Http

/-- A hexadecimal digit below 16, with capital letters. -/
def hexDigit (n : Nat) : Char := if n < 10 then Char.ofNat (48 + n) else Char.ofNat (55 + n)

/-- A byte behind a percent sign. -/
def percentByte (b : UInt8) : List Char := ['%', hexDigit (b.toNat / 16), hexDigit (b.toNat % 16)]

/-- The bytes of a text, those that may stay as characters and the others behind percent signs. -/
def percentEncode (stays : Char → Bool) (s : List Char) : List Char :=
  (String.ofList s).toUTF8.toList.flatMap fun b =>
    let c := Char.ofNat b.toNat
    if b < 0x80 && stays c then [c] else percentByte b

/-! ## Forms -/

/-- The characters of a form that stay as they are. -/
def staysInForm (c : Char) : Bool := c.isAlphanum || c == '*' || c == '-' || c == '.' || c == '_'

/-- A name or value in a form. -/
def formText (s : String) : List Char :=
  (percentEncode (fun c => staysInForm c || c == ' ') s.toList).map fun c =>
    if c = ' ' then '+' else c

/-- Parameters as a form. -/
def form (parameters : List (String × String)) : List Char :=
  ['&'].intercalate (parameters.map fun (k, v) => formText k ++ '=' :: formText v)

/-! ## Addresses -/

/-- Whether a visible ASCII character may stay in a query. -/
def staysInQuery (c : Char) : Bool :=
  ' ' < c && c ≤ '~' && !(['"', '#', '<', '>', '\''].contains c)

/-- Whether a visible ASCII character may stay in a path. -/
def staysInPath (c : Char) : Bool :=
  ' ' < c && c ≤ '~' && !(['"', '#', '<', '>', '?', '\x60', '\x7b', '\x7d'].contains c)

/-- Slashes may lean either way. -/
def isSlash (c : Char) : Bool := c == '/' || c == '\\'

/-- A segment of a path in which dots written as bytes are dots again. -/
def plainDots : List Char → List Char
  | '%' :: '2' :: 'e' :: cs => '.' :: plainDots cs
  | '%' :: '2' :: 'E' :: cs => '.' :: plainDots cs
  | c :: cs => c :: plainDots cs
  | [] => []

/-- Resolves dots behind the segments so far, which are in reverse. -/
def resolve : List (List Char) → List (List Char) → List (List Char)
  | done, [] => done.reverse
  | done, segment :: rest =>
    let dots := plainDots segment
    if dots == ['.', '.'] then
      resolve (if rest.isEmpty then [] :: done.drop 1 else done.drop 1) rest
    else if dots == ['.'] then resolve (if rest.isEmpty then [] :: done else done) rest
    else resolve (percentEncode staysInPath segment :: done) rest

/-- A path with resolved dots. -/
def normalPath (path : List Char) : List Char :=
  let segments := (path.map fun c => if isSlash c then '/' else c).splitOn '/'
  '/' :: ['/'].intercalate (resolve [] (if path.isEmpty then [[]] else segments.drop 1))

/-- Removes the scheme of an address for HTTP. -/
def afterScheme? (cs : List Char) : Option (List Char) :=
  let scheme := cs.takeWhile (· != ':')
  if scheme.map Char.toLower == "http".toList && scheme.length < cs.length then
    some (cs.drop (scheme.length + 1))
  else none

/-- Whether a host may be written with a character. -/
def isHostChar (c : Char) : Bool :=
  ' ' < c && c != '\x7f' &&
    !(['#', '%', '/', ':', '<', '>', '?', '@', '[', '\\', ']', '^', '|'].contains c)

/-- Whether the part of an address before its path names a host, and a port if any. -/
def isAuthority (cs : List Char) : Bool :=
  let place := (cs.reverse.takeWhile (· != '@')).reverse
  let host := place.takeWhile (· != ':')
  let port := (place.dropWhile (· != ':')).drop 1
  !host.isEmpty && host.all isHostChar && port.all Char.isDigit &&
    port.foldl (fun n c => n * 10 + (c.toNat - 48)) 0 < 65536

/-- The target of a request for an address with parameters. -/
def target? (address : String) (parameters : List (String × String)) : Option String := do
  let isEdge := fun c : Char => c ≤ ' '
  let cs := ((address.toList.dropWhile isEdge).reverse.dropWhile isEdge).reverse
  let cs ← afterScheme? (cs.filter fun c => c != '\t' && c != '\n' && c != '\r')
  let cs := cs.dropWhile isSlash
  let endsAuthority := fun c : Char => isSlash c || c == '?' || c == '#'
  let authority := cs.takeWhile fun c => !endsAuthority c
  if !isAuthority authority then none
  else
    let rest := (cs.drop authority.length).takeWhile (· != '#')
    let path := rest.takeWhile (· != '?')
    let query := percentEncode staysInQuery ((rest.drop path.length).drop 1)
    let query := if query.isEmpty then form parameters else query ++ '&' :: form parameters
    return String.ofList (normalPath path ++ '?' :: query)

end HourlyPrices.Http
