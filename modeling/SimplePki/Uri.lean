import SimplePki.Uri.Host
import SimplePki.Uri.Path

/-!
# URIs

A hash may say where the hashed object can be found.  Such places are absolute URIs, read with the
tolerance of browsers (slashes of either kind, missing slashes, upper case, unescaped characters)
and written in one normal form.

A few schemes are special: they always have a host, except for files, and a path.  Under any other
scheme the part behind the colon may be opaque.

## Main definitions

* `Uri`: the parts of a URI in normal form
* `Uri.ofText`: the URI that a text spells
* `Uri.toText`: the text of a URI
-/

namespace SimplePki

/-- Who asks, at which host, and at which port number. -/
structure Authority where
  user : List Char
  password : List Char
  host : Host
  portNumber : Option Nat
  deriving DecidableEq, Repr

/-- An absolute URI in normal form. -/
structure Uri where
  scheme : List Char
  authority : Option Authority
  path : List Char
  query : Option (List Char)
  fragment : Option (List Char)
  deriving DecidableEq, Repr

/-- How a scheme treats what follows it. -/
inductive SchemeKind where
  | file
  | special (portNumber : Nat)
  | other
  deriving DecidableEq, Repr

namespace SchemeKind

/-- The kind of a scheme, with its default port number. -/
def ofScheme (scheme : List Char) : SchemeKind :=
  match String.ofList scheme with
  | "file" => .file
  | "http" => .special 80
  | "ws" => .special 80
  | "https" => .special 443
  | "wss" => .special 443
  | "ftp" => .special 21
  | _ => .other

/-- Files and the schemes with default port numbers. -/
def isSpecial : SchemeKind → Bool
  | .other => false
  | _ => true

end SchemeKind

namespace Uri

/-! ### Writing -/

/-- The user name and the password in front of a host. -/
def credentials (authority : Authority) : List Char :=
  if authority.user.isEmpty && authority.password.isEmpty then []
  else
    authority.user ++
      (if authority.password.isEmpty then [] else ':' :: authority.password) ++ ['@']

/-- An authority behind its two slashes.  Without an authority, a path that begins with two slashes
is kept apart from one by a dot segment. -/
def authorityChars (uri : Uri) : List Char :=
  match uri.authority with
  | some authority =>
    '/' :: '/' :: credentials authority ++ authority.host.toChars ++
      (match authority.portNumber with
        | some n => ':' :: Nat.toDigits 10 n
        | none => [])
  | none => if uri.path.take 2 = ['/', '/'] then ['/', '.'] else []

/-- The characters of a URI. -/
def toChars (uri : Uri) : List Char :=
  uri.scheme ++ ':' :: uri.authorityChars ++ uri.path ++
    (match uri.query with
      | some query => '?' :: query
      | none => []) ++
    (match uri.fragment with
      | some fragment => '#' :: fragment
      | none => [])

/-- The text of a URI. -/
def toText (uri : Uri) : String := String.ofList uri.toChars

/-! ### Reading -/

/-- A text without controls and spaces at its ends. -/
def trim (text : List Char) : List Char :=
  let dropBlank := List.dropWhile fun c : Char => c ≤ ' '
  (dropBlank (dropBlank text).reverse).reverse

/-- Whether a character may stand in a scheme, or between characters of one. -/
def inScheme (c : Char) : Bool :=
  c.isAlphanum || c == '+' || c == '-' || c == '.' || Text.isBreak c

/-- The scheme of a text, in lower case, and what follows its colon. -/
def splitScheme? (text : List Char) : Option (List Char × List Char) :=
  let scheme := Text.joined (text.takeWhile inScheme)
  match text.dropWhile inScheme with
  | ':' :: rest =>
    if scheme.head?.any Char.isAlpha then some (scheme.map Char.toLower, rest) else none
  | _ => none

/-- Whether a character ends a path. -/
def endsPath (c : Char) : Bool := c == '?' || c == '#'

/-- Whether a character ends an authority. -/
def endsAuthority (special : Bool) (c : Char) : Bool := UriPath.isSlash special c || endsPath c

/-- The query and the fragment of what follows a path. -/
def splitQuery (special : Bool) (text : List Char) : Option (List Char) × Option (List Char) :=
  let fragmentOf := fun rest : List Char =>
    match rest with
    | _ :: fragment => some (Percent.encode Percent.inFragment fragment)
    | [] => none
  match text with
  | '?' :: rest =>
    let escaped := if special then Percent.inSpecialQuery else Percent.inQuery
    (some (Percent.encode escaped (rest.takeWhile (· != '#'))),
      fragmentOf (rest.dropWhile (· != '#')))
  | rest => (none, fragmentOf rest)

/-- The text around its last at sign, if it holds one. -/
def splitCredentials? (authority : List Char) : Option (List Char × List Char) :=
  if authority.contains '@' then
    let back := authority.reverse.takeWhile (· != '@')
    some ((authority.reverse.drop (back.length + 1)).reverse, back.reverse)
  else none

/-- The host and the port number of what follows the credentials: a colon outside brackets parts
them. -/
def splitPort (inBrackets : Bool) : List Char → List Char × Option (List Char)
  | [] => ([], none)
  | c :: rest =>
    if c = ':' && !inBrackets then ([], some rest)
    else
      let inside := c = '[' || (c ≠ ']' && inBrackets)
      let (host, digits) := splitPort inside rest
      (c :: host, digits)

/-- The port number that decimal digits write, none for the default one. -/
def portOf (kind : SchemeKind) (digits : List Char) : Except UriFault (Option Nat) :=
  if !digits.all Char.isDigit then .error .invalidPort
  else
    match Host.number? 10 digits with
    | none => .error .invalidPort
    | some n =>
      if 65535 < n then .error .invalidPort
      else if digits.isEmpty || kind = .special n then .ok none
      else .ok (some n)

/-- The authority of a text that follows two slashes, and the path, query and fragment behind. -/
def readAuthority (kind : SchemeKind) (text : List Char) :
    Except UriFault (Authority × List Char) := do
  let special := kind.isSpecial
  let whole := text.takeWhile fun c => !endsAuthority special c
  let behind := text.dropWhile fun c => !endsAuthority special c
  let (credentials, place) := (splitCredentials? whole).getD ([], whole)
  let bare := (splitCredentials? whole).isSome && credentials.isEmpty && place.isEmpty
  if bare && !behind.isEmpty then throw .emptyHost
  let (hostText, portText) := splitPort false place
  if special && hostText.isEmpty then throw .emptyHost
  let host ← if special then Host.ofDomain hostText else Host.ofOpaque hostText
  if hostText.isEmpty && portText.isSome then throw .emptyHost
  -- A backslash ends a port number under every scheme.
  let digits := (portText.getD []).takeWhile (· != '\\')
  let left := (portText.getD []).dropWhile (· != '\\')
  let portNumber ← portOf kind digits
  let user := Percent.encode Percent.inUserinfo (credentials.takeWhile (· != ':'))
  let password := Percent.encode Percent.inUserinfo ((credentials.dropWhile (· != ':')).drop 1)
  if hostText.isEmpty && !(user.isEmpty && password.isEmpty) then throw .emptyHost
  return (⟨user, password, host, portNumber⟩, left ++ behind)

/-- The URI with a hierarchical path, which may hold breaks; the first slash of the path is
optional. -/
def withPath (scheme : List Char) (kind : SchemeKind) (authority : Option Authority)
    (text : List Char) : Uri :=
  let special := kind.isSpecial
  let path := (text.takeWhile fun c => !endsPath c).dropWhile Text.isBreak
  let (query, fragment) := splitQuery special
    (Text.joined (text.dropWhile fun c => !endsPath c))
  if path.isEmpty && !special then ⟨scheme, authority, [], query, fragment⟩
  else
    let rooted := (path.head?.map (UriPath.isSlash special)).getD false
    let inside := if rooted then path.drop 1 else path
    let (shown, onDrive) := UriPath.ofChars special (kind = .file) inside
    let authority := if onDrive then some ⟨[], [], .name [], none⟩ else authority
    ⟨scheme, authority, shown, query, fragment⟩

/-- The URI with an opaque path. -/
def withOpaquePath (scheme : List Char) (text : List Char) : Uri :=
  let (query, fragment) := splitQuery false (text.dropWhile fun c => !endsPath c)
  ⟨scheme, none, Percent.encode Percent.control (text.takeWhile fun c => !endsPath c), query,
    fragment⟩

/-- What follows two slashes of either kind. -/
def behindSlashes? (text : List Char) : Option (List Char) :=
  match text.dropWhile Text.isBreak with
  | [] => none
  | first :: behind =>
    match behind.dropWhile Text.isBreak with
    | [] => none
    | second :: rest =>
      if UriPath.isSlash true first && UriPath.isSlash true second then some rest else none

/-- A file URI, breaks included: two slashes announce a host, unless a drive letter follows them.
Where no host is written, a slash stands for it in front of the path, so that the slash of the path
itself opens a second segment. -/
def ofFile (text : List Char) : Except UriFault Uri := do
  let scheme := "file".toList
  let nowhere : Authority := ⟨[], [], .name [], none⟩
  match behindSlashes? text with
  | none => return withPath scheme .file (some nowhere) text
  | some rest =>
    let hostText := Text.joined (rest.takeWhile fun c => !endsAuthority true c)
    let behind := rest.dropWhile fun c => !endsAuthority true c
    if UriPath.isDrive hostText || hostText.isEmpty then
      return withPath scheme .file (some nowhere) ('/' :: rest)
    let host ← Host.ofDomain hostText
    if host = .name "localhost".toList then
      return withPath scheme .file (some nowhere) ('/' :: behind)
    return withPath scheme .file (some { nowhere with host }) behind

/-- The absolute URI that a text spells. -/
def ofText (text : String) : Except UriFault Uri :=
  match splitScheme? (trim text.toList) with
  | none => .error .relative
  | some (scheme, rest) =>
    match SchemeKind.ofScheme scheme with
    | .file => ofFile rest
    | .special portNumber => do
      let kind := SchemeKind.special portNumber
      let (authority, path) ← readAuthority kind
        ((Text.joined rest).dropWhile (UriPath.isSlash true))
      return withPath scheme kind (some authority) path
    | .other =>
      match Text.joined rest with
      | '/' :: '/' :: behind => do
        let (authority, path) ← readAuthority .other behind
        return withPath scheme .other (some authority) path
      | '/' :: path => .ok (withPath scheme .other none ('/' :: path))
      | opaquePath => .ok (withOpaquePath scheme opaquePath)

end Uri

end SimplePki
