import SimplePki.Key

/-!
# Names

A name is a key followed by identifiers in that key's name space: no identifier names the key
itself, one is a local name, more lead through the name spaces of others.  A name without a key
belongs to whoever issues the statement it stands in, and is written `Self`.

## Main definitions

* `Name`, `Name.child`, `Name.localPart`: names and the steps between them
* `Name.sameAs`: names of the same key and identifiers
* `Name.overlaps`: names that agree as far as both go
* `Name.encode`, `Name.decode`
-/

namespace SimplePki

/-- A key, or whoever speaks, and identifiers in its name space. -/
structure Name where
  principal : Option Key
  names : List String
  deriving DecidableEq, Repr

namespace Name

/-- How the absent key is written. -/
def selfWord : String := "Self"

/-- The name of a key itself. -/
def ofKey (key : Key) : Name := ⟨some key, []⟩

/-- The name of whoever speaks. -/
def speaker : Name := ⟨none, []⟩

/-- The name with one more identifier. -/
def child (name : Name) (identifier : String) : Name :=
  { name with names := name.names ++ [identifier] }

/-- Whether the name is that of a key itself. -/
def isPrincipal (name : Name) : Bool := name.principal.isSome && name.names.isEmpty

/-- Whether the name has one identifier at most. -/
def isLocal (name : Name) : Bool := name.names.length ≤ 1

/-- The name with its first identifier only. -/
def localPart (name : Name) : Name := { name with names := name.names.take 1 }

/-- Whether two names have the same key, or none, and the same identifiers. -/
def sameAs (installed : Installed) (a b : Name) : Bool :=
  let principals := match a.principal, b.principal with
    | none, none => true
    | some mine, some theirs => mine.sameAs installed theirs
    | _, _ => false
  principals && a.names == b.names

/-- Whether a name agrees with another as far as both go: in the key, unless the first has none,
and in the identifiers at the places where both have one. -/
def overlaps (installed : Installed) (a b : Name) : Bool :=
  let principals := match a.principal, b.principal with
    | none, _ => true
    | some mine, some theirs => mine.sameAs installed theirs
    | some _, none => false
  principals && (a.names.zip b.names).all fun (mine, theirs) => mine == theirs

/-- The expression of a name: its key alone, or `(name KEY IDENTIFIER...)`. -/
def encode (name : Name) : Outcome SExpr := do
  let principal ← match name.principal with
    | some key => key.encode
    | none => pure (.text selfWord)
  if name.names.isEmpty then return principal
  else return .list (.text "name" :: principal :: name.names.map .text)

/-- The key in a name, or none for `Self`. -/
def decodePrincipal (installed : Installed) (expr : SExpr) : Outcome (Option Key) :=
  if expr.isText selfWord then .ok none else (Key.decode installed expr).map some

/-- An identifier in a name. -/
def decodeIdentifier (expr : SExpr) : Outcome String :=
  match expr.text? with
  | some text => .ok text
  | none => .error (.expression (.nameNotText expr))

/-- The name of a key expression, of `Self`, or of `(name KEY IDENTIFIER...)`. -/
def decode (installed : Installed) (expr : SExpr) : Outcome Name :=
  match expr.tagged? "name" with
  | some (_ :: principal :: first :: rest) => do
    let principal ← decodePrincipal installed principal
    return ⟨principal, ← (first :: rest).mapM decodeIdentifier⟩
  | some _ => .error (.expression .notName)
  | none => do return ⟨← decodePrincipal installed expr, []⟩

end Name

end SimplePki
