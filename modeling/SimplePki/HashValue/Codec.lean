import SimplePki.Digest.Registry
import SimplePki.Error

/-!
# Computing and reading hash values

Both ask the registry of the process: without one, nothing can be hashed, and a hash under an
algorithm that is not registered is not even read.

## Main definitions

* `Installed.registry`: the registry, if one is installed
* `HashValue.compute`, `HashValue.ofExpr`: the hash of octets and of an expression
* `HashValue.decode`, `HashValue.decodeUris`: hash expressions and their places
-/

namespace SimplePki

/-- The registry of the process. -/
def Installed.registry (installed : Installed) : Outcome Registry :=
  match installed with
  | some registry => .ok registry
  | none => .error .noRegistry

/-- The algorithm of a name, if the registry holds it. -/
def Registry.find (registry : Registry) (name : String) : Outcome DigestAlgorithm :=
  match registry.get? name with
  | some alg => .ok alg
  | none => .error (.unknownAlgorithm name)

/-- The registry of the algorithms with given names. -/
def Registry.ofNamesChecked (names : List String) : Outcome Registry :=
  match Registry.ofNames names with
  | .ok registry => .ok registry
  | .error name => .error (.unknownAlgorithm name)

/-- Whether the registry of the process holds an algorithm of a name. -/
def Installed.knows (installed : Installed) (name : String) : Bool :=
  match installed with
  | some registry => (registry.get? name).isSome
  | none => false

/-- The text of an unhinted atom. -/
def SExpr.text? (expr : SExpr) : Option String := expr.octets?.bind Octets.text?

namespace HashValue

/-- The hash of octets under a registered algorithm. -/
def compute (installed : Installed) (algorithm : String) (octets : Octets) : Outcome HashValue := do
  let alg ← (← installed.registry).find algorithm
  return ofDigest algorithm (alg.digest octets)

/-- The hash of the canonical encoding of an expression. -/
def ofExpr (installed : Installed) (algorithm : String) (expr : SExpr) : Outcome HashValue :=
  compute installed algorithm expr.pack

/-- A place written as a text atom. -/
def decodeUri (expr : SExpr) : Outcome Uri :=
  match expr.text? with
  | none => .error (.hashExpression .uriNotText)
  | some text =>
    match Uri.ofText text with
    | .ok uri => .ok uri
    | .error fault => .error (.uri text fault)

/-- The places of `(uris URI...)`, of which there is at least one. -/
def decodeUris (expr : SExpr) : Outcome (List Uri) :=
  match expr.tagged? "uris" with
  | some (_ :: first :: rest) => (first :: rest).mapM decodeUri
  | _ => .error (.hashExpression .notUris)

/-- The hash value of an algorithm's name, a digest and places, if the algorithm is registered and
the digest has its length. -/
def decodeParts (installed : Installed) (algorithm : String) (digest : Octets)
    (uris : Option SExpr) : Outcome HashValue := do
  let alg ← (← installed.registry).find algorithm
  if digest.length ≠ alg.size then
    throw (.hashExpression (.digestLength algorithm alg.size digest.length))
  match uris with
  | none => return ⟨algorithm, digest, []⟩
  | some uris => return ⟨algorithm, digest, ← decodeUris uris⟩

/-- The hash value of `(hash ALGORITHM DIGEST)` or `(hash ALGORITHM DIGEST (uris URI...))`. -/
def decode (installed : Installed) (expr : SExpr) : Outcome HashValue := do
  let items ← match expr.items? with
    | none => throw (.hashExpression .notList)
    | some items => pure items
  match items with
  | head :: algorithm :: digest :: rest =>
    if 1 < rest.length then throw (.hashExpression (.itemCount items.length))
    if !head.isText "hash" then throw (.hashExpression .notHash)
    match algorithm.text?, digest.octets? with
    | none, _ => throw (.hashExpression .algorithmNotText)
    | some _, none => throw (.hashExpression .digestNotAtom)
    | some algorithm, some digest => decodeParts installed algorithm digest rest.head?
  | _ => throw (.hashExpression (.itemCount items.length))

end HashValue

end SimplePki
