/-!
# Why a text is no URI

## Main definitions

* `UriFault` and its wording
-/

namespace SimplePki

/-- Why a text is no absolute URI. -/
inductive UriFault where
  | emptyHost
  | forbiddenDomain
  | invalidPort
  | invalidIpv4
  | invalidIpv6
  | forbiddenHost
  | relative
  deriving DecidableEq, Repr

/-- The wording of a fault. -/
def UriFault.message : UriFault → String
  | .emptyHost => "empty host"
  | .forbiddenDomain => "invalid international domain name"
  | .invalidPort => "invalid port number"
  | .invalidIpv4 => "invalid IPv4 address"
  | .invalidIpv6 => "invalid IPv6 address"
  | .forbiddenHost => "invalid domain character"
  | .relative => "relative URL without a base"

end SimplePki
