import A2AEvents.Native.Selectors

/-!
# The SSRF guard

`runtime/ssrf.py`: a delivery endpoint is refused for its scheme, for the name of its host, or for
the class of an address that the host spells. Host names are looked up only if the policy brings a
resolver.

`urllib.parse`, `str.lower` and the reading of IPv6 addresses are parameters. IPv4 addresses are
read, and put into classes, as `ipaddress` does it.
-/

namespace A2AEvents

/-! ## URLs -/

/-- What `urllib.parse` makes of a URL. Its host name is in lower case; reading the port raises
    `ValueError` if there is no port number. -/
structure UrlParts where
  scheme : String
  hostname : Option String := none
  port : Except PyError (Option Nat) := .ok none

/-! ## Addresses -/

/-- The classes that `ipaddress` puts an address into. -/
structure IpAddress where
  isLoopback : Bool
  isLinkLocal : Bool
  isPrivate : Bool
  isReserved : Bool
  isUnspecified : Bool
  isMulticast : Bool
  deriving DecidableEq

namespace IPv4

/-- The number of a dotted quad. -/
def quad (a b c d : Nat) : Nat := ((a * 256 + b) * 256 + c) * 256 + d

/-- The addresses that share their first `width` bits with `base`. -/
def inNetwork (base width addr : Nat) : Bool := addr / 2 ^ (32 - width) = base / 2 ^ (32 - width)

def privateNetworks : List (Nat × Nat) :=
  [(quad 0 0 0 0, 8), (quad 10 0 0 0, 8), (quad 127 0 0 0, 8), (quad 169 254 0 0, 16), (quad 172 16 0 0, 12),
   (quad 192 0 0 0, 24), (quad 192 0 0 170, 31), (quad 192 0 2 0, 24), (quad 192 168 0 0, 16),
   (quad 198 18 0 0, 15), (quad 198 51 100 0, 24), (quad 203 0 113 0, 24), (quad 240 0 0 0, 4),
   (quad 255 255 255 255, 32)]

def privateNetworksExceptions : List (Nat × Nat) := [(quad 192 0 0 9, 32), (quad 192 0 0 10, 32)]

/-- The classes of an address. -/
def classify (addr : Nat) : IpAddress where
  isLoopback := inNetwork (quad 127 0 0 0) 8 addr
  isLinkLocal := inNetwork (quad 169 254 0 0) 16 addr
  isPrivate := privateNetworks.any (fun net => inNetwork net.1 net.2 addr) &&
    !privateNetworksExceptions.any fun net => inNetwork net.1 net.2 addr
  isReserved := inNetwork (quad 240 0 0 0) 4 addr
  isUnspecified := addr = 0
  isMulticast := inNetwork (quad 224 0 0 0) 4 addr

/-- `_parse_octet`: one to three ASCII digits, without a leading zero, up to 255. -/
def parseOctet (octet : List Char) : Option Nat :=
  let value := octet.foldl (fun n c => 10 * n + (c.toNat - 48)) 0
  if octet = [] ∨ octet.all Char.isDigit = false ∨ octet.length > 3 then none
  else if octet ≠ ['0'] ∧ octet.head? = some '0' then none
  else if value > 255 then none
  else some value

/-- The address that a text spells. -/
def parse (text : List Char) : Option Nat :=
  if '/' ∈ text then none
  else
    match (splitOn '.' text).map parseOctet with
    | [some a, some b, some c, some d] => some (quad a b c d)
    | _ => none

end IPv4

/-- The parts of the standard library that the guard uses. `urlsplit` may raise `ValueError`. -/
structure UrlLib where
  urlsplit : String → Except PyError UrlParts
  lower : String → String
  parseIPv6 : String → Option IpAddress

/-- `ipaddress.ip_address`, where it does not raise. -/
def UrlLib.ipAddress (lib : UrlLib) (text : String) : Option IpAddress :=
  match IPv4.parse text.toList with
  | some addr => some (IPv4.classify addr)
  | none => lib.parseIPv6 text

/-! ## The guard -/

structure SSRFPolicy where
  blockLoopback : Bool := true
  blockPrivate : Bool := true
  blockLinkLocal : Bool := true
  blockReserved : Bool := true
  requireHttps : Bool := false
  allowHosts : List String := []
  resolve : Option (String → List String) := none

def loopbackHostnames : List String := ["localhost"]

/-- `text.endswith(ending)`. -/
def endsWith (ending text : String) : Bool := ending.toList.isSuffixOf text.toList

def rejectEndpoint (url reason : String) : Except PyError Unit :=
  raiseA2A .deliveryEndpointBlocked ("Delivery endpoint is not allowed: " ++ reason ++ ".")
    [("endpoint", .str url), ("reason", .str reason)]

def screenIp (url : String) (ip : IpAddress) (policy : SSRFPolicy) : Except PyError Unit :=
  if policy.blockLoopback && ip.isLoopback then rejectEndpoint url "loopback address"
  else if policy.blockLinkLocal && ip.isLinkLocal then rejectEndpoint url "link-local address"
  else if policy.blockPrivate && ip.isPrivate then rejectEndpoint url "private address"
  else if policy.blockReserved && (ip.isReserved || ip.isUnspecified || ip.isMulticast) then
    rejectEndpoint url "reserved address"
  else .ok ()

/-- Screen the addresses that a host name resolves to, one after the other. -/
def screenResolved (lib : UrlLib) (url : String) (policy : SSRFPolicy) : List String → Except PyError Unit
  | [] => .ok ()
  | addr :: rest => do
    match lib.ipAddress addr with
    | none => .error (.valueError (repr addr ++ " does not appear to be an IPv4 or IPv6 address"))
    | some ip =>
      screenIp url ip policy
      screenResolved lib url policy rest

/-- What is asked of a host that is not on the allow list. -/
def checkHost (lib : UrlLib) (url host : String) (policy : SSRFPolicy) : Except PyError Unit :=
  if policy.blockLoopback && (host ∈ loopbackHostnames || endsWith ".localhost" host) then
    rejectEndpoint url "loopback hostname"
  else
    match lib.ipAddress host with
    | some literal => screenIp url literal policy
    | none =>
      match policy.resolve with
      | none => .ok ()
      | some resolve =>
        let addresses := resolve host
        if addresses.isEmpty then rejectEndpoint url "host did not resolve"
        else screenResolved lib url policy addresses

def checkEndpoint (lib : UrlLib) (url : String) (policy : SSRFPolicy) : Except PyError Unit := do
  let parts ← lib.urlsplit url
  let scheme := lib.lower parts.scheme
  if scheme ∉ ["http", "https"] then rejectEndpoint url ("unsupported scheme " ++ repr scheme)
  else if policy.requireHttps && scheme != "https" then rejectEndpoint url "https required"
  else
    match parts.hostname with
    | none | some "" => rejectEndpoint url "missing host"
    | some host =>
      let host := lib.lower host
      if host ∈ policy.allowHosts then .ok () else checkHost lib url host policy

end A2AEvents
