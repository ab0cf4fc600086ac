import PatchAudit.Service.Address

/-!
# Where a client comes from

A browser names the page that opens a connection.  Only pages of the local machine are let in, and
clients that name no page.  The name is an address, of which everything but the host may be missing.
-/

namespace PatchAudit

namespace Origin

open Address

/-- Whether a text is empty or a colon followed by digits only. -/
def isPort : Bytes → Bool
  | [] => true
  | b :: r => b == 0x3A && r.all Bytes.isDigit

/-- Whether a text may stand in front of the host. -/
def isUser (s : Bytes) : Bool :=
  Percent.isWellFormed s
    && s.all fun b => Percent.isPlain b || (Bytes.ofString ":!$&'()*+,;=%@").contains b

/-- The host without its port and brackets. -/
def bareHost? (host : Bytes) : Option Bytes :=
  match host with
  | 0x5B :: r =>
    match cutAtLast 0x5D r with
    | (some inner, port) => if isPort port then some inner else none
    | (none, _) => none
  | _ =>
    match cutAtLast 0x3A host with
    | (some name, digits) => if digits.all Bytes.isDigit then some name else none
    | (none, _) => some host

/-- The host of an authority, which may begin with a user. -/
def hostOfAuthority? (authority : Bytes) : Option Bytes :=
  match cutAtLast 0x40 authority with
  | (some user, host) => if isUser user then bareHost? host else none
  | (none, host) => bareHost? host

/-- The host of what follows the scheme, up to the query.  It is empty if there is no authority. -/
def hostOfRest? (hasScheme : Bool) (rest : Bytes) : Option Bytes :=
  match rest with
  | 0x2F :: 0x2F :: r =>
    if !hasScheme && r.head? == some 0x2F then if Percent.isWellFormed rest then some [] else none
    else
      let (authority, path) := r.span (· != 0x2F)
      if Percent.isWellFormed path then hostOfAuthority? authority else none
  | 0x2F :: _ => if Percent.isWellFormed rest then some [] else none
  | _ =>
    if hasScheme then some []
    else if (rest.takeWhile (· != 0x2F)).contains 0x3A || !Percent.isWellFormed rest then none
    else some []

/-- The host of an address, if it is one. -/
def host? (origin : Bytes) : Option Bytes :=
  let (address, part) := cutAt 0x23 origin
  if address.any (fun b => b < 0x20 || b == 0x7F) || !Percent.isWellFormed part then none
  else
    match splitScheme address with
    | none => none
    | some (scheme, rest) => hostOfRest? (!scheme.isEmpty) (cutAt 0x3F rest).1

/-- The names of the local machine. -/
def localHosts : List Bytes := ["localhost", "127.0.0.1", "::1"]

/-- Whether a client that names this origin is let in. -/
def isLocal (origin : Bytes) : Bool :=
  origin.isEmpty ||
    match host? origin with
    | some host => localHosts.contains host
    | none => false

end Origin

end PatchAudit
