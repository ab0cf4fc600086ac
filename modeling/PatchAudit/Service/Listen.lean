import PatchAudit.Text.Bytes

/-!
# Where the service listens

A host and a port make an address `host:port`.  A host with colons in it has to stand in brackets.
-/

namespace PatchAudit

/-- Why the service cannot listen at an address. -/
inductive ListenError where
  | missingPort (address : Bytes)
  | tooManyColons (address : Bytes)
  | missingBracket (address : Bytes)
  | strayOpening (address : Bytes)
  | strayClosing (address : Bytes)
  | badPort (port : Int)
  deriving DecidableEq, Repr

/-- The wording of an error. -/
def ListenError.message : ListenError → Bytes
  | missingPort a => "listen tcp: address " ++ a ++ ": missing port in address"
  | tooManyColons a => "listen tcp: address " ++ a ++ ": too many colons in address"
  | missingBracket a => "listen tcp: address " ++ a ++ ": missing ']' in address"
  | strayOpening a => "listen tcp: address " ++ a ++ ": unexpected '[' in address"
  | strayClosing a => "listen tcp: address " ++ a ++ ": unexpected ']' in address"
  | badPort port => "listen tcp: address " ++ Bytes.ofInt port ++ ": invalid port"

namespace ListenAddress

/-- What is wrong with the host of an address. -/
def hostFault? (address host : Bytes) : Option ListenError :=
  match host with
  | 0x5B :: inner =>
    let rest := inner.dropWhile (· != 0x5D)
    match rest with
    | [] => some (.missingBracket address)
    | [_] =>
      if (inner.dropLast).contains 0x5B then some (.strayOpening address) else none
    | _ :: b :: _ => some (if b = 0x3A then .tooManyColons address else .missingPort address)
  | _ =>
    if host.contains 0x3A then some (.tooManyColons address)
    else if host.contains 0x5B then some (.strayOpening address)
    else if host.contains 0x5D then some (.strayClosing address)
    else none

/-- The address of a host and a port, if the service can listen there. -/
def make (host : Bytes) (port : Int) : Except ListenError Bytes :=
  let address := host ++ ":" ++ Bytes.ofInt port
  match hostFault? address host with
  | some why => .error why
  | none => if 0 ≤ port ∧ port ≤ 65535 then .ok address else .error (.badPort port)

end ListenAddress

end PatchAudit
