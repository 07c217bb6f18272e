import Quorum.SystemError
import Quorum.Wire.Address
import Quorum.Wire.Frame
import Quorum.Wire.Http

/-!
# The network under the wire formats

Frames and HTTP calls travel over connections that have to be dialled first.
Where the network has no route to the other side, dialling fails before
anything is sent, and the other side sees nothing at all. To be dialled, a
server has to take an address that its machine holds and no one else has
taken.
-/

namespace Quorum

/-- What the network of a machine is like. -/
inductive Network where
  /-- The machine holds the addresses of its loopback, and reaches them. -/
  | connected
  /-- The machine holds no address and has a route to nowhere. -/
  | routeless
  deriving DecidableEq, Repr

/-- Why the network refuses a connection or an address. -/
inductive NetworkError where
  | unreachable
  | addressInUse
  | addressNotAvailable
  /-- The address is of a kind that no server can take. -/
  | invalidAddress
  /-- The zone of an address is not one of the machine. -/
  | noSuchZone
  deriving DecidableEq, Repr

/-- How the operating system reports that the network refuses something. -/
def NetworkError.system : NetworkError → SystemError
  | .unreachable => ⟨101, "NetworkUnreachable", "Network is unreachable"⟩
  | .addressInUse => ⟨98, "AddrInUse", "Address already in use"⟩
  | .addressNotAvailable => ⟨99, "AddrNotAvailable", "Cannot assign requested address"⟩
  | .invalidAddress => ⟨22, "InvalidInput", "Invalid argument"⟩
  | .noSuchZone => ⟨19, "Uncategorized", "No such device"⟩

namespace Network

/-- Opens a connection. -/
def dial : Network → Except NetworkError Unit
  | .connected => .ok ()
  | .routeless => .error .unreachable

/-- Sends the octets of a frame on a connection of their own, and closes it:
what the receiver makes of them. -/
def deliver (network : Network) (octets : List UInt8) :
    Except NetworkError (Except FrameError Envelope) := do
  network.dial
  return Frame.read octets

/-- Makes an HTTP call on a connection of its own. -/
def call (network : Network) (call : Http.Call) (handling : Http.Handling) :
    Except NetworkError Http.Response := do
  network.dial
  return Http.respond call handling

/-- Four octets that a server can take. A machine that holds no address cannot
tell whose one is, and lets a server take any. -/
def holdsOctets (network : Network) (a b c d : Nat) : Bool :=
  match network with
  | .connected => a == 127 || [a, b, c, d] == [0, 0, 0, 0]
  | .routeless => true

/-- Why a server cannot take the address of a host, if it cannot. Every machine
holds the unspecified address, and its loopback is its only zone. -/
def refusal? (network : Network) : HostAddress → Option NetworkError
  | .octets a b c d => if network.holdsOctets a b c d then none else some .addressNotAvailable
  | .groups parts zone =>
    match parts with
    | [0, 0, 0, 0, 0, 0, 0, 0] => none
    | [0, 0, 0, 0, 0, 0, 0, 1] =>
      if network = .connected then none else some .addressNotAvailable
    | [0, 0, 0, 0, 0, 65535, high, low] =>
      if network.holdsOctets (high / 256) (high % 256) (low / 256) (low % 256) then none
      else some .addressNotAvailable
    | first :: _ =>
      if 0xFF00 ≤ first then some .invalidAddress
      else if 0xFE80 ≤ first ∧ first < 0xFEC0 then
        if zone = 0 then some .invalidAddress
        else if zone = 1 then some .addressNotAvailable
        else some .noSuchZone
      else some .addressNotAvailable
    | [] => some .invalidAddress

/-- Lets a server take an address, when others have taken the addresses
`taken`. Port zero stands for any port that is free. -/
def bind (network : Network) (address : SocketAddress) (taken : List SocketAddress) :
    Except NetworkError Unit :=
  match network.refusal? address.host with
  | some cause => .error cause
  | none => if address.port ≠ 0 ∧ address ∈ taken then .error .addressInUse else .ok ()

end Network

end Quorum
