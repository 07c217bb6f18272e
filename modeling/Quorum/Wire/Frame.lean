import Quorum.Message.Format

/-!
# Frames

How a message travels between two nodes: in an envelope that names its
sender, as compact JSON, behind its length in four octets. Each connection
carries one frame, and whatever follows the frame is ignored.
-/

namespace Quorum

/-- A message with its sender. -/
structure Envelope where
  sender : NodeId
  message : Message
  deriving DecidableEq, Repr

namespace Envelope

def toJson (e : Envelope) : Json :=
  .record [("from", .nat e.sender), ("message", e.message.toJson)]

def ofJson? (v : Json) : Option Envelope := do
  let [sender, message] ← v.fields? ["from", "message"] .skipped | none
  return {
    sender := ← Json.required? Json.word? sender
    message := ← Json.required? Message.ofJson? message }

end Envelope

/-- Why a message is not sent. -/
inductive SendError where
  | unknownPeer (peer : NodeId)
  | frameTooLarge (length : Nat)
  deriving DecidableEq, Repr

/-- The text that describes why a message is not sent. -/
def SendError.message : SendError → String
  | .unknownPeer peer => "unknown peer: " ++ NodeId.label peer
  | .frameTooLarge length => "frame of " ++ Text.decimal length ++ " bytes exceeds limit"

inductive FrameError where
  /-- The connection ended before the frame did. -/
  | incomplete
  | tooLarge (length : Nat)
  | invalidEnvelope
  deriving DecidableEq, Repr

namespace Frame

/-- The longest payload of a frame, in octets. -/
def limit : Nat := 64 * 1024 * 1024

/-- A length in four octets, the most significant one first. -/
def header (length : Nat) : List UInt8 :=
  [.ofNat (length / 256 / 256 / 256), .ofNat (length / 256 / 256), .ofNat (length / 256),
    .ofNat length]

/-- The length that four octets write. -/
def lengthOf (a b c d : UInt8) : Nat :=
  ((a.toNat * 256 + b.toNat) * 256 + c.toNat) * 256 + d.toNat

def payload (e : Envelope) : List UInt8 :=
  Text.Utf8.encode e.toJson.write

/-- The octets of the frame that carries an envelope. -/
def write (e : Envelope) : Except SendError (List UInt8) :=
  let content := payload e
  if limit < content.length then .error (.frameTooLarge content.length)
  else .ok (header content.length ++ content)

/-- The envelope at the start of what a connection delivers. -/
def read : List UInt8 → Except FrameError Envelope
  | a :: b :: c :: d :: rest =>
    let length := lengthOf a b c d
    if limit < length then .error (.tooLarge length)
    else if rest.length < length then .error .incomplete
    else
      match (Json.ofOctets? (rest.take length)).bind Envelope.ofJson? with
      | some e => .ok e
      | none => .error .invalidEnvelope
  | _ => .error .incomplete

end Frame

/-- One end of the connections between nodes. -/
structure Endpoint where
  self : NodeId
  peers : List NodeId
  deriving DecidableEq, Repr

/-- The frame that carries a message to a peer. -/
def Endpoint.send (e : Endpoint) (receiver : NodeId) (message : Message) :
    Except SendError (List UInt8) :=
  if e.peers.contains receiver then Frame.write ⟨e.self, message⟩
  else .error (.unknownPeer receiver)

end Quorum
