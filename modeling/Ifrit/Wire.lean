import Mathlib.Data.List.AList
import Mathlib.Data.UInt

/-!
# Certificates, signatures and gossip messages

The records the membership engine reads off the wire. Byte strings are lists of bytes, and a
Go map key `string(b)` is the byte string `b` itself. A signature covers the text
`fmt.Sprintf("%v", tmp)` of a message with only some fields set; that formatting is injective,
so `Payload` keeps the fields in place of the text.
-/

namespace Ifrit

abbrev Bytes := List UInt8

/-- An ecdsa signature as the protobuf carries it. -/
structure Signature where
  r : Bytes
  s : Bytes
  deriving DecidableEq, Repr

/-- The part of an x509 certificate the node reads: `Raw`, `SubjectKeyId`,
`Subject.Locality`, the public key and the extensions as (object identifier, value). -/
structure Certificate where
  raw : Bytes
  subjectKeyId : Bytes
  locality : List String
  publicKey : Bytes
  extensions : List (List Nat × Bytes)
  deriving DecidableEq, Repr, Inhabited

/-- What a signature is checked against. -/
inductive Payload where
  | note (epoch : UInt64) (id : Bytes)
  | accusation (epoch : UInt64) (accuser accused : Bytes)
  deriving DecidableEq, Repr

/-! ### The protobuf messages of package `gossip` -/

namespace Pb

structure Note where
  epoch : UInt64
  id : Bytes
  signature : Signature
  deriving DecidableEq, Repr

structure Accusation where
  epoch : UInt64
  accuser : Bytes
  accused : Bytes
  signature : Signature
  deriving DecidableEq, Repr

structure Certificate where
  raw : Bytes
  deriving DecidableEq, Repr

structure Data where
  id : Bytes
  content : Bytes
  deriving DecidableEq, Repr

structure GossipMsg where
  certificates : List Certificate
  notes : List Note
  accusations : List Accusation
  ownNote : Note
  data : List Data
  deriving DecidableEq, Repr

structure Partners where
  certificates : List Certificate
  deriving DecidableEq, Repr

end Pb

/-! ### The node's own records of peer state -/

/-- A stored note (`note`): whose it is, its epoch and the signature it came with. -/
structure Note where
  peerId : Bytes
  epoch : UInt64
  signature : Signature
  deriving DecidableEq, Repr

/-- A stored accusation (`accusation`): the accused, the epoch, the accuser. -/
structure Accusation where
  peerId : Bytes
  epoch : UInt64
  accuser : Bytes
  signature : Signature
  deriving DecidableEq, Repr

def Note.toPbMsg (n : Note) : Pb.Note := ⟨n.epoch, n.peerId, n.signature⟩

def Accusation.toPbMsg (a : Accusation) : Pb.Accusation :=
  ⟨a.epoch, a.accuser, a.peerId, a.signature⟩

/-- `currNote == nil || currNote.epoch < epoch`: the stored note, if any, is older. -/
def olderThan (note : Option Note) (epoch : UInt64) : Bool :=
  match note with
  | none => true
  | some c => decide (c.epoch < epoch)

@[simp] theorem olderThan_none (epoch : UInt64) : olderThan none epoch = true := rfl

@[simp] theorem olderThan_some (c : Note) (epoch : UInt64) :
    olderThan (some c) epoch = decide (c.epoch < epoch) := rfl

end Ifrit
