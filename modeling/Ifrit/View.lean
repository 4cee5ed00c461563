import Ifrit.Wire

/-!
# The view

A node's local state: its own id, address and note, the peer records, and the maps of view.go
(`viewMap`, `liveMap`, `timeoutMap`) with the gossip data map of node.go. The maps hold
pointers to shared peer records, so the records live in a heap indexed by `Ref` and a map holds
references: a note stored through the view's pointer is seen through the live map's exactly
when both point at one record.

view.go, peer.go and the protocol strategies are not among the sources. The helpers below that
stand for them are modelled from the spec, and what the view answers from its rings, together
with the ecdsa checks, are the fields of `Env`: every result quantifies over them.
-/

namespace Ifrit

/-- A Go map with byte-string keys: an association list with distinct keys, read and written
through the non-dependent `get?`, `set` and `delete`. -/
abbrev GoMap (α : Type) := AList fun _ : Bytes => α

namespace GoMap

variable {α : Type}

/-- `v, ok := m[k]`. -/
def get? (m : GoMap α) (k : Bytes) : Option α := m.lookup k

/-- `m[k] = v`. -/
def set (m : GoMap α) (k : Bytes) (v : α) : GoMap α := m.insert k v

/-- `delete(m, k)`. -/
def delete (m : GoMap α) (k : Bytes) : GoMap α := m.erase k

@[simp] theorem get?_empty (k : Bytes) : (∅ : GoMap α).get? k = none := rfl

@[simp] theorem get?_set_self (m : GoMap α) (k : Bytes) (v : α) : (m.set k v).get? k = some v :=
  AList.lookup_insert m

@[simp] theorem get?_set_ne (m : GoMap α) {k k' : Bytes} (v : α) (other : k' ≠ k) :
    (m.set k v).get? k' = m.get? k' :=
  AList.lookup_insert_ne other

theorem get?_set (m : GoMap α) (k : Bytes) (v : α) (k' : Bytes) :
    (m.set k v).get? k' = if k' = k then some v else m.get? k' := by
  split <;> simp_all

@[simp] theorem get?_delete_self (m : GoMap α) (k : Bytes) : (m.delete k).get? k = none :=
  AList.lookup_erase k m

@[simp] theorem get?_delete_ne (m : GoMap α) {k k' : Bytes} (other : k' ≠ k) :
    (m.delete k).get? k' = m.get? k' :=
  AList.lookup_erase_ne other

theorem get?_of_mem (m : GoMap α) {k : Bytes} {v : α} (member : ⟨k, v⟩ ∈ m.entries) :
    m.get? k = some v :=
  AList.mem_lookup_iff.2 member

end GoMap

abbrev Ref := Nat

/-- A peer record (`peer`): its id, which is also its map key `string(SubjectKeyId)`, its
address `Locality[0]`, the certificate it was built from, its most recent note and its current
accusation. -/
structure Peer where
  key : Bytes
  addr : String
  cert : Certificate
  recentNote : Option Note
  accusation : Option Accusation
  deriving DecidableEq, Repr, Inhabited

/-- A running timer (`timeout`): the accuser, the accused's note when it started, and its
address. The timestamp is left out: only the timeout sweep reads it. -/
structure Timeout where
  observer : Ref
  lastNote : Option Note
  addr : String
  deriving DecidableEq, Repr

/-- A node's state. `gossipDataMap` is a Go map value: `none` is the nil map, which reads as
empty and panics on a write. -/
structure Node where
  peerId : Bytes
  localAddr : String
  recentNote : Note
  heap : Ref → Peer
  next : Ref
  viewMap : GoMap Ref
  liveMap : GoMap Ref
  timeoutMap : GoMap Timeout
  gossipDataMap : Option (GoMap Bytes)

/-- What the merge paths ask of code outside the sources: `validateSignature(r, s, b, key)`
(false on an error as on a bad signature: both drop the record), `x509.ParseCertificate`, a
signature by the local key, and the ring queries of the view. -/
structure Env where
  validateSignature : Bytes → Bytes → Payload → Bytes → Bool
  parseCertificate : Bytes → Option Certificate
  sign : Payload → Signature
  shouldBeNeighbours : Bytes → Bool
  findNeighbours : Bytes → List Bytes
  isHigherRank : Bytes → Bytes → Bool
  isPrev : Bytes → Bytes → Bool

namespace Node

/-! ### Lookups -/

def getViewPeer (n : Node) (key : Bytes) : Option Ref := n.viewMap.get? key

def viewPeerExist (n : Node) (key : Bytes) : Bool := (n.viewMap.get? key).isSome

def getLivePeer (n : Node) (key : Bytes) : Option Ref := n.liveMap.get? key

def timerExist (n : Node) (key : Bytes) : Bool := (n.timeoutMap.get? key).isSome

/-- Modelled from the spec: `getView` (view.go) lists the records of the view map. -/
def getView (n : Node) : List Peer := n.viewMap.entries.map fun e => n.heap e.2

/-! ### Updates -/

/-- Modelled from the spec: `addViewPeer(p)` (view.go) files `p` under its key. -/
@[simps]
def addViewPeer (n : Node) (r : Ref) : Node :=
  { n with viewMap := n.viewMap.set (n.heap r).key r }

/-- Modelled from the spec: `addLivePeer(p)` (view.go) files `p` in the live map. -/
@[simps]
def addLivePeer (n : Node) (r : Ref) : Node :=
  { n with liveMap := n.liveMap.set (n.heap r).key r }

/-- Modelled from the spec: `startTimer` (view.go) creates the timeout entry of `key`. -/
@[simps]
def startTimer (n : Node) (key : Bytes) (lastNote : Option Note) (observer : Ref)
    (addr : String) : Node :=
  { n with timeoutMap := n.timeoutMap.set key ⟨observer, lastNote, addr⟩ }

/-- Modelled from the spec: `deleteTimeout` (view.go) clears the timeout entry of `key`. -/
@[simps]
def deleteTimeout (n : Node) (key : Bytes) : Node :=
  { n with timeoutMap := n.timeoutMap.delete key }

/-- A write through the pointer `r`. -/
@[simps]
def setPeer (n : Node) (r : Ref) (p : Peer) : Node :=
  { n with heap := Function.update n.heap r p }

/-- A write that keeps one field of the record it replaces keeps that field of every record. -/
theorem update_field {β : Type} (f : Peer → β) {heap : Ref → Peer} {r : Ref} {p : Peer}
    (same : f p = f (heap r)) (r' : Ref) : f (Function.update heap r p r') = f (heap r') := by
  rw [Function.apply_update (fun _ => f), same, Function.update_eq_self]

/-- Modelled from the spec: `p.setNote` (peer.go) replaces the stored note. -/
@[simps!]
def setNote (n : Node) (r : Ref) (note : Note) : Node :=
  n.setPeer r { n.heap r with recentNote := some note }

/-- Modelled from the spec: `p.setAccusation` (peer.go) records the accusation. -/
@[simps!]
def setAccusation (n : Node) (r : Ref) (a : Accusation) : Node :=
  n.setPeer r { n.heap r with accusation := some a }

/-- Modelled from the spec: `p.removeAccusation` (peer.go) clears it. -/
@[simps!]
def removeAccusation (n : Node) (r : Ref) : Node :=
  n.setPeer r { n.heap r with accusation := none }

/-- A fresh record, as `newPeer` returns a fresh pointer. -/
@[simps]
def alloc (n : Node) (p : Peer) : Node :=
  { n with heap := Function.update n.heap n.next p, next := n.next + 1 }

/-- Modelled from the spec: `setEpoch` (node.go) puts the epoch in the local note and signs it
again ("resign local note"). It stores its argument as it is: the spec's
`max(currentEpoch, epoch) + 1` is not modelled here, and its only caller, `evalAccusation`,
passes `epoch + 1` (udp.go line 253). -/
@[simps]
def setEpoch (env : Env) (n : Node) (epoch : UInt64) : Node :=
  { n with recentNote := ⟨n.peerId, epoch, env.sign (.note epoch n.peerId)⟩ }

end Node

/-- Modelled from the spec: `newPeer(nil, cert)` (peer.go) builds a peer from a certificate,
its id from `SubjectKeyId` and its address from the locality field; with no locality there is
no address and it fails. -/
def newPeer (cert : Certificate) : Option Peer :=
  match cert.locality with
  | [] => none
  | addr :: _ => some ⟨cert.subjectKeyId, addr, cert, none, none⟩

theorem newPeer_key {cert : Certificate} {p : Peer} (built : newPeer cert = some p) :
    p.key = cert.subjectKeyId ∧ p.accusation = none := by
  unfold newPeer at built
  split at built <;> cases built
  exact ⟨rfl, rfl⟩

end Ifrit
