import Ifrit.Rpc

/-!
# Node construction and gossip content

The parts of node.go that build and read a node's state: `NewNode` once the CA has answered,
the snapshot `collectGossipContent` sends, and the gossip data map. Key generation, the
transports and the CA request are outside the state and are not modelled.
-/

namespace Ifrit

open Node

def errNoRingNum : String := "No ringnumber present in received certificate"

def errNoId : String := "No id present in received certificate"

def errNoData : String := "Gossip data has zero length"

/-- The message of the Go runtime's panic on a write to a nil map. -/
def errNilMapWrite : String := "assignment to entry in nil map"

/-- The CA's answer to `certificateRequest` (`certs`). -/
structure CertResponse where
  ownCert : Certificate
  caCert : Certificate
  knownCerts : List Certificate
  trusted : Bool

/-- The object identifier 2.5.13.37 of the ring count extension. -/
def ringNumOid : List Nat := [2, 5, 13, 37]

/-- Why `NewNode` returns no node once the CA has answered: `errNoId`, `errNoRingNum`, the
panic of `binary.LittleEndian.Uint32` on a ring count shorter than four bytes, or the error of
`newPeer` on the node's own certificate. -/
inductive NewNodeError where
  | noId
  | noRingNum
  | ringNumPanic
  | ownPeer
  deriving DecidableEq, Repr

/-- `extValue` after the loop over the certificate's extensions: the value of the last one with
the ring count's identifier. -/
def ringNumValue (extensions : List (List Nat × Bytes)) : Option Bytes :=
  extensions.foldl (fun extValue e => if e.1 = ringNumOid then some e.2 else extValue) none

/-- The node `NewNode` assembles around its own peer record, before the bootstrap loop: the
local note has epoch 1, and the gossip data map is never made, so it is nil. -/
def initial (env : Env) (p : Peer) : Node :=
  { peerId := p.key, localAddr := p.addr, recentNote := ⟨p.key, 1, env.sign (.note 1 p.key)⟩,
    heap := default, next := 0, viewMap := ∅, liveMap := ∅, timeoutMap := ∅,
    gossipDataMap := none }

/-- The bootstrap loop: every known certificate but the node's own goes through
`evalCertificate`. -/
def bootstrap (n : Node) (knownCerts : List Certificate) : Node :=
  knownCerts.foldl (fun n c => if n.peerId = c.subjectKeyId then n else evalCertificate n c) n

/-- `for _, p := range view { n.addLivePeer(p) }` over a snapshot of the view. -/
def addViewToLive (n : Node) : Node :=
  n.viewMap.entries.foldl (fun n e => n.addLivePeer e.2) n

@[simp] theorem addViewToLive_heap (n : Node) : (addViewToLive n).heap = n.heap :=
  List.foldlRecOn n.viewMap.entries (fun n e => n.addLivePeer e.2) n
    (motive := fun m => m.heap = n.heap) rfl fun _ same _ _ => same

/-- `NewNode` from the CA's answer on. The ring count is read from the first four bytes of
`extValue` but not decoded further: only the server's stream limit and the local note's mask
use it. -/
def newNode (env : Env) (certs : CertResponse) : Except NewNodeError Node :=
  if certs.ownCert.subjectKeyId.length < 1 then .error .noId
  else
    match ringNumValue certs.ownCert.extensions with
    | none => .error .noRingNum
    | some extValue =>
      if extValue.length < 4 then .error .ringNumPanic
      else
        match newPeer certs.ownCert with
        | none => .error .ownPeer
        | some p => .ok (addViewToLive (bootstrap (initial env p) certs.knownCerts))

/-- A node `NewNode` returns is the bootstrapped node around the peer built from its own
certificate. -/
theorem newNode_cases {env : Env} {certs : CertResponse} {n : Node}
    (built : newNode env certs = .ok n) : ∃ p, newPeer certs.ownCert = some p ∧
      n = addViewToLive (bootstrap (initial env p) certs.knownCerts) := by
  simp only [newNode] at built
  repeat' split at built
  all_goals cases built
  exact ⟨_, ‹_›, rfl⟩

/-! ### Gossip content -/

/-- Modelled from the spec: `createPbInfo` (peer.go) gives a peer's certificate, its note if
any, and its accusations. -/
def Peer.createPbInfo (p : Peer) : Pb.Certificate × Option Pb.Note × List Pb.Accusation :=
  (⟨p.cert.raw⟩, p.recentNote.map Note.toPbMsg, (p.accusation.map Accusation.toPbMsg).toList)

def Node.getGossipData (n : Node) : List Pb.Data :=
  match n.gossipDataMap with
  | none => []
  | some m => m.entries.map fun e => ⟨e.1, e.2⟩

/-- `collectGossipContent`: the certificate, note and accusations of every view peer, the local
note as `OwnNote`, and the gossip data. -/
def collectGossipContent (n : Node) : Pb.GossipMsg :=
  let view := n.getView
  { certificates := view.map fun p => p.createPbInfo.1
    notes := view.filterMap fun p => p.createPbInfo.2.1
    accusations := view.flatMap fun p => p.createPbInfo.2.2
    ownNote := n.recentNote.toPbMsg
    data := n.getGossipData }

/-- `addGossip(data, id)`: a blob is kept only if its id has none yet. -/
def addGossip (n : Node) (data : Bytes) (id : Bytes) : Except String Node :=
  match n.gossipDataMap with
  | none => .error errNilMapWrite
  | some m =>
    if (m.get? id).isSome then .ok n
    else .ok { n with gossipDataMap := some (m.set id data) }

/-- An `io.Reader` as one call of `Read(p)` sees it: the count of bytes read, the buffer after
the call, and the error, if any. -/
structure Reader where
  read : Bytes → Int × Bytes × Option String

/-- The `io.Reader` contract: `0 ≤ n ≤ len(p)`, and `Read` writes inside `p`. -/
def Reader.Lawful (r : Reader) : Prop :=
  ∀ p, 0 ≤ (r.read p).1 ∧ (r.read p).1 ≤ p.length ∧ (r.read p).2.1.length = p.length

/-- The reader still holds a byte: a buffer with room gets at least one. -/
def Reader.Holds (r : Reader) : Prop := ∀ p, p ≠ [] → 1 ≤ (r.read p).1

/-- `AppendGossipData(id, data)`: the error it returns (`none` for nil) and the node after it,
or `.error` for the panic of a write to the nil map. The buffer it hands to `Read` is its nil
slice `bytes`, and what it stores is that slice. -/
def appendGossipData (n : Node) (id : Bytes) (data : Reader) :
    Except String (Option String × Node) :=
  let bytes : Bytes := []
  let (numRead, bytes, err) := data.read bytes
  match err with
  | some err => .ok (some err, n)
  | none =>
    if numRead ≤ 0 then .ok (some errNoData, n)
    else match n.gossipDataMap with
      | none => .error errNilMapWrite
      | some m => .ok (none, { n with gossipDataMap := some (m.set id bytes) })

end Ifrit
