import Ifrit.Invariants

/-!
# Notes, accusations and rebuttals

How an accused node answers (a new local epoch, the accusation's plus one, whatever the current
one) and how the others take the answer (`evalNote`'s rebuttal branch). A recorded accusation
always postdates the accused's stored note. The rebuttal branch clears the accusation and the
timer but stores nothing, so the answered accusation passes that test again; and `Spread` never
reads the `OwnNote` a rebuttal travels in.
-/

namespace Ifrit

open Node

/-! ### The local epoch -/

/-- Node 0 after answering peer 1's accusation of epoch 5: its local epoch is 6. -/
def selfRebuttedNode : Node := evalAccusation accepting bootNode ⟨5, [1], [0], ⟨[], []⟩⟩

/-- A stale accusation of epoch 2, delivered after node 0 answered one of epoch 5, sets the
local epoch back from 6 to 3: `evalAccusation` passes the accusation's epoch plus one to
`setEpoch`, with no max against the current epoch. An accusation of epoch `2^64 - 1` wraps the
local epoch to 0. -/
theorem stale_accusation_lowers_epoch :
    Reachable selfRebuttedNode ∧ selfRebuttedNode.recentNote.epoch = 6 ∧
      (evalAccusation accepting selfRebuttedNode ⟨2, [1], [0], ⟨[], []⟩⟩).recentNote.epoch = 3 ∧
      bootNode.recentNote.epoch = 1 ∧
      (evalAccusation accepting bootNode
        ⟨18446744073709551615, [1], [0], ⟨[], []⟩⟩).recentNote.epoch = 0 :=
  ⟨.step bootNode_reachable (.evalAccusation _ _), rfl, rfl, rfl, rfl⟩

/-! ### Accusations postdate notes -/

/-- Every recorded accusation is newer than the stored note of the peer it names. -/
def AccusationsPostdateNotes (n : Node) : Prop :=
  ∀ r a, (n.heap r).accusation = some a → olderThan (n.heap r).recentNote a.epoch = true

namespace AccusationsPostdateNotes

variable {n : Node}

theorem of_heap {n' : Node} (h : AccusationsPostdateNotes n) (heap : n'.heap = n.heap) :
    AccusationsPostdateNotes n' := by
  unfold AccusationsPostdateNotes; rw [heap]; exact h

/-- A write of a record whose accusation, if any, postdates its note. -/
theorem setPeer (h : AccusationsPostdateNotes n) {r : Ref} {p : Peer}
    (fresh : ∀ a, p.accusation = some a → olderThan p.recentNote a.epoch = true) :
    AccusationsPostdateNotes (n.setPeer r p) := by
  intro r' a accused
  by_cases written : r' = r
  · subst written; simp_all
  · simp only [setPeer_heap, Function.update_noteq written] at accused ⊢
    exact h r' a accused

/-- A fresh record carries no accusation. -/
theorem addFresh (h : AccusationsPostdateNotes n) {p : Peer} (unaccused : p.accusation = none)
    {n' : Node} (heap : n'.heap = (n.setPeer n.next p).heap) : AccusationsPostdateNotes n' :=
  (h.setPeer (by simp [unaccused])).of_heap heap

theorem evalNote (h : AccusationsPostdateNotes n) (env : Env) (note : Pb.Note) :
    AccusationsPostdateNotes (evalNote env n note) := by
  rcases evalNote_cases env n note with same | ⟨r, -, unaccused, -, -, stored⟩ |
    ⟨r, a, -, -, -, -, rebutted⟩
  · rw [same]; exact h
  · have noted : AccusationsPostdateNotes
        (n.setNote r ⟨(n.heap r).key, note.epoch, note.signature⟩) :=
      h.setPeer (by simp [unaccused])
    rw [stored]; exact noted.of_heap (storeNote_heap ..)
  · have cleared : AccusationsPostdateNotes (n.removeAccusation r) := h.setPeer (by simp)
    rw [rebutted]; exact cleared.of_heap rfl

theorem evalAccusation (h : AccusationsPostdateNotes n) (env : Env) (a : Pb.Accusation) :
    AccusationsPostdateNotes (evalAccusation env n a) := by
  rcases evalAccusation_cases env n a with ⟨-, bumped⟩ | ⟨-, same⟩ |
    ⟨r, ar, -, -, -, older, -, -, -, accused⟩
  · rw [bumped]; exact h.of_heap rfl
  · rw [same]; exact h
  · have recorded : AccusationsPostdateNotes
        (n.setAccusation r ⟨(n.heap r).key, a.epoch, (n.heap ar).key, a.signature⟩) :=
      h.setPeer (by rintro _ ⟨⟩; exact older)
    rw [accused]; exact recorded.of_heap (accuse_heap ..)

theorem evalCertificate (h : AccusationsPostdateNotes n) (cert : Certificate) :
    AccusationsPostdateNotes (evalCertificate n cert) := by
  rcases evalCertificate_cases n cert with same | ⟨p, built, -, -, added⟩
  · rw [same]; exact h
  · rw [added]; exact h.addFresh (newPeer_key built).2 rfl

theorem addCaller (h : AccusationsPostdateNotes n) {cert : Certificate} {n' : Node}
    (added : addCaller n cert = some n') : AccusationsPostdateNotes n' := by
  rcases addCaller_cases added with rfl | ⟨p, built, -, rfl⟩
  · exact h
  · exact h.addFresh (newPeer_key built).2 rfl

theorem closed : Closed AccusationsPostdateNotes :=
  ⟨fun cert h => h.evalCertificate cert, fun env note h => h.evalNote env note,
    fun env a h => h.evalAccusation env a⟩

theorem newNode {env : Env} {certs : CertResponse} (built : newNode env certs = .ok n) :
    AccusationsPostdateNotes n := by
  obtain ⟨p, -, rfl⟩ := newNode_cases built
  have initial : AccusationsPostdateNotes (initial env p) := fun _ _ accused => by cases accused
  exact (closed.bootstrap initial _).of_heap (addViewToLive_heap _)

end AccusationsPostdateNotes

/-- In every reachable state a recorded accusation is newer than the stored note of the peer it
names: `evalNote` stores no note for an accused peer, and `evalAccusation` records only an
accusation newer than the note. -/
theorem accusation_postdates_note {n : Node} (reach : Reachable n) (r : Ref) (a : Accusation)
    (accused : (n.heap r).accusation = some a) : olderThan (n.heap r).recentNote a.epoch = true :=
  AccusationsPostdateNotes.closed.reachable (fun h added => h.addCaller added)
    (fun _ _ built => AccusationsPostdateNotes.newNode built) reach r a accused

theorem accused_node_note_older : olderThan (accusedNode.heap 1).recentNote 1 = true :=
  accusation_postdates_note accusedNode_reachable 1 ⟨[2], 1, [1], ⟨[], []⟩⟩ (by decide)

/-! ### The rebuttal branch -/

/-- Node 0 after storing peer 2's note of epoch 1 and then recording peer 1's accusation of
peer 2 at epoch 2. -/
def accusedNoted : Node :=
  evalAccusation accepting (evalNote accepting bootNode ⟨1, [2], ⟨[], []⟩⟩) ⟨2, [1], [2], ⟨[], []⟩⟩

/-- Then peer 2's note of epoch 3 arrives. -/
def rebuttedNode : Node := evalNote accepting accusedNoted ⟨3, [2], ⟨[], []⟩⟩

theorem rebuttedNode_reachable : Reachable rebuttedNode :=
  .step (.step (.step bootNode_reachable (.evalNote _ _)) (.evalAccusation _ _)) (.evalNote _ _)

/-- The note of epoch 3 ends the accusation of epoch 2 as a rebuttal, yet the stored note of
peer 2 stays the one of epoch 1. -/
theorem rebuttal_note_not_stored :
    Reachable rebuttedNode ∧ (accusedNoted.heap 1).accusation.map (·.epoch) = some 2 ∧
      (rebuttedNode.heap 1).accusation = none ∧
      (rebuttedNode.heap 1).recentNote.map (·.epoch) = some 1 :=
  ⟨rebuttedNode_reachable, by decide, by decide, by decide⟩

/-- The accusation of epoch 2 that the rebuttal answered is delivered once more. -/
def reaccusedNode : Node := evalAccusation accepting rebuttedNode ⟨2, [1], [2], ⟨[], []⟩⟩

/-- After the rebuttal of epoch 3, the answered accusation of epoch 2 is recorded again and a
new timer starts. -/
theorem answered_accusation_recorded_again :
    Reachable reaccusedNode ∧ (rebuttedNode.heap 1).accusation = none ∧
      (rebuttedNode.timeoutMap.get? [2]).isNone ∧
      (reaccusedNode.heap 1).accusation.map (·.epoch) = some 2 ∧
      (reaccusedNode.timeoutMap.get? [2]).isSome :=
  ⟨.step rebuttedNode_reachable (.evalAccusation _ _), by decide, by decide, by decide, by decide⟩

/-! ### Gossip of a rebuttal -/

/-- Node 1 as `NewNode` builds it when the CA names peers 0 and 2, after recording peer 2's
accusation of peer 0 at epoch 1. -/
def accuserNode : Node :=
  evalAccusation accepting
    (addViewToLive (bootstrap (initial accepting ⟨[1], "n1", sampleCert 1 "n1", none, none⟩)
      [sampleCert 0 "n0", sampleCert 2 "n2"]))
    ⟨1, [2], [0], ⟨[], []⟩⟩

/-- Node 0 after processing that accusation of itself. -/
def rebuttingNode : Node := evalAccusation accepting bootNode ⟨1, [2], [0], ⟨[], []⟩⟩

/-- Node 1 after a `Spread` call from node 0 carrying node 0's gossip. -/
def gossipedNode : Node :=
  (spread accepting accuserNode ⟨some (.tls [sampleCert 0 "n0"])⟩
    (collectGossipContent rebuttingNode)).2

/-- Node 0 answers the accusation with a local note of epoch 2, yet after one gossip exchange
node 1 still holds the accusation of epoch 1 and no note of node 0. -/
theorem rebuttal_not_delivered_by_gossip :
    Reachable gossipedNode ∧ rebuttingNode.recentNote.epoch = 2 ∧
      (gossipedNode.heap 0).accusation.map (·.epoch) = some 1 ∧
      (gossipedNode.heap 0).recentNote = none :=
  ⟨.step (.step (.newNode accepting ⟨sampleCert 1 "n1", sampleCert 9 "ca",
      [sampleCert 0 "n0", sampleCert 2 "n2"], false⟩ rfl) (.evalAccusation _ _)) (.spread _ _ _),
    by decide, by decide, by decide⟩

/-! ### The epoch guard -/

/-- Node 0 after storing peer 2's note of epoch 1. -/
def notedNode : Node := evalNote accepting bootNode ⟨1, [2], ⟨[], []⟩⟩

/-- Peer 1 accuses peer 2 at epoch 1, the epoch of peer 2's stored note. Both are live, peer 1
is peer 2's predecessor, the signature is valid and peer 2 carries no accusation, yet
`evalAccusation` leaves the node as it was. -/
theorem current_epoch_accusation_dropped :
    Reachable notedNode ∧ notedNode.peerId ≠ [2] ∧ notedNode.liveMap.get? [2] = some 1 ∧
      notedNode.liveMap.get? [1] = some 0 ∧ (notedNode.heap 1).accusation = none ∧
      accepting.validateSignature [] [] (.accusation 1 [1] [2]) (notedNode.heap 0).cert.publicKey ∧
      accepting.isPrev (notedNode.heap 0).key (notedNode.heap 1).key ∧
      (notedNode.heap 1).recentNote.map (·.epoch) = some 1 ∧
      evalAccusation accepting notedNode ⟨1, [1], [2], ⟨[], []⟩⟩ = notedNode :=
  ⟨.step bootNode_reachable (.evalNote _ _), by decide, by decide, by decide, by decide, by decide,
    by decide, by decide, rfl⟩

end Ifrit
