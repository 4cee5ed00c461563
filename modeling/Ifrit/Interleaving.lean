import Ifrit.Invariants

/-!
# Concurrent calls on one unknown id

`Spread` and `evalCertificate` reach the view through operations that each take the view's
lock on their own: `viewPeerExist` (or `getViewPeer`), then `addViewPeer`, then, for `Spread`,
`addLivePeer`. A call in flight is a `Task` stopped before its next locked operation, and a
schedule names the task that takes each next step. Run alone, a task does what the sequential
`addCaller` and `evalCertificate` do; interleaved, two calls for one unknown id both pass the
existence check.

Only these view operations are interleaved. The note and accusation merges also lock each of
their peer and view operations on its own and could race across concurrent `Spread` handlers;
they are left out here, and each of their calls is one atomic step, as in `Step`.
-/

namespace Ifrit

open Node

/-- A call in flight, stopped before its next locked view operation. -/
inductive Task where
  /-- `Spread` for a caller certificate, before `viewPeerExist`. -/
  | spread (cert : Certificate)
  /-- `Spread` after `viewPeerExist` answered false, before `newPeer` and `addViewPeer`. -/
  | spreadAdd (cert : Certificate)
  /-- `Spread` after `addViewPeer(p)`, before `addLivePeer(p)`. -/
  | spreadLive (r : Ref)
  /-- `evalCertificate`, before `getViewPeer`. -/
  | evalCertificate (cert : Certificate)
  /-- `evalCertificate` after `getViewPeer` answered nil, before `newPeer` and `addViewPeer`. -/
  | evalCertificateAdd (cert : Certificate)
  | done
  deriving DecidableEq, Repr

/-- One locked step of a task: the task after it, the node after it, and the `addViewPeer`
call it made, if any, as (key, record). -/
def Task.step (n : Node) : Task → Task × Node × List (Bytes × Ref)
  | .spread cert =>
    if n.viewPeerExist cert.subjectKeyId then (.done, n, []) else (.spreadAdd cert, n, [])
  | .spreadAdd cert =>
    match newPeer cert with
    | none => (.done, n, [])
    | some p => (.spreadLive n.next, (n.alloc p).addViewPeer n.next, [(p.key, n.next)])
  | .spreadLive r => (.done, n.addLivePeer r, [])
  | .evalCertificate cert =>
    match cert.locality with
    | [] => (.done, n, [])
    | addr :: _ =>
      if addr = n.localAddr then (.done, n, [])
      else if cert.subjectKeyId = [] ∨ n.peerId = cert.subjectKeyId then (.done, n, [])
      else
        match n.getViewPeer cert.subjectKeyId with
        | some _ => (.done, n, [])
        | none => (.evalCertificateAdd cert, n, [])
  | .evalCertificateAdd cert =>
    match newPeer cert with
    | none => (.done, n, [])
    | some p => (.done, (n.alloc p).addViewPeer n.next, [(p.key, n.next)])
  | .done => (.done, n, [])

/-- Runs a schedule: each entry names the task that takes its next locked step. Returns the
tasks, the node, and every `addViewPeer` call in order. -/
def interleave : List Nat → List Task → Node → List Task × Node × List (Bytes × Ref)
  | [], tasks, n => (tasks, n, [])
  | i :: schedule, tasks, n =>
    let (t, n, added) := (tasks.getD i .done).step n
    let (tasks, n, more) := interleave schedule (tasks.set i t) n
    (tasks, n, added ++ more)

/-! ### Run alone, a task is the sequential code -/

/-- `Spread`'s caller block run alone, three locked steps, is `addCaller`. -/
theorem spread_alone (n : Node) (cert : Certificate) :
    (interleave [0, 0, 0] [.spread cert] n).2.1 = (addCaller n cert).getD n := by
  by_cases known : n.viewPeerExist cert.subjectKeyId
  · simp [interleave, Task.step, addCaller, known]
  · cases built : newPeer cert <;> simp [interleave, Task.step, addCaller, known, built]

/-- `evalCertificate` run alone, two locked steps, is `evalCertificate`. -/
theorem evalCertificate_alone (n : Node) (cert : Certificate) :
    (interleave [0, 0] [.evalCertificate cert] n).2.1 = evalCertificate n cert := by
  rcases cert with ⟨raw, id, _ | ⟨addr, rest⟩, key, extensions⟩
  · simp [interleave, Task.step, Ifrit.evalCertificate]
  · by_cases atLocal : addr = n.localAddr
    · simp [interleave, Task.step, Ifrit.evalCertificate, atLocal]
    · by_cases own : id = [] ∨ n.peerId = id
      · simp [interleave, Task.step, Ifrit.evalCertificate, atLocal, own]
      · cases known : n.getViewPeer id <;>
          simp [interleave, Task.step, Ifrit.evalCertificate, atLocal, own, known, newPeer]

/-! ### Two callers with one unknown id -/

/-- Two `Spread` calls from the peer with id 3, unknown to node 0, each passing
`viewPeerExist` before the other's `addViewPeer`. -/
def racedSpreads : List Task × Node × List (Bytes × Ref) :=
  interleave [0, 1, 0, 1, 1, 0] [.spread (sampleCert 3 "n3"), .spread (sampleCert 3 "n3")]
    bootNode

/-- In that interleaving `addViewPeer` runs twice for id 3, and the view map and the live map
end up holding two different records for it. -/
theorem raced_spreads_add_twice :
    racedSpreads.2.2 = [([3], 2), ([3], 3)] ∧ racedSpreads.2.1.viewMap.get? [3] = some 3 ∧
      racedSpreads.2.1.liveMap.get? [3] = some 2 :=
  ⟨by decide, by decide, by decide⟩

end Ifrit
