import Ifrit.Node

/-!
# Invariants of the view

`Inv` is what every state reachable from `NewNode` keeps, whatever gossip arrives and whatever
the rings and the signature checks answer: the view files each record under its own id, the
live map points at the view's records, and a timer runs exactly for the accused peers, which
stay live. Each operation gets one preservation lemma. `Closed` composes the evaluators' lemmas
into the merges, `Spread` calls and whole runs, for `Inv` and for the properties of later
modules.

A step is one whole call: a `Spread` call or one call of an evaluator, taken as atomic. The code
locks each view operation on its own, so calls that run at once can interleave between those
operations; `Interleaving` takes the caller block of `Spread` and `evalCertificate` apart into
them.
-/

namespace Ifrit

open Node

/-- One step of the merge paths: a whole `Spread` call or a whole call of one of the evaluators,
taken as atomic, on any input and whatever the rings and the signature checks answer. -/
inductive Step : Node → Node → Prop
  | spread {n : Node} (env : Env) (ctx : Context) (args : Pb.GossipMsg) :
      Step n (spread env n ctx args).2
  | evalCertificate {n : Node} (cert : Certificate) : Step n (evalCertificate n cert)
  | evalNote {n : Node} (env : Env) (note : Pb.Note) : Step n (evalNote env n note)
  | evalAccusation {n : Node} (env : Env) (a : Pb.Accusation) :
      Step n (evalAccusation env n a)

/-- The states reachable from `NewNode` by steps. -/
inductive Reachable : Node → Prop
  | newNode {n : Node} (env : Env) (certs : CertResponse) (built : newNode env certs = .ok n) :
      Reachable n
  | step {n n' : Node} : Reachable n → Step n n' → Reachable n'

/-! ### Properties the merge paths keep -/

/-- A property of nodes that each evaluator keeps. The merges and the bootstrap loop keep it
too, and with the caller block, every `Spread` call and every step. -/
structure Closed (P : Node → Prop) : Prop where
  evalCertificate : ∀ {n : Node} (cert : Certificate), P n → P (evalCertificate n cert)
  evalNote : ∀ {n : Node} (env : Env) (note : Pb.Note), P n → P (evalNote env n note)
  evalAccusation : ∀ {n : Node} (env : Env) (a : Pb.Accusation), P n → P (evalAccusation env n a)

namespace Closed

variable {P : Node → Prop} {n : Node}

theorem mergeNotes (closed : Closed P) (h : P n) (env : Env) (notes : List Pb.Note) :
    P (mergeNotes env n notes) :=
  List.foldlRecOn notes _ n h fun m hm note _ => by
    split
    · exact hm
    · exact closed.evalNote env note hm

theorem mergeAccusations (closed : Closed P) (h : P n) (env : Env)
    (accusations : List Pb.Accusation) : P (mergeAccusations env n accusations) :=
  List.foldlRecOn accusations _ n h fun _ hm a _ => closed.evalAccusation env a hm

theorem mergeCertificates (closed : Closed P) (h : P n) (env : Env) (certs : List Pb.Certificate)
    (remoteCert : Certificate) : P (mergeCertificates env n certs remoteCert) :=
  List.foldlRecOn certs _ _ (closed.evalCertificate remoteCert h) fun m hm b _ => by
    split
    · exact hm
    · exact closed.evalCertificate _ hm

theorem bootstrap (closed : Closed P) (h : P n) (knownCerts : List Certificate) :
    P (bootstrap n knownCerts) :=
  List.foldlRecOn knownCerts _ n h fun m hm cert _ => by
    split
    · exact hm
    · exact closed.evalCertificate cert hm

/-- `Spread` keeps the property when its caller block keeps it for the caller it adds. -/
theorem spread (closed : Closed P) (h : P n) (env : Env) (ctx : Context) (args : Pb.GossipMsg)
    (caller : ∀ cert rest n', ctx.peer = some (.tls (cert :: rest)) →
      addCaller n cert = some n' → P n') : P (spread env n ctx args).2 := by
  rcases spread_cases env n ctx args with same | ⟨cert, rest, n', peer, added, only | merged⟩
  · rw [same]; exact h
  · exact only ▸ caller cert rest n' peer added
  · have called := caller cert rest n' peer added
    exact merged ▸ closed.mergeAccusations
      (closed.mergeNotes (closed.mergeCertificates called env _ cert) env _) env _

variable (caller : ∀ {n n' : Node} {cert : Certificate}, P n → addCaller n cert = some n' → P n')
include caller

theorem step (closed : Closed P) {n' : Node} (h : P n) (stepped : Step n n') : P n' := by
  cases stepped with
  | spread env ctx args => exact closed.spread h env ctx args fun _ _ _ _ added => caller h added
  | evalCertificate cert => exact closed.evalCertificate cert h
  | evalNote env note => exact closed.evalNote env note h
  | evalAccusation env a => exact closed.evalAccusation env a h

/-- A property every step keeps holds in every reachable state once `NewNode` establishes it. -/
theorem reachable (closed : Closed P)
    (base : ∀ {n : Node} (env : Env) (certs : CertResponse), newNode env certs = .ok n → P n)
    (reach : Reachable n) : P n := by
  induction reach with
  | newNode env certs built => exact base env certs built
  | step _ stepped ih => exact closed.step caller ih stepped

end Closed

/-- The invariant of a node's maps. -/
structure Inv (n : Node) : Prop where
  /-- Every record the view names is allocated and filed under its own id. -/
  view_wf : ∀ k r, n.viewMap.get? k = some r → r < n.next ∧ (n.heap r).key = k
  /-- The live map points each of its keys at the view's record. -/
  live_view : ∀ k r, n.liveMap.get? k = some r → n.viewMap.get? k = some r
  /-- A timer runs exactly for the peers that carry an accusation. -/
  timer_iff : ∀ k, (n.timeoutMap.get? k).isSome ↔
    ∃ r, n.viewMap.get? k = some r ∧ (n.heap r).accusation.isSome
  /-- A peer with a timer is live. -/
  timer_live : ∀ k, (n.timeoutMap.get? k).isSome → (n.liveMap.get? k).isSome

namespace Inv

variable {n : Node}

theorem key_eq (h : Inv n) {k k' : Bytes} {r : Ref} (found : n.viewMap.get? k = some r)
    (found' : n.viewMap.get? k' = some r) : k = k' :=
  (h.view_wf k r found).2.symm.trans (h.view_wf k' r found').2

theorem ref_ne (h : Inv n) {k k' : Bytes} {r r' : Ref} (found : n.viewMap.get? k = some r)
    (found' : n.viewMap.get? k' = some r') (other : k' ≠ k) : r' ≠ r :=
  fun same => other (h.key_eq (same ▸ found') found)

theorem update_key {heap : Ref → Peer} {r : Ref} {p : Peer} (key : p.key = (heap r).key)
    (r' : Ref) : (Function.update heap r p r').key = (heap r').key :=
  update_field Peer.key key r'

/-- The timer agreement survives a change confined to one peer: its record `r`, filed under
`k`, and its timer agree afterwards, and no other record or timer changed. -/
theorem timer_iff_local (h : Inv n) {n' : Node} {k : Bytes} {r : Ref}
    (found : n.viewMap.get? k = some r) (view : n'.viewMap = n.viewMap)
    (timers : ∀ k', k' ≠ k → n'.timeoutMap.get? k' = n.timeoutMap.get? k')
    (records : ∀ r', r' ≠ r → (n'.heap r').accusation = (n.heap r').accusation)
    (agree : (n'.timeoutMap.get? k).isSome ↔ (n'.heap r).accusation.isSome) (k' : Bytes) :
    (n'.timeoutMap.get? k').isSome ↔
      ∃ r', n'.viewMap.get? k' = some r' ∧ (n'.heap r').accusation.isSome := by
  rw [view]
  by_cases same : k' = k
  · subst same; simp [found, agree]
  · rw [timers k' same, h.timer_iff]
    refine exists_congr fun r' => and_congr_right fun found' => ?_
    rw [records r' (h.ref_ne found found' same)]

/-- A write that keeps a record's key and accusation keeps the invariant. -/
theorem setPeer (h : Inv n) {r : Ref} {p : Peer} (key : p.key = (n.heap r).key)
    (accusation : p.accusation = (n.heap r).accusation) : Inv (n.setPeer r p) := by
  have accusations := update_field Peer.accusation accusation
  exact ⟨by simpa [update_key key] using h.view_wf, h.live_view,
    by simpa [accusations] using h.timer_iff, h.timer_live⟩

theorem setNote (h : Inv n) (r : Ref) (note : Note) : Inv (n.setNote r note) :=
  h.setPeer rfl rfl

theorem setEpoch (h : Inv n) (env : Env) (epoch : UInt64) : Inv (n.setEpoch env epoch) :=
  ⟨h.view_wf, h.live_view, h.timer_iff, h.timer_live⟩

/-- Filing a view record in the live map under its own id keeps the invariant. -/
theorem addLivePeer (h : Inv n) {r : Ref} (filed : n.viewMap.get? (n.heap r).key = some r) :
    Inv (n.addLivePeer r) := by
  refine ⟨h.view_wf, fun k r' live => ?_, h.timer_iff, fun k timer => ?_⟩
  · by_cases same : k = (n.heap r).key
    · subst same
      simp only [addLivePeer_liveMap, GoMap.get?_set_self, Option.some.injEq] at live
      exact live ▸ filed
    · simpa [same] using h.live_view k r' (by simpa [same] using live)
  · have live := h.timer_live k timer
    rw [addLivePeer_liveMap, GoMap.get?_set]
    split <;> simp_all

theorem storeNote (h : Inv n) {r : Ref} {k : Bytes} (found : n.viewMap.get? k = some r)
    (note : Note) : Inv (storeNote n r k note) := by
  have filed : (n.setNote r note).viewMap.get? ((n.setNote r note).heap r).key = some r := by
    simpa [(h.view_wf k r found).2] using found
  simp only [Ifrit.storeNote]
  split
  · exact (h.setNote r note).addLivePeer filed
  · exact h.setNote r note

/-- A rebuttal keeps the invariant: the timer and the accusation go together. -/
theorem rebut (h : Inv n) {r : Ref} {k : Bytes} (found : n.viewMap.get? k = some r) :
    Inv (rebut n r k) := by
  have key := (h.view_wf k r found).2
  have cleared : Inv ((n.deleteTimeout k).removeAccusation r) := by
    refine ⟨by simpa [update_key] using h.view_wf, h.live_view,
      h.timer_iff_local found rfl (fun k' other => ?_) (fun r' other => ?_) (by simp),
      fun k' timer => h.timer_live k' ?_⟩
    · simp [other]
    · simp [Function.update_noteq other]
    · by_cases same : k' = k
      · subst same; simp at timer
      · simpa [same] using timer
  exact cleared.addLivePeer (by simpa [key] using found)

/-- Recording an accusation on a live peer keeps the invariant: a timer runs for it after. -/
theorem accuse (h : Inv n) {r ar : Ref} {a : Pb.Accusation}
    (live : n.liveMap.get? a.accused = some r) : Inv (accuse n r ar a) := by
  have found := h.live_view _ _ live
  have key := (h.view_wf _ r found).2
  have records : ∀ r', r' ≠ r → (Function.update n.heap r
      { n.heap r with accusation := some ⟨(n.heap r).key, a.epoch, (n.heap ar).key,
        a.signature⟩ } r').accusation = (n.heap r').accusation :=
    fun r' other => by simp [Function.update_noteq other]
  simp only [Ifrit.accuse]
  split
  · refine ⟨by simpa [update_key] using h.view_wf, h.live_view,
      h.timer_iff_local found rfl (fun k' other => ?_) records (by simp [key]),
      fun k' timer => ?_⟩
    · simp [key, other]
    · by_cases same : k' = a.accused
      · subst same; simp [live]
      · simpa [key, same] using h.timer_live k' (by simpa [key, same] using timer)
  next running =>
    simp only [Bool.not_eq_true', Bool.not_eq_false, timerExist, setAccusation_timeoutMap]
      at running
    exact ⟨by simpa [update_key] using h.view_wf, h.live_view,
      h.timer_iff_local found rfl (fun _ _ => rfl) records (by simp [running]), h.timer_live⟩

/-- A fresh record for an id the view lacks keeps the invariant once filed in the view. -/
theorem addFresh (h : Inv n) {p : Peer} (absent : n.viewMap.get? p.key = none)
    (unaccused : p.accusation = none) : Inv ((n.alloc p).addViewPeer n.next) := by
  have old : ∀ k r, n.viewMap.get? k = some r → r ≠ n.next :=
    fun k r found => (h.view_wf k r found).1.ne
  have other : ∀ k r, n.viewMap.get? k = some r → k ≠ p.key :=
    fun k r found same => by simp_all
  refine ⟨fun k r found => ?_, fun k r live => ?_, fun k => ?_, h.timer_live⟩
  · by_cases same : k = p.key
    · subst same
      simp at found
      simp [← found]
    · have found : n.viewMap.get? k = some r := by simpa [same] using found
      simp [Function.update_noteq (old k r found), (h.view_wf k r found).2,
        Nat.lt_succ_of_lt (h.view_wf k r found).1]
  · have found := h.live_view k r live
    simpa [other k r found] using found
  · by_cases same : k = p.key
    · subst same
      have timerless : n.timeoutMap.get? p.key = none :=
        Option.not_isSome_iff_eq_none.1 fun timer => by
          obtain ⟨r, found, _⟩ := (h.timer_iff p.key).1 timer
          simp_all
      simp [timerless, unaccused]
    · simp only [addViewPeer_viewMap, alloc_viewMap, alloc_heap, Function.update_same,
        GoMap.get?_set_ne _ _ same, addViewPeer_timeoutMap, alloc_timeoutMap, addViewPeer_heap]
      rw [h.timer_iff]
      exact exists_congr fun r => and_congr_right fun found => by
        rw [Function.update_noteq (old k r found)]

/-! ### The merge paths -/

theorem evalNote (h : Inv n) (env : Env) (note : Pb.Note) : Inv (evalNote env n note) := by
  rcases evalNote_cases env n note with same | ⟨r, found, -, -, -, stored⟩ |
    ⟨r, a, found, -, -, -, rebutted⟩
  · rw [same]; exact h
  · exact stored ▸ h.storeNote found _
  · exact rebutted ▸ h.rebut found

theorem evalAccusation (h : Inv n) (env : Env) (a : Pb.Accusation) :
    Inv (evalAccusation env n a) := by
  rcases evalAccusation_cases env n a with ⟨-, bumped⟩ | ⟨-, same⟩ |
    ⟨r, ar, -, live, -, -, -, -, -, accused⟩
  · exact bumped ▸ h.setEpoch env _
  · rw [same]; exact h
  · exact accused ▸ h.accuse live

theorem evalCertificate (h : Inv n) (cert : Certificate) : Inv (evalCertificate n cert) := by
  rcases evalCertificate_cases n cert with same | ⟨p, built, absent, -, added⟩
  · rw [same]; exact h
  · obtain ⟨key, unaccused⟩ := newPeer_key built
    exact added ▸ h.addFresh (key ▸ absent) unaccused

theorem addCaller (h : Inv n) {cert : Certificate} {n' : Node}
    (added : addCaller n cert = some n') : Inv n' := by
  rcases addCaller_cases added with rfl | ⟨p, built, absent, rfl⟩
  · exact h
  · obtain ⟨key, unaccused⟩ := newPeer_key built
    have fresh := h.addFresh (key ▸ absent) unaccused
    exact fresh.addLivePeer (by simp)

theorem closed : Closed Inv :=
  ⟨fun cert h => h.evalCertificate cert, fun env note h => h.evalNote env note,
    fun env a h => h.evalAccusation env a⟩

/-! ### `NewNode` -/

theorem initial (env : Env) (p : Peer) : Inv (initial env p) := by
  constructor <;> simp [Ifrit.initial]

/-- Every view record, filed in the live map, keeps the invariant. -/
theorem addViewToLive (h : Inv n) : Inv (addViewToLive n) := by
  have step := List.foldlRecOn n.viewMap.entries (fun m e => m.addLivePeer e.2) n
    (motive := fun m => Inv m ∧ m.viewMap = n.viewMap ∧ m.heap = n.heap) ⟨h, rfl, rfl⟩
    fun m ⟨hm, view, heap⟩ e member => by
      have found := n.viewMap.get?_of_mem member
      have key := (h.view_wf _ _ found).2
      exact ⟨hm.addLivePeer (by rw [view, heap, key]; exact found), view, heap⟩
  exact step.1

theorem newNode {env : Env} {certs : CertResponse} (built : newNode env certs = .ok n) :
    Inv n := by
  obtain ⟨p, -, rfl⟩ := newNode_cases built
  exact (closed.bootstrap (initial env p) _).addViewToLive

end Inv

theorem Inv.step {n n' : Node} (h : Inv n) (stepped : Step n n') : Inv n' :=
  Inv.closed.step (fun h added => h.addCaller added) h stepped

theorem Reachable.inv {n : Node} (reach : Reachable n) : Inv n :=
  Inv.closed.reachable (fun h added => h.addCaller added) (fun _ _ built => Inv.newNode built) reach

/-! ### What every reachable state keeps -/

/-- In every reachable state a timer runs for a peer exactly when it carries an accusation, a
replacing accusation and a rebuttal included. -/
theorem timer_iff_accused {n : Node} (reach : Reachable n) (k : Bytes) :
    (n.timeoutMap.get? k).isSome ↔
      ∃ r, n.viewMap.get? k = some r ∧ (n.heap r).accusation.isSome :=
  reach.inv.timer_iff k

/-- In every reachable state an accused peer, or one with a timer, is live: accusations are
recorded on live peers, and no step removes a peer from the live map. -/
theorem accused_peer_stays_live {n : Node} (reach : Reachable n) (k : Bytes)
    (marked : (n.timeoutMap.get? k).isSome ∨
      ∃ r, n.viewMap.get? k = some r ∧ (n.heap r).accusation.isSome) :
    (n.liveMap.get? k).isSome :=
  reach.inv.timer_live k (marked.elim id (reach.inv.timer_iff k).2)

/-! ### A bootstrapped node -/

/-- A certificate for id `[i]` at `addr`, with the ring count extension. -/
def sampleCert (i : UInt8) (addr : String) : Certificate :=
  ⟨[i], [i], [addr], [i], [(ringNumOid, [1, 0, 0, 0])]⟩

/-- Rings and signature checks that accept everything asked of them. -/
def accepting : Env where
  validateSignature _ _ _ _ := true
  parseCertificate _ := none
  sign _ := ⟨[], []⟩
  shouldBeNeighbours _ := true
  findNeighbours _ := []
  isHigherRank _ _ := true
  isPrev _ _ := true

/-- Node 0 as `NewNode` builds it when the CA names peers 1 and 2. -/
def bootNode : Node :=
  addViewToLive (bootstrap (initial accepting ⟨[0], "n0", sampleCert 0 "n0", none, none⟩)
    [sampleCert 1 "n1", sampleCert 2 "n2"])

theorem bootNode_reachable : Reachable bootNode :=
  .newNode accepting ⟨sampleCert 0 "n0", sampleCert 9 "ca", [sampleCert 1 "n1", sampleCert 2 "n2"],
    false⟩ rfl

/-- Node 0 after peer 1 accused peer 2 at epoch 1. -/
def accusedNode : Node := evalAccusation accepting bootNode ⟨1, [1], [2], ⟨[], []⟩⟩

theorem accusedNode_reachable : Reachable accusedNode :=
  .step bootNode_reachable (.evalAccusation _ _)

theorem accused_node_timer : (accusedNode.timeoutMap.get? [2]).isSome ↔
    ∃ r, accusedNode.viewMap.get? [2] = some r ∧ (accusedNode.heap r).accusation.isSome :=
  timer_iff_accused accusedNode_reachable [2]

theorem accused_node_live : (accusedNode.liveMap.get? [2]).isSome :=
  accused_peer_stays_live accusedNode_reachable [2] (.inl (by decide))

/-- An accused peer with a running timer is still in the live map. -/
theorem accused_peer_in_live_map :
    ¬ ∀ n, Reachable n → ∀ k, ((n.timeoutMap.get? k).isSome ∨
      ∃ r, n.viewMap.get? k = some r ∧ (n.heap r).accusation.isSome) →
      n.liveMap.get? k = none := by
  intro claim
  exact absurd (claim accusedNode accusedNode_reachable [2] (.inl (by decide))) (by decide)

/-- Node 0 after a `Spread` call whose caller presented node 0's own certificate. -/
def selfGossiped : Node :=
  (spread accepting bootNode ⟨some (.tls [sampleCert 0 "n0"])⟩
    ⟨[], [], [], ⟨1, [0], ⟨[], []⟩⟩, []⟩).2

/-- `Spread` files the local id in the view map and the live map when the caller is the node
itself: its caller stub skips the own-id check that `evalCertificate` makes. -/
theorem self_gossip_files_local_id :
    Reachable selfGossiped ∧ (selfGossiped.viewMap.get? selfGossiped.peerId).isSome ∧
      (selfGossiped.liveMap.get? selfGossiped.peerId).isSome :=
  ⟨.step bootNode_reachable (.spread _ _ _), by decide, by decide⟩

end Ifrit
