import Ifrit.Exchange

/-!
# The certificates a node admits

`NewNode` files the certificates the CA knows through `evalCertificate`, skipping its own, then
puts every view peer in the live map. Its view therefore holds exactly the known certificates
`evalCertificate` admits against the node's own id and address, and its live map holds the same
ids (`newNode_view_iff`). Each loop gets a one-step characterisation and an induction over the
list.

A peer goes live in three ways: `NewNode` makes every bootstrap peer live, the caller block of
`Spread` makes a caller it files live, and `evalNote` makes a view peer live when it stores the
peer's note. `evalCertificate` and `evalAccusation` leave the live map alone. A peer learned only
from certificates therefore goes live only with a stored note: along a run in which no `Spread`
caller presents its certificate, every step keeps `LiveNoted` (`live_peer_in_view`).

A certificate is settled at a node once its id is in the view or the filters refuse it, and
`evalCertificate` leaves the node as it is on a settled certificate. One `Spread` settles its
caller and every certificate of the message it merges, and settledness survives every later step,
so a second delivery of the same message files no peer and allocates no record
(`spread_redelivery_files_nothing`).
-/

namespace Ifrit

open Node

section Bootstrap

variable {n : Node}

@[simp] theorem addViewToLive_viewMap (n : Node) : (addViewToLive n).viewMap = n.viewMap :=
  List.foldlRecOn n.viewMap.entries (fun n e => n.addLivePeer e.2) n
    (motive := fun m => m.viewMap = n.viewMap) rfl fun _ same _ _ => same

@[simp] theorem addViewToLive_localAddr (n : Node) : (addViewToLive n).localAddr = n.localAddr :=
  List.foldlRecOn n.viewMap.entries (fun n e => n.addLivePeer e.2) n
    (motive := fun m => m.localAddr = n.localAddr) rfl fun _ same _ _ => same

theorem evalCertificate_liveMap (cert : Certificate) :
    (evalCertificate n cert).liveMap = n.liveMap := by
  rcases evalCertificate_cases n cert with same | ⟨p, -, -, -, added⟩
  · rw [same]
  · rw [added]; rfl

/-- One turn of the bootstrap loop: the skip of the own certificate changes nothing that
`evalCertificate`'s filters would not. -/
theorem bootstrap_step_view_iff (cert : Certificate) (k : Bytes) :
    (((if n.peerId = cert.subjectKeyId then n else evalCertificate n cert).viewMap.get? k).isSome ↔
      (n.viewMap.get? k).isSome ∨ (cert.subjectKeyId = k ∧ Admits n.peerId n.localAddr cert)) := by
  split
  next own => simp [Admits, own]
  next => exact evalCertificate_view_iff n cert k

/-- The bootstrap loop keeps the live map, the local id and the local address. -/
theorem bootstrap_frame (certs : List Certificate) :
    (bootstrap n certs).liveMap = n.liveMap ∧ Identity n.peerId n.localAddr (bootstrap n certs) :=
  List.foldlRecOn certs _ n
    (motive := fun m => m.liveMap = n.liveMap ∧ Identity n.peerId n.localAddr m)
    ⟨rfl, rfl, rfl⟩ fun m ⟨live, identity⟩ cert _ => by
      split
      · exact ⟨live, identity⟩
      · exact ⟨(evalCertificate_liveMap cert).trans live, identity.evalCertificate cert⟩

/-- The bootstrap loop files the ids of the certificates `evalCertificate` admits, and nothing
else. -/
theorem bootstrap_view_iff (n : Node) (certs : List Certificate) (k : Bytes) :
    ((bootstrap n certs).viewMap.get? k).isSome ↔
      (n.viewMap.get? k).isSome ∨
        ∃ cert ∈ certs, cert.subjectKeyId = k ∧ Admits n.peerId n.localAddr cert := by
  induction certs generalizing n with
  | nil => simp [bootstrap]
  | cons cert certs ih =>
    obtain ⟨-, same, home⟩ := (bootstrap_frame (n := n) [cert])
    have step := ih (if n.peerId = cert.subjectKeyId then n else evalCertificate n cert)
    simp only [bootstrap, List.foldl_cons, List.foldl_nil] at step same home ⊢
    rw [step, bootstrap_step_view_iff, same, home]
    simp only [List.mem_cons, exists_eq_or_imp, or_assoc]

/-- `addViewToLive` files every view peer in the live map, under its own id. -/
theorem addViewToLive_live_iff (h : Inv n) (k : Bytes) :
    ((addViewToLive n).liveMap.get? k).isSome ↔
      (n.liveMap.get? k).isSome ∨ (n.viewMap.get? k).isSome := by
  have filed : ∀ (entries : List (Σ _ : Bytes, Ref)) (m : Node), m.heap = n.heap →
      (((entries.foldl (fun m e => m.addLivePeer e.2) m).liveMap.get? k).isSome ↔
        (m.liveMap.get? k).isSome ∨ ∃ e ∈ entries, (n.heap e.2).key = k) := by
    intro entries
    induction entries with
    | nil => simp
    | cons e entries ih =>
      intro m heap
      rw [List.foldl_cons, ih (m.addLivePeer e.2) heap]
      simp only [List.mem_cons, exists_eq_or_imp, ← or_assoc]
      by_cases same : k = (n.heap e.2).key
      · simp [same, heap]
      · simp [same, heap, Ne.symm same]
  rw [addViewToLive, filed _ _ rfl]
  refine or_congr_right ⟨fun ⟨⟨k', r⟩, member, key⟩ => ?_, fun viewed => ?_⟩
  · have found := n.viewMap.get?_of_mem member
    rw [← key, (h.view_wf k' r found).2, found]; rfl
  · obtain ⟨r, found⟩ := Option.isSome_iff_exists.1 viewed
    exact ⟨⟨k, r⟩, AList.mem_lookup_iff.1 found, (h.view_wf k r found).2⟩

end Bootstrap

/-- The node `NewNode` builds has the first locality of its own certificate as its address. Its
view holds exactly the ids of the CA's known certificates that `evalCertificate` admits against
its own id and that address, and its live map holds the same ids. -/
theorem newNode_view_iff {env : Env} {certs : CertResponse} {n : Node}
    (built : newNode env certs = .ok n) (k : Bytes) :
    certs.ownCert.locality.head? = some n.localAddr ∧
      ((n.viewMap.get? k).isSome ↔ ∃ cert ∈ certs.knownCerts, cert.subjectKeyId = k ∧
        Admits certs.ownCert.subjectKeyId n.localAddr cert) ∧
      ((n.liveMap.get? k).isSome ↔ (n.viewMap.get? k).isSome) := by
  obtain ⟨p, own, rfl⟩ := newNode_cases built
  have located : certs.ownCert.locality.head? = some p.addr := by
    unfold newPeer at own
    split at own
    · cases own
    next addr rest located => cases own; simp [located]
  have booted := Inv.closed.bootstrap (Inv.initial env p) certs.knownCerts
  obtain ⟨live, -, home⟩ := bootstrap_frame (n := initial env p) certs.knownCerts
  rw [addViewToLive_viewMap, addViewToLive_localAddr, home, ← (newPeer_key own).1,
    addViewToLive_live_iff booted, live, bootstrap_view_iff]
  exact ⟨located, by simp [initial], by simp [initial]⟩

/-- Node 0 as `NewNode` builds it when the CA names peers 1 and 2 files peer 2. -/
theorem boot_node_view :
    newNode accepting ⟨sampleCert 0 "n0", sampleCert 9 "ca", [sampleCert 1 "n1", sampleCert 2 "n2"],
        false⟩ = .ok bootNode ∧
      (sampleCert 0 "n0").locality.head? = some bootNode.localAddr ∧
      ((bootNode.viewMap.get? [2]).isSome ↔ ∃ cert ∈ [sampleCert 1 "n1", sampleCert 2 "n2"],
        cert.subjectKeyId = [2] ∧ Admits (sampleCert 0 "n0").subjectKeyId bootNode.localAddr cert) ∧
      ((bootNode.liveMap.get? [2]).isSome ↔ (bootNode.viewMap.get? [2]).isSome) :=
  have built : newNode accepting ⟨sampleCert 0 "n0", sampleCert 9 "ca",
      [sampleCert 1 "n1", sampleCert 2 "n2"], false⟩ = .ok bootNode := rfl
  ⟨built, newNode_view_iff built [2]⟩

/-! ### Going live -/

/-- The caller of a `Spread` call presents a certificate for `k`. -/
def Context.Presents (ctx : Context) (k : Bytes) : Prop :=
  ∃ cert rest, ctx.peer = some (.tls (cert :: rest)) ∧ cert.subjectKeyId = k

/-- A step of the merge paths other than a `Spread` call whose caller presents a certificate for
`k`: the steps in which `k` can be learned only from a certificate, a note or an accusation. -/
inductive StepNotFrom (k : Bytes) : Node → Node → Prop
  | spread {n : Node} (env : Env) (ctx : Context) (args : Pb.GossipMsg)
      (other : ¬ ctx.Presents k) : StepNotFrom k n (spread env n ctx args).2
  | evalCertificate {n : Node} (cert : Certificate) : StepNotFrom k n (evalCertificate n cert)
  | evalNote {n : Node} (env : Env) (note : Pb.Note) : StepNotFrom k n (evalNote env n note)
  | evalAccusation {n : Node} (env : Env) (a : Pb.Accusation) :
      StepNotFrom k n (evalAccusation env n a)

/-- Every live record of `k` holds a stored note. -/
def LiveNoted (k : Bytes) (n : Node) : Prop :=
  ∀ r, n.liveMap.get? k = some r → (n.heap r).recentNote.isSome

section GoingLive

variable {k : Bytes} {n n' : Node}

/-- A stored note is never dropped. -/
theorem NoteAdvanced.isSome :
    ∀ {old new : Option Note}, NoteAdvanced old new → old.isSome → new.isSome
  | some _, some _, _, _ => rfl
  | some _, none, advanced, _ => advanced.elim
  | none, _, _, held => absurd held (by simp)

/-- A step that keeps the live entry of `k` and advances every stored note keeps
`LiveNoted k`. -/
theorem LiveNoted.of_kept (h : Inv n) (noted : LiveNoted k n) (kept : Kept n n')
    (live : n'.liveMap.get? k = n.liveMap.get? k) : LiveNoted k n' := fun r found =>
  have found₀ := live.symm.trans found
  (kept.note k r (h.live_view k r found₀)).isSome (noted r found₀)

/-- `evalNote` changes the live entry of `k` only to make a peer live that was not, and then it
has stored a note of `k` that verifies under the peer's key. -/
theorem evalNote_goes_live (h : Inv n) (env : Env) (note : Pb.Note) :
    (evalNote env n note).liveMap.get? k = n.liveMap.get? k ∨
      ∃ r, n.liveMap.get? k = none ∧ (evalNote env n note).liveMap.get? k = some r ∧
        ((evalNote env n note).heap r).recentNote = some ⟨k, note.epoch, note.signature⟩ ∧
        env.validateSignature note.signature.r note.signature.s (.note note.epoch k)
          (n.heap r).cert.publicKey = true := by
  rcases evalNote_cases env n note with same | ⟨r, found, -, -, signed, stored⟩ |
    ⟨r, a, found, accused, -, -, rebutted⟩
  · exact .inl (by rw [same])
  · have key := (h.view_wf _ r found).2
    rw [stored]
    simp only [storeNote]
    split
    next absent =>
      by_cases other : k = note.id
      · subst other
        exact .inr ⟨r, by simpa [getLivePeer] using absent, by simp [key], by simp [key], signed⟩
      · exact .inl (by simp [key, other])
    next => exact .inl rfl
  · -- a rebuttal files the accused peer again, and an accused peer is already live
    have key := (h.view_wf _ r found).2
    obtain ⟨r', live⟩ := Option.isSome_iff_exists.1
      (h.timer_live _ ((h.timer_iff _).2 ⟨r, found, by simp [accused]⟩))
    have live₀ : n.liveMap.get? note.id = some r :=
      live.trans ((h.live_view _ _ live).symm.trans found)
    rw [rebutted]
    by_cases other : k = note.id
    · subst other; exact .inl (by simp [rebut, key, live₀])
    · exact .inl (by simp [rebut, key, other])

/-- The states that keep the invariant and `LiveNoted k`: each evaluator keeps them. -/
theorem LiveNoted.closed (k : Bytes) : Closed fun m => Inv m ∧ LiveNoted k m :=
  ⟨fun cert ⟨h, noted⟩ => ⟨h.evalCertificate cert,
      noted.of_kept h (Kept.evalCertificate h cert) (by rw [evalCertificate_liveMap])⟩,
    fun env note ⟨h, noted⟩ => ⟨h.evalNote env note, by
      rcases evalNote_goes_live (k := k) h env note with same | ⟨r, -, live, stored, -⟩
      · exact noted.of_kept h (Kept.evalNote h env note) same
      · intro r' found
        cases live.symm.trans found
        simp [stored]⟩,
    fun env a ⟨h, noted⟩ => ⟨h.evalAccusation env a,
      noted.of_kept h (Kept.evalAccusation env a) (by rw [evalAccusation_liveMap])⟩⟩

/-- The caller block for a caller other than `k` keeps the live entry of `k`. -/
theorem LiveNoted.addCaller (h : Inv n) (noted : LiveNoted k n) {cert : Certificate}
    (other : cert.subjectKeyId ≠ k) (added : addCaller n cert = some n') : LiveNoted k n' := by
  refine noted.of_kept h (Kept.addCaller h added) ?_
  rcases addCaller_cases added with rfl | ⟨p, built, -, rfl⟩
  · rfl
  · simp [(newPeer_key built).1, Ne.symm other]

/-- A step that is not a `Spread` call from `k` keeps `LiveNoted k`. -/
theorem LiveNoted.step (h : Inv n) (noted : LiveNoted k n) (stepped : StepNotFrom k n n') :
    Inv n' ∧ LiveNoted k n' := by
  cases stepped with
  | spread env ctx args other =>
    exact (LiveNoted.closed k).spread ⟨h, noted⟩ env ctx args fun cert rest _ peer added =>
      ⟨h.addCaller added, noted.addCaller h (fun same => other ⟨cert, rest, peer, same⟩) added⟩
  | evalCertificate cert => exact (LiveNoted.closed k).evalCertificate cert ⟨h, noted⟩
  | evalNote env note => exact (LiveNoted.closed k).evalNote env note ⟨h, noted⟩
  | evalAccusation env a => exact (LiveNoted.closed k).evalAccusation env a ⟨h, noted⟩

/-- Along a run of steps that are not `Spread` calls from `k`, `LiveNoted k` stays. -/
theorem LiveNoted.run (h : Inv n) (noted : LiveNoted k n)
    (steps : Relation.ReflTransGen (StepNotFrom k) n n') : Inv n' ∧ LiveNoted k n' := by
  induction steps with
  | refl => exact ⟨h, noted⟩
  | tail _ stepped ih => exact LiveNoted.step ih.1 ih.2 stepped

end GoingLive

/-- In every reachable state the live map's keys are view keys, bound to the view's records. A
peer learned only from certificates, by `evalCertificate` or through a message's certificate
list, goes live only once `evalNote` stores a note of it: along every run from a reachable state
where the peer is not live, in which no `Spread` caller presents the peer's certificate, each
live record of the peer holds a stored note. -/
theorem live_peer_in_view {n : Node} (reach : Reachable n) :
    (∀ k r, n.liveMap.get? k = some r → n.viewMap.get? k = some r) ∧
      ∀ k n', n.liveMap.get? k = none → Relation.ReflTransGen (StepNotFrom k) n n' →
        ∀ r, n'.liveMap.get? k = some r →
          n'.viewMap.get? k = some r ∧ (n'.heap r).recentNote.isSome := by
  refine ⟨reach.inv.live_view, fun k n' absent steps r live => ?_⟩
  obtain ⟨inv', noted⟩ :=
    LiveNoted.run reach.inv (fun r found => by simp [absent] at found) steps
  exact ⟨inv'.live_view k r live, noted r live⟩

/-- Node 0 after filing peer 3 from its certificate. -/
def certLearnedNode : Node := evalCertificate bootNode (sampleCert 3 "n3")

/-- That node after peer 3's note of epoch 1. -/
def certNotedNode : Node := evalNote accepting certLearnedNode ⟨1, [3], ⟨[], []⟩⟩

/-- Peer 3, learned from its certificate, is in node 0's view and not live; once its note
arrives it is live and holds the note. -/
theorem certificate_peer_live_with_note :
    bootNode.viewMap.get? [1] = some 0 ∧
      certLearnedNode.viewMap.get? [3] = some 2 ∧ certLearnedNode.liveMap.get? [3] = none ∧
      certNotedNode.viewMap.get? [3] = some 2 ∧ (certNotedNode.heap 2).recentNote.isSome :=
  ⟨(live_peer_in_view bootNode_reachable).1 [1] 0 (by decide), by decide, by decide,
    (live_peer_in_view bootNode_reachable).2 [3] certNotedNode (by decide)
      (.tail (.single (.evalCertificate _)) (.evalNote _ _)) 2 (by decide)⟩

/-- Node 0 after a `Spread` call with an empty message from peer 3, which its view lacked. -/
def callerStubNode : Node :=
  (spread accepting bootNode ⟨some (.tls [sampleCert 3 "n3"])⟩
    ⟨[], [], [], ⟨1, [3], ⟨[], []⟩⟩, []⟩).2

/-- The bootstrap peers are live before any note of theirs arrived, and so is a `Spread` caller
the view lacked. -/
theorem peers_live_without_note :
    ¬ (∀ n, Reachable n → ∀ k r, n.liveMap.get? k = some r →
        n.viewMap.get? k = some r ∧ (n.heap r).recentNote.isSome) ∧
      ¬ (∀ n, Reachable n → ∀ k n', n.liveMap.get? k = none → Relation.ReflTransGen Step n n' →
        ∀ r, n'.liveMap.get? k = some r → (n'.heap r).recentNote.isSome) := by
  refine ⟨fun claim => ?_, fun claim => ?_⟩
  · exact absurd (claim bootNode bootNode_reachable [1] 0 (by decide)).2 (by decide)
  · exact absurd (claim bootNode bootNode_reachable [3] callerStubNode (by decide)
      (.single (.spread _ _ _)) 2 (by decide)) (by decide)

/-! ### Re-delivery -/

section Redelivery

variable {env : Env}

/-- Two properties every evaluator keeps are kept together. -/
theorem Closed.and {P Q : Node → Prop} (hP : Closed P) (hQ : Closed Q) :
    Closed fun n => P n ∧ Q n :=
  ⟨fun cert h => ⟨hP.evalCertificate cert h.1, hQ.evalCertificate cert h.2⟩,
    fun env note h => ⟨hP.evalNote env note h.1, hQ.evalNote env note h.2⟩,
    fun env a h => ⟨hP.evalAccusation env a h.1, hQ.evalAccusation env a h.2⟩⟩

/-- What a later state keeps of `n` that `evalCertificate`'s filters read: the view entries, the
local id and the local address. -/
def Grown (n m : Node) : Prop := (Inv m ∧ Kept n m) ∧ Identity n.peerId n.localAddr m

theorem Grown.refl {n : Node} (h : Inv n) : Grown n n := ⟨⟨h, .refl n⟩, rfl, rfl⟩

theorem Grown.closed (n : Node) : Closed (Grown n) := (Kept.closed n).and Identity.closed

/-- A certificate is settled at a node when `evalCertificate` has nothing left to do with it: its
id is in the view, or the filters refuse it. -/
def CertSettled (n : Node) (cert : Certificate) : Prop :=
  (n.viewMap.get? cert.subjectKeyId).isSome ∨ ¬ Admits n.peerId n.localAddr cert

/-- A settled certificate stays settled while the view only grows and the local id and address
stay. -/
theorem CertSettled.of_grown {n m : Node} {cert : Certificate} (h : CertSettled n cert)
    (grown : Grown n m) : CertSettled m cert := by
  obtain ⟨⟨-, kept⟩, self, home⟩ := grown
  rw [CertSettled, self, home]
  refine h.imp (fun filed => ?_) id
  obtain ⟨r, found⟩ := Option.isSome_iff_exists.1 filed
  simp [kept.view _ _ found]

/-- `evalCertificate` settles the certificate it evaluates. -/
theorem evalCertificate_settles (n : Node) (cert : Certificate) :
    CertSettled (evalCertificate n cert) cert := by
  by_cases admitted : Admits n.peerId n.localAddr cert
  · exact .inl ((evalCertificate_view_iff n cert _).2 (.inr ⟨rfl, admitted⟩))
  · obtain ⟨self, home⟩ :=
      Identity.evalCertificate (⟨rfl, rfl⟩ : Identity n.peerId n.localAddr n) cert
    right; rw [self, home]; exact admitted

/-- `evalCertificate` leaves a node as it is on a certificate settled there. -/
theorem evalCertificate_of_settled {n : Node} {cert : Certificate} (settled : CertSettled n cert) :
    evalCertificate n cert = n := by
  rcases evalCertificate_cases n cert with same | ⟨p, built, absent, -, added⟩
  · exact same
  · have filed : ((evalCertificate n cert).viewMap.get? cert.subjectKeyId).isSome := by
      rw [added]; simp [(newPeer_key built).1]
    have admitted := ((evalCertificate_view_iff n cert _).1 filed).resolve_left (by simp [absent])
    exact absurd admitted.2 (settled.resolve_left (by simp [absent]))

/-- After the certificate merge the caller's certificate and every certificate of the message
that parses are settled. -/
theorem mergeCertificates_settles {n : Node} (h : Inv n) (certs : List Pb.Certificate)
    (remote : Certificate) :
    CertSettled (mergeCertificates env n certs remote) remote ∧
      ∀ b ∈ certs, ∀ cert, env.parseCertificate b.raw = some cert →
        CertSettled (mergeCertificates env n certs remote) cert := by
  have first := evalCertificate_settles n remote
  have inv₀ : Inv (evalCertificate n remote) := h.evalCertificate remote
  have same : mergeCertificates env n certs remote =
      mergeCertificates env (evalCertificate n remote) certs remote := by
    unfold mergeCertificates; rw [evalCertificate_of_settled first]
  refine ⟨same ▸ first.of_grown ((Grown.closed _).mergeCertificates (Grown.refl inv₀) env _ _),
    fun b mem cert parsed => ?_⟩
  unfold mergeCertificates
  refine foldl_reaches (P := Inv) (Q := fun m => CertSettled m cert) mem (fun m y inv => ?_)
    (fun m y inv settled => ?_) (fun m inv => ?_) inv₀
  · split
    · exact inv
    · exact inv.evalCertificate _
  · split
    · exact settled
    · exact settled.of_grown ((Grown.closed m).evalCertificate _ (Grown.refl inv))
  · simp only [parsed]
    exact evalCertificate_settles m cert

/-- The certificate merge leaves a node as it is when every certificate it would evaluate is
settled there. -/
theorem mergeCertificates_of_settled {m : Node} {certs : List Pb.Certificate} {remote : Certificate}
    (settled : CertSettled m remote)
    (all : ∀ b ∈ certs, ∀ cert, env.parseCertificate b.raw = some cert → CertSettled m cert) :
    mergeCertificates env m certs remote = m := by
  unfold mergeCertificates
  rw [evalCertificate_of_settled settled]
  induction certs with
  | nil => rfl
  | cons b certs ih =>
    rw [List.foldl_cons]
    split
    · exact ih fun b' mem => all b' (List.mem_cons_of_mem _ mem)
    next cert parsed =>
      rw [evalCertificate_of_settled (all b (List.mem_cons_self _ _) cert parsed)]
      exact ih fun b' mem => all b' (List.mem_cons_of_mem _ mem)

/-- The caller block leaves the caller in the view. -/
theorem addCaller_files {n n' : Node} {cert : Certificate} (added : addCaller n cert = some n') :
    (n'.viewMap.get? cert.subjectKeyId).isSome := by
  unfold addCaller at added
  split at added
  next known => cases added; simpa [viewPeerExist] using known
  next =>
    split at added
    · cases added
    next p built => cases added; simp [(newPeer_key built).1]

/-- A `Spread` whose caller the view already holds runs no caller block: a neighbour's message is
merged, and anything else leaves the node as it is. -/
theorem spread_known_caller {m : Node} {ctx : Context} {args : Pb.GossipMsg} {cert : Certificate}
    {rest : List Certificate} (peer : ctx.peer = some (.tls (cert :: rest)))
    (known : (m.viewMap.get? cert.subjectKeyId).isSome) :
    (spread env m ctx args).2 = if env.shouldBeNeighbours cert.subjectKeyId = true then
      mergeAccusations env (mergeNotes env (mergeCertificates env m args.certificates cert)
        args.notes) args.accusations
    else m := by
  have added : addCaller m cert = some m := by simp [addCaller, viewPeerExist, known]
  split
  next neighbour => exact spread_neighbour peer neighbour added
  next neighbour =>
    simp only [spread, peer, neighbour, added, Bool.not_false, if_true]
    split <;> rfl

@[simp] theorem evalNote_next (note : Pb.Note) {n : Node} :
    (evalNote env n note).next = n.next := by
  rcases evalNote_cases env n note with same | ⟨r, -, -, -, -, stored⟩ |
    ⟨r, a, -, -, -, -, rebutted⟩
  · rw [same]
  · rw [stored, storeNote_next]
  · rw [rebutted]; rfl

@[simp] theorem evalAccusation_next (a : Pb.Accusation) {n : Node} :
    (evalAccusation env n a).next = n.next := by
  rcases evalAccusation_cases env n a with ⟨-, bumped⟩ | ⟨-, same⟩ |
    ⟨r, ar, -, -, -, -, -, -, -, accused⟩
  · rw [bumped]; rfl
  · rw [same]
  · rw [accused, accuse_next]

theorem mergeNotes_next (n : Node) (notes : List Pb.Note) :
    (mergeNotes env n notes).next = n.next :=
  List.foldlRecOn notes _ n (motive := fun m => m.next = n.next) rfl fun m same note _ => by
    split
    · exact same
    · exact (evalNote_next note).trans same

theorem mergeAccusations_next (n : Node) (accusations : List Pb.Accusation) :
    (mergeAccusations env n accusations).next = n.next :=
  List.foldlRecOn accusations _ n (motive := fun m => m.next = n.next) rfl
    fun _ same a _ => (evalAccusation_next a).trans same

/-- A `Spread` that changes the node leaves its caller in the view and, for a neighbour, every
certificate of the message settled. -/
theorem spread_settles {n : Node} (h : Inv n) (ctx : Context) (args : Pb.GossipMsg) :
    (spread env n ctx args).2 = n ∨ ∃ cert rest, ctx.peer = some (.tls (cert :: rest)) ∧
      ((spread env n ctx args).2.viewMap.get? cert.subjectKeyId).isSome ∧
      (env.shouldBeNeighbours cert.subjectKeyId = true → ∀ b ∈ args.certificates, ∀ c,
        env.parseCertificate b.raw = some c → CertSettled (spread env n ctx args).2 c) := by
  rcases spread_cases env n ctx args with same | ⟨cert, rest, n', peer, added, result⟩
  · exact .inl same
  have inv' := h.addCaller added
  have merged : Grown n' (mergeAccusations env (mergeNotes env
      (mergeCertificates env n' args.certificates cert) args.notes) args.accusations) :=
    (Grown.closed n').mergeAccusations ((Grown.closed n').mergeNotes
      ((Grown.closed n').mergeCertificates (Grown.refl inv') env _ _) env _) env _
  have grown : Grown n' (spread env n ctx args).2 := by
    rcases result with only | result
    · rw [only]; exact Grown.refl inv'
    · rw [result]; exact merged
  obtain ⟨r, found⟩ := Option.isSome_iff_exists.1 (addCaller_files added)
  refine .inr ⟨cert, rest, peer, by simp [grown.1.2.view _ _ found],
    fun neighbour b mem c parsed => ?_⟩
  rw [spread_neighbour peer neighbour added]
  have settled := (mergeCertificates_settles inv' args.certificates cert).2 b mem c parsed
  have inv₂ : Inv (mergeCertificates env n' args.certificates cert) :=
    Inv.closed.mergeCertificates inv' env _ _
  exact settled.of_grown ((Grown.closed _).mergeAccusations ((Grown.closed _).mergeNotes
    (Grown.refl inv₂) env _) env _)

end Redelivery

/-- Delivering the same gossip message twice files nothing the second time: the second `Spread`
finds the caller in the view and every certificate of the message settled, so its caller block and
certificate merge leave the node as they find it, and its notes and accusations neither file a
peer nor allocate a record. -/
theorem spread_redelivery_files_nothing {n : Node} (h : Inv n) (env : Env) (ctx : Context)
    (args : Pb.GossipMsg) :
    (spread env (spread env n ctx args).2 ctx args).2.viewMap = (spread env n ctx args).2.viewMap ∧
      (spread env (spread env n ctx args).2 ctx args).2.next = (spread env n ctx args).2.next := by
  rcases spread_settles h ctx args with same | ⟨cert, rest, peer, known, settled⟩
  · rw [same, same]; exact ⟨rfl, rfl⟩
  · rw [spread_known_caller peer known]
    split
    next neighbour =>
      rw [mergeCertificates_of_settled (.inl known) (settled neighbour), mergeAccusations_viewMap,
        mergeNotes_viewMap, mergeAccusations_next, mergeNotes_next]
      exact ⟨rfl, rfl⟩
    next => exact ⟨rfl, rfl⟩

/-- Node 3 hears node 0's gossip twice and files nothing the second time. -/
theorem peer_node_hears_twice :
    Inv peerNode ∧
      (spread parsing (spread parsing peerNode ⟨some (.tls [sampleCert 0 "n0"])⟩
        (collectGossipContent bootNode)).2 ⟨some (.tls [sampleCert 0 "n0"])⟩
        (collectGossipContent bootNode)).2.viewMap =
        (spread parsing peerNode ⟨some (.tls [sampleCert 0 "n0"])⟩
          (collectGossipContent bootNode)).2.viewMap ∧
      (spread parsing (spread parsing peerNode ⟨some (.tls [sampleCert 0 "n0"])⟩
        (collectGossipContent bootNode)).2 ⟨some (.tls [sampleCert 0 "n0"])⟩
        (collectGossipContent bootNode)).2.next =
        (spread parsing peerNode ⟨some (.tls [sampleCert 0 "n0"])⟩
          (collectGossipContent bootNode)).2.next :=
  ⟨peerNode_reachable.inv, spread_redelivery_files_nothing peerNode_reachable.inv parsing _ _⟩

end Ifrit
