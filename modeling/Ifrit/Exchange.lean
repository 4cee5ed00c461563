import Ifrit.NoteMerge
import Ifrit.Rebuttal

/-!
# One gossip exchange between two nodes

What a node learns when a neighbour's gossip arrives: the receiver runs `Spread` on the message
the sender's `collectGossipContent` built. The argument meets in the middle, as a round trip
does:

1. On the sender's side, every record of a reachable node is filed as `newPeer` built it, under
   its certificate's id and address, and its stored note and accusation name it
   (`records_filed`). So the message carries, for each view peer, its certificate, and a note
   and an accusation under its id; and the only note it carries for a peer is that peer's own
   (`collected_note`).
2. On the receiver's side, the caller block and the certificate merge only add records
   (`certificate_stage`), the certificate merge files every certificate its filters admit, and
   no later stage drops a view entry (`spread_learns_sender_view`). No stage files an id the call
   did not present (`spread_view_from_certificates`).
3. With the note merge of `NoteMerge`, each peer the receiver holds unaccused reaches at least
   the note the sender stored for it (`spread_learns_sender_notes`), and an accusation the sender
   holds reaches a receiver whose checks accept it (`spread_learns_sender_accusations`): the
   message's notes cannot make it stale, since the sender's note of the peer is older, and the
   accusations before it change nothing its checks read (`mergeAccusations_accuses`).
-/

namespace Ifrit

open Node

/-! ### Frames of the steps -/

/-- The local id and address: no step changes them. -/
def Identity (self : Bytes) (addr : String) (n : Node) : Prop :=
  n.peerId = self ∧ n.localAddr = addr

namespace Identity

variable {self : Bytes} {addr : String} {n : Node}

theorem evalCertificate (h : Identity self addr n) (cert : Certificate) :
    Identity self addr (evalCertificate n cert) := by
  rcases evalCertificate_cases n cert with same | ⟨p, -, -, -, added⟩
  · rwa [same]
  · rw [added]; exact h

theorem closed : Closed (Identity self addr) :=
  ⟨fun cert h => h.evalCertificate cert,
    fun env note h => by
      obtain ⟨-, id, home⟩ := @evalNote_frame env _ note
      exact ⟨id.trans h.1, home.trans h.2⟩,
    fun env a h => by
      obtain ⟨-, id, home⟩ := @evalAccusation_frame env _ a
      exact ⟨id.trans h.1, home.trans h.2⟩⟩

theorem addCaller (h : Identity self addr n) {cert : Certificate} {n' : Node}
    (added : addCaller n cert = some n') : Identity self addr n' := by
  rcases addCaller_cases added with rfl | ⟨p, -, -, rfl⟩ <;> exact h

end Identity

/-- The records allocated in `n₀` are still there, unchanged: the caller block and the
certificate merge only allocate. -/
def Allocated (n₀ n : Node) : Prop := n₀.next ≤ n.next ∧ ∀ r < n₀.next, n.heap r = n₀.heap r

namespace Allocated

variable {n₀ n n' : Node}

theorem addFresh (h : Allocated n₀ n) (p : Peer) :
    Allocated n₀ ((n.alloc p).addViewPeer n.next) := by
  refine ⟨Nat.le_succ_of_le h.1, fun r lt => ?_⟩
  have fresh : r ≠ n.next := Nat.ne_of_lt (Nat.lt_of_lt_of_le lt h.1)
  simpa [Function.update_noteq fresh] using h.2 r lt

theorem evalCertificate (h : Allocated n₀ n) (cert : Certificate) :
    Allocated n₀ (Ifrit.evalCertificate n cert) := by
  rcases evalCertificate_cases n cert with same | ⟨p, -, -, -, added⟩
  · rwa [same]
  · rw [added]; exact h.addFresh p

theorem addCaller (h : Allocated n₀ n) {cert : Certificate}
    (added : Ifrit.addCaller n cert = some n') :
    Allocated n₀ n' := by
  rcases addCaller_cases added with rfl | ⟨p, -, -, rfl⟩
  · exact h
  · exact h.addFresh p

theorem mergeCertificates (h : Allocated n₀ n) (env : Env) (certs : List Pb.Certificate)
    (remoteCert : Certificate) : Allocated n₀ (Ifrit.mergeCertificates env n certs remoteCert) :=
  List.foldlRecOn certs _ _ (h.evalCertificate remoteCert) fun m hm b _ => by
    split
    · exact hm
    · exact hm.evalCertificate _

end Allocated

section Accusations

variable {env : Env} {n : Node}

/-- `evalAccusation` changes a record only in its accusation. -/
theorem evalAccusation_record (a : Pb.Accusation) (r : Ref) :
    (evalAccusation env n a).heap r =
      { n.heap r with accusation := ((evalAccusation env n a).heap r).accusation } := by
  rcases evalAccusation_cases env n a with ⟨-, bumped⟩ | ⟨-, same⟩ |
    ⟨r', ar, -, -, -, -, -, -, -, accused⟩
  · rw [bumped]; rfl
  · rw [same]
  · rw [accused, accuse_heap]
    by_cases written : r = r'
    · subst written; simp
    · simp [Function.update_noteq written]

/-- `evalAccusation` never clears an accusation. -/
theorem evalAccusation_keeps_accused (a : Pb.Accusation) {r : Ref}
    (accused : (n.heap r).accusation.isSome) :
    ((evalAccusation env n a).heap r).accusation.isSome := by
  rcases evalAccusation_cases env n a with ⟨-, bumped⟩ | ⟨-, same⟩ |
    ⟨r', ar, -, -, -, -, -, -, -, recorded⟩
  · rw [bumped]; exact accused
  · rw [same]; exact accused
  · rw [recorded, accuse_heap]
    by_cases written : r = r'
    · subst written; simp
    · simpa [Function.update_noteq written] using accused

/-- With every check passed, `evalAccusation` records the accusation on an unaccused peer. -/
theorem evalAccusation_accuses {a : Pb.Accusation} {r ar : Ref} (other : n.peerId ≠ a.accused)
    (live : n.liveMap.get? a.accused = some r) (accuser : n.liveMap.get? a.accuser = some ar)
    (older : olderThan (n.heap r).recentNote a.epoch = true)
    (unaccused : (n.heap r).accusation = none)
    (signed : env.validateSignature a.signature.r a.signature.s
      (.accusation a.epoch a.accuser a.accused) (n.heap ar).cert.publicKey = true)
    (prev : env.isPrev (n.heap ar).key (n.heap r).key = true) :
    ((evalAccusation env n a).heap r).accusation.isSome := by
  simp [evalAccusation, getLivePeer, other, live, accuser, older, heldByHigherRank, unaccused,
    signed, prev]

end Accusations

/-- The records allocated in `n₀` keep their certificates. -/
def CertsKept (n₀ n : Node) : Prop :=
  n₀.next ≤ n.next ∧ ∀ r < n₀.next, (n.heap r).cert = (n₀.heap r).cert

namespace CertsKept

variable {n₀ n : Node}

theorem of_same {n' : Node} (h : CertsKept n₀ n) (heap : n'.heap = n.heap)
    (next : n'.next = n.next) : CertsKept n₀ n' :=
  ⟨next ▸ h.1, fun r lt => heap ▸ h.2 r lt⟩

theorem setPeer (h : CertsKept n₀ n) {r : Ref} {p : Peer} (cert : p.cert = (n.heap r).cert) :
    CertsKept n₀ (n.setPeer r p) :=
  ⟨h.1, fun r' lt => (update_field Peer.cert cert r').trans (h.2 r' lt)⟩

theorem addFresh (h : CertsKept n₀ n) (p : Peer) :
    CertsKept n₀ ((n.alloc p).addViewPeer n.next) := by
  refine ⟨Nat.le_succ_of_le h.1, fun r lt => ?_⟩
  have fresh : r ≠ n.next := Nat.ne_of_lt (Nat.lt_of_lt_of_le lt h.1)
  simpa [Function.update_noteq fresh] using h.2 r lt

theorem closed (n₀ : Node) : Closed (CertsKept n₀) := by
  refine ⟨fun cert h => ?_, fun {n} env note h => ?_, fun env a h => ?_⟩
  · rcases evalCertificate_cases _ cert with same | ⟨p, -, -, -, added⟩
    · rwa [same]
    · rw [added]; exact h.addFresh p
  · rcases evalNote_cases env n note with same | ⟨r, -, -, -, -, stored⟩ |
      ⟨r, a, -, -, -, -, rebutted⟩
    · rwa [same]
    · have noted : CertsKept n₀ (n.setNote r ⟨(n.heap r).key, note.epoch, note.signature⟩) :=
        h.setPeer rfl
      rw [stored]; exact noted.of_same (storeNote_heap ..) (storeNote_next ..)
    · rw [rebutted]; exact CertsKept.setPeer (n := n.deleteTimeout _) h rfl
  · refine ⟨?_, fun r lt => ?_⟩
    · rcases evalAccusation_cases env _ a with ⟨-, bumped⟩ | ⟨-, same⟩ |
        ⟨r', ar, -, -, -, -, -, -, -, accused⟩
      · rw [bumped]; exact h.1
      · rw [same]; exact h.1
      · rw [accused, accuse_next]; exact h.1
    · rw [evalAccusation_record a r]; exact h.2 r lt

theorem addCaller (h : CertsKept n₀ n) {cert : Certificate} {n' : Node}
    (added : addCaller n cert = some n') : CertsKept n₀ n' := by
  rcases addCaller_cases added with rfl | ⟨p, -, -, rfl⟩
  · exact h
  · exact h.addFresh p

end CertsKept

/-- A fold reaches `Q` when the step at one member establishes it, every step keeps `P`, and
every step keeps `Q` where `P` holds. -/
theorem foldl_reaches {α β : Type} {f : β → α → β} {P Q : β → Prop} {l : List α} {x : α}
    (mem : x ∈ l) (keep : ∀ b y, P b → P (f b y)) (keepQ : ∀ b y, P b → Q b → Q (f b y))
    (reach : ∀ b, P b → Q (f b x)) {init : β} (h : P init) : Q (l.foldl f init) := by
  obtain ⟨s, t, rfl⟩ := List.append_of_mem mem
  rw [List.foldl_append, List.foldl_cons]
  have before : P (s.foldl f init) := List.foldlRecOn s f init h fun b hb y _ => keep b y hb
  exact (List.foldlRecOn t f _ (motive := fun b => P b ∧ Q b) ⟨keep _ x before, reach _ before⟩
    fun b hb y _ => ⟨keep b y hb.1, keepQ b y hb.1 hb.2⟩).2

/-! ### The sender: every record is filed as `newPeer` built it -/

/-- A record as `newPeer` built it, with its note and accusation filed under its id: the id and
the address are its certificate's `SubjectKeyId` and `Locality[0]`, and a stored note or
accusation names it. -/
structure Peer.Filed (p : Peer) : Prop where
  key : p.cert.subjectKeyId = p.key
  addr : p.cert.locality.head? = some p.addr
  note : ∀ note ∈ p.recentNote, note.peerId = p.key
  accusation : ∀ a ∈ p.accusation, a.peerId = p.key

namespace Peer.Filed

theorem of_newPeer {cert : Certificate} {p : Peer} (built : newPeer cert = some p) : p.Filed := by
  unfold newPeer at built
  split at built
  · cases built
  next addr rest located =>
    cases built
    exact ⟨rfl, by simp [located], by simp, by simp⟩

theorem withAccusation {p : Peer} (filed : p.Filed) {a : Option Accusation}
    (named : ∀ a' ∈ a, a'.peerId = p.key) : ({ p with accusation := a } : Peer).Filed :=
  ⟨filed.key, filed.addr, filed.note, named⟩

theorem withNote {p : Peer} (filed : p.Filed) {note : Note} (named : note.peerId = p.key) :
    ({ p with recentNote := some note } : Peer).Filed :=
  ⟨filed.key, filed.addr, by simpa using named, filed.accusation⟩

end Peer.Filed

@[simp] theorem addViewToLive_next (n : Node) : (addViewToLive n).next = n.next :=
  List.foldlRecOn n.viewMap.entries (fun n e => n.addLivePeer e.2) n
    (motive := fun m => m.next = n.next) rfl fun _ same _ _ => same

/-- A record `getView` lists is the one the view files under its id. -/
theorem Inv.mem_getView {n : Node} (h : Inv n) {p : Peer} (known : p ∈ n.getView) :
    ∃ r, n.viewMap.get? p.key = some r ∧ n.heap r = p := by
  obtain ⟨⟨k, r⟩, member, rfl⟩ := List.mem_map.1 known
  have found := n.viewMap.get?_of_mem member
  exact ⟨r, (h.view_wf k r found).2 ▸ found, rfl⟩

/-- Every allocated record is filed. -/
def RecordsFiled (n : Node) : Prop := ∀ r < n.next, (n.heap r).Filed

namespace RecordsFiled

variable {n : Node}

theorem of_same {n' : Node} (h : RecordsFiled n) (heap : n'.heap = n.heap)
    (next : n'.next = n.next) : RecordsFiled n' := by
  intro r lt
  rw [heap]
  exact h r (next ▸ lt)

/-- A write through an allocated pointer keeps the records filed if the record it writes is. -/
theorem setPeer (h : RecordsFiled n) {r : Ref} {p : Peer} (filed : r < n.next → p.Filed) :
    RecordsFiled (n.setPeer r p) := by
  intro r' lt
  by_cases same : r' = r
  · subst same; simpa using filed lt
  · simpa [Function.update_noteq same] using h r' lt

theorem alloc (h : RecordsFiled n) {p : Peer} (filed : p.Filed) : RecordsFiled (n.alloc p) := by
  intro r lt
  by_cases fresh : r = n.next
  · subst fresh; simpa using filed
  · simpa [Function.update_noteq fresh] using
      h r (Nat.lt_of_le_of_ne (Nat.le_of_lt_succ lt) fresh)

theorem evalNote (h : RecordsFiled n) (env : Env) (note : Pb.Note) :
    RecordsFiled (evalNote env n note) := by
  rcases evalNote_cases env n note with same | ⟨r, -, -, -, -, stored⟩ |
    ⟨r, a, -, -, -, -, rebutted⟩
  · rwa [same]
  · have noted : RecordsFiled (n.setNote r ⟨(n.heap r).key, note.epoch, note.signature⟩) :=
      h.setPeer fun lt => (h r lt).withNote rfl
    rw [stored]
    exact noted.of_same (storeNote_heap ..) (storeNote_next ..)
  · rw [rebutted]
    exact RecordsFiled.setPeer (n := n.deleteTimeout _) h fun lt =>
      (h r lt).withAccusation (by simp)

theorem evalAccusation (h : RecordsFiled n) (env : Env) (a : Pb.Accusation) :
    RecordsFiled (evalAccusation env n a) := by
  rcases evalAccusation_cases env n a with ⟨-, bumped⟩ | ⟨-, same⟩ |
    ⟨r, ar, -, -, -, -, -, -, -, accused⟩
  · rw [bumped]; exact h
  · rwa [same]
  · have recorded : RecordsFiled
        (n.setAccusation r ⟨(n.heap r).key, a.epoch, (n.heap ar).key, a.signature⟩) :=
      h.setPeer fun lt => (h r lt).withAccusation (by simp)
    rw [accused]
    exact recorded.of_same (accuse_heap ..) (accuse_next ..)

theorem evalCertificate (h : RecordsFiled n) (cert : Certificate) :
    RecordsFiled (evalCertificate n cert) := by
  rcases evalCertificate_cases n cert with same | ⟨p, built, -, -, added⟩
  · rwa [same]
  · rw [added]; exact h.alloc (.of_newPeer built)

theorem closed : Closed RecordsFiled :=
  ⟨fun cert h => h.evalCertificate cert, fun env note h => h.evalNote env note,
    fun env a h => h.evalAccusation env a⟩

theorem addCaller (h : RecordsFiled n) {cert : Certificate} {n' : Node}
    (added : addCaller n cert = some n') : RecordsFiled n' := by
  rcases addCaller_cases added with rfl | ⟨p, built, -, rfl⟩
  · exact h
  · exact h.alloc (.of_newPeer built)

theorem newNode {env : Env} {certs : CertResponse} (built : newNode env certs = .ok n) :
    RecordsFiled n := by
  obtain ⟨p, -, rfl⟩ := newNode_cases built
  have booted := closed.bootstrap (n := initial env p) (fun r lt => absurd lt (Nat.not_lt_zero r))
    certs.knownCerts
  exact booted.of_same (addViewToLive_heap _) (addViewToLive_next _)

/-- A view peer is filed. -/
theorem view (h : RecordsFiled n) (inv : Inv n) {p : Peer} (known : p ∈ n.getView) : p.Filed := by
  obtain ⟨r, found, rfl⟩ := inv.mem_getView known
  exact h r (inv.view_wf _ r found).1

end RecordsFiled

/-- In every reachable state each allocated record carries the id and the address of the
certificate it was built from, and its stored note names it: what `collectGossipContent` sends
about a view peer is about that peer. -/
theorem records_filed {n : Node} (reach : Reachable n) : RecordsFiled n :=
  RecordsFiled.closed.reachable (fun h added => h.addCaller added)
    (fun _ _ built => RecordsFiled.newNode built) reach

/-- A note of a node's gossip is the message of the note its view files under the note's id. -/
theorem collected_note {A : Node} (filed : RecordsFiled A) (inv : Inv A) {note : Pb.Note}
    (sent : note ∈ (collectGossipContent A).notes) :
    ∃ r stored, A.viewMap.get? note.id = some r ∧ (A.heap r).recentNote = some stored ∧
      note = stored.toPbMsg := by
  obtain ⟨q, known, carried⟩ := List.mem_filterMap.1 sent
  obtain ⟨r, found, rfl⟩ := inv.mem_getView known
  obtain ⟨stored, noted, rfl⟩ : ∃ stored, (A.heap r).recentNote = some stored ∧
      stored.toPbMsg = note := by
    simpa [Peer.createPbInfo] using carried
  have named : stored.toPbMsg.id = (A.heap r).key :=
    (filed r (inv.view_wf _ r found).1).note stored noted
  exact ⟨r, stored, named ▸ found, noted, rfl⟩

/-! ### The receiver: what `Spread` files in the view -/

section Receiver

variable {env : Env}

/-- The caller block succeeds on a caller whose certificate has a locality. -/
theorem addCaller_some {n : Node} {cert : Certificate} (located : cert.locality ≠ []) :
    ∃ n', addCaller n cert = some n' := by
  unfold addCaller
  split
  · exact ⟨_, rfl⟩
  · obtain ⟨addr, rest, eq⟩ := List.exists_cons_of_ne_nil located
    simp [newPeer, eq]

/-- A neighbour's `Spread` once the caller block has run: the three merges, in order. -/
theorem spread_neighbour {n n' : Node} {ctx : Context} {args : Pb.GossipMsg} {cert : Certificate}
    {rest : List Certificate} (peer : ctx.peer = some (.tls (cert :: rest)))
    (neighbour : env.shouldBeNeighbours cert.subjectKeyId = true)
    (added : addCaller n cert = some n') :
    (spread env n ctx args).2 = mergeAccusations env
      (mergeNotes env (mergeCertificates env n' args.certificates cert) args.notes)
      args.accusations := by
  simp [spread, peer, neighbour, added]

/-- What `evalCertificate` filters on: a first locality other than the local address, and an id
that is neither empty nor the local one. -/
def Admits (localId : Bytes) (localAddr : String) (cert : Certificate) : Prop :=
  (∃ addr rest, cert.locality = addr :: rest ∧ addr ≠ localAddr) ∧ cert.subjectKeyId ≠ [] ∧
    cert.subjectKeyId ≠ localId

/-- `evalCertificate` files the id of a certificate its filters admit, and nothing else. -/
theorem evalCertificate_view_iff (n : Node) (cert : Certificate) (k : Bytes) :
    ((evalCertificate n cert).viewMap.get? k).isSome ↔
      (n.viewMap.get? k).isSome ∨ (cert.subjectKeyId = k ∧ Admits n.peerId n.localAddr cert) := by
  unfold evalCertificate
  rcases located : cert.locality with _ | ⟨addr, rest⟩
  · simp [Admits, located]
  · by_cases remote : addr = n.localAddr
    · simp [Admits, located, remote]
    by_cases named : cert.subjectKeyId = [] ∨ n.peerId = cert.subjectKeyId
    · have refused : ¬ Admits n.peerId n.localAddr cert := fun ⟨_, empty, own⟩ =>
        named.elim empty fun same => own same.symm
      simp [remote, named, refused]
    have admitted : Admits n.peerId n.localAddr cert :=
      ⟨⟨addr, rest, located, remote⟩, fun empty => named (.inl empty),
        fun own => named (.inr own.symm)⟩
    simp only [if_neg remote, if_neg named, getViewPeer, admitted, and_true]
    split
    next r found =>
      refine ⟨.inl, fun filed => filed.elim id fun same => ?_⟩
      simp [← same, found]
    next absent =>
      by_cases same : k = cert.subjectKeyId
      · simp [newPeer, located, same]
      · simp [newPeer, located, same, Ne.symm same]

/-- The certificate merge files every certificate of the message that parses to itself and that
the filters admit. -/
theorem mergeCertificates_files {n : Node} (h : Inv n) (certs : List Pb.Certificate)
    (remoteCert : Certificate) {cert : Certificate} (sent : (⟨cert.raw⟩ : Pb.Certificate) ∈ certs)
    (parsed : env.parseCertificate cert.raw = some cert)
    (admitted : Admits n.peerId n.localAddr cert) :
    ∃ r, (mergeCertificates env n certs remoteCert).viewMap.get? cert.subjectKeyId = some r := by
  have start : Inv (evalCertificate n remoteCert) ∧
      Identity n.peerId n.localAddr (evalCertificate n remoteCert) :=
    ⟨h.evalCertificate remoteCert, Identity.evalCertificate ⟨rfl, rfl⟩ remoteCert⟩
  unfold mergeCertificates
  refine foldl_reaches (P := fun m => Inv m ∧ Identity n.peerId n.localAddr m)
    (Q := fun m => ∃ r, m.viewMap.get? cert.subjectKeyId = some r) sent
    (fun m b hm => ?_) (fun m b hm ⟨r, found⟩ => ?_) (fun m hm => ?_) start
  · split
    · exact hm
    · exact ⟨hm.1.evalCertificate _, hm.2.evalCertificate _⟩
  · split
    · exact ⟨r, found⟩
    · exact ⟨r, (Kept.evalCertificate hm.1 _).view _ r found⟩
  · obtain ⟨same, home⟩ := hm.2
    simp only [parsed]
    rw [← Option.isSome_iff_exists, evalCertificate_view_iff, same, home]
    exact .inr ⟨rfl, admitted⟩

/-- The caller block files no id but the caller's. -/
theorem addCaller_view_from {n n' : Node} {cert : Certificate} (added : addCaller n cert = some n')
    {k : Bytes} (filed : (n'.viewMap.get? k).isSome) :
    (n.viewMap.get? k).isSome ∨ cert.subjectKeyId = k := by
  rcases addCaller_cases added with rfl | ⟨p, built, -, rfl⟩
  · exact .inl filed
  · rw [← (newPeer_key built).1]
    by_cases fresh : k = p.key
    · exact .inr fresh.symm
    · exact .inl (by simpa [fresh] using filed)

/-- The certificate merge files no id but those of the remote certificate and of the message's
certificates that parse. -/
theorem mergeCertificates_view_from (n : Node) (certs : List Pb.Certificate)
    (remoteCert : Certificate) {k : Bytes}
    (filed : ((mergeCertificates env n certs remoteCert).viewMap.get? k).isSome) :
    (n.viewMap.get? k).isSome ∨ remoteCert.subjectKeyId = k ∨
      ∃ b ∈ certs, ∃ c, env.parseCertificate b.raw = some c ∧ c.subjectKeyId = k := by
  unfold mergeCertificates at filed
  refine List.foldlRecOn certs _ _ (motive := fun m : Node => ∀ k, (m.viewMap.get? k).isSome →
      (n.viewMap.get? k).isSome ∨ remoteCert.subjectKeyId = k ∨
        ∃ b ∈ certs, ∃ c, env.parseCertificate b.raw = some c ∧ c.subjectKeyId = k)
    (fun k filed => ?_) (fun m within b sent k filed => ?_) k filed
  · exact ((evalCertificate_view_iff n remoteCert k).1 filed).imp_right fun admitted =>
      .inl admitted.1
  · split at filed
    · exact within k filed
    next c parsed =>
      rcases (evalCertificate_view_iff _ c k).1 filed with before | ⟨admitted, -⟩
      · exact within k before
      · exact .inr (.inr ⟨b, sent, c, parsed, admitted⟩)

/-- A batch of accusations holding one that passes every check of `evalAccusation` at its start
ends with the accused peer's record accused: the checks read the live entries, the peer's note,
the two keys and the accuser's certificate, and accusations change none of them. -/
theorem mergeAccusations_accuses {n : Node} (h : Inv n) {accusations : List Pb.Accusation}
    {a : Pb.Accusation} (sent : a ∈ accusations) {r ar : Ref} (other : n.peerId ≠ a.accused)
    (live : n.liveMap.get? a.accused = some r) (accuser : n.liveMap.get? a.accuser = some ar)
    (older : olderThan (n.heap r).recentNote a.epoch = true)
    (signed : env.validateSignature a.signature.r a.signature.s
      (.accusation a.epoch a.accuser a.accused) (n.heap ar).cert.publicKey = true)
    (prev : env.isPrev (n.heap ar).key (n.heap r).key = true) :
    ((mergeAccusations env n accusations).heap r).accusation.isSome := by
  have key : ∀ {m k r}, Inv m → m.liveMap.get? k = some r → (m.heap r).key = k :=
    fun inv live => (inv.view_wf _ _ (inv.live_view _ _ live)).2
  refine foldl_reaches (f := fun m b => evalAccusation env m b)
    (P := fun m => (Inv m ∧ Kept n m) ∧ m.peerId = n.peerId ∧
      ∀ r', (m.heap r').recentNote = (n.heap r').recentNote ∧ (m.heap r').cert = (n.heap r').cert)
    (Q := fun m => (m.heap r).accusation.isSome) sent
    (fun m b ⟨kept, self, records⟩ => ⟨(Kept.closed n).mergeAccusations kept env [b],
      (evalAccusation_frame b).2.1.trans self, fun r' => by
        rw [evalAccusation_record b r']; exact records r'⟩)
    (fun m b _ accused => evalAccusation_keeps_accused b accused)
    (fun m ⟨⟨inv, kept⟩, self, records⟩ => ?_) ⟨⟨h, .refl n⟩, rfl, fun _ => ⟨rfl, rfl⟩⟩
  cases held : (m.heap r).accusation with
  | some _ => exact evalAccusation_keeps_accused _ (by simp [held])
  | none =>
    have live' := kept.live _ _ live
    have accuser' := kept.live _ _ accuser
    refine evalAccusation_accuses (self ▸ other) live' accuser' ((records r).1 ▸ older) held
      ((records ar).2 ▸ signed) ?_
    rwa [key inv live', key inv accuser', ← key h live, ← key h accuser]

end Receiver

/-- The caller block and the certificate merge only add records: the receiver keeps its
invariant, its entries, its local id and address, and every record it had. -/
theorem certificate_stage {n n' : Node} (h : Inv n) {cert : Certificate}
    (added : addCaller n cert = some n') (env : Env) (certs : List Pb.Certificate) :
    Inv (mergeCertificates env n' certs cert) ∧ Kept n (mergeCertificates env n' certs cert) ∧
      Identity n.peerId n.localAddr (mergeCertificates env n' certs cert) ∧
      Allocated n (mergeCertificates env n' certs cert) := by
  obtain ⟨inv, kept⟩ :=
    (Kept.closed n).mergeCertificates ⟨h.addCaller added, Kept.addCaller h added⟩
    env certs cert
  exact ⟨inv, kept, Identity.closed.mergeCertificates
      ((show Identity n.peerId n.localAddr n from ⟨rfl, rfl⟩).addCaller added) env _ _,
    (Allocated.addCaller ⟨le_refl _, fun _ _ => rfl⟩ added).mergeCertificates env _ _⟩

/-- The caller block and the certificate merge keep an unaccused view peer tracked. -/
theorem UnaccusedPeer.certificate_stage {localId k pub : Bytes} {r : Ref} {n n' : Node}
    (h : UnaccusedPeer localId k r pub n) {cert : Certificate} (added : addCaller n cert = some n')
    (env : Env) (certs : List Pb.Certificate) :
    UnaccusedPeer localId k r pub (mergeCertificates env n' certs cert) := by
  obtain ⟨inv, kept, ⟨same, -⟩, allocated⟩ := Ifrit.certificate_stage h.inv added env certs
  exact h.of_record inv same (kept.view _ _ h.found) (allocated.2 r (h.inv.view_wf k r h.found).1)

/-! ### One exchange -/

/-- A neighbour's `Spread` on another node's gossip files every view peer of the sender whose
certificate parses back to itself and passes the receiver's filters: a locality other than the
receiver's address, and an id that is neither empty nor the receiver's. The sender is any
reachable node, and the caller block must accept the caller's certificate. -/
theorem spread_learns_sender_view {A B : Node} (sender : Reachable A) (receiver : Inv B)
    (env : Env) {ctx : Context} {cert : Certificate} {rest : List Certificate}
    (peer : ctx.peer = some (.tls (cert :: rest)))
    (neighbour : env.shouldBeNeighbours cert.subjectKeyId = true) (located : cert.locality ≠ [])
    {p : Peer} (known : p ∈ A.getView) (parsed : env.parseCertificate p.cert.raw = some p.cert)
    (named : p.key ≠ []) (other : p.key ≠ B.peerId) (remote : p.addr ≠ B.localAddr) :
    ((spread env B ctx (collectGossipContent A)).2.viewMap.get? p.key).isSome := by
  have filed := (records_filed sender).view sender.inv known
  obtain ⟨tail, addressed⟩ := List.head?_eq_some_iff.1 filed.addr
  obtain ⟨B', added⟩ := addCaller_some (n := B) located
  obtain ⟨same, home⟩ := (show Identity B.peerId B.localAddr B from ⟨rfl, rfl⟩).addCaller added
  have sent : (⟨p.cert.raw⟩ : Pb.Certificate) ∈ (collectGossipContent A).certificates :=
    List.mem_map_of_mem (fun p : Peer => p.createPbInfo.1) known
  have admitted : Admits B'.peerId B'.localAddr p.cert := by
    rw [same, home]
    exact ⟨⟨p.addr, tail, addressed, remote⟩, filed.key ▸ named, filed.key ▸ other⟩
  obtain ⟨r, found⟩ :=
    mergeCertificates_files (receiver.addCaller added) _ cert sent parsed admitted
  rw [spread_neighbour peer neighbour added, mergeAccusations_viewMap, mergeNotes_viewMap,
    ← filed.key, found]
  rfl

/-- `accepting` with a parser that reads the sample certificates of nodes 0 to 3 back. -/
def parsing : Env :=
  { accepting with
    parseCertificate := fun raw =>
      match raw with
      | [0] => some (sampleCert 0 "n0")
      | [1] => some (sampleCert 1 "n1")
      | [2] => some (sampleCert 2 "n2")
      | [3] => some (sampleCert 3 "n3")
      | _ => none }

/-- Node 3 as `NewNode` builds it when the CA names peers 0 and 2. -/
def peerNode : Node :=
  addViewToLive (bootstrap (initial accepting ⟨[3], "n3", sampleCert 3 "n3", none, none⟩)
    [sampleCert 0 "n0", sampleCert 2 "n2"])

theorem peerNode_reachable : Reachable peerNode :=
  .newNode accepting ⟨sampleCert 3 "n3", sampleCert 9 "ca", [sampleCert 0 "n0", sampleCert 2 "n2"],
    false⟩ rfl

/-- Node 3 learns peer 1 from node 0's gossip. -/
theorem peer_node_learns_view :
    bootNode.heap 0 ∈ bootNode.getView ∧
      parsing.parseCertificate (bootNode.heap 0).cert.raw = some (bootNode.heap 0).cert ∧
      (bootNode.heap 0).key ≠ peerNode.peerId ∧ (bootNode.heap 0).addr ≠ peerNode.localAddr ∧
      ((spread parsing peerNode ⟨some (.tls [sampleCert 0 "n0"])⟩
        (collectGossipContent bootNode)).2.viewMap.get? (bootNode.heap 0).key).isSome :=
  ⟨by decide, by decide, by decide, by decide,
    spread_learns_sender_view bootNode_reachable peerNode_reachable.inv parsing rfl rfl
      (by decide) (by decide) (by decide) (by decide) (by decide) (by decide)⟩

/-- A note the sender stores for a view peer reaches every neighbour that holds that peer
unaccused and whose signature check accepts the note: after one exchange the neighbour still
files the peer at the same record, and its note of the peer is at least as new. -/
theorem spread_learns_sender_notes {A B : Node} (sender : Reachable A) (receiver : Inv B)
    (env : Env) {ctx : Context} {cert : Certificate} {rest : List Certificate}
    (peer : ctx.peer = some (.tls (cert :: rest)))
    (neighbour : env.shouldBeNeighbours cert.subjectKeyId = true) (located : cert.locality ≠ [])
    {p : Peer} (known : p ∈ A.getView) {note : Note} (noted : p.recentNote = some note) {r : Ref}
    (found : B.viewMap.get? p.key = some r) (unaccused : (B.heap r).accusation = none)
    (other : p.key ≠ B.peerId)
    (signed : env.validateSignature note.signature.r note.signature.s (.note note.epoch p.key)
      (B.heap r).cert.publicKey = true) :
    (spread env B ctx (collectGossipContent A)).2.viewMap.get? p.key = some r ∧
      NoteAdvanced (some note) ((spread env B ctx (collectGossipContent A)).2.heap r).recentNote := by
  have named := (records_filed sender).view sender.inv known |>.note note noted
  obtain ⟨B', added⟩ := addCaller_some (n := B) located
  have tracked : UnaccusedPeer B.peerId p.key r (B.heap r).cert.publicKey
      (mergeCertificates env B' (collectGossipContent A).certificates cert) :=
    UnaccusedPeer.certificate_stage ⟨receiver, rfl, found, unaccused, rfl⟩ added env _
  have sent : note.toPbMsg ∈ (collectGossipContent A).notes :=
    List.mem_filterMap.2 ⟨p, known, by simp [Peer.createPbInfo, noted]⟩
  have accepted : note.toPbMsg.Accepted env B.peerId p.key (B.heap r).cert.publicKey :=
    ⟨named, other.symm, by simpa [Note.toPbMsg, named] using signed⟩
  obtain ⟨merged, stored⟩ := @mergeNotes_stored_eq env _ _ _ _ _ tracked
    (collectGossipContent A).notes
  have newest := (noteFold_newest (collectGossipContent A).notes
    ((mergeCertificates env B' (collectGossipContent A).certificates cert).heap r).recentNote).advanced
    _ (.inr ⟨_, sent, accepted, rfl⟩)
  rw [← stored] at newest
  obtain ⟨-, kept⟩ := (Kept.closed _).mergeAccusations ⟨merged.inv, .refl _⟩ env
    (collectGossipContent A).accusations
  rw [spread_neighbour peer neighbour added]
  have same : NoteAdvanced (some note) (some ⟨p.key, note.epoch, note.signature⟩) :=
    UInt64.le_refl note.epoch
  exact ⟨kept.view _ r merged.found, same.trans (newest.trans (kept.note _ r merged.found))⟩

/-- Node 3 reaches the note of peer 2 that node 0 stored. -/
theorem peer_node_learns_note :
    Reachable notedNode ∧ (notedNode.heap 1).recentNote = some ⟨[2], 1, ⟨[], []⟩⟩ ∧
      peerNode.viewMap.get? [2] = some 1 ∧ (peerNode.heap 1).accusation = none ∧
      (spread parsing peerNode ⟨some (.tls [sampleCert 0 "n0"])⟩
        (collectGossipContent notedNode)).2.viewMap.get? (notedNode.heap 1).key = some 1 ∧
      NoteAdvanced (some ⟨[2], 1, ⟨[], []⟩⟩) ((spread parsing peerNode
        ⟨some (.tls [sampleCert 0 "n0"])⟩ (collectGossipContent notedNode)).2.heap 1).recentNote :=
  have reach : Reachable notedNode := .step bootNode_reachable (.evalNote _ _)
  ⟨reach, by decide, by decide, by decide,
    spread_learns_sender_notes reach peerNode_reachable.inv parsing rfl rfl (by decide)
      (by decide) (by decide) (by decide) (by decide) (by decide) rfl⟩

/-- `Spread` files no id in the view but the caller's and those of the message's certificates
that parse: notes and accusations never add a peer, whatever they name. -/
theorem spread_view_from_certificates (env : Env) (n : Node) (ctx : Context)
    (args : Pb.GossipMsg) {k : Bytes} (filed : ((spread env n ctx args).2.viewMap.get? k).isSome) :
    (n.viewMap.get? k).isSome ∨ ∃ cert rest, ctx.peer = some (.tls (cert :: rest)) ∧
      (cert.subjectKeyId = k ∨
        ∃ b ∈ args.certificates, ∃ c, env.parseCertificate b.raw = some c ∧ c.subjectKeyId = k) := by
  rcases spread_cases env n ctx args with same | ⟨cert, rest, n', peer, added, only | merged⟩
  · rw [same] at filed; exact .inl filed
  · rw [only] at filed
    exact (addCaller_view_from added filed).imp_right fun caller => ⟨cert, rest, peer, .inl caller⟩
  · rw [merged, mergeAccusations_viewMap, mergeNotes_viewMap] at filed
    rcases mergeCertificates_view_from n' _ cert filed with before | caller | parsed
    · exact (addCaller_view_from added before).imp_right fun caller =>
        ⟨cert, rest, peer, .inl caller⟩
    · exact .inr ⟨cert, rest, peer, .inl caller⟩
    · exact .inr ⟨cert, rest, peer, .inr parsed⟩

/-- Node 3 files peer 1 from a certificate of node 0's gossip. -/
theorem peer_node_view_from_certificates :
    ((spread parsing peerNode ⟨some (.tls [sampleCert 0 "n0"])⟩
        (collectGossipContent bootNode)).2.viewMap.get? [1]).isSome ∧
      ((peerNode.viewMap.get? [1]).isSome ∨ ∃ cert rest,
        (⟨some (.tls [sampleCert 0 "n0"])⟩ : Context).peer = some (.tls (cert :: rest)) ∧
        (cert.subjectKeyId = [1] ∨ ∃ b ∈ (collectGossipContent bootNode).certificates, ∃ c,
          parsing.parseCertificate b.raw = some c ∧ c.subjectKeyId = [1])) :=
  have filed : ((spread parsing peerNode ⟨some (.tls [sampleCert 0 "n0"])⟩
      (collectGossipContent bootNode)).2.viewMap.get? [1]).isSome := by decide
  ⟨filed, spread_view_from_certificates parsing peerNode _ _ filed⟩

/-- An accusation the sender holds against a view peer reaches every neighbour that holds the
peer live and unaccused with a note older than the accusation, and holds the accuser live with a
key that verifies the accusation's signature, when the rings make the accuser the peer's
predecessor: after one exchange the neighbour's record of the peer carries an accusation, and a
timer runs for the peer. The notes of the same message cannot overtake it: the sender's note of
the peer is older than the accusation, and it is the only note the message carries for it. -/
theorem spread_learns_sender_accusations {A B : Node} (sender : Reachable A) (receiver : Inv B)
    (env : Env) {ctx : Context} {cert : Certificate} {rest : List Certificate}
    (peer : ctx.peer = some (.tls (cert :: rest)))
    (neighbour : env.shouldBeNeighbours cert.subjectKeyId = true) (located : cert.locality ≠ [])
    {p : Peer} (known : p ∈ A.getView) {a : Accusation} (accused : p.accusation = some a)
    {r ar : Ref} (live : B.liveMap.get? p.key = some r) (unaccused : (B.heap r).accusation = none)
    (older : olderThan (B.heap r).recentNote a.epoch = true) (other : p.key ≠ B.peerId)
    (accuser : B.liveMap.get? a.accuser = some ar)
    (signed : env.validateSignature a.signature.r a.signature.s
      (.accusation a.epoch a.accuser p.key) (B.heap ar).cert.publicKey = true)
    (prev : env.isPrev a.accuser p.key = true) :
    ((spread env B ctx (collectGossipContent A)).2.heap r).accusation.isSome ∧
      ((spread env B ctx (collectGossipContent A)).2.timeoutMap.get? p.key).isSome := by
  -- the sender's side: the accusation names `p`, and postdates its note
  have filedA := records_filed sender
  obtain ⟨rp, foundA, rfl⟩ := sender.inv.mem_getView known
  have named : a.peerId = (A.heap rp).key :=
    (filedA rp (sender.inv.view_wf _ rp foundA).1).accusation a accused
  have postdates : olderThan (A.heap rp).recentNote a.epoch = true :=
    AccusationsPostdateNotes.closed.reachable (fun h added => h.addCaller added)
      (fun _ _ built => AccusationsPostdateNotes.newNode built) sender rp a accused
  -- the receiver's side, through the caller block and the two first merges
  obtain ⟨B', added⟩ := addCaller_some (n := B) located
  have found := receiver.live_view _ _ live
  have lt := (receiver.view_wf _ r found).1
  obtain ⟨inv₂, kept₂, -, allocated⟩ :=
    certificate_stage receiver added env (collectGossipContent A).certificates
  have tracked : UnaccusedPeer B.peerId (A.heap rp).key r (B.heap r).cert.publicKey
      (mergeCertificates env B' (collectGossipContent A).certificates cert) :=
    UnaccusedPeer.certificate_stage ⟨receiver, rfl, found, unaccused, rfl⟩ added env _
  obtain ⟨merged, stored⟩ := @mergeNotes_stored_eq env _ _ _ _ _ tracked
    (collectGossipContent A).notes
  set B₃ := mergeNotes env (mergeCertificates env B' (collectGossipContent A).certificates cert)
    (collectGossipContent A).notes
  have kept : Inv B₃ ∧ Kept B B₃ := (Kept.closed B).mergeNotes ⟨inv₂, kept₂⟩ env _
  have certs : CertsKept B B₃ := (CertsKept.closed B).mergeNotes
    ((CertsKept.closed B).mergeCertificates (CertsKept.addCaller ⟨le_refl _, fun _ _ => rfl⟩ added)
      env _ _) env _
  -- after the notes, the peer's note is still older than the accusation
  have stillOlder : olderThan (B₃.heap r).recentNote a.epoch = true := by
    rw [stored]
    rcases (noteFold_newest (collectGossipContent A).notes
      ((mergeCertificates env B' (collectGossipContent A).certificates cert).heap r).recentNote).mem
      with held | ⟨note, sent, accepted, taken⟩
    · rwa [held, allocated.2 r lt]
    · obtain ⟨r', note', found', noted', rfl⟩ := collected_note filedA sender.inv sent
      have same : r' = rp := Option.some.inj (found'.symm.trans (accepted.1 ▸ foundA))
      subst same
      rw [taken]
      simpa [noted'] using postdates
  -- the accusation stage records it, or finds the peer already accused
  have sentAcc : a.toPbMsg ∈ (collectGossipContent A).accusations :=
    List.mem_flatMap.2 ⟨_, known, by simp [Peer.createPbInfo, accused]⟩
  have live₃ := kept.2.live _ _ live
  have accuser₃ := kept.2.live _ _ accuser
  have key : ∀ {k r}, B₃.liveMap.get? k = some r → (B₃.heap r).key = k :=
    fun live => (kept.1.view_wf _ _ (kept.1.live_view _ _ live)).2
  have accusedAtEnd := mergeAccusations_accuses kept.1 sentAcc
    (show B₃.peerId ≠ a.peerId by rw [merged.localId_eq, named]; exact other.symm)
    (show B₃.liveMap.get? a.peerId = some r by rw [named]; exact live₃) accuser₃ stillOlder
    (show env.validateSignature a.signature.r a.signature.s
      (.accusation a.epoch a.accuser a.peerId) (B₃.heap ar).cert.publicKey = true by
      rw [certs.2 ar (receiver.view_wf _ ar (receiver.live_view _ _ accuser)).1, named]
      exact signed)
    (by rw [key live₃, key accuser₃]; exact prev)
  have final := (Kept.closed B₃).mergeAccusations ⟨kept.1, .refl _⟩ env
    (collectGossipContent A).accusations
  rw [spread_neighbour peer neighbour added]
  refine ⟨accusedAtEnd, (final.1.timer_iff _).2 ⟨r, ?_, accusedAtEnd⟩⟩
  exact final.1.live_view _ _ (final.2.live _ _ live₃)

/-- Node 3 records peer 2's accusation of peer 0 that node 1 gossips. -/
theorem peer_node_learns_accusation :
    Reachable accuserNode ∧ (accuserNode.heap 0).accusation = some ⟨[0], 1, [2], ⟨[], []⟩⟩ ∧
      peerNode.liveMap.get? [0] = some 0 ∧ (peerNode.heap 0).accusation = none ∧
      peerNode.liveMap.get? [2] = some 1 ∧
      ((spread parsing peerNode ⟨some (.tls [sampleCert 1 "n1"])⟩
        (collectGossipContent accuserNode)).2.heap 0).accusation.isSome ∧
      ((spread parsing peerNode ⟨some (.tls [sampleCert 1 "n1"])⟩
        (collectGossipContent accuserNode)).2.timeoutMap.get? (accuserNode.heap 0).key).isSome :=
  have reach : Reachable accuserNode :=
    .step (.newNode accepting ⟨sampleCert 1 "n1", sampleCert 9 "ca",
      [sampleCert 0 "n0", sampleCert 2 "n2"], false⟩ rfl) (.evalAccusation _ _)
  ⟨reach, by decide, by decide, by decide, by decide,
    spread_learns_sender_accusations reach peerNode_reachable.inv parsing rfl rfl (by decide)
      (by decide) (a := ⟨[0], 1, [2], ⟨[], []⟩⟩) (by decide) (by decide) (by decide) (by decide)
      (by decide) (show peerNode.liveMap.get? [2] = some 1 by decide) rfl rfl⟩

end Ifrit
