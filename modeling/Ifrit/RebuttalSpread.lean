import Ifrit.Exchange

/-!
# A rebuttal relayed by a third node

`Spread` never reads the `OwnNote` of a message, so an accused node cannot rebut by gossiping its
own note: the rebuttal has to come from the note another node stores for it. This module shows
that the relay works in one exchange. When a reachable node `C` stores a note of its view peer
`q` that is newer than the accusation a neighbour `B` holds against `q`, and `B`'s key for `q`
verifies it, then after `B` merges `C`'s gossip the accusation is gone, and every accusation `B`
holds against `q` is newer than `C`'s note (`spread_clears_stale_accusation`).

## Proof strategy

1. The notes stage. Up to the note `C` sends for `q`, `B`'s record of `q` keeps its accusation or
   has lost it, as `evalNote` only ever clears one (`evalNote_accusation`); that note rebuts
   what is left (`evalNote_rebuts`), and no later note sets an accusation.
2. The accusations stage. An accusation `evalAccusation` writes on `q`'s record names `q`
   (`evalAccusation_accusation`), so it is the message of the accusation `C` files against `q`
   (`collected_accusation`), which postdates `C`'s note of `q`.
-/

namespace Ifrit

open Node

/-! ### What the evaluators write on one record -/

section Records

variable {env : Env} {n : Node}

/-- `evalNote` leaves a record's accusation as it is, or clears it. -/
theorem evalNote_accusation (note : Pb.Note) (r : Ref) :
    ((evalNote env n note).heap r).accusation = (n.heap r).accusation ∨
      ((evalNote env n note).heap r).accusation = none := by
  rcases evalNote_cases env n note with same | ⟨r', -, -, -, -, stored⟩ |
    ⟨r', a, -, -, -, -, rebutted⟩
  · rw [same]; exact .inl rfl
  · rw [stored, storeNote_heap]
    by_cases written : r = r'
    · subst written; simp
    · simp [Function.update_noteq written]
  · rw [rebutted]
    by_cases written : r = r'
    · subst written; simp [rebut]
    · simp [rebut, Function.update_noteq written]

/-- A validly signed note newer than the accusation of the view peer it names is a rebuttal. -/
theorem evalNote_rebuts {note : Pb.Note} {r : Ref} {a : Accusation}
    (found : n.viewMap.get? note.id = some r) (accused : (n.heap r).accusation = some a)
    (newer : a.epoch < note.epoch)
    (signed : env.validateSignature note.signature.r note.signature.s (.note note.epoch note.id)
      (n.heap r).cert.publicKey = true) :
    ((evalNote env n note).heap r).accusation = none := by
  simp [evalNote, getViewPeer, found, signed, accused, newer, rebut]

/-- `evalAccusation` leaves a record's accusation as it is, or writes one with the message's
epoch on the record of the peer the message accuses. -/
theorem evalAccusation_accusation (h : Inv n) (a : Pb.Accusation) (r : Ref) :
    ((evalAccusation env n a).heap r).accusation = (n.heap r).accusation ∨
      (a.accused = (n.heap r).key ∧
        ∃ acc, ((evalAccusation env n a).heap r).accusation = some acc ∧ acc.epoch = a.epoch) := by
  rcases evalAccusation_cases env n a with ⟨-, bumped⟩ | ⟨-, same⟩ |
    ⟨r', ar, -, live, -, -, -, -, -, accused⟩
  · rw [bumped]; exact .inl rfl
  · rw [same]; exact .inl rfl
  · rw [accused, accuse_heap]
    by_cases written : r = r'
    · subst written
      exact .inr ⟨(h.view_wf _ r (h.live_view _ _ live)).2.symm,
        ⟨(n.heap r).key, a.epoch, (n.heap ar).key, a.signature⟩, by simp, rfl⟩
    · exact .inl (by simp [Function.update_noteq written])

end Records

/-! ### The sender: what it gossips against a peer -/

/-- An accusation of a node's gossip is the message of the accusation its view files under the
accused id. -/
theorem collected_accusation {A : Node} (filed : RecordsFiled A) (inv : Inv A)
    {a : Pb.Accusation} (sent : a ∈ (collectGossipContent A).accusations) :
    ∃ r acc, A.viewMap.get? a.accused = some r ∧ (A.heap r).accusation = some acc ∧
      a = acc.toPbMsg := by
  obtain ⟨q, known, carried⟩ := List.mem_flatMap.1 sent
  obtain ⟨r, found, rfl⟩ := inv.mem_getView known
  obtain ⟨acc, accused, rfl⟩ : ∃ acc, (A.heap r).accusation = some acc ∧ acc.toPbMsg = a := by
    simpa [Peer.createPbInfo] using carried
  have named : acc.toPbMsg.accused = (A.heap r).key :=
    (filed r (inv.view_wf _ r found).1).accusation acc accused
  exact ⟨r, acc, named ▸ found, accused, rfl⟩

/-- A reachable node gossips against a view peer only accusations newer than the note it
gossips for that peer. -/
theorem gossiped_accusation_postdates {C : Node} (sender : Reachable C) {q : Peer}
    (known : q ∈ C.getView) {note : Note} (noted : q.recentNote = some note) {a : Pb.Accusation}
    (sent : a ∈ (collectGossipContent C).accusations) (named : a.accused = q.key) :
    note.epoch < a.epoch := by
  obtain ⟨rq, foundq, rfl⟩ := sender.inv.mem_getView known
  obtain ⟨r, acc, found, accused, rfl⟩ :=
    collected_accusation (records_filed sender) sender.inv sent
  obtain rfl : r = rq := Option.some.inj (found.symm.trans (named ▸ foundq))
  have postdates := AccusationsPostdateNotes.closed.reachable (fun h added => h.addCaller added)
    (fun _ _ built => AccusationsPostdateNotes.newNode built) sender r acc accused
  rw [noted] at postdates
  simpa [olderThan] using postdates

/-! ### The two batches, on one record -/

section Batches

variable {env : Env} {n : Node} {k : Bytes} {r : Ref}

/-- A batch of notes that holds a validly signed note newer than the accusation of the view peer
`k` leaves `k`'s record unaccused: the notes before it keep the accusation or clear it, it rebuts
what is left, and no note after it accuses. -/
theorem mergeNotes_rebuts (h : Inv n) {a : Accusation} (found : n.viewMap.get? k = some r)
    (accused : (n.heap r).accusation = some a) (other : n.peerId ≠ k) {notes : List Pb.Note}
    {note : Pb.Note} (sent : note ∈ notes) (named : note.id = k) (newer : a.epoch < note.epoch)
    (signed : env.validateSignature note.signature.r note.signature.s (.note note.epoch k)
      (n.heap r).cert.publicKey = true) :
    ((mergeNotes env n notes).heap r).accusation = none := by
  have lt := (h.view_wf k r found).1
  subst named
  refine foldl_reaches (P := fun m => (Inv m ∧ Kept n m) ∧ Identity n.peerId n.localAddr m ∧
      CertsKept n m ∧ ((m.heap r).accusation = some a ∨ (m.heap r).accusation = none))
    (Q := fun m => (m.heap r).accusation = none) sent (fun m b ⟨kept, identity, certs, held⟩ => ?_)
    (fun m b _ cleared => ?_) (fun m ⟨⟨_, kept⟩, ⟨self, _⟩, certs, held⟩ => ?_)
    ⟨⟨h, .refl n⟩, ⟨rfl, rfl⟩, ⟨le_refl _, fun _ _ => rfl⟩, .inl accused⟩
  · -- one step of the fold is the merge of a batch of one note
    refine ⟨(Kept.closed n).mergeNotes kept env [b], Identity.closed.mergeNotes identity env [b],
      (CertsKept.closed n).mergeNotes certs env [b], ?_⟩
    split
    · exact held
    · exact (@evalNote_accusation env m b r).elim (· ▸ held) .inr
  · split
    · exact cleared
    · exact (@evalNote_accusation env m b r).elim (· ▸ cleared) id
  · simp only [self, other, if_false]
    rcases held with held | held
    · exact evalNote_rebuts (kept.view _ _ found) held newer (by rw [certs.2 r lt]; exact signed)
    · exact (@evalNote_accusation env m note r).elim (· ▸ held) id

/-- A batch of accusations whose accusations of the view peer `k` all postdate `e` leaves on
`k`'s record only accusations that postdate `e`. -/
theorem mergeAccusations_postdate (h : Inv n) (found : n.viewMap.get? k = some r) {e : UInt64}
    {accusations : List Pb.Accusation} (batch : ∀ a ∈ accusations, a.accused = k → e < a.epoch)
    (held : ∀ a ∈ (n.heap r).accusation, e < a.epoch) :
    ∀ a ∈ ((mergeAccusations env n accusations).heap r).accusation, e < a.epoch := by
  refine (List.foldlRecOn accusations _ n
    (motive := fun m => (Inv m ∧ m.viewMap.get? k = some r) ∧
      ∀ a ∈ (m.heap r).accusation, e < a.epoch)
    ⟨⟨h, found⟩, held⟩ fun m ⟨⟨inv, view⟩, stale⟩ b mem => ?_).2
  refine ⟨⟨inv.evalAccusation env b, by rw [(@evalAccusation_frame env m b).1]; exact view⟩, ?_⟩
  rcases @evalAccusation_accusation env m inv b r with same | ⟨accused, acc, written, epoch⟩
  · rw [same]; exact stale
  · rw [written]
    rintro _ ⟨⟩
    exact epoch ▸ batch b mem (accused.trans (inv.view_wf _ r view).2)

end Batches

/-! ### One exchange -/

/-- A note of an accused peer that a third node stores rebuts the accusation at every neighbour
it gossips to, when it is newer than the accusation and the neighbour's key for the peer
verifies it: after one exchange the neighbour still files the peer at the same record, and every
accusation it holds against the peer is newer than the relayed note. The stale accusation cannot
come back in the same message, since the sender's own accusations of the peer postdate its note. -/
theorem spread_clears_stale_accusation {B C : Node} (sender : Reachable C) (receiver : Inv B)
    (env : Env) {ctx : Context} {cert : Certificate} {rest : List Certificate}
    (peer : ctx.peer = some (.tls (cert :: rest)))
    (neighbour : env.shouldBeNeighbours cert.subjectKeyId = true) (located : cert.locality ≠ [])
    {q : Peer} (known : q ∈ C.getView) {note : Note} (noted : q.recentNote = some note) {r : Ref}
    (found : B.viewMap.get? q.key = some r) {a : Accusation}
    (accused : (B.heap r).accusation = some a) (newer : a.epoch < note.epoch)
    (other : q.key ≠ B.peerId)
    (signed : env.validateSignature note.signature.r note.signature.s (.note note.epoch q.key)
      (B.heap r).cert.publicKey = true) :
    (spread env B ctx (collectGossipContent C)).2.viewMap.get? q.key = some r ∧
      ∀ a' ∈ ((spread env B ctx (collectGossipContent C)).2.heap r).accusation,
        note.epoch < a'.epoch := by
  have named := (records_filed sender).view sender.inv known |>.note note noted
  obtain ⟨B', added⟩ := addCaller_some (n := B) located
  set B₂ := mergeCertificates env B' (collectGossipContent C).certificates cert
  obtain ⟨inv₂, kept₂, ⟨self₂, -⟩, allocated⟩ :=
    certificate_stage receiver added env (collectGossipContent C).certificates
  have record₂ : B₂.heap r = B.heap r := allocated.2 r (receiver.view_wf _ r found).1
  have found₂ := kept₂.view _ _ found
  have sent : note.toPbMsg ∈ (collectGossipContent C).notes :=
    List.mem_filterMap.2 ⟨q, known, by simp [Peer.createPbInfo, noted]⟩
  -- the notes stage rebuts the accusation; the accusations stage brings back none as old
  set B₃ := mergeNotes env B₂ (collectGossipContent C).notes
  have rebutted : (B₃.heap r).accusation = none :=
    mergeNotes_rebuts inv₂ found₂ (by rw [record₂, accused]) (by rw [self₂]; exact other.symm)
      sent named newer (by rw [record₂]; exact signed)
  have kept₃ : Inv B₃ ∧ Kept B B₃ := (Kept.closed B).mergeNotes ⟨inv₂, kept₂⟩ env _
  rw [spread_neighbour peer neighbour added, mergeAccusations_viewMap]
  exact ⟨kept₃.2.view _ _ found, mergeAccusations_postdate kept₃.1 (kept₃.2.view _ _ found)
    (fun _ mem named' => gossiped_accusation_postdates sender known noted mem named')
    (by simp [rebutted])⟩

/-- Node 3 with peer 2 accused by peer 0 at epoch 0. -/
def stalePeerNode : Node := evalAccusation accepting peerNode ⟨0, [0], [2], ⟨[], []⟩⟩

/-- Node 0's note of peer 2 at epoch 1 rebuts the accusation node 3 holds against peer 2. -/
theorem relayed_note_clears_accusation :
    Reachable notedNode ∧ (notedNode.heap 1).recentNote = some ⟨[2], 1, ⟨[], []⟩⟩ ∧
      stalePeerNode.viewMap.get? [2] = some 1 ∧
      (stalePeerNode.heap 1).accusation = some ⟨[2], 0, [0], ⟨[], []⟩⟩ ∧
      (spread parsing stalePeerNode ⟨some (.tls [sampleCert 0 "n0"])⟩
        (collectGossipContent notedNode)).2.viewMap.get? (notedNode.heap 1).key = some 1 ∧
      ∀ a' ∈ ((spread parsing stalePeerNode ⟨some (.tls [sampleCert 0 "n0"])⟩
        (collectGossipContent notedNode)).2.heap 1).accusation, (1 : UInt64) < a'.epoch :=
  have reach : Reachable notedNode := .step bootNode_reachable (.evalNote _ _)
  have inv : Inv stalePeerNode := (peerNode_reachable.step (.evalAccusation _ _)).inv
  ⟨reach, by decide, by decide, by decide,
    spread_clears_stale_accusation reach inv parsing rfl rfl (by decide) (by decide)
      (show (notedNode.heap 1).recentNote = some ⟨[2], 1, ⟨[], []⟩⟩ by decide) (by decide)
      (show (stalePeerNode.heap 1).accusation = some ⟨[2], 0, [0], ⟨[], []⟩⟩ by decide)
      (by decide) (by decide) rfl⟩

end Ifrit
