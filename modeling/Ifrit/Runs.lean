import Ifrit.Invariants

/-!
# What a run keeps

Along any run of merge steps from a reachable state the view and the live map only grow: an
entry, once made, is never removed or pointed at another record. A view peer's stored note is
never dropped, and only a newer note replaces it. Each operation gets one lemma, and `Kept.run`
composes them by induction on the run. The interleaved calls of `Interleaving` break the first
of these; sequential runs keep all three.
-/

namespace Ifrit

open Node

/-- `new` is a stored note at least as recent as `old`: a note, once stored, is neither dropped
nor replaced by an older one. -/
def NoteAdvanced : Option Note → Option Note → Prop
  | none, _ => True
  | some _, none => False
  | some old, some new => old.epoch ≤ new.epoch

namespace NoteAdvanced

theorem refl : ∀ note : Option Note, NoteAdvanced note note
  | none => trivial
  | some note => UInt64.le_refl note.epoch

theorem trans :
    ∀ {a b c : Option Note}, NoteAdvanced a b → NoteAdvanced b c → NoteAdvanced a c
  | none, _, _, _, _ => trivial
  | some _, none, _, ab, _ => ab.elim
  | some _, some _, none, _, bc => bc.elim
  | some _, some _, some _, ab, bc => UInt64.le_trans ab bc

/-- A note that passes `evalNote`'s `olderThan` guard advances the stored one. -/
theorem of_olderThan {old : Option Note} {note : Note} (older : olderThan old note.epoch = true) :
    NoteAdvanced old (some note) := by
  cases old with
  | none => trivial
  | some stored => exact Nat.le_of_lt (show stored.epoch < note.epoch by simpa using older)

end NoteAdvanced

/-- What a later state keeps of an earlier one. -/
structure Kept (n n' : Node) : Prop where
  /-- Every view entry stays, bound to the same record. -/
  view : ∀ k r, n.viewMap.get? k = some r → n'.viewMap.get? k = some r
  /-- Every live entry stays, bound to the same record. -/
  live : ∀ k r, n.liveMap.get? k = some r → n'.liveMap.get? k = some r
  /-- The stored note of every view record stays or gives way to a newer one. -/
  note : ∀ k r, n.viewMap.get? k = some r →
    NoteAdvanced (n.heap r).recentNote (n'.heap r).recentNote

namespace Kept

variable {n n' n'' : Node}

theorem refl (n : Node) : Kept n n :=
  ⟨fun _ _ => id, fun _ _ => id, fun _ r _ => .refl (n.heap r).recentNote⟩

theorem trans (first : Kept n n') (second : Kept n' n'') : Kept n n'' :=
  ⟨fun k r found => second.view k r (first.view k r found),
    fun k r live => second.live k r (first.live k r live),
    fun k r found => (first.note k r found).trans (second.note k r (first.view k r found))⟩

/-- An operation on the timers or the local note. -/
theorem of_same (view : n'.viewMap = n.viewMap) (live : n'.liveMap = n.liveMap)
    (heap : n'.heap = n.heap) : Kept n n' := by
  refine ⟨fun k r found => ?_, fun k r found => ?_, fun _ r _ => ?_⟩
  · rwa [view]
  · rwa [live]
  · rw [heap]; exact .refl _

/-- A write through `r` whose note advances the stored one. -/
theorem setPeer {r : Ref} {p : Peer} (advanced : NoteAdvanced (n.heap r).recentNote p.recentNote) :
    Kept n (n.setPeer r p) := by
  refine ⟨fun _ _ => id, fun _ _ => id, fun _ r' _ => ?_⟩
  by_cases written : r' = r
  · subst written; simpa using advanced
  · simpa [Function.update_noteq written] using NoteAdvanced.refl (n.heap r').recentNote

/-- Filing a view record in the live map under its own id: when the live map points each key at
the view's record, a live entry for that id can only be the same record. -/
theorem addLivePeer {r : Ref}
    (liveView : ∀ k r', n.liveMap.get? k = some r' → n.viewMap.get? k = some r')
    (filed : n.viewMap.get? (n.heap r).key = some r) : Kept n (n.addLivePeer r) := by
  refine ⟨fun _ _ => id, fun k r' live => ?_, fun _ r' _ => .refl (n.heap r').recentNote⟩
  by_cases same : k = (n.heap r).key
  · subst same
    rw [Option.some.inj ((liveView _ r' live).symm.trans filed)]
    simp
  · simpa [same] using live

/-- A fresh record for an id the view lacks. -/
theorem addFresh (h : Inv n) {p : Peer} (absent : n.viewMap.get? p.key = none) :
    Kept n ((n.alloc p).addViewPeer n.next) := by
  refine ⟨fun k r found => ?_, fun _ _ => id, fun k r found => ?_⟩
  · have other : k ≠ p.key := fun same => by simp_all
    simpa [other] using found
  · simpa [Function.update_noteq (h.view_wf k r found).1.ne] using
      NoteAdvanced.refl (n.heap r).recentNote

theorem storeNote (h : Inv n) {r : Ref} {k : Bytes} (found : n.viewMap.get? k = some r)
    {note : Note} (advanced : NoteAdvanced (n.heap r).recentNote (some note)) :
    Kept n (storeNote n r k note) := by
  have stored : Kept n (n.setNote r note) := setPeer advanced
  have filed : (n.setNote r note).viewMap.get? ((n.setNote r note).heap r).key = some r := by
    simpa [(h.view_wf k r found).2] using found
  simp only [Ifrit.storeNote]
  split
  · exact stored.trans (addLivePeer h.live_view filed)
  · exact stored

theorem rebut (h : Inv n) {r : Ref} {k : Bytes} (found : n.viewMap.get? k = some r) :
    Kept n (rebut n r k) := by
  have timerless : Kept n (n.deleteTimeout k) := of_same rfl rfl rfl
  have cleared : Kept n ((n.deleteTimeout k).removeAccusation r) :=
    timerless.trans (setPeer (.refl _))
  exact cleared.trans (addLivePeer h.live_view (by simpa [(h.view_wf k r found).2] using found))

theorem accuse {r ar : Ref} {a : Pb.Accusation} : Kept n (accuse n r ar a) := by
  have recorded : Kept n (n.setAccusation r ⟨(n.heap r).key, a.epoch, (n.heap ar).key,
      a.signature⟩) := setPeer (.refl _)
  simp only [Ifrit.accuse]
  split
  · exact recorded.trans (of_same rfl rfl rfl)
  · exact recorded

/-! ### The merge paths -/

theorem evalNote (h : Inv n) (env : Env) (note : Pb.Note) : Kept n (evalNote env n note) := by
  rcases evalNote_cases env n note with same | ⟨r, found, -, older, -, stored⟩ |
    ⟨r, a, found, -, -, -, rebutted⟩
  · rw [same]; exact .refl n
  · exact stored ▸ storeNote h found (.of_olderThan older)
  · exact rebutted ▸ rebut h found

theorem evalAccusation (env : Env) (a : Pb.Accusation) : Kept n (evalAccusation env n a) := by
  rcases evalAccusation_cases env n a with ⟨-, bumped⟩ | ⟨-, same⟩ |
    ⟨r, ar, -, -, -, -, -, -, -, accused⟩
  · exact bumped ▸ of_same rfl rfl rfl
  · rw [same]; exact .refl n
  · exact accused ▸ accuse

theorem evalCertificate (h : Inv n) (cert : Certificate) : Kept n (evalCertificate n cert) := by
  rcases evalCertificate_cases n cert with same | ⟨p, built, absent, -, added⟩
  · rw [same]; exact .refl n
  · exact added ▸ addFresh h ((newPeer_key built).1 ▸ absent)

theorem addCaller (h : Inv n) {cert : Certificate} {n' : Node}
    (added : addCaller n cert = some n') : Kept n n' := by
  rcases addCaller_cases added with rfl | ⟨p, built, absent, rfl⟩
  · exact .refl _
  · obtain ⟨key, unaccused⟩ := newPeer_key built
    exact (addFresh h (key ▸ absent)).trans
      (addLivePeer (h.addFresh (key ▸ absent) unaccused).live_view (by simp))

/-- The states that keep the invariant and keep `n`: each evaluator keeps them. -/
theorem closed (n : Node) : Closed fun m => Inv m ∧ Kept n m :=
  ⟨fun cert ⟨h, kept⟩ => ⟨h.evalCertificate cert, kept.trans (evalCertificate h cert)⟩,
    fun env note ⟨h, kept⟩ => ⟨h.evalNote env note, kept.trans (evalNote h env note)⟩,
    fun env a ⟨h, kept⟩ => ⟨h.evalAccusation env a, kept.trans (evalAccusation env a)⟩⟩

/-- Every state a run reaches keeps the invariant and keeps every state before it. -/
theorem run (h : Inv n) (steps : Relation.ReflTransGen Step n n') : Inv n' ∧ Kept n n' := by
  induction steps with
  | refl => exact ⟨h, .refl n⟩
  | tail _ stepped ih =>
    exact (closed n).step
      (fun ⟨h, kept⟩ added => ⟨h.addCaller added, kept.trans (addCaller h added)⟩) ih stepped

end Kept

/-- Along every run of merge steps from a reachable state, no view or live entry is removed or
pointed at another record, and no view peer's stored note is dropped or replaced by an older
one. -/
theorem run_keeps_view {n n' : Node} (reach : Reachable n)
    (steps : Relation.ReflTransGen Step n n') : Kept n n' :=
  (Kept.run reach.inv steps).2

theorem boot_run_keeps_view : Kept bootNode accusedNode :=
  run_keeps_view bootNode_reachable (.single (.evalAccusation _ _))

/-! ### The local id -/

/-- The view has no record under the local id. -/
def OwnIdOut (n : Node) : Prop := n.viewMap.get? n.peerId = none

instance (n : Node) : Decidable (OwnIdOut n) :=
  inferInstanceAs (Decidable (n.viewMap.get? n.peerId = none))

namespace OwnIdOut

variable {n : Node}

theorem evalCertificate (out : OwnIdOut n) (cert : Certificate) :
    OwnIdOut (evalCertificate n cert) := by
  rcases evalCertificate_cases n cert with same | ⟨p, built, -, other, added⟩
  · rw [same]; exact out
  · have key : n.peerId ≠ p.key := (newPeer_key built).1 ▸ other
    rw [added]
    simpa [OwnIdOut, key] using out

theorem evalNote (out : OwnIdOut n) (env : Env) (note : Pb.Note) :
    OwnIdOut (evalNote env n note) := by
  rcases evalNote_cases env n note with same | ⟨r, -, -, -, -, stored⟩ |
    ⟨r, a, -, -, -, -, rebutted⟩
  · rw [same]; exact out
  · rw [stored]; simp only [Ifrit.storeNote]; split <;> exact out
  · rw [rebutted]; exact out

theorem evalAccusation (out : OwnIdOut n) (env : Env) (a : Pb.Accusation) :
    OwnIdOut (evalAccusation env n a) := by
  rcases evalAccusation_cases env n a with ⟨-, bumped⟩ | ⟨-, same⟩ |
    ⟨r, ar, -, -, -, -, -, -, -, accused⟩
  · rw [bumped]; exact out
  · rw [same]; exact out
  · rw [accused]; simp only [Ifrit.accuse]; split <;> exact out

theorem closed : Closed OwnIdOut :=
  ⟨fun cert out => out.evalCertificate cert, fun env note out => out.evalNote env note,
    fun env a out => out.evalAccusation env a⟩

/-- The caller block files a caller whose id is not the local one. -/
theorem addCaller (out : OwnIdOut n) {cert : Certificate} (other : cert.subjectKeyId ≠ n.peerId)
    {n' : Node} (added : addCaller n cert = some n') : OwnIdOut n' := by
  rcases addCaller_cases added with rfl | ⟨p, built, -, rfl⟩
  · exact out
  · have key : n.peerId ≠ p.key := (newPeer_key built).1 ▸ other.symm
    simpa [OwnIdOut, key] using out

end OwnIdOut

/-- Only `Spread`'s caller block files the local id in the view, and only for a caller that
presents a certificate with the local id: the certificates, notes and accusations it merges
never do. -/
theorem own_id_filed_only_for_own_caller {n : Node} (out : OwnIdOut n) (env : Env) (ctx : Context)
    (args : Pb.GossipMsg) :
    OwnIdOut (spread env n ctx args).2 ∨
      ∃ cert rest, ctx.peer = some (.tls (cert :: rest)) ∧ cert.subjectKeyId = n.peerId := by
  refine or_iff_not_imp_right.2 fun notOwn => OwnIdOut.closed.spread out env ctx args ?_
  exact fun cert rest _ peer added =>
    out.addCaller (fun own => notOwn ⟨cert, rest, peer, own⟩) added

theorem peer_gossip_keeps_own_id_out :
    OwnIdOut (spread accepting bootNode ⟨some (.tls [sampleCert 1 "n1"])⟩
        ⟨[], [], [], ⟨1, [1], ⟨[], []⟩⟩, []⟩).2 ∨
      ∃ cert rest, (⟨some (.tls [sampleCert 1 "n1"])⟩ : Context).peer =
        some (.tls (cert :: rest)) ∧ cert.subjectKeyId = bootNode.peerId :=
  own_id_filed_only_for_own_caller (by decide) accepting _ _

end Ifrit
