import Ifrit.Runs

/-!
# The note merge, per peer

What `mergeNotes` does to one view peer that carries no accusation. Restricted to that peer's
record, the merge is a fold of `evalNote`'s guard over the batch (`mergeNotes_stored_eq`): the
batch's notes for other peers, the notes it skips because they name the local node, the
rebuttals they make and the live-map bookkeeping leave the record alone. The note the fold
leaves is the newest candidate, the old note or one an accepted note built, at least as new as
each (`mergeNotes_newest`), so the epoch it reaches does not depend on the order in which the
batch arrives (`mergeNotes_epoch_perm`).

An accused peer is outside this: a note that rebuts its accusation is not stored, so there the
order of the batch matters.
-/

namespace Ifrit

open Node

/-! ### Frames of the merge paths -/

section Frames

variable {env : Env} {n : Node}

@[simp] theorem storeNote_next (r : Ref) (k : Bytes) (note : Note) :
    (storeNote n r k note).next = n.next := by
  simp only [storeNote]; split <;> rfl

@[simp] theorem accuse_next (r ar : Ref) (a : Pb.Accusation) : (accuse n r ar a).next = n.next := by
  simp only [accuse]; split <;> rfl

/-- Notes never change the view map, the local id or the local address. -/
theorem evalNote_frame (note : Pb.Note) :
    (evalNote env n note).viewMap = n.viewMap ∧ (evalNote env n note).peerId = n.peerId ∧
      (evalNote env n note).localAddr = n.localAddr := by
  rcases evalNote_cases env n note with same | ⟨r, -, -, -, -, stored⟩ |
    ⟨r, a, -, -, -, -, rebutted⟩
  · simp [same]
  · rw [stored]; simp only [storeNote]; split <;> exact ⟨rfl, rfl, rfl⟩
  · rw [rebutted]; exact ⟨rfl, rfl, rfl⟩

/-- Accusations never change the view map, the local id or the local address. -/
theorem evalAccusation_frame (a : Pb.Accusation) :
    (evalAccusation env n a).viewMap = n.viewMap ∧ (evalAccusation env n a).peerId = n.peerId ∧
      (evalAccusation env n a).localAddr = n.localAddr := by
  rcases evalAccusation_cases env n a with ⟨-, bumped⟩ | ⟨-, same⟩ |
    ⟨r, ar, -, -, -, -, -, -, -, accused⟩
  · rw [bumped]; exact ⟨rfl, rfl, rfl⟩
  · simp [same]
  · rw [accused]; simp only [accuse]; split <;> exact ⟨rfl, rfl, rfl⟩

/-- Accusations never change the live map. -/
theorem evalAccusation_liveMap (a : Pb.Accusation) :
    (evalAccusation env n a).liveMap = n.liveMap := by
  rcases evalAccusation_cases env n a with ⟨-, bumped⟩ | ⟨-, same⟩ |
    ⟨r, ar, -, -, -, -, -, -, -, accused⟩
  · rw [bumped]; rfl
  · rw [same]
  · rw [accused]; simp only [accuse]; split <;> rfl

theorem mergeNotes_viewMap (n : Node) (notes : List Pb.Note) :
    (mergeNotes env n notes).viewMap = n.viewMap :=
  List.foldlRecOn notes _ n (motive := fun m => m.viewMap = n.viewMap) rfl fun m same note _ => by
    split
    · exact same
    · exact (evalNote_frame note).1.trans same

theorem mergeAccusations_viewMap (n : Node) (accusations : List Pb.Accusation) :
    (mergeAccusations env n accusations).viewMap = n.viewMap :=
  List.foldlRecOn accusations _ n (motive := fun m => m.viewMap = n.viewMap) rfl
    fun _ same a _ => (evalAccusation_frame a).1.trans same

theorem mergeNotes_cons (n : Node) (note : Pb.Note) (notes : List Pb.Note) :
    mergeNotes env n (note :: notes) =
      mergeNotes env (if n.peerId = note.id then n else evalNote env n note) notes :=
  rfl

end Frames

/-! ### One note, on one record -/

/-- A note that `mergeNotes` takes for the view peer `k` while it is unaccused: filed under `k`,
which is not the local id `localId`, and signed for the record's key `pub`. -/
def Pb.Note.Accepted (env : Env) (localId k pub : Bytes) (note : Pb.Note) : Prop :=
  note.id = k ∧ localId ≠ k ∧
    env.validateSignature note.signature.r note.signature.s (.note note.epoch note.id) pub = true

instance (env : Env) (localId k pub : Bytes) (note : Pb.Note) :
    Decidable (note.Accepted env localId k pub) :=
  inferInstanceAs (Decidable (_ ∧ _ ∧ _))

/-- What one note of a batch does to the stored note of the unaccused view peer `k`: an accepted
note that is newer replaces it, as `evalNote` stores it. -/
def noteStep (env : Env) (localId k pub : Bytes) (stored : Option Note) (note : Pb.Note) :
    Option Note :=
  if note.Accepted env localId k pub ∧ olderThan stored note.epoch = true then
    some ⟨k, note.epoch, note.signature⟩
  else stored

/-- The view files the peer `k` at `r`, unaccused and under a certificate with key `pub`, and the
local id is `localId`. -/
structure UnaccusedPeer (localId k : Bytes) (r : Ref) (pub : Bytes) (n : Node) : Prop where
  inv : Inv n
  localId_eq : n.peerId = localId
  found : n.viewMap.get? k = some r
  unaccused : (n.heap r).accusation = none
  pub_eq : (n.heap r).cert.publicKey = pub

/-- `evalNote` on a note for another id leaves the record of `k` alone. -/
theorem evalNote_heap_other {env : Env} {n : Node} (h : Inv n) {k : Bytes} {r : Ref}
    (found : n.viewMap.get? k = some r) {note : Pb.Note} (other : note.id ≠ k) :
    (evalNote env n note).heap r = n.heap r := by
  have apart : ∀ {r'}, n.viewMap.get? note.id = some r' → r ≠ r' := fun found' =>
    (h.ref_ne found found' other).symm
  rcases evalNote_cases env n note with same | ⟨r', found', -, -, -, stored⟩ |
    ⟨r', a, found', -, -, -, rebutted⟩
  · rw [same]
  · rw [stored, storeNote_heap]
    simp [Function.update_noteq (apart found')]
  · rw [rebutted]
    simp [rebut, Function.update_noteq (apart found')]

namespace UnaccusedPeer

variable {env : Env} {localId k pub : Bytes} {r : Ref} {n : Node}

/-- A step that keeps the view entry, the record and the local id keeps the peer tracked. -/
theorem of_record {n' : Node} (h : UnaccusedPeer localId k r pub n) (inv : Inv n')
    (localId_eq : n'.peerId = n.peerId) (found : n'.viewMap.get? k = some r)
    (record : n'.heap r = n.heap r) : UnaccusedPeer localId k r pub n' :=
  ⟨inv, localId_eq.trans h.localId_eq, found, record ▸ h.unaccused, record ▸ h.pub_eq⟩

/-- `evalNote` changes the record of `k` only by storing the note `noteStep` takes. -/
theorem evalNote_heap (h : UnaccusedPeer localId k r pub n) {note : Pb.Note}
    (other : n.peerId ≠ note.id) :
    (evalNote env n note).heap r =
      if note.Accepted env localId k pub ∧ olderThan (n.heap r).recentNote note.epoch = true then
        { n.heap r with recentNote := some ⟨k, note.epoch, note.signature⟩ }
      else n.heap r := by
  by_cases filed : note.id = k
  · subst filed
    have accepted : note.Accepted env localId note.id pub ↔
        env.validateSignature note.signature.r note.signature.s (.note note.epoch note.id)
          (n.heap r).cert.publicKey = true := by
      simp [Pb.Note.Accepted, ← h.localId_eq, other, h.pub_eq]
    simp only [evalNote, getViewPeer, h.found, h.unaccused, accepted]
    by_cases signed : env.validateSignature note.signature.r note.signature.s
      (.note note.epoch note.id) (n.heap r).cert.publicKey = true
    · by_cases older : olderThan (n.heap r).recentNote note.epoch = true
      · simp [signed, older, h.unaccused, (h.inv.view_wf _ r h.found).2]
      · simp [signed, older]
    · simp [signed]
  · have skipped : ¬ note.Accepted env localId k pub := fun accepted => filed accepted.1
    simp only [skipped, false_and, if_false]
    exact evalNote_heap_other h.inv h.found filed

/-- One step of `mergeNotes` keeps the peer filed and unaccused, and acts on its note as
`noteStep`. -/
theorem step (h : UnaccusedPeer localId k r pub n) (note : Pb.Note) :
    UnaccusedPeer localId k r pub (if n.peerId = note.id then n else evalNote env n note) ∧
      ((if n.peerId = note.id then n else evalNote env n note).heap r).recentNote =
        noteStep env localId k pub (n.heap r).recentNote note := by
  split
  next own =>
    have skipped : ¬ note.Accepted env localId k pub := fun accepted =>
      accepted.2.1 (h.localId_eq ▸ own.trans accepted.1)
    exact ⟨h, by simp only [noteStep, skipped, false_and, if_false]⟩
  next other =>
    have record := @evalNote_heap env localId k pub r n h note other
    obtain ⟨view, same, -⟩ := @evalNote_frame env n note
    refine ⟨⟨h.inv.evalNote env note, same.trans h.localId_eq, view ▸ h.found, ?_, ?_⟩, ?_⟩ <;>
      rw [record] <;> split <;> simp [noteStep, *, h.unaccused, h.pub_eq]

end UnaccusedPeer

/-- Restricted to an unaccused view peer, `mergeNotes` is the fold of `noteStep`: the batch's
notes for other peers, the notes it skips and the live-map bookkeeping leave the peer's note
alone. -/
theorem mergeNotes_stored_eq {env : Env} {localId k pub : Bytes} {r : Ref} {n : Node}
    (h : UnaccusedPeer localId k r pub n) (notes : List Pb.Note) :
    UnaccusedPeer localId k r pub (mergeNotes env n notes) ∧
      ((mergeNotes env n notes).heap r).recentNote =
        notes.foldl (noteStep env localId k pub) (n.heap r).recentNote := by
  induction notes generalizing n with
  | nil => exact ⟨h, rfl⟩
  | cons note notes ih =>
    obtain ⟨stepped, stored⟩ := @UnaccusedPeer.step env localId k pub r n h note
    rw [mergeNotes_cons, List.foldl_cons, ← stored]
    exact ih stepped

/-! ### The newest candidate -/

/-- The candidates for a peer's stored note after a batch: the note it held, and the note each
accepted note of the batch would store. -/
def Candidate (env : Env) (localId k pub : Bytes) (old : Option Note) (notes : List Pb.Note)
    (c : Option Note) : Prop :=
  c = old ∨ ∃ note ∈ notes, note.Accepted env localId k pub ∧
    c = some ⟨k, note.epoch, note.signature⟩

/-- `s` is the newest of the candidates `C`: one of them, and at least as new as each. -/
structure Newest (C : Option Note → Prop) (s : Option Note) : Prop where
  mem : C s
  advanced : ∀ c, C c → NoteAdvanced c s

theorem NoteAdvanced.antisymm :
    ∀ {a b : Option Note}, NoteAdvanced a b → NoteAdvanced b a → a.map Note.epoch = b.map Note.epoch
  | none, none, _, _ => rfl
  | some _, none, ab, _ => ab.elim
  | none, some _, _, ba => ba.elim
  | some _, some _, ab, ba => congrArg some (UInt64.toNat.inj (Nat.le_antisymm ab ba))

/-- Two newest candidates of the same candidates have the same epoch. -/
theorem Newest.epoch_eq {C C' : Option Note → Prop} (same : ∀ c, C c ↔ C' c) {s s' : Option Note}
    (h : Newest C s) (h' : Newest C' s') : s.map Note.epoch = s'.map Note.epoch :=
  NoteAdvanced.antisymm (h'.advanced s ((same s).1 h.mem)) (h.advanced s' ((same s').2 h'.mem))

section NoteFold

variable {env : Env} {localId k pub : Bytes}

theorem noteStep_advanced (stored : Option Note) (note : Pb.Note) :
    NoteAdvanced stored (noteStep env localId k pub stored note) := by
  unfold noteStep
  split
  next taken => exact .of_olderThan taken.2
  next => exact .refl stored

/-- After an accepted note the stored note is at least as new as the one it would store. -/
theorem noteStep_covers (stored : Option Note) {note : Pb.Note}
    (accepted : note.Accepted env localId k pub) :
    NoteAdvanced (some ⟨k, note.epoch, note.signature⟩)
      (noteStep env localId k pub stored note) := by
  unfold noteStep
  split
  next => exact UInt64.le_refl note.epoch
  next kept =>
    cases stored with
    | none => simp [accepted] at kept
    | some c =>
      have newer : ¬ c.epoch < note.epoch := by simpa [accepted] using kept
      exact Nat.le_of_not_lt newer

/-- The fold of `noteStep` over a batch leaves the newest candidate. -/
theorem noteFold_newest (notes : List Pb.Note) (old : Option Note) :
    Newest (Candidate env localId k pub old notes)
      (notes.foldl (noteStep env localId k pub) old) := by
  induction notes generalizing old with
  | nil =>
    refine ⟨.inl rfl, fun c candidate => ?_⟩
    rcases candidate with rfl | ⟨_, absent, -⟩
    · exact .refl c
    · simp at absent
  | cons note notes ih =>
    have rest := ih (noteStep env localId k pub old note)
    refine ⟨?_, fun c candidate => ?_⟩
    · rcases rest.mem with held | ⟨note', sent, accepted, stored⟩
      · rw [List.foldl_cons, held]
        unfold noteStep
        split
        next taken => exact .inr ⟨note, List.mem_cons_self _ _, taken.1, rfl⟩
        next => exact .inl rfl
      · exact .inr ⟨note', List.mem_cons_of_mem _ sent, accepted, stored⟩
    · rcases candidate with rfl | ⟨note', sent, accepted, rfl⟩
      · exact (noteStep_advanced c note).trans (rest.advanced _ (.inl rfl))
      · rcases List.mem_cons.1 sent with rfl | later
        · exact (noteStep_covers old accepted).trans (rest.advanced _ (.inl rfl))
        · exact rest.advanced _ (.inr ⟨note', later, accepted, rfl⟩)

end NoteFold

/-! ### The batch -/

/-- After a batch of notes, the stored note of an unaccused view peer `k` is the newest
candidate: the note it held or the note an accepted note of the batch built (one filed under
`k`, not the local id, and signed for the record's key), and at least as new as each of them.
The batch's notes for other peers, and the rebuttals they make, do not reach it. -/
theorem mergeNotes_newest {n : Node} (h : Inv n) (env : Env) (notes : List Pb.Note) {k : Bytes}
    {r : Ref} (found : n.viewMap.get? k = some r) (unaccused : (n.heap r).accusation = none) :
    Newest (Candidate env n.peerId k (n.heap r).cert.publicKey (n.heap r).recentNote notes)
      ((mergeNotes env n notes).heap r).recentNote := by
  rw [(mergeNotes_stored_eq ⟨h, rfl, found, unaccused, rfl⟩ notes).2]
  exact noteFold_newest notes _

/-- A batch of notes that `evalNote` accepts for peer 2 of the bootstrapped node 0. -/
theorem boot_notes_newest :
    Inv bootNode ∧ bootNode.viewMap.get? [2] = some 1 ∧ (bootNode.heap 1).accusation = none ∧
      Newest (Candidate accepting bootNode.peerId [2] (bootNode.heap 1).cert.publicKey
          (bootNode.heap 1).recentNote [⟨2, [2], ⟨[], []⟩⟩, ⟨1, [2], ⟨[], []⟩⟩])
        ((mergeNotes accepting bootNode [⟨2, [2], ⟨[], []⟩⟩, ⟨1, [2], ⟨[], []⟩⟩]).heap 1).recentNote :=
  ⟨bootNode_reachable.inv, by decide, by decide,
    mergeNotes_newest bootNode_reachable.inv accepting _ (by decide) (by decide)⟩

/-- The epoch an unaccused view peer's note reaches after a batch does not depend on the order
in which the batch's notes arrive. -/
theorem mergeNotes_epoch_perm {n : Node} (h : Inv n) (env : Env) {notes notes' : List Pb.Note}
    (perm : notes.Perm notes') {k : Bytes} {r : Ref} (found : n.viewMap.get? k = some r)
    (unaccused : (n.heap r).accusation = none) :
    ((mergeNotes env n notes).heap r).recentNote.map Note.epoch =
      ((mergeNotes env n notes').heap r).recentNote.map Note.epoch := by
  have tracked : UnaccusedPeer n.peerId k r (n.heap r).cert.publicKey n :=
    ⟨h, rfl, found, unaccused, rfl⟩
  rw [(mergeNotes_stored_eq tracked notes).2, (mergeNotes_stored_eq tracked notes').2]
  refine (noteFold_newest notes _).epoch_eq (fun c => ?_) (noteFold_newest notes' _)
  simp only [Candidate, perm.mem_iff]

theorem boot_notes_epoch_perm :
    Inv bootNode ∧ [⟨2, [2], ⟨[], []⟩⟩, ⟨1, [2], ⟨[], []⟩⟩].Perm
        ([⟨1, [2], ⟨[], []⟩⟩, ⟨2, [2], ⟨[], []⟩⟩] : List Pb.Note) ∧
      bootNode.viewMap.get? [2] = some 1 ∧ (bootNode.heap 1).accusation = none ∧
      ((mergeNotes accepting bootNode [⟨2, [2], ⟨[], []⟩⟩, ⟨1, [2], ⟨[], []⟩⟩]).heap 1).recentNote.map
          Note.epoch =
        ((mergeNotes accepting bootNode [⟨1, [2], ⟨[], []⟩⟩, ⟨2, [2], ⟨[], []⟩⟩]).heap 1).recentNote.map
          Note.epoch :=
  ⟨bootNode_reachable.inv, .swap _ _ _, by decide, by decide,
    mergeNotes_epoch_perm bootNode_reachable.inv accepting (.swap _ _ _) (k := [2]) (r := 1)
      (by decide) (by decide)⟩

end Ifrit
