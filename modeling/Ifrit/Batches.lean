import Ifrit.Exchange

/-!
# What a batch of notes or accusations keeps

A note `evalNote` refuses for the local id, for a peer the view does not hold, or with a signature
the peer's key rejects, and an accusation `evalAccusation` refuses for an accuser that is not live
or a signature the accuser's key rejects, change nothing. No merge of notes or accusations changes
the local id, the view map, the live map or a certificate, so these checks give the same answer
at every point of a batch. Merging a batch is therefore merging only the items that pass them, at
any position (`mergeNotes_checked`, `mergeAccusations_checked`). The exception is an accusation of
the local node, which `evalAccusation` takes before any check.

Among the accusations of one peer that pass every check at the start of a batch but the rank
check, the merge keeps the highest-ranked accuser when `isHigherRank` is a strict order
(`mergeAccusations_highest_accuser`): an accusation is recorded only over one whose accuser it
outranks, and a rejected accuser stays outranked by every later one.
-/

namespace Ifrit

open Node

/-- The checks of `evalNote` that no merge can change: the note is not for the local id, names a
view peer, and verifies under that peer's key. -/
def noteChecks (env : Env) (n : Node) (note : Pb.Note) : Bool :=
  decide (n.peerId ≠ note.id) &&
    match n.viewMap.get? note.id with
    | none => false
    | some r => env.validateSignature note.signature.r note.signature.s
        (.note note.epoch note.id) (n.heap r).cert.publicKey

/-- The checks of `evalAccusation` that no merge of accusations can change: an accusation of the
local node passes them, since it is taken unchecked; any other needs a live accuser whose key
verifies it. -/
def accusationChecks (env : Env) (n : Node) (a : Pb.Accusation) : Bool :=
  decide (n.peerId = a.accused) ||
    match n.liveMap.get? a.accuser with
    | none => false
    | some ar => env.validateSignature a.signature.r a.signature.s
        (.accusation a.epoch a.accuser a.accused) (n.heap ar).cert.publicKey

section Frames

variable {env : Env} {n : Node}

theorem evalNote_cert (note : Pb.Note) (r : Ref) :
    ((evalNote env n note).heap r).cert = (n.heap r).cert := by
  rcases evalNote_cases env n note with same | ⟨r', -, -, -, -, stored⟩ |
    ⟨r', a, -, -, -, -, rebutted⟩
  · rw [same]
  · rw [stored, storeNote_heap]
    by_cases written : r = r'
    · subst written; simp
    · simp [Function.update_noteq written]
  · rw [rebutted]
    by_cases written : r = r'
    · subst written; simp [rebut]
    · simp [rebut, Function.update_noteq written]

end Frames

section Checks

variable {env : Env} {n m : Node}

/-- A note that fails the checks at `n` changes nothing at a node `m` with `n`'s local id, view
map and certificates. -/
theorem evalNote_of_unchecked (self : m.peerId = n.peerId) (view : m.viewMap = n.viewMap)
    (certs : ∀ r, (m.heap r).cert = (n.heap r).cert) {note : Pb.Note}
    (unchecked : noteChecks env n note = false) (other : m.peerId ≠ note.id) :
    evalNote env m note = m := by
  rcases evalNote_cases env m note with same | ⟨r, found, -, -, signed, -⟩ |
    ⟨r, a, found, -, -, signed, -⟩
  · exact same
  all_goals
    rw [self] at other
    rw [view, certs r] at *
    simp [noteChecks, other, found, signed] at unchecked

/-- An accusation that fails the checks at `n` changes nothing at a node `m` with `n`'s local id,
live map and certificates. -/
theorem evalAccusation_of_unchecked (self : m.peerId = n.peerId) (live : m.liveMap = n.liveMap)
    (certs : ∀ r, (m.heap r).cert = (n.heap r).cert) {a : Pb.Accusation}
    (unchecked : accusationChecks env n a = false) : evalAccusation env m a = m := by
  rcases evalAccusation_cases env m a with ⟨own, -⟩ | ⟨-, same⟩ |
    ⟨r, ar, -, -, accuser, -, -, signed, -, -⟩
  · simp [accusationChecks, ← self, own] at unchecked
  · exact same
  · rw [live, certs ar] at *
    simp [accusationChecks, accuser, signed] at unchecked

end Checks

/-- A fold over a list is the fold over the members that pass `p`, when the step at a member
failing `p` changes nothing and every step keeps the frame `P` under which that holds. -/
theorem foldl_filter_of_skips {α β : Type} {f : β → α → β} {p : α → Bool} (P : β → Prop)
    (keep : ∀ b y, P b → P (f b y)) (skip : ∀ b y, P b → p y = false → f b y = b) :
    ∀ (l : List α) {init : β}, P init → l.foldl f init = (l.filter p).foldl f init
  | [], _, _ => rfl
  | y :: l, init, h => by
    by_cases checked : p y = true
    · rw [List.filter_cons_of_pos checked, List.foldl_cons, List.foldl_cons]
      exact foldl_filter_of_skips P keep skip l (keep init y h)
    · rw [List.filter_cons_of_neg checked, List.foldl_cons, skip init y h (by simpa using checked)]
      exact foldl_filter_of_skips P keep skip l h

/-- A batch of notes merges as the notes of it that pass `evalNote`'s checks at its start: a note
for the local id, for a peer not in the view, or with a signature the peer's key rejects changes
nothing, wherever it stands in the batch. -/
theorem mergeNotes_checked (env : Env) (n : Node) (notes : List Pb.Note) :
    mergeNotes env n notes = mergeNotes env n (notes.filter (noteChecks env n)) :=
  foldl_filter_of_skips (fun m : Node => m.peerId = n.peerId ∧ m.viewMap = n.viewMap ∧
      ∀ r, (m.heap r).cert = (n.heap r).cert)
    (fun m note ⟨self, view, certs⟩ => by
      dsimp only
      split
      · exact ⟨self, view, certs⟩
      · obtain ⟨view', self', -⟩ := @evalNote_frame env m note
        exact ⟨self'.trans self, view'.trans view, fun r => (evalNote_cert note r).trans (certs r)⟩)
    (fun m note ⟨self, view, certs⟩ unchecked => by
      split
      · rfl
      next other => exact evalNote_of_unchecked self view certs unchecked other)
    notes ⟨rfl, rfl, fun _ => rfl⟩

/-- A batch of accusations merges as the accusations of it that pass `evalAccusation`'s checks at
its start: an accusation from an accuser that is not live, or with a signature the accuser's key
rejects, changes nothing, wherever it stands in the batch, unless it accuses the local node. -/
theorem mergeAccusations_checked (env : Env) (n : Node) (accusations : List Pb.Accusation) :
    mergeAccusations env n accusations =
      mergeAccusations env n (accusations.filter (accusationChecks env n)) :=
  foldl_filter_of_skips (fun m : Node => m.peerId = n.peerId ∧ m.liveMap = n.liveMap ∧
      ∀ r, (m.heap r).cert = (n.heap r).cert)
    (fun _ a ⟨self, live, certs⟩ =>
      ⟨(evalAccusation_frame a).2.1.trans self, (evalAccusation_liveMap a).trans live,
        fun r => (congrArg Peer.cert (evalAccusation_record a r)).trans (certs r)⟩)
    (fun _ _ ⟨self, live, certs⟩ unchecked => evalAccusation_of_unchecked self live certs unchecked)
    accusations ⟨rfl, rfl, fun _ => rfl⟩

/-! ### The highest-ranked accuser -/

section Ranks

variable {env : Env} {n : Node}

/-- `evalAccusation` leaves a record's accusation as it is, or writes one from an accuser that
outranks the accuser it replaces. -/
theorem evalAccusation_outranks (a : Pb.Accusation) (r : Ref) :
    ((evalAccusation env n a).heap r).accusation = (n.heap r).accusation ∨
      ∃ ar, ((evalAccusation env n a).heap r).accusation =
          some ⟨(n.heap r).key, a.epoch, (n.heap ar).key, a.signature⟩ ∧
        heldByHigherRank env (n.heap r).accusation (n.heap ar).key = false := by
  rcases evalAccusation_cases env n a with ⟨-, bumped⟩ | ⟨-, same⟩ |
    ⟨r', ar, -, -, -, -, ranked, -, -, accused⟩
  · rw [bumped]; exact .inl rfl
  · rw [same]; exact .inl rfl
  · rw [accused, accuse_heap]
    by_cases written : r = r'
    · subst written; exact .inr ⟨ar, by simp, ranked⟩
    · exact .inl (by simp [Function.update_noteq written])

/-- With every check but the rank check passed, `evalAccusation` records the accusation unless
the current accuser is not outranked. -/
theorem evalAccusation_rank_check {a : Pb.Accusation} {r ar : Ref} (other : n.peerId ≠ a.accused)
    (live : n.liveMap.get? a.accused = some r) (accuser : n.liveMap.get? a.accuser = some ar)
    (older : olderThan (n.heap r).recentNote a.epoch = true)
    (signed : env.validateSignature a.signature.r a.signature.s
      (.accusation a.epoch a.accuser a.accused) (n.heap ar).cert.publicKey = true)
    (prev : env.isPrev (n.heap ar).key (n.heap r).key = true) :
    evalAccusation env n a =
      if heldByHigherRank env (n.heap r).accusation (n.heap ar).key then n
      else accuse n r ar a := by
  simp [evalAccusation, getLivePeer, other, live, accuser, older, signed, prev]

/-- When `isHigherRank` is a strict order, a batch of accusations holding one that passes every
check but the rank check at its start leaves the accused peer accused, by an accuser that the
accuser of that accusation does not outrank: the merge keeps the highest-ranked accuser. -/
theorem mergeAccusations_highest_accuser (h : Inv n)
    (irrefl : ∀ x, env.isHigherRank x x = false)
    (trans : ∀ x y z, env.isHigherRank x y = true → env.isHigherRank y z = true →
      env.isHigherRank x z = true)
    {accusations : List Pb.Accusation} {a : Pb.Accusation} (sent : a ∈ accusations) {r ar : Ref}
    (other : n.peerId ≠ a.accused) (live : n.liveMap.get? a.accused = some r)
    (accuser : n.liveMap.get? a.accuser = some ar)
    (older : olderThan (n.heap r).recentNote a.epoch = true)
    (signed : env.validateSignature a.signature.r a.signature.s
      (.accusation a.epoch a.accuser a.accused) (n.heap ar).cert.publicKey = true)
    (prev : env.isPrev (n.heap ar).key (n.heap r).key = true) :
    ∃ acc, ((mergeAccusations env n accusations).heap r).accusation = some acc ∧
      env.isHigherRank a.accuser acc.accuser = false := by
  have key : ∀ {m k r}, Inv m → m.liveMap.get? k = some r → (m.heap r).key = k :=
    fun inv live => (inv.view_wf _ _ (inv.live_view _ _ live)).2
  refine foldl_reaches (f := fun m b => evalAccusation env m b)
    (P := fun m => (Inv m ∧ Kept n m) ∧ m.peerId = n.peerId ∧
      ∀ r', (m.heap r').recentNote = (n.heap r').recentNote ∧ (m.heap r').cert = (n.heap r').cert)
    (Q := fun m => ∃ acc, (m.heap r).accusation = some acc ∧
      env.isHigherRank a.accuser acc.accuser = false) sent
    (fun m b ⟨kept, self, records⟩ => ⟨(Kept.closed n).mergeAccusations kept env [b],
      (evalAccusation_frame b).2.1.trans self, fun r' => by
        rw [evalAccusation_record b r']; exact records r'⟩)
    (fun m b _ ⟨acc, held, lower⟩ => ?_) (fun m ⟨⟨inv, kept⟩, self, records⟩ => ?_)
    ⟨⟨h, .refl n⟩, rfl, fun _ => ⟨rfl, rfl⟩⟩
  · -- a later accusation replaces the accuser only by one that outranks it
    rcases @evalAccusation_outranks env m b r with same | ⟨ar', written, ranked⟩
    · exact ⟨acc, same.trans held, lower⟩
    · refine ⟨_, written, Bool.eq_false_iff.2 fun higher => ?_⟩
      simp only [held, heldByHigherRank, Bool.not_eq_false'] at ranked
      rw [trans _ _ _ higher ranked] at lower
      exact Bool.noConfusion lower
  · -- the accusation itself is recorded, or meets an accuser it does not outrank
    have live' := kept.live _ _ live
    have accuser' := kept.live _ _ accuser
    dsimp only
    rw [evalAccusation_rank_check (self ▸ other) live' accuser' ((records r).1 ▸ older)
      ((records ar).2 ▸ signed)
      (by rw [key inv live', key inv accuser', ← key h live, ← key h accuser]; exact prev)]
    split
    next held =>
      cases current : (m.heap r).accusation with
      | none => simp [heldByHigherRank, current] at held
      | some c =>
        refine ⟨c, rfl, ?_⟩
        simpa [heldByHigherRank, current, key inv accuser'] using held
    next =>
      refine ⟨⟨(m.heap r).key, a.epoch, (m.heap ar).key, a.signature⟩,
        by rw [accuse_heap]; simp, ?_⟩
      show env.isHigherRank a.accuser (m.heap ar).key = false
      rw [key inv accuser']; exact irrefl _

/-- Rings under which a lower first byte of an id ranks higher. -/
def ranking : Env :=
  { accepting with
    isHigherRank := fun x y => decide ((x.headD 0).toNat < (y.headD 0).toNat) }

/-- Node 0 as `NewNode` builds it when the CA names peers 1, 2 and 3. -/
def ringNode : Node :=
  addViewToLive (bootstrap (initial accepting ⟨[0], "n0", sampleCert 0 "n0", none, none⟩)
    [sampleCert 1 "n1", sampleCert 2 "n2", sampleCert 3 "n3"])

theorem ringNode_reachable : Reachable ringNode :=
  .newNode accepting ⟨sampleCert 0 "n0", sampleCert 9 "ca",
    [sampleCert 1 "n1", sampleCert 2 "n2", sampleCert 3 "n3"], false⟩ rfl

/-- Under those rings peers 3 and 1 both accuse peer 2, peer 3 first. Its accusation is
recorded, and peer 1, which outranks peer 3, takes its place. -/
theorem ranked_accusers_keep_highest :
    Inv ringNode ∧ (∀ x, ranking.isHigherRank x x = false) ∧
      (∀ x y z, ranking.isHigherRank x y = true → ranking.isHigherRank y z = true →
        ranking.isHigherRank x z = true) ∧
      (∃ acc, ((mergeAccusations ranking ringNode
          [⟨1, [3], [2], ⟨[], []⟩⟩, ⟨1, [1], [2], ⟨[], []⟩⟩]).heap 1).accusation = some acc ∧
        ranking.isHigherRank [3] acc.accuser = false) ∧
      ((mergeAccusations ranking ringNode
          [⟨1, [3], [2], ⟨[], []⟩⟩, ⟨1, [1], [2], ⟨[], []⟩⟩]).heap 1).accusation.map
        (·.accuser) = some [1] :=
  have irrefl : ∀ x, ranking.isHigherRank x x = false := fun x => by simp [ranking]
  have trans : ∀ x y z, ranking.isHigherRank x y = true → ranking.isHigherRank y z = true →
      ranking.isHigherRank x z = true := fun x y z => by
    simp only [ranking, decide_eq_true_eq]; omega
  ⟨ringNode_reachable.inv, irrefl, trans,
    mergeAccusations_highest_accuser ringNode_reachable.inv irrefl trans
      (a := ⟨1, [3], [2], ⟨[], []⟩⟩) (List.mem_cons_self _ _) (by decide) (by decide)
      (show ringNode.liveMap.get? [3] = some 2 by decide) (by decide) rfl rfl,
    by decide⟩

end Ranks

end Ifrit
