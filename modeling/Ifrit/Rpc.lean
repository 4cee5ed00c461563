import Ifrit.View

/-!
# Merging gossip

The rpc handlers of package node: `Spread` and the evaluators it runs over the records of a
gossip message. An evaluator drops what it cannot check and then changes nothing. The lemma
after each evaluator lists everything one call can do; later proofs use it and never unfold
the evaluator.
-/

namespace Ifrit

open Node

def errNoPeerInCtx : String := "No peer information found in provided context"

def errNoTLSInfo : String := "No TLS info provided in peer context"

def errNoCert : String := "No local certificate present in request"

def errInvalidPeerInformation : String := "Could not create local peer representation"

/-- The message of the Go runtime's panic on `cert.Subject.Locality[0]` for a certificate with no
locality, which the debug log of `Spread`'s non-neighbour branch reads. -/
def errIndexOutOfRange : String := "runtime error: index out of range [0] with length 0"

/-- The accepting branch of `evalNote` for an unaccused peer: the note is stored, and the peer
is made live unless the live map has its key. -/
def storeNote (n : Node) (r : Ref) (peerKey : Bytes) (note : Note) : Node :=
  let n := n.setNote r note
  if (n.getLivePeer peerKey).isNone then n.addLivePeer r else n

@[simp] theorem storeNote_heap (n : Node) (r : Ref) (peerKey : Bytes) (note : Note) :
    (storeNote n r peerKey note).heap = (n.setNote r note).heap := by
  simp only [storeNote]; split <;> rfl

/-- The rebuttal branch of `evalNote`: the timer and the accusation go, the peer is live. -/
def rebut (n : Node) (r : Ref) (peerKey : Bytes) : Node :=
  ((n.deleteTimeout peerKey).removeAccusation r).addLivePeer r

/-- `evalNote`: a validly signed note for a view peer is stored when the peer is unaccused and
the note is newer, and ends the accusation (a rebuttal) when it is newer than the accusation. -/
def evalNote (env : Env) (n : Node) (gossipNote : Pb.Note) : Node :=
  let epoch := gossipNote.epoch
  let sign := gossipNote.signature
  let peerKey := gossipNote.id
  match n.getViewPeer peerKey with
  | none => n
  | some r =>
    let p := n.heap r
    if !env.validateSignature sign.r sign.s (.note epoch gossipNote.id) p.cert.publicKey then n
    else
      match p.accusation with
      | none =>
        if olderThan p.recentNote epoch then storeNote n r peerKey ⟨p.key, epoch, sign⟩ else n
      | some peerAccuse => if peerAccuse.epoch < epoch then rebut n r peerKey else n

/-- Everything one `evalNote` call can do: nothing, store a newer note of an unaccused view
peer, or take a newer note of an accused one as its rebuttal. -/
theorem evalNote_cases (env : Env) (n : Node) (note : Pb.Note) :
    evalNote env n note = n ∨
    (∃ r, n.viewMap.get? note.id = some r ∧ (n.heap r).accusation = none ∧
      olderThan (n.heap r).recentNote note.epoch = true ∧
      env.validateSignature note.signature.r note.signature.s (.note note.epoch note.id)
        (n.heap r).cert.publicKey = true ∧
      evalNote env n note = storeNote n r note.id ⟨(n.heap r).key, note.epoch, note.signature⟩) ∨
    (∃ r a, n.viewMap.get? note.id = some r ∧ (n.heap r).accusation = some a ∧
      a.epoch < note.epoch ∧
      env.validateSignature note.signature.r note.signature.s (.note note.epoch note.id)
        (n.heap r).cert.publicKey = true ∧
      evalNote env n note = rebut n r note.id) := by
  generalize result : evalNote env n note = out
  simp only [evalNote, getViewPeer, Bool.not_eq_true'] at result
  split at result
  · exact .inl result.symm
  next r found =>
    split at result
    · exact .inl result.symm
    next signed =>
      simp only [Bool.not_eq_false] at signed
      split at result
      next unaccused =>
        split at result
        next older => exact .inr (.inl ⟨r, found, unaccused, older, signed, result.symm⟩)
        · exact .inl result.symm
      next a accused =>
        split at result
        next newer => exact .inr (.inr ⟨r, a, found, accused, newer, signed, result.symm⟩)
        · exact .inl result.symm

/-- `peerAccusation != nil && !isHigherRank(accuser, peerAccusation.accuser)`. -/
def heldByHigherRank (env : Env) (current : Option Accusation) (accuser : Bytes) : Bool :=
  match current with
  | none => false
  | some peerAccusation => !env.isHigherRank accuser peerAccusation.accuser

/-- The accepting branch of `evalAccusation`: the accusation is recorded on the accused `r`
with `ar` as accuser, and a timer starts unless one runs. -/
def accuse (n : Node) (r ar : Ref) (a : Pb.Accusation) : Node :=
  let p := n.heap r
  let accuserPeer := n.heap ar
  let n := n.setAccusation r ⟨p.key, a.epoch, accuserPeer.key, a.signature⟩
  if !n.timerExist a.accused then n.startTimer p.key p.recentNote ar p.addr else n

@[simp] theorem accuse_heap (n : Node) (r ar : Ref) (a : Pb.Accusation) :
    (accuse n r ar a).heap =
      (n.setAccusation r ⟨(n.heap r).key, a.epoch, (n.heap ar).key, a.signature⟩).heap := by
  simp only [accuse]; split <;> rfl

/-- `evalAccusation`. An accusation of the local node bumps the local epoch past it, and the
protocol's `Rebuttal` then only sends. Otherwise it is recorded on a live accused peer whose
note it postdates, when the accuser is live, not outranked by the current accuser, signed it,
and is the accused's predecessor. -/
def evalAccusation (env : Env) (n : Node) (a : Pb.Accusation) : Node :=
  let sign := a.signature
  let epoch := a.epoch
  let accuser := a.accuser
  let accused := a.accused
  if n.peerId = accused then n.setEpoch env (epoch + 1)
  else
    match n.getLivePeer accused with
    | none => n
    | some r =>
      let p := n.heap r
      if olderThan p.recentNote epoch then
        match n.getLivePeer accuser with
        | none => n
        | some ar =>
          let accuserPeer := n.heap ar
          if heldByHigherRank env p.accusation accuserPeer.key then n
          else if !env.validateSignature sign.r sign.s (.accusation epoch accuser accused)
              accuserPeer.cert.publicKey then n
          else if !env.isPrev accuserPeer.key p.key then n
          else accuse n r ar a
      else n

/-- Everything one `evalAccusation` call can do: bump the local epoch, nothing, or record the
accusation on a live accused peer `r` from a live accuser `ar`, with every check passed. -/
theorem evalAccusation_cases (env : Env) (n : Node) (a : Pb.Accusation) :
    (n.peerId = a.accused ∧ evalAccusation env n a = n.setEpoch env (a.epoch + 1)) ∨
    (n.peerId ≠ a.accused ∧ evalAccusation env n a = n) ∨
    (∃ r ar, n.peerId ≠ a.accused ∧ n.liveMap.get? a.accused = some r ∧
      n.liveMap.get? a.accuser = some ar ∧
      olderThan (n.heap r).recentNote a.epoch = true ∧
      heldByHigherRank env (n.heap r).accusation (n.heap ar).key = false ∧
      env.validateSignature a.signature.r a.signature.s (.accusation a.epoch a.accuser a.accused)
        (n.heap ar).cert.publicKey = true ∧
      env.isPrev (n.heap ar).key (n.heap r).key = true ∧
      evalAccusation env n a = accuse n r ar a) := by
  generalize result : evalAccusation env n a = out
  simp only [evalAccusation, getLivePeer, Bool.not_eq_true'] at result
  split at result
  next self => exact .inl ⟨self, result.symm⟩
  next other =>
    split at result
    · exact .inr (.inl ⟨other, result.symm⟩)
    next r accused =>
      split at result
      next older =>
        split at result
        · exact .inr (.inl ⟨other, result.symm⟩)
        next ar accuser =>
          split at result
          · exact .inr (.inl ⟨other, result.symm⟩)
          next ranked =>
            split at result
            · exact .inr (.inl ⟨other, result.symm⟩)
            next signed =>
              split at result
              · exact .inr (.inl ⟨other, result.symm⟩)
              next prev =>
                simp only [Bool.not_eq_true, Bool.not_eq_false] at ranked signed prev
                exact .inr (.inr ⟨r, ar, other, accused, accuser, older, ranked, signed, prev,
                  result.symm⟩)
      · exact .inr (.inl ⟨other, result.symm⟩)

/-- `evalCertificate`: a certificate of a peer that is neither the local node nor in the view
adds a record for it to the view, not to the live map. -/
def evalCertificate (n : Node) (cert : Certificate) : Node :=
  match cert.locality with
  | [] => n
  | addr :: _ =>
    if addr = n.localAddr then n
    else if cert.subjectKeyId = [] ∨ n.peerId = cert.subjectKeyId then n
    else
      match n.getViewPeer cert.subjectKeyId with
      | some _ => n
      | none =>
        match newPeer cert with
        | none => n
        | some p => (n.alloc p).addViewPeer n.next

/-- Everything one `evalCertificate` call can do: nothing, or file a fresh record for a key
that is neither the local id nor in the view. -/
theorem evalCertificate_cases (n : Node) (cert : Certificate) :
    evalCertificate n cert = n ∨
    ∃ p, newPeer cert = some p ∧ n.viewMap.get? cert.subjectKeyId = none ∧
      n.peerId ≠ cert.subjectKeyId ∧ evalCertificate n cert = (n.alloc p).addViewPeer n.next := by
  generalize result : evalCertificate n cert = out
  simp only [evalCertificate, getViewPeer] at result
  split at result
  · exact .inl result.symm
  · split at result
    · exact .inl result.symm
    · split at result
      · exact .inl result.symm
      next fresh =>
        split at result
        · exact .inl result.symm
        next absent =>
          split at result
          · exact .inl result.symm
          next p built =>
            exact .inr ⟨p, built, absent, fun same => fresh (.inr same), result.symm⟩

def mergeNotes (env : Env) (n : Node) (notes : List Pb.Note) : Node :=
  notes.foldl (fun n newNote => if n.peerId = newNote.id then n else evalNote env n newNote) n

def mergeAccusations (env : Env) (n : Node) (accusations : List Pb.Accusation) : Node :=
  accusations.foldl (evalAccusation env) n

def mergeCertificates (env : Env) (n : Node) (certs : List Pb.Certificate)
    (remoteCert : Certificate) : Node :=
  certs.foldl (fun n b =>
    match env.parseCertificate b.raw with
    | none => n
    | some cert => evalCertificate n cert) (evalCertificate n remoteCert)

/-- The caller's credentials as the grpc context holds them. -/
inductive AuthInfo where
  | tls (peerCertificates : List Certificate)
  | other

structure Context where
  peer : Option AuthInfo

/-- The block both branches of `Spread` run for the caller: unless the view has its key, a
record from `newPeer(nil, cert)` goes into the view map and the live map. `none` is the
`errInvalidPeerInformation` return. -/
def addCaller (n : Node) (cert : Certificate) : Option Node :=
  if n.viewPeerExist cert.subjectKeyId then some n
  else
    match newPeer cert with
    | none => none
    | some p => some (((n.alloc p).addViewPeer n.next).addLivePeer n.next)

theorem addCaller_cases {n n' : Node} {cert : Certificate} (added : addCaller n cert = some n') :
    n' = n ∨ ∃ p, newPeer cert = some p ∧ n.viewMap.get? cert.subjectKeyId = none ∧
      n' = ((n.alloc p).addViewPeer n.next).addLivePeer n.next := by
  unfold addCaller at added
  split at added
  · exact .inl (Option.some.inj added).symm
  next absent =>
    split at added
    · cases added
    next p built =>
      exact .inr ⟨p, built, by simpa [viewPeerExist] using absent, (Option.some.inj added).symm⟩

/-- `Spread`: a gossip exchange. A caller that is not a neighbour gets the certificates of the
live peers `findNeighbours` names and nothing is merged; the branch's debug log reads the first
locality of its certificate, and panics on a certificate with none. A neighbour's certificates,
notes and accusations are merged in that order. The message's `OwnNote` and `Data` are not
read. -/
def spread (env : Env) (n : Node) (ctx : Context) (args : Pb.GossipMsg) :
    Except String Pb.Partners × Node :=
  match ctx.peer with
  | none => (.error errNoPeerInCtx, n)
  | some .other => (.error errNoTLSInfo, n)
  | some (.tls []) => (.error errNoCert, n)
  | some (.tls (cert :: _)) =>
    if !env.shouldBeNeighbours cert.subjectKeyId then
      match cert.locality with
      | [] => (.error errIndexOutOfRange, n)
      | _ :: _ =>
        match addCaller n cert with
        | none => (.error errInvalidPeerInformation, n)
        | some n =>
          let peerKeys := env.findNeighbours cert.subjectKeyId
          (.ok ⟨peerKeys.filterMap fun k => (n.getLivePeer k).map fun r => ⟨(n.heap r).cert.raw⟩⟩,
            n)
    else
      match addCaller n cert with
      | none => (.error errInvalidPeerInformation, n)
      | some n =>
        let n := mergeCertificates env n args.certificates cert
        let n := mergeNotes env n args.notes
        (.ok ⟨[]⟩, mergeAccusations env n args.accusations)

/-- Everything one `Spread` call can do to the state: nothing, add the caller, or add the
caller and merge the message. -/
theorem spread_cases (env : Env) (n : Node) (ctx : Context) (args : Pb.GossipMsg) :
    (spread env n ctx args).2 = n ∨
    ∃ cert rest n', ctx.peer = some (.tls (cert :: rest)) ∧ addCaller n cert = some n' ∧
      ((spread env n ctx args).2 = n' ∨
        (spread env n ctx args).2 = mergeAccusations env
          (mergeNotes env (mergeCertificates env n' args.certificates cert) args.notes)
          args.accusations) := by
  rcases ctx with ⟨_ | ⟨_ | ⟨cert, rest⟩⟩ | _⟩
  · exact .inl rfl
  · exact .inl rfl
  · simp only [spread]
    split
    · split
      · exact .inl rfl
      · split
        · exact .inl rfl
        next n' added => exact .inr ⟨cert, rest, n', rfl, added, .inl rfl⟩
    · split
      · exact .inl rfl
      next n' added => exact .inr ⟨cert, rest, n', rfl, added, .inr rfl⟩
  · exact .inl rfl

/-- A `Spread` call that returns an error leaves the state as it was. -/
theorem spread_error_unchanged (env : Env) (n : Node) (ctx : Context) (args : Pb.GossipMsg)
    (e : String) (failed : (spread env n ctx args).1 = .error e) : (spread env n ctx args).2 = n := by
  rcases ctx with ⟨_ | ⟨_ | ⟨cert, _⟩⟩ | _⟩
  · rfl
  · rfl
  · revert failed
    simp only [spread]
    split <;> repeat' split
    all_goals first | exact fun _ => rfl | exact fun failed => by cases failed
  · rfl

end Ifrit
