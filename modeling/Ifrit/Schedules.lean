import Ifrit.Exchange
import Ifrit.Interleaving
import Mathlib.Data.List.GetD

/-!
# Every schedule files the same ids

`Ifrit.Interleaving` splits `Spread`'s caller block and `evalCertificate` into their individually
locked view operations, and there two calls for one unknown id can both pass the existence check
and file two records. This module shows that this is all a schedule can do wrong: whatever the
schedule, once every call has finished the view holds exactly the ids it held before and the ids
the calls would have filed alone (`interleave_files_iff`). No id is lost, and none is filed that
no call was for.

Each call in flight is related to the call it started as (`Task.Progress`). What its phase says is
a fact about the view, which a step of any other call keeps, since no step removes an entry
(`Task.Progress.mono`); the step of the call itself moves it to its next phase
(`Task.Progress.step`).
-/

namespace Ifrit

open Node

/-- The ids a call files when it runs alone: `Spread`'s caller block, from its check or after it,
files a caller with a locality; `evalCertificate` a certificate its filters admit, and its add step
one with a locality. -/
def Task.Files (localId : Bytes) (localAddr : String) : Task → Bytes → Prop
  | .spread cert, k | .spreadAdd cert, k | .evalCertificateAdd cert, k =>
    cert.subjectKeyId = k ∧ cert.locality ≠ []
  | .evalCertificate cert, k => cert.subjectKeyId = k ∧ Admits localId localAddr cert
  | .spreadLive _, _ | .done, _ => False

/-- Every id in the view of `n` is in the view of `n'`. -/
def Grows (n n' : Node) : Prop := ∀ k, (n.viewMap.get? k).isSome → (n'.viewMap.get? k).isSome

/-- How far a call has come from the call `t₀` it started as, with what its phase has made true of
the view of `n`. -/
inductive Task.Progress (localId : Bytes) (localAddr : String) (n : Node) (t₀ : Task) : Task → Prop
  /-- Not started. -/
  | start : Progress localId localAddr n t₀ t₀
  /-- `Spread` found the caller's id absent. -/
  | checked {cert : Certificate} : t₀ = .spread cert →
      Progress localId localAddr n t₀ (.spreadAdd cert)
  /-- `evalCertificate` found the certificate admitted and its id absent. -/
  | admitted {cert : Certificate} : t₀ = .evalCertificate cert → Admits localId localAddr cert →
      Progress localId localAddr n t₀ (.evalCertificateAdd cert)
  /-- `Spread` filed the caller, whose record awaits the live map. -/
  | filed {r : Ref} : (∀ k, t₀.Files localId localAddr k → (n.viewMap.get? k).isSome) →
      Progress localId localAddr n t₀ (.spreadLive r)
  /-- Finished, with the ids it files in the view. -/
  | finished : (∀ k, t₀.Files localId localAddr k → (n.viewMap.get? k).isSome) →
      Progress localId localAddr n t₀ .done

/-! ### One step -/

section Step

variable {localId : Bytes} {localAddr : String} {n : Node}

theorem newPeer_isSome (cert : Certificate) : (newPeer cert).isSome ↔ cert.locality ≠ [] := by
  unfold newPeer; split <;> simp_all

/-- The add step of either call files the certificate's id. -/
theorem addFresh_files {cert : Certificate} {p : Peer} (built : newPeer cert = some p) :
    (((n.alloc p).addViewPeer n.next).viewMap.get? cert.subjectKeyId).isSome := by
  simp [(newPeer_key built).1]

/-- No step removes a view entry, or changes the local id or address. -/
theorem Task.step_frame (n : Node) (t : Task) :
    Grows n (t.step n).2.1 ∧ (t.step n).2.1.peerId = n.peerId ∧
      (t.step n).2.1.localAddr = n.localAddr := by
  have fresh : ∀ p : Peer, Grows n ((n.alloc p).addViewPeer n.next) := fun p k filed => by
    by_cases same : k = p.key
    · simp [same]
    · simpa [same] using filed
  cases t with
  | spread cert => simp only [Task.step]; split <;> exact ⟨fun _ => id, rfl, rfl⟩
  | spreadAdd cert | evalCertificateAdd cert =>
    simp only [Task.step]
    split
    · exact ⟨fun _ => id, rfl, rfl⟩
    · exact ⟨fresh _, rfl, rfl⟩
  | spreadLive r => exact ⟨fun _ => id, rfl, rfl⟩
  | evalCertificate cert =>
    simp only [Task.step]
    repeat' split
    all_goals exact ⟨fun _ => id, rfl, rfl⟩
  | done => exact ⟨fun _ => id, rfl, rfl⟩

/-- A step adds to the view only the id of a certificate with a locality, in an add step. -/
theorem Task.step_view (t : Task) {k : Bytes} (filed : (((t.step n).2.1).viewMap.get? k).isSome) :
    (n.viewMap.get? k).isSome ∨ ∃ cert, (t = .spreadAdd cert ∨ t = .evalCertificateAdd cert) ∧
      cert.subjectKeyId = k ∧ cert.locality ≠ [] := by
  have added : ∀ cert p, newPeer cert = some p →
      (((n.alloc p).addViewPeer n.next).viewMap.get? k).isSome →
      (n.viewMap.get? k).isSome ∨ cert.subjectKeyId = k ∧ cert.locality ≠ [] :=
      fun cert p built => by
    rw [addViewPeer_viewMap, alloc_heap, Function.update_same, (newPeer_key built).1,
      GoMap.get?_set]
    split
    next same => exact fun _ => .inr ⟨same.symm, (newPeer_isSome cert).1 (by simp [built])⟩
    next => exact .inl
  cases t with
  | spreadAdd cert | evalCertificateAdd cert =>
    simp only [Task.step] at filed
    split at filed
    · exact .inl filed
    next p built =>
      exact (added cert p built filed).imp_right fun ⟨same, located⟩ =>
        ⟨cert, by simp, same, located⟩
  | spread cert => simp only [Task.step] at filed; split at filed <;> exact .inl filed
  | spreadLive r => exact .inl filed
  | evalCertificate cert =>
    simp only [Task.step] at filed
    repeat' split at filed
    all_goals exact .inl filed
  | done => exact .inl filed

namespace Task.Progress

variable {t₀ t : Task}

/-- A phase stays true while the view only grows. -/
theorem mono (h : Task.Progress localId localAddr n t₀ t) {n' : Node} (grows : Grows n n') :
    Task.Progress localId localAddr n' t₀ t := by
  cases h with
  | start => exact .start
  | checked origin => exact .checked origin
  | admitted origin admits => exact .admitted origin admits
  | filed files => exact .filed fun k f => grows k (files k f)
  | finished files => exact .finished fun k f => grows k (files k f)

/-- A call that adds a certificate's id started as a call that files it. -/
theorem files_of_add (h : Task.Progress localId localAddr n t₀ t) {cert : Certificate}
    (adding : t = .spreadAdd cert ∨ t = .evalCertificateAdd cert) (located : cert.locality ≠ []) :
    t₀.Files localId localAddr cert.subjectKeyId := by
  rcases adding with rfl | rfl
  · cases h with
    | start => exact ⟨rfl, located⟩
    | checked origin => subst origin; exact ⟨rfl, located⟩
  · cases h with
    | start => exact ⟨rfl, located⟩
    | admitted origin admits => subst origin; exact ⟨rfl, admits⟩

/-- `Spread`'s add step, for a call whose start files only the caller's id and only with a
locality. -/
theorem spreadAdd_step {cert : Certificate}
    (files : ∀ k, t₀.Files localId localAddr k → cert.subjectKeyId = k ∧ cert.locality ≠ []) :
    Task.Progress localId localAddr ((Task.spreadAdd cert).step n).2.1 t₀
      ((Task.spreadAdd cert).step n).1 := by
  simp only [Task.step]
  split
  next refused =>
    exact .finished fun k f => absurd ((newPeer_isSome cert).2 (files k f).2) (by simp [refused])
  next p built => exact .filed fun k f => (files k f).1 ▸ addFresh_files built

/-- `evalCertificate`'s add step, for a call whose start files only the certificate's id and only
with a locality. -/
theorem evalCertificateAdd_step {cert : Certificate}
    (files : ∀ k, t₀.Files localId localAddr k → cert.subjectKeyId = k ∧ cert.locality ≠ []) :
    Task.Progress localId localAddr ((Task.evalCertificateAdd cert).step n).2.1 t₀
      ((Task.evalCertificateAdd cert).step n).1 := by
  simp only [Task.step]
  split
  next refused =>
    exact .finished fun k f => absurd ((newPeer_isSome cert).2 (files k f).2) (by simp [refused])
  next p built => exact .finished fun k f => (files k f).1 ▸ addFresh_files built

/-- The step of the call itself moves it to its next phase. -/
theorem step (h : Task.Progress localId localAddr n t₀ t) (self : n.peerId = localId)
    (home : n.localAddr = localAddr) :
    Task.Progress localId localAddr (t.step n).2.1 t₀ (t.step n).1 := by
  cases h with
  | start =>
    cases t₀ with
    | spread cert =>
      simp only [Task.step]
      split
      next known => exact .finished fun k ⟨same, _⟩ => same ▸ by simpa [viewPeerExist] using known
      next => exact .checked rfl
    | spreadAdd cert => exact spreadAdd_step fun k f => f
    | spreadLive r => exact .finished fun k f => f.elim
    | evalCertificate cert =>
      have refused : ∀ {n' : Node}, ¬ Admits localId localAddr cert →
          Task.Progress localId localAddr n' (.evalCertificate cert) .done :=
        fun refused => .finished fun k f => absurd f.2 refused
      simp only [Task.step]
      split
      next located =>
        refine refused fun admits => ?_
        obtain ⟨⟨_, _, located', _⟩, _⟩ := admits
        simp_all
      next addr rest located =>
        split
        next atHome =>
          refine refused fun admits => ?_
          obtain ⟨⟨_, _, located', away⟩, _⟩ := admits
          simp_all
        next away =>
          split
          next named =>
            refine refused fun ⟨_, nonempty, own⟩ => ?_
            rcases named with empty | same
            · exact nonempty empty
            · exact own (self ▸ same).symm
          next named =>
            have admits : Admits localId localAddr cert :=
              ⟨⟨addr, rest, located, home ▸ away⟩, fun empty => named (.inl empty),
                fun own => named (.inr (self ▸ own.symm))⟩
            split
            next r found =>
              have filed : (n.viewMap.get? cert.subjectKeyId).isSome := by
                simp [show n.viewMap.get? cert.subjectKeyId = some r from found]
              exact .finished fun k ⟨same, _⟩ => same ▸ filed
            next => exact .admitted rfl admits
    | evalCertificateAdd cert => exact evalCertificateAdd_step fun k f => f
    | done => exact .start
  | checked origin => subst origin; exact spreadAdd_step fun k f => f
  | admitted origin admits =>
    subst origin
    exact evalCertificateAdd_step fun k ⟨same, _⟩ =>
      ⟨same, fun empty => by obtain ⟨⟨_, _, located, _⟩, _⟩ := admits; simp_all⟩
  | filed files => exact .finished files
  | finished files => exact .finished files

end Task.Progress

end Step

/-! ### A whole schedule -/

theorem interleave_cons (i : Nat) (schedule : List Nat) (tasks : List Task) (n : Node) :
    (interleave (i :: schedule) tasks n).1 = (interleave schedule
        (tasks.set i ((tasks.getD i .done).step n).1) ((tasks.getD i .done).step n).2.1).1 ∧
      (interleave (i :: schedule) tasks n).2.1 = (interleave schedule
        (tasks.set i ((tasks.getD i .done).step n).1) ((tasks.getD i .done).step n).2.1).2.1 :=
  ⟨rfl, rfl⟩

section Slots

variable {tasks : List Task} {i j : Nat}

theorem getD_set_self (t : Task) (lt : i < tasks.length) : (tasks.set i t).getD i .done = t := by
  simp [List.getElem?_set, lt]

theorem getD_set_of_ne (t : Task) (other : ¬ (j = i ∧ i < tasks.length)) :
    (tasks.set i t).getD j .done = tasks.getD j .done := by
  simp only [List.getD_eq_getElem?_getD, List.getElem?_set]
  split
  next same =>
    subst same
    have out : ¬ i < tasks.length := fun lt => other ⟨rfl, lt⟩
    rw [if_neg out, List.getElem?_eq_none (by simpa using out)]
  next => rfl

end Slots

/-- What a schedule keeps, from the calls `tasks₀` on the node `n₀`, in the calls `tasks` and the
node `n` it has reached: the phase of each call, the local id and address, every view entry of
`n₀`, and no view entry that neither `n₀` had nor a call files. -/
structure ScheduleInv (n₀ : Node) (tasks₀ tasks : List Task) (n : Node) : Prop where
  length : tasks.length = tasks₀.length
  self : n.peerId = n₀.peerId
  home : n.localAddr = n₀.localAddr
  grown : Grows n₀ n
  sound : ∀ k, (n.viewMap.get? k).isSome →
    (n₀.viewMap.get? k).isSome ∨ ∃ t ∈ tasks₀, t.Files n₀.peerId n₀.localAddr k
  progress : ∀ i,
    Task.Progress n₀.peerId n₀.localAddr n (tasks₀.getD i .done) (tasks.getD i .done)

namespace ScheduleInv

variable {n₀ n : Node} {tasks₀ tasks : List Task}

theorem initial (n : Node) (tasks : List Task) : ScheduleInv n tasks tasks n :=
  ⟨rfl, rfl, rfl, fun _ => id, fun _ => .inl, fun _ => .start⟩

/-- One entry of a schedule keeps it. -/
theorem step (h : ScheduleInv n₀ tasks₀ tasks n) (i : Nat) :
    ScheduleInv n₀ tasks₀ (tasks.set i ((tasks.getD i .done).step n).1)
      ((tasks.getD i .done).step n).2.1 := by
  obtain ⟨grows, self, home⟩ := Task.step_frame n (tasks.getD i .done)
  refine ⟨(List.length_set ..).trans h.length, self.trans h.self, home.trans h.home,
    fun k filed => grows k (h.grown k filed), fun k filed => ?_, fun j => ?_⟩
  · rcases Task.step_view _ filed with old | ⟨cert, adding, rfl, located⟩
    · exact h.sound _ old
    · -- the call that added the id is a call of the schedule, and started as one that files it
      have lt : i < tasks₀.length := by
        by_contra out
        rw [List.getD_eq_default _ _ (by have := h.length; omega)] at adding
        simp at adding
      refine .inr ⟨_, ?_, (h.progress i).files_of_add adding located⟩
      rw [List.getD_eq_getElem _ _ lt]
      exact List.getElem_mem lt
  · by_cases moved : j = i ∧ i < tasks.length
    · obtain ⟨rfl, lt⟩ := moved
      rw [getD_set_self _ lt]
      exact (h.progress j).step h.self h.home
    · rw [getD_set_of_ne _ moved]
      exact (h.progress j).mono grows

/-- A whole schedule keeps it. -/
theorem interleave (h : ScheduleInv n₀ tasks₀ tasks n) (schedule : List Nat) :
    ScheduleInv n₀ tasks₀ (Ifrit.interleave schedule tasks n).1
      (Ifrit.interleave schedule tasks n).2.1 := by
  induction schedule generalizing tasks n with
  | nil => exact h
  | cons i schedule ih =>
    rw [(interleave_cons i schedule tasks n).1, (interleave_cons i schedule tasks n).2]
    exact ih (h.step i)

end ScheduleInv

/-- Whatever the schedule of the locked view operations of concurrent `Spread` caller blocks and
`evalCertificate` calls, once every call has finished the view holds exactly the ids it held
before and the ids the calls would have filed alone: a schedule can file one id twice, but it
loses none and files none that no call was for. -/
theorem interleave_files_iff (tasks : List Task) (n : Node) (schedule : List Nat)
    (finished : ∀ t ∈ (interleave schedule tasks n).1, t = .done) (k : Bytes) :
    ((interleave schedule tasks n).2.1.viewMap.get? k).isSome ↔
      (n.viewMap.get? k).isSome ∨ ∃ t ∈ tasks, t.Files n.peerId n.localAddr k := by
  have h := (ScheduleInv.initial n tasks).interleave schedule
  refine ⟨h.sound k, fun filed => filed.elim (h.grown k) fun ⟨t, mem, files⟩ => ?_⟩
  obtain ⟨i, lt, rfl⟩ := List.getElem_of_mem mem
  have done : (interleave schedule tasks n).1.getD i .done = .done := by
    by_cases lt' : i < (interleave schedule tasks n).1.length
    · rw [List.getD_eq_getElem _ _ lt']
      exact finished _ (List.getElem_mem lt')
    · exact List.getD_eq_default _ _ (by omega)
  have progress := h.progress i
  rw [done, List.getD_eq_getElem _ _ lt] at progress
  generalize tasks[i] = t at progress files
  cases progress with
  | start => exact files.elim
  | finished filedAll => exact filedAll k files

/-- The two raced `Spread` calls for peer 3 leave its id in node 0's view. -/
theorem raced_spreads_file_caller :
    (∀ t ∈ racedSpreads.1, t = .done) ∧
      ((racedSpreads.2.1.viewMap.get? [3]).isSome ↔ (bootNode.viewMap.get? [3]).isSome ∨
        ∃ t ∈ [Task.spread (sampleCert 3 "n3"), .spread (sampleCert 3 "n3")],
          t.Files bootNode.peerId bootNode.localAddr [3]) :=
  have finished : ∀ t ∈ racedSpreads.1, t = .done := by decide
  ⟨finished, interleave_files_iff _ bootNode _ finished [3]⟩

end Ifrit
