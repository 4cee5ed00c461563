import Ifrit.Invariants

/-!
# The gossip data map

`addGossip` keeps the first blob stored under an id and drops every later one, whatever it
holds: the injected `cmpGossip` is never consulted. Replicas that receive the same blobs in
different orders therefore agree when each id carries one blob, and may differ otherwise. The
map `NewNode` leaves is nil, and there the first write panics, in every order alike.
-/

namespace Ifrit

open Node

/-- What the Go map `gossipDataMap` holds under `id`: `none` for the nil map. -/
def Node.gossipData (n : Node) (id : Bytes) : Option (Option Bytes) :=
  n.gossipDataMap.map (·.get? id)

/-- `addGossip` along a list of (id, data) pairs, in the order gossip delivers them. -/
def addGossipAll (n : Node) (items : List (Bytes × Bytes)) : Except String Node :=
  items.foldlM (fun n item => addGossip n item.2 item.1) n

/-- What `addGossip` keeps of a list on a map: the first blob of each id the map lacks. -/
def firstBlobs (m : GoMap Bytes) (items : List (Bytes × Bytes)) : GoMap Bytes :=
  items.foldl (fun m item => if (m.get? item.1).isSome then m else m.set item.1 item.2) m

/-- The first blob of `id` in a list. -/
def firstBlob (items : List (Bytes × Bytes)) (id : Bytes) : Option Bytes :=
  (items.find? (·.1 = id)).map (·.2)

theorem firstBlobs_get? (m : GoMap Bytes) (items : List (Bytes × Bytes)) (id : Bytes) :
    (firstBlobs m items).get? id = (m.get? id).or (firstBlob items id) := by
  induction items generalizing m with
  | nil => simp [firstBlobs, firstBlob]
  | cons item items ih =>
    simp only [firstBlobs, List.foldl_cons] at ih ⊢
    rw [ih]
    by_cases same : item.1 = id
    · subst same
      cases held : m.get? item.1 <;> simp [held, firstBlob]
    · have other : ¬ id = item.1 := fun h => same h.symm
      split <;> simp [other, firstBlob, List.find?_cons, same]

theorem addGossipAll_some (n : Node) (m : GoMap Bytes) (nonNil : n.gossipDataMap = some m)
    (items : List (Bytes × Bytes)) :
    addGossipAll n items = .ok { n with gossipDataMap := some (firstBlobs m items) } := by
  induction items generalizing n m with
  | nil => cases n; cases nonNil; rfl
  | cons item items ih =>
    have step : firstBlobs m (item :: items) = firstBlobs
        (if (m.get? item.1).isSome then m else m.set item.1 item.2) items := rfl
    rw [step, addGossipAll, List.foldlM_cons, addGossip, nonNil]
    by_cases held : (m.get? item.1).isSome
    · simp only [held, ↓reduceIte]
      exact ih n m nonNil
    · simp only [held, ↓reduceIte, Bool.false_eq_true]
      exact ih _ _ rfl

theorem addGossipAll_nil (n : Node) (isNil : n.gossipDataMap = none) (item : Bytes × Bytes)
    (items : List (Bytes × Bytes)) : addGossipAll n (item :: items) = .error errNilMapWrite := by
  simp [addGossipAll, addGossip, isNil, bind, Except.bind]

/-- In a list where each id carries one blob, the first blob of an id is its blob. -/
theorem firstBlob_eq_some {items : List (Bytes × Bytes)}
    (single : ∀ p ∈ items, ∀ q ∈ items, p.1 = q.1 → p.2 = q.2) (id data : Bytes) :
    firstBlob items id = some data ↔ (id, data) ∈ items := by
  constructor
  · intro first
    obtain ⟨x, found, rfl⟩ := Option.map_eq_some'.1 first
    have key : x.1 = id := by simpa using List.find?_some found
    exact key ▸ List.mem_of_find?_eq_some found
  · intro member
    cases found : items.find? (·.1 = id) with
    | none => exact absurd (List.find?_eq_none.1 found _ member) (by simp)
    | some x =>
      have key : x.1 = id := by simpa using List.find?_some found
      simp [firstBlob, found, single x (List.mem_of_find?_eq_some found) _ member key]

/-- Node 0 with a gossip data map that is not nil and holds nothing. -/
def gossipNode : Node := { bootNode with gossipDataMap := some ∅ }

/-- On a gossip data map that is not nil, `addGossip` along a list leaves under each id what the
map held, or else the first blob the list carries for it. -/
theorem addGossip_keeps_first_blob (n : Node) (m : GoMap Bytes)
    (nonNil : n.gossipDataMap = some m) (items : List (Bytes × Bytes)) (id : Bytes) :
    (addGossipAll n items).map (·.gossipData id) =
      .ok (some ((m.get? id).or (firstBlob items id))) := by
  rw [addGossipAll_some n m nonNil]
  simp [Except.map, Node.gossipData, firstBlobs_get?]

theorem gossip_node_keeps_first_blob :
    (addGossipAll gossipNode [([7], [1]), ([7], [2])]).map (·.gossipData [7]) =
      .ok (some (((∅ : GoMap Bytes).get? [7]).or (firstBlob [([7], [1]), ([7], [2])] [7]))) :=
  addGossip_keeps_first_blob gossipNode ∅ rfl _ _

/-- Two replicas with an empty gossip data map receive blobs 1 and 2 for id 7 in the two orders.
Each keeps the blob that arrived first, so the two hold different blobs, whichever of them
`cmpGossip` would pick. -/
theorem replicas_keep_first_arrival :
    (addGossipAll gossipNode [([7], [1]), ([7], [2])]).map (·.gossipData [7]) =
        .ok (some (some [1])) ∧
      (addGossipAll gossipNode [([7], [2]), ([7], [1])]).map (·.gossipData [7]) =
        .ok (some (some [2])) :=
  ⟨rfl, rfl⟩

/-- Two orderings of one list in which each id carries a single blob give the same gossip
data map under `addGossip`, nil or not. -/
theorem addGossip_order_independent (n : Node) (l₁ l₂ : List (Bytes × Bytes))
    (perm : l₁.Perm l₂) (single : ∀ p ∈ l₁, ∀ q ∈ l₁, p.1 = q.1 → p.2 = q.2) (id : Bytes) :
    (addGossipAll n l₁).map (·.gossipData id) = (addGossipAll n l₂).map (·.gossipData id) := by
  have single₂ : ∀ p ∈ l₂, ∀ q ∈ l₂, p.1 = q.1 → p.2 = q.2 :=
    fun p hp q hq => single p (perm.mem_iff.2 hp) q (perm.mem_iff.2 hq)
  have first : firstBlob l₁ id = firstBlob l₂ id := by
    ext data
    rw [Option.mem_def, Option.mem_def, firstBlob_eq_some single, firstBlob_eq_some single₂,
      perm.mem_iff]
  cases held : n.gossipDataMap with
  | none =>
    cases l₁ with
    | nil => rw [List.nil_perm.1 perm]
    | cons item items =>
      cases l₂ with
      | nil => exact absurd perm.length_eq (by simp)
      | cons item₂ items₂ => rw [addGossipAll_nil n held, addGossipAll_nil n held]
  | some m =>
    rw [addGossipAll_some n m held, addGossipAll_some n m held]
    simp [Except.map, Node.gossipData, firstBlobs_get?, first]

theorem addGossip_order_independent_pair :
    (addGossipAll gossipNode [([7], [1]), ([8], [2])]).map (·.gossipData [7]) =
      (addGossipAll gossipNode [([8], [2]), ([7], [1])]).map (·.gossipData [7]) :=
  addGossip_order_independent gossipNode _ _ (.swap _ _ _) (by decide) [7]

/-! ### AppendGossipData -/

/-- A reader over `content`, as `bytes.NewReader(content)` reads: it copies as much as fits
and answers `io.EOF` once nothing is left. -/
def bytesReader (content : Bytes) : Reader where
  read p :=
    if content = [] then (0, p, some "EOF")
    else
      let k := min p.length content.length
      (k, content.take k ++ p.drop k, none)

theorem bytesReader_lawful (content : Bytes) : (bytesReader content).Lawful := by
  intro p
  unfold bytesReader
  split
  · exact ⟨le_refl _, show (0 : Int) ≤ p.length by omega, rfl⟩
  · simp only [List.length_append, List.length_take, List.length_drop]; omega

theorem bytesReader_holds {content : Bytes} (ne : content ≠ []) : (bytesReader content).Holds := by
  intro p room
  have := List.length_pos.2 room
  have := List.length_pos.2 ne
  simp only [bytesReader, if_neg ne]
  omega

/-- `AppendGossipData` hands `Read` its nil slice, so a reader that keeps the contract reads
nothing: the call answers the reader's error or `errNoData` and leaves the node as it was. -/
theorem appendGossipData_reads_nothing (n : Node) (id : Bytes) (r : Reader) (lawful : r.Lawful) :
    appendGossipData n id r = .ok (some ((r.read []).2.2.getD errNoData), n) := by
  obtain ⟨nonneg, atMost, -⟩ := lawful []
  rcases read : r.read [] with ⟨numRead, bytes, _ | err⟩
  · simp only [read, List.length_nil, Nat.cast_zero] at nonneg atMost
    simp only [appendGossipData, read, if_pos (show numRead ≤ 0 by omega)]; rfl
  · simp only [appendGossipData, read]; rfl

theorem gossip_node_reads_nothing :
    appendGossipData gossipNode [5] (bytesReader [7]) =
      .ok (some (((bytesReader [7]).read []).2.2.getD errNoData), gossipNode) :=
  appendGossipData_reads_nothing gossipNode [5] (bytesReader [7]) (bytesReader_lawful [7])

/-- A reader holding the byte 7, on a node with a gossip data map: `AppendGossipData` answers
`errNoData`, and the next gossip message carries no data. -/
theorem appended_gossip_never_stored :
    (bytesReader [7]).Lawful ∧ (bytesReader [7]).Holds ∧
      appendGossipData gossipNode [5] (bytesReader [7]) = .ok (some errNoData, gossipNode) ∧
      (collectGossipContent gossipNode).data = [] :=
  ⟨bytesReader_lawful [7], bytesReader_holds (by decide), rfl, rfl⟩

end Ifrit
