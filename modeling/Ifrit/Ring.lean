import Mathlib.Data.List.Sort

/-!
# Ring order (sort.go)

A ring is a slice of ring ids kept in order by `cmpId`. `insert` finds the slot of a new id by a
binary search and shifts the tail right with `append` and an overlapping `copy`. `search`
finds the slot of an id by a second binary search, written separately. Both loops keep
`currIdx` and `maxIdx` in Go's `int`, which is `Int` here, and read the slice only through
`slice[i]`. That read, the store `slice[i] = v` and the reslice `slice[low:]` panic outside the
slice, so a result `.ok` says that no access left it. Both loops terminate by their own
definitions, on the measure `maxIdx - currIdx`.

`cmpId` is a parameter: the results either hold for every function or assume a total
preorder (`CmpPreorder`), or a total order (`CmpOrder`), answered by sign. `nil` is the zero
value that `append(slice, nil)` adds.

Whatever `cmpId` answers, `insert` returns `s[:i] ++ [newId] ++ s[i:]` with `0 ≤ i ≤ len(s)`.
On a sorted slice, `i` is the lower bound of `newId`. On a nonempty slice `search` never
panics, and on a sorted one it finds an equal element whenever there is one. On the empty
slice it reads `slice[0]` and panics. Over a run of inserts of fresh ids (`insertAll`) the
ring stays strictly increasing, and `search` finds every id it holds.
-/

namespace Ifrit.Ring

/-- A Go runtime panic of the slice operations sort.go uses. -/
inductive Panic where
  /-- `slice[i]` with `i` outside `[0, len)`: "index out of range [i] with length len". -/
  | indexOutOfRange (index : Int) (length : Nat)
  /-- `slice[low:]` with `low` outside `[0, len]`: "slice bounds out of range [low:len]". -/
  | sliceBoundsOutOfRange (low : Int) (length : Nat)
  deriving DecidableEq, Repr

def errIdNotFound : String := "ring id not found"

variable {α : Type}

/-! ### Slice operations -/

/-- `slice[i]`, read. -/
def index (slice : List α) (i : Int) : Except Panic α :=
  if h : 0 ≤ i ∧ i < slice.length then .ok slice[i.toNat]
  else .error (.indexOutOfRange i slice.length)

/-- `slice[i] = v`. -/
def setIndex (slice : List α) (i : Int) (v : α) : Except Panic (List α) :=
  if 0 ≤ i ∧ i < slice.length then .ok (slice.set i.toNat v)
  else .error (.indexOutOfRange i slice.length)

/-- `slice[low:]`. -/
def sliceFrom (slice : List α) (low : Int) : Except Panic (List α) :=
  if 0 ≤ low ∧ low ≤ slice.length then .ok (slice.drop low.toNat)
  else .error (.sliceBoundsOutOfRange low slice.length)

/-- `copy(slice[dst:], slice[src:])` between two windows of one slice. Go's `copy` moves as
many elements as the shorter window holds and handles the overlap as `memmove` does: every
element is read before it is overwritten. -/
def copyWithin (slice : List α) (dst src : Int) : Except Panic (List α) := do
  let dstWindow ← sliceFrom slice dst
  let srcWindow ← sliceFrom slice src
  let k := min dstWindow.length srcWindow.length
  return slice.take dst.toNat ++ srcWindow.take k ++ slice.drop (dst.toNat + k)

theorem index_eq {s : List α} {i : Int} (h0 : 0 ≤ i) (hl : i < s.length) :
    index s i = .ok s[i.toNat] := by
  simp [index, h0, hl]

theorem setIndex_eq {s : List α} {i : Int} (v : α) (h0 : 0 ≤ i) (hl : i < s.length) :
    setIndex s i v = .ok (s.set i.toNat v) := by
  simp [setIndex, h0, hl]

theorem sliceFrom_eq {s : List α} {low : Int} (h0 : 0 ≤ low) (hl : low ≤ s.length) :
    sliceFrom s low = .ok (s.drop low.toNat) := by
  simp [sliceFrom, h0, hl]

theorem index_eq_ok {s : List α} {i : Int} {x : α} :
    index s i = .ok x ↔ ∃ h : 0 ≤ i ∧ i < s.length, s[i.toNat] = x := by
  unfold index; split <;> simp_all

theorem index_mem {s : List α} {i : Int} {x : α} (read : index s i = .ok x) : x ∈ s := by
  obtain ⟨_, rfl⟩ := index_eq_ok.1 read
  exact List.getElem_mem _

theorem index_inj {s : List α} (nodup : s.Nodup) {i j : Int} {x : α} (at_i : index s i = .ok x)
    (at_j : index s j = .ok x) : i = j := by
  obtain ⟨⟨hi0, hi⟩, rfl⟩ := index_eq_ok.1 at_i
  obtain ⟨⟨hj0, hj⟩, same⟩ := index_eq_ok.1 at_j
  have := nodup.getElem_inj_iff.1 same
  omega

/-- `newId` spliced in at `i` is read back at `i`. -/
theorem index_splice {s : List α} {newId : α} {i : Int} (h0 : 0 ≤ i) (hi : i ≤ s.length) :
    index (s.take i.toNat ++ newId :: s.drop i.toNat) i = .ok newId := by
  have prefix_length : (s.take i.toNat).length = i.toNat := by rw [List.length_take]; omega
  have within : i < (s.take i.toNat ++ newId :: s.drop i.toNat).length := by
    simp only [List.length_append, List.length_cons, prefix_length, List.length_drop]; omega
  exact index_eq_ok.2 ⟨⟨h0, within⟩, List.getElem_of_append rfl prefix_length⟩

/-- Splicing `newId` in anywhere permutes `newId :: s`. -/
theorem perm_splice (s : List α) (newId : α) (k : Nat) :
    (s.take k ++ newId :: s.drop k).Perm (newId :: s) := by
  have middle : (s.take k ++ newId :: s.drop k).Perm (newId :: (s.take k ++ s.drop k)) :=
    List.perm_middle
  rwa [List.take_append_drop] at middle

/-- `append(slice, nil)` then `copy(slice[k+1:], slice[k:])` duplicates the element at `k`. -/
theorem copyWithin_shift (nil : α) (pre rest : List α) (x : α) :
    copyWithin (pre ++ x :: rest ++ [nil]) ((pre.length : Int) + 1) pre.length =
      .ok (pre ++ x :: x :: rest) := by
  have len : (pre ++ x :: rest ++ [nil]).length = pre.length + rest.length + 2 := by
    simp only [List.length_append, List.length_cons, List.length_nil]; omega
  rw [copyWithin, sliceFrom_eq (by omega) (by omega), sliceFrom_eq (by omega) (by omega)]
  simp [bind, Except.bind, pure, Except.pure, List.take_append_eq_append_take,
    List.drop_append_eq_append_drop, List.take_of_length_le, List.drop_eq_nil_of_le]
  omega

/-! ### The probe and the window -/

/-- `(currIdx + maxIdx) / 2` with Go's truncating division lies in the window, so both halves
shrink: this is the termination argument of both loops. -/
theorem mid_mem {c m : Int} (lt : c < m) : c ≤ (c + m).tdiv 2 ∧ (c + m).tdiv 2 ≤ m := by
  rcases le_or_lt 0 (c + m) with nonneg | neg
  · rw [Int.tdiv_eq_ediv nonneg (by decide)]; omega
  · have := Int.tdiv_eq_ediv (a := -(c + m)) (b := 2) (by omega) (by decide)
    rw [Int.neg_tdiv] at this
    omega

theorem mid_lt {c m : Int} (nonneg : 0 ≤ c) (lt : c < m) :
    c ≤ (c + m).tdiv 2 ∧ (c + m).tdiv 2 < m := by
  rw [Int.tdiv_eq_ediv (by omega) (by decide)]; omega

/-- The window of both loops: `currIdx` is a slot of the slice and `maxIdx` lies left of its
end. It holds whatever `cmpId` answers. -/
structure Window (len : Nat) (currIdx maxIdx : Int) : Prop where
  start : 0 ≤ currIdx
  curr_lt : currIdx < len
  max_lt : maxIdx < len

namespace Window

variable {len : Nat} {c m : Int}

theorem initial (ne : 0 < len) : Window len 0 (len - 1) := ⟨le_refl _, by omega, by omega⟩

/-- The probe `mid` of an open window is a slot of the slice. -/
theorem probe (w : Window len c m) (lt : ¬c ≥ m) :
    0 ≤ (c + m).tdiv 2 ∧ (c + m).tdiv 2 < len := by
  have := mid_lt w.start (not_le.1 lt); have := w.start; have := w.max_lt; omega

theorem right (w : Window len c m) (lt : ¬c ≥ m) : Window len ((c + m).tdiv 2 + 1) m := by
  have := mid_lt w.start (not_le.1 lt); have := w.start; have := w.max_lt
  exact ⟨by omega, by omega, w.max_lt⟩

theorem left (w : Window len c m) (lt : ¬c ≥ m) : Window len c ((c + m).tdiv 2 - 1) := by
  have := mid_lt w.start (not_le.1 lt); have := w.max_lt
  exact ⟨w.start, w.curr_lt, by omega⟩

end Window

/-! ### insert and search -/

section Loops

variable (cmpId : α → α → Int) (nil : α)

/-- The loop of `insert`, from `currIdx` and `maxIdx`. -/
def insertLoop (slice : List α) (newId : α) (currIdx maxIdx : Int) :
    Except Panic (List α × Int) :=
  if currIdx ≥ maxIdx then do
    let slice := slice ++ [nil]
    let slice ← copyWithin slice (currIdx + 1) currIdx
    let currIdx := if cmpId (← index slice currIdx) newId = -1 then currIdx + 1 else currIdx
    let slice ← setIndex slice currIdx newId
    return (slice, currIdx)
  else do
    let mid := (currIdx + maxIdx).tdiv 2
    if cmpId (← index slice mid) newId = -1 then insertLoop slice newId (mid + 1) maxIdx
    else insertLoop slice newId currIdx (mid - 1)
termination_by (maxIdx - currIdx).toNat
decreasing_by all_goals have := mid_mem (c := currIdx) (m := maxIdx) (by omega); omega

def insert (slice : List α) (newId : α) : Except Panic (List α × Int) :=
  let length := slice.length
  let currIdx : Int := 0
  let maxIdx : Int := length - 1
  if maxIdx = -1 then .ok (slice ++ [newId], currIdx)
  else insertLoop cmpId nil slice newId currIdx maxIdx

/-- The loop of `search`, from `currIdx` and `maxIdx`. -/
def searchLoop (slice : List α) (searchId : α) (currIdx maxIdx : Int) :
    Except Panic (Int × Option String) :=
  if currIdx ≥ maxIdx then do
    if cmpId (← index slice currIdx) searchId = 0 then return (currIdx, none)
    else return (-1, some errIdNotFound)
  else do
    let mid := (currIdx + maxIdx).tdiv 2
    let cmp := cmpId (← index slice mid) searchId
    if cmp = -1 then searchLoop slice searchId (mid + 1) maxIdx
    else if cmp = 1 then searchLoop slice searchId currIdx (mid - 1)
    else return (mid, none)
termination_by (maxIdx - currIdx).toNat
decreasing_by all_goals have := mid_mem (c := currIdx) (m := maxIdx) (by omega); omega

def search (slice : List α) (searchId : α) : Except Panic (Int × Option String) :=
  let length := slice.length
  searchLoop cmpId slice searchId 0 (length - 1)

/-- A run of the ring as a store: one `insert` after another, each into the slice the one
before returned. -/
def insertAll (slice : List α) : List α → Except Panic (List α)
  | [] => .ok slice
  | newId :: ids => do
    let (slice, _) ← insert cmpId nil slice newId
    insertAll slice ids

/-- The exit of the insertion loop: the tail from `currIdx` moves one slot right, and `newId`
lands at `currIdx`, or one slot further when `slice[currIdx]` is below it. -/
theorem insertLoop_exit {s : List α} {newId : α} {c m : Int} (h0 : 0 ≤ c) (hl : c < s.length)
    (exit : c ≥ m) :
    insertLoop cmpId nil s newId c m =
      let i := if cmpId s[c.toNat] newId = -1 then c + 1 else c
      .ok (s.take i.toNat ++ newId :: s.drop i.toNat, i) := by
  obtain ⟨k, rfl⟩ := Int.eq_ofNat_of_zero_le h0
  obtain ⟨pre, x, rest, rfl, rfl⟩ : ∃ pre x rest, s = pre ++ x :: rest ∧ pre.length = k :=
    ⟨s.take k, s[k], s.drop (k + 1), by simp, by rw [List.length_take]; omega⟩
  rw [insertLoop, if_pos exit]
  have len : (pre ++ x :: x :: rest).length = pre.length + rest.length + 2 := by
    simp only [List.length_append, List.length_cons]; omega
  have read : index (pre ++ x :: x :: rest) pre.length = .ok x :=
    index_eq_ok.2 ⟨⟨by omega, by omega⟩, List.getElem_of_append rfl (Int.toNat_ofNat _).symm⟩
  simp only [copyWithin_shift, Int.toNat_ofNat, List.getElem_of_append rfl rfl, bind,
    Except.bind, read]
  by_cases below : cmpId x newId = -1
  · rw [if_pos below, setIndex_eq _ (by omega) (by omega)]
    simp [pure, Except.pure, List.take_append_eq_append_take, List.take_of_length_le]
  · rw [if_neg below, setIndex_eq _ (by omega) (by omega)]
    simp [pure, Except.pure]

theorem insertLoop_step {s : List α} {newId : α} {c m : Int} (lt : ¬c ≥ m)
    (h0 : 0 ≤ (c + m).tdiv 2) (hl : (c + m).tdiv 2 < s.length) :
    insertLoop cmpId nil s newId c m =
      if cmpId s[((c + m).tdiv 2).toNat] newId = -1 then
        insertLoop cmpId nil s newId ((c + m).tdiv 2 + 1) m
      else insertLoop cmpId nil s newId c ((c + m).tdiv 2 - 1) := by
  rw [insertLoop, if_neg lt]
  simp only [bind, Except.bind, index_eq h0 hl]

theorem searchLoop_exit {s : List α} {searchId : α} {c m : Int} (exit : c ≥ m) (h0 : 0 ≤ c)
    (hl : c < s.length) :
    searchLoop cmpId s searchId c m =
      .ok (if cmpId s[c.toNat] searchId = 0 then (c, none) else (-1, some errIdNotFound)) := by
  rw [searchLoop, if_pos exit]
  simp only [bind, Except.bind, index_eq h0 hl]
  exact (apply_ite Except.ok _ _ _).symm

theorem searchLoop_step {s : List α} {searchId : α} {c m : Int} (lt : ¬c ≥ m)
    (h0 : 0 ≤ (c + m).tdiv 2) (hl : (c + m).tdiv 2 < s.length) :
    searchLoop cmpId s searchId c m =
      if cmpId s[((c + m).tdiv 2).toNat] searchId = -1 then
        searchLoop cmpId s searchId ((c + m).tdiv 2 + 1) m
      else if cmpId s[((c + m).tdiv 2).toNat] searchId = 1 then
        searchLoop cmpId s searchId c ((c + m).tdiv 2 - 1)
      else .ok ((c + m).tdiv 2, none) := by
  rw [searchLoop, if_neg lt]
  simp only [bind, Except.bind, index_eq h0 hl]
  rfl

/-- `i` is the lower bound of `newId` in `s`: exactly the slots left of `i` are below it. -/
def LowerBound (s : List α) (newId : α) (i : Int) : Prop :=
  ∀ (j : Nat) (h : j < s.length), (j : Int) < i ↔ cmpId s[j] newId = -1

/-- The invariant of the insertion loop on a sorted slice: the slots left of `currIdx` are
below `newId` and those right of `maxIdx` are not. -/
def Bounds (s : List α) (newId : α) (c m : Int) : Prop :=
  ∀ (j : Nat) (h : j < s.length), ((j : Int) < c → cmpId s[j] newId = -1) ∧
    (m < j → cmpId s[j] newId ≠ -1)

/-- The invariant of the search loop on a sorted slice: every slot that compares equal to
`searchId` lies in `[currIdx, maxIdx]`. -/
def Covers (s : List α) (searchId : α) (c m : Int) : Prop :=
  ∀ (j : Nat) (h : j < s.length), cmpId s[j] searchId = 0 → c ≤ j ∧ j ≤ m

end Loops

/-! ### The comparator -/

/-- A total preorder answered by sign, as `big.Int`'s `Cmp` answers: `-1` below, `0` equal,
`1` above. -/
structure CmpPreorder (cmpId : α → α → Int) : Prop where
  range : ∀ a b, cmpId a b = -1 ∨ cmpId a b = 0 ∨ cmpId a b = 1
  swap : ∀ a b, cmpId b a = -cmpId a b
  le_trans : ∀ a b c, cmpId a b ≠ 1 → cmpId b c ≠ 1 → cmpId a c ≠ 1

/-- A total order: only an id compares equal to itself. -/
structure CmpOrder (cmpId : α → α → Int) extends CmpPreorder cmpId : Prop where
  eq_of_cmp : ∀ a b, cmpId a b = 0 → a = b

namespace CmpPreorder

variable {cmpId : α → α → Int} (pre : CmpPreorder cmpId)
include pre

theorem refl (a : α) : cmpId a a = 0 := by
  have := pre.swap a a; omega

theorem lt_of_le_of_lt {a b c : α} (ab : cmpId a b ≠ 1) (bc : cmpId b c = -1) :
    cmpId a c = -1 := by
  by_contra ac
  have := pre.le_trans c a b (by rw [pre.swap]; omega) ab
  rw [pre.swap] at this; omega

theorem lt_of_lt_of_le {a b c : α} (ab : cmpId a b = -1) (bc : cmpId b c ≠ 1) :
    cmpId a c = -1 := by
  by_contra ac
  have := pre.le_trans b c a bc (by rw [pre.swap]; omega)
  rw [pre.swap] at this; omega

theorem eq_zero {a b : α} (notBelow : cmpId a b ≠ -1) (notAbove : cmpId a b ≠ 1) :
    cmpId a b = 0 := by
  have := pre.range a b; omega

theorem nodup {s : List α} (increasing : s.Sorted (fun a b => cmpId a b = -1)) : s.Nodup :=
  increasing.imp fun below same => by rw [same, pre.refl] at below; exact absurd below (by decide)

theorem sorted_le {s : List α} (sorted : s.Sorted (fun a b => cmpId a b ≠ 1)) {j k : Nat}
    (hj : j < s.length) (hk : k < s.length) (jk : j ≤ k) : cmpId s[j] s[k] ≠ 1 := by
  rcases jk.lt_or_eq with lt | rfl
  · exact List.pairwise_iff_getElem.1 sorted j k hj hk lt
  · rw [pre.refl]; decide

end CmpPreorder

/-- Modelled from the spec: `ringId.cmpId` compares ring positions, which are big integers,
numerically, answering as `big.Int`'s `Cmp` does. -/
def cmpPosition (a b : Int) : Int := if a < b then -1 else if a = b then 0 else 1

theorem cmpPosition_ne_one {a b : Int} : cmpPosition a b ≠ 1 ↔ a ≤ b := by
  unfold cmpPosition; split_ifs <;> omega

theorem cmpPosition_order : CmpOrder cmpPosition where
  range a b := by unfold cmpPosition; split_ifs <;> omega
  swap a b := by unfold cmpPosition; split_ifs <;> omega
  le_trans a b c ab bc :=
    cmpPosition_ne_one.2 (Int.le_trans (cmpPosition_ne_one.1 ab) (cmpPosition_ne_one.1 bc))
  eq_of_cmp a b eq := by unfold cmpPosition at eq; split_ifs at eq <;> omega

/-! ### The loops, step by step -/

section Correctness

variable {cmpId : α → α → Int} {s : List α} {newId : α} {c m : Int}

theorem Bounds.initial : Bounds cmpId s newId 0 (s.length - 1) :=
  fun _ _ => ⟨fun lt => absurd lt (by omega), fun gt => absurd gt (by omega)⟩

/-- Below `newId` at the probe `k`: so is every slot up to `k`. -/
theorem Bounds.right (pre : CmpPreorder cmpId) (sorted : s.Sorted (fun a b => cmpId a b ≠ 1))
    (b : Bounds cmpId s newId c m) {k : Int} (h0 : 0 ≤ k) (hl : k < s.length)
    (below : cmpId s[k.toNat] newId = -1) : Bounds cmpId s newId (k + 1) m :=
  fun j hj =>
    ⟨fun lt => pre.lt_of_le_of_lt (pre.sorted_le sorted hj _ (by omega)) below, (b j hj).2⟩

/-- Not below `newId` at the probe `k`: neither is any slot from `k` on. -/
theorem Bounds.left (pre : CmpPreorder cmpId) (sorted : s.Sorted (fun a b => cmpId a b ≠ 1))
    (b : Bounds cmpId s newId c m) {k : Int} (h0 : 0 ≤ k) (hl : k < s.length)
    (notBelow : cmpId s[k.toNat] newId ≠ -1) : Bounds cmpId s newId c (k - 1) :=
  fun j hj => ⟨(b j hj).1, fun _ below =>
    notBelow (pre.lt_of_le_of_lt (pre.sorted_le sorted _ hj (by omega)) below)⟩

/-- At the exit `maxIdx ≤ currIdx` the one comparison left decides the lower bound. -/
theorem Bounds.exit (b : Bounds cmpId s newId c m) (exit : c ≥ m) (h0 : 0 ≤ c)
    (hl : c < s.length) :
    LowerBound cmpId s newId (if cmpId s[c.toNat] newId = -1 then c + 1 else c) := by
  intro j hj
  have side := b j hj
  by_cases below : cmpId s[c.toNat] newId = -1
  · rw [if_pos below]
    refine ⟨fun lt => ?_, fun bj => by_contra fun ge => side.2 (by omega) bj⟩
    rcases (by omega : (j : Int) < c ∨ j = c.toNat) with lt | rfl
    · exact side.1 lt
    · exact below
  · rw [if_neg below]
    refine ⟨side.1, fun bj => by_contra fun ge => ?_⟩
    rcases (by omega : m < j ∨ j = c.toNat) with gt | rfl
    · exact side.2 gt bj
    · exact below bj

/-- The insertion loop from any window returns the slice with `newId` spliced in at a slot
`i`, whatever `cmpId` answers; on a sorted slice, from a window that keeps `Bounds`, `i` is
the lower bound. -/
theorem insertLoop_spec (nil newId : α) (w : Window s.length c m) :
    ∃ i : Int, 0 ≤ i ∧ i ≤ s.length ∧
      insertLoop cmpId nil s newId c m = .ok (s.take i.toNat ++ newId :: s.drop i.toNat, i) ∧
      (CmpPreorder cmpId → s.Sorted (fun a b => cmpId a b ≠ 1) → Bounds cmpId s newId c m →
        LowerBound cmpId s newId i) := by
  induction c, m using insertLoop.induct cmpId nil s newId with
  | case1 c m exit =>
    rw [insertLoop_exit cmpId nil w.start w.curr_lt exit]
    have := w.curr_lt; have := w.start
    refine ⟨_, ?_, ?_, rfl, fun _ _ b => b.exit exit w.start w.curr_lt⟩ <;>
      by_cases below : cmpId s[c.toNat] newId = -1 <;>
        simp only [below, if_true, if_false] <;> omega
  | case2 c m lt mid right left =>
    obtain ⟨h0, hl⟩ := w.probe lt
    rw [insertLoop_step cmpId nil lt h0 hl]
    by_cases below : cmpId s[mid.toNat] newId = -1
    · rw [if_pos below]
      obtain ⟨i, h0', hi, eq, lb⟩ := right (w.right lt)
      exact ⟨i, h0', hi, eq, fun pre sorted b => lb pre sorted (b.right pre sorted h0 hl below)⟩
    · rw [if_neg below]
      obtain ⟨i, h0', hi, eq, lb⟩ := left (w.left lt)
      exact ⟨i, h0', hi, eq, fun pre sorted b => lb pre sorted (b.left pre sorted h0 hl below)⟩

theorem insert_spec (nil : α) (s : List α) (newId : α) :
    ∃ i : Int, 0 ≤ i ∧ i ≤ s.length ∧
      insert cmpId nil s newId = .ok (s.take i.toNat ++ newId :: s.drop i.toNat, i) ∧
      (CmpPreorder cmpId → s.Sorted (fun a b => cmpId a b ≠ 1) → LowerBound cmpId s newId i) := by
  rcases Nat.eq_zero_or_pos s.length with empty | ne
  · obtain rfl := List.length_eq_zero.1 empty
    exact ⟨0, le_refl _, le_refl _, rfl, fun _ _ j hj => absurd hj (by simp)⟩
  · obtain ⟨i, h0, hi, eq, lb⟩ := insertLoop_spec nil newId (Window.initial ne)
    refine ⟨i, h0, hi, ?_, fun pre sorted => lb pre sorted Bounds.initial⟩
    rw [insert, if_neg (by omega), eq]

example : insert cmpPosition 0 [1, 5] 3 = .ok ([1, 3, 5], 1) := by
  rw [insert, if_neg (by decide), insertLoop_step _ _ (by decide) (by decide) (by decide),
    if_pos (by decide), insertLoop_exit _ _ (by decide) (by decide) (by decide)]
  rfl

/-- Splicing `newId` in at its lower bound keeps a slice ordered by any relation `R` that the
elements below `newId` bear to it and that it bears to the elements of `s` not below it. -/
theorem LowerBound.pairwise_insert {R : α → α → Prop} (sorted : s.Pairwise R) {i : Int}
    (lb : LowerBound cmpId s newId i) (h0 : 0 ≤ i) (before : ∀ a, cmpId a newId = -1 → R a newId)
    (after : ∀ b ∈ s, cmpId b newId ≠ -1 → R newId b) :
    (s.take i.toNat ++ newId :: s.drop i.toNat).Pairwise R := by
  have whole := sorted
  rw [← List.take_append_drop i.toNat s, List.pairwise_append] at whole
  rw [List.pairwise_append, List.pairwise_cons]
  refine ⟨whole.1, ⟨fun b hb => after b (List.mem_of_mem_drop hb) fun below => ?_, whole.2.1⟩,
    fun a ha b hb => ?_⟩
  · obtain ⟨j, hj, rfl⟩ := List.mem_drop_iff_getElem.1 hb
    have := (lb (i.toNat + j) (by omega)).2 below
    omega
  · obtain ⟨j, hj, rfl⟩ := List.mem_take_iff_getElem.1 ha
    rcases List.mem_cons.1 hb with rfl | hb
    · exact before _ ((lb j _).1 (by omega))
    · exact whole.2.2 _ ha b hb

theorem LowerBound.sorted_insert (pre : CmpPreorder cmpId)
    (sorted : s.Sorted (fun a b => cmpId a b ≠ 1)) {i : Int} (lb : LowerBound cmpId s newId i)
    (h0 : 0 ≤ i) : (s.take i.toNat ++ newId :: s.drop i.toNat).Sorted (fun a b => cmpId a b ≠ 1) :=
  lb.pairwise_insert sorted h0 (fun _ below => by omega) fun b _ notBelow => by rw [pre.swap]; omega

/-- Under a total order, splicing a fresh `newId` in at its lower bound keeps a strictly
increasing slice strictly increasing. -/
theorem LowerBound.increasing_insert (ord : CmpOrder cmpId)
    (increasing : s.Sorted (fun a b => cmpId a b = -1)) (fresh : newId ∉ s) {i : Int}
    (lb : LowerBound cmpId s newId i) (h0 : 0 ≤ i) :
    (s.take i.toNat ++ newId :: s.drop i.toNat).Sorted (fun a b => cmpId a b = -1) :=
  lb.pairwise_insert increasing h0 (fun _ below => below) fun b mem notBelow => by
    have : cmpId b newId ≠ 0 := fun eq => fresh (ord.eq_of_cmp b newId eq ▸ mem)
    have := ord.range b newId
    rw [ord.swap]; omega

theorem Covers.initial {searchId : α} : Covers cmpId s searchId 0 (s.length - 1) :=
  fun _ hj _ => ⟨by omega, by omega⟩

/-- Below `searchId` at the probe `k`: no slot up to `k` compares equal. -/
theorem Covers.right (pre : CmpPreorder cmpId) (sorted : s.Sorted (fun a b => cmpId a b ≠ 1))
    {searchId : α} (cv : Covers cmpId s searchId c m) {k : Int} (h0 : 0 ≤ k) (hl : k < s.length)
    (below : cmpId s[k.toNat] searchId = -1) : Covers cmpId s searchId (k + 1) m := by
  intro j hj eq
  refine ⟨by_contra fun le => ?_, (cv j hj eq).2⟩
  have := pre.lt_of_le_of_lt (pre.sorted_le sorted hj _ (by omega)) below
  omega

/-- Above `searchId` at the probe `k`: no slot from `k` on compares equal. -/
theorem Covers.left (pre : CmpPreorder cmpId) (sorted : s.Sorted (fun a b => cmpId a b ≠ 1))
    {searchId : α} (cv : Covers cmpId s searchId c m) {k : Int} (h0 : 0 ≤ k) (hl : k < s.length)
    (above : cmpId s[k.toNat] searchId = 1) : Covers cmpId s searchId c (k - 1) := by
  intro j hj eq
  refine ⟨(cv j hj eq).1, by_contra fun le => ?_⟩
  have := pre.lt_of_lt_of_le (by rw [pre.swap, above]) (pre.sorted_le sorted _ hj (by omega))
  rw [pre.swap] at this
  omega

/-- The search loop from any window returns without a panic, whatever `cmpId` answers: either
not found, or `(i, nil)` at a slot whose comparison is neither `-1` nor `1`. On a sorted slice,
from a window that keeps `Covers`, it does not miss a slot that compares equal. -/
theorem searchLoop_spec (cmpId : α → α → Int) (searchId : α) (w : Window s.length c m) :
    ∃ r, searchLoop cmpId s searchId c m = .ok r ∧
      (r = (-1, some errIdNotFound) ∨
        r.2 = none ∧ ∃ x, index s r.1 = .ok x ∧ cmpId x searchId ≠ -1 ∧ cmpId x searchId ≠ 1) ∧
      (CmpPreorder cmpId → s.Sorted (fun a b => cmpId a b ≠ 1) → Covers cmpId s searchId c m →
        (∃ (j : Nat) (h : j < s.length), cmpId s[j] searchId = 0) →
        r ≠ (-1, some errIdNotFound)) := by
  induction c, m using searchLoop.induct cmpId s searchId with
  | case1 c m exit =>
    rw [searchLoop_exit cmpId exit w.start w.curr_lt]
    have := w.start; have := w.curr_lt
    by_cases eq : cmpId s[c.toNat] searchId = 0
    · rw [if_pos eq]
      exact ⟨_, rfl, .inr ⟨rfl, _, index_eq w.start w.curr_lt, by omega, by omega⟩,
        fun _ _ _ _ => by simp⟩
    · rw [if_neg eq]
      refine ⟨_, rfl, .inl rfl, fun _ _ cv ⟨j, hj, match_⟩ => absurd ?_ eq⟩
      have := cv j hj match_
      obtain rfl : j = c.toNat := by omega
      exact match_
  | case2 c m lt mid right left =>
    obtain ⟨h0, hl⟩ := w.probe lt
    rw [searchLoop_step cmpId lt h0 hl]
    by_cases below : cmpId s[mid.toNat] searchId = -1
    · rw [if_pos below]
      obtain ⟨r, eq, answer, found⟩ := right (w.right lt)
      exact ⟨r, eq, answer, fun pre sorted cv => found pre sorted (cv.right pre sorted h0 hl below)⟩
    by_cases above : cmpId s[mid.toNat] searchId = 1
    · rw [if_neg below, if_pos above]
      obtain ⟨r, eq, answer, found⟩ := left (w.left lt)
      exact ⟨r, eq, answer, fun pre sorted cv => found pre sorted (cv.left pre sorted h0 hl above)⟩
    · rw [if_neg below, if_neg above]
      exact ⟨_, rfl, .inr ⟨rfl, _, index_eq h0 hl, below, above⟩, fun _ _ _ _ => by simp⟩

/-- On a sorted slice with an element equal to `searchId`, `search` answers `(i, nil)` at a
slot that compares equal. -/
theorem search_hit (pre : CmpPreorder cmpId) (sorted : s.Sorted (fun a b => cmpId a b ≠ 1))
    {searchId : α} (match_ : ∃ x ∈ s, cmpId x searchId = 0) :
    ∃ i, search cmpId s searchId = .ok (i, none) ∧
      ∃ x, index s i = .ok x ∧ cmpId x searchId = 0 := by
  obtain ⟨x, mem, eq⟩ := match_
  obtain ⟨j, hj, rfl⟩ := List.mem_iff_getElem.1 mem
  obtain ⟨r, run, answer, found⟩ :=
    searchLoop_spec cmpId searchId (Window.initial (List.length_pos_of_mem mem))
  rcases answer with missed | ⟨none_, y, read, notBelow, notAbove⟩
  · exact absurd missed (found pre sorted Covers.initial ⟨j, hj, eq⟩)
  · exact ⟨r.1, by rw [search, run, ← none_], y, read, pre.eq_zero notBelow notAbove⟩

example : search cmpPosition [1, 3, 5] 5 = .ok (2, none) := by
  rw [search, searchLoop_step _ (by decide) (by decide) (by decide), if_pos (by decide),
    searchLoop_exit _ (by decide) (by decide) (by decide)]
  rfl

/-- Under a total order, `search` finds every element of a sorted slice at its own slot. -/
theorem search_finds (ord : CmpOrder cmpId) (sorted : s.Sorted (fun a b => cmpId a b ≠ 1))
    {x : α} (mem : x ∈ s) : ∃ j, search cmpId s x = .ok (j, none) ∧ index s j = .ok x := by
  obtain ⟨j, found, y, read, eq⟩ := search_hit ord.toCmpPreorder sorted ⟨x, mem, ord.refl x⟩
  exact ⟨j, found, ord.eq_of_cmp y x eq ▸ read⟩

end Correctness

/-! ### insert and search, whole -/

section WholeCalls

variable (cmpId : α → α → Int) (nil : α)

/-- Whatever `cmpId` answers, `insert` returns without a panic the slice with `newId` spliced
in at a slot `i` of `[0, len(s)]`; on a slice sorted by a total preorder the result is sorted
and `i` is the lower bound of `newId`. -/
theorem insert_lower_bound (s : List α) (newId : α) :
    ∃ i : Int, 0 ≤ i ∧ i ≤ s.length ∧
      insert cmpId nil s newId = .ok (s.take i.toNat ++ newId :: s.drop i.toNat, i) ∧
      (CmpPreorder cmpId → s.Sorted (fun a b => cmpId a b ≠ 1) →
        (s.take i.toNat ++ newId :: s.drop i.toNat).Sorted (fun a b => cmpId a b ≠ 1) ∧
        LowerBound cmpId s newId i) := by
  obtain ⟨i, h0, hi, run, lb⟩ := insert_spec nil s newId
  exact ⟨i, h0, hi, run, fun pre sorted =>
    ⟨(lb pre sorted).sorted_insert pre sorted h0, lb pre sorted⟩⟩

theorem insert_between_positions : CmpPreorder cmpPosition ∧
    [1, 5].Sorted (fun a b => cmpPosition a b ≠ 1) ∧
    ∃ i : Int, 0 ≤ i ∧ i ≤ 2 ∧
      insert cmpPosition 0 [1, 5] 3 =
        .ok (([1, 5] : List Int).take i.toNat ++ 3 :: ([1, 5] : List Int).drop i.toNat, i) ∧
      (([1, 5] : List Int).take i.toNat ++ 3 :: ([1, 5] : List Int).drop i.toNat).Sorted
        (fun a b => cmpPosition a b ≠ 1) ∧
      LowerBound cmpPosition [1, 5] 3 i := by
  have sorted : [1, 5].Sorted (fun a b => cmpPosition a b ≠ 1) := by decide
  obtain ⟨i, h0, hi, run, bound⟩ := insert_lower_bound cmpPosition 0 [1, 5] 3
  exact ⟨cmpPosition_order.toCmpPreorder, sorted, i, h0, hi, run,
    bound cmpPosition_order.toCmpPreorder sorted⟩

/-- The ring invariant of the spec, no duplicates in strictly increasing order, survives the
insertion of an id the ring does not hold. -/
theorem insert_keeps_ring_increasing (ord : CmpOrder cmpId) (s : List α) (newId : α)
    (increasing : s.Sorted (fun a b => cmpId a b = -1)) (fresh : newId ∉ s) :
    ∃ s' i, insert cmpId nil s newId = .ok (s', i) ∧ s'.Sorted (fun a b => cmpId a b = -1) := by
  obtain ⟨i, h0, -, run, lb⟩ := insert_spec nil s newId
  exact ⟨_, i, run,
    (lb ord.toCmpPreorder (increasing.imp (by omega))).increasing_insert ord increasing fresh h0⟩

theorem insert_keeps_positions_increasing : CmpOrder cmpPosition ∧
    [1, 5].Sorted (fun a b => cmpPosition a b = -1) ∧ (3 : Int) ∉ [1, 5] ∧
    ∃ s' i, insert cmpPosition 0 [1, 5] 3 = .ok (s', i) ∧
      s'.Sorted (fun a b => cmpPosition a b = -1) :=
  ⟨cmpPosition_order, by decide, by decide,
    insert_keeps_ring_increasing cmpPosition 0 cmpPosition_order [1, 5] 3 (by decide) (by decide)⟩

/-- Along a run of inserts of fresh ids a strictly increasing ring stays strictly increasing,
and it ends up holding the old ids and the new ones. -/
theorem insertAll_increasing (ord : CmpOrder cmpId) (ids : List α) {s : List α}
    (increasing : s.Sorted (fun a b => cmpId a b = -1)) (distinct : (ids ++ s).Nodup) :
    ∃ s', insertAll cmpId nil s ids = .ok s' ∧ s'.Sorted (fun a b => cmpId a b = -1) ∧
      s'.Perm (ids ++ s) := by
  induction ids generalizing s with
  | nil => exact ⟨s, rfl, increasing, .refl s⟩
  | cons newId ids ih =>
    obtain ⟨fresh, distinct⟩ := List.nodup_cons.1 distinct
    obtain ⟨i, h0, -, run, lb⟩ := insert_spec nil s newId
    have increasing' := (lb ord.toCmpPreorder (increasing.imp (by omega))).increasing_insert ord
      increasing (fun mem => fresh (List.mem_append_right _ mem)) h0
    have moved : (ids ++ (s.take i.toNat ++ newId :: s.drop i.toNat)).Perm (newId :: (ids ++ s)) :=
      ((perm_splice s newId i.toNat).append_left ids).trans List.perm_middle
    obtain ⟨s', rest, sorted, perm⟩ :=
      ih increasing' (moved.nodup_iff.2 (List.nodup_cons.2 ⟨fresh, distinct⟩))
    exact ⟨s', by rw [insertAll, run]; exact rest, sorted, perm.trans moved⟩

/-- Inserting distinct ids that a strictly increasing ring does not hold, one after another,
never panics and gives a strictly increasing ring that holds exactly the old ids and the new
ones, and `search` finds each of them at its slot. -/
theorem insertAll_ring_searchable (ord : CmpOrder cmpId) (s ids : List α)
    (increasing : s.Sorted (fun a b => cmpId a b = -1)) (distinct : (ids ++ s).Nodup) :
    ∃ s', insertAll cmpId nil s ids = .ok s' ∧ s'.Sorted (fun a b => cmpId a b = -1) ∧
      s'.Perm (ids ++ s) ∧
      ∀ x ∈ ids ++ s, ∃ j, search cmpId s' x = .ok (j, none) ∧ index s' j = .ok x := by
  obtain ⟨s', run, sorted, perm⟩ := insertAll_increasing cmpId nil ord ids increasing distinct
  exact ⟨s', run, sorted, perm, fun x mem =>
    search_finds ord (sorted.imp (by omega)) (perm.mem_iff.2 mem)⟩

theorem positions_ring_searchable : CmpOrder cmpPosition ∧
    ([] : List Int).Sorted (fun a b => cmpPosition a b = -1) ∧ ([5, 1, 3] ++ []).Nodup ∧
    ∃ s', insertAll cmpPosition 0 [] [5, 1, 3] = .ok s' ∧
      s'.Sorted (fun a b => cmpPosition a b = -1) ∧ s'.Perm ([5, 1, 3] ++ []) ∧
      ∀ x ∈ [5, 1, 3] ++ [], ∃ j, search cmpPosition s' x = .ok (j, none) ∧ index s' j = .ok x :=
  ⟨cmpPosition_order, by decide, by decide,
    insertAll_ring_searchable cmpPosition 0 cmpPosition_order [] [5, 1, 3] (by decide) (by decide)⟩

/-- On a nonempty slice, whatever `cmpId` answers, `search` returns without a panic: not
found, or `(i, nil)` at a slot of the slice whose comparison is neither `-1` nor `1`. -/
theorem search_never_panics (s : List α) (ne : s ≠ []) (searchId : α) :
    ∃ r, search cmpId s searchId = .ok r ∧
      (r = (-1, some errIdNotFound) ∨
        r.2 = none ∧ ∃ x, index s r.1 = .ok x ∧ cmpId x searchId ≠ -1 ∧ cmpId x searchId ≠ 1) := by
  obtain ⟨r, run, answer, -⟩ :=
    searchLoop_spec cmpId searchId (Window.initial (List.length_pos.2 ne))
  exact ⟨r, run, answer⟩

theorem search_pair_never_panics : [1, 5] ≠ ([] : List Int) ∧
    ∃ r, search cmpPosition [1, 5] 4 = .ok r ∧
      (r = (-1, some errIdNotFound) ∨
        r.2 = none ∧ ∃ x, index [1, 5] r.1 = .ok x ∧ cmpPosition x 4 ≠ -1 ∧ cmpPosition x 4 ≠ 1) :=
  ⟨by decide, search_never_panics cmpPosition [1, 5] (by decide) 4⟩

/-- On a nonempty slice sorted by a total preorder, `search` answers `(i, nil)` at a slot that
compares equal exactly when there is one, and not found exactly when there is none. -/
theorem search_sorted (pre : CmpPreorder cmpId) (s : List α)
    (sorted : s.Sorted (fun a b => cmpId a b ≠ 1)) (ne : s ≠ []) (searchId : α) :
    ∃ r, search cmpId s searchId = .ok r ∧
      ((r.2 = none ∧ ∃ x, index s r.1 = .ok x ∧ cmpId x searchId = 0) ↔
        ∃ x ∈ s, cmpId x searchId = 0) ∧
      (r = (-1, some errIdNotFound) ↔ ¬∃ x ∈ s, cmpId x searchId = 0) := by
  obtain ⟨r, run, answer, -⟩ :=
    searchLoop_spec cmpId searchId (Window.initial (List.length_pos.2 ne))
  have hit : (r.2 = none ∧ ∃ x, index s r.1 = .ok x ∧ cmpId x searchId = 0) ↔
      ∃ x ∈ s, cmpId x searchId = 0 := by
    refine ⟨fun ⟨_, x, read, eq⟩ => ⟨x, index_mem read, eq⟩, fun match_ => ?_⟩
    obtain ⟨i, found, hit⟩ := search_hit pre sorted match_
    rw [search, run, Except.ok.injEq] at found
    exact found ▸ ⟨rfl, hit⟩
  refine ⟨r, run, hit, fun missed match_ => ?_, fun none_ => ?_⟩
  · obtain ⟨none_, -⟩ := hit.2 match_
    simp [missed] at none_
  · rcases answer with missed | ⟨none', x, read, notBelow, notAbove⟩
    · exact missed
    · exact absurd (hit.1 ⟨none', x, read, pre.eq_zero notBelow notAbove⟩) none_

theorem search_sorted_positions : CmpPreorder cmpPosition ∧
    [1, 3, 5].Sorted (fun a b => cmpPosition a b ≠ 1) ∧ [1, 3, 5] ≠ ([] : List Int) ∧
    ∃ r, search cmpPosition [1, 3, 5] 4 = .ok r ∧
      ((r.2 = none ∧ ∃ x, index [1, 3, 5] r.1 = .ok x ∧ cmpPosition x 4 = 0) ↔
        ∃ x ∈ [1, 3, 5], cmpPosition x 4 = 0) ∧
      (r = (-1, some errIdNotFound) ↔ ¬∃ x ∈ [1, 3, 5], cmpPosition x 4 = 0) :=
  ⟨cmpPosition_order.toCmpPreorder, by decide, by decide,
    search_sorted cmpPosition cmpPosition_order.toCmpPreorder [1, 3, 5] (by decide) (by decide) 4⟩

/-- On the empty slice `maxIdx` is `-1`, the loop exits at once and reads `slice[0]`. -/
theorem search_empty_panics (searchId : α) :
    search cmpId [] searchId = .error (.indexOutOfRange 0 0) := by
  rw [search, searchLoop, if_pos (by simp)]
  rfl

/-- Under a total order, after inserting a fresh id into a strictly increasing slice, `search`
finds the new id at the slot `insert` returned and every old id at its slot. -/
theorem insert_then_search (ord : CmpOrder cmpId) (s : List α) (newId : α)
    (increasing : s.Sorted (fun a b => cmpId a b = -1)) (fresh : newId ∉ s) :
    ∃ s' i, insert cmpId nil s newId = .ok (s', i) ∧
      search cmpId s' newId = .ok (i, none) ∧
      ∀ x ∈ s, ∃ j, search cmpId s' x = .ok (j, none) ∧ index s' j = .ok x := by
  have pre := ord.toCmpPreorder
  have sorted : s.Sorted (fun a b => cmpId a b ≠ 1) := increasing.imp (by omega)
  obtain ⟨i, h0, hi, run, lb⟩ := insert_spec nil s newId
  have sorted' := (lb pre sorted).sorted_insert pre sorted h0
  have spliced := perm_splice s newId i.toNat
  refine ⟨_, i, run, ?_, fun x hx => search_finds ord sorted' (spliced.mem_iff.2 (.tail _ hx))⟩
  obtain ⟨j, found, read⟩ := search_finds ord sorted' (spliced.mem_iff.2 (.head _))
  have nodup := spliced.nodup_iff.2 (List.nodup_cons.2 ⟨fresh, pre.nodup increasing⟩)
  rw [found, index_inj nodup read (index_splice h0 hi)]

theorem insert_then_search_positions : CmpOrder cmpPosition ∧
    [1, 5].Sorted (fun a b => cmpPosition a b = -1) ∧ (3 : Int) ∉ [1, 5] ∧
    ∃ s' i, insert cmpPosition 0 [1, 5] 3 = .ok (s', i) ∧
      search cmpPosition s' 3 = .ok (i, none) ∧
      ∀ x ∈ [1, 5], ∃ j, search cmpPosition s' x = .ok (j, none) ∧ index s' j = .ok x :=
  ⟨cmpPosition_order, by decide, by decide,
    insert_then_search cmpPosition 0 cmpPosition_order [1, 5] 3 (by decide) (by decide)⟩

end WholeCalls

end Ifrit.Ring
