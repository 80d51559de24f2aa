import Mathlib.Data.Int.Order.Basic
import CCplusplus.Lib.Exec
import CCplusplus.Lib.Merge
/-!
# Ch11PthreadBarrier — `merge` of `ch11_pthread_barrier`

Eight threads sort a segment of `nums` each, and `merge` puts the segments together in `snums`.  The text of `merge` has
`idex` for `idx` once and does not compile; it is read as `idx`.  In every round a head below all other heads is taken,
from a segment that was found in that round (`merge_sorts`); in the program the segments are sorted when `merge` starts,
in whatever order the threads have come to the barrier (`main_sorts`).
-/
namespace Cc
namespace Ch11PthreadBarrier

open CLib

def NTHR : Nat := 8
def NUMNUM : Nat := 8000000
def TNUM : Nat := NUMNUM / NTHR
def LONG_MAX : Int := 9223372036854775807

/-- The variables of `merge`, with what it did. -/
structure State where
  idx : Int → Int
  num : Int
  minidx : Int
  snums : Int → Int
  /-- the reads of `nums`, each with the segment that it was to be in -/
  reads : List (Int × Int)
  /-- the last segment that was assigned to `minidx` in this round -/
  assigned : Option Int
  /-- what the rounds before assigned, and the segments that they took from -/
  rounds : List (Option Int × Int)

/-- `nums[p]`, for the segment `i`. -/
def readNums (nums : Int → Int) (i p : Int) (s : State) : Exec (Int × State) :=
  if 0 ≤ p ∧ p < NUMNUM then .ok (nums p, { s with reads := (i, p) :: s.reads }) else .error .outOfBounds

/-- The body of the inner loop; `&&` reads `nums` only where the segment has something left. -/
def scan (nums : Int → Int) (i : Int) (s : State) : Exec State :=
  if s.idx i < (i + 1) * TNUM then do
    let (x, s) ← readNums nums i (s.idx i) s
    if x < s.num then do
      let (x, s) ← readNums nums i (s.idx i) s
      .ok { s with num := x, minidx := i, assigned := some i }
    else .ok s
  else .ok s

def round (nums : Int → Int) (sidx : Int) (s : State) : Exec State := do
  let s ← forLoop (scan nums) NTHR 0 { s with num := LONG_MAX, assigned := none }
  if 0 ≤ s.minidx ∧ s.minidx < NTHR then do
    let (x, s) ← readNums nums s.minidx (s.idx s.minidx) s
    .ok { s with
      snums := setAt s.snums sidx x
      idx := setAt s.idx s.minidx (s.idx s.minidx + 1)
      rounds := (s.assigned, s.minidx) :: s.rounds }
  else .error .outOfBounds

/-- `merge`, whose variables hold anything before they are assigned. -/
def merge (nums idx : Int → Int) (num minidx : Int) (snums : Int → Int) : Exec State := do
  let s : State := ⟨idx, num, minidx, snums, [], none, []⟩
  let s ← forLoop (fun i s => .ok { s with idx := setAt s.idx i (i * TNUM) }) NTHR 0 s
  forLoop (round nums) NUMNUM 0 s

/-! ## The segments -/

theorem tnum_eq : (TNUM : Int) = 1000000 := by decide

theorem nthr_eq : (NTHR : Int) = 8 := by decide

theorem numnum_eq : (NUMNUM : Int) = 8000000 := by decide

/-- An index in the segment of a thread. -/
structure Inside (i p : Int) : Prop where
  nonneg : 0 ≤ i
  lt : i < NTHR
  low : i * TNUM ≤ p
  high : p < (i + 1) * TNUM

theorem Inside.bounds {i p : Int} (h : Inside i p) : 0 ≤ p ∧ p < NUMNUM := by
  obtain ⟨h0, h1, hlow, hhigh⟩ := h
  rw [nthr_eq] at h1
  rw [tnum_eq] at hlow hhigh
  rw [numnum_eq]
  omega

theorem readNums_ok {i p : Int} (h : Inside i p) (nums : Int → Int) (s : State) :
    readNums nums i p s = .ok (nums p, { s with reads := (i, p) :: s.reads }) := by
  unfold readNums
  rw [if_pos h.bounds]

def rests (nums idx : Int → Int) (i : Int) : List Int := seg nums (idx i) ((i + 1) * TNUM - idx i).toNat

theorem rests_cons {nums idx : Int → Int} {i : Int} (h : idx i < (i + 1) * TNUM) :
    rests nums idx i = nums (idx i) :: seg nums (idx i + 1) ((i + 1) * TNUM - (idx i + 1)).toNat := by
  unfold rests
  rw [← seg_succ]
  congr 1
  omega

theorem rests_eq_cons {nums idx : Int → Int} {i y : Int} {ys : List Int} (h : rests nums idx i = y :: ys) :
    idx i < (i + 1) * TNUM ∧ y = nums (idx i) := by
  have hlt : idx i < (i + 1) * TNUM := by
    by_contra hge
    unfold rests at h
    rw [show ((i + 1) * TNUM - idx i).toNat = 0 by omega, seg_zero] at h
    cases h
  rw [rests_cons hlt] at h
  exact ⟨hlt, (List.cons.inj h).1.symm⟩

theorem rests_setAt (nums idx : Int → Int) (m : Int) :
    rests nums (setAt idx m (idx m + 1)) =
      setAt (rests nums idx) m (seg nums (idx m + 1) ((m + 1) * TNUM - (idx m + 1)).toNat) := by
  funext i
  by_cases him : i = m
  · subst him
    unfold rests
    rw [setAt_same, setAt_same]
  · unfold rests
    rw [setAt_of_ne him, setAt_of_ne him]

/-! ## A round -/

/-- The inner loop has come to the segment `i`. -/
structure Scanned (nums : Int → Int) (s₀ : State) (i : Int) (s : State) : Prop where
  idx : s.idx = s₀.idx
  snums : s.snums = s₀.snums
  rounds : s.rounds = s₀.rounds
  reads : ∀ q ∈ s.reads, Inside q.1 q.2
  least : ∀ j, 0 ≤ j → j < i → s.idx j < (j + 1) * TNUM → s.num ≤ nums (s.idx j)
  found : (s.assigned = none ∧ s.num = LONG_MAX) ∨
    (s.assigned = some s.minidx ∧ 0 ≤ s.minidx ∧ s.minidx < i ∧ s.idx s.minidx < (s.minidx + 1) * TNUM ∧
      s.num = nums (s.idx s.minidx))

theorem Scanned.scan {nums : Int → Int} {s₀ s : State} {i : Int} (h : Scanned nums s₀ i s) (h0 : 0 ≤ i) (h1 : i < NTHR)
    (hlow : ∀ j : Int, 0 ≤ j → j < NTHR → j * TNUM ≤ s₀.idx j) : ∃ s', scan nums i s = .ok s' ∧ Scanned nums s₀ (i + 1) s' := by
  have hbefore : ∀ {j : Int}, j < i + 1 → j ≠ i → j < i := fun hj hne => by omega
  have hnext : ∀ {m : Int}, m < i → m < i + 1 := fun hm => by omega
  unfold Ch11PthreadBarrier.scan
  by_cases hleft : s.idx i < (i + 1) * TNUM
  · have hin : Inside i (s.idx i) := ⟨h0, h1, by rw [h.idx]; exact hlow i h0 h1, hleft⟩
    have hreads : ∀ q ∈ (i, s.idx i) :: s.reads, Inside q.1 q.2 := by
      intro q hq
      rcases List.mem_cons.1 hq with rfl | hq
      · exact hin
      · exact h.reads q hq
    rw [if_pos hleft, readNums_ok hin, ok_bind]
    dsimp only
    by_cases hless : nums (s.idx i) < s.num
    · rw [if_pos hless, readNums_ok hin, ok_bind]
      refine ⟨_, rfl, h.idx, h.snums, h.rounds, fun q hq => ?_, fun j hj0 hj1 hj => ?_,
        .inr ⟨rfl, h0, Int.lt_succ i, hleft, rfl⟩⟩
      · rcases List.mem_cons.1 hq with rfl | hq
        · exact hin
        · exact hreads q hq
      · by_cases hji : j = i
        · subst hji
          exact le_refl _
        · exact le_trans (le_of_lt hless) (h.least j hj0 (hbefore hj1 hji) hj)
    · rw [if_neg hless]
      refine ⟨_, rfl, h.idx, h.snums, h.rounds, hreads, fun j hj0 hj1 hj => ?_, ?_⟩
      · by_cases hji : j = i
        · subst hji
          exact not_lt.1 hless
        · exact h.least j hj0 (hbefore hj1 hji) hj
      · exact h.found.imp_right (fun ⟨ha, hm0, hm1, hrest⟩ => ⟨ha, hm0, hnext hm1, hrest⟩)
  · rw [if_neg hleft]
    refine ⟨_, rfl, h.idx, h.snums, h.rounds, h.reads, fun j hj0 hj1 hj => ?_, ?_⟩
    · by_cases hji : j = i
      · subst hji
        exact absurd hj hleft
      · exact h.least j hj0 (hbefore hj1 hji) hj
    · exact h.found.imp_right (fun ⟨ha, hm0, hm1, hrest⟩ => ⟨ha, hm0, hnext hm1, hrest⟩)

/-- `sidx` rounds are done. -/
structure Merged (nums : Int → Int) (sidx : Nat) (s : State) : Prop where
  idx : ∀ i : Int, 0 ≤ i → i < NTHR → i * TNUM ≤ s.idx i
  reads : ∀ q ∈ s.reads, Inside q.1 q.2
  rounds : s.rounds.length = sidx
  assigned : ∀ r ∈ s.rounds, r.1 = some r.2 ∧ 0 ≤ r.2 ∧ r.2 < NTHR
  merging : Merging (seg nums 0 NUMNUM) (rests nums s.idx) NTHR (seg s.snums 0 sidx)

theorem Merged.length {nums : Int → Int} {sidx : Nat} {s : State} (h : Merged nums sidx s) :
    sidx + (remains (rests nums s.idx) NTHR).length = NUMNUM := by
  have hlen := h.merging.perm.length_eq
  rwa [List.length_append, length_seg, length_seg] at hlen

theorem Merged.nonempty {nums : Int → Int} {sidx : Nat} {s : State} (h : Merged nums sidx s) (hlt : sidx < NUMNUM) :
    ∃ i : Int, 0 ≤ i ∧ i < NTHR ∧ s.idx i < (i + 1) * TNUM := by
  have hlen := h.length
  have hpos : 0 < (remains (rests nums s.idx) NTHR).length := by omega
  obtain ⟨x, hx⟩ := List.exists_mem_of_length_pos hpos
  obtain ⟨i, h0, h1, hx⟩ := mem_remains.1 hx
  obtain ⟨y, ys, hy⟩ := List.exists_cons_of_ne_nil (List.ne_nil_of_mem hx)
  exact ⟨i, h0, h1, (rests_eq_cons hy).1⟩

/-- **The inner loop assigns `minidx`**, to a segment with a least head. -/
theorem Merged.scan {nums : Int → Int} {sidx : Nat} {s : State} (h : Merged nums sidx s) (hlt : sidx < NUMNUM)
    (hmax : ∀ i : Int, 0 ≤ i → i < NUMNUM → nums i < LONG_MAX) :
    ∃ s', forLoop (Ch11PthreadBarrier.scan nums) NTHR 0 { s with num := LONG_MAX, assigned := none } = .ok s' ∧
      Scanned nums s NTHR s' ∧ s'.assigned = some s'.minidx ∧ Inside s'.minidx (s'.idx s'.minidx) ∧
      s'.num = nums (s'.idx s'.minidx) := by
  have hstart : Scanned nums s 0 { s with num := LONG_MAX, assigned := none } :=
    ⟨rfl, rfl, rfl, h.reads, fun j hj0 hj1 => absurd hj0 (not_le.2 hj1), .inl ⟨rfl, rfl⟩⟩
  obtain ⟨s', hrun, -, hs⟩ := forLoop_total (Ch11PthreadBarrier.scan nums) NTHR (fun i s' => 0 ≤ i ∧ Scanned nums s i s')
    (fun i s' hi hs => by
      obtain ⟨s'', hrun, hs'⟩ := hs.2.scan hs.1 hi h.idx
      exact ⟨s'', hrun, by omega, hs'⟩)
    NTHR 0 _ (Int.zero_add _) ⟨le_refl 0, hstart⟩
  refine ⟨s', hrun, hs, ?_⟩
  rcases hs.found with ⟨-, hnum⟩ | ⟨ha, h0, h1, hleft, hnum⟩
  · -- then all segments are consumed
    obtain ⟨i, hi0, hi1, hleft⟩ := h.nonempty hlt
    have hin : Inside i (s.idx i) := ⟨hi0, hi1, h.idx i hi0 hi1, hleft⟩
    have hleast := hs.least i hi0 hi1 (by rw [hs.idx]; exact hleft)
    rw [hnum, hs.idx] at hleast
    exact absurd (hmax (s.idx i) hin.bounds.1 hin.bounds.2) (not_lt.2 hleast)
  · exact ⟨ha, ⟨h0, h1, by rw [hs.idx]; exact h.idx _ h0 h1, hleft⟩, hnum⟩

/-- **The step of the merge.** -/
theorem Merged.round {nums : Int → Int} {sidx : Nat} {s : State} (h : Merged nums sidx s) (hlt : sidx < NUMNUM)
    (hmax : ∀ i : Int, 0 ≤ i → i < NUMNUM → nums i < LONG_MAX) :
    ∃ s', round nums sidx s = .ok s' ∧ Merged nums (sidx + 1) s' := by
  obtain ⟨s', hrun, hs, hassigned, hin, hnum⟩ := h.scan hlt hmax
  unfold Ch11PthreadBarrier.round
  rw [hrun, ok_bind, if_pos ⟨hin.nonneg, hin.lt⟩, readNums_ok hin, ok_bind]
  refine ⟨_, rfl, fun i h0 h1 => ?_, fun q hq => ?_, ?_, fun r hr => ?_, ?_⟩
  · dsimp only
    by_cases him : i = s'.minidx
    · rw [him, setAt_same]
      exact le_of_lt (Int.lt_add_one_of_le hin.low)
    · rw [setAt_of_ne him, hs.idx]
      exact h.idx i h0 h1
  · rcases List.mem_cons.1 hq with rfl | hq
    · exact hin
    · exact hs.reads q hq
  · rw [List.length_cons, hs.rounds, h.rounds]
  · rcases List.mem_cons.1 hr with rfl | hr
    · exact ⟨hassigned, hin.nonneg, hin.lt⟩
    · rw [hs.rounds] at hr
      exact h.assigned r hr
  · dsimp only
    have hm : rests nums s'.idx s'.minidx = nums (s'.idx s'.minidx) :: _ := rests_cons hin.high
    have hleast : ∀ (i : Int) y ys, 0 ≤ i → i < NTHR → rests nums s'.idx i = y :: ys → nums (s'.idx s'.minidx) ≤ y := by
      intro i y ys h0 h1 hy
      obtain ⟨hleft, rfl⟩ := rests_eq_cons hy
      rw [← hnum]
      exact hs.least i h0 h1 hleft
    have hmerging := h.merging
    rw [← hs.idx, ← hs.snums] at hmerging
    have hout := seg_setAt_concat s'.snums 0 sidx (nums (s'.idx s'.minidx))
    rw [Int.zero_add] at hout
    rw [rests_setAt, hout]
    exact hmerging.take hin.nonneg hin.lt hm hleast

/-! ## The whole -/

/-- The first loop sets every index to the beginning of its segment. -/
theorem start_idx (s : State) : ∃ idx : Int → Int, (∀ i : Int, 0 ≤ i → i < NTHR → idx i = i * TNUM) ∧
    forLoop (fun i s => .ok { s with idx := setAt s.idx i (i * TNUM) }) NTHR 0 s = .ok { s with idx := idx } := by
  obtain ⟨s', hrun, -, idx, hidx, rfl⟩ := forLoop_total (fun i s => .ok { s with idx := setAt s.idx i (i * TNUM) }) NTHR
    (fun i s' => 0 ≤ i ∧ ∃ idx : Int → Int, (∀ j : Int, 0 ≤ j → j < i → idx j = j * TNUM) ∧ s' = { s with idx := idx })
    (fun i s' _ ⟨h0, idx, hidx, hs⟩ => by
      refine ⟨_, rfl, by omega, setAt idx i (i * TNUM), fun j hj0 hj1 => ?_, by rw [hs]⟩
      by_cases hji : j = i
      · rw [hji, setAt_same]
      · rw [setAt_of_ne hji]
        exact hidx j hj0 (by omega))
    NTHR 0 s (Int.zero_add _) ⟨le_refl 0, s.idx, fun j hj0 hj1 => absurd hj0 (not_le.2 hj1), rfl⟩
  exact ⟨idx, hidx, hrun⟩

theorem merged_start {nums idx : Int → Int} (num minidx : Int) (snums : Int → Int)
    (hsorted : ∀ i : Int, 0 ≤ i → i < NTHR → (seg nums (i * TNUM) TNUM).Pairwise (· ≤ ·))
    (hidx : ∀ i : Int, 0 ≤ i → i < NTHR → idx i = i * TNUM) : Merged nums 0 ⟨idx, num, minidx, snums, [], none, []⟩ := by
  have hrests : ∀ i : Int, 0 ≤ i → i < NTHR → rests nums idx i = seg nums (i * TNUM) TNUM := by
    intro i h0 h1
    unfold rests
    rw [hidx i h0 h1]
    congr 1
    rw [Int.add_mul, Int.one_mul]
    omega
  have hall : remains (rests nums idx) NTHR = seg nums 0 NUMNUM := by
    have hslices := remains_slices nums TNUM NTHR
    unfold remains at hslices ⊢
    rw [seg_congr (fun i h0 h1 => hrests i h0 (by rwa [Int.zero_add] at h1)), hslices]
    rfl
  refine ⟨fun i h0 h1 => le_of_eq (hidx i h0 h1).symm, fun q hq => (by cases hq), rfl, fun r hr => (by cases hr), ?_⟩
  rw [← hall]
  refine Merging.start (fun i h0 h1 => ?_)
  rw [hrests i h0 h1]
  exact hsorted i h0 h1

theorem merge_merged {nums : Int → Int} (idx : Int → Int) (num minidx : Int) (snums : Int → Int)
    (hsorted : ∀ i : Int, 0 ≤ i → i < NTHR → (seg nums (i * TNUM) TNUM).Pairwise (· ≤ ·))
    (hmax : ∀ i : Int, 0 ≤ i → i < NUMNUM → nums i < LONG_MAX) :
    ∃ s, merge nums idx num minidx snums = .ok s ∧ Merged nums NUMNUM s := by
  obtain ⟨idx', hidx, hrun⟩ := start_idx ⟨idx, num, minidx, snums, [], none, []⟩
  have hstart := merged_start num minidx snums hsorted hidx
  obtain ⟨s, hmerge, n, hn, hs⟩ := forLoop_total (round nums) NUMNUM (fun i s => ∃ n : Nat, i = n ∧ Merged nums n s)
    (fun i s hi ⟨n, hn, hs⟩ => by
      obtain ⟨s', hround, hs'⟩ := hs.round (by omega) hmax
      exact ⟨s', by rw [hn]; exact hround, n + 1, by omega, hs'⟩)
    NUMNUM 0 _ (Int.zero_add _) ⟨0, rfl, hstart⟩
  have hn : n = NUMNUM := by omega
  subst hn
  refine ⟨s, ?_, hs⟩
  unfold merge
  dsimp only
  rw [hrun, ok_bind]
  exact hmerge

theorem Merged.done {nums : Int → Int} {s : State} (h : Merged nums NUMNUM s) :
    (seg s.snums 0 NUMNUM).Perm (seg nums 0 NUMNUM) ∧ (seg s.snums 0 NUMNUM).Pairwise (· ≤ ·) := by
  have hlen := h.length
  exact h.merging.done (List.eq_nil_of_length_eq_zero (by omega))

/-- **`merge` of sorted segments** returns, reads `nums` in the segment that it is consuming only, takes in every round
from the segment that the round has found, and leaves the sorted permutation of `nums` in `snums`. -/
theorem merge_sorts (nums idx : Int → Int) (num minidx : Int) (snums : Int → Int)
    (hsorted : ∀ i : Int, 0 ≤ i → i < NTHR → (seg nums (i * TNUM) TNUM).Pairwise (· ≤ ·))
    (hmax : ∀ i : Int, 0 ≤ i → i < NUMNUM → nums i < LONG_MAX) :
    ∃ s, merge nums idx num minidx snums = .ok s ∧ (∀ q ∈ s.reads, Inside q.1 q.2) ∧ s.rounds.length = NUMNUM ∧
      (∀ r ∈ s.rounds, r.1 = some r.2 ∧ 0 ≤ r.2 ∧ r.2 < NTHR) ∧
      (seg s.snums 0 NUMNUM).Perm (seg nums 0 NUMNUM) ∧ (seg s.snums 0 NUMNUM).Pairwise (· ≤ ·) := by
  obtain ⟨s, hmerge, hs⟩ := merge_merged idx num minidx snums hsorted hmax
  exact ⟨s, hmerge, hs.reads, hs.rounds, hs.assigned, hs.done⟩

/-- Every segment counts up from 0. -/
theorem merge_sorts_counting : ∃ s, merge (fun i => i % 1000000) (fun _ => 0) 0 0 (fun _ => 0) = .ok s ∧
    (∀ q ∈ s.reads, Inside q.1 q.2) ∧ s.rounds.length = NUMNUM ∧
      (∀ r ∈ s.rounds, r.1 = some r.2 ∧ 0 ≤ r.2 ∧ r.2 < NTHR) ∧
      (seg s.snums 0 NUMNUM).Perm (seg (fun i => i % 1000000) 0 NUMNUM) ∧
      (seg s.snums 0 NUMNUM).Pairwise (· ≤ ·) := by
  refine merge_sorts _ _ _ _ _ (fun i _ _ => pairwise_seg (fun a b ha hab hb => ?_)) (fun i _ _ => ?_)
  · rw [tnum_eq] at ha hb
    omega
  · unfold LONG_MAX
    omega

/-! ## The threads -/

def comlong (a b : Int) : Int := if a = b then 0 else if a < b then -1 else 1

theorem comlong_le_iff {a b : Int} : comlong a b ≤ 0 ↔ a ≤ b := by
  unfold comlong
  split
  · omega
  · split <;> omega

/-- The library's `heapsort`: it permutes the entries that it is given, into the order of a comparison that is one. -/
structure Heapsort where
  sort : (Int → Int) → Int → Nat → (Int → Int → Int) → Int → Int
  perm : ∀ (a : Int → Int) (base : Int) (nel : Nat) compar, PermOn base (base + nel - 1) a (sort a base nel compar)
  sorted : ∀ (a : Int → Int) (base : Int) (nel : Nat) compar, (∀ x y, compar x y ≤ 0 ∨ compar y x ≤ 0) →
    (∀ x y z, compar x y ≤ 0 → compar y z ≤ 0 → compar x z ≤ 0) →
    (seg (sort a base nel compar) base nel).Pairwise (fun x y => compar x y ≤ 0)

variable (heapsort : Heapsort)

def thrFn (nums : Int → Int) (idx : Int) : Int → Int := heapsort.sort nums idx TNUM comlong

/-- The threads have come to the barrier, in some order; no two of their segments overlap. -/
def threads (nums : Int → Int) (order : List Int) : Int → Int :=
  order.foldl (fun nums i => thrFn heapsort nums (i * TNUM)) nums

theorem thrFn_sorted (nums : Int → Int) (idx : Int) : (seg (thrFn heapsort nums idx) idx TNUM).Pairwise (· ≤ ·) := by
  have hsorted := heapsort.sorted nums idx TNUM comlong
    (fun x y => by rw [comlong_le_iff, comlong_le_iff]; exact Int.le_total x y)
    (fun x y z => by rw [comlong_le_iff, comlong_le_iff, comlong_le_iff]; exact Int.le_trans)
  exact hsorted.imp comlong_le_iff.1

theorem thrFn_other (nums : Int → Int) {i j : Int} (hij : i ≠ j) :
    seg (thrFn heapsort nums (i * TNUM)) (j * TNUM) TNUM = seg nums (j * TNUM) TNUM := by
  refine seg_congr (fun p hlow hhigh => (heapsort.perm nums (i * TNUM) TNUM comlong).eq_outside ?_)
  rw [tnum_eq] at hlow hhigh ⊢
  omega

/-- **Past the barrier** the segments of the threads are sorted, and `nums` has been permuted. -/
theorem threads_sorted : ∀ (order : List Int) (nums : Int → Int), (∀ i ∈ order, 0 ≤ i ∧ i < NTHR) →
    PermOn 0 (NUMNUM - 1) nums (threads heapsort nums order) ∧
      ∀ j, (j ∈ order ∨ (seg nums (j * TNUM) TNUM).Pairwise (· ≤ ·)) →
        (seg (threads heapsort nums order) (j * TNUM) TNUM).Pairwise (· ≤ ·)
  | [], nums, _ => ⟨.refl _ _ _, fun j hj => hj.resolve_left (fun hj => by cases hj)⟩
  | i :: order, nums, h => by
    obtain ⟨hperm, hsorted⟩ := threads_sorted order (thrFn heapsort nums (i * TNUM))
      (fun j hj => h j (List.mem_cons_of_mem i hj))
    obtain ⟨h0, h1⟩ := h i List.mem_cons_self
    have hthr : PermOn 0 (NUMNUM - 1) nums (thrFn heapsort nums (i * TNUM)) := by
      refine (heapsort.perm nums (i * TNUM) TNUM comlong).widen ?_ ?_
      · rw [tnum_eq]
        omega
      · rw [nthr_eq] at h1
        rw [tnum_eq, numnum_eq]
        omega
    refine ⟨hthr.trans hperm, fun j hj => hsorted j ?_⟩
    by_cases hij : i = j
    · subst hij
      exact .inr (thrFn_sorted heapsort nums (i * TNUM))
    · rcases hj with hj | hj
      · exact .inl ((List.mem_cons.1 hj).resolve_left (Ne.symm hij))
      · rw [thrFn_other heapsort nums hij]
        exact .inr hj

/-- **The program sorts `nums`**, in whatever order its threads come to the barrier. -/
theorem main_sorts (nums idx : Int → Int) (num minidx : Int) (snums : Int → Int) (order : List Int)
    (horder : ∀ i : Int, i ∈ order ↔ 0 ≤ i ∧ i < NTHR) (hmax : ∀ i : Int, 0 ≤ i → i < NUMNUM → nums i < LONG_MAX) :
    ∃ s, merge (threads heapsort nums order) idx num minidx snums = .ok s ∧
      (seg s.snums 0 NUMNUM).Perm (seg nums 0 NUMNUM) ∧ (seg s.snums 0 NUMNUM).Pairwise (· ≤ ·) := by
  obtain ⟨hperm, hsorted⟩ := threads_sorted heapsort order nums (fun i => (horder i).1)
  have hbelow := hperm.all (P := (· < LONG_MAX)) (fun i h0 h1 => hmax i h0 (by omega))
  obtain ⟨s, hmerge, hs⟩ := merge_merged idx num minidx snums (fun i h0 h1 => hsorted i (.inl ((horder i).2 ⟨h0, h1⟩)))
    (fun i h0 h1 => hbelow i h0 (by omega))
  exact ⟨s, hmerge, hs.done.1.trans (hperm.perm_seg NUMNUM (by omega)), hs.done.2⟩

end Ch11PthreadBarrier
end Cc
