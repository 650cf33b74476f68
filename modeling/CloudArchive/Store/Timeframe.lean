import CloudArchive.Util.Shard

/-!
# Store — the timeframe of a well and the shards in a window

`GetWellTimeframe` and `GetShardsInTimeframe` read a listing of the well directory
(`ioutil.ReadDir` for the file store, the FTP `LIST` for the FTP store; the two backends run
the same loop over it) and parse each name with `ShardNameToDateRange`, skipping the names that
do not parse. `GetWellTimeframe` keeps the earliest start and the latest end, using the zero
time for "nothing yet"; `GetShardsInTimeframe` lists a shard when one of the four cases of its
`switch` holds, each falling through to the append.

A `time.Time` is compared as Go compares it: by its seconds since January 1 of year 1, an
`int64`, then its nanoseconds. The model gives a time as nanoseconds since year 1 (`unixTime`),
so that `Before` is `<` and the zero time is `0`. The shard of a name is the `StandardTime` of
the `Timestamp.Sec` values `ShardNameToDateRange` computes, which count from year 1 too: shard
`0` starts at the zero time.

Over a listing whose shards all end after they start, the four cases are the closed overlap test
(`getShardsInTimeframe_overlap`). `GetWellTimeframe` reads a zero `Start` or `End` as "nothing
yet", so a shard that starts or ends at the zero time is forgotten by the next one: its
timeframe is then the earliest start and the latest end only when no shard starts or ends there,
and a well holding the shards `0` and `2` gets a timeframe that leaves shard `0` out
(`wellTimeframe_forgets_zero_shard`).
-/

namespace CloudArchive.Store

open CloudArchive CloudArchive.Util

/-! ## Times -/

/-- `util.Timeframe`: `Start` and `End` (`stop` here). The zero time, January 1 of year 1, is
`0`, and `IsZero` is `= 0`. -/
structure Timeframe where
  start : Int
  stop : Int
  deriving DecidableEq, Repr

/-- The zero `Timeframe`. -/
def Timeframe.zero : Timeframe := ⟨0, 0⟩

/-- The shard a name stands for, as the two times `ShardNameToDateRange` returns. -/
def shardRange (nm : List Char) : Option (Int × Int) :=
  (shardNameToDateRange nm).map fun r => (standardTime r.1, standardTime r.2)

/-! ## The two calls -/

/-- The loop of `GetWellTimeframe` over the listed names. -/
def wellTimeframe (t : Timeframe) : List (List Char) → Timeframe
  | [] => t
  | nm :: nms =>
    match shardRange nm with
    | none => wellTimeframe t nms
    | some (s, e) =>
      let t := if t.start = 0 ∨ s < t.start then { t with start := s } else t
      let t := if t.stop = 0 ∨ t.stop < e then { t with stop := e } else t
      wellTimeframe t nms

/-- `GetWellTimeframe` on the well's listing (`none` when the listing fails, which the call
returns before its loop). -/
def getWellTimeframe (listing : Option (List (List Char))) : Option Timeframe :=
  listing.map (wellTimeframe .zero)

/-- The `switch` of `GetShardsInTimeframe`: the first case that holds falls through to the
append, so a shard is listed iff one of the four holds. -/
def inTimeframe (tf : Timeframe) (s e : Int) : Bool :=
  (s < tf.start ∧ e > tf.start) ∨ (s < tf.stop ∧ e > tf.stop) ∨
    (s = tf.stop ∨ s = tf.start ∨ e = tf.stop ∨ e = tf.start) ∨ (tf.start < s ∧ tf.stop > e)

/-- The loop of `GetShardsInTimeframe` over the listed names. -/
def shardsInTimeframe (tf : Timeframe) : List (List Char) → List (List Char)
  | [] => []
  | nm :: nms =>
    match shardRange nm with
    | none => shardsInTimeframe tf nms
    | some (s, e) =>
      if inTimeframe tf s e then nm :: shardsInTimeframe tf nms else shardsInTimeframe tf nms

/-- `GetShardsInTimeframe` on the well's listing. -/
def getShardsInTimeframe (listing : Option (List (List Char))) (tf : Timeframe) :
    Option (List (List Char)) :=
  listing.map (shardsInTimeframe tf)

/-! ## The overlap test -/

/-- With a shard that ends after it starts and a window that does not end before it starts,
the four cases are the closed overlap test. -/
theorem inTimeframe_iff {tf : Timeframe} {s e : Int} (hse : s < e) (htf : tf.start ≤ tf.stop) :
    inTimeframe tf s e = true ↔ s ≤ tf.stop ∧ tf.start ≤ e := by
  simp only [inTimeframe, decide_eq_true_eq]
  omega

/-- The names of a listing the overlap test keeps. -/
def overlapping (tf : Timeframe) (names : List (List Char)) : List (List Char) :=
  names.filter fun nm =>
    match shardRange nm with
    | some (s, e) => decide (s ≤ tf.stop ∧ tf.start ≤ e)
    | none => false

theorem shardsInTimeframe_eq_overlapping {tf : Timeframe} (htf : tf.start ≤ tf.stop) :
    ∀ {names : List (List Char)}, (∀ nm ∈ names, ∀ s e, shardRange nm = some (s, e) → s < e) →
      shardsInTimeframe tf names = overlapping tf names
  | [], _ => rfl
  | nm :: nms, h => by
    have ih := shardsInTimeframe_eq_overlapping htf fun n hn => h n (.tail _ hn)
    rcases hr : shardRange nm with _ | ⟨s, e⟩
    · simp [shardsInTimeframe, overlapping, hr, ih]
    · have hi := inTimeframe_iff (h nm (.head _) s e hr) htf
      by_cases ho : s ≤ tf.stop ∧ tf.start ≤ e
      · simp [shardsInTimeframe, overlapping, hr, hi.mpr ho, ho, ih]
      · simp only [overlapping] at ih
        simp [shardsInTimeframe, overlapping, hr, ih, ho, show inTimeframe tf s e = false from
          Bool.eq_false_iff.mpr fun h' => ho (hi.mp h')]

/-! ## The timeframe of a well -/

theorem foldl_min_le (l : List (Int × Int)) (a : Int) :
    l.foldl (fun m r => min m r.1) a ≤ a ∧ ∀ r ∈ l, l.foldl (fun m r => min m r.1) a ≤ r.1 := by
  induction l generalizing a with
  | nil => simp
  | cons r rs ih =>
    obtain ⟨h1, h2⟩ := ih (min a r.1)
    refine ⟨h1.trans (min_le_left _ _), fun q hq => ?_⟩
    rcases List.mem_cons.mp hq with rfl | hq
    · exact h1.trans (min_le_right _ _)
    · exact h2 q hq

theorem le_foldl_max (l : List (Int × Int)) (a : Int) :
    a ≤ l.foldl (fun m r => max m r.2) a ∧ ∀ r ∈ l, r.2 ≤ l.foldl (fun m r => max m r.2) a := by
  induction l generalizing a with
  | nil => simp
  | cons r rs ih =>
    obtain ⟨h1, h2⟩ := ih (max a r.2)
    refine ⟨(le_max_left _ _).trans h1, fun q hq => ?_⟩
    rcases List.mem_cons.mp hq with rfl | hq
    · exact (le_max_right _ _).trans h1
    · exact h2 q hq

/-- Past the first shard, one step of the loop takes the earlier start and the later end. -/
theorem wellTimeframe_cons_some {t : Timeframe} {nm : List Char} {s e : Int}
    (nms : List (List Char)) (hr : shardRange nm = some (s, e)) (h1 : t.start ≠ 0)
    (h2 : t.stop ≠ 0) : wellTimeframe t (nm :: nms) = wellTimeframe ⟨min t.start s, max t.stop e⟩ nms := by
  obtain ⟨a, b⟩ := t
  simp only at h1 h2
  simp only [wellTimeframe, hr, h1, h2, false_or]
  congr 1
  by_cases hs : s < a <;> by_cases he : b < e <;>
    simp only [hs, he, h2, if_true, if_false, false_or, Timeframe.mk.injEq] <;> omega

/-- From a timeframe that is not zero, over shards that neither start nor end at the zero time,
the loop takes the earliest start and the latest end. -/
theorem wellTimeframe_of_ne : ∀ {t : Timeframe} (names : List (List Char)),
    (∀ r ∈ names.filterMap shardRange, r.1 ≠ 0 ∧ r.2 ≠ 0) → t.start ≠ 0 → t.stop ≠ 0 →
      wellTimeframe t names =
        ⟨(names.filterMap shardRange).foldl (fun m r => min m r.1) t.start,
          (names.filterMap shardRange).foldl (fun m r => max m r.2) t.stop⟩
  | _, [], _, _, _ => rfl
  | t, nm :: nms, hz, h1, h2 => by
    rcases hr : shardRange nm with _ | ⟨s, e⟩
    · simp only [wellTimeframe, hr, List.filterMap_cons] at hz ⊢
      exact wellTimeframe_of_ne nms hz h1 h2
    · simp only [List.filterMap_cons, hr, List.mem_cons, forall_eq_or_imp] at hz
      obtain ⟨⟨hs, he⟩, hz⟩ := hz
      rw [wellTimeframe_cons_some nms hr h1 h2,
        wellTimeframe_of_ne nms hz (by simp only [min_def]; split <;> assumption)
          (by simp only [max_def]; split <;> assumption)]
      simp [List.filterMap_cons, hr]

/-- `GetWellTimeframe`'s loop from the zero `Timeframe`, over shards that neither start nor end
at the zero time: the earliest start and the latest end of the shards the names parse to, or the
zero `Timeframe` when none parses. -/
theorem wellTimeframe_zero : ∀ names : List (List Char),
    (∀ r ∈ names.filterMap shardRange, r.1 ≠ 0 ∧ r.2 ≠ 0) →
    wellTimeframe .zero names =
      match names.filterMap shardRange with
      | [] => .zero
      | (s, e) :: rs => ⟨rs.foldl (fun m r => min m r.1) s, rs.foldl (fun m r => max m r.2) e⟩
  | [], _ => rfl
  | nm :: nms, hz => by
    rcases hr : shardRange nm with _ | ⟨s, e⟩
    · simp only [wellTimeframe, hr, List.filterMap_cons] at hz ⊢
      exact wellTimeframe_zero nms hz
    · simp only [List.filterMap_cons, hr, List.mem_cons, forall_eq_or_imp] at hz
      obtain ⟨⟨hs, he⟩, hz⟩ := hz
      have hstep : wellTimeframe .zero (nm :: nms) = wellTimeframe ⟨s, e⟩ nms := by
        simp [wellTimeframe, hr, Timeframe.zero]
      rw [hstep, wellTimeframe_of_ne nms hz hs he]
      simp [List.filterMap_cons, hr]

/-! ## Both calls -/

/-- **The shards in a window, and the timeframe of a well.** For every listing of a well whose
parseable names all give a shard `(s, e)` with `s < e`: (i) for every window with
`Start ≤ End`, `GetShardsInTimeframe` lists, in listing order and each once, exactly the names
whose shard has `s ≤ End` and `Start ≤ e`. When moreover no shard starts or ends at the zero
time: (ii) `GetWellTimeframe` is the earliest start and the latest end of the shards, or the zero
`Timeframe` when no name parses; (iii) so the well's own timeframe lists every parseable name. -/
theorem getShardsInTimeframe_overlap (names : List (List Char))
    (hse : ∀ r ∈ names.filterMap shardRange, r.1 < r.2) :
    (∀ tf : Timeframe, tf.start ≤ tf.stop →
      getShardsInTimeframe (some names) tf = some (overlapping tf names)) ∧
    ((∀ r ∈ names.filterMap shardRange, r.1 ≠ 0 ∧ r.2 ≠ 0) →
      getWellTimeframe (some names) = some (match names.filterMap shardRange with
        | [] => .zero
        | (s, e) :: rs => ⟨rs.foldl (fun m r => min m r.1) s, rs.foldl (fun m r => max m r.2) e⟩) ∧
      ((getWellTimeframe (some names)).bind fun tf => getShardsInTimeframe (some names) tf) =
        some (names.filter fun nm => (shardRange nm).isSome)) := by
  have hse' : ∀ nm ∈ names, ∀ s e, shardRange nm = some (s, e) → s < e :=
    fun nm hnm s e h => hse (s, e) (List.mem_filterMap.mpr ⟨nm, hnm, h⟩)
  refine ⟨fun tf htf => congrArg some (shardsInTimeframe_eq_overlapping htf hse'),
    fun hz => ⟨congrArg some (wellTimeframe_zero names hz), ?_⟩⟩
  simp only [getWellTimeframe, getShardsInTimeframe, Option.map_some', Option.some_bind]
  congr 1
  rw [wellTimeframe_zero names hz]
  rcases hl : names.filterMap shardRange with _ | ⟨⟨s, e⟩, rs⟩
  · -- no name parses: the zero window lists none
    have hnone := List.filterMap_eq_nil_iff.mp hl
    rw [shardsInTimeframe_eq_overlapping le_rfl hse', overlapping]
    exact List.filter_congr fun nm hnm => by simp [hnone nm hnm]
  · -- the window runs from the earliest start to the latest end
    obtain ⟨hlo, hlo'⟩ := foldl_min_le rs s
    obtain ⟨hhi, hhi'⟩ := le_foldl_max rs e
    have hall : ∀ r ∈ (s, e) :: rs, rs.foldl (fun m r => min m r.1) s ≤ r.1 ∧
        r.2 ≤ rs.foldl (fun m r => max m r.2) e ∧ r.1 < r.2 := by
      intro r hr
      refine ⟨?_, ?_, hse r (hl ▸ hr)⟩ <;> rcases List.mem_cons.mp hr with rfl | hr
      exacts [hlo, hlo' r hr, hhi, hhi' r hr]
    have hse0 := hse (s, e) (hl ▸ .head _)
    rw [shardsInTimeframe_eq_overlapping (by simp only; omega) hse', overlapping]
    refine List.filter_congr fun nm hnm => ?_
    rcases h : shardRange nm with _ | ⟨a, b⟩
    · rfl
    · obtain ⟨h1, h2, h3⟩ := hall (a, b) (hl ▸ List.mem_filterMap.mpr ⟨nm, hnm, h⟩)
      simp only [Option.isSome_some, decide_eq_true_eq]
      omega

theorem getShardsInTimeframe_overlap_listing :
    let names := ["769f2".data, "769f3".data, "tags".data]
    (∀ r ∈ names.filterMap shardRange, r.1 < r.2) ∧
    (∀ r ∈ names.filterMap shardRange, r.1 ≠ 0 ∧ r.2 ≠ 0) ∧
    (∀ tf : Timeframe, tf.start ≤ tf.stop →
      getShardsInTimeframe (some names) tf = some (overlapping tf names)) ∧
    ((∀ r ∈ names.filterMap shardRange, r.1 ≠ 0 ∧ r.2 ≠ 0) →
      getWellTimeframe (some names) = some (match names.filterMap shardRange with
        | [] => .zero
        | (s, e) :: rs => ⟨rs.foldl (fun m r => min m r.1) s, rs.foldl (fun m r => max m r.2) e⟩) ∧
      ((getWellTimeframe (some names)).bind fun tf => getShardsInTimeframe (some names) tf) =
        some (names.filter fun nm => (shardRange nm).isSome)) := by
  dsimp only
  have hse : ∀ r ∈ ["769f2".data, "769f3".data, "tags".data].filterMap shardRange, r.1 < r.2 := by
    decide
  exact ⟨hse, by decide, getShardsInTimeframe_overlap _ hse⟩

/-- **Shard `0` starts at the zero time, and `GetWellTimeframe` forgets it.** Shard `0` runs
from the zero time to `2^17` seconds after it. On the listing `0`, `2`, the loop sets `Start`
to the zero time, then reads it as unset and replaces it with shard `2`'s start: the well's
timeframe starts at `2^18` seconds, not at `0`, and querying the well with it lists `2` alone. -/
theorem wellTimeframe_forgets_zero_shard :
    let names := ["0".data, "2".data]
    names.filterMap shardRange =
        [(0, 2 ^ 17 * 1000000000), (2 ^ 18 * 1000000000, 3 * 2 ^ 17 * 1000000000)] ∧
      getWellTimeframe (some names) = some ⟨2 ^ 18 * 1000000000, 3 * 2 ^ 17 * 1000000000⟩ ∧
      ((getWellTimeframe (some names)).bind fun tf => getShardsInTimeframe (some names) tf) =
        some ["2".data] := by
  decide

end CloudArchive.Store
