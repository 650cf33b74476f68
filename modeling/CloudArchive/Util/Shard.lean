import CloudArchive.FilePath

/-!
# Util — shard names and shard ids

A shard covers `shardQuant = 2^17` seconds. It is named by its start second shifted right by
`shardMaskBitCount`, in hexadecimal: `ShardNameToDateRange` parses the name, after
`trimVersion`, with `strconv.ParseInt(nm, 16, 64)`, shifts the value back as the shard's start
and takes `NextShardId` of that as its end. `GetShardId` rounds a time down to a multiple of
`shardQuant`.

The seconds are those of `entry.Timestamp.Sec`, counted from January 1 of year 1, as Go's
`time.Time` counts them inside: `GetShardId(t)` masks `entry.FromStandard(t).Sec`, which is
`t.Unix() + unixToInternal`, and `ShardNameToDateRange` returns the `StandardTime` of the start
and end `Sec` values, `time.Unix(Sec - unixToInternal, 0)`. A time is given by its Unix second
`t.Unix()`; as Go compares times, by its nanoseconds since year 1 (`unixTime`). So shard `0`
starts at the zero `time.Time`.

Go's `int64` arithmetic wraps around: the model computes each result exactly and reduces it
into `[-2^63, 2^63)` (`wrapInt64`). Away from the ends of the `int64` range the results are the
exact ones (`shardNameToDateRange_of_lt`, `getShardId_spec`); the name `3fffffffffff` and the
times of the last quantum reach the wrap (`shardNameToDateRange_last_quantum_wraps`).
-/

namespace CloudArchive.Util

open CloudArchive

/-! ## `int64` -/

/-- Go `int64` arithmetic: the exact result reduced into `[-2^63, 2^63)`. -/
def wrapInt64 (x : Int) : Int := x.bmod (2 ^ 64)

theorem wrapInt64_of_lt {x : Int} (h1 : -2 ^ 63 ≤ x) (h2 : x < 2 ^ 63) : wrapInt64 x = x := by
  have hm : ((2 ^ 64 : Nat) : Int) = 18446744073709551616 := by norm_num
  rw [wrapInt64, Int.bmod_def, hm]
  split <;> omega

/-- A wrapped result is in range and differs from the exact one by a multiple of `2^64`. -/
theorem wrapInt64_spec (x : Int) :
    -2 ^ 63 ≤ wrapInt64 x ∧ wrapInt64 x < 2 ^ 63 ∧ ∃ k, wrapInt64 x = x + k * 2 ^ 64 := by
  have hm : ((2 ^ 64 : Nat) : Int) = 18446744073709551616 := by norm_num
  rw [wrapInt64, Int.bmod_def, hm]
  norm_num
  split
  · exact ⟨by omega, by omega, -(x / 18446744073709551616), by omega⟩
  · exact ⟨by omega, by omega, -(x / 18446744073709551616) - 1, by omega⟩

/-- Wrapping after an addition to a wrapped value is wrapping the exact sum. -/
theorem wrapInt64_wrap_add (x y : Int) : wrapInt64 (wrapInt64 x + y) = wrapInt64 (x + y) :=
  Int.bmod_add_bmod_congr

/-! ## Times -/

/-- `unixToInternal`: the seconds from January 1 of year 1 to the Unix epoch. -/
def unixToInternal : Int := 62135596800

/-- `time.Unix(sec, 0)`, as the nanoseconds since year 1 Go orders times by: its internal
seconds are `sec + unixToInternal` in `int64` arithmetic. The zero `time.Time` is `0`. -/
def unixTime (sec : Int) : Int := wrapInt64 (sec + unixToInternal) * 1000000000

/-- `entry.Timestamp.StandardTime()` of a `Timestamp` with `Sec = sec` and no nanoseconds:
`time.Unix(sec + internalToUnix, 0)`. -/
def standardTime (sec : Int) : Int := unixTime (wrapInt64 (sec - unixToInternal))

/-- `entry.FromStandard(t).Sec` for the time `t` whose Unix second is `t`:
`t.Unix() + unixToInternal`. -/
def fromStandard (t : Int) : Int := wrapInt64 (t + unixToInternal)

/-- `StandardTime` counts from year 1, as `Sec` does: the two wraps cancel. -/
theorem standardTime_eq (sec : Int) : standardTime sec = wrapInt64 sec * 1000000000 := by
  rw [standardTime, unixTime, wrapInt64_wrap_add, sub_add_cancel]

theorem standardTime_of_lt {sec : Int} (h1 : -2 ^ 63 ≤ sec) (h2 : sec < 2 ^ 63) :
    standardTime sec = sec * 1000000000 := by
  rw [standardTime_eq, wrapInt64_of_lt h1 h2]

/-! ## Shard ids -/

/-- `ShardSet`. -/
def shardSet : Int := 0x1ffff

/-- `shardMaskBitCount`: the bits a shard name leaves out. -/
def shardMaskBitCount : Nat := 17

/-- `shardQuant`: the seconds of one shard. -/
def shardQuant : Int := shardSet + 1

theorem shardQuant_eq : shardQuant = 131072 := rfl

/-- `x & shardMask` for `shardMask = ^ShardSet`: the word with its low `shardMaskBitCount` bits
cleared, which is `x` rounded down to a multiple of `shardQuant`. -/
def andShardMask (x : Int) : Int := x - x % shardQuant

/-- `GetShardId(t)`, for `t` the Unix second of the time: `FromStandard(t).Sec & shardMask`. -/
def getShardId (t : Int) : Int := andShardMask (fromStandard t)

/-- `NextShardId(curr)`. -/
def nextShardId (curr : Int) : Int := wrapInt64 (andShardMask curr + shardQuant)

theorem andShardMask_spec (x : Int) :
    andShardMask x % shardQuant = 0 ∧ andShardMask x ≤ x ∧ x < andShardMask x + shardQuant := by
  simp only [andShardMask, shardQuant_eq]
  omega

theorem andShardMask_of_dvd {x : Int} (h : x % shardQuant = 0) : andShardMask x = x := by
  simp [andShardMask, h]

/-! ## Parsing a name -/

/-- The value of a digit for `strconv` in base 16: `0-9`, `a-f` or `A-F`. -/
def hexDigitValue (c : Char) : Option Nat :=
  if '0' ≤ c ∧ c ≤ '9' then some (c.toNat - '0'.toNat)
  else if 'a' ≤ c ∧ c ≤ 'f' then some (c.toNat - 'a'.toNat + 10)
  else if 'A' ≤ c ∧ c ≤ 'F' then some (c.toNat - 'A'.toNat + 10)
  else none

/-- The digit loop of `strconv.ParseUint(s, 16, 64)`; `acc` is the value of the digits read. -/
def hexAcc (acc : Nat) : List Char → Option Nat
  | [] => some acc
  | c :: cs => (hexDigitValue c).bind fun d => hexAcc (acc * 16 + d) cs

/-- The sign `strconv.ParseInt` takes off, and the rest. -/
def signDigits : List Char → Bool × List Char
  | '+' :: ds => (false, ds)
  | '-' :: ds => (true, ds)
  | ds => (false, ds)

/-- `strconv.ParseInt(s, 16, 64)`: an optional sign, then a non-empty run of hexadecimal digits
whose signed value fits `int64`. Its syntax and range errors are `none`. -/
def parseInt16 (s : List Char) : Option Int :=
  let (neg, ds) := signDigits s
  if ds = [] then none
  else
    match hexAcc 0 ds with
    | none => none
    | some n =>
      if neg then (if n ≤ 2 ^ 63 then some (-(n : Int)) else none)
      else if n < 2 ^ 63 then some n else none

/-- `ShardNameToDateRange(nm)`: the `Timestamp.Sec` values of the shard's start and end, the
seconds since year 1 whose `StandardTime` the call returns. -/
def shardNameToDateRange (nm : List Char) : Option (Int × Int) :=
  (parseInt16 (trimVersion nm)).map fun v =>
    let st := wrapInt64 (v * 2 ^ shardMaskBitCount)
    (st, nextShardId st)

/-- Inside the range a name's shard starts at `v * 2^17` and is one quantum long. -/
theorem shardNameToDateRange_of_lt {nm : List Char} {v : Int}
    (hv : parseInt16 (trimVersion nm) = some v) (h1 : -2 ^ 46 ≤ v) (h2 : v < 2 ^ 46 - 1) :
    shardNameToDateRange nm = some (v * 2 ^ 17, v * 2 ^ 17 + 2 ^ 17) := by
  have hp : (2 : Int) ^ 17 = 131072 := by norm_num
  have hs : wrapInt64 (v * 2 ^ shardMaskBitCount) = v * 2 ^ 17 :=
    wrapInt64_of_lt (by rw [shardMaskBitCount, hp]; norm_num at h1 ⊢; omega)
      (by rw [shardMaskBitCount, hp]; norm_num at h2 ⊢; omega)
  have hm : andShardMask (v * 2 ^ 17) = v * 2 ^ 17 :=
    andShardMask_of_dvd (by rw [shardQuant_eq, hp]; omega)
  have hn : nextShardId (v * 2 ^ 17) = v * 2 ^ 17 + 2 ^ 17 := by
    rw [nextShardId, hm, shardQuant_eq, hp]
    exact wrapInt64_of_lt (by norm_num at h1 ⊢; omega) (by norm_num at h2 ⊢; omega)
  simp only [shardNameToDateRange, hv, Option.map_some', hs, hn]

/-- Every shard a name parses to starts and ends on a multiple of `2^17` of the `int64` range. -/
theorem shardNameToDateRange_bounds {nm : List Char} {s e : Int}
    (h : shardNameToDateRange nm = some (s, e)) :
    -2 ^ 63 ≤ s ∧ s < 2 ^ 63 ∧ s % 2 ^ 17 = 0 ∧ -2 ^ 63 ≤ e ∧ e < 2 ^ 63 ∧ e % 2 ^ 17 = 0 := by
  obtain ⟨v, -, hv⟩ := Option.map_eq_some'.mp h
  obtain ⟨rfl, rfl⟩ := Prod.mk.inj hv
  obtain ⟨hs1, hs2, k, hk⟩ := wrapInt64_spec (v * 2 ^ shardMaskBitCount)
  obtain ⟨he1, he2, k', hk'⟩ := wrapInt64_spec (andShardMask (wrapInt64 (v * 2 ^ shardMaskBitCount)) + shardQuant)
  refine ⟨hs1, hs2, ?_, he1, he2, ?_⟩
  · rw [hk, shardMaskBitCount]; norm_num; omega
  · rw [nextShardId, hk', andShardMask, shardQuant_eq]; norm_num; omega

theorem shardNameToDateRange_769f2 :
    shardNameToDateRange "769f2".data = some (0x769f2 * 2 ^ 17, 0x769f2 * 2 ^ 17 + 2 ^ 17) :=
  shardNameToDateRange_of_lt rfl (by norm_num) (by norm_num)


/-! ## Shard names -/

/-- Modelled from the spec: the name of the shard of id `v`, Go `%x` of `v` (with a `-` before
a negative one). -/
def hexName (v : Int) : List Char :=
  if v < 0 then '-' :: Nat.toDigits 16 v.natAbs else Nat.toDigits 16 v.natAbs

theorem hexDigitValue_digitChar : ∀ m < 16, hexDigitValue (Nat.digitChar m) = some m := by
  decide

/-- `toDigitsCore 16` with enough fuel puts the digits of `n` in front of `ds`: they read back
as `n`, and each is a hexadecimal digit. -/
theorem hexAcc_toDigitsCore (fuel n : Nat) (ds : List Char) (h : n < fuel) :
    hexAcc 0 (Nat.toDigitsCore 16 fuel n ds) = hexAcc n ds ∧
      Nat.toDigitsCore 16 fuel n ds ≠ [] ∧
      ∀ c ∈ Nat.toDigitsCore 16 fuel n ds, c ∈ ds ∨ hexDigitValue c ≠ none := by
  induction fuel generalizing n ds with
  | zero => omega
  | succ fuel ih =>
    have hd := hexDigitValue_digitChar (n % 16) (Nat.mod_lt _ (by decide))
    have hdc : ∀ c ∈ Nat.digitChar (n % 16) :: ds, c ∈ ds ∨ hexDigitValue c ≠ none := by
      intro c hc
      rcases List.mem_cons.mp hc with rfl | hc
      · exact .inr (by simp [hd])
      · exact .inl hc
    simp only [Nat.toDigitsCore]
    split
    · refine ⟨?_, List.cons_ne_nil _ _, hdc⟩
      simp only [hexAcc, hd, Option.some_bind]
      congr 1
      omega
    · obtain ⟨hv, hne, hc⟩ := ih (n / 16) (Nat.digitChar (n % 16) :: ds) (by omega)
      refine ⟨?_, hne, fun c hc' => ?_⟩
      · simp only [hv, hexAcc, hd, Option.some_bind]
        congr 1
        omega
      · rcases hc c hc' with h | h
        · exact hdc c h
        · exact .inr h

theorem signDigits_of_digit {c : Char} (hc : hexDigitValue c ≠ none) (cs : List Char) :
    signDigits (c :: cs) = (false, c :: cs) := by
  have hp : c ≠ '+' := fun e => hc (by rw [e]; decide)
  have hm : c ≠ '-' := fun e => hc (by rw [e]; decide)
  unfold signDigits
  split <;> simp_all

/-- `ParseInt` reads back the name of every id of the `int64` range; the name holds no `.` and
no `/`. -/
theorem parseInt16_hexName {v : Int} (h1 : -2 ^ 63 ≤ v) (h2 : v < 2 ^ 63) :
    parseInt16 (hexName v) = some v ∧ ∀ c ∈ hexName v, c ≠ '.' ∧ c ≠ '/' := by
  obtain ⟨hv, hne, hc⟩ := hexAcc_toDigitsCore (v.natAbs + 1) v.natAbs [] (by omega)
  have hv' : hexAcc 0 (Nat.toDigits 16 v.natAbs) = some v.natAbs := hv
  have hsep : ∀ c ∈ Nat.toDigits 16 v.natAbs, c ≠ '.' ∧ c ≠ '/' := fun c h => by
    rcases hc c h with h | h
    · cases h
    · exact ⟨fun e => h (by rw [e]; decide), fun e => h (by rw [e]; decide)⟩
  obtain ⟨c, cs, hcs⟩ := List.exists_cons_of_ne_nil hne
  have hcs' : Nat.toDigits 16 v.natAbs = c :: cs := hcs
  unfold hexName
  split
  · refine ⟨?_, fun c h => ?_⟩
    · have hv'' : hexAcc 0 (c :: cs) = some v.natAbs := hcs' ▸ hv'
      simp only [parseInt16, signDigits, hcs', hv'', List.cons_ne_nil, if_false, if_true]
      rw [if_pos (by omega)]
      congr 1
      omega
    · rcases List.mem_cons.mp h with rfl | h
      · decide
      · exact hsep c h
  · have hd : hexDigitValue c ≠ none := by
      rcases hc c (by rw [hcs]; exact List.mem_cons_self _ _) with h | h
      · cases h
      · exact h
    refine ⟨?_, hsep⟩
    have hv'' : hexAcc 0 (c :: cs) = some v.natAbs := hcs' ▸ hv'
    simp only [parseInt16, hcs', signDigits_of_digit hd, List.cons_ne_nil, if_false, hv'',
      Bool.false_eq_true]
    rw [if_pos (by omega)]
    congr 1
    omega

theorem trimVersion_of_forall {p : List Char} (h : ∀ c ∈ p, c ≠ '.' ∧ c ≠ '/') :
    trimVersion p = p := by
  have h' : ∀ c ∈ p.reverse, decide (c ≠ '.' ∧ c ≠ '/') = true := by simpa using h
  have hext : ext p = [] := by
    simp only [ext, List.span_eq_take_drop, List.takeWhile_eq_self_iff.mpr h',
      List.dropWhile_eq_nil_iff.mpr h']
  simp [trimVersion, hext, trimSuffix]

/-- The shard of a `Sec` value `x` outside the last quantum of the `int64` range: its id
`andShardMask x` is a multiple of `2^17` with `id ≤ x < NextShardId(id) = id + 2^17`, and
`ShardNameToDateRange` of its name is `(id, NextShardId(id))`. -/
theorem andShardMask_shard {x : Int} (h1 : -2 ^ 63 ≤ x) (h2 : x < 2 ^ 63 - 2 ^ 17) :
    andShardMask x % 2 ^ 17 = 0 ∧ andShardMask x ≤ x ∧ x < nextShardId (andShardMask x) ∧
      nextShardId (andShardMask x) = andShardMask x + 2 ^ 17 ∧
      shardNameToDateRange (hexName (andShardMask x / 2 ^ 17)) =
        some (andShardMask x, nextShardId (andShardMask x)) := by
  obtain ⟨hdvd, hle, hlt⟩ := andShardMask_spec x
  have hp : (2 : Int) ^ 17 = 131072 := by norm_num
  rw [shardQuant_eq] at hdvd hlt
  norm_num at h1 h2
  have hn : nextShardId (andShardMask x) = andShardMask x + 2 ^ 17 := by
    rw [nextShardId, andShardMask_of_dvd (by rw [shardQuant_eq]; exact hdvd), shardQuant_eq, hp]
    exact wrapInt64_of_lt (by omega) (by omega)
  have hv : -2 ^ 63 ≤ andShardMask x / 2 ^ 17 ∧ andShardMask x / 2 ^ 17 < 2 ^ 63 := by
    rw [hp]; norm_num; omega
  obtain ⟨hparse, hsep⟩ := parseInt16_hexName hv.1 hv.2
  have hname := shardNameToDateRange_of_lt ((trimVersion_of_forall hsep).symm ▸ hparse)
    (by rw [hp]; norm_num; omega) (by rw [hp]; norm_num; omega)
  have hmul : andShardMask x / 2 ^ 17 * 2 ^ 17 = andShardMask x := by rw [hp]; omega
  refine ⟨by rw [hp]; exact hdvd, hle, ?_, hn, ?_⟩
  · rw [hn, hp]; omega
  · rw [hname, hmul, hn]

/-- **Shard ids.** For a time `t` whose second since year 1, `FromStandard(t).Sec`, is in the
`int64` range outside its last quantum, the shard id `s = GetShardId(t)` is a multiple of `2^17`
with `s ≤ FromStandard(t).Sec < NextShardId(s) = s + 2^17`, and `ShardNameToDateRange` of the
shard's name, the hexadecimal of `s / 2^17`, is `(s, NextShardId(s))`. The two times that call
returns hold `t`: `StandardTime(s) ≤ t < StandardTime(NextShardId(s))`. -/
theorem getShardId_spec {t : Int} (h1 : -2 ^ 63 ≤ t) (h2 : t + unixToInternal < 2 ^ 63 - 2 ^ 17) :
    getShardId t % 2 ^ 17 = 0 ∧ getShardId t ≤ fromStandard t ∧
      fromStandard t < nextShardId (getShardId t) ∧
      nextShardId (getShardId t) = getShardId t + 2 ^ 17 ∧
      shardNameToDateRange (hexName (getShardId t / 2 ^ 17)) =
        some (getShardId t, nextShardId (getShardId t)) ∧
      standardTime (getShardId t) ≤ unixTime t ∧
      unixTime t < standardTime (nextShardId (getShardId t)) := by
  have hu : unixToInternal = 62135596800 := rfl
  have hx : fromStandard t = t + unixToInternal :=
    wrapInt64_of_lt (by rw [hu]; omega) (by norm_num at h2 ⊢; omega)
  obtain ⟨hdvd, hle, hlt, hn, hname⟩ := andShardMask_shard (x := fromStandard t)
    (by rw [hx, hu]; omega) (by rw [hx]; exact h2)
  have hs : -2 ^ 63 ≤ getShardId t := by
    rw [getShardId, andShardMask, hx, hu, shardQuant_eq]; omega
  have ht : unixTime t = fromStandard t * 1000000000 := by rw [unixTime, ← fromStandard]
  rw [← getShardId] at hdvd hle hlt hn hname
  refine ⟨hdvd, hle, hlt, hn, hname, ?_, ?_⟩
  · rw [standardTime_of_lt hs (by omega), ht]; omega
  · rw [hn, standardTime_of_lt (by omega) (by rw [hx] at hle; norm_num at h2 hle ⊢; omega), ht]
    omega

theorem getShardId_spec_1700000000 :
    (-2 ^ 63 ≤ (1700000000 : Int) ∧ 1700000000 + unixToInternal < 2 ^ 63 - 2 ^ 17) ∧
      getShardId 1700000000 % 2 ^ 17 = 0 ∧ getShardId 1700000000 ≤ fromStandard 1700000000 ∧
      fromStandard 1700000000 < nextShardId (getShardId 1700000000) ∧
      nextShardId (getShardId 1700000000) = getShardId 1700000000 + 2 ^ 17 ∧
      shardNameToDateRange (hexName (getShardId 1700000000 / 2 ^ 17)) =
        some (getShardId 1700000000, nextShardId (getShardId 1700000000)) ∧
      standardTime (getShardId 1700000000) ≤ unixTime 1700000000 ∧
      unixTime 1700000000 < standardTime (nextShardId (getShardId 1700000000)) :=
  ⟨⟨by norm_num, by norm_num [unixToInternal]⟩, getShardId_spec (by norm_num) (by norm_num [unixToInternal])⟩

/-- **A shard name whose range wraps.** `3fffffffffff` parses to `2^46 - 1`, whose start
`(2^46 - 1) << 17 = 2^63 - 2^17` still fits `int64`; `NextShardId` of it wraps to `-2^63`, so
the end lies before the start. The time whose `FromStandard` second is `2^63 - 1` (its Unix
second is `2^63 - 1 - unixToInternal`), in that last quantum, has this shard's id, and is not
before the id's `NextShardId`. The ids count seconds from year 1: the time whose Unix second is
`1700000000` has the id `63835471872`. -/
theorem shardNameToDateRange_last_quantum_wraps :
    parseInt16 "3fffffffffff".data = some (2 ^ 46 - 1) ∧
      shardNameToDateRange "3fffffffffff".data = some (2 ^ 63 - 2 ^ 17, -2 ^ 63) ∧
      getShardId (2 ^ 63 - 1 - unixToInternal) = 2 ^ 63 - 2 ^ 17 ∧
      nextShardId (2 ^ 63 - 2 ^ 17) = -2 ^ 63 ∧ getShardId 1700000000 = 63835471872 :=
  ⟨rfl, rfl, rfl, rfl, rfl⟩

end CloudArchive.Util
