import CloudArchive.Tags.TagMan

/-!
# Tags — the process-wide registry of `manager.go`

`tagSets` maps a `(customer id, indexer UUID)` key to the open `TagMan` of that indexer and
its handle count; `nil` after `CloseTagSets`. The managers themselves are reduced to what the
registry can observe: a pointer (an index into the managers opened so far) and the manager's
`active` flag, which `TagMan.Close` clears whatever it returns (`TagMan.close_active`).

Every call that opens or closes a manager takes the outcome of that `New` or `Close` as an
argument, so a run of the registry covers every success and failure of the file layer.

`ReleaseTagMan` decrements a copy of the entry and writes it back only on the paths that do
not close. When the last release's `Close` fails, the entry keeps its old count on a closed
manager, and the next `GetTagMan` for the key hands that closed manager out.
-/

namespace CloudArchive.Tags

/-- `TagMan.Close` clears `active` on every path. -/
theorem TagMan.close_active (tm : TagMan) : (tm.close).2.active = false := by
  unfold TagMan.close
  dsimp only
  split
  · rfl
  · split <;> rfl

/-- `keystr`: a customer id and an indexer UUID. -/
structure Key where
  id : UInt64
  guid : BitVec 128
  deriving DecidableEq

/-- `vset`: a manager (the pointer `tm`) and its handle count. -/
structure VSet where
  tm : Nat
  handles : Nat
  deriving DecidableEq

/-- The state of `manager.go`: `tagSets` (`none` is Go's `nil` map), the `active` flag of
every manager opened so far, and how many were opened. -/
structure Registry where
  tagSets : Option (Key → Option VSet)
  active : Nat → Bool
  opened : Nat

/-- The registry after `init()`: an empty map, no manager opened. -/
def Registry.init : Registry := ⟨some fun _ => none, fun _ => false, 0⟩

/-- `ErrManagerClosed`. -/
def errManagerClosed : TagErr := .msg "Manager is closed"

/-- `ErrOpenHandles`. -/
def errOpenHandles : TagErr := .msg "tag manager has open handles is closed"

/-- `ErrNoActiveHandles`. -/
def errNoActiveHandles : TagErr := .msg "tag manager is not active"

/-- `GetTagMan`; `newOk` is the outcome of the `New` it may call (a failed `New` returns its
error, modelled as `TagErr.io`). A missing entry reads as Go's zero `vset`. -/
def Registry.getTagMan (r : Registry) (k : Key) (newOk : Bool) : Except TagErr Nat × Registry :=
  match r.tagSets with
  | none => (.error errManagerClosed, r)
  | some sets =>
    let v := (sets k).getD ⟨0, 0⟩
    if (sets k).isNone || v.handles == 0 then
      if newOk then
        (.ok r.opened, ⟨some (Function.update sets k (some ⟨r.opened, v.handles + 1⟩)),
          Function.update r.active r.opened true, r.opened + 1⟩)
      else (.error .io, r)
    else
      (.ok v.tm, { r with tagSets := some (Function.update sets k (some ⟨v.tm, v.handles + 1⟩)) })

/-- `ReleaseTagMan`; `closeOk` is the outcome of the `Close` of the last release. The count is
decremented in a copy `v`, written back only when it stays positive; on the last release the
entry is deleted only if `Close` succeeds. -/
def Registry.releaseTagMan (r : Registry) (k : Key) (closeOk : Bool) : Except TagErr Unit × Registry :=
  match r.tagSets with
  | none => (.error errManagerClosed, r)
  | some sets =>
    match sets k with
    | none => (.error errNoActiveHandles, r)
    | some v =>
      if v.handles == 0 then (.error errNoActiveHandles, r)
      else if v.handles - 1 == 0 then
        let r := { r with active := Function.update r.active v.tm false }
        if closeOk then (.ok (), { r with tagSets := some (Function.update sets k none) })
        else (.error .io, r)
      else
        (.ok (), { r with tagSets := some (Function.update sets k (some ⟨v.tm, v.handles - 1⟩)) })

/-! ### What one call of the registry does

On a live map (not `nil`), by the key's entry: a missing key gets a new manager with one
handle when `New` succeeds; an entry with handles gets one more; a release takes one away and,
on the last one, closes the manager and deletes the entry when `Close` succeeds. -/

section Calls

variable {r : Registry} {sets : Key → Option VSet} {k : Key} (hs : r.tagSets = some sets)
include hs

theorem Registry.getTagMan_new (hk : sets k = none) :
    r.getTagMan k true = (.ok r.opened, ⟨some (Function.update sets k (some ⟨r.opened, 1⟩)),
      Function.update r.active r.opened true, r.opened + 1⟩) := by
  simp [Registry.getTagMan, hs, hk]

theorem Registry.getTagMan_new_fails (hk : sets k = none) : r.getTagMan k false = (.error .io, r) := by
  simp [Registry.getTagMan, hs, hk]

theorem Registry.getTagMan_shared {v : VSet} (hk : sets k = some v) (hv : 0 < v.handles)
    (newOk : Bool) : r.getTagMan k newOk =
      (.ok v.tm, { r with tagSets := some (Function.update sets k (some ⟨v.tm, v.handles + 1⟩)) }) := by
  simp [Registry.getTagMan, hs, hk, Nat.pos_iff_ne_zero.mp hv]

theorem Registry.releaseTagMan_last {v : VSet} (hk : sets k = some v) (hv : v.handles = 1) :
    r.releaseTagMan k true = (.ok (), ⟨some (Function.update sets k none),
      Function.update r.active v.tm false, r.opened⟩) := by
  simp [Registry.releaseTagMan, hs, hk, hv]

theorem Registry.releaseTagMan_shared {v : VSet} (hk : sets k = some v) (hv : 1 < v.handles)
    (closeOk : Bool) : r.releaseTagMan k closeOk =
      (.ok (), { r with tagSets := some (Function.update sets k (some ⟨v.tm, v.handles - 1⟩)) }) := by
  have h0 : v.handles ≠ 0 := by omega
  have h1 : v.handles - 1 ≠ 0 := by omega
  simp [Registry.releaseTagMan, hs, hk, h0, h1]

end Calls

/-- The `range` loop of `CloseTagSets` over the keys in the order the map iteration visits
them: stop at the first entry with open handles or whose `Close` fails (`closeOk`), else
close and delete it. -/
def Registry.closeLoop (r : Registry) (sets : Key → Option VSet) (closeOk : Key → Bool) :
    List Key → Except TagErr Unit × Registry
  | [] => (.ok (), r)
  | k :: ks =>
    match sets k with
    | none => r.closeLoop sets closeOk ks
    | some v =>
      if v.handles > 0 then (.error errOpenHandles, r)
      else
        let r := { r with active := Function.update r.active v.tm false }
        if closeOk k then r.closeLoop (Function.update sets k none) closeOk ks
        else (.error .io, r)

/-- `CloseTagSets` with the map iterated in the order `order` (Go's map order is random: a
run may pick any order of the present keys). The map is set to `nil` on every path. -/
def Registry.closeTagSets (r : Registry) (order : List Key) (closeOk : Key → Bool) :
    Except TagErr Unit × Registry :=
  match r.tagSets with
  | none => (.ok (), r)
  | some sets =>
    let res := r.closeLoop sets closeOk order
    (res.1, { res.2 with tagSets := none })

/-- **A closed manager handed out.** `GetTagMan` opens manager `0` for a key; the release of
that only handle fails in `Close`, which has already marked the manager inactive; the next
`GetTagMan` for the key succeeds and returns the same, inactive, manager. -/
theorem getTagMan_after_failed_close_returns_inactive :
    let k : Key := ⟨1337, 0⟩
    let r₁ := (Registry.init.getTagMan k true).2
    let r₂ := (r₁.releaseTagMan k false).2
    (Registry.init.getTagMan k true).1 = .ok 0 ∧
      (r₁.releaseTagMan k false).1 = .error .io ∧
      (r₂.getTagMan k true).1 = .ok 0 ∧
      (r₂.getTagMan k true).2.active 0 = false :=
  ⟨rfl, rfl, rfl, rfl⟩

/-- `CloseTagSets` leaves `tagSets` `nil` on every path, whatever it returns. -/
theorem Registry.closeTagSets_tagSets (r : Registry) (order : List Key) (closeOk : Key → Bool) :
    (r.closeTagSets order closeOk).2.tagSets = none := by
  unfold Registry.closeTagSets
  split
  · assumption
  · rfl

/-- **A refused `CloseTagSets` that closes the registry.** With one manager holding one
handle, `CloseTagSets` returns `ErrOpenHandles`, but has set `tagSets` to `nil`: the next
`GetTagMan` and `ReleaseTagMan` of the key fail with `ErrManagerClosed`, where without the
call they succeed. -/
theorem closeTagSets_open_handles_closes_registry :
    let k : Key := ⟨1337, 0⟩
    let r := (Registry.init.getTagMan k true).2
    let r' := (r.closeTagSets [k] fun _ => true).2
    (r.closeTagSets [k] fun _ => true).1 = .error errOpenHandles ∧
      (r.getTagMan k true).1 = .ok 0 ∧ (r'.getTagMan k true).1 = .error errManagerClosed ∧
      (r.releaseTagMan k true).1 = .ok () ∧ (r'.releaseTagMan k true).1 = .error errManagerClosed :=
  ⟨rfl, rfl, rfl, rfl, rfl⟩

end CloudArchive.Tags
