import CloudArchive.Tags.Manager

/-!
# Store — tag requests sharing the manager registry

Six handlers take a `TagMan` from the registry of `tags/manager.go`: `GetTags` and `SyncTags`
of the file store and of the FTP store, and the two stores' `handler.HandleTagUpdate`, which
`UnpackShard` calls. Each calls `GetTagMan`, works on the manager (`Merge`, `TagSet`), and
calls `ReleaseTagMan` on every path after a successful `GetTagMan`. They are written as
`Code`, as the uploads are in `Store.Upload`: the registry calls, the manager calls, and every
other call whose failure changes the path, with the code that runs on that failure. The
registry's key is the customer number and indexer GUID; the directory `GetTagMan` is given
only matters to the `New` it may make, whose outcome the environment decides.

The registry's mutex makes each of its calls one atomic step, and any number of requests
interleave (`Sys`). The environment decides each `New`, each `Close` and each other call. In
every state a run reaches while every `Close` succeeds (`Sys.Inv`):

* a key's entry counts exactly the requests holding a handle on it, and no key without an
  entry has one;
* every holder holds its key's entry's manager;
* the open managers are exactly the entries' managers, and no two keys share one.

So a request only ever calls an open manager, no open manager is lost from the map, and a
request that has returned called `ReleaseTagMan` exactly once if its `GetTagMan` succeeded and
never otherwise. A failed `Close` breaks the invariant: the entry keeps its last handle and a
closed manager, which the next `GetTagMan` of that key returns (see `Tags.Manager`).
`CloseTagSets` is left out: only the tests call it.
-/

namespace CloudArchive.Store.TagRequests

open CloudArchive.Tags

/-- A handler body, as far as the registry sees it. -/
inductive Code
  /-- `return` -/
  | ret
  /-- `tm, err = tags.GetTagMan(cid, guid, dir)`, returning on an error -/
  | getTagMan (k : Code)
  /-- `tags.ReleaseTagMan(cid, guid)`: `onErr` runs when it answers an error, `k` when not -/
  | release (onErr k : Code)
  /-- a call of the manager the request holds -/
  | useTm (name : String) (onErr k : Code)
  /-- a call that leaves the registry and the managers alone -/
  | call (name : String) (onErr k : Code)
  deriving DecidableEq, Repr

/-- `ReleaseTagMan`, then `return` whatever it answers. -/
def Code.releaseRet : Code := .release .ret .ret

/-- Both stores' `GetTags` from `GetTagMan` on: `TagSet`, then the release. -/
def getTagSet : Code := .getTagMan <| .useTm "TagSet" .releaseRet .releaseRet

/-- Both stores' `SyncTags` from `GetTagMan` on: `Merge`, releasing and returning on its
error, then `TagSet` and the release. -/
def mergeTagSet : Code :=
  .getTagMan <| .useTm "Merge" .releaseRet <| .useTm "TagSet" .releaseRet .releaseRet

/-- `filestore.GetTags`. -/
def Filestore.getTags : Code := getTagSet

/-- `filestore.SyncTags`: the indexer's directory is made when `writableDir` refuses it. -/
def Filestore.syncTags : Code :=
  .call "writableDir" (.call "os.MkdirAll" .ret mergeTagSet) mergeTagSet

/-- `filestore` `handler.HandleTagUpdate`: its answer is `ReleaseTagMan`'s. -/
def Filestore.handleTagUpdate : Code := .getTagMan <| .useTm "Merge" .releaseRet .releaseRet

/-- `ftpstore.GetTags`; `ensureTagsDat`'s error is ignored. -/
def Ftpstore.getTags : Code :=
  .call "getFtpClient" .ret <| .call "ensureTagsDat" getTagSet getTagSet

/-- `ftpstore.SyncTags`; `ensureTagsDat`'s error is ignored. -/
def Ftpstore.syncTags : Code :=
  .call "getFtpClient" .ret <| .call "ensureTagsDat" mergeTagSet mergeTagSet

/-- `ftpstore` `handler.HandleTagUpdate`: `tags.dat` is pushed back after a successful
release. -/
def Ftpstore.handleTagUpdate : Code :=
  .call "ensureTagsDat" .ret <| .getTagMan <| .useTm "Merge" .releaseRet <|
    .release .ret (.call "pushTagsDat" .ret .ret)

/-- The handlers a request may run. -/
inductive Handler
  | filestoreGetTags | filestoreSyncTags | filestoreTagUpdate
  | ftpstoreGetTags | ftpstoreSyncTags | ftpstoreTagUpdate

/-- The body of a handler. -/
def Handler.code : Handler → Code
  | .filestoreGetTags => Filestore.getTags
  | .filestoreSyncTags => Filestore.syncTags
  | .filestoreTagUpdate => Filestore.handleTagUpdate
  | .ftpstoreGetTags => Ftpstore.getTags
  | .ftpstoreSyncTags => Ftpstore.syncTags
  | .ftpstoreTagUpdate => Ftpstore.handleTagUpdate

/-! ## Bracketing, read off the code -/

/-- Every path leaves the registry alone. -/
def Code.noRegistry : Code → Bool
  | .ret => true
  | .getTagMan _ | .release _ _ | .useTm _ _ _ => false
  | .call _ e k => e.noRegistry && k.noRegistry

/-- Holding a handle: every path calls `ReleaseTagMan` exactly once, calls the manager only
before it, and never calls `GetTagMan`. -/
def Code.releasesOnce : Code → Bool
  | .ret | .getTagMan _ => false
  | .release e k => e.noRegistry && k.noRegistry
  | .useTm _ e k | .call _ e k => e.releasesOnce && k.releasesOnce

/-- Before `GetTagMan` nothing touches the registry or a manager; after a successful one
every path releases once. -/
def Code.wellBracketed : Code → Bool
  | .ret => true
  | .getTagMan k => k.releasesOnce
  | .release _ _ | .useTm _ _ _ => false
  | .call _ e k => e.wellBracketed && k.wellBracketed

/-- Every handler is well bracketed. -/
theorem Handler.code_wellBracketed (h : Handler) : h.code.wellBracketed = true := by
  cases h <;> rfl

/-! ## Concurrent requests -/

/-- A request in flight: the registry key of its indexer, the code it has left, the manager
it holds a handle on, whether its `GetTagMan` succeeded, and how many `ReleaseTagMan`s it has
made. -/
structure Req where
  key : Key
  code : Code
  held : Option Nat
  acquired : Bool
  releases : Nat

/-- The request holds a handle on `key`'s entry. -/
def Req.holds (c : Req) (key : Key) : Bool := c.key == key && c.held.isSome

/-- How many of the first `n` requests hold a handle on `key`. -/
def holders (reqs : Nat → Req) (key : Key) : Nat → Nat
  | 0 => 0
  | n + 1 => holders reqs key n + ((reqs n).holds key).toNat

/-- The requests so far (`reqs i` for `i < count`) and the registry they share. -/
structure Sys where
  reg : Registry
  reqs : Nat → Req
  count : Nat

/-- No request yet, and the registry `init` makes. -/
def Sys.init : Sys := ⟨Registry.init, fun _ => ⟨⟨0, 0⟩, .ret, none, false, 0⟩, 0⟩

/-- The registry's entries, none while its map is `nil`. -/
def Sys.entries (s : Sys) : Key → Option VSet := s.reg.tagSets.getD fun _ => none

@[simp] theorem Sys.entries_mk (E : Key → Option VSet) (a : Nat → Bool) (o : Nat)
    (reqs : Nat → Req) (n : Nat) : Sys.entries ⟨⟨some E, a, o⟩, reqs, n⟩ = E := rfl

/-- The manager of `key`'s entry. -/
def Sys.managerOf (s : Sys) (key : Key) : Option Nat := (s.entries key).map VSet.tm

/-- The handle count of `key`'s entry, `0` without one. -/
def Sys.handlesOf (s : Sys) (key : Key) : Nat := ((s.entries key).map VSet.handles).getD 0

@[simp] theorem Sys.managerOf_mk (E : Key → Option VSet) (a : Nat → Bool) (o : Nat)
    (reqs : Nat → Req) (n : Nat) (key : Key) :
    Sys.managerOf ⟨⟨some E, a, o⟩, reqs, n⟩ key = (E key).map VSet.tm := rfl

@[simp] theorem Sys.handlesOf_mk (E : Key → Option VSet) (a : Nat → Bool) (o : Nat)
    (reqs : Nat → Req) (n : Nat) (key : Key) :
    Sys.handlesOf ⟨⟨some E, a, o⟩, reqs, n⟩ key = ((E key).map VSet.handles).getD 0 := rfl

/-- Setting `k`'s entry changes the manager of `k` alone. -/
theorem Sys.managerOf_update (s : Sys) (k : Key) (o : Option VSet) (key : Key) :
    (Function.update s.entries k o key).map VSet.tm =
      if key = k then o.map VSet.tm else s.managerOf key := by
  by_cases hk : key = k
  · subst hk; simp
  · simp [Sys.managerOf, hk]

/-- What happens next: a new request for `key` runs handler `h`, or request `i` makes its
next call. `newOk` is the outcome of the `New` a `GetTagMan` may make, `closeOk` that of the
`Close` a last `ReleaseTagMan` makes, `fail` that of any other call. -/
inductive Event
  | start (key : Key) (h : Handler)
  | run (i : Nat) (newOk closeOk fail : Bool)

/-- The `Close` the event may make succeeds. -/
def Event.closeOk : Event → Bool
  | .start _ _ => true
  | .run _ _ ok _ => ok

/-- One step of request `i` whose state is `c`. -/
def Sys.runReq (s : Sys) (i : Nat) (c : Req) (newOk closeOk fail : Bool) : Option Sys :=
  match c.code with
  | .ret => none
  | .getTagMan k =>
    match s.reg.getTagMan c.key newOk with
    | (.ok n, r) =>
      some ⟨r, Function.update s.reqs i { c with code := k, held := some n, acquired := true },
        s.count⟩
    | (.error _, r) => some ⟨r, Function.update s.reqs i { c with code := .ret }, s.count⟩
  | .release e k =>
    match s.reg.releaseTagMan c.key closeOk with
    | (.ok (), r) => some ⟨r, Function.update s.reqs i
        { c with code := k, held := none, releases := c.releases + 1 }, s.count⟩
    | (.error _, r) => some ⟨r, Function.update s.reqs i
        { c with code := e, held := none, releases := c.releases + 1 }, s.count⟩
  | .useTm _ e k | .call _ e k =>
    some { s with reqs := Function.update s.reqs i { c with code := if fail then e else k } }

/-- One step of the system. -/
def Sys.step (s : Sys) : Event → Option Sys
  | .start key h =>
    some ⟨s.reg, Function.update s.reqs s.count ⟨key, h.code, none, false, 0⟩, s.count + 1⟩
  | .run i newOk closeOk fail =>
    if i < s.count then s.runReq i (s.reqs i) newOk closeOk fail else none

/-- The events of a trace, in order. -/
def Sys.run (s : Sys) : List Event → Option Sys
  | [] => some s
  | e :: es => (s.step e).bind (·.run es)

/-! ## Counting holders -/

section Holders

variable {reqs : Nat → Req} {key : Key}

theorem holders_congr {reqs' : Nat → Req} {n : Nat}
    (h : ∀ j < n, (reqs' j).holds key = (reqs j).holds key) :
    holders reqs' key n = holders reqs key n := by
  induction n with
  | zero => rfl
  | succ n ih => simp only [holders, ih fun j hj => h j (by omega), h n (by omega)]

/-- Replacing request `i` by `c'` trades its handle for `c'`'s. -/
theorem holders_update {i n : Nat} (hi : i < n) (c' : Req) :
    holders (Function.update reqs i c') key n + ((reqs i).holds key).toNat =
      holders reqs key n + (c'.holds key).toNat := by
  induction n with
  | zero => exact absurd hi (Nat.not_lt_zero _)
  | succ n ih =>
    simp only [holders]
    rcases Nat.lt_succ_iff_lt_or_eq.mp hi with hlt | rfl
    · rw [Function.update_noteq (by omega)]
      have := ih hlt
      omega
    · rw [Function.update_same,
        holders_congr fun j hj => by rw [Function.update_noteq (by omega)]]
      omega

/-- Replacing a request by one with the same handle keeps every count. -/
theorem holders_update_of_holds {i n : Nat} (hi : i < n) {c' : Req}
    (h : c'.holds key = (reqs i).holds key) :
    holders (Function.update reqs i c') key n = holders reqs key n := by
  have := @holders_update reqs key _ _ hi c'
  rw [h] at this
  omega

theorem holders_eq_zero {n : Nat} :
    holders reqs key n = 0 ↔ ∀ j < n, (reqs j).holds key = false := by
  induction n with
  | zero => simp [holders]
  | succ n ih =>
    simp only [holders, Nat.add_eq_zero, ih, Bool.toNat_eq_zero]
    constructor
    · rintro ⟨h, hn⟩ j hj
      rcases Nat.lt_succ_iff_lt_or_eq.mp hj with hj | rfl
      exacts [h j hj, hn]
    · exact fun h => ⟨fun j hj => h j (by omega), h n (by omega)⟩

end Holders

/-! ## What a request owes -/

/-- What a request still owes: before `GetTagMan` a well-bracketed body; while it holds a
handle, one `ReleaseTagMan` on every path; afterwards nothing. -/
def Req.Inv (c : Req) : Prop :=
  (c.held = none ∧ c.acquired = false ∧ c.releases = 0 ∧ c.code.wellBracketed) ∨
  (c.held.isSome ∧ c.acquired = true ∧ c.releases = 0 ∧ c.code.releasesOnce) ∨
  (c.held = none ∧ c.acquired = true ∧ c.releases = 1 ∧ c.code.noRegistry)

section Req

variable {c : Req}

theorem Req.Inv.getTagMan (h : c.Inv) {k : Code} (hc : c.code = .getTagMan k) :
    c.held = none ∧ c.acquired = false ∧ c.releases = 0 ∧ k.releasesOnce := by
  rcases h with h | ⟨-, -, -, h⟩ | ⟨-, -, -, h⟩ <;>
    simp_all [Code.wellBracketed, Code.releasesOnce, Code.noRegistry]

theorem Req.Inv.release (h : c.Inv) {e k : Code} (hc : c.code = .release e k) :
    c.held.isSome ∧ c.acquired = true ∧ c.releases = 0 ∧ e.noRegistry ∧ k.noRegistry := by
  rcases h with ⟨-, -, -, h⟩ | h | ⟨-, -, -, h⟩ <;>
    simp_all [Code.wellBracketed, Code.releasesOnce, Code.noRegistry]

/-- A call with two continuations keeps the request's phase. -/
theorem Req.Inv.next (h : c.Inv) {e k : Code}
    (hwb : c.code.wellBracketed → e.wellBracketed ∧ k.wellBracketed)
    (hro : c.code.releasesOnce → e.releasesOnce ∧ k.releasesOnce)
    (hnr : c.code.noRegistry → e.noRegistry ∧ k.noRegistry) (b : Bool) :
    Req.Inv { c with code := if b then e else k } := by
  rcases h with ⟨h1, h2, h3, h⟩ | ⟨h1, h2, h3, h⟩ | ⟨h1, h2, h3, h⟩ <;> cases b <;>
    simp_all [Req.Inv]

end Req

/-! ## The registry's invariant -/

/-- The registry against the requests, while every `Close` succeeds. -/
structure Sys.Inv (s : Sys) : Prop where
  reqs : ∀ i < s.count, (s.reqs i).Inv
  /-- the map is never `nil`: only `CloseTagSets` makes it so -/
  live : s.reg.tagSets = some s.entries
  /-- an entry counts its holders, and a key without one has none -/
  handles : ∀ key, holders s.reqs key s.count = s.handlesOf key
  /-- an entry has a holder -/
  pos : ∀ key v, s.entries key = some v → 0 < v.handles
  /-- a holder holds its key's entry's manager -/
  held : ∀ i < s.count, ∀ n, (s.reqs i).held = some n → s.managerOf (s.reqs i).key = some n
  /-- the open managers are the entries' -/
  active : ∀ n, s.reg.active n = true ↔ ∃ key, s.managerOf key = some n
  /-- no two keys share a manager -/
  distinct : ∀ k₁ k₂ n, s.managerOf k₁ = some n → s.managerOf k₂ = some n → k₁ = k₂
  /-- every open manager was made by some `New` before -/
  fresh : ∀ n, s.reg.active n = true → n < s.reg.opened

theorem Sys.Inv.init : Sys.init.Inv where
  reqs _ h := absurd h (Nat.not_lt_zero _)
  live := rfl
  handles _ := rfl
  pos _ _ h := by simp [Sys.entries, Sys.init, Registry.init] at h
  held _ h := absurd h (Nat.not_lt_zero _)
  active _ := by simp [Sys.managerOf, Sys.entries, Sys.init, Registry.init]
  distinct _ _ _ h := by simp [Sys.managerOf, Sys.entries, Sys.init, Registry.init] at h
  fresh _ h := by simp [Sys.init, Registry.init] at h

section Step

variable {s : Sys} {i : Nat}

/-- A key other than request `i`'s keeps its holders. -/
theorem holders_of_ne (hi : i < s.count) {c' : Req} (hkey : c'.key = (s.reqs i).key) {key : Key}
    (hk : key ≠ (s.reqs i).key) :
    holders (Function.update s.reqs i c') key s.count = holders s.reqs key s.count :=
  holders_update_of_holds hi <| by simp [Req.holds, hkey, beq_eq_false_iff_ne.mpr (Ne.symm hk)]

variable (hi : i < s.count) (hs : s.Inv)
include hs

/-- A holder other than request `i` keeps its manager when `key`'s entry keeps its manager
for every other holder of `key`. -/
theorem Sys.Inv.held_update {o : Option VSet} {key : Key}
    (hother : ∀ j < s.count, j ≠ i → (s.reqs j).held.isSome → (s.reqs j).key = key →
      o.map VSet.tm = s.managerOf key) :
    ∀ j < s.count, j ≠ i → ∀ n, (s.reqs j).held = some n →
      (Function.update s.entries key o (s.reqs j).key).map VSet.tm = some n := by
  intro j hj hji n hn
  by_cases hk : (s.reqs j).key = key
  · rw [hk, Function.update_same, hother j hj hji (by simp [hn]) hk, ← hk]
    exact hs.held j hj n hn
  · rw [Function.update_noteq hk]
    exact hs.held j hj n hn

/-- Setting `k`'s entry to one with a holder, or to none, keeps every entry's holder. -/
theorem Sys.Inv.pos_update {k : Key} {o : Option VSet} (ho : ∀ w, o = some w → 0 < w.handles) :
    ∀ key w, Function.update s.entries k o key = some w → 0 < w.handles := fun key w hw => by
  by_cases hk : key = k
  · subst hk; exact ho w (by simpa using hw)
  · exact hs.pos key w (by simpa [hk] using hw)

include hi

/-- A step of request `i` that sets its key's entry to `o`: every entry still counts its
holders, when the count of request `i`'s key moves with its handle. -/
theorem Sys.Inv.handles_update {c' : Req} (hkey : c'.key = (s.reqs i).key) {o : Option VSet}
    (hcount : (o.map VSet.handles).getD 0 + ((s.reqs i).holds (s.reqs i).key).toNat =
      s.handlesOf (s.reqs i).key + (c'.holds (s.reqs i).key).toNat) (key : Key) :
    holders (Function.update s.reqs i c') key s.count =
      ((Function.update s.entries (s.reqs i).key o key).map VSet.handles).getD 0 := by
  by_cases hk : key = (s.reqs i).key
  · subst hk
    have h1 := @holders_update s.reqs (s.reqs i).key i s.count hi c'
    rw [hs.handles] at h1
    rw [Function.update_same]
    omega
  · rw [holders_of_ne hi hkey hk, hs.handles key, Function.update_noteq hk]
    rfl

/-- Requests other than `i` keep what they owe. -/
theorem Sys.Inv.reqs_update {c' : Req} (hc' : c'.Inv) :
    ∀ j < s.count, (Function.update s.reqs i c' j).Inv := fun j hj => by
  by_cases hji : j = i
  · subst hji; simpa using hc'
  · simpa [hji] using hs.reqs j hj

/-- A step of request `i` that keeps its key, its handle and the registry. -/
theorem Sys.Inv.frame {c' : Req} (hc' : c'.Inv) (hkey : c'.key = (s.reqs i).key)
    (hheld : c'.held = (s.reqs i).held) :
    Sys.Inv ⟨s.reg, Function.update s.reqs i c', s.count⟩ where
  reqs := hs.reqs_update hi hc'
  live := hs.live
  handles key :=
    (holders_update_of_holds hi (by simp [Req.holds, hkey, hheld])).trans (hs.handles key)
  pos := hs.pos
  held j hj n hn := by
    by_cases hji : j = i
    · subst hji
      simp only [Function.update_same] at hn ⊢
      rw [hkey]
      exact hs.held j hj n (hheld ▸ hn)
    · simp only [Function.update_noteq hji] at hn ⊢
      exact hs.held j hj n hn
  active := hs.active
  distinct := hs.distinct
  fresh := hs.fresh

/-- `GetTagMan` of a key with an entry, or a `ReleaseTagMan` that leaves handles: the entry
keeps its manager, and its count moves with request `i`'s handle. -/
theorem Sys.Inv.recount {v : VSet} (hv : s.entries (s.reqs i).key = some v) {c' : Req}
    (hc' : c'.Inv) (hkey : c'.key = (s.reqs i).key) (hheld : ∀ n, c'.held = some n → n = v.tm)
    {h' : Nat} (hpos : 0 < h') (hcount : h' + ((s.reqs i).holds (s.reqs i).key).toNat =
      v.handles + (c'.holds (s.reqs i).key).toNat) :
    Sys.Inv ⟨⟨some (Function.update s.entries (s.reqs i).key (some ⟨v.tm, h'⟩)),
      s.reg.active, s.reg.opened⟩, Function.update s.reqs i c', s.count⟩ := by
  have hm : ∀ key, (Function.update s.entries (s.reqs i).key (some ⟨v.tm, h'⟩) key).map
      VSet.tm = s.managerOf key := fun key => by
    by_cases hk : key = (s.reqs i).key
    · subst hk; simp [Sys.managerOf, hv]
    · simp [Sys.managerOf, hk]
  refine ⟨hs.reqs_update hi hc', rfl, fun key => ?_,
    hs.pos_update fun w hw => by cases hw; exact hpos, fun j hj n hn => ?_,
    fun n => ?_, fun k₁ k₂ n => ?_, hs.fresh⟩
  · rw [Sys.handlesOf_mk]
    exact hs.handles_update hi hkey (by simpa [Sys.handlesOf, hv] using hcount) key
  · simp only [Sys.managerOf_mk, hm]
    by_cases hji : j = i
    · subst hji
      simp only [Function.update_same] at hn ⊢
      rw [hkey, hheld n hn]
      simp [Sys.managerOf, hv]
    · simp only [Function.update_noteq hji] at hn ⊢
      exact hs.held j hj n hn
  · simp only [Sys.managerOf_mk, hm]
    exact hs.active n
  · simp only [Sys.managerOf_mk, hm]
    exact hs.distinct k₁ k₂ n

/-- A `GetTagMan` whose `New` makes manager `opened` for a key without an entry. -/
theorem Sys.Inv.addEntry (hk : s.entries (s.reqs i).key = none)
    (hnone : (s.reqs i).held = none) {c' : Req} (hc' : c'.Inv) (hkey : c'.key = (s.reqs i).key)
    (hheld : c'.held = some s.reg.opened) :
    Sys.Inv ⟨⟨some (Function.update s.entries (s.reqs i).key (some ⟨s.reg.opened, 1⟩)),
      Function.update s.reg.active s.reg.opened true, s.reg.opened + 1⟩,
      Function.update s.reqs i c', s.count⟩ := by
  have hm : ∀ key, (Function.update s.entries (s.reqs i).key (some ⟨s.reg.opened, 1⟩) key).map
      VSet.tm = if key = (s.reqs i).key then some s.reg.opened else s.managerOf key :=
    s.managerOf_update _ _
  have hnone' : s.managerOf (s.reqs i).key = none := by simp [Sys.managerOf, hk]
  have hnew : ∀ key, s.managerOf key ≠ some s.reg.opened := fun key h =>
    absurd (hs.fresh _ ((hs.active _).mpr ⟨key, h⟩)) (Nat.lt_irrefl _)
  refine ⟨hs.reqs_update hi hc', rfl, fun key => ?_,
    hs.pos_update fun w hw => by cases hw; exact Nat.one_pos, fun j hj n hn => ?_,
    fun n => ?_, fun k₁ k₂ n h₁ h₂ => ?_, fun n hn => ?_⟩
  · rw [Sys.handlesOf_mk]
    exact hs.handles_update hi hkey
      (by simp [Sys.handlesOf, hk, Req.holds, hnone, hkey, hheld]) key
  · simp only [Sys.managerOf_mk]
    by_cases hji : j = i
    · subst hji
      simp only [Function.update_same] at hn
      rw [Function.update_same, hkey, ← Option.some_inj.mp (hheld.symm.trans hn)]
      simp
    · simp only [Function.update_noteq hji] at hn
      rw [Function.update_noteq hji]
      refine hs.held_update (fun j' hj' _ h hk' => ?_) j hj hji n hn
      have := hs.held j' hj' _ (Option.some_get h).symm
      rw [hk', hnone'] at this
      cases this
  · simp only [Sys.managerOf_mk, hm]
    by_cases hn' : n = s.reg.opened
    · subst hn'
      simp only [Function.update_same, true_iff]
      exact ⟨(s.reqs i).key, by simp⟩
    · rw [Function.update_noteq hn', hs.active]
      constructor
      · rintro ⟨key, h⟩
        refine ⟨key, ?_⟩
        have hkk : key ≠ (s.reqs i).key := fun e => by rw [e, hnone'] at h; cases h
        simpa [hkk] using h
      · rintro ⟨key, h⟩
        by_cases hkk : key = (s.reqs i).key
        · simp only [hkk, if_true, Option.some_inj] at h; exact absurd h.symm hn'
        · exact ⟨key, by simpa [hkk] using h⟩
  · simp only [Sys.managerOf_mk, hm] at h₁ h₂
    by_cases e₁ : k₁ = (s.reqs i).key <;> by_cases e₂ : k₂ = (s.reqs i).key <;>
      simp only [e₁, e₂, if_true, if_false, Option.some_inj] at h₁ h₂
    · rw [e₁, e₂]
    · exact absurd (h₁ ▸ h₂) (hnew k₂)
    · exact absurd (h₂ ▸ h₁) (hnew k₁)
    · exact hs.distinct k₁ k₂ n h₁ h₂
  · by_cases hn' : n = s.reg.opened
    · exact hn' ▸ Nat.lt_succ_self _
    · simp only [Function.update_noteq hn'] at hn
      exact Nat.lt_succ_of_lt (hs.fresh n hn)

/-- The last `ReleaseTagMan` of a key, its `Close` succeeding: the manager is closed and the
entry deleted. -/
theorem Sys.Inv.dropEntry {v : VSet} (hv : s.entries (s.reqs i).key = some v)
    (hone : v.handles = 1) (hsome : (s.reqs i).held.isSome) {c' : Req} (hc' : c'.Inv)
    (hkey : c'.key = (s.reqs i).key) (hnone : c'.held = none) :
    Sys.Inv ⟨⟨some (Function.update s.entries (s.reqs i).key none),
      Function.update s.reg.active v.tm false, s.reg.opened⟩,
      Function.update s.reqs i c', s.count⟩ := by
  have hm : ∀ key, (Function.update s.entries (s.reqs i).key none key).map VSet.tm =
      if key = (s.reqs i).key then none else s.managerOf key := s.managerOf_update _ _
  have hv' : s.managerOf (s.reqs i).key = some v.tm := by simp [Sys.managerOf, hv]
  have hhandles := hs.handles_update hi hkey (o := none)
    (by simp [Sys.handlesOf, hv, hone, Req.holds, hsome, hnone, hkey])
  have hzero : holders (Function.update s.reqs i c') (s.reqs i).key s.count = 0 := by
    simpa using hhandles (s.reqs i).key
  refine ⟨hs.reqs_update hi hc', rfl, fun key => ?_, hs.pos_update nofun, fun j hj n hn => ?_,
    fun n => ?_, fun k₁ k₂ n h₁ h₂ => ?_, fun n hn => ?_⟩
  · rw [Sys.handlesOf_mk]
    exact hhandles key
  · simp only [Sys.managerOf_mk]
    by_cases hji : j = i
    · subst hji; simp [hnone] at hn
    · simp only [Function.update_noteq hji] at hn
      rw [Function.update_noteq hji]
      refine hs.held_update (fun j' hj' hji' h hk' => ?_) j hj hji n hn
      have := holders_eq_zero.mp hzero j' hj'
      simp [Function.update_noteq hji', Req.holds, hk', h] at this
  · simp only [Sys.managerOf_mk, hm]
    by_cases hn' : n = v.tm
    · subst hn'
      simp only [Function.update_same, Bool.false_eq_true, false_iff, not_exists]
      intro key h
      by_cases hkk : key = (s.reqs i).key
      · simp [hkk] at h
      · simp only [hkk, if_false] at h
        exact hkk (hs.distinct key _ _ h hv')
    · rw [Function.update_noteq hn', hs.active]
      constructor
      · rintro ⟨key, h⟩
        refine ⟨key, ?_⟩
        have hkk : key ≠ (s.reqs i).key := fun e => by
          rw [e, hv'] at h; exact hn' (Option.some_inj.mp h).symm
        simpa [hkk] using h
      · rintro ⟨key, h⟩
        by_cases hkk : key = (s.reqs i).key
        · simp [hkk] at h
        · exact ⟨key, by simpa [hkk] using h⟩
  · simp only [Sys.managerOf_mk, hm] at h₁ h₂
    by_cases e₁ : k₁ = (s.reqs i).key <;> by_cases e₂ : k₂ = (s.reqs i).key <;>
      simp only [e₁, e₂, if_true, if_false, reduceCtorEq] at h₁ h₂
    exact hs.distinct k₁ k₂ n h₁ h₂
  · by_cases hn' : n = v.tm
    · subst hn'; simp at hn
    · simp only [Function.update_noteq hn'] at hn
      exact hs.fresh n hn

end Step

/-- A new request. -/
theorem Sys.Inv.start {s : Sys} (hs : s.Inv) (key : Key) (h : Handler) :
    Sys.Inv ⟨s.reg, Function.update s.reqs s.count ⟨key, h.code, none, false, 0⟩,
      s.count + 1⟩ := by
  have hold : ∀ j < s.count,
      Function.update s.reqs s.count ⟨key, h.code, none, false, 0⟩ j = s.reqs j :=
    fun j hj => Function.update_noteq (Nat.ne_of_lt hj) _ _
  refine ⟨fun j hj => ?_, hs.live, fun k => ?_, hs.pos, fun j hj n hn => ?_, hs.active,
    hs.distinct, hs.fresh⟩
  · rcases Nat.lt_succ_iff_lt_or_eq.mp hj with hj | rfl
    · simpa only [hold j hj] using hs.reqs j hj
    · simp [Req.Inv, h.code_wellBracketed]
  · show holders _ k (s.count + 1) = s.handlesOf k
    simp only [holders, Function.update_same, Req.holds, Option.isSome_none, Bool.and_false,
      Bool.toNat_false, Nat.add_zero]
    rw [holders_congr fun j hj => by rw [hold j hj], hs.handles k]
  · rcases Nat.lt_succ_iff_lt_or_eq.mp hj with hj | rfl
    · simp only [hold j hj] at hn ⊢
      exact hs.held j hj n hn
    · simp at hn

/-- **Step lemma.** Every step whose `Close`, if it makes one, succeeds keeps the
invariant. -/
theorem Sys.Inv.step {s s' : Sys} (hs : s.Inv) {e : Event} (hok : e.closeOk = true)
    (h : s.step e = some s') : s'.Inv := by
  cases e with
  | start key hd => cases h; exact hs.start key hd
  | run i newOk closeOk fail =>
    obtain rfl : closeOk = true := hok
    simp only [Sys.step] at h
    split at h
    case isFalse => cases h
    case isTrue hi =>
    have hc := hs.reqs i hi
    unfold Sys.runReq at h
    split at h
    · cases h
    · rename_i k hcode
      obtain ⟨hnone, hacq, hrel, hk⟩ := hc.getTagMan hcode
      cases hv : s.entries (s.reqs i).key with
      | none =>
        cases newOk
        · rw [Registry.getTagMan_new_fails hs.live hv] at h
          cases h
          exact hs.frame hi (.inl ⟨hnone, hacq, hrel, rfl⟩) rfl rfl
        · rw [Registry.getTagMan_new hs.live hv] at h
          cases h
          refine hs.addEntry hi hv hnone ?_ ?_ ?_
          exacts [.inr (.inl ⟨rfl, rfl, hrel, hk⟩), rfl, rfl]
      | some v =>
        rw [Registry.getTagMan_shared hs.live hv (hs.pos _ _ hv)] at h
        cases h
        refine hs.recount hi hv ?_ ?_ ?_ (Nat.succ_pos _) ?_
        · exact .inr (.inl ⟨rfl, rfl, hrel, hk⟩)
        · rfl
        · exact fun n hn => (Option.some_inj.mp hn).symm
        · simp [Req.holds, hnone]
    · rename_i e k hcode
      obtain ⟨hsome, hacq, hrel, -, hk⟩ := hc.release hcode
      obtain ⟨n, hn⟩ := Option.isSome_iff_exists.mp hsome
      obtain ⟨v, hv, -⟩ := Option.map_eq_some'.mp (hs.held i hi n hn)
      have hc' : Req.Inv
          { s.reqs i with code := k, held := none, releases := (s.reqs i).releases + 1 } :=
        .inr (.inr ⟨rfl, hacq, by rw [hrel], hk⟩)
      rcases Nat.lt_or_ge 1 v.handles with hgt | hle
      · rw [Registry.releaseTagMan_shared hs.live hv hgt] at h
        cases h
        exact hs.recount hi hv hc' rfl (by simp) (by omega) (by simp [Req.holds, hsome]; omega)
      · have hone : v.handles = 1 := by have := hs.pos _ _ hv; omega
        rw [Registry.releaseTagMan_last hs.live hv hone] at h
        cases h
        exact hs.dropEntry hi hv hone hsome hc' rfl rfl
    all_goals
      rename_i e k hcode
      cases h
      exact hs.frame hi (hc.next (by simp [hcode, Code.wellBracketed])
        (by simp [hcode, Code.releasesOnce]) (by simp [hcode, Code.noRegistry]) fail) rfl rfl

/-- **Run lemma.** A run whose every `Close` succeeds keeps the invariant. -/
theorem Sys.Inv.run {s s' : Sys} (hs : s.Inv) {es : List Event}
    (hok : ∀ e ∈ es, e.closeOk = true) (h : s.run es = some s') : s'.Inv := by
  induction es generalizing s with
  | nil => cases h; exact hs
  | cons e es ih =>
    obtain ⟨s₁, h₁, h₂⟩ := Option.bind_eq_some.mp h
    exact ih (hs.step (hok e (List.mem_cons_self _ _)) h₁)
      (fun e' he => hok e' (List.mem_cons_of_mem _ he)) h₂

/-! ## Safety of every run -/

/-- A request that has returned holds nothing, and released once if it acquired. -/
theorem Req.Inv.ret {c : Req} (h : c.Inv) (hc : c.code = .ret) :
    c.held = none ∧ c.releases = if c.acquired then 1 else 0 := by
  rcases h with ⟨h1, h2, h3, -⟩ | ⟨-, -, -, h⟩ | ⟨h1, h2, h3, -⟩
  · simp [h1, h2, h3]
  · simp [hc, Code.releasesOnce] at h
  · simp [h1, h2, h3]

/-- A request about to call its manager holds a handle. -/
theorem Req.Inv.useTm {c : Req} (h : c.Inv) {name : String} {e k : Code}
    (hc : c.code = .useTm name e k) : c.held.isSome := by
  rcases h with ⟨-, -, -, h⟩ | ⟨h, -⟩ | ⟨-, -, -, h⟩
  · simp [hc, Code.wellBracketed] at h
  · exact h
  · simp [hc, Code.noRegistry] at h

/-- What the registry promises in one state: (a) a request about to call its manager holds a
handle on an open one; (b) each key's handle count is the number of requests holding it;
(c) the open managers are exactly the entries' managers, (d) no two keys sharing one; (e) a
request that has returned called `ReleaseTagMan` once if its `GetTagMan` succeeded and never
otherwise; (f) once every request has returned, no manager is open. -/
def Sys.Safe (s : Sys) : Prop :=
  (∀ i < s.count, ∀ name e k, (s.reqs i).code = .useTm name e k →
    ∃ n, (s.reqs i).held = some n ∧ s.reg.active n = true) ∧
  (∀ key, s.handlesOf key = holders s.reqs key s.count) ∧
  (∀ n, s.reg.active n = true ↔ ∃ key, s.managerOf key = some n) ∧
  (∀ k₁ k₂ n, s.managerOf k₁ = some n → s.managerOf k₂ = some n → k₁ = k₂) ∧
  (∀ i < s.count, (s.reqs i).code = .ret →
    (s.reqs i).releases = if (s.reqs i).acquired then 1 else 0) ∧
  ((∀ i < s.count, (s.reqs i).code = .ret) → ∀ n, s.reg.active n = false)

theorem Sys.Inv.safe {s : Sys} (hs : s.Inv) : s.Safe := by
  refine ⟨fun i hi name e k hc => ?_, fun key => (hs.handles key).symm, hs.active, hs.distinct,
    fun i hi hc => ((hs.reqs i hi).ret hc).2, fun hret n => ?_⟩
  · obtain ⟨n, hn⟩ := Option.isSome_iff_exists.mp ((hs.reqs i hi).useTm hc)
    exact ⟨n, hn, (hs.active n).mpr ⟨_, hs.held i hi n hn⟩⟩
  · have hnone : ∀ key, s.handlesOf key = 0 := fun key => by
      rw [← hs.handles key, holders_eq_zero]
      intro j hj
      simp [Req.holds, ((hs.reqs j hj).ret (hret j hj)).1]
    refine Bool.eq_false_iff.mpr fun ha => ?_
    obtain ⟨key, hkey⟩ := (hs.active n).mp ha
    obtain ⟨v, hv, -⟩ := Option.map_eq_some'.mp hkey
    have := hs.pos key v hv
    have h0 := hnone key
    simp only [Sys.handlesOf, hv, Option.map_some', Option.getD_some] at h0
    omega

/-- Every run from the start whose every `Close` succeeds, with any number of the six
handlers interleaved and any outcome of every other call, reaches a safe state. -/
theorem Sys.safe_of_run {es : List Event} {s : Sys} (hok : ∀ e ∈ es, e.closeOk = true)
    (h : Sys.init.run es = some s) : s.Safe :=
  (Sys.Inv.init.run hok h).safe

/-- A `GetTags` and an unpack's `HandleTagUpdate` of one indexer share its manager; the
second release closes it. -/
theorem Sys.safe_of_run_shared :
    let es : List Event := [.start ⟨1, 0⟩ .filestoreGetTags, .start ⟨1, 0⟩ .filestoreTagUpdate,
      .run 0 true true false, .run 1 true true false, .run 0 true true false,
      .run 1 true true false, .run 0 true true false, .run 1 true true false]
    (∀ e ∈ es, e.closeOk = true) ∧ ∃ s, Sys.init.run es = some s ∧ s.Safe := by
  intro es
  have hok : ∀ e ∈ es, e.closeOk = true := by decide
  exact ⟨hok, _, rfl, Sys.safe_of_run hok rfl⟩

end CloudArchive.Store.TagRequests
