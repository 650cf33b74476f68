import CloudArchive.Store.Filestore
import CloudArchive.Util.UploadTracker

/-!
# Store — concurrent `filestore.UnpackShard` requests and their directories

Each request takes its upload id, then looks for a free shard directory: `base`, `base.1`,
`base.2`, … (`base` is `indexerDir/well/shard`), one `os.Stat` per step, makes the one it
stops at with `os.MkdirAll`, and unpacks into it; a failed unpack removes that directory.
The tracker's calls, each `os.Stat` and each `os.MkdirAll` are atomic steps, interleaved with
the other requests' steps.

The tracker is keyed by the requested shard name; the search resolves to a directory by what
the disk holds at the time of each probe. What the unpack writes into the directory is not
modelled, only that it succeeds or fails.
-/

namespace CloudArchive.Store.Filestore

open CloudArchive CloudArchive.Util

/-- Where a request is in `UnpackShard`. -/
inductive Pc
  | enter | probe | mkdir | unpack | exit | done
  deriving DecidableEq, Repr

/-- A request: its upload id, the directory `base` its search starts from, the candidate
`dir`, the next suffix `i`, and where it is. -/
structure Req where
  uid : UploadID
  base : List Char
  dir : List Char
  i : Nat
  pc : Pc
  deriving DecidableEq, Repr

/-- A new `UnpackShard(cid, idx, well, shard)` request on the disk rooted at `basedir`. -/
def Req.new (basedir : List Char) (cid : UInt64) (idx : BitVec 128) (well shard : String) : Req :=
  let base := join [indexerDir basedir cid idx, well.data, shard.data]
  ⟨⟨cid, idx, well, shard⟩, base, base, 1, .enter⟩

/-- The requests so far, the tracker and the disk. -/
structure Sys where
  tracker : UploadTracker
  fs : Fs
  reqs : Nat → Req
  count : Nat

/-- No request yet, on disk `fs`. -/
def Sys.init (fs : Fs) : Sys := ⟨.new, fs, fun _ => ⟨⟨0, 0, "", ""⟩, [], [], 0, .done⟩, 0⟩

/-- What happens next: a new request, or request `i`'s next step, whose `MkdirAll` or unpack
succeeds iff `ok`. -/
inductive Event
  | start (r : Req)
  | run (i : Nat) (ok : Bool)

/-- Request `i` moves to `r`. -/
def Sys.set (s : Sys) (i : Nat) (r : Req) : Sys := { s with reqs := Function.update s.reqs i r }

/-- One step of request `i`. -/
def Sys.runReq (s : Sys) (i : Nat) (r : Req) (ok : Bool) : Option Sys :=
  match r.pc with
  | .enter =>
    match s.tracker.enterUpload r.uid with
    | (.ok (), t) => some { s.set i { r with pc := .probe } with tracker := t }
    | (.error _, _) => some (s.set i { r with pc := .done })
  | .probe =>
    if r.i < 10000 ∧ s.fs r.dir ≠ none then
      some (s.set i { r with dir := r.base ++ '.' :: decimal r.i, i := r.i + 1 })
    else some (s.set i { r with pc := .mkdir })
  | .mkdir =>
    match s.fs.mkdirAll r.dir, ok with
    | .ok fs, true => some { s.set i { r with pc := .unpack } with fs := fs }
    | _, _ => some (s.set i { r with pc := .exit })
  | .unpack =>
    if ok then some (s.set i { r with pc := .exit })
    else some { s.set i { r with pc := .exit } with fs := s.fs.removeAll r.dir }
  | .exit => some { s.set i { r with pc := .done } with tracker := (s.tracker.exitUpload r.uid).2 }
  | .done => none

/-- One step of the system. -/
def Sys.step (s : Sys) : Event → Option Sys
  | .start r => some { s with reqs := Function.update s.reqs s.count r, count := s.count + 1 }
  | .run i ok => if i < s.count then s.runReq i (s.reqs i) ok else none

/-- The events of a trace, in order. -/
def Sys.run (s : Sys) : List Event → Option Sys
  | [] => some s
  | e :: es => (s.step e).bind (·.run es)

/-- The states some interleaving reaches from disk `fs`. -/
inductive Reachable (fs : Fs) : Sys → Prop
  | init : Reachable fs (Sys.init fs)
  | step {s s' : Sys} (e : Event) : Reachable fs s → s.step e = some s' → Reachable fs s'

theorem Reachable.run {fs : Fs} {s s' : Sys} (h : Reachable fs s) (es : List Event)
    (hr : s.run es = some s') : Reachable fs s' := by
  induction es generalizing s with
  | nil => cases hr; exact h
  | cons e es ih =>
    obtain ⟨s₁, h₁, h₂⟩ := Option.bind_eq_some.mp hr
    exact ih (.step e h h₁) h₂

/-- **Two uploads, one directory.** The disk holds shard `769f2`. A push of `769f2` and a push
of `769f2.1` take distinct upload ids; the first probes `769f2` (taken) and `769f2.1` (free),
the second probes `769f2.1` (free); both make `769f2.1` and unpack into it. When the second
unpack fails it removes `769f2.1` while the first is still filling it. -/
theorem unpackShard_requests_share_directory :
    let es : List Event := [.start (Req.new "/data".data 7 0 "w" "769f2"),
      .start (Req.new "/data".data 7 0 "w" "769f2.1"), .run 0 true, .run 1 true, .run 0 true,
      .run 0 true, .run 1 true, .run 0 true, .run 1 true]
    let sd := join [indexerDir "/data".data 7 0, "w".data]
    let fs : Fs := fun p =>
      if p = sd ++ "/769f2".data ∨ (p <+: sd ∧ p ≠ []) then some .dir else none
    ∃ s, (Sys.init fs).run es = some s ∧ Reachable fs s ∧
      (s.reqs 0).uid ≠ (s.reqs 1).uid ∧ (s.reqs 0).pc = .unpack ∧ (s.reqs 1).pc = .unpack ∧
      (s.reqs 0).dir = sd ++ "/769f2.1".data ∧ (s.reqs 1).dir = sd ++ "/769f2.1".data ∧
      ∃ s', s.step (.run 1 false) = some s' ∧ (s'.reqs 0).pc = .unpack ∧
        s'.fs (sd ++ "/769f2.1".data) = none :=
  (fun h => ⟨_, h, Reachable.init.run _ h, by decide, rfl, rfl, by decide, by decide, _, rfl, rfl,
    by decide⟩) rfl

end CloudArchive.Store.Filestore
