import Mathlib.Logic.Function.Basic

/-!
# Util — the upload tracker

`util.UploadTracker` is a mutex-guarded `map[UploadID]es`: `EnterUpload` claims an id that no
one holds, `ExitUpload` releases one that someone holds. Each call runs under the tracker's
mutex, so a call is one atomic step of the model; the map is the set of held ids.
-/

namespace CloudArchive.Util

/-- `util.UploadID`: customer, indexer UUID, well, shard. -/
structure UploadID where
  cid : UInt64
  idxUUID : BitVec 128
  well : String
  shard : String
  deriving DecidableEq, Repr

/-- `util.UploadTracker`: the ids in the `active` map. -/
structure UploadTracker where
  active : UploadID → Bool

/-- `NewUploadTracker()`: an empty map. -/
def UploadTracker.new : UploadTracker := ⟨fun _ => false⟩

/-- `ErrUploadInProgress`. -/
def errUploadInProgress : String := "Shard upload already in progress"

/-- `ErrUploadNotInProgress`. -/
def errUploadNotInProgress : String := "Shard upload not in progress"

/-- `EnterUpload(uid)`. -/
def UploadTracker.enterUpload (t : UploadTracker) (uid : UploadID) : Except String Unit × UploadTracker :=
  if t.active uid then (.error errUploadInProgress, t)
  else (.ok (), ⟨Function.update t.active uid true⟩)

/-- `ExitUpload(uid)`. -/
def UploadTracker.exitUpload (t : UploadTracker) (uid : UploadID) : Except String Unit × UploadTracker :=
  if t.active uid then (.ok (), ⟨Function.update t.active uid false⟩)
  else (.error errUploadNotInProgress, t)

theorem UploadTracker.enterUpload_ok {t : UploadTracker} {uid : UploadID} (h : t.active uid = false) :
    t.enterUpload uid = (.ok (), ⟨Function.update t.active uid true⟩) := by
  simp [enterUpload, h]

theorem UploadTracker.enterUpload_held {t : UploadTracker} {uid : UploadID} (h : t.active uid = true) :
    t.enterUpload uid = (.error errUploadInProgress, t) := by
  simp [enterUpload, h]

theorem UploadTracker.exitUpload_held {t : UploadTracker} {uid : UploadID} (h : t.active uid = true) :
    t.exitUpload uid = (.ok (), ⟨Function.update t.active uid false⟩) := by
  simp [exitUpload, h]

end CloudArchive.Util
