import CloudArchive.Tags.Load

/-!
# Store — the FTP backend's `tags.dat`

`ftpstore` keeps the indexer's `tags.dat` on the FTP server and a staged copy under its local
store, where the tag manager works on it. `ensureTagsDat` fetches the remote file when there is
no staged copy, `pushTagsDat` stores the staged copy back, `HandleTagUpdate` (a shard's tag
update) merges into the staged copy and pushes it, `SyncTags` merges into it and returns the
tag set.

The server's answers are inputs: the error code of each `RETR` and `STOR` (`none` when it
succeeds). The local disk is healthy. The calls are sequential, so each `GetTagMan` finds no
open handle and opens the staged file with `tags.New`, and the matching `ReleaseTagMan`
closes it.
-/

namespace CloudArchive.Store

open CloudArchive.Tags

/-- The remote `tags.dat` and the staged copy; `none` when the file does not exist. -/
structure FtpTags where
  remote : Option (List Char)
  staged : Option (List Char)

/-- The errors of the tag calls of the FTP backend. -/
inductive FtpErr
  /-- an FTP reply with this code -/
  | ftp (code : Nat)
  /-- `os.ErrNotExist` from opening the staged copy -/
  | notExist
  /-- the tag manager's -/
  | tags (e : TagErr)

/-- `ensureTagsDat`: with no staged copy, create an empty one, then `RETR` the remote file
into it. An error `551` counts as "no remote file" and leaves the empty copy; any other error
is returned, and leaves the empty copy too. A `RETR` that succeeds copies the remote file
(a server answers an error for a missing file; `550` when `retr` does not say). -/
def FtpTags.ensureTagsDat (st : FtpTags) (retr : Option Nat) : Except FtpErr Unit × FtpTags :=
  match st.staged with
  | some _ => (.ok (), st)
  | none =>
    let st := { st with staged := some [] }
    match retr, st.remote with
    | some 551, _ => (.ok (), st)
    | some code, _ => (.error (.ftp code), st)
    | none, some d => (.ok (), { st with staged := some d })
    | none, none => (.error (.ftp 550), st)

/-- `pushTagsDat`: `STOR` the staged copy as the remote file. -/
def FtpTags.pushTagsDat (st : FtpTags) (stor : Option Nat) : Except FtpErr Unit × FtpTags :=
  match st.staged, stor with
  | none, _ => (.error .notExist, st)
  | some _, some code => (.error (.ftp code), st)
  | some d, none => (.ok (), { st with remote := some d })

/-- `GetTagMan` of the staged copy, the call `f` on the manager, then `ReleaseTagMan`: the
result, and the staged copy as the manager left it. -/
def withStagedTagMan {α : Type} (staged : Option (List Char))
    (f : TagMan → Except TagErr α × TagMan) : Except TagErr α × Option (List Char) :=
  let path := match staged with
    | none => TagPath.missing healthyDisk
    | some d => .file ⟨d, healthyDisk, 0⟩
  match tagsNew "tags.dat" path with
  | .error e => (.error e, staged)
  | .ok tm =>
    let (r, tm) := f tm
    let staged := tm.fout.map (·.data)
    match r, tm.close.1 with
    | .error e, _ => (.error e, staged)
    | .ok _, .error e => (.error e, staged)
    | .ok a, .ok () => (.ok a, staged)

/-- `Merge` then `TagSet`, as `SyncTags` calls them: the merged tag map. -/
def mergeTagSet (tgs : List TagPair) (tm : TagMan) :
    Except TagErr (String → Option EntryTag) × TagMan :=
  match tm.merge tgs with
  | ((_, .error e), tm) => (.error e, tm)
  | ((_, .ok ()), tm) => if tm.active then (.ok tm.tags, tm) else (.error errNotActive, tm)

/-- `ftpstore.SyncTags`: dial, `ensureTagsDat` (its error ignored), merge into the staged copy
and return the tag set. It does not push. -/
def FtpTags.syncTags (st : FtpTags) (dialOk : Bool) (retr : Option Nat) (idxTags : List TagPair) :
    Except FtpErr (String → Option EntryTag) × FtpTags :=
  if !dialOk then (.error (.ftp 421), st) else
  let st := (st.ensureTagsDat retr).2
  match withStagedTagMan st.staged (mergeTagSet idxTags) with
  | (.error e, staged) => (.error (.tags e), { st with staged := staged })
  | (.ok tgs, staged) => (.ok tgs, { st with staged := staged })

/-- `handler.HandleTagUpdate`: `ensureTagsDat`, merge into the staged copy, push it. -/
def FtpTags.handleTagUpdate (st : FtpTags) (retr : Option Nat) (tgs : List TagPair)
    (stor : Option Nat) : Except FtpErr Unit × FtpTags :=
  match st.ensureTagsDat retr with
  | (.error e, st) => (.error e, st)
  | (.ok (), st) =>
    match withStagedTagMan st.staged (fun tm => match tm.merge tgs with
        | ((_, r), tm) => (r, tm)) with
    | (.error e, staged) => (.error (.tags e), { st with staged := staged })
    | (.ok (), staged) => { st with staged := staged }.pushTagsDat stor

/-- The tag calls of `ftpstore.UnpackShard` for a shard carrying a tag update: its own
`ensureTagsDat` (error ignored), then the unpacker's `HandleTagUpdate`. -/
def FtpTags.unpackShardTags (st : FtpTags) (retr : Option Nat) (tgs : List TagPair)
    (retr' stor : Option Nat) : Except FtpErr Unit × FtpTags :=
  ((st.ensureTagsDat retr).2).handleTagUpdate retr' tgs stor

/-- The tag map a `tags.dat` loads to. -/
def loadedTags (data : Option (List Char)) : Option (String → Option EntryTag) :=
  match data with
  | none => none
  | some d =>
    match tagsNew "tags.dat" (.file ⟨d, healthyDisk, 0⟩) with
    | .ok tm => some tm.tags
    | .error _ => none

/-- **The remote file falls behind, and loses pairs.** (1) With the server's `tags.dat`
holding the reserved pairs, `SyncTags([foo=1])` succeeds and returns a set with `foo`; the
staged copy now holds `foo`, the remote file is unchanged. (2) With the server's file
holding `foo=1`, `UnpackShard`'s `ensureTagsDat` meets a `RETR` error `425` and leaves an empty
staged copy; the shard's `HandleTagUpdate([bar=2])` merges into it and pushes it, so the
remote file no longer has `foo`. -/
theorem ftp_tags_remote_diverges_from_staged :
    let st₀ : FtpTags := ⟨some "default=0\ngravwell=65535\n".data, none⟩
    let st₁ := st₀.syncTags true none [⟨"foo", 1⟩]
    let st₂ := FtpTags.unpackShardTags ⟨st₀.remote.map (· ++ "foo=1\n".data), none⟩ (some 425)
      [⟨"bar", 2⟩] none none
    ((match st₁.1 with | .ok tgs => tgs "foo" | .error _ => none) = some 1 ∧
      st₁.2.remote = st₀.remote ∧
      ((loadedTags st₁.2.staged).map (· "foo")) = some (some 1) ∧
      ((loadedTags st₁.2.remote).map (· "foo")) = some none) ∧
    (st₂.1 = .ok () ∧ st₂.2.remote = some "bar=2\n".data ∧
      ((loadedTags st₂.2.remote).map (· "foo")) = some none) :=
  ⟨⟨rfl, rfl, rfl, rfl⟩, rfl, rfl, rfl⟩

end CloudArchive.Store
