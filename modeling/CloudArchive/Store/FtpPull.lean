import CloudArchive.Store.Filestore

/-!
# Store — `ftpstore.PackShard`: the staging copy

`ftpstore.PackShard` checks that the shard directory exists on the server, makes the staging
directory `LocalStore/<cid>/<indexer>/<well>/<shard>`, copies each regular file the FTP walker
yields into it, and then packs the staged directory as the local backend packs its own: the
adder task runs `AddShardFilesToPacker`, `Flush` and `Close` (`packStaged`, the body of
`filestore.PackShard` after its directory check).

The server's answers are inputs: whether the shard directory exists (`ftpDirExists`), the reply
to each `LIST`, and the reply to each `RETR` with the bytes its data connection carries. The
walker is the `ftp` library's: a stack of entries, each folder listed when the walk reaches it.
A `LIST` that fails ends the walk, and the walker keeps the error in `Err`, which the code never
reads. `Response.Close`, which reads the server's transfer-complete reply, is not checked
either, so it is left out: a transfer the server reports incomplete is one whose data
connection carried fewer bytes than the file holds. The upload tracker and the dial succeed.
-/

namespace CloudArchive.Store

open CloudArchive CloudArchive.ShardPacker

/-- `ftp.EntryType`. -/
inductive EntryType
  | file | folder | link
  deriving DecidableEq, Repr

/-- The FTP server's answers. -/
structure FtpServer where
  /-- `ftpDirExists(c, path)` -/
  dirExists : List Char → Bool
  /-- the reply to `LIST path`: an error code, or the names and types it lists -/
  list : List Char → Except Nat (List (List Char × EntryType))
  /-- the reply to `RETR path`: an error code, or the bytes its data connection carries and the
  error code, if any, that reading it ends with -/
  retr : List Char → Except Nat (Bytes × Option Nat)

/-- The `ftp` walker: the entry it is at, and the entries left to visit, the next one first. -/
structure Walker where
  cur : List Char × EntryType
  stack : List (List Char × EntryType)

/-- `Walker.Next`: list the current entry if it is a folder and push what it holds, `.` and
`..` left out; then move to the last entry pushed. `none` (`Next` is false) when the listing
fails or nothing is left. -/
def Walker.next (srv : FtpServer) (w : Walker) : Option Walker :=
  let pushed : Option (List (List Char × EntryType)) :=
    if w.cur.2 = .folder then
      match srv.list w.cur.1 with
      | .error _ => none
      | .ok es => some (((es.filter fun e => e.1 ≠ ['.'] ∧ e.1 ≠ ['.', '.']).map
          fun e => (join [w.cur.1, e.1], e.2)).reverse ++ w.stack)
    else some w.stack
  match pushed with
  | some (e :: st) => some ⟨e, st⟩
  | _ => none

/-- The errors of `ftpstore.PackShard`. -/
inductive PullErr
  /-- `Shard directory %v does not appear to exist on the server` -/
  | noShardDir (path : List Char)
  /-- the local disk's -/
  | fs (e : FsErr)
  /-- an FTP reply with this code -/
  | ftp (code : Nat)
  /-- the adder task's -/
  | shard (e : ShardErr)
  deriving DecidableEq, Repr

/-- The body of the copy loop for the regular file at `path`: make its directory under the
staging directory, create the file, `RETR` it and copy the data connection into it. -/
def copyFile (srv : FtpServer) (shardDir localDir path : List Char) (fs : Fs) :
    Except PullErr Unit × Fs :=
  let name := trimPrefix path shardDir
  let made : Except FsErr Fs :=
    if dir name ≠ [] then fs.mkdirAll (join [localDir, dir name]) else .ok fs
  match made with
  | .error e => (.error (.fs e), fs)
  | .ok fs =>
    match fs.create (join [localDir, name]) [] with
    | .error e => (.error (.fs e), fs)
    | .ok fs =>
      match srv.retr path with
      | .error code => (.error (.ftp code), fs)
      | .ok (data, err) =>
        let fs := Function.update fs (join [localDir, name]) (some (.file data))
        match err with
        | some code => (.error (.ftp code), fs)
        | none => (.ok (), fs)

/-- The loop `for walker.Next() { … }`, with `fuel` turns left: `none` when the fuel runs out
before the walk ends. -/
def copyWalk (srv : FtpServer) (shardDir localDir : List Char) :
    Nat → Walker → Fs → Option (Except PullErr Unit × Fs)
  | 0, _, _ => none
  | fuel + 1, w, fs =>
    match w.next srv with
    | none => some (.ok (), fs)
    | some w =>
      if w.cur.2 = .file then
        match copyFile srv shardDir localDir w.cur.1 fs with
        | (.error e, fs) => some (.error e, fs)
        | (.ok (), fs) => copyWalk srv shardDir localDir fuel w fs
      else copyWalk srv shardDir localDir fuel w fs

/-- One turn of the copy loop. -/
theorem copyWalk_succ {srv : FtpServer} {shardDir localDir : List Char} {fuel : Nat} {w : Walker}
    {fs : Fs} :
    copyWalk srv shardDir localDir (fuel + 1) w fs =
      match w.next srv with
      | none => some (.ok (), fs)
      | some w =>
        if w.cur.2 = .file then
          match copyFile srv shardDir localDir w.cur.1 fs with
          | (.error e, fs) => some (.error e, fs)
          | (.ok (), fs) => copyWalk srv shardDir localDir fuel w fs
        else copyWalk srv shardDir localDir fuel w fs :=
  rfl

/-- The adder task on a shard directory, the copier relaying every byte: the entries of the
stream. -/
def packStaged (fs : Fs) (spath shard : List Char) : Except ShardErr (List Entry) :=
  match addShardFilesToPacker fs spath shard (Packer.new shard) with
  | (.error e, _) => .error e
  | (.ok (), p) =>
    match p.flush with
    | .error e => .error (.pack e)
    | .ok () =>
      match p.close with
      | (.error e, _) => .error (.pack e)
      | (.ok (), p) => .ok p.entries

/-- `ftpstore.PackShard` with `fuel` turns of the copy loop: the entries of the stream, or
`none` when the walk outlasts the fuel. -/
def FtpStore.packShard (srv : FtpServer) (fs : Fs) (baseDir localStore : List Char)
    (cid : UInt64) (idx : BitVec 128) (well shard : List Char) (fuel : Nat) :
    Option (Except PullErr (List Entry)) :=
  let shardDir := join [indexerDir baseDir cid idx, well, shard]
  if !srv.dirExists shardDir then some (.error (.noShardDir shardDir)) else
  let localShardDir := join [localStore, decimal cid.toNat, uuidString idx, well, shard]
  match fs.mkdirAll localShardDir with
  | .error e => some (.error (.fs e))
  | .ok fs =>
    match copyWalk srv shardDir localShardDir fuel ⟨(shardDir, .folder), []⟩ fs with
    | none => none
    | some (.error e, _) => some (.error e)
    | some (.ok (), fs) => some ((packStaged fs localShardDir shard).mapError .shard)

end CloudArchive.Store
