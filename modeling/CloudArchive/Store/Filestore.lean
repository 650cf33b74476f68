import CloudArchive.ShardPacker.Codec

/-!
# Store — the file-system backend

`filestore.PackShard` and `filestore.UnpackShard` on a model of the disk: the node (a regular
file with its bytes, or a directory) at each absolute path. Paths are built with `join`, so
they are clean, and the disk is keyed by them.

This module runs one request at a time: the upload tracker (`Store.Upload`) and the copier
and adder tasks (`Store.PackShard`) are modelled on their own. When the adder's
`AddShardFilesToPacker`, `Flush` and `Close` succeed, the stream the copier relays is the
packer's entries (`ShardPacker.Codec`), which is what `packShard` returns.

`util.AddShardFilesToPacker` finds the files by the trimmed id; the packer names the entries
by the id it was made with, the untrimmed shard name. The unpacker places each entry at its
type's `Filepath` of the trimmed name, and the handler's `clean` then strips every leading `.`
and `/` of that path before it creates the file.
-/

namespace CloudArchive.Store

open CloudArchive CloudArchive.ShardPacker

/-- A node of the disk. -/
inductive Node
  | file (data : Bytes)
  | dir
  deriving DecidableEq, Repr

/-- The disk: the node at each clean absolute path. -/
abbrev Fs := List Char → Option Node

/-- The `os` errors the handlers can meet. -/
inductive FsErr
  /-- `os.ErrNotExist` -/
  | notExist
  /-- `os.ErrExist` -/
  | exist
  /-- `syscall.ENOTDIR` -/
  | notDir
  /-- `syscall.EISDIR` -/
  | isDir
  /-- `errors.New("not a regular file")` -/
  | notRegular
  /-- `errors.New("not a directory")` of `readableDir` -/
  | notADirectory
  deriving DecidableEq, Repr

/-- The directories `os.MkdirAll` walks through to make `p`, outermost first. -/
def pathPrefixes (p : List Char) : List (List Char) :=
  let es := (split p '/').filter (· ≠ [])
  let root : List Char → List Char := if p.head? = some '/' then ('/' :: ·) else id
  (List.range es.length).map fun k => root (['/'].intercalate (es.take (k + 1)))

/-- `os.MkdirAll(p, perm)`: make every missing directory on the way; a regular file on the
way is `ENOTDIR`. -/
def Fs.mkdirAll (fs : Fs) (p : List Char) : Except FsErr Fs :=
  (pathPrefixes p).foldlM (fun fs q =>
    match fs q with
    | some .dir => .ok fs
    | some (.file _) => .error .notDir
    | none => .ok (Function.update fs q (some .dir))) fs

/-- `os.Mkdir(p, perm)`. -/
def Fs.mkdir (fs : Fs) (p : List Char) : Except FsErr Fs :=
  match fs p, fs (dir p) with
  | some _, _ => .error .exist
  | none, some .dir => .ok (Function.update fs p (some .dir))
  | none, some (.file _) => .error .notDir
  | none, none => .error .notExist

/-- `os.Create(p)` followed by `io.Copy` of `data` into it. -/
def Fs.create (fs : Fs) (p : List Char) (data : Bytes) : Except FsErr Fs :=
  match fs (dir p), fs p with
  | some .dir, some .dir => .error .isDir
  | some .dir, _ => .ok (Function.update fs p (some (.file data)))
  | some (.file _), _ => .error .notDir
  | none, _ => .error .notExist

/-- `os.RemoveAll(p)`: `p` and everything below it. -/
def Fs.removeAll (fs : Fs) (p : List Char) : Fs :=
  fun q => if q = p ∨ (p ++ ['/']).isPrefixOf q then none else fs q

/-- `readableDir(p)`. -/
def Fs.readableDir (fs : Fs) (p : List Char) : Except FsErr Unit :=
  match fs p with
  | some .dir => .ok ()
  | some (.file _) => .error .notADirectory
  | none => .error .notExist

/-- `getHandleAndSize(p)`: the bytes of a regular file (`os.Open` of a directory succeeds,
the regular-file check then fails). -/
def Fs.getHandleAndSize (fs : Fs) (p : List Char) : Except FsErr Bytes :=
  match fs p with
  | some (.file d) => .ok d
  | some .dir => .error .notRegular
  | none => .error .notExist

/-! ## `util.AddShardFilesToPacker` -/

/-- The errors of the shard code: the disk's, or the codec's (whose handler errors are the
disk's). -/
inductive ShardErr
  | fs (e : FsErr)
  | codec (e : CodecErr FsErr)
  deriving DecidableEq, Repr

/-- A packer error, seen by the shard code. -/
def ShardErr.pack : PackErr → ShardErr
  | .invalidFileType => .codec .invalidFileType
  | .gob => .codec .gob
  | .eof => .codec .eof
  | .tar => .codec .tar
  | .msg m => .codec (.msg m)

/-- `util.addFile`: open `spath/tp.Filepath(id)` and add it to the packer with its size; a
missing optional file is skipped. -/
def addFile (fs : Fs) (spath id : List Char) (tp : Ftype) (p : Packer) (optional : Bool) :
    Except ShardErr Unit × Packer :=
  match fs.getHandleAndSize (join [spath, tp.filepath id]) with
  | .error .notExist => if optional then (.ok (), p) else (.error (.fs .notExist), p)
  | .error e => (.error (.fs e), p)
  | .ok d =>
    match p.addFile tp d.length d with
    | (.error e, p) => (.error (.pack e), p)
    | (.ok (), p) => (.ok (), p)

/-- `util.AddShardFilesToPacker(spath, id, pkr)`. The accelerator is a regular `<id>.accel`,
or a directory holding `keys` and `data`; a failure to add `keys` only calls
`CloseWithError`, and the code goes on to `data`. -/
def addShardFilesToPacker (fs : Fs) (spath id : List Char) (p : Packer) :
    Except ShardErr Unit × Packer :=
  let id := trimVersion id
  match addFile fs spath id .verify p true with
  | (.error e, p) => (.error e, p)
  | (.ok (), p) =>
  match addFile fs spath id .index p false with
  | (.error e, p) => (.error e, p)
  | (.ok (), p) =>
  match addFile fs spath id .store p false with
  | (.error e, p) => (.error e, p)
  | (.ok (), p) =>
  match fs (join [spath, Ftype.accelFile.filename id]) with
  | none => (.ok (), p)
  | some (.file _) => addFile fs spath id .accelFile p false
  | some .dir =>
    let p := match addFile fs spath id .indexAccelKeyFile p false with
      | (.error _, p) => p.closeWithError
      | (.ok (), p) => p
    addFile fs spath id .indexAccelDataFile p false

/-! ## The handlers -/

/-- `indexerDir` of the handlers: `basedir/<cid>/<indexer uuid>`. -/
def indexerDir (basedir : List Char) (cid : UInt64) (idx : BitVec 128) : List Char :=
  join [basedir, decimal cid.toNat, uuidString idx]

/-- `filestore.PackShard`, run to the end of its pipeline with every task succeeding: the
entries of the stream. -/
def Filestore.packShard (fs : Fs) (basedir : List Char) (cid : UInt64)
    (idx : BitVec 128) (well shard : List Char) : Except ShardErr (List Entry) :=
  let shardDir := join [indexerDir basedir cid idx, well, shard]
  match fs.readableDir shardDir with
  | .error e => .error (.fs e)
  | .ok () =>
    match addShardFilesToPacker fs shardDir shard (Packer.new shard) with
    | (.error e, _) => .error e
    | (.ok (), p) =>
      match p.flush with
      | .error e => .error (.pack e)
      | .ok () =>
        match p.close with
        | (.error e, _) => .error (.pack e)
        | (.ok (), p) => .ok p.entries

/-- `clean` of the `filestore` handler: `Clean` the path, strip every leading `.` and `/`,
`Clean` again, and split it into one directory (empty for none) and a file name. -/
def Filestore.clean (p : List Char) : List Char × List Char :=
  let p := CloudArchive.clean p
  let (d, f) := splitPath (CloudArchive.clean (trimLeft p "./".data))
  let d := base d
  (if d = ['.'] then [] else d, f)

/-- `handler.HandleFile(pth, rdr)` of the `filestore` handler writing into `sdir`. -/
def Filestore.handleFile (sdir pth : List Char) (data : Bytes) (fs : Fs) :
    Except FsErr Unit × Fs :=
  let (d, file) := Filestore.clean pth
  let made : Except FsErr Fs :=
    if d = [] then .ok fs
    else match fs.mkdir (join [sdir, d]) with
      | .error .exist => .ok fs
      | r => r
  match made with
  | .error e => (.error e, fs)
  | .ok fs =>
    match fs.create (join [sdir, d, file]) data with
    | .error e => (.error e, fs)
    | .ok fs => (.ok (), fs)

/-- The `filestore` handler of a shard directory. `HandleTagUpdate` (a `Merge` into the
indexer's `tags.dat`) is a parameter: the streams of `PackShard` carry no tag update. -/
def Filestore.handler (sdir : List Char)
    (tagUpdate : List Tags.TagPair → Fs → Except FsErr Unit × Fs) : UnpackHandler Fs FsErr :=
  ⟨Filestore.handleFile sdir, tagUpdate⟩

/-- The search of `UnpackShard` for a free directory: `base`, then `base.1`, `base.2`, …,
while the candidate exists, for `i < 10000`. -/
def resolveShardDir (fs : Fs) (base : List Char) : Nat → Nat → List Char → List Char
  | 0, _, d => d
  | fuel + 1, i, d =>
    if fs d = none then d else resolveShardDir fs base fuel (i + 1) (base ++ '.' :: decimal i)

/-- The `j`-th directory the search of `UnpackShard` may stop at: `base`, then
`fmt.Sprintf("%s.%d", base, j)`. -/
def suffixName (base : List Char) (j : Nat) : List Char :=
  if j = 0 then base else base ++ '.' :: decimal j

theorem isPrefixOf_suffixName (base : List Char) (j : Nat) :
    base.isPrefixOf (suffixName base j) = true := by
  by_cases hj : j = 0 <;> simp [suffixName, hj, List.isPrefixOf_iff_prefix]

/-- What `base.j` adds to `base` holds no `/`: each candidate sits next to `base`. -/
theorem slash_not_mem_drop_suffixName (base : List Char) (j : Nat) :
    '/' ∉ (suffixName base j).drop base.length := by
  have hd : '/' ∉ decimal j := fun h => by simpa using ((decimal_digits j).2.1 _ h).1
  by_cases hj : j = 0 <;> simp [suffixName, hj, hd]

/-- The search stops at the first of its remaining candidates that it finds absent, and at the
last one without probing it when it runs out of fuel: from the candidate `base.(i-1)` with fuel
`k`, the directory is `base.(i-1+m)` when the `m` candidates before it exist and, for `m < k`,
it does not. -/
theorem resolveShardDir_eq_suffixName {fs : Fs} {base : List Char} :
    ∀ {k i m : Nat}, 1 ≤ i → m ≤ k → (∀ j < m, fs (suffixName base (i - 1 + j)) ≠ none) →
      (m < k → fs (suffixName base (i - 1 + m)) = none) →
      resolveShardDir fs base k i (suffixName base (i - 1)) = suffixName base (i - 1 + m)
  | 0, i, m, _, hm, _, _ => by
    obtain rfl : m = 0 := by omega
    rfl
  | k + 1, i, 0, _, _, _, hfree => by rw [resolveShardDir]; exact if_pos (hfree (Nat.succ_pos k))
  | k + 1, i, m + 1, hi, hm, htaken, hfree => by
    have hshift : ∀ j, i + 1 - 1 + j = i - 1 + (j + 1) := fun j => by omega
    have hnext : base ++ '.' :: decimal i = suffixName base (i + 1 - 1) := by
      simp [suffixName, show i ≠ 0 by omega]
    have h := @resolveShardDir_eq_suffixName fs base k (i + 1) m (by omega) (by omega)
      (fun j hj => hshift j ▸ htaken (j + 1) (by omega)) (fun hk => hshift m ▸ hfree (by omega))
    have h0 : fs (suffixName base (i - 1)) ≠ none := htaken 0 (by omega)
    rw [resolveShardDir, if_neg h0, hnext, h, hshift]

/-- **Where `UnpackShard` unpacks.** Its search of `base`, `base.1`, …, `base.9998` stops at
the first of them that is absent; when all of them exist it takes `base.9999`, which it never
probes. -/
theorem resolveShardDir_unpackShard {fs : Fs} {base : List Char} {m : Nat} (hm : m ≤ 9999)
    (htaken : ∀ j < m, fs (suffixName base j) ≠ none) (hfree : m < 9999 → fs (suffixName base m) = none) :
    resolveShardDir fs base 9999 1 base = suffixName base m := by
  simpa using @resolveShardDir_eq_suffixName fs base 9999 1 m le_rfl hm (by simpa using htaken)
    (by simpa using hfree)

/-- With `b` taken and `b.1` free, the search stops at `b.1`. -/
theorem resolveShardDir_unpackShard_second :
    let fs : Fs := fun p => if p = "b".data then some .dir else none
    ((∀ j < 1, fs (suffixName "b".data j) ≠ none) ∧ fs (suffixName "b".data 1) = none) ∧
      resolveShardDir fs "b".data 9999 1 "b".data = "b.1".data := by
  intro fs
  have htaken : ∀ j < 1, fs (suffixName "b".data j) ≠ none := fun j hj => by
    obtain rfl : j = 0 := by omega
    decide
  have hfree : fs (suffixName "b".data 1) = none := by decide
  exact ⟨⟨htaken, hfree⟩, resolveShardDir_unpackShard (by omega) htaken (fun _ => hfree)⟩

/-- `filestore.UnpackShard` of a stream, one request at a time (its `EnterUpload` succeeds). -/
def Filestore.unpackShard (gob : GobCodec) (fs : Fs) (basedir : List Char) (cid : UInt64)
    (idx : BitVec 128) (well shard : List Char) (entries : List Entry)
    (tagUpdate : List Tags.TagPair → Fs → Except FsErr Unit × Fs) : Except ShardErr Unit × Fs :=
  let base := join [indexerDir basedir cid idx, well, shard]
  let shardDir := resolveShardDir fs base 9999 1 base
  match fs.mkdirAll shardDir with
  | .error e => (.error (.fs e), fs)
  | .ok fs =>
    match unpack gob shard entries (Filestore.handler shardDir tagUpdate) fs with
    | (.error e, fs) => (.error (.codec e), fs.removeAll shardDir)
    | (.ok (), fs) => (.ok (), fs)

/-- `UnpackShard` makes and fills the directory its search resolves to. -/
theorem Filestore.unpackShard_of_resolveShardDir {gob : GobCodec} {fs : Fs} {basedir : List Char}
    {cid : UInt64} {idx : BitVec 128} {well shard : List Char} {entries : List Entry}
    {tagUpdate : List Tags.TagPair → Fs → Except FsErr Unit × Fs} {d : List Char}
    (h : resolveShardDir fs (join [indexerDir basedir cid idx, well, shard]) 9999 1
      (join [indexerDir basedir cid idx, well, shard]) = d) :
    Filestore.unpackShard gob fs basedir cid idx well shard entries tagUpdate =
      match fs.mkdirAll d with
      | .error e => (.error (.fs e), fs)
      | .ok fs =>
        match unpack gob shard entries (Filestore.handler d tagUpdate) fs with
        | (.error e, fs) => (.error (.codec e), fs.removeAll d)
        | (.ok (), fs) => (.ok (), fs) := by
  subst h; rfl

/-- **A shard named `.5` comes back renamed.** Its trimmed id is empty, so its files are
`.store` and `.index`. `PackShard(".5")` packs them as `.5.store` and `.5.index`; on a disk
without the shard, `UnpackShard(".5")` succeeds, but the unpacker asks for `.store` and the
handler's `clean` turns that into `store`: the new directory holds `store` and `index`, and no
`.store`. -/
theorem filestore_roundtrip_renames_dotted_files :
    let fresh : Fs := fun p => if p = "/data".data then some .dir else none
    let sd := join [indexerDir "/data".data 7 0, "w".data, ".5".data]
    let shard : Fs := fun p =>
      if p = sd then some .dir
      else if p = join [sd, ".store".data] then some (.file [1])
      else if p = join [sd, ".index".data] then some (.file [2])
      else none
    let entries : List Entry := [⟨".5.index".data, typeReg, [2]⟩, ⟨".5.store".data, typeReg, [1]⟩]
    Filestore.packShard shard "/data".data 7 0 "w".data ".5".data = .ok entries ∧
      ∀ tagUpdate, (Filestore.unpackShard gobModel fresh "/data".data 7 0 "w".data ".5".data
          entries tagUpdate).1 = .ok () ∧
        (Filestore.unpackShard gobModel fresh "/data".data 7 0 "w".data ".5".data
          entries tagUpdate).2 (join [sd, ".store".data]) = none ∧
        (Filestore.unpackShard gobModel fresh "/data".data 7 0 "w".data ".5".data
          entries tagUpdate).2 (join [sd, "store".data]) = some (.file [1]) :=
  ⟨rfl, fun _ => ⟨rfl, rfl, rfl⟩⟩

/-- **All suffixes taken: `UnpackShard` reuses `base.9999`.** On a disk where the shard `x` and
every `x.j` exist, the search ends at `x.9999` without probing it: an unpack that succeeds
writes its files into that existing shard, and one that fails (here an empty stream, which
has no store file) removes it. -/
theorem unpackShard_all_suffixes_taken :
    let base := join [indexerDir "/data".data 7 0, "w".data, "x".data]
    let taken : Fs := fun p =>
      if p.isPrefixOf base ∨ base.isPrefixOf p ∧ '/' ∉ p.drop base.length then some .dir else none
    (∀ j, taken (suffixName base j) = some .dir) ∧
      ∀ tagUpdate,
        (Filestore.unpackShard gobModel taken "/data".data 7 0 "w".data "x".data
          [⟨"x.store".data, typeReg, [1]⟩] tagUpdate).1 = .ok () ∧
        (Filestore.unpackShard gobModel taken "/data".data 7 0 "w".data "x".data
          [⟨"x.store".data, typeReg, [1]⟩] tagUpdate).2 (base ++ ".9999/x.store".data) =
            some (.file [1]) ∧
        Filestore.unpackShard gobModel taken "/data".data 7 0 "w".data "x".data [] tagUpdate =
          (.error (.codec (.msg "store file missing")), taken.removeAll (suffixName base 9999)) ∧
        taken.removeAll (suffixName base 9999) (suffixName base 9999) = none := by
  intro base taken
  have hall : ∀ j, taken (suffixName base j) = some .dir := fun j =>
    if_pos (.inr ⟨isPrefixOf_suffixName base j, slash_not_mem_drop_suffixName base j⟩)
  have hres : resolveShardDir taken (join [indexerDir "/data".data 7 0, "w".data, "x".data]) 9999 1
      (join [indexerDir "/data".data 7 0, "w".data, "x".data]) = suffixName base 9999 :=
    resolveShardDir_unpackShard le_rfl (fun j _ h => Option.some_ne_none _ ((hall j).symm.trans h))
      (absurd · (lt_irrefl _))
  refine ⟨hall, fun tu => ?_⟩
  rw [Filestore.unpackShard_of_resolveShardDir hres, Filestore.unpackShard_of_resolveShardDir hres]
  simp only [base, taken, Filestore.handler]
  exact ⟨rfl, rfl, rfl, if_pos (.inl rfl)⟩

end CloudArchive.Store
