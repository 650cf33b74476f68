import CloudArchive.Store.Filestore
import CloudArchive.ShardPacker.RoundTrip

/-!
# Store — a shard directory, and `PackShard` of it

`ShardFiles` is what `util.AddShardFilesToPacker` looks for in a shard directory: an optional
`verify` file, the `index` and the `store`, and an accelerator that is missing, a regular
`<id>.accel`, or a directory `<id>.accel` holding `keys` and `data`. `ShardFiles.OnDisk` says
that a directory of the disk holds them at their types' `Filepath`s of the trimmed id.

For a shard name whose trimmed id is a `GoodId` (not empty, no `/`, not starting with `.`),
`Join` of the directory and a `Filepath` is a plain append (`filepath_plain`): the packer finds
each file where `OnDisk` puts it, and `PackShard` streams exactly `sf.entries`
(`packShard_onDisk`). The six `Filepath`s are distinct (`filepath_inj`), and the types of
`sf`'s files are distinct and accepted by the unpacker's tracker (`ShardFiles.files_wf`); the
unpacking side (`Store.RoundTrip`) rests on both.
-/

namespace CloudArchive.Store

open CloudArchive CloudArchive.ShardPacker

/-- A shard id whose file names `clean` keeps: not empty, no `/`, not starting with `.`. -/
def GoodId (id : List Char) : Prop := id ≠ [] ∧ '/' ∉ id ∧ id.head? ≠ some '.'

/-- The trimmed id of a shard name the router delivers is a good id unless it is empty or
starts with `.`. -/
theorem goodId_trimVersion {n : List Char} (hn : IsElem n) (hid : trimVersion n ≠ [])
    (hdot : (trimVersion n).head? ≠ some '.') : GoodId (trimVersion n) := by
  refine ⟨hid, fun h => hn.2.1 ?_, hdot⟩
  unfold trimVersion trimSuffix at h
  split at h
  · exact List.mem_of_mem_take h
  · exact h

theorem GoodId.elem {id s : List Char} (hid : GoodId id) (hs : '/' ∉ s) : IsElem (id ++ s) := by
  obtain ⟨hne, hsl, hdot⟩ := hid
  obtain ⟨c, t, rfl⟩ := List.exists_cons_of_ne_nil hne
  have hc : c ≠ '.' := fun e => hdot (by simp [e])
  refine ⟨by simp, fun h => (List.mem_append.mp h).elim hsl hs, ?_, ?_⟩ <;> simp [hc]

/-! ## A shard directory -/

/-- A shard's accelerator: none, a regular `<id>.accel`, or a directory `<id>.accel` holding
`keys` and `data`. -/
inductive Accel
  | none
  | file (data : Bytes)
  | dir (keys data : Bytes)

/-- The files of a shard directory that `AddShardFilesToPacker` looks for. -/
structure ShardFiles where
  verify : Option Bytes
  index : Bytes
  store : Bytes
  accel : Accel

/-- The types of a shard directory's files, in the order `AddShardFilesToPacker` adds them. -/
def shardFileTypes : List Ftype :=
  [.verify, .index, .store, .accelFile, .indexAccelKeyFile, .indexAccelDataFile]

/-- The regular files of `sf`, with their types, in the order `AddShardFilesToPacker` adds
them. -/
def ShardFiles.files (sf : ShardFiles) : List (Ftype × Bytes) :=
  sf.verify.toList.map (.verify, ·) ++ [(.index, sf.index), (.store, sf.store)] ++
    match sf.accel with
    | .none => []
    | .file d => [(.accelFile, d)]
    | .dir k d => [(.indexAccelKeyFile, k), (.indexAccelDataFile, d)]

/-- What the shard directory holds at each type's `Filepath`: the regular files, and the
accelerator directory when `keys` and `data` are in one. -/
def ShardFiles.node (sf : ShardFiles) (tp : Ftype) : Option Node :=
  match sf.accel, tp with
  | .dir _ _, .accelFile => some .dir
  | _, _ => (sf.files.find? (·.1 = tp)).map fun f => .file f.2

theorem ShardFiles.node_accel {sf : ShardFiles} {k d : Bytes} (h : sf.accel = .dir k d) :
    sf.node .accelFile = some .dir := by
  simp [ShardFiles.node, h]

theorem ShardFiles.node_of_not_dir {sf : ShardFiles} {tp : Ftype}
    (h : ∀ k d, sf.accel = .dir k d → tp ≠ .accelFile) :
    sf.node tp = (sf.files.find? (·.1 = tp)).map fun f => .file f.2 := by
  unfold ShardFiles.node
  split
  · next hk => exact absurd rfl (h _ _ hk)
  · rfl

/-- The entries `PackShard` streams for a shard named `n`: each regular file, under its type's
`Filename` of the untrimmed name. -/
def ShardFiles.entries (sf : ShardFiles) (n : List Char) : List Entry :=
  sf.files.map fun f => ⟨f.1.filename n, typeReg, f.2⟩

/-- The disk holds `sf` in the directory `D` of the shard with id `id`. -/
def ShardFiles.OnDisk (sf : ShardFiles) (fs : Fs) (D id : List Char) : Prop :=
  fs D = some .dir ∧ ∀ tp ∈ shardFileTypes, fs (D ++ '/' :: tp.filepath id) = sf.node tp

instance (sf : ShardFiles) (fs : Fs) (D id : List Char) : Decidable (sf.OnDisk fs D id) :=
  inferInstanceAs (Decidable (_ ∧ _))

section Paths

variable {id : List Char}

theorem filepath_keys (hid : GoodId id) :
    Ftype.indexAccelKeyFile.filepath id = id ++ ".accel".data ++ '/' :: "keys".data :=
  (hid.elem (show '/' ∉ ".accel".data by decide)).proper.join_pair (by decide)

theorem filepath_data (hid : GoodId id) :
    Ftype.indexAccelDataFile.filepath id = id ++ ".accel".data ++ '/' :: "data".data :=
  (hid.elem (show '/' ∉ ".accel".data by decide)).proper.join_pair (by decide)

/-- The six paths are plain relative paths. -/
theorem filepath_plain (hid : GoodId id) {tp : Ftype} (htp : tp ∈ shardFileTypes) :
    ∀ e ∈ split (tp.filepath id) '/', IsElem e := by
  have top : ∀ s : List Char, '/' ∉ s → ∀ e ∈ split (id ++ s) '/', IsElem e :=
    fun _ hs => (hid.elem hs).split_elem
  have nested : ∀ f : List Char, IsElem f →
      ∀ e ∈ split (id ++ ".accel".data ++ '/' :: f) '/', IsElem e := by
    intro f hf
    rw [split_append_sep, split_of_not_mem (hid.elem (show '/' ∉ ".accel".data by decide)).2.1,
      split_of_not_mem hf.2.1]
    simpa using ⟨hid.elem (show '/' ∉ ".accel".data by decide), hf⟩
  simp only [shardFileTypes, List.mem_cons, List.mem_singleton, List.not_mem_nil, or_false] at htp
  rcases htp with rfl | rfl | rfl | rfl | rfl | rfl
  iterate 4 exact top _ (by decide)
  · rw [filepath_keys hid]; exact nested _ (by decide)
  · rw [filepath_data hid]; exact nested _ (by decide)

end Paths

/-! ## `PackShard` -/

/-- The lookups of `AddShardFilesToPacker` in a directory that holds `sf`. -/
theorem ShardFiles.OnDisk.lookup {sf : ShardFiles} {fs : Fs} {D id : List Char}
    (h : sf.OnDisk fs D id) (hD : Proper D) (hid : GoodId id) {tp : Ftype}
    (htp : tp ∈ shardFileTypes) : fs (join [D, tp.filepath id]) = sf.node tp := by
  rw [hD.join_pair (filepath_plain hid htp)]; exact h.2 tp htp

/-- `AddShardFilesToPacker` on a directory that holds `sf`: every call succeeds, and the
packer holds `sf`'s entries. -/
theorem addShardFilesToPacker_onDisk {sf : ShardFiles} {fs : Fs} {D n : List Char}
    (h : sf.OnDisk fs D (trimVersion n)) (hD : Proper D) (hid : GoodId (trimVersion n)) :
    ∃ p : Packer, addShardFilesToPacker fs D n (Packer.new n) = (.ok (), p) ∧
      p.writable = true ∧ p.entries = sf.entries n := by
  have lv := h.lookup hD hid (show Ftype.verify ∈ shardFileTypes by decide)
  have li := h.lookup hD hid (show Ftype.index ∈ shardFileTypes by decide)
  have ls := h.lookup hD hid (show Ftype.store ∈ shardFileTypes by decide)
  have la := h.lookup hD hid (show Ftype.accelFile ∈ shardFileTypes by decide)
  have lk := h.lookup hD hid (show Ftype.indexAccelKeyFile ∈ shardFileTypes by decide)
  have ld := h.lookup hD hid (show Ftype.indexAccelDataFile ∈ shardFileTypes by decide)
  have la' : fs (join [D, Ftype.accelFile.filename (trimVersion n)]) = sf.node .accelFile := la
  obtain ⟨v, i, st, a⟩ := sf
  cases v <;> cases a <;>
    simp only [ShardFiles.node, ShardFiles.files, Option.toList, List.map, List.nil_append,
      List.cons_append, List.singleton_append, List.find?, decide_True, decide_False,
      reduceCtorEq, Option.map] at lv li ls la la' lk ld <;>
    simp [addShardFilesToPacker, addFile, Fs.getHandleAndSize, lv, li, ls, la, la', lk, ld,
      Packer.addFile, Packer.addEntry, Packer.new, Ftracker.hitType, Ftracker.empty,
      ShardFiles.entries, ShardFiles.files]

/-- `PackShard` of a shard directory that holds `sf` streams `sf`'s entries. -/
theorem packShard_onDisk {sf : ShardFiles} {fs : Fs} {basedir well n : List Char} {cid : UInt64}
    {idx : BitVec 128} (hn : IsElem n) (hid : GoodId (trimVersion n))
    (h : sf.OnDisk fs (join [indexerDir basedir cid idx, well, n]) (trimVersion n)) :
    Filestore.packShard fs basedir cid idx well n = .ok (sf.entries n) := by
  obtain ⟨p, hp, hw, he⟩ := addShardFilesToPacker_onDisk h (proper_join [_, _] hn) hid
  simp [Filestore.packShard, Fs.readableDir, h.1, hp, Packer.flush, hw, Packer.close, he]

/-! ## Where the files lie -/

/-- The part of a shard file's `Filepath` after the id. -/
def fileSuffix : Ftype → List Char
  | .verify => ".verify".data
  | .index => ".index".data
  | .store => ".store".data
  | .accelFile => ".accel".data
  | .indexAccelKeyFile => ".accel/keys".data
  | .indexAccelDataFile => ".accel/data".data
  | .tagsUpdate => tagupdateFilename
  | .wellTags => wellTagsFilename

section Paths

variable {id : List Char} (hid : GoodId id)
include hid

theorem filepath_eq_suffix {tp : Ftype} (htp : tp ∈ shardFileTypes) :
    tp.filepath id = id ++ fileSuffix tp := by
  simp only [shardFileTypes, List.mem_cons, List.mem_singleton, List.not_mem_nil, or_false] at htp
  rcases htp with rfl | rfl | rfl | rfl | rfl | rfl
  iterate 4 rfl
  · rw [filepath_keys hid]; simp [fileSuffix]
  · rw [filepath_data hid]; simp [fileSuffix]

/-- The six files of a shard directory lie at six different paths. -/
theorem filepath_inj {tp tp' : Ftype} (htp : tp ∈ shardFileTypes) (htp' : tp' ∈ shardFileTypes)
    (h : tp.filepath id = tp'.filepath id) : tp = tp' := by
  rw [filepath_eq_suffix hid htp, filepath_eq_suffix hid htp', List.append_cancel_left_eq] at h
  have key : ∀ tp ∈ shardFileTypes, ∀ tp' ∈ shardFileTypes, fileSuffix tp = fileSuffix tp' →
      tp = tp' := by decide
  exact key tp htp tp' htp' h

end Paths

/-- Whether files of type `tp` live in the accelerator directory. -/
def inAccelDir : Ftype → Bool
  | .indexAccelKeyFile | .indexAccelDataFile => true
  | _ => false

theorem shardFileType_ne_tagsUpdate {tp : Ftype} (htp : tp ∈ shardFileTypes) :
    tp ≠ .tagsUpdate := by
  rintro rfl; exact absurd htp (by decide)

/-- The files of a shard directory have distinct types among the six, the tracker takes them
all, and the accelerator file never sits beside the files of an accelerator directory. -/
theorem ShardFiles.files_wf (sf : ShardFiles) :
    (∀ f ∈ sf.files, f.1 ∈ shardFileTypes) ∧ (sf.files.map Prod.fst).Nodup ∧
      (∀ f ∈ sf.files, ∀ f' ∈ sf.files, inAccelDir f.1 = true → f'.1 ≠ .accelFile) ∧
      ∃ t, Ftracker.empty.hitAll (sf.files.map Prod.fst) = some t ∧
        t.allFilesHit false = none := by
  obtain ⟨v, i, s, a⟩ := sf
  cases v <;> cases a <;> refine ⟨?_, ?_, ?_, _, rfl, rfl⟩ <;>
    simp only [ShardFiles.files, Option.toList, List.map, List.cons_append, List.nil_append,
      List.forall_mem_cons, List.not_mem_nil, false_implies, implies_true, and_true] <;>
    first | decide | simp [inAccelDir]

theorem ShardFiles.inAccelDir_files {sf : ShardFiles} {k d : Bytes} (h : sf.accel = .dir k d) :
    ∃ f ∈ sf.files, inAccelDir f.1 = true :=
  ⟨(.indexAccelKeyFile, k), by simp [ShardFiles.files, h], rfl⟩

theorem ShardFiles.accel_of_inAccelDir (sf : ShardFiles) :
    ∀ f ∈ sf.files, inAccelDir f.1 = true → ∃ k d, sf.accel = .dir k d := by
  obtain ⟨v, i, s, a⟩ := sf
  cases v <;> cases a <;>
    simp only [ShardFiles.files, Option.toList, List.map, List.cons_append, List.nil_append,
      List.forall_mem_cons, List.forall_mem_nil] <;> simp [inAccelDir]

end CloudArchive.Store
