import CloudArchive.FilePath
import CloudArchive.ShardPacker.Gob

/-!
# ShardPacker — the packer and the unpacker

The wire format is a zlib-compressed tar stream. Tar and zlib are modelled as a lossless
framing: what the packer's tar writer emits is the list of `Entry`s the unpacker's tar reader
returns, in order, then `io.EOF`. The pipe and the goroutines around it belong to the
pipeline model (`Store.Pipeline`); here only the bytes matter.

Both ends track which semantic file types they have seen with the same `ftracker`: the
packer refuses a second file of a type (or a second accelerator form) when it is added, the
unpacker when it is read. An entry is placed by its type: `Filename` (from the untrimmed
shard id) names the tar entry, `Filepath` (from the trimmed id) is where the unpacker asks
its handler to put it.
-/

namespace CloudArchive.ShardPacker

open CloudArchive.Tags

/-- `shardpacker.Ftype`. Go's `Ftype` is an `int`; any other value makes `Filename` empty
and every packer call fail with `ErrInvalidFileType`, so only the eight constants are
modelled. -/
inductive Ftype
  | store | index | verify | accelFile | indexAccelKeyFile | indexAccelDataFile
  | tagsUpdate | wellTags
  deriving DecidableEq, Repr

/-- `tagupdateFilename`. -/
def tagupdateFilename : List Char := "tagsupdate".data

/-- `wellTagsFilename`. -/
def wellTagsFilename : List Char := "tags".data

/-- `Ftype.Filename`: the name of the tar entry. -/
def Ftype.filename (ft : Ftype) (id : List Char) : List Char :=
  match ft with
  | .tagsUpdate => tagupdateFilename
  | .wellTags => wellTagsFilename
  | .store => id ++ ".store".data
  | .index => id ++ ".index".data
  | .verify => id ++ ".verify".data
  | .accelFile => id ++ ".accel".data
  | .indexAccelKeyFile => "keys".data
  | .indexAccelDataFile => "data".data

/-- `Ftype.Filepath`: where the file lives in the shard directory. -/
def Ftype.filepath (ft : Ftype) (id : List Char) : List Char :=
  match ft with
  | .tagsUpdate => tagupdateFilename
  | .wellTags => wellTagsFilename
  | .store => id ++ ".store".data
  | .index => id ++ ".index".data
  | .verify => id ++ ".verify".data
  | .accelFile => id ++ ".accel".data
  | .indexAccelKeyFile => join [Ftype.accelFile.filename id, "keys".data]
  | .indexAccelDataFile => join [Ftype.accelFile.filename id, "data".data]

/-- The errors of the codec; `ε` is the type of the handler's own errors. -/
inductive CodecErr (ε : Type)
  /-- `ErrInvalidFileType` -/
  | invalidFileType
  /-- the gob decoder's error -/
  | gob
  /-- `io.EOF` from `io.CopyN`: the reader held fewer bytes than announced -/
  | eof
  /-- a tar writer error: a write after `Close` or after a short file -/
  | tar
  /-- an error built with `errors.New`, with its text -/
  | msg (text : String)
  /-- an error returned by a handler callback -/
  | handler (e : ε)
  deriving DecidableEq, Repr

/-- `FilenameToType`. -/
def filenameToType {ε : Type} (name : List Char) : Except (CodecErr ε) Ftype :=
  if name = "keys".data then .ok .indexAccelKeyFile
  else if name = "data".data then .ok .indexAccelDataFile
  else if name = tagupdateFilename then .ok .tagsUpdate
  else if name = wellTagsFilename then .ok .wellTags
  else if ext name = ".store".data then .ok .store
  else if ext name = ".index".data then .ok .index
  else if ext name = ".verify".data then .ok .verify
  else if ext name = ".accel".data then .ok .accelFile
  else .error .invalidFileType

/-! ## The type tracker -/

/-- `ftracker`. -/
structure Ftracker where
  storeHit : Bool
  indexHit : Bool
  verifyHit : Bool
  accelHit : Bool
  accelKeyHit : Bool
  accelDataHit : Bool
  wellTagsHit : Bool
  tagsUpdateHit : Bool
  deriving DecidableEq, Repr

/-- The zero `ftracker`. -/
def Ftracker.empty : Ftracker := ⟨false, false, false, false, false, false, false, false⟩

/-- `hitType`: the error text, if any, and the tracker with the type marked. Go marks the type
even when it reports the error. -/
def Ftracker.hitType (p : Ftracker) : Ftype → Option String × Ftracker
  | .store => (if p.storeHit then some "Store file already added" else none,
      { p with storeHit := true })
  | .index => (if p.indexHit then some "Index file already added" else none,
      { p with indexHit := true })
  | .verify => (if p.verifyHit then some "Verify file already added" else none,
      { p with verifyHit := true })
  | .accelFile => (if p.accelHit || p.accelKeyHit || p.accelDataHit then
      some "Accelerator file already added" else none, { p with accelHit := true })
  | .indexAccelKeyFile => (if p.accelHit || p.accelKeyHit then some "Accelerator already added"
      else none, { p with accelKeyHit := true })
  | .indexAccelDataFile => (if p.accelHit || p.accelDataHit then some "Accelerator already added"
      else none, { p with accelDataHit := true })
  | .tagsUpdate => (if p.tagsUpdateHit then some "Tags update already added" else none,
      { p with tagsUpdateHit := true })
  | .wellTags => (if p.wellTagsHit then some "Well tags already added" else none,
      { p with wellTagsHit := true })

/-- `allFilesHit(strict)`: the error text, if any. -/
def Ftracker.allFilesHit (p : Ftracker) (strict : Bool) : Option String :=
  if !p.storeHit then some "store file missing"
  else if !p.tagsUpdateHit && strict then some "tags update file missing"
  else if !p.wellTagsHit && strict then some "well tags file missing"
  else if !p.indexHit && strict then some "index file missing"
  else if !p.verifyHit && strict then some "verify file missing"
  else if p.accelKeyHit || p.accelDataHit then
    if !p.accelKeyHit then some "indexed accelerator key file missing"
    else if !p.accelDataHit then some "indexed accelerator data file missing"
    else none
  else none

/-! ## The packer -/

/-- `tar.TypeReg`. -/
def typeReg : Char := '0'

/-- A tar entry: header name, type flag, content. -/
structure Entry where
  name : List Char
  typeflag : Char
  data : Bytes
  deriving DecidableEq, Repr

/-- A `Packer` as its tar writer sees it: the shard id it was made with, the type tracker,
the entries written so far, and whether the tar writer still accepts a header (it refuses
after `Close` and after a file that was written short). -/
structure Packer where
  id : List Char
  tracker : Ftracker
  entries : List Entry
  writable : Bool

/-- `NewPacker(id)`. -/
def Packer.new (id : List Char) : Packer := ⟨id, .empty, [], true⟩

/-- The packer's errors: it calls no handler. -/
abbrev PackErr := CodecErr Empty

/-- The shared part of `addByteStream` and `AddFile`: mark the type, then write the header and
`sz` bytes of `r`. A short reader fails with `io.EOF` after the header is out, which leaves the
tar writer refusing every later header. -/
def Packer.addEntry (p : Packer) (tp : Ftype) (sz : Nat) (r : Bytes) : Except PackErr Unit × Packer :=
  match p.tracker.hitType tp with
  | (some m, t) => (.error (.msg m), { p with tracker := t })
  | (none, t) =>
    let p := { p with tracker := t }
    if !p.writable then (.error .tar, p)
    else if r.length < sz then (.error .eof, { p with writable := false })
    else (.ok (), { p with entries := p.entries ++ [⟨tp.filename p.id, typeReg, r.take sz⟩] })

/-- `AddTags`: the gob encoding of the list, as the `tagsupdate` entry. -/
def Packer.addTags (gob : GobCodec) (p : Packer) (tps : List TagPair) : Except PackErr Unit × Packer :=
  p.addEntry .tagsUpdate (gob.encode tps).length (gob.encode tps)

/-- The bytes `AddWellTags` writes: each name and a newline, trailing newlines trimmed. -/
def wellTagsBytes (tgs : List String) : Bytes :=
  ((String.join (tgs.map (· ++ "\n"))).toUTF8.toList.reverse.dropWhile (· = 10)).reverse

/-- `AddWellTags`. -/
def Packer.addWellTags (p : Packer) (tgs : List String) : Except PackErr Unit × Packer :=
  p.addEntry .wellTags (wellTagsBytes tgs).length (wellTagsBytes tgs)

/-- `AddFile(tp, sz, r)`. -/
def Packer.addFile (p : Packer) (tp : Ftype) (sz : Nat) (r : Bytes) : Except PackErr Unit × Packer :=
  p.addEntry tp sz r

/-- `Close`: close the tar writer (it fails after a short file), then zlib and the pipe. -/
def Packer.close (p : Packer) : Except PackErr Unit × Packer :=
  if p.writable then (.ok (), { p with writable := false }) else (.error .tar, p)

/-- `Flush`: the tar writer's flush fails after a short file or a close. -/
def Packer.flush (p : Packer) : Except PackErr Unit :=
  if p.writable then .ok () else .error .tar

/-- `CloseWithError`: close the pipe with the error, then the tar writer, which refuses every
later header. It returns `nil`. -/
def Packer.closeWithError (p : Packer) : Packer := { p with writable := false }

/-! ## The unpacker -/

/-- `UnpackHandler`, over a handler state `σ`; each callback returns its error and the state
it leaves (a failed `HandleFile` may have written part of a file). -/
structure UnpackHandler (σ ε : Type) where
  handleFile : List Char → Bytes → σ → Except ε Unit × σ
  handleTagUpdate : List TagPair → σ → Except ε Unit × σ

variable {σ ε : Type}

/-- The loop of `Unpack` over the tar entries, with the unpacker's tracker. A `tagsupdate`
entry is decoded and handed to `HandleTagUpdate` before its type is marked (`updateTags`);
every other entry is typed by name, marked, and handed to `HandleFile` at its `Filepath`. -/
def unpackEntries (gob : GobCodec) (id : List Char) (h : UnpackHandler σ ε) :
    Ftracker → List Entry → σ → Except (CodecErr ε) Ftracker × σ
  | t, [], s => (.ok t, s)
  | t, e :: es, s =>
    if e.typeflag ≠ typeReg then (.error .invalidFileType, s)
    else if e.name = tagupdateFilename then
      match gob.decode e.data with
      | none => (.error .gob, s)
      | some ts =>
        match h.handleTagUpdate ts s with
        | (.error err, s) => (.error (.handler err), s)
        | (.ok (), s) =>
          match t.hitType .tagsUpdate with
          | (some m, _) => (.error (.msg m), s)
          | (none, t) => unpackEntries gob id h t es s
    else
      match filenameToType e.name with
      | .error err => (.error err, s)
      | .ok ft =>
        match t.hitType ft with
        | (some m, _) => (.error (.msg m), s)
        | (none, t) =>
          match h.handleFile (ft.filepath id) e.data s with
          | (.error err, s) => (.error (.handler err), s)
          | (.ok (), s) => unpackEntries gob id h t es s

/-- `NewUnpacker(id, rdr).Unpack(h)`: the unpacker keeps the trimmed id; after the last entry
the lenient completeness check runs. -/
def unpack (gob : GobCodec) (id : List Char) (entries : List Entry) (h : UnpackHandler σ ε)
    (s : σ) : Except (CodecErr ε) Unit × σ :=
  match unpackEntries gob (trimVersion id) h .empty entries s with
  | (.error e, s) => (.error e, s)
  | (.ok t, s) =>
    match t.allFilesHit false with
    | some m => (.error (.msg m), s)
    | none => (.ok (), s)

end CloudArchive.ShardPacker
