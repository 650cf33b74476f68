import CloudArchive.Tags.TagMan

/-!
# Tags — opening `tags.dat`: `New`, `loadTags`, `parseLine`

`New(p)` creates a missing `tags.dat` and seeds it with the two reserved lines, or opens an
existing one; either way it takes the exclusive lock and runs `loadTags`. `loadTags` reads
the file with `bufio.Reader.ReadString('\n')` from the handle's offset: right after the
seeding writes that offset is the end of the file, so a fresh file loads no lines, and an
existing file loads every complete line (a last line with no `\n` ends the loop with
`io.EOF` and is dropped). Each line must parse, must respect the two reserved pairs, and
must not repeat an id or a name already loaded.
-/

namespace CloudArchive.Tags

/-- The lines `ReadString('\n')` returns before it reports an error, each with its `\n`;
`acc` is the current partial line, reversed. -/
def readLinesAux : List Char → List Char → List (List Char)
  | [], _ => []
  | c :: cs, acc =>
    if c = '\n' then (acc.reverse ++ ['\n']) :: readLinesAux cs [] else readLinesAux cs (c :: acc)

/-- The complete lines of the bytes read. -/
def readLines (data : List Char) : List (List Char) := readLinesAux data []

/-- `parseLine`: `name=id`, both sides trimmed and non-empty, the id a decimal `uint16`. -/
def parseLine (line : List Char) : Except TagErr (String × EntryTag) :=
  match split line '=' with
  | [name, tag] =>
    if trimSpace name = [] ∨ trimSpace tag = [] then .error errMalformed
    else match parseUint (trimSpace tag) 16 with
      | some v => .ok (⟨trimSpace name⟩, UInt16.ofNat v)
      | none => .error .parse
  | _ => .error errMalformed

/-- `fmt.Errorf("tag \"%s\" MUST be %d: not \"%s=%d\"", ...)`. -/
def reservedErr (name : String) (id : EntryTag) (k : String) (v : EntryTag) : TagErr :=
  .msg ("tag \"" ++ name ++ "\" MUST be " ++ String.mk (decimal id.toNat) ++ ": not \"" ++ k ++
    "=" ++ String.mk (decimal v.toNat) ++ "\"")

/-- The read loop of `loadTags`, one line at a time. -/
def TagMan.loadLines (tm : TagMan) : List (List Char) → Except TagErr TagMan
  | [] => .ok tm
  | line :: rest =>
    if line = [] then tm.loadLines rest else
    match parseLine (trimSpace line) with
    | .error e => .error e
    | .ok (k, v) =>
      if (v ≠ defaultTagId ∧ k = defaultTagName) ∨ (v = defaultTagId ∧ k ≠ defaultTagName) then
        .error (reservedErr defaultTagName defaultTagId k v)
      else if (v ≠ gravwellTagId ∧ k = gravwellTagName) ∨ (v = gravwellTagId ∧ k ≠ gravwellTagName) then
        .error (reservedErr gravwellTagName gravwellTagId k v)
      else if (tm.tagKeys v).isSome then
        .error (.msg ("tag id " ++ String.mk (decimal v.toNat) ++ " already exists"))
      else if (tm.tags k).isSome then .error (.msg ("tag name " ++ k ++ " already exists"))
      else (tm.insert k v).loadLines rest

/-- `loadTags` on the bytes not yet read: the read loop, then `ensureTag` of the two reserved
pairs, then `nextTag := findNextAvailableTag()` (whose error, on a full dictionary, fails the
load). -/
def TagMan.loadTags (tm : TagMan) (unread : List Char) : Except TagErr TagMan :=
  match { tm with active := true }.loadLines (readLines unread) with
  | .error e => .error e
  | .ok tm =>
    match tm.ensureTag defaultTagId defaultTagName with
    | (.error e, _) => .error e
    | (.ok (), tm) =>
      match tm.ensureTag gravwellTagId gravwellTagName with
      | (.error e, _) => .error e
      | (.ok (), tm) =>
        match findNextAvailableTag tm.tagKeys with
        | .error e => .error e
        | .ok n => .ok { tm with nextTag := n }

/-- What `os.Stat` finds at the cleaned `tags.dat` path. -/
inductive TagPath
  /-- nothing there: `New` creates the file, on a disk that answers requests with `fails` -/
  | missing (fails : Nat → Bool)
  | dir
  | irregular
  /-- a regular file -/
  | file (f : TagFile)

/-- The part of `New` after `os.Stat`: open (or create) the file, lock it, seed a new file
with the reserved lines, and load. A fresh file is read from its end, so nothing is read. -/
def openTagFile (f : TagFile) (newFile : Bool) : Except TagErr TagMan :=
  let tm : TagMan := ⟨fun _ => none, fun _ => none, 0, some f, true⟩
  let opened :=
    tm.io TagFile.seek fun tm =>
    tm.io TagFile.seek fun tm =>
    if newFile then
      tm.io (·.write (tagLine defaultTagName defaultTagId)) fun tm =>
      let tm := tm.insert defaultTagName defaultTagId
      tm.io (·.write (tagLine gravwellTagName gravwellTagId)) fun tm =>
      (.ok (), tm.insert gravwellTagName gravwellTagId)
    else (.ok (), tm)
  match opened with
  | (.error e, _) => .error e
  | (.ok (), tm) => tm.loadTags (if newFile then [] else f.data)

/-- `tags.New(p)`, with `path` the cleaned path. -/
def tagsNew (path : String) : TagPath → Except TagErr TagMan
  | .missing fails => openTagFile ⟨[], fails, 0⟩ true
  | .dir => .error (.msg (path ++ " is a directory"))
  | .irregular => .error (.msg (path ++ " is not a regular file"))
  | .file f => openTagFile f false

/-- A disk that never fails. -/
def healthyDisk : Nat → Bool := fun _ => false

end CloudArchive.Tags
