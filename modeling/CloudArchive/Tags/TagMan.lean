import Mathlib.Logic.Function.Basic
import CloudArchive.GoStrings

/-!
# Tags — the tag manager `TagMan`

One `TagMan` owns one `tags.dat`: an in-memory pair of Go maps, `tags` (name → id) and
`tagKeys` (id → name), an allocation cursor `nextTag`, and the open file handle the
manager appends `name=id` lines to.

The Go maps are functions into `Option`, updated with `Function.update` (Go's `m[k] = v`).
The handle is a `TagFile`: the bytes on disk and the disk's answer to each I/O request
(`fails n` says whether the `n`-th request on this file fails), so that every error path of
the source (a failed seek, write or truncate, in any position of a call) is a run of the
model. Every operation returns its Go result together with the manager's state after the
call: Go mutates the receiver before it returns an error, and the model keeps those
mutations.

`ingest.CheckTag` and the reserved tag constants live in the gravwell `ingest` packages,
outside this repository; they are modelled from the spec.
-/

namespace CloudArchive.Tags

/-- `entry.EntryTag`, Go's `uint16`. -/
abbrev EntryTag := UInt16

/-- `tags.TagPair`. -/
structure TagPair where
  name : String
  value : EntryTag
  deriving DecidableEq, Repr

/-- Modelled from the spec: `entry.DefaultTagName` (gravwell `entry` package). -/
def defaultTagName : String := "default"

/-- Modelled from the spec: `entry.DefaultTagId`. -/
def defaultTagId : EntryTag := 0

/-- Modelled from the spec: `entry.GravwellTagName`. -/
def gravwellTagName : String := "gravwell"

/-- Modelled from the spec: `entry.GravwellTagId`. -/
def gravwellTagId : EntryTag := 0xFFFF

/-- Modelled from the spec: `ingest.CheckTag` (gravwell `ingest` package): a tag name is
non-empty and holds no white space and no `=`. -/
def checkTag (name : String) : Bool :=
  name.data ≠ [] && name.data.all fun c => !isSpace c && c != '='

/-- The errors a tag-manager call returns. -/
inductive TagErr
  /-- an error of the file handle: seek, write, truncate, lock, open or close -/
  | io
  /-- `os.ErrInvalid`: an I/O request on the `nil` handle of a closed manager -/
  | invalid
  /-- the error `ingest.CheckTag` returns -/
  | checkTag
  /-- the error `strconv.ParseUint` returns -/
  | parse
  /-- an error the code builds itself, with its Go text -/
  | msg (text : String)
  deriving DecidableEq, Repr

/-- `ErrNotActive`. -/
def errNotActive : TagErr := .msg "not active"

/-- `ErrNotFound`. -/
def errNotFound : TagErr := .msg "not found"

/-- `errors.New("No tags available")`. -/
def errNoTagsAvailable : TagErr := .msg "No tags available"

/-- `errors.New("Malformed line")`. -/
def errMalformed : TagErr := .msg "Malformed line"

/-! ## The backing file -/

/-- The open `tags.dat`: its bytes, the disk's answer to each I/O request (`fails n`: the
`n`-th request on this file fails), and how many requests were made. -/
structure TagFile where
  data : List Char
  fails : Nat → Bool
  ops : Nat

/-- One I/O request on the file: on success `update` is applied to the bytes. -/
def TagFile.request (f : TagFile) (update : List Char → List Char) :
    Except TagErr Unit × TagFile :=
  if f.fails f.ops then (.error .io, { f with ops := f.ops + 1 })
  else (.ok (), { f with data := update f.data, ops := f.ops + 1 })

/-- `fout.Seek(...)` (and the open and lock requests): nothing changes on disk. -/
def TagFile.seek (f : TagFile) : Except TagErr Unit × TagFile := f.request id

/-- `fmt.Fprintf(fout, ...)`: every write of the manager lands at the end of the file
(it seeks there first, or the file was just truncated or created). -/
def TagFile.write (f : TagFile) (s : List Char) : Except TagErr Unit × TagFile :=
  f.request (· ++ s)

/-- `fout.Truncate(0)`. -/
def TagFile.truncate (f : TagFile) : Except TagErr Unit × TagFile := f.request fun _ => []

/-- The line `fmt.Fprintf(fout, "%s=%d\n", name, value)` writes. -/
def tagLine (name : String) (value : EntryTag) : List Char :=
  name.data ++ '=' :: decimal value.toNat ++ ['\n']

/-! ## The manager -/

/-- `tags.TagMan` (its mutex and `backingFile` path play no part in the model). -/
structure TagMan where
  tagKeys : EntryTag → Option String
  tags : String → Option EntryTag
  nextTag : EntryTag
  /-- `fout`, `nil` after `Close` -/
  fout : Option TagFile
  active : Bool

/-- `tm.tagKeys[value] = name; tm.tags[name] = value`. -/
def TagMan.insert (tm : TagMan) (name : String) (value : EntryTag) : TagMan :=
  { tm with tagKeys := Function.update tm.tagKeys value (some name)
            tags := Function.update tm.tags name (some value) }

/-- An I/O request on the manager's handle followed by the rest of the call `k`; a failed
request returns its error (`os.ErrInvalid` on the `nil` handle of a closed manager). -/
def TagMan.io {α : Type} (tm : TagMan) (req : TagFile → Except TagErr Unit × TagFile)
    (k : TagMan → Except TagErr α × TagMan) : Except TagErr α × TagMan :=
  match tm.fout with
  | none => (.error .invalid, tm)
  | some f =>
    match req f with
    | (.error e, f') => (.error e, { tm with fout := some f' })
    | (.ok (), f') => k { tm with fout := some f' }

/-- `findNextAvailableTag`: the first id of `1 … 0xFFFE` that `tagKeys` does not hold.
Go: `for i := EntryTag(1); i < EntryTag(0xffff); i++ { if _, ok := tm.tagKeys[i]; !ok
{ return i, nil } }; return 0, errors.New("No tags available")`. -/
def findNextAvailableTag (tagKeys : EntryTag → Option String) : Except TagErr EntryTag :=
  match (List.range' 1 0xFFFE).find? (fun i => (tagKeys (UInt16.ofNat i)).isNone) with
  | some i => .ok (UInt16.ofNat i)
  | none => .error errNoTagsAvailable

/-- `allocateTag`: give `name` the id `nextTag` if it is free, else the first free id, and
append the line. Go assigns `findNextAvailableTag`'s result to `tm.nextTag` before it checks
the error, so a full dictionary leaves `nextTag = 0`; a failed write leaves the maps updated
and `nextTag` not advanced; `nextTag++` wraps at `0xFFFF`. -/
def TagMan.allocateTag (tm : TagMan) (name : String) : Except TagErr Unit × TagMan :=
  if !checkTag name then (.error .checkTag, tm) else
  tm.io TagFile.seek fun tm =>
  match (if (tm.tagKeys tm.nextTag).isSome then findNextAvailableTag tm.tagKeys
         else .ok tm.nextTag) with
  | .error e => (.error e, { tm with nextTag := 0 })
  | .ok n =>
    if (tm.tagKeys n).isNone then
      ({ tm with nextTag := n }.insert name n).io (·.write (tagLine name n)) fun tm =>
        (.ok (), { tm with nextTag := n + 1 })
    else (.error errNoTagsAvailable, { tm with nextTag := n })

/-- `assignTag`: add the pair as given, with no check of what is already there (the caller
checks), and append the line. -/
def TagMan.assignTag (tm : TagMan) (name : String) (value : EntryTag) :
    Except TagErr Unit × TagMan :=
  if !checkTag name then (.error .checkTag, tm) else
  tm.io TagFile.seek fun tm =>
  (tm.insert name value).io (·.write (tagLine name value)) fun tm => (.ok (), tm)

/-- `strings.TrimSpace` on a Go string. -/
def trimSpaceStr (s : String) : String := ⟨trimSpace s.data⟩

/-- `getAndPopulateNoLock`: look the name up, allocating it when absent. -/
def TagMan.getAndPopulateNoLock (tm : TagMan) (name : String) : Except TagErr EntryTag × TagMan :=
  match tm.tags name with
  | some tag => (.ok tag, tm)
  | none =>
    match tm.allocateTag name with
    | (.error e, tm) => (.error e, tm)
    | (.ok (), tm) =>
      match tm.tags name with
      | some tag => (.ok tag, tm)
      | none => (.error errNotFound, tm)

/-- `ImportTags`: `getAndPopulateNoLock` of each trimmed name, stopping at the first error.
It makes no `active` check. -/
def TagMan.importTags (tm : TagMan) : List String → Except TagErr Unit × TagMan
  | [] => (.ok (), tm)
  | v :: vs =>
    match tm.getAndPopulateNoLock (trimSpaceStr v) with
    | (.error e, tm) => (.error e, tm)
    | (.ok _, tm) => tm.importTags vs

/-- `AddTag`. -/
def TagMan.addTag (tm : TagMan) (name : String) : Except TagErr Unit × TagMan :=
  let name := trimSpaceStr name
  if !tm.active then (.error errNotActive, tm)
  else if (tm.tags name).isSome then (.error (.msg "Attempting to allocate present tag"), tm)
  else tm.allocateTag name

/-- `GetTag`. -/
def TagMan.getTag (tm : TagMan) (name : String) : Except TagErr EntryTag :=
  if !tm.active then .error errNotActive
  else match tm.tags (trimSpaceStr name) with
    | some tag => .ok tag
    | none => .error errNotFound

/-- `ReverseLookup`. -/
def TagMan.reverseLookup (tm : TagMan) (tg : EntryTag) : Except TagErr String :=
  if !tm.active then .error errNotActive
  else match tm.tagKeys tg with
    | some name => .ok name
    | none => .error errNotFound

/-- The loop of `GetTagSubmap`: `ReverseLookup` of each id into `mp`, stopping at the first
error, with the map built so far (Go's named results `mp, err`). -/
def TagMan.submapLoop (tm : TagMan) :
    List EntryTag → (String → Option EntryTag) → (String → Option EntryTag) × Except TagErr Unit
  | [], mp => (mp, .ok ())
  | t :: ts, mp =>
    match tm.reverseLookup t with
    | .error e => (mp, .error e)
    | .ok s => tm.submapLoop ts (Function.update mp s (some t))

/-- `GetTagSubmap`: the names of the given ids, into a fresh map. -/
def TagMan.getTagSubmap (tm : TagMan) (tags : List EntryTag) :
    (String → Option EntryTag) × Except TagErr Unit :=
  tm.submapLoop tags fun _ => none

/-- `GetAndPopulate`. -/
def TagMan.getAndPopulate (tm : TagMan) (name : String) : Except TagErr EntryTag × TagMan :=
  let name := trimSpaceStr name
  if !tm.active then (.error errNotActive, tm) else tm.getAndPopulateNoLock name

/-- `%x` of a tag id. -/
def hex (n : Nat) : List Char := Nat.toDigits 16 n

/-- `ensureTag` (and `EnsureTag`, which only forwards to it): if neither the id nor the name
is present, add the pair in memory only; otherwise both lookups, read with Go's zero values
for a missing key, must give back the pair. No `active` check, no `CheckTag`, no write. -/
def TagMan.ensureTag (tm : TagMan) (id : EntryTag) (name : String) : Except TagErr Unit × TagMan :=
  if (tm.tagKeys id).isNone && (tm.tags name).isNone then (.ok (), tm.insert name id)
  else if id != (tm.tags name).getD 0 || name != (tm.tagKeys id).getD "" then
    (.error (.msg ("Tag " ++ name ++ " is not " ++ String.mk (hex id.toNat) ++ " when required")), tm)
  else (.ok (), tm)

/-- The scan of `checkTagSet` for a reserved name with a wrong id. -/
def checkReserved : List TagPair → Except TagErr Unit
  | [] => .ok ()
  | p :: ps =>
    if p.name = defaultTagName then
      if p.value ≠ defaultTagId then .error (.msg "Invalid value for default tag")
      else checkReserved ps
    else if p.name = gravwellTagName then
      if p.value ≠ gravwellTagId then .error (.msg "Invalid value for gravwell tag")
      else checkReserved ps
    else checkReserved ps

/-- `checkTagSet`: at most `0xffff` pairs, and `default`/`gravwell` only with their ids. -/
def checkTagSet (s : List TagPair) : Except TagErr Unit :=
  if s.length > 0xffff then .error (.msg "Too many tags specified") else checkReserved s

/-- The loop of `ResetOverride`: every pair whose id is not reserved goes into the maps and
the file, in order, with no check against the earlier pairs. -/
def TagMan.pushOverride (tm : TagMan) : List TagPair → Except TagErr Unit × TagMan
  | [] => (.ok (), tm)
  | v :: vs =>
    if v.value = defaultTagId ∨ v.value = gravwellTagId then tm.pushOverride vs
    else (tm.insert v.name v.value).io (·.write (tagLine v.name v.value)) fun tm =>
      tm.pushOverride vs

/-- `ResetOverride`: empty both maps, truncate the file, write the reserved pairs, then the
given ones. The maps are emptied before the truncate, so a failed truncate leaves them empty. -/
def TagMan.resetOverride (tm : TagMan) (s : List TagPair) : Except TagErr Unit × TagMan :=
  match checkTagSet s with
  | .error e => (.error e, tm)
  | .ok () =>
    if !tm.active then (.error errNotActive, tm) else
    { tm with tagKeys := fun _ => none, tags := fun _ => none }.io TagFile.truncate fun tm =>
    tm.io TagFile.seek fun tm =>
    let tm := (tm.insert defaultTagName defaultTagId).insert gravwellTagName gravwellTagId
    tm.io (·.write (tagLine defaultTagName defaultTagId)) fun tm =>
    tm.io (·.write (tagLine gravwellTagName gravwellTagId)) fun tm =>
    tm.pushOverride s

/-- The loop of `Merge`, carrying Go's named result `updated`. A pair whose id or name is
present must match exactly; a pair with neither present is assigned. -/
def TagMan.mergeLoop (tm : TagMan) : List TagPair → Bool → (Bool × Except TagErr Unit) × TagMan
  | [], updated => ((updated, .ok ()), tm)
  | v :: vs, updated =>
    if (tm.tagKeys v.value).isSome && tm.tagKeys v.value != some v.name then
      ((updated, .error (.msg (v.name ++ " tag exists in current set and does not match provided set"))), tm)
    else if (tm.tags v.name).isSome && tm.tags v.name != some v.value then
      ((updated, .error (.msg (v.name ++ " tag name exists in current set and does not match"))), tm)
    else if (tm.tagKeys v.value).isSome || (tm.tags v.name).isSome then tm.mergeLoop vs updated
    else
      match tm.assignTag v.name v.value with
      | (.error e, tm) => ((updated, .error e), tm)
      | (.ok (), tm) => tm.mergeLoop vs true

/-- `Merge`, returning Go's `(updated, err)`. -/
def TagMan.merge (tm : TagMan) (s : List TagPair) : (Bool × Except TagErr Unit) × TagMan :=
  match checkTagSet s with
  | .error e => ((false, .error e), tm)
  | .ok () => if !tm.active then ((false, .error errNotActive), tm) else tm.mergeLoop s false

/-- `TagSet`: the pairs of `tags`. Go appends them in its map's iteration order, which is not
fixed; the model returns the map they list. -/
def TagMan.tagSet (tm : TagMan) : Except TagErr (String → Option EntryTag) :=
  if !tm.active then .error errNotActive else .ok tm.tags

/-- `Count`: its error. The number it returns on an active manager, `len(tm.tags)`, has no
counterpart here: the model's maps are functions, with no size. -/
def TagMan.count (tm : TagMan) : Except TagErr Unit :=
  if !tm.active then .error errNotActive else .ok ()

/-- `Close`: mark inactive, unlock, close, drop the handle. The unlock's error wins. -/
def TagMan.close (tm : TagMan) : Except TagErr Unit × TagMan :=
  let tm := { tm with active := false }
  match tm.fout with
  | none => (.error .invalid, tm)
  | some f =>
    match f.seek with
    | (.error e, _) => (.error e, { tm with fout := none })
    | (.ok (), f) => ((f.seek).1, { tm with fout := none })

end CloudArchive.Tags
