import CloudArchive.GoStrings

/-!
# Auth — the password file

`auth.Auth` keeps one line `custnum:hash\n` per customer in the file at `fpath`, the hash a
bcrypt hash. Every call takes the module's mutex (a call is one atomic step of the model), then
opens and `flock`s the file: `load` scans and parses every line, `appendUser` (Go `addUser`)
appends one, and `updateUsers` rewrites the whole list through `<fpath>.tmp` and a rename.
`List`, `Authenticate`, `AddUser`, `DeleteUser` and `ChangePassword` are built on these.

The disk holds the two files. Every request to it (an open, a lock, an unlock, a write, a
close, a rename, a removal) fails iff the disk's `fails` says so for the request's number, as
for the tag file, or the operating system refuses it (opening a missing file, say). bcrypt is a
parameter, `Bcrypt`, and the salt `GenerateFromPassword` draws is an argument.

`bufio.Scanner` refuses a line over 64 KiB; the lines the module writes are a few dozen bytes,
and that limit is left out.
-/

namespace CloudArchive.Auth

open CloudArchive

/-! ## bcrypt -/

/-- The errors of `golang.org/x/crypto/bcrypt`. -/
inductive BcryptErr
  /-- `ErrMismatchedHashAndPassword` -/
  | mismatchedHashAndPassword
  /-- `ErrHashTooShort` -/
  | hashTooShort
  /-- `HashVersionTooNewError` -/
  | hashVersionTooNew
  /-- `InvalidHashPrefixError` -/
  | invalidHashPrefix
  /-- `InvalidCostError` -/
  | invalidCost
  /-- `ErrPasswordTooLong` -/
  | passwordTooLong
  deriving DecidableEq, Repr

/-- A rune of bcrypt's hash text: `$`, `.`, `/`, an ASCII letter or digit. -/
def bcryptChar (c : Char) : Bool :=
  c = '$' || c = '.' || c = '/' || c.isAlphanum

/-- `bcrypt.MinCost`. -/
def bcryptMinCost : Nat := 4

/-- `golang.org/x/crypto/bcrypt` as the module calls it. Two facts of the library are used: a
hash it makes records the cost it was made with (from `MinCost` up), and is written in bcrypt's
alphabet. -/
structure Bcrypt where
  /-- `GenerateFromPassword(password, cost)`, given the salt it draws -/
  generate : List Char → Nat → List UInt8 → Except BcryptErr (List Char)
  /-- `Cost(hashedPassword)` -/
  cost : List Char → Except BcryptErr Nat
  /-- `CompareHashAndPassword(hashedPassword, password)` -/
  compare : List Char → List Char → Except BcryptErr Unit
  cost_generate : ∀ {p c s h}, bcryptMinCost ≤ c → generate p c s = .ok h → cost h = .ok c
  chars_generate : ∀ {p c s h}, generate p c s = .ok h → ∀ ch ∈ h, bcryptChar ch = true

/-! ## Users and lines -/

/-- The errors of the auth module. -/
inductive AuthErr
  /-- `ErrNotOpen`: "AuthModule not ready" -/
  | notOpen
  /-- `ErrNotFound`: "user id not found" -/
  | notFound
  /-- `ErrEmptyLine`: "Empty password line" -/
  | emptyLine
  /-- `ErrInvalidHashCost`: "password line has an invalid hash cost" -/
  | invalidHashCost
  /-- `ErrCorruptLine`: "passwd line is corrupt" -/
  | corruptLine
  /-- `ErrInvalidUser`: "Invalid user" -/
  | invalidUser
  /-- `ErrCustnumExists`: "userid already exists" -/
  | custnumExists
  /-- `errors.New("empty auth parameters")` -/
  | emptyParams
  /-- `fmt.Errorf("Invalid customer number %s: %v", bits[0], err)` of `Parse` -/
  | invalidCustnum (s : List Char)
  /-- the error of `strconv.ParseUint(custnum, 10, 64)` in `Authenticate` -/
  | parseUint
  /-- `fmt.Errorf("%s is not a regular file", fpath)` of `NewAuthModule` -/
  | notRegular
  /-- an error of bcrypt -/
  | bcrypt (e : BcryptErr)
  /-- an error of `os` or `flock` -/
  | io
  deriving DecidableEq, Repr

/-- `userHash`. -/
structure UserHash where
  custnum : UInt64
  hash : List Char
  deriving DecidableEq, Repr

/-- `minCost`: no password hash may be below this bcrypt cost. -/
def minCost : Nat := 8

/-- `bcrypt.MaxCost`. -/
def maxCost : Nat := 31

/-- The cost `AddUser` and `ChangePassword` hash with: `cost` brought into
`[minCost, MaxCost]`. -/
def clampCost (cost : Int) : Nat :=
  if cost > maxCost then maxCost else if cost < minCost then minCost else cost.toNat

/-- `(*userHash).Parse(v)`: trim newlines, tabs and spaces, split at the `:`, parse the
customer number, and check the hash's bcrypt cost. -/
def UserHash.parse (bc : Bcrypt) (v : List Char) : Except AuthErr UserHash :=
  let v := trim v "\n\t ".data
  if v = [] then .error .emptyLine
  else
    match split v ':' with
    | [custnum, hash] =>
      match parseUint custnum 64 with
      | none => .error (.invalidCustnum custnum)
      | some n =>
        match bc.cost hash with
        | .error e => .error (.bcrypt e)
        | .ok cost => if cost < minCost then .error .invalidHashCost else .ok ⟨UInt64.ofNat n, hash⟩
    | _ => .error .corruptLine

/-- The line `fmt.Fprintf(f, "%d:%s\n", uh.custnum, string(uh.hash))` writes. -/
def UserHash.line (uh : UserHash) : List Char :=
  decimal uh.custnum.toNat ++ ':' :: uh.hash ++ ['\n']

/-- `ScanLines`' `dropCR`: a line loses one trailing `\r`. -/
def dropCR (l : List Char) : List Char :=
  if l.getLast? = some '\r' then l.dropLast else l

/-- The lines `bufio.Scanner` with `ScanLines` yields: the text between the `\n`s, each
without a trailing `\r`; a last line needs no `\n`, and an empty rest after the last `\n` is no
line. -/
def scanLines (data : List Char) : List (List Char) :=
  let parts := split data '\n'
  (if parts.getLast? = some [] then parts.dropLast else parts).map dropCR

/-! ## The disk -/

/-- What the disk holds at a path: a regular file and its text, or anything else (a
directory, a device), which `Mode().IsRegular()` rejects and an open for writing fails on. -/
inductive Node
  | file (data : List Char)
  | other
  deriving DecidableEq, Repr

/-- A regular file is there. -/
def Node.isFile : Option Node → Bool
  | some (.file _) => true
  | _ => false

/-- The text of a regular file (empty for anything else). -/
def Node.text : Option Node → List Char
  | some (.file s) => s
  | _ => []

/-- The disk as the module sees it: the password file at `fpath`, `<fpath>.tmp`, and the
answer to each request by its number. -/
structure Disk where
  passwd : Option Node
  tmp : Option Node
  fails : Nat → Bool
  ops : Nat

/-- One request to the disk. It fails iff `fails` answers so for its number or the operating
system refuses it (`allowed` is false); on success `update` is applied. -/
def Disk.request (d : Disk) (allowed : Bool) (update : Disk → Disk) :
    Except AuthErr Unit × Disk :=
  if d.fails d.ops || !allowed then (.error .io, { d with ops := d.ops + 1 })
  else (.ok (), update { d with ops := d.ops + 1 })

/-- A lock, an unlock, a close or a stat: nothing changes. -/
def Disk.ask (d : Disk) : Except AuthErr Unit × Disk := d.request true id

/-- `os.OpenFile(fpath, os.O_RDWR[|os.O_APPEND], 0660)`: the file must be a regular file. -/
def Disk.openPasswd (d : Disk) : Except AuthErr Unit × Disk := d.request (Node.isFile d.passwd) id

/-- `fmt.Fprintf` on the password file opened with `O_APPEND`. -/
def Disk.appendPasswd (d : Disk) (s : List Char) : Except AuthErr Unit × Disk :=
  d.request true fun d => { d with passwd := some (.file (Node.text d.passwd ++ s)) }

/-- `os.OpenFile(pth, os.O_RDWR|os.O_CREATE, 0660)`: an absent file is created empty, and an
existing one keeps its text (there is no `O_TRUNC`). -/
def Disk.openTmp (d : Disk) : Except AuthErr Unit × Disk :=
  d.request (d.tmp ≠ some .other) fun d =>
    if d.tmp = none then { d with tmp := some (.file []) } else d

/-- `fmt.Fprintf` on the temporary file at offset `off`: the text there is overwritten, and the
file grows only where the write passes its end. -/
def Disk.writeTmp (d : Disk) (off : Nat) (s : List Char) : Except AuthErr Unit × Disk :=
  d.request true fun d =>
    { d with tmp := some (.file ((Node.text d.tmp).take off ++ s ++
      (Node.text d.tmp).drop (off + s.length))) }

/-- `os.Rename(pth, fpath)`. -/
def Disk.rename (d : Disk) : Except AuthErr Unit × Disk :=
  d.request (Node.isFile d.tmp) fun d => { d with passwd := d.tmp, tmp := none }

/-- `os.Remove(pth)`. -/
def Disk.removeTmp (d : Disk) : Except AuthErr Unit × Disk :=
  d.request d.tmp.isSome fun d => { d with tmp := none }

/-- `testFile(p)`: open the password file for reading and writing, creating it empty when it
is absent, and close it. -/
def Disk.testFile (d : Disk) : Except AuthErr Unit × Disk :=
  match d.request (d.passwd ≠ some .other) (fun d =>
      if d.passwd = none then { d with passwd := some (.file []) } else d) with
  | (.error e, d) => (.error e, d)
  | (.ok (), d) => d.ask

/-! ## The module's calls -/

/-- `auth.Auth`, the module `NewAuthModule` makes (its mutex plays no part: calls are atomic). -/
structure AuthModule where
  fpath : List Char
  deriving DecidableEq, Repr

/-- `NewAuthModule(fpath)`: a missing file is created; an existing one must be a regular file
the module can open. `os.Stat` and `os.OpenFile` of the empty path fail. -/
def newAuthModule (fpath : List Char) (d : Disk) : Except AuthErr AuthModule × Disk :=
  if fpath = [] then (.error .io, d)
  else
    match d.ask with
    | (.error e, d) => (.error e, d)
    | (.ok (), d) =>
      match d.passwd with
      | some .other => (.error .notRegular, d)
      | _ =>
        match d.testFile with
        | (.error e, d) => (.error e, d)
        | (.ok (), d) => (.ok ⟨fpath⟩, d)

/-- `(*Auth).load()`: open and lock the file, parse each scanned line (the first error stops),
unlock and close it. A failure on the way closes what is open, ignoring the errors of that. -/
def AuthModule.load (bc : Bcrypt) (a : AuthModule) (d : Disk) : Except AuthErr (List UserHash) × Disk :=
  if a.fpath = [] then (.error .notOpen, d)
  else
    match d.openPasswd with
    | (.error e, d) => (.error e, d)
    | (.ok (), d) =>
      match d.ask with
      | (.error e, d) => (.error e, d.ask.2)
      | (.ok (), d) =>
        match (scanLines (Node.text d.passwd)).mapM (UserHash.parse bc) with
        | .error e => (.error e, d.ask.2.ask.2)
        | .ok uhs =>
          match d.ask with
          | (.error e, d) => (.error e, d.ask.2)
          | (.ok (), d) =>
            match d.ask with
            | (.error e, d) => (.error e, d)
            | (.ok (), d) => (.ok uhs, d)

/-- `(*Auth).List()`. -/
def AuthModule.list (bc : Bcrypt) (a : AuthModule) (d : Disk) : Except AuthErr (List UserHash) × Disk :=
  a.load bc d

/-- `(*Auth).addUser(uh)`, the unexported helper: append the user's line to the file. -/
def AuthModule.appendUser (a : AuthModule) (uh : UserHash) (d : Disk) : Except AuthErr Unit × Disk :=
  if a.fpath = [] then (.error .notOpen, d)
  else
    match d.openPasswd with
    | (.error e, d) => (.error e, d)
    | (.ok (), d) =>
      match d.ask with
      | (.error e, d) => (.error e, d.ask.2)
      | (.ok (), d) =>
        match d.appendPasswd uh.line with
        | (.error e, d) => (.error e, d.ask.2.ask.2)
        | (.ok (), d) =>
          match d.ask with
          | (.error e, d) => (.error e, d.ask.2)
          | (.ok (), d) => d.ask

/-- The loop of `updateUsers`: write each user's line at the handle's offset, which each write
advances; the first failure stops. -/
def Disk.writeUsers (d : Disk) (off : Nat) : List UserHash → Except AuthErr Unit × Disk
  | [] => (.ok (), d)
  | uh :: uhs =>
    match d.writeTmp off uh.line with
    | (.error e, d) => (.error e, d)
    | (.ok (), d) => d.writeUsers (off + uh.line.length) uhs

/-- `(*Auth).updateUsers(uhs)`: write the lines into `<fpath>.tmp`, lock the password file and
rename the temporary file over it. Each failure unlocks and closes what is open (ignoring the
errors of that) and, up to the rename, removes the temporary file. -/
def AuthModule.updateUsers (a : AuthModule) (uhs : List UserHash) (d : Disk) : Except AuthErr Unit × Disk :=
  if a.fpath = [] then (.error .notOpen, d)
  else
    match d.openTmp with
    | (.error e, d) => (.error e, d)
    | (.ok (), d) =>
      match d.ask with
      | (.error e, d) => (.error e, d.ask.2)
      | (.ok (), d) =>
        match d.writeUsers 0 uhs with
        | (.error e, d) => (.error e, d.ask.2.ask.2.removeTmp.2)
        | (.ok (), d) =>
          match d.openPasswd with
          | (.error e, d) => (.error e, d.ask.2.ask.2.removeTmp.2)
          | (.ok (), d) =>
            match d.ask with
            | (.error e, d) => (.error e, d.ask.2.ask.2.removeTmp.2.ask.2)
            | (.ok (), d) =>
              match d.rename with
              | (.error e, d) => (.error e, d.ask.2.ask.2.ask.2.ask.2.removeTmp.2)
              | (.ok (), d) =>
                match d.ask with
                | (.error e, d) => (.error e, d.ask.2.ask.2.ask.2)
                | (.ok (), d) =>
                  match d.ask with
                  | (.error e, d) => (.error e, d.ask.2.ask.2)
                  | (.ok (), d) =>
                    match d.ask with
                    | (.error e, d) => (.error e, d.ask.2)
                    | (.ok (), d) => d.ask

/-- `(*Auth).Authenticate(custnum, passwd)`: the customer number, if its stored hash matches
the password. (The number Go also returns beside an error is read by no caller.) -/
def AuthModule.authenticate (bc : Bcrypt) (a : AuthModule) (custnum passwd : List Char) (d : Disk) :
    Except AuthErr UInt64 × Disk :=
  if custnum = [] ∨ passwd = [] then (.error .emptyParams, d)
  else
    match parseUint custnum 64 with
    | none => (.error .parseUint, d)
    | some n =>
      match a.load bc d with
      | (.error e, d) => (.error e, d)
      | (.ok uhs, d) =>
        match uhs.find? (·.custnum = UInt64.ofNat n) with
        | some uh =>
          match bc.compare uh.hash passwd with
          | .error e => (.error (.bcrypt e), d)
          | .ok () => (.ok (UInt64.ofNat n), d)
        | none => (.error .invalidUser, d)

/-- `(*Auth).AddUser(custnum, passwd, cost)`: refuse a stored customer number, else append the
new user's line. -/
def AuthModule.addUser (bc : Bcrypt) (a : AuthModule) (custnum : UInt64) (passwd : List Char) (cost : Int)
    (salt : List UInt8) (d : Disk) : Except AuthErr Unit × Disk :=
  if custnum = 0 ∨ passwd = [] then (.error .emptyParams, d)
  else
    match a.load bc d with
    | (.error e, d) => (.error e, d)
    | (.ok uhs, d) =>
      if uhs.any (·.custnum = custnum) then (.error .custnumExists, d)
      else
        match bc.generate passwd (clampCost cost) salt with
        | .error e => (.error (.bcrypt e), d)
        | .ok h => a.appendUser ⟨custnum, h⟩ d

/-- The users with the first one of customer number `c` taken out (Go
`append(uhs[:idx], uhs[idx+1:]...)`). -/
def eraseUser (c : UInt64) : List UserHash → List UserHash
  | [] => []
  | uh :: uhs => if uh.custnum = c then uhs else uh :: eraseUser c uhs

/-- The users with the first one of customer number `c` given the hash `h`. -/
def setHash (c : UInt64) (h : List Char) : List UserHash → List UserHash
  | [] => []
  | uh :: uhs => if uh.custnum = c then ⟨c, h⟩ :: uhs else uh :: setHash c h uhs

/-- `(*Auth).DeleteUser(custnum)`: take the user out and rewrite the file. -/
def AuthModule.deleteUser (bc : Bcrypt) (a : AuthModule) (custnum : UInt64) (d : Disk) :
    Except AuthErr Unit × Disk :=
  if custnum = 0 then (.error .emptyParams, d)
  else
    match a.load bc d with
    | (.error e, d) => (.error e, d)
    | (.ok uhs, d) =>
      if uhs.any (·.custnum = custnum) then a.updateUsers (eraseUser custnum uhs) d
      else (.error .notFound, d)

/-- `(*Auth).ChangePassword(custnum, passwd)`: hash the new password with the stored hash's
cost, brought into `[minCost, MaxCost]`, and rewrite the file. -/
def AuthModule.changePassword (bc : Bcrypt) (a : AuthModule) (custnum : UInt64) (passwd : List Char)
    (salt : List UInt8) (d : Disk) : Except AuthErr Unit × Disk :=
  if custnum = 0 ∨ passwd = [] then (.error .emptyParams, d)
  else
    match a.load bc d with
    | (.error e, d) => (.error e, d)
    | (.ok uhs, d) =>
      match uhs.find? (·.custnum = custnum) with
      | none => (.error .notFound, d)
      | some uh =>
        match bc.cost uh.hash with
        | .error e => (.error (.bcrypt e), d)
        | .ok cost =>
          match bc.generate passwd (clampCost cost) salt with
          | .error e => (.error (.bcrypt e), d)
          | .ok h => a.updateUsers (setHash custnum h uhs) d

end CloudArchive.Auth
