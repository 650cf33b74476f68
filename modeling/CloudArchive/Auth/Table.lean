import CloudArchive.Auth.Users

/-!
# Auth — the password file implements a table of users

What the module is for, said without the disk: a table of users (`Table`), each a customer
number and a hash the file can hold, one user per number, in the order they were added.
`AddUser` adds a user of a new number with a fresh bcrypt hash, `DeleteUser` takes one out,
`ChangePassword` gives one a new hash at the stored hash's cost, `Authenticate` checks a
password against the stored hash, and `List` returns the table. `Table.call` states these,
with the calls' own errors; `AuthModule.call` is the module on the disk.

On a disk that answers every request, from a password file holding a table and no leftover
`<fpath>.tmp` (`Disk.Holds`), every call answers what the table's operation answers and
leaves a file holding the table the operation leaves (`AuthModule.call_refines`), so any
sequence of calls does (`AuthModule.runOps_refines`); `NewAuthModule` on a disk without the
file starts from the empty table. In particular the file never holds two lines of one
customer number. The code takes out or rewrites only the first line of a number
(`eraseUser`, `setHash`); the table's unique numbers make that the same as every line.
-/

namespace CloudArchive.Auth

open CloudArchive

theorem minCost_le_clampCost (cost : Int) : minCost ≤ clampCost cost := by
  unfold clampCost minCost maxCost
  split_ifs <;> omega

/-- A hash bcrypt makes at a cost `clampCost` gives is one the file can hold. -/
theorem Bcrypt.valid_of_generate {bc : Bcrypt} {p h : List Char} {cost : Int}
    {salt : List UInt8} (hg : bc.generate p (clampCost cost) salt = .ok h) (c : UInt64) :
    UserHash.Valid bc ⟨c, h⟩ :=
  ⟨bc.chars_generate hg, _, bc.cost_generate (le_trans (by decide) (minCost_le_clampCost cost)) hg,
    minCost_le_clampCost cost⟩

/-! ## The table -/

/-- A table the file can hold: valid hashes, one user per customer number. -/
structure Table (bc : Bcrypt) where
  users : List UserHash
  valid : ∀ uh ∈ users, uh.Valid bc
  nodup : (users.map UserHash.custnum).Nodup

namespace Table

variable {bc : Bcrypt}

/-- The table of an empty file. -/
def empty : Table bc := ⟨[], fun _ h => absurd h (List.not_mem_nil _), List.nodup_nil⟩

/-- The customer numbers in use. -/
def custnums (t : Table bc) : List UInt64 := t.users.map UserHash.custnum

/-- The user of customer number `c`. -/
def lookup (t : Table bc) (c : UInt64) : Option UserHash := t.users.find? (·.custnum = c)

/-- A user of a new customer number, at the end. -/
def add (t : Table bc) (uh : UserHash) (hv : uh.Valid bc) (hc : uh.custnum ∉ t.custnums) :
    Table bc where
  users := t.users ++ [uh]
  valid u hu := (List.mem_append.mp hu).elim (t.valid u) fun h => List.mem_singleton.mp h ▸ hv
  nodup := by
    rw [List.map_append, List.nodup_append]
    exact ⟨t.nodup, List.nodup_singleton _, by simpa [List.disjoint_singleton, custnums] using hc⟩

/-- The table without customer number `c`. -/
def remove (t : Table bc) (c : UInt64) : Table bc where
  users := t.users.filter (·.custnum ≠ c)
  valid u hu := t.valid u (List.mem_of_mem_filter hu)
  nodup := t.nodup.sublist ((List.filter_sublist _).map _)

/-- The table with customer number `c`'s hash replaced by `h`. -/
def rehash (t : Table bc) (c : UInt64) (h : List Char) (hv : UserHash.Valid bc ⟨c, h⟩) :
    Table bc where
  users := t.users.map fun uh => if uh.custnum = c then ⟨c, h⟩ else uh
  valid u hu := by
    obtain ⟨uh, huh, rfl⟩ := List.mem_map.mp hu
    split
    · exact hv
    · exact t.valid uh huh
  nodup := by
    have : (t.users.map fun uh => if uh.custnum = c then ⟨c, h⟩ else uh).map UserHash.custnum =
        t.users.map UserHash.custnum := by
      simp only [List.map_map]
      exact List.map_congr_left fun uh _ => by by_cases e : uh.custnum = c <;> simp [e]
    exact this ▸ t.nodup

/-- `AddUser`: empty parameters and a number in use are refused, else the user is added with
a fresh hash at the cost asked for, brought into `[minCost, MaxCost]`. -/
def addUser (t : Table bc) (c : UInt64) (passwd : List Char) (cost : Int) (salt : List UInt8) :
    Except AuthErr Unit × Table bc :=
  if c = 0 ∨ passwd = [] then (.error .emptyParams, t)
  else if hc : c ∈ t.custnums then (.error .custnumExists, t)
  else
    match hg : bc.generate passwd (clampCost cost) salt with
    | .error e => (.error (.bcrypt e), t)
    | .ok h => (.ok (), t.add ⟨c, h⟩ (Bcrypt.valid_of_generate hg c) hc)

/-- `DeleteUser`: the user is taken out, if there is one. -/
def deleteUser (t : Table bc) (c : UInt64) : Except AuthErr Unit × Table bc :=
  if c = 0 then (.error .emptyParams, t)
  else if c ∈ t.custnums then (.ok (), t.remove c) else (.error .notFound, t)

/-- `ChangePassword`: the user's hash is replaced by a fresh one at the stored hash's cost. -/
def changePassword (t : Table bc) (c : UInt64) (passwd : List Char) (salt : List UInt8) :
    Except AuthErr Unit × Table bc :=
  if c = 0 ∨ passwd = [] then (.error .emptyParams, t)
  else
    match t.lookup c with
    | none => (.error .notFound, t)
    | some uh =>
      match bc.cost uh.hash with
      | .error e => (.error (.bcrypt e), t)
      | .ok cost =>
        match hg : bc.generate passwd (clampCost cost) salt with
        | .error e => (.error (.bcrypt e), t)
        | .ok h => (.ok (), t.rehash c h (Bcrypt.valid_of_generate hg c))

/-- `Authenticate`: the customer number, if the stored hash matches the password. -/
def authenticate (t : Table bc) (custnum passwd : List Char) : Except AuthErr UInt64 :=
  if custnum = [] ∨ passwd = [] then .error .emptyParams
  else
    match parseUint custnum 64 with
    | none => .error .parseUint
    | some n =>
      match t.lookup (UInt64.ofNat n) with
      | none => .error .invalidUser
      | some uh =>
        match bc.compare uh.hash passwd with
        | .error e => .error (.bcrypt e)
        | .ok () => .ok (UInt64.ofNat n)

end Table

/-! ## Calls -/

/-- A call of the module's API. -/
inductive Op
  | addUser (custnum : UInt64) (passwd : List Char) (cost : Int) (salt : List UInt8)
  | deleteUser (custnum : UInt64)
  | changePassword (custnum : UInt64) (passwd : List Char) (salt : List UInt8)
  | authenticate (custnum passwd : List Char)
  | list

/-- What a call returns besides its error. -/
inductive Reply
  | done
  | user (custnum : UInt64)
  | users (uhs : List UserHash)
  deriving DecidableEq, Repr

/-- A call on the table. -/
def Table.call {bc : Bcrypt} (t : Table bc) : Op → Except AuthErr Reply × Table bc
  | .addUser c p cost salt => ((t.addUser c p cost salt).1.map fun _ => .done, (t.addUser c p cost salt).2)
  | .deleteUser c => ((t.deleteUser c).1.map fun _ => .done, (t.deleteUser c).2)
  | .changePassword c p salt =>
    ((t.changePassword c p salt).1.map fun _ => .done, (t.changePassword c p salt).2)
  | .authenticate c p => ((t.authenticate c p).map .user, t)
  | .list => (.ok (.users t.users), t)

/-- A call of the module on the disk. -/
def AuthModule.call (bc : Bcrypt) (a : AuthModule) : Op → Disk → Except AuthErr Reply × Disk
  | .addUser c p cost salt, d =>
    ((a.addUser bc c p cost salt d).1.map fun _ => .done, (a.addUser bc c p cost salt d).2)
  | .deleteUser c, d => ((a.deleteUser bc c d).1.map fun _ => .done, (a.deleteUser bc c d).2)
  | .changePassword c p salt, d =>
    ((a.changePassword bc c p salt d).1.map fun _ => .done, (a.changePassword bc c p salt d).2)
  | .authenticate c p, d => ((a.authenticate bc c p d).1.map .user, (a.authenticate bc c p d).2)
  | .list, d => ((a.list bc d).1.map .users, (a.list bc d).2)

/-- Calls on the table, one after another. -/
def Table.runOps {bc : Bcrypt} (t : Table bc) : List Op → List (Except AuthErr Reply) × Table bc
  | [] => ([], t)
  | op :: ops =>
    let rest := (t.call op).2.runOps ops
    ((t.call op).1 :: rest.1, rest.2)

/-- Calls of the module, one after another. -/
def AuthModule.runOps (bc : Bcrypt) (a : AuthModule) :
    List Op → Disk → List (Except AuthErr Reply) × Disk
  | [], d => ([], d)
  | op :: ops, d =>
    let rest := a.runOps bc ops (a.call bc op d).2
    ((a.call bc op d).1 :: rest.1, rest.2)

/-! ## The code's list operations on a table -/

theorem render_append (uhs : List UserHash) (uh : UserHash) :
    render (uhs ++ [uh]) = render uhs ++ uh.line := by
  induction uhs with
  | nil => simp [render]
  | cons u uhs ih => simp [render, ih]

theorem any_custnum (uhs : List UserHash) (c : UInt64) :
    uhs.any (·.custnum = c) = decide (c ∈ uhs.map UserHash.custnum) := by
  rw [Bool.eq_iff_iff]
  simp

/-- Under unique numbers, taking out the first user of `c` takes out every one. -/
theorem eraseUser_eq_filter {c : UInt64} :
    ∀ {uhs : List UserHash}, (uhs.map UserHash.custnum).Nodup →
      eraseUser c uhs = uhs.filter (·.custnum ≠ c)
  | [], _ => rfl
  | uh :: uhs, h => by
    obtain ⟨hn, h⟩ := List.nodup_cons.mp h
    by_cases e : uh.custnum = c
    · rw [eraseUser, if_pos e, List.filter_cons_of_neg (by simpa using e)]
      refine (List.filter_eq_self.mpr fun u hu => ?_).symm
      have : u.custnum ≠ c := fun e' => hn (e ▸ e' ▸ List.mem_map_of_mem _ hu)
      simpa using this
    · rw [eraseUser, if_neg e, List.filter_cons_of_pos (by simpa using e), eraseUser_eq_filter h]

/-- Under unique numbers, rewriting the first user of `c` rewrites every one. -/
theorem setHash_eq_map {c : UInt64} {hash : List Char} :
    ∀ {uhs : List UserHash}, (uhs.map UserHash.custnum).Nodup →
      setHash c hash uhs = uhs.map fun uh => if uh.custnum = c then ⟨c, hash⟩ else uh
  | [], _ => rfl
  | uh :: uhs, h => by
    obtain ⟨hn, h⟩ := List.nodup_cons.mp h
    by_cases e : uh.custnum = c
    · rw [setHash, if_pos e, List.map_cons, if_pos e]
      congr 1
      refine ((List.map_congr_left fun u hu => ?_).trans (List.map_id uhs)).symm
      have : u.custnum ≠ c := fun e' => hn (e ▸ e' ▸ List.mem_map_of_mem _ hu)
      simp [this]
    · rw [setHash, if_neg e, List.map_cons, if_neg e, setHash_eq_map h]

/-! ## The file holds the table -/

/-- The disk holds table `t`: it answers every request, the password file holds `t`'s lines
and no `<fpath>.tmp` is left. -/
def Disk.Holds {bc : Bcrypt} (d : Disk) (t : Table bc) : Prop :=
  d.Healthy ∧ d.passwd = some (.file (render t.users)) ∧ d.tmp = none

/-- Appending a line on a disk that answers every request. -/
theorem AuthModule.appendUser_healthy {a : AuthModule} {d : Disk} {s : List Char} (uh : UserHash)
    (ha : a.fpath ≠ []) (hd : d.Healthy) (hp : d.passwd = some (.file s)) :
    a.appendUser uh d =
      (.ok (), { d with passwd := some (.file (s ++ uh.line)), ops := d.ops + 5 }) := by
  obtain ⟨p, t, f, n⟩ := d
  obtain rfl : f = fun _ => false := funext hd
  subst hp
  simp [AuthModule.appendUser, ha, Disk.openPasswd, Disk.ask, Disk.appendPasswd, Disk.request,
    Node.isFile, Node.text]

section Refines

variable {bc : Bcrypt} {a : AuthModule} {d : Disk} {t : Table bc} (ha : a.fpath ≠ [])
  (h : d.Holds t)
include ha h

theorem AuthModule.load_holds : a.load bc d = (.ok t.users, { d with ops := d.ops + 4 }) :=
  AuthModule.load_render ha h.1 h.2.1 t.valid

/-- `updateUsers` leaves a file holding exactly the lines it was given. -/
theorem AuthModule.updateUsers_holds (t' : Table bc) (uhs : List UserHash) (hu : uhs = t'.users)
    (n : Nat) : (a.updateUsers uhs { d with ops := n }).1 = .ok () ∧
      (a.updateUsers uhs { d with ops := n }).2.Holds t' := by
  obtain ⟨hd, hp, ht⟩ := h
  rw [AuthModule.updateUsers_healthy uhs ha (show Disk.Healthy { d with ops := n } from hd)
    (by simp [hp, Node.isFile]) (by simp [ht])]
  exact ⟨rfl, hd, by simp [ht, hu, Node.text], rfl⟩

theorem AuthModule.addUser_refines (c : UInt64) (p : List Char) (cost : Int) (salt : List UInt8) :
    (a.addUser bc c p cost salt d).1 = (t.addUser c p cost salt).1 ∧
      (a.addUser bc c p cost salt d).2.Holds (t.addUser c p cost salt).2 := by
  unfold AuthModule.addUser Table.addUser
  by_cases h0 : c = 0 ∨ p = []
  · rw [if_pos h0, if_pos h0]; exact ⟨rfl, h⟩
  rw [if_neg h0, if_neg h0, AuthModule.load_holds ha h]
  dsimp only
  rw [any_custnum]
  by_cases hc : c ∈ t.custnums
  · rw [dif_pos hc, if_pos (by simpa [Table.custnums] using hc)]; exact ⟨rfl, h⟩
  rw [dif_neg hc, if_neg (by simpa [Table.custnums] using hc)]
  split <;> split <;> rename_i e₁ _ e₂ <;> rw [e₁] at e₂ <;> cases e₂
  · exact ⟨rfl, h⟩
  · have h4 : Disk.Holds { d with ops := d.ops + 4 } t := h
    rw [AuthModule.appendUser_healthy _ ha h4.1 h4.2.1]
    exact ⟨rfl, h.1, by simp [Table.add, render_append], h.2.2⟩

theorem AuthModule.deleteUser_refines (c : UInt64) :
    (a.deleteUser bc c d).1 = (t.deleteUser c).1 ∧
      (a.deleteUser bc c d).2.Holds (t.deleteUser c).2 := by
  unfold AuthModule.deleteUser Table.deleteUser
  by_cases h0 : c = 0
  · rw [if_pos h0, if_pos h0]; exact ⟨rfl, h⟩
  rw [if_neg h0, if_neg h0, AuthModule.load_holds ha h]
  dsimp only
  rw [any_custnum]
  by_cases hc : c ∈ t.custnums
  · rw [if_pos hc, if_pos (by simpa [Table.custnums] using hc)]
    exact AuthModule.updateUsers_holds ha h _ _ (eraseUser_eq_filter t.nodup) _
  · rw [if_neg hc, if_neg (by simpa [Table.custnums] using hc)]; exact ⟨rfl, h⟩

theorem AuthModule.changePassword_refines (c : UInt64) (p : List Char) (salt : List UInt8) :
    (a.changePassword bc c p salt d).1 = (t.changePassword c p salt).1 ∧
      (a.changePassword bc c p salt d).2.Holds (t.changePassword c p salt).2 := by
  unfold AuthModule.changePassword Table.changePassword
  by_cases h0 : c = 0 ∨ p = []
  · rw [if_pos h0, if_pos h0]; exact ⟨rfl, h⟩
  rw [if_neg h0, if_neg h0, AuthModule.load_holds ha h]
  dsimp only [Table.lookup]
  cases t.users.find? (·.custnum = c) with
  | none => exact ⟨rfl, h⟩
  | some uh =>
  dsimp only
  cases bc.cost uh.hash with
  | error e => exact ⟨rfl, h⟩
  | ok cost =>
  dsimp only
  split <;> split <;> rename_i e₁ _ e₂ <;> rw [e₁] at e₂ <;> cases e₂
  · exact ⟨rfl, h⟩
  · exact AuthModule.updateUsers_holds ha h _ _ (setHash_eq_map t.nodup) _

theorem AuthModule.authenticate_refines (custnum passwd : List Char) :
    (a.authenticate bc custnum passwd d).1 = t.authenticate custnum passwd ∧
      (a.authenticate bc custnum passwd d).2.Holds t := by
  unfold AuthModule.authenticate Table.authenticate
  by_cases h0 : custnum = [] ∨ passwd = []
  · rw [if_pos h0, if_pos h0]; exact ⟨rfl, h⟩
  rw [if_neg h0, if_neg h0]
  cases parseUint custnum 64 with
  | none => exact ⟨rfl, h⟩
  | some n =>
  simp only [AuthModule.load_holds ha h, Table.lookup]
  cases t.users.find? (·.custnum = UInt64.ofNat n) with
  | none => exact ⟨rfl, h⟩
  | some uh =>
  dsimp only
  cases bc.compare uh.hash passwd <;> exact ⟨rfl, h⟩

/-- **Step lemma.** Every call answers what the table's operation answers and leaves a file
holding the table it leaves. -/
theorem AuthModule.call_refines (op : Op) :
    (a.call bc op d).1 = (t.call op).1 ∧ (a.call bc op d).2.Holds (t.call op).2 := by
  cases op with
  | addUser c p cost salt =>
    obtain ⟨h1, h2⟩ := AuthModule.addUser_refines ha h c p cost salt
    exact ⟨by simp only [AuthModule.call, Table.call, h1], h2⟩
  | deleteUser c =>
    obtain ⟨h1, h2⟩ := AuthModule.deleteUser_refines ha h c
    exact ⟨by simp only [AuthModule.call, Table.call, h1], h2⟩
  | changePassword c p salt =>
    obtain ⟨h1, h2⟩ := AuthModule.changePassword_refines ha h c p salt
    exact ⟨by simp only [AuthModule.call, Table.call, h1], h2⟩
  | authenticate c p =>
    obtain ⟨h1, h2⟩ := AuthModule.authenticate_refines ha h c p
    exact ⟨by simp only [AuthModule.call, Table.call, h1], h2⟩
  | list =>
    simp only [AuthModule.call, Table.call, AuthModule.list, AuthModule.load_holds ha h]
    exact ⟨rfl, h⟩

end Refines

/-- **Run lemma.** On a disk that answers every request, from a password file holding a table
and no leftover `<fpath>.tmp`, any sequence of calls answers what the table's operations answer,
one by one, and leaves a file holding the table they leave. -/
theorem AuthModule.runOps_refines {bc : Bcrypt} {a : AuthModule} (ha : a.fpath ≠ []) :
    ∀ (ops : List Op) {d : Disk} {t : Table bc}, d.Holds t →
      (a.runOps bc ops d).1 = (t.runOps ops).1 ∧ (a.runOps bc ops d).2.Holds (t.runOps ops).2
  | [], _, _, h => ⟨rfl, h⟩
  | op :: ops, _, _, h => by
    obtain ⟨h1, h2⟩ := AuthModule.call_refines ha h op
    obtain ⟨h3, h4⟩ := AuthModule.runOps_refines ha ops h2
    exact ⟨by simp only [AuthModule.runOps, Table.runOps, h1, h3], h4⟩

/-- `NewAuthModule` on a disk that answers every request and holds neither file creates an
empty password file: the module starts from the empty table. -/
theorem newAuthModule_holds_empty {bc : Bcrypt} {fpath : List Char} {d : Disk} (hf : fpath ≠ [])
    (hd : d.Healthy) (hp : d.passwd = none) (ht : d.tmp = none) :
    (newAuthModule fpath d).1 = .ok ⟨fpath⟩ ∧
      (newAuthModule fpath d).2.Holds (Table.empty : Table bc) := by
  obtain ⟨p, t, f, n⟩ := d
  obtain rfl : f = fun _ => false := funext hd
  subst hp ht
  refine ⟨by simp [newAuthModule, hf, Disk.ask, Disk.request, Disk.testFile], ?_⟩
  simp only [newAuthModule, hf, Disk.ask, Disk.request, Disk.testFile]
  exact ⟨fun _ => rfl, rfl, rfl⟩

/-- A module made by `NewAuthModule` on an empty disk: two users added, one authenticated, one
password changed, one user deleted, the table listed. -/
theorem runOps_refines_from_new :
    let a : AuthModule := ⟨"passwd".data⟩
    let d : Disk := (newAuthModule a.fpath ⟨none, none, fun _ => false, 0⟩).2
    let ops : List Op := [.addUser 1 "a".data 10 [], .addUser 2 "b".data 12 [],
      .authenticate "2".data "b".data, .changePassword 2 "c".data [], .deleteUser 1, .list]
    let t : Table toyBcrypt := Table.empty
    a.fpath ≠ [] ∧ d.Holds t ∧ (a.runOps toyBcrypt ops d).1 = (t.runOps ops).1 ∧
      (a.runOps toyBcrypt ops d).2.Holds (t.runOps ops).2 := by
  intro a d ops t
  have ha : a.fpath ≠ [] := by simp [a]
  have h : d.Holds t := (newAuthModule_holds_empty ha (fun _ => rfl) rfl rfl).2
  exact ⟨ha, h, AuthModule.runOps_refines ha ops h⟩

end CloudArchive.Auth
