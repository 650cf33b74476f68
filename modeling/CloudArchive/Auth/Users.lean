import CloudArchive.Auth.Passwd

/-!
# Auth — what the password file holds after each call

A file the module wrote holds `render uhs`: the line `custnum:hash\n` of each user in turn. This
module proves that `load` reads such a file back (`AuthModule.load_render`), and says what
`updateUsers`, and so `DeleteUser`, leaves on a disk that answers every request: the new lines,
then whatever a leftover `<fpath>.tmp` held past their length (`AuthModule.updateUsers_healthy`).
The temporary file is opened without `O_TRUNC`, so that tail is the stale text of an earlier,
interrupted update; with no leftover file the tail is empty and the file is exactly the users'
lines.

`toyBcrypt` is a stand-in for bcrypt that keeps the two facts `Bcrypt` asks for, so that the
module can be run on concrete files.
-/

namespace CloudArchive.Auth

open CloudArchive

/-! ## One line -/

/-- A user the file can hold: a hash in bcrypt's alphabet, of cost `minCost` at least. -/
def UserHash.Valid (bc : Bcrypt) (uh : UserHash) : Prop :=
  (∀ ch ∈ uh.hash, bcryptChar ch = true) ∧ ∃ c, bc.cost uh.hash = .ok c ∧ minCost ≤ c

/-- A user's line without its `\n`. -/
def UserHash.body (uh : UserHash) : List Char := decimal uh.custnum.toNat ++ ':' :: uh.hash

theorem UserHash.line_eq (uh : UserHash) : uh.line = uh.body ++ ['\n'] := by
  simp [UserHash.line, UserHash.body]

/-- bcrypt's runes are none of the separators the file's reader looks for. -/
theorem bcryptChar_sep {ch : Char} (h : bcryptChar ch = true) :
    ch ≠ ':' ∧ ch ≠ '\n' ∧ ch ≠ '\r' ∧ "\n\t ".data.contains ch = false := by
  have key : ∀ c ∈ [':', '\n', '\r', '\t', ' '], bcryptChar c = false := by decide
  have ne : ∀ c ∈ [':', '\n', '\r', '\t', ' '], ch ≠ c := fun c hc e => by
    rw [e, key c hc] at h; exact Bool.false_ne_true h
  refine ⟨ne _ (by simp), ne _ (by simp), ne _ (by simp), ?_⟩
  show ['\n', '\t', ' '].contains ch = false
  simp [ne '\n' (by simp), ne '\t' (by simp), ne ' ' (by simp)]

theorem bcryptChar_of_isDigit {ch : Char} (h : ch.isDigit = true) : bcryptChar ch = true := by
  simp [bcryptChar, Char.isAlphanum, h]

/-- The runes of a line body: digits, the `:` and bcrypt's. -/
theorem UserHash.body_chars {uh : UserHash} (hh : ∀ ch ∈ uh.hash, bcryptChar ch = true) :
    ∀ ch ∈ uh.body, ch = ':' ∨ bcryptChar ch = true := by
  intro ch h
  rcases List.mem_append.mp h with h | h
  · exact .inr (bcryptChar_of_isDigit ((decimal_digits _).2.1 ch h).1)
  · rcases List.mem_cons.mp h with h | h
    · exact .inl h
    · exact .inr (hh ch h)

/-- A line body holds no `\n` and no `\r`. -/
theorem UserHash.body_no_eol {uh : UserHash} (hh : ∀ ch ∈ uh.hash, bcryptChar ch = true) :
    '\n' ∉ uh.body ∧ '\r' ∉ uh.body := by
  have key : ∀ c ∈ uh.body, c ≠ '\n' ∧ c ≠ '\r' := fun c hc => by
    rcases uh.body_chars hh c hc with rfl | h
    · decide
    · exact ⟨(bcryptChar_sep h).2.1, (bcryptChar_sep h).2.2.1⟩
  exact ⟨fun h => (key _ h).1 rfl, fun h => (key _ h).2 rfl⟩

/-- `Parse` reads a valid user back from its line. -/
theorem UserHash.parse_body {bc : Bcrypt} {uh : UserHash} (hv : uh.Valid bc) :
    UserHash.parse bc uh.body = .ok uh := by
  obtain ⟨c, hc, hmin⟩ := hv.2
  have hdig : ∀ ch ∈ decimal uh.custnum.toNat, bcryptChar ch = true :=
    fun ch h => bcryptChar_of_isDigit ((decimal_digits _).2.1 ch h).1
  have htrim : trim uh.body "\n\t ".data = uh.body := trim_of_forall fun ch h => by
    rcases uh.body_chars hv.1 ch h with rfl | h
    · decide
    · exact (bcryptChar_sep h).2.2.2
  have hsplit : split uh.body ':' = [decimal uh.custnum.toNat, uh.hash] := by
    have : ([':'].intercalate [decimal uh.custnum.toNat, uh.hash]).splitOn ':' =
        [decimal uh.custnum.toNat, uh.hash] := List.splitOn_intercalate _ ':'
      (by simpa using ⟨fun e => (bcryptChar_sep (hdig _ e)).1 rfl,
        fun e => (bcryptChar_sep (hv.1 _ e)).1 rfl⟩) (by simp)
    simpa [List.intercalate] using this
  have hu : UInt64.ofNat uh.custnum.toNat = uh.custnum :=
    UInt64.toNat.inj (UInt64.toNat_ofNat_of_lt uh.custnum.toNat_lt_size)
  have hne : uh.body ≠ [] := by simp [UserHash.body]
  simp only [UserHash.parse, htrim, hne, hsplit, if_false,
    parseUint_decimal (show uh.custnum.toNat < 2 ^ 64 from uh.custnum.toNat_lt_size), hc,
    Nat.not_lt.mpr hmin, hu]

/-! ## The whole file -/

/-- The text of a password file holding `uhs`: each user's line in turn, as `updateUsers`
writes them. -/
def render : List UserHash → List Char
  | [] => []
  | uh :: uhs => uh.line ++ render uhs

theorem render_eq_intercalate (uhs : List UserHash) :
    render uhs = ['\n'].intercalate (uhs.map UserHash.body ++ [[]]) := by
  induction uhs with
  | nil => rfl
  | cons uh uhs ih =>
    obtain ⟨y, ys, h⟩ : ∃ y ys, uhs.map UserHash.body ++ [[]] = y :: ys := by
      cases uhs.map UserHash.body <;> simp
    rw [h] at ih
    rw [render, ih, UserHash.line_eq, List.map_cons, List.cons_append, h, intercalate_cons_cons]
    simp

theorem dropCR_of_not_mem {l : List Char} (h : '\r' ∉ l) : dropCR l = l :=
  if_neg fun e => h (List.mem_of_getLast?_eq_some e)

/-- `ScanLines` yields the bodies of the lines of a rendered file. -/
theorem scanLines_render {uhs : List UserHash}
    (hh : ∀ uh ∈ uhs, ∀ ch ∈ uh.hash, bcryptChar ch = true) :
    scanLines (render uhs) = uhs.map UserHash.body := by
  have hsplit : split (render uhs) '\n' = uhs.map UserHash.body ++ [[]] := by
    rw [render_eq_intercalate]
    refine List.splitOn_intercalate _ '\n' (fun b hb => ?_) (by simp)
    simp only [List.mem_append, List.mem_map, List.mem_singleton] at hb
    rcases hb with ⟨uh, huh, rfl⟩ | rfl
    · exact (UserHash.body_no_eol (hh uh huh)).1
    · simp
  simp only [scanLines, hsplit, List.getLast?_append, List.getLast?_singleton, Option.or_some,
    if_true, List.dropLast_concat, List.map_map]
  exact List.map_congr_left fun uh huh => dropCR_of_not_mem (UserHash.body_no_eol (hh uh huh)).2

/-- `Parse` reads every valid user back from its line. -/
theorem mapM_parse_bodies {bc : Bcrypt} {uhs : List UserHash} (hv : ∀ uh ∈ uhs, uh.Valid bc) :
    (uhs.map UserHash.body).mapM (UserHash.parse bc) = .ok uhs := by
  induction uhs with
  | nil => rfl
  | cons uh uhs ih =>
    simp only [List.map_cons, List.mapM_cons, UserHash.parse_body (hv uh (.head _)),
      ih fun u hu => hv u (.tail _ hu)]
    rfl

/-! ## A disk that answers every request -/

/-- The disk answers every request: only the operating system refuses (a missing file, say). -/
def Disk.Healthy (d : Disk) : Prop := ∀ n, d.fails n = false

/-- `load` reads back every user of a file the module rendered. -/
theorem AuthModule.load_render {bc : Bcrypt} {a : AuthModule} {d : Disk} {uhs : List UserHash}
    (ha : a.fpath ≠ []) (hd : d.Healthy) (hp : d.passwd = some (.file (render uhs)))
    (hv : ∀ uh ∈ uhs, uh.Valid bc) :
    a.load bc d = (.ok uhs, { d with ops := d.ops + 4 }) := by
  obtain ⟨p, t, f, n⟩ := d
  obtain rfl : f = fun _ => false := funext hd
  subst hp
  have hm : List.mapM.loop (UserHash.parse bc) (scanLines (render uhs)) [] = .ok uhs := by
    rw [scanLines_render fun uh huh => (hv uh huh).1]; exact mapM_parse_bodies hv
  simp [AuthModule.load, ha, Disk.openPasswd, Disk.ask, Disk.request, Node.isFile, Node.text, hm]

/-- The loop of `updateUsers` on a temporary file holding `pre ++ rest`, from the end of
`pre`: the lines overwrite `rest` from its start. -/
theorem Disk.writeUsers_healthy (p : Option Node) (pre rest : List Char) (n : Nat)
    (uhs : List UserHash) :
    Disk.writeUsers ⟨p, some (.file (pre ++ rest)), fun _ => false, n⟩ pre.length uhs =
      (.ok (), ⟨p, some (.file (pre ++ render uhs ++ rest.drop (render uhs).length)),
        fun _ => false, n + uhs.length⟩) := by
  induction uhs generalizing pre rest n with
  | nil => simp [Disk.writeUsers, render]
  | cons uh uhs ih =>
    have step := ih (pre ++ uh.line) (rest.drop uh.line.length) (n + 1)
    simp only [List.length_append, List.append_assoc, List.drop_append] at step
    simp only [Disk.writeUsers, Disk.writeTmp, Disk.request, Node.text, List.take_left,
      List.drop_append, Bool.false_or, Bool.not_true, Bool.false_eq_true, if_false, step,
      render, List.length_append, List.drop_drop, List.append_assoc, List.length_cons]
    simp only [Prod.mk.injEq, Disk.mk.injEq, true_and]
    omega

theorem Disk.writeUsers_zero (p : Option Node) (s : List Char) (n : Nat) (uhs : List UserHash) :
    Disk.writeUsers ⟨p, some (.file s), fun _ => false, n⟩ 0 uhs =
      (.ok (), ⟨p, some (.file (render uhs ++ s.drop (render uhs).length)), fun _ => false,
        n + uhs.length⟩) := by
  simpa using Disk.writeUsers_healthy p [] s n uhs

/-- What `updateUsers` leaves on a disk that answers every request: the password file holds the
new lines followed by what the temporary file held past their length, and the temporary file is
gone. -/
theorem AuthModule.updateUsers_healthy {a : AuthModule} {d : Disk} (uhs : List UserHash)
    (ha : a.fpath ≠ []) (hd : d.Healthy) (hp : Node.isFile d.passwd = true)
    (ht : d.tmp ≠ some .other) :
    a.updateUsers uhs d = (.ok (), { d with
      passwd := some (.file (render uhs ++ (Node.text d.tmp).drop (render uhs).length))
      tmp := none
      ops := d.ops + uhs.length + 9 }) := by
  obtain ⟨p, t, f, n⟩ := d
  obtain rfl : f = fun _ => false := funext hd
  obtain ⟨q, rfl⟩ : ∃ q, p = some (.file q) := by
    rcases p with _ | _ | _ <;> simp_all [Node.isFile]
  rcases t with _ | s | _ <;> simp [AuthModule.updateUsers, ha, Disk.openTmp, Disk.ask,
    Disk.request, Disk.openPasswd, Disk.rename, Node.isFile, Node.text, Disk.writeUsers_zero] at ht ⊢ <;>
    omega

/-- What a `DeleteUser` of a stored user leaves on a disk that answers every request, from a file
the module wrote: the other users' lines, then the temporary file's text past their length. -/
theorem AuthModule.deleteUser_healthy {bc : Bcrypt} {a : AuthModule} {d : Disk}
    {uhs : List UserHash} {c : UInt64} (ha : a.fpath ≠ []) (hd : d.Healthy)
    (hp : d.passwd = some (.file (render uhs))) (ht : d.tmp ≠ some .other)
    (hv : ∀ uh ∈ uhs, uh.Valid bc) (hc : c ≠ 0) (hin : uhs.any (·.custnum = c) = true) :
    a.deleteUser bc c d = (.ok (), { d with
      passwd := some (.file (render (eraseUser c uhs) ++
        (Node.text d.tmp).drop (render (eraseUser c uhs)).length))
      tmp := none
      ops := d.ops + (eraseUser c uhs).length + 13 }) := by
  rw [AuthModule.deleteUser, if_neg hc, AuthModule.load_render ha hd hp hv]
  dsimp only
  have hu := AuthModule.updateUsers_healthy (eraseUser c uhs) ha
    (show Disk.Healthy { d with ops := d.ops + 4 } from hd) (by simp [hp, Node.isFile]) ht
  rw [if_pos hin, hu]
  simp only [Prod.mk.injEq, Disk.mk.injEq, true_and]
  omega

theorem mem_of_mem_eraseUser {c : UInt64} {uh : UserHash} :
    ∀ {uhs : List UserHash}, uh ∈ eraseUser c uhs → uh ∈ uhs
  | [], h => h
  | u :: uhs, h => by
    simp only [eraseUser] at h
    split at h
    · exact .tail _ h
    · rcases List.mem_cons.mp h with rfl | h
      · exact .head _
      · exact .tail _ (mem_of_mem_eraseUser h)

/-- With no leftover temporary file, `DeleteUser` of a stored user succeeds and the next `load`
returns exactly the other users, in their order. -/
theorem deleteUser_then_load {bc : Bcrypt} {a : AuthModule} {d : Disk} {uhs : List UserHash}
    {c : UInt64} (ha : a.fpath ≠ []) (hd : d.Healthy) (hp : d.passwd = some (.file (render uhs)))
    (ht : d.tmp = none) (hv : ∀ uh ∈ uhs, uh.Valid bc) (hc : c ≠ 0)
    (hin : uhs.any (·.custnum = c) = true) :
    (a.deleteUser bc c d).1 = .ok () ∧
      (a.load bc (a.deleteUser bc c d).2).1 = .ok (eraseUser c uhs) := by
  obtain ⟨p, t, f, n⟩ := d
  obtain rfl : f = fun _ => false := funext hd
  obtain rfl : t = none := ht
  rw [AuthModule.deleteUser_healthy ha hd hp (by simp) hv hc hin]
  exact ⟨rfl, congrArg Prod.fst (AuthModule.load_render ha (fun _ => rfl) (by simp [Node.text])
    fun uh huh => hv uh (mem_of_mem_eraseUser huh))⟩

/-! ## A bcrypt to run the module on -/

/-- The stand-in hash of `p` at cost `c`: `$2a$`, the cost in two digits, `$`, then the
password's runes of bcrypt's alphabet. -/
def toyHash (p : List Char) (c : Nat) : List Char :=
  ['$', '2', 'a', '$', Nat.digitChar (c / 10), Nat.digitChar (c % 10), '$'] ++ p.filter bcryptChar

/-- The cost a stand-in hash records. -/
def toyCost : List Char → Except BcryptErr Nat
  | '$' :: '2' :: 'a' :: '$' :: d1 :: d0 :: '$' :: _ =>
    if d1.isDigit ∧ d0.isDigit then .ok ((d1.toNat - '0'.toNat) * 10 + (d0.toNat - '0'.toNat))
    else .error .invalidHashPrefix
  | _ => .error .invalidHashPrefix

theorem toyCost_toyHash {c : Nat} (h : c ≤ maxCost) (p : List Char) :
    toyCost (toyHash p c) = .ok c := by
  have h1 := digitChar_of_lt (c / 10) (by simp only [maxCost] at h; omega)
  have h0 := digitChar_of_lt (c % 10) (Nat.mod_lt _ (by decide))
  simp only [toyHash, List.cons_append, List.nil_append, toyCost, h1.1, h1.2.1, h0.1, h0.2.1,
    and_self, if_true, Nat.div_add_mod']

theorem toyHash_chars {c : Nat} (h : c ≤ maxCost) (p : List Char) :
    ∀ ch ∈ toyHash p c, bcryptChar ch = true := by
  have h1 := (digitChar_of_lt (c / 10) (by simp only [maxCost] at h; omega)).2.1
  have h0 := (digitChar_of_lt (c % 10) (Nat.mod_lt _ (by decide))).2.1
  intro ch hch
  simp only [toyHash, List.mem_append, List.mem_cons, List.mem_filter, List.not_mem_nil,
    or_false] at hch
  rcases hch with (rfl | rfl | rfl | rfl | rfl | rfl | rfl) | ⟨-, h⟩
  all_goals first | rfl | exact bcryptChar_of_isDigit ‹_› | exact h

/-- A stand-in for bcrypt: the stand-in hash, made for a cost in `[MinCost, MaxCost]`, checked
by making it again. It is no hash function, but keeps the two facts `Bcrypt` asks for. -/
def toyBcrypt : Bcrypt where
  generate p c _ := if bcryptMinCost ≤ c ∧ c ≤ maxCost then .ok (toyHash p c) else .error .invalidCost
  cost := toyCost
  compare h p :=
    match toyCost h with
    | .ok c => if h = toyHash p c then .ok () else .error .mismatchedHashAndPassword
    | .error e => .error e
  cost_generate := fun {p c} _ _ _ hg => by
    dsimp only at hg
    split at hg
    next hc => cases hg; exact toyCost_toyHash hc.2 p
    next => cases hg
  chars_generate := fun {p c} _ _ hg => by
    dsimp only at hg
    split at hg
    next hc => cases hg; exact toyHash_chars hc.2 p
    next => cases hg

/-- A user with a stand-in hash of an allowed cost is one the file can hold. -/
theorem toyHash_valid {c : Nat} (h1 : minCost ≤ c) (h2 : c ≤ maxCost) (custnum : UInt64)
    (p : List Char) : UserHash.Valid toyBcrypt ⟨custnum, toyHash p c⟩ :=
  ⟨toyHash_chars h2 p, c, toyCost_toyHash h2 p, h1⟩

/-! ## A leftover temporary file -/

/-- A `DeleteUser` that succeeds over a leftover `<fpath>.tmp` longer than the new file: the
password file keeps the stale tail, and the next `load` fails, so the remaining user can no
longer authenticate. -/
theorem deleteUser_stale_tmp_breaks_load :
    let u1 : UserHash := ⟨1, toyHash "a".data 10⟩
    let u2 : UserHash := ⟨2, toyHash "b".data 10⟩
    let stale := render [⟨12, toyHash "ab".data 10⟩, ⟨3, toyHash "c".data 10⟩]
    let a : AuthModule := ⟨"passwd".data⟩
    let d : Disk := ⟨some (.file (render [u1, u2])), some (.file stale), fun _ => false, 0⟩
    (a.authenticate toyBcrypt "1".data "a".data d).1 = .ok 1 ∧
      (a.deleteUser toyBcrypt 2 d).1 = .ok () ∧
      (a.deleteUser toyBcrypt 2 d).2.passwd =
        some (.file (render [u1] ++ stale.drop (render [u1]).length)) ∧
      (a.authenticate toyBcrypt "1".data "a".data (a.deleteUser toyBcrypt 2 d).2).1 =
        .error .corruptLine :=
  ⟨rfl, rfl, rfl, rfl⟩

theorem deleteUser_then_load_two_users :
    let u1 : UserHash := ⟨1, toyHash "a".data 10⟩
    let u2 : UserHash := ⟨2, toyHash "b".data 10⟩
    let a : AuthModule := ⟨"passwd".data⟩
    let d : Disk := ⟨some (.file (render [u1, u2])), none, fun _ => false, 0⟩
    (a.deleteUser toyBcrypt 2 d).1 = .ok () ∧
      (a.load toyBcrypt (a.deleteUser toyBcrypt 2 d).2).1 = .ok [u1] := by
  dsimp only
  refine @deleteUser_then_load _ _ _ [⟨1, toyHash "a".data 10⟩, ⟨2, toyHash "b".data 10⟩] _
    ?_ ?_ ?_ ?_ ?_ ?_ ?_
  · decide
  · exact fun _ => rfl
  · rfl
  · rfl
  · simp only [List.forall_mem_cons, List.not_mem_nil, false_implies, implies_true, and_true]
    exact ⟨toyHash_valid (by decide) (by decide) _ _, toyHash_valid (by decide) (by decide) _ _⟩
  · decide
  · rfl

theorem deleteUser_healthy_stale_tmp :
    let u1 : UserHash := ⟨1, toyHash "a".data 10⟩
    let u2 : UserHash := ⟨2, toyHash "b".data 10⟩
    let stale := render [⟨12, toyHash "ab".data 10⟩, ⟨3, toyHash "c".data 10⟩]
    let a : AuthModule := ⟨"passwd".data⟩
    let d : Disk := ⟨some (.file (render [u1, u2])), some (.file stale), fun _ => false, 0⟩
    a.deleteUser toyBcrypt 2 d = (.ok (), { d with
      passwd := some (.file (render [u1] ++ stale.drop (render [u1]).length))
      tmp := none
      ops := 14 }) := by
  dsimp only
  refine @AuthModule.deleteUser_healthy _ _ _ [⟨1, toyHash "a".data 10⟩, ⟨2, toyHash "b".data 10⟩] _
    ?_ ?_ ?_ ?_ ?_ ?_ ?_
  · decide
  · exact fun _ => rfl
  · rfl
  · simp
  · simp only [List.forall_mem_cons, List.not_mem_nil, false_implies, implies_true, and_true]
    exact ⟨toyHash_valid (by decide) (by decide) _ _, toyHash_valid (by decide) (by decide) _ _⟩
  · decide
  · rfl

end CloudArchive.Auth
