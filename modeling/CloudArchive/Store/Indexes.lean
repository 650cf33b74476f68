import CloudArchive.Webserver.Auth
import CloudArchive.Store.Filestore

/-!
# Store — the indexers and wells the stores list

Both stores keep an indexer's files in the directory `guid.String()` (`uuidString`) under the
customer's directory, and `ListIndexes` of each reads the customer's directory
(`ioutil.ReadDir` in the file store, the FTP `LIST` in the FTP store) and keeps the names of the
directories that `uuid.Parse` (`uuidParse`) accepts. `ListIndexerWells` reads the indexer's
directory the same way and keeps every subdirectory.

`uuid.Parse` switches on the length of its string in bytes and reads bytes at fixed offsets. A
printed GUID is ASCII, one byte per rune, so `uuid.Parse` reads back what `String` prints
(`uuidParse_uuidString`): the parse of the dashed form collects the 32 digits between the
dashes, and their big-endian value is the GUID. So every indexer directory the stores make is
reported, under its own name, exactly when it exists (`listIndexes_indexerDir`).
-/

namespace CloudArchive.Store

open CloudArchive CloudArchive.Webserver

/-! ## `uuid.Parse` reads back `String` -/

/-- The byte of a printed digit is a digit byte of the same value. -/
theorem hexVal_hexDigit : ∀ n < 16, hexVal (hexDigit n).val.toUInt8 = some n := by decide

/-- `uuid.Parse`'s digit loop over printed digits computes their big-endian value. -/
theorem foldlM_hexVal_hexDigit (ds : List Nat) (h : ∀ d ∈ ds, d < 16) (a : Nat) :
    (ds.map fun d => (hexDigit d).val.toUInt8).foldlM (fun acc c => (hexVal c).map (acc * 16 + ·))
      a = some (ds.foldl (fun acc d => acc * 16 + d) a) := by
  induction ds generalizing a with
  | nil => rfl
  | cons d ds ih =>
    simp only [List.map_cons, List.foldlM_cons, List.foldl_cons,
      hexVal_hexDigit d (h d (.head _)), Option.map_some']
    exact ih (fun x hx => h x (.tail _ hx)) _

/-- The `n` base-16 digits of `x`, most significant first, have the value `x % 16 ^ n`. -/
theorem foldl_hexDigits (n x : Nat) :
    ((List.range n).map fun k => x / 16 ^ (n - 1 - k) % 16).foldl
      (fun acc d => acc * 16 + d) 0 = x % 16 ^ n := by
  induction n generalizing x with
  | zero => simp [Nat.mod_one]
  | succ n ih =>
    have hdig : (List.range n).map (fun k => x / 16 ^ (n + 1 - 1 - k) % 16) =
        (List.range n).map fun k => x / 16 / 16 ^ (n - 1 - k) % 16 :=
      List.map_congr_left fun k hk => by
        have hk : k < n := List.mem_range.mp hk
        rw [Nat.div_div_eq_div_mul, ← Nat.pow_succ']
        congr 3
        omega
    rw [List.range_succ, List.map_append, List.foldl_append, hdig, ih]
    simp only [List.map_cons, List.map_nil, List.foldl_cons, List.foldl_nil, Nat.add_sub_cancel,
      Nat.sub_self, Nat.pow_zero, Nat.div_one]
    rw [Nat.pow_succ', Nat.mod_mul]
    omega

/-- The parse of a dashed form: its four dashes, and the digits between them. -/
theorem dashed_parts {α : Type} (x : α) {a b c e f : List α} (ha : a.length = 8)
    (hb : b.length = 4) (hc : c.length = 4) (he : e.length = 4) (hf : f.length = 12) :
    let s := a ++ x :: b ++ x :: c ++ x :: e ++ x :: f
    s.get? 8 = some x ∧ s.get? 13 = some x ∧ s.get? 18 = some x ∧ s.get? 23 = some x ∧
    s.take 8 ++ (s.drop 9).take 4 ++ (s.drop 14).take 4 ++ (s.drop 19).take 4 ++
      (s.drop 24).take 12 = a ++ b ++ c ++ e ++ f := by
  have dash : ∀ {l rest : List α} {n m : Nat}, l.length = n →
      (l ++ x :: rest).get? (n + m) = if m = 0 then some x else rest.get? (m - 1) :=
    fun {l rest n m} hl => by
      subst hl
      rw [List.get?_eq_getElem?, List.getElem?_append_right (Nat.le_add_right _ _),
        Nat.add_sub_cancel_left]
      rcases m with _ | m <;> simp
  refine ⟨?_, ?_, ?_, ?_, ?_⟩
  · simpa using dash (m := 0) ha
  · simpa using (dash (m := 5) ha).trans (dash (m := 0) hb)
  · simpa using (dash (m := 10) ha).trans ((dash (m := 5) hb).trans (dash (m := 0) hc))
  · simpa using (dash (m := 15) ha).trans ((dash (m := 10) hb).trans
      ((dash (m := 5) hc).trans (dash (m := 0) he)))
  · simp [List.take_append_eq_append_take, List.drop_append_eq_append_drop, ha, hb, hc, he, hf,
      List.take_of_length_le, List.drop_of_length_le]

theorem length_uuidString (u : BitVec 128) : (uuidString u).length = 36 := by
  simp [uuidString]

/-- A printed GUID holds dashes and lower-case hexadecimal digits. -/
theorem mem_uuidString {u : BitVec 128} {ch : Char} (h : ch ∈ uuidString u) :
    ch = '-' ∨ ∃ n < 16, ch = hexDigit n := by
  have hd : ∀ x ∈ (List.range 32).map (fun k => hexDigit (u.toNat / 16 ^ (31 - k) % 16)),
      ∃ n < 16, x = hexDigit n := by
    simp only [List.mem_map]
    rintro x ⟨k, -, rfl⟩
    exact ⟨_, Nat.mod_lt _ (by decide), rfl⟩
  simp only [uuidString, List.mem_append, List.mem_cons] at h
  rcases h with ((((h | h | h) | h | h) | h | h) | h | h) <;>
    first
    | exact .inl h
    | exact .inr (hd _ (List.mem_of_mem_take h))
    | exact .inr (hd _ (List.mem_of_mem_drop (List.mem_of_mem_take h)))
    | exact .inr (hd _ (List.mem_of_mem_drop h))

/-- A printed GUID is ASCII: one byte per rune. -/
theorem goBytes_uuidString (u : BitVec 128) :
    goBytes (uuidString u) = (uuidString u).map fun c => c.val.toUInt8 := by
  have hdig : ∀ n < 16, (hexDigit n).val ≤ 0x7f := by decide
  refine goBytes_of_ascii fun c hc => ?_
  rcases mem_uuidString hc with rfl | ⟨n, hn, rfl⟩
  · decide
  · exact hdig n hn

/-- `uuid.Parse` reads back what `uuid.UUID.String` prints. -/
theorem uuidParse_uuidString (u : BitVec 128) : uuidParse (uuidString u) = some u := by
  let ds := (List.range 32).map fun k => u.toNat / 16 ^ (31 - k) % 16
  let d := ds.map fun n => (hexDigit n).val.toUInt8
  have hlen : d.length = 32 := by simp [d, ds]
  have hval : hexDigits d = some u.toNat := by
    have hlt : u.toNat < 16 ^ 32 := u.isLt
    have := foldl_hexDigits 32 u.toNat
    simp only [Nat.reduceSub] at this
    rw [hexDigits, foldlM_hexVal_hexDigit ds (by simp [ds, Nat.mod_lt]), this,
      Nat.mod_eq_of_lt hlt]
  have hcat : d.take 8 ++ (d.drop 8).take 4 ++ (d.drop 12).take 4 ++ (d.drop 16).take 4 ++
      d.drop 20 = d := by
    have e20 : d.drop 20 = (d.drop 16).drop 4 := by rw [List.drop_drop]
    have e16 : d.drop 16 = (d.drop 12).drop 4 := by rw [List.drop_drop]
    have e12 : d.drop 12 = (d.drop 8).drop 4 := by rw [List.drop_drop]
    rw [List.append_assoc, List.append_assoc, List.append_assoc, e20, List.take_append_drop, e16,
      List.take_append_drop, e12, List.take_append_drop, List.take_append_drop]
  obtain ⟨h8, h13, h18, h23, hparts⟩ := dashed_parts (45 : UInt8) (a := d.take 8)
    (b := (d.drop 8).take 4) (c := (d.drop 12).take 4) (e := (d.drop 16).take 4) (f := d.drop 20)
    (by simp [hlen]) (by simp [hlen]) (by simp [hlen]) (by simp [hlen]) (by simp [hlen])
  have hs : goBytes (uuidString u) = d.take 8 ++ 45 :: (d.drop 8).take 4 ++ 45 ::
      (d.drop 12).take 4 ++ 45 :: (d.drop 16).take 4 ++ 45 :: d.drop 20 := by
    rw [goBytes_uuidString]
    simp only [uuidString, List.map_append, List.map_cons, List.map_take, List.map_drop,
      List.map_map, d, ds]
    rfl
  have hl : (goBytes (uuidString u)).length = 36 := by
    rw [goBytes_uuidString, List.length_map, length_uuidString]
  unfold uuidParse
  dsimp only
  rw [hl]
  dsimp only
  rw [hs, if_pos ⟨h8, h13, h18, h23⟩, hparts, hcat, hval]
  simp

/-- A printed GUID is a plain path element: 36 runes, hex digits and dashes. -/
theorem isElem_uuidString (u : BitVec 128) : IsElem (uuidString u) := by
  have hdig : ∀ n < 16, hexDigit n ≠ '/' := by decide
  have hlen := length_uuidString u
  refine ⟨fun e => by simp [e] at hlen, fun h => ?_, fun e => by simp [e] at hlen,
    fun e => by simp [e] at hlen⟩
  rcases mem_uuidString h with h | ⟨n, hn, h⟩
  · exact absurd h (by decide)
  · exact hdig n hn h.symm

theorem isElem_decimal (n : Nat) : IsElem (decimal n) := by
  obtain ⟨hne, hc, -⟩ := decimal_digits n
  have hnot : ∀ c, c.isDigit = false → c ∉ decimal n := fun c h hm => by
    simpa [h] using (hc c hm).1
  refine ⟨hne, hnot '/' rfl, fun e => hnot '.' rfl (by simp [e]),
    fun e => hnot '.' rfl (by simp [e])⟩

/-! ## `ListIndexes` -/

/-- The loop of `ListIndexes`, the same in both stores: the names of the directories in a
listing (each name with whether it is a directory, as `ReadDir` and `LIST` give them) that
`uuid.Parse` accepts, in the listing's order. -/
def indexNames (entries : List (List Char × Bool)) : List (List Char) :=
  entries.filterMap fun ent => if ent.2 && (uuidParse ent.1).isSome then some ent.1 else none

/-- `ListIndexes` of either store, on the listing of the customer's directory; a listing that
fails is the call's error. -/
def listIndexes (listing : Option (List (List Char × Bool))) : Option (List (List Char)) :=
  listing.map indexNames

/-- `entries` is what `ioutil.ReadDir(p)` gives on `fs`: every child of `p`, with whether it
is a directory. -/
def Fs.Lists (fs : Fs) (p : List Char) (entries : List (List Char × Bool)) : Prop :=
  ∀ name isDir, (name, isDir) ∈ entries ↔
    IsElem name ∧ ∃ nd, fs (p ++ '/' :: name) = some nd ∧ isDir = (nd == .dir)

/-- From the listing of a directory, `ListIndexes` keeps exactly the subdirectories whose
names parse. -/
theorem mem_indexNames {fs : Fs} {p : List Char} {entries : List (List Char × Bool)}
    (h : fs.Lists p entries) (name : List Char) :
    name ∈ indexNames entries ↔
      IsElem name ∧ fs (p ++ '/' :: name) = some .dir ∧ (uuidParse name).isSome := by
  simp only [indexNames, List.mem_filterMap]
  constructor
  · rintro ⟨⟨n, isDir⟩, hmem, hsome⟩
    obtain ⟨he, nd, hnd, rfl⟩ := (h n isDir).mp hmem
    by_cases hc : (nd == .dir && (uuidParse n).isSome) = true
    · rw [if_pos hc, Option.some_inj] at hsome
      subst hsome
      simp only [Bool.and_eq_true, beq_iff_eq] at hc
      exact ⟨he, hc.1 ▸ hnd, hc.2⟩
    · rw [if_neg hc] at hsome; cases hsome
  · rintro ⟨he, hdir, hp⟩
    exact ⟨(name, true), (h name true).mpr ⟨he, .dir, hdir, rfl⟩, by simp [hp]⟩

/-! ## `ListIndexerWells` -/

/-- The loop of `ListIndexerWells`, the same in both stores: the names of the directories in a
listing, in the listing's order. -/
def wellNames (entries : List (List Char × Bool)) : List (List Char) :=
  entries.filterMap fun ent => if ent.2 then some ent.1 else none

/-- `ListIndexerWells` of either store, on the listing of the indexer's directory; a listing
that fails is the call's error. -/
def listIndexerWells (listing : Option (List (List Char × Bool))) : Option (List (List Char)) :=
  listing.map wellNames

/-- From the listing of a directory, `ListIndexerWells` keeps exactly its subdirectories. -/
theorem mem_wellNames {fs : Fs} {p : List Char} {entries : List (List Char × Bool)}
    (h : fs.Lists p entries) (w : List Char) :
    w ∈ wellNames entries ↔ IsElem w ∧ fs (p ++ '/' :: w) = some .dir := by
  simp only [wellNames, List.mem_filterMap, Option.ite_none_right_eq_some, Option.some.injEq]
  constructor
  · rintro ⟨⟨n, isDir⟩, hmem, hd, rfl⟩
    obtain ⟨he, nd, hnd, rfl⟩ := (h n isDir).mp hmem
    exact ⟨he, by simpa using hnd.trans (congrArg some (beq_iff_eq.mp hd))⟩
  · rintro ⟨he, hdir⟩
    exact ⟨(w, true), (h w true).mpr ⟨he, .dir, hdir, rfl⟩, rfl, rfl⟩

/-! ## What the two listings report -/

/-- **The indexers and wells a customer's store lists.** On a customer's directory that `ReadDir`
lists, `ListIndexes` reports exactly its subdirectories whose names `uuid.Parse` accepts. The
directory the stores make for an indexer (`indexerDir`, named by `guid.String()`) is reported
exactly when it exists, and `ListIndexerWells` on a listing of that directory reports exactly its
subdirectories. -/
theorem listIndexes_indexerDir {fs : Fs} {basedir : List Char} (hb : Proper basedir)
    {cid : UInt64} {entries : List (List Char × Bool)}
    (h : fs.Lists (join [basedir, decimal cid.toNat]) entries) {names : List (List Char)}
    (hl : listIndexes (some entries) = some names) :
    (∀ name, name ∈ names ↔ IsElem name ∧
      fs (join [basedir, decimal cid.toNat] ++ '/' :: name) = some .dir ∧
        (uuidParse name).isSome) ∧
    ∀ guid, (uuidString guid ∈ names ↔ fs (indexerDir basedir cid guid) = some .dir) ∧
      ∀ wentries wells, fs.Lists (indexerDir basedir cid guid) wentries →
        listIndexerWells (some wentries) = some wells →
        ∀ w, w ∈ wells ↔ IsElem w ∧ fs (indexerDir basedir cid guid ++ '/' :: w) = some .dir := by
  obtain rfl : indexNames entries = names := Option.some_inj.mp hl
  refine ⟨mem_indexNames h, fun guid => ⟨?_, fun wentries wells hw hwl => ?_⟩⟩
  · have hdir : indexerDir basedir cid guid =
        join [basedir, decimal cid.toNat] ++ '/' :: uuidString guid := by
      rw [indexerDir, hb.join_elems (isElem_decimal _) (isElem_uuidString guid),
        hb.join_pair (isElem_decimal _).split_elem]
      simp
    rw [mem_indexNames h, hdir]
    simp [isElem_uuidString, uuidParse_uuidString]
  · obtain rfl : wellNames wentries = wells := Option.some_inj.mp hwl
    exact mem_wellNames hw

/-- A customer directory holding one indexer's directory. -/
theorem listIndexes_indexerDir_one :
    let p := join ["store".data, decimal (7 : UInt64).toNat]
    let fs : Fs := fun q => if q = p ++ '/' :: uuidString 5 then some .dir else none
    let entries := [(uuidString 5, true)]
    Proper "store".data ∧ fs.Lists p entries ∧ listIndexes (some entries) = some [uuidString 5] ∧
      (∀ name, name ∈ [uuidString 5] ↔ IsElem name ∧ fs (p ++ '/' :: name) = some .dir ∧
        (uuidParse name).isSome) ∧
      ∀ guid, (uuidString guid ∈ [uuidString 5] ↔
        fs (indexerDir "store".data 7 guid) = some .dir) ∧
        ∀ wentries wells, fs.Lists (indexerDir "store".data 7 guid) wentries →
          listIndexerWells (some wentries) = some wells →
          ∀ w, w ∈ wells ↔ IsElem w ∧ fs (indexerDir "store".data 7 guid ++ '/' :: w) = some .dir := by
  intro p fs entries
  have hb : Proper "store".data := proper_join [] (n := "store".data) (by decide)
  have hL : fs.Lists p entries := by
    intro name isDir
    simp only [entries, List.mem_singleton, Prod.mk.injEq]
    constructor
    · rintro ⟨rfl, rfl⟩
      exact ⟨isElem_uuidString 5, .dir, by simp [fs], rfl⟩
    · rintro ⟨-, nd, hnd, rfl⟩
      simp only [fs] at hnd
      split at hnd
      · rename_i heq
        cases hnd
        exact ⟨(List.cons.inj (List.append_cancel_left heq)).2, rfl⟩
      · cases hnd
  have hl : listIndexes (some entries) = some [uuidString 5] := by
    simp [listIndexes, indexNames, entries, uuidParse_uuidString]
  exact ⟨hb, hL, hl, listIndexes_indexerDir hb hL hl⟩

end CloudArchive.Store
