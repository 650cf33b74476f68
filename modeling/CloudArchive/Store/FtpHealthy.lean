import CloudArchive.Store.FtpPull
import CloudArchive.Store.RoundTrip

/-!
# Store — `ftpstore.PackShard` against a healthy server

`Store.FtpPull` models the pull. This module proves what it streams when the server behaves
(`FtpServer.Serves`): the server lists the shard directory's files and its accelerator
directory, in any order and `.` and `..` aside, lists `keys` and `data` in the accelerator
directory, and carries each file's bytes to the end of its `RETR`. Then `ftpstore.PackShard`
streams what `filestore.PackShard` streams from a directory holding the same files
(`ftpPackShard_refines_filestore`). The same lemmas give what it streams when one `LIST` fails
or one transfer is cut (`ftpPackShard_succeeds_on_partial_copy`): the first is a walk that
halts early (`Walks.halt`), the second a healthy server for a shard with fewer bytes.

The proof follows the code's phases:

* the walk (`Walks`, `copyWalk_of_walks`, `walks_shard`): the walker visits each file of the
  shard once, in an order the listings decide, and the copy loop copies them in that order;
* the copies (`copyFile_shardFile`, `copyAll_place`): copying a file leaves on the staging disk
  what the unpacker's `HandleFile` leaves (`placeShardFile`), and two files placed in either
  order leave the same disk (`placeShardFile_comm`), so the staging directory ends up holding
  the shard whatever the order;
* the packing: `addShardFilesToPacker_onDisk`, as for the local backend.
-/

namespace CloudArchive.Store

open CloudArchive CloudArchive.ShardPacker

/-! ## Paths and directories of the staging disk -/

/-- `MkdirAll` of a plain element below a proper path walks the path's directories, then the
element. -/
theorem pathPrefixes_append_elem {L A : List Char} (hL : Proper L) (hA : IsElem A) :
    pathPrefixes (L ++ '/' :: A) = pathPrefixes L ++ [L ++ '/' :: A] := by
  obtain ⟨ro, st, hn, hne, rfl⟩ := hL
  have hes : (split (render ro st) '/').filter (· ≠ []) = st.reverse := by
    rw [split_render hn hne]
    have : st.reverse.filter (· ≠ []) = st.reverse :=
      List.filter_eq_self.mpr fun e he => by simpa using (hn.elem (List.mem_reverse.mp he)).1
    cases ro <;> simpa using this
  have hesA : (split (render ro st ++ '/' :: A) '/').filter (· ≠ []) = st.reverse ++ [A] := by
    rw [split_append_sep, List.filter_append, hes, split_of_not_mem hA.2.1]
    simp [hA.1]
  have hhead : (render ro st ++ '/' :: A).head? = (render ro st).head? := by
    obtain ⟨c, u, hcu⟩ := List.exists_cons_of_ne_nil (@render_ne_nil ro st)
    rw [hcu]; rfl
  unfold pathPrefixes
  simp only [hes, hesA, hhead, List.length_append, List.length_reverse, List.length_singleton,
    List.range_succ, List.map_append, List.map_singleton]
  congr 1
  · refine List.map_congr_left fun k hk => ?_
    rw [List.take_append_of_le_length (by simp at hk; simpa using hk)]
  · rw [List.take_of_length_le (by simp), intercalate_append (by simpa using hne) (by simp)]
    have hr := render_eq hn hne
    have hh := head_render hn hne []
    rw [List.append_nil] at hh
    cases ro <;> simp_all [List.intercalate]

/-- A directory `MkdirAll` makes on the way to `L` is no path below `L`. -/
theorem pathPrefixes_ne_below {L : List Char} (hL : Proper L) {q : List Char}
    (hq : q ∈ pathPrefixes L) (r : List Char) : q ≠ L ++ '/' :: r := fun e => by
  have := ((Proper.pathPrefixes hL).2 q hq).length_le
  rw [e] at this
  simp only [List.length_append, List.length_cons] at this
  omega

theorem trimPrefix_append (a b : List Char) : trimPrefix (a ++ b) a = b := by
  simp [trimPrefix, List.isPrefixOf_iff_prefix]

/-- `MkdirAll` of a path whose directories are all there changes nothing. -/
theorem Fs.mkdirAll_of_dirs {fs : Fs} {p : List Char} (h : ∀ q ∈ pathPrefixes p, fs q = some .dir) :
    fs.mkdirAll p = .ok fs := by
  obtain ⟨fs', hmk, hdir, hfr⟩ := @Fs.mkdirAll_ok fs p fun q hq d => by rw [h q hq]; simp
  rw [hmk]
  congr 1
  funext q
  by_cases hq : q ∈ pathPrefixes p
  · rw [hdir q hq, h q hq]
  · exact hfr q hq

/-- `MkdirAll` of a plain element below a proper path whose directories are there makes the
element's directory, if it is missing. -/
theorem Fs.mkdirAll_append_elem {fs : Fs} {L A : List Char} (hL : Proper L) (hA : IsElem A)
    (hpre : ∀ q ∈ pathPrefixes L, fs q = some .dir)
    (hfA : fs (L ++ '/' :: A) = none ∨ fs (L ++ '/' :: A) = some .dir) :
    fs.mkdirAll (L ++ '/' :: A) = .ok (Function.update fs (L ++ '/' :: A) (some .dir)) := by
  have hpp := pathPrefixes_append_elem hL hA
  obtain ⟨fs', hmk, hdir, hfr⟩ := @Fs.mkdirAll_ok fs (L ++ '/' :: A) fun q hq d => by
    rw [hpp] at hq
    rcases List.mem_append.mp hq with hq | hq
    · rw [hpre q hq]; simp
    · rw [List.mem_singleton.mp hq]; rcases hfA with h | h <;> rw [h] <;> simp
  rw [hmk]
  congr 1
  funext q
  by_cases hq : q ∈ pathPrefixes (L ++ '/' :: A)
  · rw [hdir q hq]
    rw [hpp] at hq
    rcases List.mem_append.mp hq with hq | hq
    · rw [Function.update_noteq (pathPrefixes_ne_below hL hq A), hpre q hq]
    · rw [List.mem_singleton.mp hq, Function.update_same]
  · rw [hfr q hq, Function.update_noteq fun e => hq (by rw [hpp, e]; simp)]

theorem proper_root_of_elem {A : List Char} (hA : IsElem A) : Proper ('/' :: A) :=
  ⟨true, [A], ⟨[A], 0, by simp, by simpa using hA, fun _ => rfl⟩, by simp, by
    simp [render, List.intercalate]⟩

/-- `Join` of a proper path and `/` followed by a plain relative path appends them. -/
theorem join_slash {b r : List Char} (hb : Proper b) (hr : ∀ e ∈ split r '/', IsElem e) :
    join [b, '/' :: r] = b ++ '/' :: r := by
  rw [hb.join_cons, show ['/'].intercalate [b, '/' :: r] = b ++ '/' :: '/' :: r by
    simp [List.intercalate]]
  exact hb.clean_sep_sep_append hr

/-- `Create` of a missing file in a directory that is there. -/
theorem Fs.create_of_dir {fs : Fs} {p : List Char} (data : Bytes) (hd : fs (dir p) = some .dir)
    (hp : fs p = none) : fs.create p data = .ok (Function.update fs p (some (.file data))) := by
  simp only [Fs.create, hd, hp]

/-- **One copy of the loop is one placed file.** On a staging disk where the directory's
directories are there, the file's path is free and, for `keys` and `data`, nothing but a
directory stands at the accelerator's path, copying a shard file whose `RETR` carries its bytes
leaves what `HandleFile` of the file leaves. -/
theorem copyFile_shardFile {srv : FtpServer} {sd L id : List Char} {fs : Fs} {f : Ftype × Bytes}
    (hL : Proper L) (hid : GoodId id) (htp : f.1 ∈ shardFileTypes)
    (hretr : srv.retr (sd ++ '/' :: f.1.filepath id) = .ok (f.2, none))
    (hpre : ∀ q ∈ pathPrefixes L, fs q = some .dir)
    (hacc : inAccelDir f.1 = true → fs (L ++ '/' :: Ftype.accelFile.filepath id) = none ∨
      fs (L ++ '/' :: Ftype.accelFile.filepath id) = some .dir)
    (hfree : fs (L ++ '/' :: f.1.filepath id) = none) :
    copyFile srv sd L (sd ++ '/' :: f.1.filepath id) fs = (.ok (), placeShardFile L id fs f) := by
  have hjoin := join_slash hL (filepath_plain hid htp)
  have hname : trimPrefix (sd ++ '/' :: f.1.filepath id) sd = '/' :: f.1.filepath id :=
    trimPrefix_append _ _
  by_cases hin : inAccelDir f.1 = true
  · -- `keys` or `data`: the accelerator directory is made first
    have hA : IsElem (id ++ ".accel".data) := hid.elem (by decide)
    obtain ⟨k, hk, hP⟩ : ∃ k, IsElem k ∧ f.1.filepath id = id ++ ".accel".data ++ '/' :: k := by
      obtain ⟨tp, b⟩ := f
      cases tp <;> simp only [inAccelDir, Bool.false_eq_true] at hin
      · exact ⟨"keys".data, by decide, filepath_keys hid⟩
      · exact ⟨"data".data, by decide, filepath_data hid⟩
    have hdirname : dir ('/' :: f.1.filepath id) = '/' :: (id ++ ".accel".data) := by
      rw [hP, show '/' :: (id ++ ".accel".data ++ '/' :: k) = ('/' :: (id ++ ".accel".data)) ++
        '/' :: k by simp]
      exact (proper_root_of_elem hA).dir_append hk.2.1
    have hdirP : dir (L ++ '/' :: f.1.filepath id) = L ++ '/' :: (id ++ ".accel".data) := by
      rw [hP, show L ++ '/' :: (id ++ ".accel".data ++ '/' :: k) =
        (L ++ '/' :: (id ++ ".accel".data)) ++ '/' :: k by simp]
      exact (hL.clean_append hA.split_elem).2.dir_append hk.2.1
    have hne : L ++ '/' :: f.1.filepath id ≠ L ++ '/' :: (id ++ ".accel".data) := by simp [hP]
    have hcreate := @Fs.create_of_dir
      (Function.update fs (L ++ '/' :: (id ++ ".accel".data)) (some .dir)) _ []
      (by rw [hdirP, Function.update_same]) (by rw [Function.update_noteq hne, hfree])
    simp only [copyFile, hname, hdirname, ne_eq, reduceCtorEq, not_false_eq_true, if_true,
      join_slash hL hA.split_elem, Fs.mkdirAll_append_elem hL hA hpre (hacc hin), hjoin, hcreate,
      hretr, Function.update_idem, placeShardFile, hin]
    rfl
  · -- a file directly in the directory
    have hs : '/' ∉ f.1.filepath id := by
      obtain ⟨tp, b⟩ := f
      simp only [shardFileTypes, List.mem_cons, List.mem_singleton, List.not_mem_nil,
        or_false] at htp
      rcases htp with rfl | rfl | rfl | rfl | rfl | rfl <;>
        first | exact absurd rfl hin | exact (hid.elem (by decide)).2.1
    have hdirname : dir ('/' :: f.1.filepath id) = ['/'] := by
      rw [dir, show '/' :: f.1.filepath id = [] ++ '/' :: f.1.filepath id from rfl,
        splitPath_append hs]
      rfl
    have hjoin₀ : join [L, ['/']] = L := by
      rw [hL.join_cons, show ['/'].intercalate [L, ['/']] = L ++ '/' :: '/' :: [] by
        simp [List.intercalate], clean_sep_sep hL.ne_nil, hL.clean_slash]
    have hcreate := Fs.create_of_dir []
      (by rw [hL.dir_append hs]; exact hpre L (Proper.pathPrefixes hL).1) hfree
    simp only [copyFile, hname, hdirname, ne_eq, reduceCtorEq, not_false_eq_true, if_true,
      hjoin₀, Fs.mkdirAll_of_dirs hpre, hjoin, hcreate, hretr, Function.update_idem,
      placeShardFile, hin]
    rfl

/-! ## The walk -/

/-- The entries of a `LIST` reply the walker keeps: all but `.` and `..`. -/
def kept (es : List (List Char × EntryType)) : List (List Char × EntryType) :=
  es.filter fun e => e.1 ≠ ['.'] ∧ e.1 ≠ ['.', '.']

/-- What `Walker.Next` pushes for the folder `p` listed as `es`: its entries' paths, the one
to visit next first. -/
def Walker.children (p : List Char) (es : List (List Char × EntryType)) :
    List (List Char × EntryType) :=
  ((kept es).map fun e => (join [p, e.1], e.2)).reverse

/-- The walker at the head of the entries left to visit. -/
def Walker.pop : List (List Char × EntryType) → Option Walker
  | [] => none
  | e :: st => some ⟨e, st⟩

theorem Walker.next_folder {srv : FtpServer} {p : List Char} {es st}
    (h : srv.list p = .ok es) :
    Walker.next srv ⟨(p, .folder), st⟩ = Walker.pop (Walker.children p es ++ st) := by
  simp only [Walker.next, h, if_true]
  show (match some (Walker.children p es ++ st) with
    | some (e :: st) => some (⟨e, st⟩ : Walker) | _ => none) = _
  generalize Walker.children p es ++ st = l
  cases l <;> rfl

theorem Walker.next_folder_error {srv : FtpServer} {p : List Char} {c : Nat} {st}
    (h : srv.list p = .error c) : Walker.next srv ⟨(p, .folder), st⟩ = none := by
  simp only [Walker.next, h, if_true]

theorem Walker.next_of_ne_folder {srv : FtpServer} {e : List Char × EntryType} {st}
    (h : e.2 ≠ .folder) : Walker.next srv ⟨e, st⟩ = Walker.pop st := by
  simp only [Walker.next, h, if_false]
  cases st <;> rfl

/-- A walk that runs to its end: from the entries `P` left to visit, the walker visits the
regular files `fl`, in this order, in `n` turns of the loop. The last turn finds nothing left
(`done`), or a folder whose listing fails (`halt`). -/
inductive Walks (srv : FtpServer) : List (List Char × EntryType) → List (List Char) → Nat → Prop
  | done : Walks srv [] [] 1
  | file {p st fl n} : Walks srv st fl n → Walks srv ((p, .file) :: st) (p :: fl) (n + 1)
  | link {p st fl n} : Walks srv st fl n → Walks srv ((p, .link) :: st) fl (n + 1)
  | folder {p es st fl n} : srv.list p = .ok es → Walks srv (Walker.children p es ++ st) fl n →
      Walks srv ((p, .folder) :: st) fl (n + 1)
  | halt {p c st} : srv.list p = .error c → Walks srv ((p, .folder) :: st) [] 2

/-- The copies of the files `fl`, one after the other, up to the first that fails. -/
def copyAll (srv : FtpServer) (shardDir localDir : List Char) :
    List (List Char) → Fs → Except PullErr Unit × Fs
  | [], fs => (.ok (), fs)
  | p :: ps, fs =>
    match copyFile srv shardDir localDir p fs with
    | (.error e, fs) => (.error e, fs)
    | (.ok (), fs) => copyAll srv shardDir localDir ps fs

/-- **The copy loop over a walk.** Given the turns the walk takes, the loop copies the files
it visits, in order, and stops at the first copy that fails. -/
theorem copyWalk_of_walks {srv : FtpServer} {sd L : List Char} {P fl n}
    (hw : Walks srv P fl n) :
    ∀ {fuel w fs}, n ≤ fuel → w.next srv = Walker.pop P →
      copyWalk srv sd L fuel w fs = some (copyAll srv sd L fl fs) := by
  induction hw <;> intro fuel w fs hn hnext <;>
    obtain ⟨k, rfl⟩ : ∃ k, fuel = k + 1 := ⟨fuel - 1, by omega⟩ <;>
    rw [copyWalk_succ, hnext]
  case done => rfl
  case file p st fl n _ ih =>
    simp only [Walker.pop, copyAll]
    rcases copyFile srv sd L p fs with ⟨_ | ⟨⟩, fs'⟩
    · rfl
    · exact ih (by omega) (Walker.next_of_ne_folder (by simp))
  case link p st fl n _ ih => exact ih (by omega) (Walker.next_of_ne_folder (by simp))
  case folder p es st fl n hl _ ih => exact ih (by omega) (Walker.next_folder hl)
  case halt p c st hl =>
    obtain ⟨k, rfl⟩ : ∃ j, k = j + 1 := ⟨k - 1, by omega⟩
    simp only [Walker.pop, reduceCtorEq, if_false]
    rw [copyWalk_succ, Walker.next_folder_error hl]
    rfl

/-- Entries that are all regular files are visited in their order, a turn each. -/
theorem Walks.files {srv : FtpServer} {st fl n} (hw : Walks srv st fl n) :
    ∀ E : List (List Char × EntryType), (∀ e ∈ E, e.2 = .file) →
      Walks srv (E ++ st) (E.map Prod.fst ++ fl) (E.length + n)
  | [], _ => by simpa using hw
  | (p, t) :: E, hE => by
    obtain rfl : t = .file := hE _ (.head _)
    have := Walks.file (p := p) (hw.files E fun e he => hE e (.tail _ he))
    simpa [Nat.add_right_comm] using this

/-! ## The staged files -/

/-- Shard files of distinct types among the six, with no accelerator file beside `keys` or
`data`. -/
structure Distinct (fl : List (Ftype × Bytes)) : Prop where
  types : ∀ f ∈ fl, f.1 ∈ shardFileTypes
  nodup : (fl.map Prod.fst).Nodup
  accel : ∀ f ∈ fl, ∀ f' ∈ fl, inAccelDir f.1 = true → f'.1 ≠ .accelFile

theorem Distinct.tail {f : Ftype × Bytes} {fl} (h : Distinct (f :: fl)) : Distinct fl :=
  ⟨fun g hg => h.types g (.tail _ hg), (List.nodup_cons.mp h.nodup).2,
    fun a ha b hb => h.accel a (.tail _ ha) b (.tail _ hb)⟩

theorem Distinct.perm {fl fl' : List (Ftype × Bytes)} (h : Distinct fl) (p : List.Perm fl' fl) :
    Distinct fl' :=
  ⟨fun f hf => h.types f (p.subset hf), (p.map _).nodup_iff.mpr h.nodup,
    fun a ha b hb => h.accel a (p.subset ha) b (p.subset hb)⟩

theorem ShardFiles.distinct (sf : ShardFiles) : Distinct sf.files :=
  ⟨sf.files_wf.1, sf.files_wf.2.1, sf.files_wf.2.2.1⟩

section Staged

variable {L id : List Char}

/-- Two distinct files of a shard lie at different paths, neither at the accelerator's path
when the other lies in the accelerator directory. -/
theorem Distinct.paths_ne (hid : GoodId id) {fl} (h : Distinct fl) {f g : Ftype × Bytes}
    (hf : f ∈ fl) (hg : g ∈ fl) (hne : f.1 ≠ g.1) :
    L ++ '/' :: f.1.filepath id ≠ L ++ '/' :: g.1.filepath id ∧
      (inAccelDir g.1 = true → L ++ '/' :: f.1.filepath id ≠
        L ++ '/' :: Ftype.accelFile.filepath id) :=
  ⟨fun e => hne (filepath_inj hid (h.types f hf) (h.types g hg) (by simpa using e)),
    fun hin e => h.accel g hg f hf hin
      (filepath_inj hid (h.types f hf) (by decide) (by simpa using e))⟩

/-- The staging directory is ready for the files `fl`: the directories on its way are there,
the files' paths are free, and nothing but a directory stands at the accelerator's path. -/
structure Ready (fs : Fs) (L id : List Char) (fl : List (Ftype × Bytes)) : Prop where
  dirs : ∀ q ∈ pathPrefixes L, fs q = some .dir
  free : ∀ f ∈ fl, fs (L ++ '/' :: f.1.filepath id) = none
  accel : ∀ f ∈ fl, inAccelDir f.1 = true →
    fs (L ++ '/' :: Ftype.accelFile.filepath id) = none ∨
      fs (L ++ '/' :: Ftype.accelFile.filepath id) = some .dir

/-- Placing the first file keeps the directory ready for the rest. -/
theorem Ready.place (hL : Proper L) (hid : GoodId id) {fs : Fs} {f : Ftype × Bytes} {fl}
    (hd : Distinct (f :: fl)) (h : Ready fs L id (f :: fl)) :
    Ready (placeShardFile L id fs f) L id fl := by
  have hother : ∀ g ∈ fl, f.1 ≠ g.1 := fun g hg e =>
    (List.nodup_cons.mp hd.nodup).1 (List.mem_map.mpr ⟨g, hg, e.symm⟩)
  refine ⟨fun q hq => ?_, fun g hg => ?_, fun g hg hin => ?_⟩
  · rw [placeShardFile_apply_of_ne (pathPrefixes_ne_below hL hq _)
      (fun _ => pathPrefixes_ne_below hL hq _), h.dirs q hq]
  · obtain ⟨h₁, h₂⟩ := hd.paths_ne (L := L) hid (.tail _ hg) (.head _) (hother g hg).symm
    rw [placeShardFile_apply_of_ne h₁ h₂, h.free g (.tail _ hg)]
  · -- `keys` or `data` placed now made the directory; otherwise it is untouched
    have hA := (hd.paths_ne (L := L) hid (.head _) (.tail _ hg) (hother g hg)).2 hin
    by_cases hf : inAccelDir f.1 = true
    · exact .inr (by simp [placeShardFile, hf, Function.update_noteq hA.symm])
    · rw [placeShardFile_apply_of_ne hA.symm (fun h => absurd h hf)]
      exact h.accel g (.tail _ hg) hin

/-- **The copies place the files.** From a ready staging directory, copying shard files of
distinct types whose `RETR`s carry their bytes leaves what `HandleFile` of each leaves. -/
theorem copyAll_place {srv : FtpServer} {sd : List Char} (hL : Proper L) (hid : GoodId id) :
    ∀ (fl : List (Ftype × Bytes)) (fs : Fs), Distinct fl →
      (∀ f ∈ fl, srv.retr (sd ++ '/' :: f.1.filepath id) = .ok (f.2, none)) →
      Ready fs L id fl →
      copyAll srv sd L (fl.map fun f => sd ++ '/' :: f.1.filepath id) fs =
        (.ok (), fl.foldl (placeShardFile L id) fs)
  | [], _, _, _, _ => rfl
  | f :: fl, fs, hd, hretr, hr => by
    rw [List.map_cons, copyAll, copyFile_shardFile hL hid (hd.types f (.head _))
      (hretr f (.head _)) hr.dirs (hr.accel f (.head _)) (hr.free f (.head _))]
    exact copyAll_place hL hid fl _ hd.tail (fun g hg => hretr g (.tail _ hg))
      (hr.place hL hid hd)

theorem placeShardFile_apply (fs : Fs) (f : Ftype × Bytes) (q : List Char) :
    placeShardFile L id fs f q =
      if q = L ++ '/' :: f.1.filepath id then some (.file f.2)
      else if inAccelDir f.1 = true ∧ q = L ++ '/' :: Ftype.accelFile.filepath id then some .dir
      else fs q := by
  unfold placeShardFile
  by_cases hin : inAccelDir f.1 = true <;> simp [Function.update_apply, hin]

/-- Placing two distinct files of a shard in either order leaves the same disk. -/
theorem placeShardFile_comm (hid : GoodId id) {fl} (hd : Distinct fl) {f g : Ftype × Bytes}
    (hf : f ∈ fl) (hg : g ∈ fl) (fs : Fs) :
    placeShardFile L id (placeShardFile L id fs f) g =
      placeShardFile L id (placeShardFile L id fs g) f := by
  by_cases he : f.1 = g.1
  · obtain rfl : f = g := List.inj_on_of_nodup_map hd.nodup hf hg he
    rfl
  obtain ⟨hfg, hfA⟩ := hd.paths_ne (L := L) hid hf hg he
  obtain ⟨-, hgA⟩ := hd.paths_ne (L := L) hid hg hf (Ne.symm he)
  funext q
  simp only [placeShardFile_apply]
  by_cases hqg : q = L ++ '/' :: g.1.filepath id
  · subst hqg
    simp only [if_pos rfl, if_neg hfg.symm, if_neg fun h : _ ∧ _ => hgA h.1 h.2]
  by_cases hqf : q = L ++ '/' :: f.1.filepath id
  · subst hqf
    simp only [if_pos rfl, if_neg hfg, if_neg fun h : _ ∧ _ => hfA h.1 h.2]
  simp only [hqg, hqf, if_false]
  split_ifs <;> simp_all

end Staged

/-- A permutation of a mapped list is the map of a permutation. -/
theorem perm_map_lift {α β : Type} {g : α → β} {l : List β} {fl : List α}
    (h : List.Perm l (fl.map g)) : ∃ fl', List.Perm fl' fl ∧ fl'.map g = l := by
  generalize hm : fl.map g = m at h
  induction h generalizing fl with
  | nil => exact ⟨[], by simp_all, rfl⟩
  | cons x _ ih =>
    obtain ⟨a, fl₀, rfl, rfl, hm₀⟩ := List.map_eq_cons_iff.mp hm
    obtain ⟨fl', hp, rfl⟩ := ih hm₀
    exact ⟨a :: fl', hp.cons a, rfl⟩
  | swap x y l =>
    obtain ⟨a, _, rfl, rfl, hm₀⟩ := List.map_eq_cons_iff.mp hm
    obtain ⟨b, fl₀, rfl, rfl, rfl⟩ := List.map_eq_cons_iff.mp hm₀
    exact ⟨b :: a :: fl₀, .swap a b fl₀, rfl⟩
  | trans _ _ ih₁ ih₂ =>
    obtain ⟨fl₂, hp₂, hm₂⟩ := ih₂ hm
    obtain ⟨fl₁, hp₁, rfl⟩ := ih₁ hm₂
    exact ⟨fl₁, hp₁.trans hp₂, rfl⟩

/-! ## A healthy server -/

/-- What a healthy server lists in a shard directory: the shard's files outside the
accelerator directory and, when there is one, the accelerator directory. -/
def topEntries (sf : ShardFiles) (id : List Char) : List (List Char × EntryType) :=
  (sf.files.filter fun f => !inAccelDir f.1).map (fun f => (f.1.filepath id, .file)) ++
    match sf.accel with
    | .dir _ _ => [(Ftype.accelFile.filepath id, .folder)]
    | _ => []

/-- A healthy server for the shard `sf` in the directory `sd`: the directory is there, the
listings of the directory and of its accelerator directory hold the shard's files in some
order, and each `RETR` of a file carries all its bytes. -/
structure FtpServer.Serves (srv : FtpServer) (sf : ShardFiles) (sd id : List Char) : Prop where
  exists_dir : srv.dirExists sd = true
  top : ∃ es, srv.list sd = .ok es ∧ List.Perm (kept es) (topEntries sf id)
  accel : ∀ k d, sf.accel = .dir k d → ∃ es,
    srv.list (sd ++ '/' :: Ftype.accelFile.filepath id) = .ok es ∧
      List.Perm (kept es) [("keys".data, .file), ("data".data, .file)]
  retr : ∀ f ∈ sf.files, srv.retr (sd ++ '/' :: f.1.filepath id) = .ok (f.2, none)

theorem Walker.children_perm {p : List Char} {es X : List (List Char × EntryType)}
    (h : List.Perm (kept es) X) :
    List.Perm (Walker.children p es) (X.map fun e => (join [p, e.1], e.2)) :=
  (List.reverse_perm _).trans (h.map _)

/-- Regular files listed in any order are visited in that order, a turn each. -/
theorem Walks.files_perm {srv : FtpServer} {st fl n} (hw : Walks srv st fl n)
    {E : List (List Char × EntryType)} {ps : List (List Char)}
    (h : List.Perm E (ps.map (·, EntryType.file))) :
    List.Perm (E.map Prod.fst) ps ∧ Walks srv (E ++ st) (E.map Prod.fst ++ fl) (ps.length + n) := by
  have hfile : ∀ e ∈ E, e.2 = .file := fun e he => by
    obtain ⟨p, -, rfl⟩ := List.mem_map.mp (h.subset he); rfl
  refine ⟨by simpa [Function.comp_def] using h.map Prod.fst, ?_⟩
  simpa [h.length_eq] using hw.files E hfile

section Shard

variable {srv : FtpServer} {sf : ShardFiles} {sd id : List Char}

/-- **The walk of a healthy shard directory.** Whatever order the server lists in, the walk
visits every file of the shard once, in at most a turn per file, one for the accelerator
directory and one to end. -/
theorem walks_shard (hsd : Proper sd) (hid : GoodId id) (h : srv.Serves sf sd id) {es}
    (hes : srv.list sd = .ok es) :
    ∃ vis n, Walks srv (Walker.children sd es) vis n ∧
      List.Perm vis (sf.files.map fun f => sd ++ '/' :: f.1.filepath id) ∧
      n ≤ sf.files.length + 2 := by
  obtain ⟨es', hes', hperm⟩ := h.top
  rw [hes, Except.ok.injEq] at hes'
  subst hes'
  have hsplit := (List.filter_append_perm (fun f => !inAccelDir f.1) sf.files).map
    fun f => sd ++ '/' :: f.1.filepath id
  rw [List.map_append] at hsplit
  -- the listed top files, at their paths on the server
  set tops := sf.files.filter fun f => !inAccelDir f.1
  have htops : (tops.map fun f => (f.1.filepath id, EntryType.file)).map
      (fun e => (join [sd, e.1], e.2)) = (tops.map fun f => sd ++ '/' :: f.1.filepath id).map
        (·, EntryType.file) := by
    simp only [List.map_map]
    exact List.map_congr_left fun f hf => by
      simp [hsd.join_pair (filepath_plain hid (sf.files_wf.1 f (List.mem_filter.mp hf).1))]
  have hc := Walker.children_perm (p := sd) hperm
  rw [topEntries, List.map_append, htops] at hc
  -- with no accelerator directory, every listed entry is a file
  have flat (hno : ∀ k d, sf.accel ≠ .dir k d) (hc : List.Perm (Walker.children sd es)
      ((tops.map fun f => sd ++ '/' :: f.1.filepath id).map (·, EntryType.file))) :
      ∃ vis n, Walks srv (Walker.children sd es) vis n ∧
        List.Perm vis (sf.files.map fun f => sd ++ '/' :: f.1.filepath id) ∧
        n ≤ sf.files.length + 2 := by
    have htf : tops = sf.files := List.filter_eq_self.mpr fun f hf => by
      cases hi : inAccelDir f.1
      · rfl
      · obtain ⟨k, d, h⟩ := sf.accel_of_inAccelDir f hf hi; exact absurd h (hno k d)
    rw [htf] at hc
    obtain ⟨hv, hw⟩ := Walks.done.files_perm hc
    exact ⟨_, _, by simpa using hw, hv, by simp⟩
  rcases hacc : sf.accel with _ | _ | ⟨k, d⟩
  · simp only [hacc, List.map_nil, List.append_nil] at hc; exact flat (by simp [hacc]) hc
  · simp only [hacc, List.map_nil, List.append_nil] at hc; exact flat (by simp [hacc]) hc
  -- the accelerator directory: its two files are visited when the walk reaches it
  simp only [hacc, List.map_cons, List.map_nil] at hc
  obtain ⟨esA, hesA, hpermA⟩ := h.accel k d hacc
  have hA : IsElem (Ftype.accelFile.filepath id) := hid.elem (by decide)
  have hsdA : Proper (sd ++ '/' :: Ftype.accelFile.filepath id) :=
    (hsd.clean_append hA.split_elem).2
  rw [hsd.join_pair hA.split_elem] at hc
  have haccs : (sf.files.filter fun f => !!inAccelDir f.1).map
      (fun f => sd ++ '/' :: f.1.filepath id) =
      [sd ++ '/' :: Ftype.accelFile.filepath id ++ '/' :: "keys".data,
        sd ++ '/' :: Ftype.accelFile.filepath id ++ '/' :: "data".data] := by
    obtain ⟨v, i, st, a⟩ := sf
    cases hacc
    cases v <;> simp [ShardFiles.files, inAccelDir, filepath_keys hid, filepath_data hid] <;>
      simp [Ftype.filepath]
  have hK : List.Perm (Walker.children (sd ++ '/' :: Ftype.accelFile.filepath id) esA)
      (((sf.files.filter fun f => !!inAccelDir f.1).map
        fun f => sd ++ '/' :: f.1.filepath id).map (·, EntryType.file)) := by
    rw [haccs]
    refine (Walker.children_perm hpermA).trans (.of_eq ?_)
    simp only [List.map_cons, List.map_nil, hsdA.join_pair (show ∀ e ∈ split "keys".data '/',
      IsElem e by decide), hsdA.join_pair (show ∀ e ∈ split "data".data '/', IsElem e by decide)]
  -- the listing splits at the accelerator directory
  obtain ⟨E₁, E₂, hE⟩ := List.append_of_mem (hc.symm.subset (List.mem_append_right _ (.head _)))
  rw [hE] at hc ⊢
  have h12 := (List.perm_cons _).mp ((List.perm_middle.symm.trans hc).trans
    (List.perm_append_singleton _ _))
  have hfile : ∀ e ∈ E₁ ++ E₂, e.2 = .file := fun e he => by
    obtain ⟨p, -, rfl⟩ := List.mem_map.mp (h12.subset he); rfl
  obtain ⟨hvK, wK⟩ :=
    (Walks.done.files E₂ fun e he => hfile e (List.mem_append_right _ he)).files_perm hK
  have w := (Walks.folder hesA wK).files E₁ fun e he => hfile e (List.mem_append_left _ he)
  simp only [List.append_nil] at w
  refine ⟨_, _, w, ?_, ?_⟩
  · have h12' := h12.map Prod.fst
    simp only [List.map_map, Function.comp_def, List.map_id'] at h12'
    refine List.Perm.trans ?_ ((h12'.append hvK).trans hsplit)
    simpa using List.perm_append_comm.append_left (E₁.map Prod.fst)
  · have h1 := h12.length_eq
    have h2 := hsplit.length_eq
    simp only [List.length_append, List.length_map, haccs, List.length_cons,
      List.length_nil] at h1 h2 ⊢
    omega

end Shard

/-- `ftpstore.PackShard` whose walk copies, in some order, the files of a shard, each `RETR`
carrying all its bytes, onto a staging directory that holds nothing yet: it streams the
shard's entries. -/
theorem ftpPackShard_of_walk {srv : FtpServer} {sf : ShardFiles} {fs : Fs}
    {baseDir localStore well n sd L : List Char} {cid : UInt64} {idx : BitVec 128}
    {fuel k : Nat} {es : List (List Char × EntryType)} {fl : List (Ftype × Bytes)}
    (hsd : join [indexerDir baseDir cid idx, well, n] = sd)
    (hL : join [localStore, decimal cid.toNat, uuidString idx, well, n] = L)
    (hn : IsElem n) (hid : GoodId (trimVersion n)) (hex : srv.dirExists sd = true)
    (hes : srv.list sd = .ok es)
    (hw : Walks srv (Walker.children sd es)
      (fl.map fun f => sd ++ '/' :: f.1.filepath (trimVersion n)) k)
    (hfl : List.Perm fl sf.files)
    (hretr : ∀ f ∈ fl, srv.retr (sd ++ '/' :: f.1.filepath (trimVersion n)) = .ok (f.2, none))
    (hway : ∀ q ∈ pathPrefixes L, ∀ d, fs q ≠ some (.file d))
    (hbelow : ∀ rest, fs (L ++ '/' :: rest) = none) (hk : k ≤ fuel) :
    FtpStore.packShard srv fs baseDir localStore cid idx well n fuel =
      some (.ok (sf.entries n)) := by
  have pL : Proper L := hL ▸ proper_join [_, _, _, _] hn
  -- `MkdirAll` makes the staging directory, and leaves it empty
  obtain ⟨fs₁, hmk, hpre, hfr⟩ := Fs.mkdirAll_ok hway
  have hfree₁ : ∀ rest, fs₁ (L ++ '/' :: rest) = none := fun rest => by
    rw [hfr _ fun hq => pathPrefixes_ne_below pL hq rest rfl, hbelow]
  -- the walk copies the files, in an order whose placements land as the shard's do
  have hd : Distinct fl := sf.distinct.perm hfl
  have hrun : copyWalk srv sd L fuel ⟨(sd, .folder), []⟩ fs₁ =
      some (copyAll srv sd L (fl.map fun f => sd ++ '/' :: f.1.filepath (trimVersion n)) fs₁) :=
    copyWalk_of_walks hw hk (by rw [Walker.next_folder hes, List.append_nil])
  have hcopy := copyAll_place pL hid fl fs₁ hd hretr
    ⟨hpre, fun _ _ => hfree₁ _, fun _ _ _ => .inl (hfree₁ _)⟩
  rw [hfl.foldl_eq' (fun x hx y hy z => placeShardFile_comm hid hd hx hy z) fs₁] at hcopy
  have hon : sf.OnDisk (sf.files.foldl (placeShardFile L (trimVersion n)) fs₁) L (trimVersion n) :=
    ⟨by rw [placeAll_of_ne _ fs₁ fun f _ => ⟨by simp, fun _ => by simp⟩,
      hpre L (Proper.pathPrefixes pL).1], fun tp htp => sf.foldl_place_node hid hfree₁ htp⟩
  obtain ⟨p, hp, hwr, he⟩ := addShardFilesToPacker_onDisk hon pL hid
  subst hsd hL
  simp [FtpStore.packShard, hex, hmk, hrun, hcopy, packStaged, hp, Packer.flush, hwr,
    Packer.close, he, Except.mapError]

/-- `ftpstore.PackShard` against a healthy server, with enough turns of the copy loop, streams
the shard's entries. -/
theorem ftpPackShard_of_serves {srv : FtpServer} {sf : ShardFiles} {fs : Fs}
    {baseDir localStore well n : List Char} {cid : UInt64} {idx : BitVec 128} {fuel : Nat}
    (hn : IsElem n) (hid : GoodId (trimVersion n))
    (hsrv : srv.Serves sf (join [indexerDir baseDir cid idx, well, n]) (trimVersion n))
    (hway : ∀ q ∈ pathPrefixes (join [localStore, decimal cid.toNat, uuidString idx, well, n]),
      ∀ d, fs q ≠ some (.file d))
    (hbelow : ∀ rest,
      fs (join [localStore, decimal cid.toNat, uuidString idx, well, n] ++ '/' :: rest) = none)
    (hfuel : sf.files.length + 2 ≤ fuel) :
    FtpStore.packShard srv fs baseDir localStore cid idx well n fuel =
      some (.ok (sf.entries n)) := by
  obtain ⟨es, hes, -⟩ := hsrv.top
  obtain ⟨vis, k, hw, hvis, hk⟩ := walks_shard (proper_join [_, _] hn) hid hsrv hes
  obtain ⟨fl, hfl, rfl⟩ := perm_map_lift hvis
  exact ftpPackShard_of_walk rfl rfl hn hid hsrv.exists_dir hes hw hfl
    (fun f hf => hsrv.retr f (hfl.subset hf)) hway hbelow (by omega)

/-- **The FTP backend pulls what the local backend packs.** A server that serves a shard's
files, in any order, pulled into a staging directory that holds nothing yet, with enough turns
of the copy loop: `ftpstore.PackShard` streams what `filestore.PackShard` streams from a
directory that holds the same files. -/
theorem ftpPackShard_refines_filestore {srv : FtpServer} {sf : ShardFiles} {fs fs' : Fs}
    {baseDir localStore well n : List Char} {cid : UInt64} {idx : BitVec 128} {fuel : Nat}
    (hn : IsElem n) (hid : GoodId (trimVersion n))
    (hsrc : sf.OnDisk fs' (join [indexerDir baseDir cid idx, well, n]) (trimVersion n))
    (hsrv : srv.Serves sf (join [indexerDir baseDir cid idx, well, n]) (trimVersion n))
    (hway : ∀ q ∈ pathPrefixes (join [localStore, decimal cid.toNat, uuidString idx, well, n]),
      ∀ d, fs q ≠ some (.file d))
    (hbelow : ∀ rest,
      fs (join [localStore, decimal cid.toNat, uuidString idx, well, n] ++ '/' :: rest) = none)
    (hfuel : sf.files.length + 2 ≤ fuel) :
    FtpStore.packShard srv fs baseDir localStore cid idx well n fuel =
      some ((Filestore.packShard fs' baseDir cid idx well n).mapError .shard) := by
  rw [packShard_onDisk hn hid hsrc]
  exact ftpPackShard_of_serves hn hid hsrv hway hbelow hfuel

/-- Shard `x` with an index and a store, on a server that lists the store first, pulled onto an
empty disk. -/
theorem ftpPackShard_refines_filestore_x :
    let sf : ShardFiles := ⟨none, [2], [1], .none⟩
    let sd := join [indexerDir "/data".data 7 0, "w".data, "x".data]
    let srv : FtpServer :=
      ⟨fun p => p = sd,
       fun p => if p = sd then .ok [("x.store".data, .file), ("x.index".data, .file)]
         else .error 550,
       fun p => if p = sd ++ '/' :: "x.index".data then .ok ([2], none)
         else if p = sd ++ '/' :: "x.store".data then .ok ([1], none) else .error 550⟩
    let disk : Fs := fun p => if p = sd then some .dir
      else if p = sd ++ '/' :: "x.index".data then some (.file [2])
      else if p = sd ++ '/' :: "x.store".data then some (.file [1]) else none
    let empty : Fs := fun _ => none
    (IsElem "x".data ∧ GoodId (trimVersion "x".data) ∧ sf.OnDisk disk sd (trimVersion "x".data) ∧
      srv.Serves sf sd (trimVersion "x".data) ∧
      (∀ q ∈ pathPrefixes (join ["/local".data, decimal 7, uuidString 0, "w".data, "x".data]),
        ∀ d, empty q ≠ some (.file d)) ∧
      (∀ rest, empty (join ["/local".data, decimal 7, uuidString 0, "w".data, "x".data] ++
        '/' :: rest) = none) ∧ sf.files.length + 2 ≤ 4) ∧
    FtpStore.packShard srv empty "/data".data "/local".data 7 0 "w".data "x".data 4 =
      some ((Filestore.packShard disk "/data".data 7 0 "w".data "x".data).mapError .shard) := by
  intro sf sd srv disk empty
  have hid : trimVersion "x".data = "x".data := by decide
  have hgood : GoodId "x".data := by unfold GoodId; decide
  have honDisk : sf.OnDisk disk sd (trimVersion "x".data) := by
    refine ⟨if_pos rfl, ?_⟩
    simp only [shardFileTypes, List.mem_cons, List.not_mem_nil, or_false, forall_eq_or_imp,
      forall_eq, hid, disk, filepath_keys hgood, filepath_data hgood]
    simp [ShardFiles.node, ShardFiles.files, Ftype.filepath, sf]
  have hserves : srv.Serves sf sd (trimVersion "x".data) := by
    refine ⟨by simp [srv], ⟨[("x.store".data, .file), ("x.index".data, .file)],
      by simp [srv], ?_⟩, fun _ _ h => Accel.noConfusion h, ?_⟩
    · rw [hid]; decide
    · simp [ShardFiles.files, sf, srv, hid, Ftype.filepath]
  have hgood' : GoodId (trimVersion "x".data) := hid ▸ hgood
  exact ⟨⟨by decide, hgood', honDisk, hserves, fun _ _ _ h => Option.noConfusion h, fun _ => rfl,
    by decide⟩, ftpPackShard_refines_filestore (by decide) hgood' honDisk hserves
      (fun _ _ _ h => Option.noConfusion h) (fun _ => rfl) (by decide)⟩

/-- **A pull that misses or cuts files succeeds.** The server holds shard `x`: a store of two
bytes, an index, and an accelerator directory with `keys` and `data`; against a healthy server
the pull streams all four with their bytes. If the `LIST` of `x.accel` fails, the walk ends
there without an error, and the pull succeeds with the index and the store alone. If the data
connection of the store's `RETR` closes after one byte (the server reports the transfer
incomplete, in the reply `Close` reads), the pull succeeds with a one-byte store. -/
theorem ftpPackShard_succeeds_on_partial_copy :
    let fresh : Fs := fun p => if p = "/local".data then some .dir else none
    let sd := join [indexerDir "/data".data 7 0, "w".data, "x".data]
    let healthy : FtpServer :=
      ⟨fun p => p = sd,
       fun p =>
        if p = sd then .ok [("x.accel".data, .folder), ("x.index".data, .file), ("x.store".data, .file)]
        else if p = join [sd, "x.accel".data] then .ok [("keys".data, .file), ("data".data, .file)]
        else .error 550,
       fun p =>
        if p = join [sd, "x.store".data] then .ok ([1, 1], none)
        else if p = join [sd, "x.index".data] then .ok ([2], none)
        else if p = join [sd, "x.accel/keys".data] then .ok ([3], none)
        else if p = join [sd, "x.accel/data".data] then .ok ([4], none)
        else .error 550⟩
    let pull (srv : FtpServer) :=
      FtpStore.packShard srv fresh "/data".data "/local".data 7 0 "w".data "x".data 10
    pull healthy = some (.ok [⟨"x.index".data, typeReg, [2]⟩, ⟨"x.store".data, typeReg, [1, 1]⟩,
        ⟨"keys".data, typeReg, [3]⟩, ⟨"data".data, typeReg, [4]⟩]) ∧
      pull { healthy with
        list := fun p => if p = join [sd, "x.accel".data] then .error 451 else healthy.list p } =
        some (.ok [⟨"x.index".data, typeReg, [2]⟩, ⟨"x.store".data, typeReg, [1, 1]⟩]) ∧
      pull { healthy with
        retr := fun p => if p = join [sd, "x.store".data] then .ok ([1], none) else healthy.retr p } =
        some (.ok [⟨"x.index".data, typeReg, [2]⟩, ⟨"x.store".data, typeReg, [1]⟩,
          ⟨"keys".data, typeReg, [3]⟩, ⟨"data".data, typeReg, [4]⟩]) := by
  intro fresh sd healthy pull
  have hn : IsElem "x".data := by decide
  have hx : trimVersion "x".data = "x".data := by decide
  have hgx : GoodId "x".data := by unfold GoodId; decide
  have hgood : GoodId (trimVersion "x".data) := hx ▸ hgx
  have psd : Proper sd := proper_join [_, _] hn
  -- the server's paths, and the staging directory on the fresh disk
  have hj : ∀ r : List Char, (∀ e ∈ split r '/', IsElem e) → join [sd, r] = sd ++ '/' :: r :=
    fun r hr => psd.join_pair hr
  have hL : join ["/local".data, decimal (7 : UInt64).toNat, uuidString 0, "w".data, "x".data] =
      "/local/7/00000000-0000-0000-0000-000000000000/w/x".data := by rfl
  have hway : ∀ q ∈ pathPrefixes (join ["/local".data, decimal (7 : UInt64).toNat,
      uuidString 0, "w".data, "x".data]), ∀ d, fresh q ≠ some (.file d) := fun q _ d => by
    simp only [fresh]; split <;> simp
  have hbelow : ∀ rest, fresh (join ["/local".data, decimal (7 : UInt64).toNat, uuidString 0,
      "w".data, "x".data] ++ '/' :: rest) = none := fun rest => by
    simp only [fresh, hL]
    exact if_neg fun h => by simpa using congrArg List.length h
  have hst : join [sd, "x.store".data] = sd ++ '/' :: "x.store".data := hj _ (by decide)
  have hix : join [sd, "x.index".data] = sd ++ '/' :: "x.index".data := hj _ (by decide)
  have hac : join [sd, "x.accel".data] = sd ++ '/' :: "x.accel".data := hj _ (by decide)
  have hke : join [sd, "x.accel/keys".data] = sd ++ '/' :: "x.accel/keys".data := hj _ (by decide)
  have hda : join [sd, "x.accel/data".data] = sd ++ '/' :: "x.accel/data".data := hj _ (by decide)
  have hfp : Ftype.index.filepath "x".data = "x.index".data ∧
      Ftype.store.filepath "x".data = "x.store".data ∧
      Ftype.indexAccelKeyFile.filepath "x".data = "x.accel/keys".data ∧
      Ftype.indexAccelDataFile.filepath "x".data = "x.accel/data".data :=
    ⟨rfl, rfl, by rw [filepath_keys hgx]; rfl, by rw [filepath_data hgx]; rfl⟩
  -- the healthy server serves the shard
  have hs₁ : healthy.Serves ⟨none, [2], [1, 1], .dir [3] [4]⟩ sd (trimVersion "x".data) := by
    refine ⟨by simp [healthy], ⟨[("x.accel".data, .folder), ("x.index".data, .file),
      ("x.store".data, .file)], by simp [healthy], by rw [hx]; decide⟩,
      fun _ _ _ => ⟨[("keys".data, .file), ("data".data, .file)],
        by simp [healthy, hx, hac, Ftype.filepath], by decide⟩, ?_⟩
    simp [ShardFiles.files, healthy, hx, hst, hix, hke, hda, hfp]
  refine ⟨?_, ?_, ?_⟩
  · -- the healthy pull streams the shard
    simp only [pull]
    rw [ftpPackShard_of_serves hn hgood hs₁ hway hbelow (by decide)]
    rfl
  · -- the walk ends at the accelerator directory, having copied the store and the index
    set srv₂ : FtpServer := { healthy with
      list := fun p => if p = join [sd, "x.accel".data] then .error 451 else healthy.list p }
    have hes : srv₂.list sd = .ok [("x.accel".data, .folder), ("x.index".data, .file),
        ("x.store".data, .file)] := by simp [srv₂, healthy, hac]
    have hhalt : srv₂.list (sd ++ '/' :: "x.accel".data) = .error 451 := by simp [srv₂, hac]
    have hfl : List.Perm [(Ftype.store, ([1, 1] : Bytes)), (Ftype.index, [2])]
        (ShardFiles.files ⟨none, [2], [1, 1], .none⟩) := .swap _ _ _
    have hw : Walks srv₂ (Walker.children sd [("x.accel".data, .folder), ("x.index".data, .file),
        ("x.store".data, .file)]) ([(Ftype.store, ([1, 1] : Bytes)), (Ftype.index, [2])].map
          fun f => sd ++ '/' :: f.1.filepath (trimVersion "x".data)) 4 := by
      simp [Walker.children, kept, hx, hfp, hst, hix, hac]
      exact .file (.file (.halt hhalt))
    have hretr : ∀ f ∈ [(Ftype.store, ([1, 1] : Bytes)), (Ftype.index, [2])],
        srv₂.retr (sd ++ '/' :: f.1.filepath (trimVersion "x".data)) = .ok (f.2, none) := by
      simp [srv₂, healthy, hx, hst, hix, hfp]
    have hex : srv₂.dirExists sd = true := by simp [srv₂, healthy]
    simp only [pull]
    rw [ftpPackShard_of_walk rfl rfl hn hgood hex hes hw hfl hretr hway hbelow (by decide)]
    rfl
  · -- the store's cut transfer serves a shard whose store holds one byte
    have hs₃ : FtpServer.Serves { healthy with
        retr := fun p => if p = join [sd, "x.store".data] then .ok ([1], none) else healthy.retr p }
        ⟨none, [2], [1], .dir [3] [4]⟩ sd (trimVersion "x".data) := by
      refine ⟨hs₁.exists_dir, hs₁.top, hs₁.accel, ?_⟩
      simp [ShardFiles.files, healthy, hx, hst, hix, hke, hda, hfp]
    simp only [pull]
    rw [ftpPackShard_of_serves hn hgood hs₃ hway hbelow (by decide)]
    rfl

end CloudArchive.Store
