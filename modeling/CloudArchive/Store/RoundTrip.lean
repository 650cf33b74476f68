import CloudArchive.Store.ShardDir

/-!
# Store — `UnpackShard` puts back what `PackShard` packed

The unpacking side of the filestore backend, on the disk model of `Store.Filestore`:

* `MkdirAll` of a proper path makes exactly its missing prefixes (`Fs.mkdirAll_ok`);
* the handler's `clean` keeps a path built from a good id, so `HandleFile` writes each file
  where the packer read it, making the accelerator directory first for `keys` and `data`
  (`Filestore.handleFile_shardFile`); `placeShardFile` is that write;
* the unpacker hands the entries to the handler in order, and its tracker accepts them
  (`unpackEntries_place`, by induction over the files);
* so the new directory holds what the source directory held, and nothing else
  (`filestore_pack_unpack_roundtrip`).

The good-id hypothesis is needed: for the shard `.5` the handler's `clean` strips the
leading dot, and the files come back renamed (see `Store.Filestore`).
-/

namespace CloudArchive.Store

open CloudArchive CloudArchive.ShardPacker

/-! ## `MkdirAll` -/

theorem intercalate_take_isPrefixOf (l : List (List Char)) (k : Nat) :
    ['/'].intercalate (l.take k) <+: ['/'].intercalate l := by
  induction l generalizing k with
  | nil => simp
  | cons x xs ih =>
    rcases k with _ | k
    · simp [List.intercalate]
    · rcases xs with _ | ⟨y, ys⟩
      · simp
      · rcases k with _ | k
        · simp only [List.take_succ_cons, List.take_zero, intercalate_cons_cons]
          simp [List.intercalate]
        · simp only [List.take_succ_cons, intercalate_cons_cons]
          have := ih (k + 1)
          simp only [List.take_succ_cons] at this
          exact (List.prefix_append_right_inj _).mpr (List.prefix_cons_inj _ |>.mpr this)

/-- The directories `MkdirAll` walks through for a proper path end at the path itself, and
each is a prefix of it. -/
theorem Proper.pathPrefixes {b : List Char} (hb : Proper b) :
    b ∈ pathPrefixes b ∧ ∀ q ∈ pathPrefixes b, q <+: b := by
  obtain ⟨ro, st, hn, hne, rfl⟩ := hb
  have hes : (split (render ro st) '/').filter (· ≠ []) = st.reverse := by
    rw [split_render hn hne]
    have : st.reverse.filter (· ≠ []) = st.reverse :=
      List.filter_eq_self.mpr fun e he => by simpa using (hn.elem (List.mem_reverse.mp he)).1
    cases ro <;> simpa using this
  have hroot := head_render hn hne []
  rw [List.append_nil] at hroot
  have hr : (if (render ro st).head? = some '/' then ('/' :: ·) else id) =
      (if ro then ('/' :: ·) else (id : List Char → List Char)) := by
    cases ro <;> simp_all
  unfold CloudArchive.Store.pathPrefixes
  simp only [hes, hr]
  have hlast : st.length - 1 < st.reverse.length := by
    rw [List.length_reverse]; exact Nat.sub_lt (List.length_pos.mpr hne) Nat.one_pos
  refine ⟨List.mem_map.mpr ⟨st.length - 1, List.mem_range.mpr hlast, ?_⟩, ?_⟩
  · rw [Nat.sub_add_cancel (List.length_pos.mpr hne), ← List.length_reverse,
      List.take_length, render_eq hn hne]
    cases ro <;> rfl
  · rintro q hq
    obtain ⟨k, -, rfl⟩ := List.mem_map.mp hq
    rw [render_eq hn hne]
    cases ro
    · exact intercalate_take_isPrefixOf _ _
    · exact List.prefix_cons_inj _ |>.mpr (intercalate_take_isPrefixOf _ _)

/-- A walk over directories whose every step makes its directory and changes nothing else. -/
theorem foldlM_makes {f : Fs → List Char → Except FsErr Fs}
    (hf : ∀ fs q, (∀ d, fs q ≠ some (.file d)) →
      ∃ fs₁, f fs q = .ok fs₁ ∧ fs₁ q = some .dir ∧
        ∀ q', q' ≠ q → fs₁ q' = fs q')
    (qs : List (List Char)) {fs : Fs} (h : ∀ q ∈ qs, ∀ d, fs q ≠ some (.file d)) :
    ∃ fs', qs.foldlM f fs = .ok fs' ∧ (∀ q ∈ qs, fs' q = some .dir) ∧
      ∀ q ∉ qs, fs' q = fs q := by
  induction qs generalizing fs with
  | nil => exact ⟨fs, rfl, by simp, fun _ _ => rfl⟩
  | cons q qs ih =>
    obtain ⟨fs₁, h₁, hq, hfr⟩ := hf fs q (h q (.head _))
    have h' : ∀ q' ∈ qs, ∀ d, fs₁ q' ≠ some (.file d) := by
      intro q' hq' d
      by_cases e : q' = q
      · rw [e, hq]; simp
      · rw [hfr q' e]; exact h q' (.tail _ hq') d
    obtain ⟨fs', h₂, hdir, hframe⟩ := ih h'
    refine ⟨fs', by rw [List.foldlM_cons, h₁]; exact h₂, fun q' hq' => ?_, fun q' hq' => ?_⟩
    · by_cases e : q' ∈ qs
      · exact hdir q' e
      · rw [hframe q' e, List.eq_of_mem_singleton (show q' ∈ [q] by simpa [e] using hq'), hq]
    · simp only [List.mem_cons, not_or] at hq'
      rw [hframe q' hq'.2, hfr q' hq'.1]

/-- `MkdirAll` succeeds when no directory on the way is a regular file: it makes the missing
ones and changes nothing else. -/
theorem Fs.mkdirAll_ok {fs : Fs} {p : List Char}
    (h : ∀ q ∈ pathPrefixes p, ∀ d, fs q ≠ some (.file d)) :
    ∃ fs', fs.mkdirAll p = .ok fs' ∧ (∀ q ∈ pathPrefixes p, fs' q = some .dir) ∧
      ∀ q ∉ pathPrefixes p, fs' q = fs q := by
  refine foldlM_makes (fun fs q hq => ?_) _ h
  rcases hfq : fs q with _ | _ | _
  · exact ⟨Function.update fs q (some .dir), by simp only [hfq], by simp,
      fun q' hq' => by simp [hq']⟩
  · exact absurd hfq (hq _)
  · exact ⟨fs, by simp only [hfq], hfq, fun _ _ => rfl⟩

theorem trimLeft_of_head {c : Char} {t : List Char} (hc : c ≠ '.' ∧ c ≠ '/') :
    trimLeft (c :: t) "./".data = c :: t := by
  simp [trimLeft, hc.1, hc.2]

theorem GoodId.trimLeft {id : List Char} (hid : GoodId id) (s t : List Char) :
    trimLeft (id ++ s ++ t) "./".data = id ++ s ++ t := by
  obtain ⟨hne, hsl, hdot⟩ := hid
  obtain ⟨c, u, rfl⟩ := List.exists_cons_of_ne_nil hne
  exact trimLeft_of_head ⟨fun e => hdot (by simp [e]), fun e => hsl (by simp [e])⟩

/-- The handler's `clean` keeps a file named after a good id. -/
theorem Filestore.clean_top {id s : List Char} (hid : GoodId id) (hs : '/' ∉ s) :
    Filestore.clean (id ++ s) = ([], id ++ s) := by
  have he := hid.elem hs
  have ht := hid.trimLeft s []
  rw [List.append_nil] at ht
  simp only [Filestore.clean, he.proper.clean_eq, ht, splitPath_of_not_mem he.2.1]
  simp [base]

/-- ... and a file in a directory named after a good id. -/
theorem Filestore.clean_nested {id s f : List Char} (hid : GoodId id) (hs : '/' ∉ s)
    (hf : IsElem f) : Filestore.clean (id ++ s ++ '/' :: f) = (id ++ s, f) := by
  have he := hid.elem hs
  have hp := (he.proper.clean_append hf.split_elem).1
  have hdot : id ++ s ≠ ['.'] := he.2.2.1
  simp only [Filestore.clean, hp, hid.trimLeft, splitPath_append hf.2.1, base_slash he, hdot,
    if_false]

/-! ## The handler's writes -/

section Handler

variable {sdir : List Char} {fs : Fs} {data : Bytes}

/-- `HandleFile` of a file named after a good id, directly in the shard directory. -/
theorem Filestore.handleFile_top {id s : List Char} (hsd : Proper sdir) (hdir : fs sdir = some .dir)
    (hid : GoodId id) (hs : '/' ∉ s) (hfree : fs (sdir ++ '/' :: (id ++ s)) ≠ some .dir) :
    Filestore.handleFile sdir (id ++ s) data fs =
      (.ok (), Function.update fs (sdir ++ '/' :: (id ++ s)) (some (.file data))) := by
  have he := hid.elem hs
  simp only [Filestore.handleFile, Filestore.clean_top hid hs, if_true, hsd.join_nil_elem he,
    Fs.create, hsd.dir_append he.2.1, hdir]

/-- `HandleFile` of a file in a directory named after a good id: the directory is made
when it is missing, then the file is written. -/
theorem Filestore.handleFile_nested {id s f : List Char} (hsd : Proper sdir)
    (hdir : fs sdir = some .dir) (hid : GoodId id) (hs : '/' ∉ s) (hf : IsElem f)
    (hd : fs (sdir ++ '/' :: (id ++ s)) = none ∨ fs (sdir ++ '/' :: (id ++ s)) = some .dir)
    (hfree : fs (sdir ++ '/' :: (id ++ s ++ '/' :: f)) ≠ some .dir) :
    Filestore.handleFile sdir (id ++ s ++ '/' :: f) data fs =
      (.ok (), Function.update (Function.update fs (sdir ++ '/' :: (id ++ s)) (some .dir))
        (sdir ++ '/' :: (id ++ s ++ '/' :: f)) (some (.file data))) := by
  have he := hid.elem hs
  have hsub := hsd.clean_append he.split_elem
  have hjoin : join [sdir, id ++ s, f] = sdir ++ '/' :: (id ++ s ++ '/' :: f) := by
    simpa using hsd.join_elems he hf
  have hdir' : dir (sdir ++ '/' :: (id ++ s ++ '/' :: f)) = sdir ++ '/' :: (id ++ s) := by
    simpa using hsub.2.dir_append hf.2.1
  have hne : sdir ++ '/' :: (id ++ s ++ '/' :: f) ≠ sdir ++ '/' :: (id ++ s) := by simp
  unfold Filestore.handleFile
  rw [Filestore.clean_nested hid hs hf]
  dsimp only
  rw [if_neg he.1, hsd.join_pair he.split_elem, hjoin]
  rw [List.append_assoc] at hfree hne hdir' ⊢
  rcases hd with hd | hd
  · -- `Mkdir` makes the directory
    rw [show fs.mkdir (sdir ++ '/' :: (id ++ s)) =
      .ok (Function.update fs (sdir ++ '/' :: (id ++ s)) (some .dir)) by
      simp [Fs.mkdir, hd, hsd.dir_append he.2.1, hdir]]
    dsimp only
    rw [Fs.create, hdir']
    simp [hne, hfree]
  · -- the directory is there: `Mkdir` fails with `ErrExist`, which the handler ignores
    have hsame : Function.update fs (sdir ++ '/' :: (id ++ s)) (some .dir) = fs := by
      rw [← hd]; exact Function.update_eq_self _ _
    rw [show fs.mkdir (sdir ++ '/' :: (id ++ s)) = .error .exist by simp [Fs.mkdir, hd]]
    dsimp only
    rw [Fs.create, hdir', hsame]
    simp [hd, hfree]

end Handler

/-! ## `UnpackShard` -/

/-- What `HandleFile` leaves on the disk for the shard file `f` written into `sdir`: the file
at its type's `Filepath`, and for `keys` and `data` the accelerator directory. -/
def placeShardFile (sdir id : List Char) (fs : Fs) (f : Ftype × Bytes) : Fs :=
  Function.update
    (if inAccelDir f.1 then
      Function.update fs (sdir ++ '/' :: Ftype.accelFile.filepath id) (some .dir)
    else fs)
    (sdir ++ '/' :: f.1.filepath id) (some (.file f.2))

@[simp] theorem Filestore.handler_handleFile (sdir : List Char)
    (tu : List Tags.TagPair → Fs → Except FsErr Unit × Fs) :
    (Filestore.handler sdir tu).handleFile = Filestore.handleFile sdir := by
  simp only [Filestore.handler]

/-- `HandleFile` of a shard file: it succeeds where the directory is there, nothing blocks the
accelerator directory and no directory stands at the file's path. -/
theorem Filestore.handleFile_shardFile {sdir id : List Char} {fs : Fs} {tp : Ftype} (data : Bytes)
    (htp : tp ∈ shardFileTypes) (hsd : Proper sdir) (hdir : fs sdir = some .dir) (hid : GoodId id)
    (hacc : inAccelDir tp = true →
      ∀ d, fs (sdir ++ '/' :: Ftype.accelFile.filepath id) ≠ some (.file d))
    (hfree : fs (sdir ++ '/' :: tp.filepath id) ≠ some .dir) :
    Filestore.handleFile sdir (tp.filepath id) data fs =
      (.ok (), placeShardFile sdir id fs (tp, data)) := by
  have hd : inAccelDir tp = true → fs (sdir ++ '/' :: Ftype.accelFile.filepath id) = none ∨
      fs (sdir ++ '/' :: Ftype.accelFile.filepath id) = some .dir := fun h => by
    rcases hf : fs (sdir ++ '/' :: Ftype.accelFile.filepath id) with _ | _ | _
    · exact .inl rfl
    · exact absurd hf (hacc h _)
    · exact .inr rfl
  simp only [shardFileTypes, List.mem_cons, List.mem_singleton, List.not_mem_nil, or_false] at htp
  rcases htp with rfl | rfl | rfl | rfl | rfl | rfl
  iterate 4 simpa [placeShardFile, inAccelDir] using
    (Filestore.handleFile_top hsd hdir hid (by decide) hfree : Filestore.handleFile _ _ data _ = _)
  · rw [filepath_keys hid] at hfree ⊢
    simpa [placeShardFile, inAccelDir, filepath_keys hid] using
      (Filestore.handleFile_nested hsd hdir hid (by decide) (by decide) (hd rfl) hfree :
        Filestore.handleFile _ _ data _ = _)
  · rw [filepath_data hid] at hfree ⊢
    simpa [placeShardFile, inAccelDir, filepath_data hid] using
      (Filestore.handleFile_nested hsd hdir hid (by decide) (by decide) (hd rfl) hfree :
        Filestore.handleFile _ _ data _ = _)

/-- `placeShardFile` changes nothing away from the file and, for `keys` and `data`, the
accelerator directory. -/
theorem placeShardFile_apply_of_ne {sdir id p : List Char} {fs : Fs} {f : Ftype × Bytes}
    (h₁ : p ≠ sdir ++ '/' :: f.1.filepath id)
    (h₂ : inAccelDir f.1 = true → p ≠ sdir ++ '/' :: Ftype.accelFile.filepath id) :
    placeShardFile sdir id fs f p = fs p := by
  unfold placeShardFile
  rw [Function.update_noteq h₁]
  split
  · next h => exact Function.update_noteq (h₂ h) _ _
  · rfl

/-- **The unpacker places the files.** Entries of distinct shard file types, with no
accelerator file next to `keys` or `data`, whose marks the tracker accepts, are handed to the
filestore handler in order; on a disk where the shard directory is there and the files' paths
are free, each lands at its `Filepath`. -/
theorem unpackEntries_place {gob : GobCodec} {sdir id n : List Char}
    {tu : List Tags.TagPair → Fs → Except FsErr Unit × Fs} (hsd : Proper sdir)
    (hid : GoodId id) :
    ∀ (fl : List (Ftype × Bytes)) (t t' : Ftracker) (fs : Fs),
      (∀ f ∈ fl, f.1 ∈ shardFileTypes) → (fl.map Prod.fst).Nodup →
      (∀ f ∈ fl, ∀ f' ∈ fl, inAccelDir f.1 = true → f'.1 ≠ .accelFile) →
      t.hitAll (fl.map Prod.fst) = some t' → fs sdir = some .dir →
      (∀ f ∈ fl, fs (sdir ++ '/' :: f.1.filepath id) = none) →
      (∀ f ∈ fl, inAccelDir f.1 = true →
        ∀ d, fs (sdir ++ '/' :: Ftype.accelFile.filepath id) ≠ some (.file d)) →
      unpackEntries gob id (Filestore.handler sdir tu) t
          (fl.map fun f => ⟨f.1.filename n, typeReg, f.2⟩) fs =
        (.ok t', fl.foldl (placeShardFile sdir id) fs)
  | [], t, t', fs, _, _, _, htr, _, _, _ => by cases htr; rfl
  | (tp, d) :: fl, t, t', fs, hty, hnd, hacc, htr, hdir, hfree, hblock => by
    have htp : tp ∈ shardFileTypes := hty _ (.head _)
    have hnd' := List.nodup_cons.mp hnd
    -- the tracker takes `tp`, then the rest
    obtain ⟨t₁, hhit, htr'⟩ : ∃ t₁, t.hitType tp = (none, t₁) ∧
        t₁.hitAll (fl.map Prod.fst) = some t' := by
      simp only [List.map_cons, Ftracker.hitAll] at htr
      split at htr
      · next t₁ h => exact ⟨t₁, h, htr⟩
      · cases htr
    obtain ⟨htype, hname⟩ :=
      @filenameToType_filename FsErr tp n (shardFileType_ne_tagsUpdate htp)
    have hh := Filestore.handleFile_shardFile d htp hsd hdir hid (hblock _ (.head _))
      (by rw [hfree _ (.head _)]; simp)
    rw [← Filestore.handler_handleFile sdir tu] at hh
    rw [List.map_cons, unpackEntries_cons_file _ hname htype hhit hh, List.foldl_cons]
    -- the rest's paths differ from this file's, and from the accelerator directory it makes
    have hother : ∀ f ∈ fl, sdir ++ '/' :: f.1.filepath id ≠ sdir ++ '/' :: tp.filepath id ∧
        (inAccelDir tp = true →
          sdir ++ '/' :: f.1.filepath id ≠ sdir ++ '/' :: Ftype.accelFile.filepath id) := by
      intro f hf
      have hf' : f.1 ∈ shardFileTypes := hty f (.tail _ hf)
      refine ⟨fun e => hnd'.1 ?_, fun ha e => hacc _ (.head _) f (.tail _ hf) ha ?_⟩
      · exact List.mem_map.mpr ⟨f, hf, filepath_inj hid hf' htp (by simpa using e)⟩
      · exact filepath_inj hid hf' (by decide) (by simpa using e)
    refine unpackEntries_place hsd hid fl t₁ t' _ (fun f hf => hty f (.tail _ hf)) hnd'.2
      (fun f hf f' hf' => hacc f (.tail _ hf) f' (.tail _ hf')) htr' ?_ ?_ ?_
    · -- the shard directory is still there
      rw [placeShardFile_apply_of_ne (by simp) (fun _ => by simp), hdir]
    · intro f hf
      rw [placeShardFile_apply_of_ne (hother f hf).1 (hother f hf).2]
      exact hfree f (.tail _ hf)
    · -- the accelerator directory is made by `keys`, or untouched
      intro f hf hin dd
      have hpath : sdir ++ '/' :: Ftype.accelFile.filepath id ≠ sdir ++ '/' :: tp.filepath id :=
        fun e => hacc f (.tail _ hf) _ (.head _) hin
          (filepath_inj hid htp (by decide) (by simpa using e.symm))
      by_cases htin : inAccelDir tp = true
      · simp [placeShardFile, htin, Function.update_noteq hpath]
      · rw [placeShardFile_apply_of_ne hpath (fun h => absurd h htin)]
        exact hblock f (.tail _ hf) hin dd

/-! ## The shard directory after the writes -/

section Placed

variable {sdir id : List Char}

/-- Writing files changes no path away from them and their accelerator directories. -/
theorem placeAll_of_ne {p : List Char} :
    ∀ (fl : List (Ftype × Bytes)) (fs : Fs),
      (∀ f ∈ fl, p ≠ sdir ++ '/' :: f.1.filepath id ∧
        (inAccelDir f.1 = true → p ≠ sdir ++ '/' :: Ftype.accelFile.filepath id)) →
      fl.foldl (placeShardFile sdir id) fs p = fs p
  | [], _, _ => rfl
  | f :: fl, fs, h => by
    rw [List.foldl_cons, placeAll_of_ne fl _ fun f' hf' => h f' (.tail _ hf'),
      placeShardFile_apply_of_ne (h f (.head _)).1 (h f (.head _)).2]

/-- A file written once, among files of distinct types, stays at its path. -/
theorem placeAll_file (hid : GoodId id) :
    ∀ (fl : List (Ftype × Bytes)) (fs : Fs), (∀ f ∈ fl, f.1 ∈ shardFileTypes) →
      (fl.map Prod.fst).Nodup →
      (∀ f ∈ fl, ∀ f' ∈ fl, inAccelDir f.1 = true → f'.1 ≠ .accelFile) →
      ∀ f ∈ fl, fl.foldl (placeShardFile sdir id) fs (sdir ++ '/' :: f.1.filepath id) =
        some (.file f.2)
  | [], _, _, _, _, f, hf => absurd hf (List.not_mem_nil f)
  | g :: fl, fs, hty, hnd, hacc, f, hf => by
    rw [List.foldl_cons]
    rcases List.mem_cons.mp hf with rfl | hf
    · -- `f` is written now, and no later write touches its path
      have hnd' := (List.nodup_cons.mp hnd).1
      rw [placeAll_of_ne fl _ fun f' hf' => ⟨fun e => hnd' (List.mem_map.mpr ⟨f', hf',
        filepath_inj hid (hty f' (.tail _ hf')) (hty f (.head _)) (by simpa using e.symm)⟩),
        fun hin e => hacc f' (.tail _ hf') f (.head _) hin
          (filepath_inj hid (hty f (.head _)) (by decide) (by simpa using e))⟩]
      simp [placeShardFile]
    · exact placeAll_file hid fl _ (fun f' hf' => hty f' (.tail _ hf')) (List.nodup_cons.mp hnd).2
        (fun a ha b hb => hacc a (.tail _ ha) b (.tail _ hb)) f hf

/-- Once `keys` or `data` is written, and no accelerator file is, the accelerator directory is
there. -/
theorem placeAll_accel (hid : GoodId id) :
    ∀ (fl : List (Ftype × Bytes)) (fs : Fs), (∀ f ∈ fl, f.1 ∈ shardFileTypes) →
      (∀ f ∈ fl, f.1 ≠ .accelFile) → (∃ f ∈ fl, inAccelDir f.1 = true) →
      fl.foldl (placeShardFile sdir id) fs (sdir ++ '/' :: Ftype.accelFile.filepath id) = some .dir
  | [], _, _, _, ⟨f, hf, _⟩ => absurd hf (List.not_mem_nil f)
  | g :: fl, fs, hty, hne, ⟨f, hf, hin⟩ => by
    rw [List.foldl_cons]
    by_cases hrest : ∃ f ∈ fl, inAccelDir f.1 = true
    · exact placeAll_accel hid fl _ (fun f' hf' => hty f' (.tail _ hf'))
        (fun f' hf' => hne f' (.tail _ hf')) hrest
    · -- `g` makes the directory, and no later write touches it
      have hg : inAccelDir g.1 = true := by
        rcases List.mem_cons.mp hf with rfl | hf
        · exact hin
        · exact absurd ⟨f, hf, hin⟩ hrest
      have hacc : ∀ f ∈ g :: fl,
          sdir ++ '/' :: Ftype.accelFile.filepath id ≠ sdir ++ '/' :: f.1.filepath id :=
        fun f hf e => hne f hf (filepath_inj hid (hty f hf) (by decide) (by simpa using e.symm))
      rw [placeAll_of_ne fl _ fun f' hf' =>
        ⟨hacc f' (.tail _ hf'), fun h => absurd ⟨f', hf', h⟩ hrest⟩]
      simp [placeShardFile, hg, Function.update_noteq (hacc g (.head _))]

end Placed

section Unpacked

variable {sdir id : List Char} {fs : Fs}

/-- Written into an empty directory, the files of `sf` leave at each type's path what a
directory holding `sf` has there. -/
theorem ShardFiles.foldl_place_node (sf : ShardFiles) (hid : GoodId id)
    (hfree : ∀ rest, fs (sdir ++ '/' :: rest) = none) {tp : Ftype} (htp : tp ∈ shardFileTypes) :
    sf.files.foldl (placeShardFile sdir id) fs (sdir ++ '/' :: tp.filepath id) = sf.node tp := by
  obtain ⟨hty, hnd, hacc, -⟩ := sf.files_wf
  by_cases hdir : ∃ k d, sf.accel = .dir k d ∧ tp = .accelFile
  · -- the accelerator directory, made by `keys`
    obtain ⟨k, d, h, rfl⟩ := hdir
    obtain ⟨g, hg, hin⟩ := sf.inAccelDir_files h
    rw [ShardFiles.node_accel h]
    exact placeAll_accel hid _ fs hty (fun f hf => hacc g hg f hf hin) ⟨g, hg, hin⟩
  rw [ShardFiles.node_of_not_dir fun k d h e => hdir ⟨k, d, h, e⟩]
  cases hfind : sf.files.find? (·.1 = tp) with
  | some f =>
    obtain rfl : f.1 = tp := by simpa using List.find?_some hfind
    exact placeAll_file hid _ fs hty hnd hacc f (List.mem_of_find?_eq_some hfind)
  | none =>
    -- no file of `sf` has type `tp`, so nothing is written at its path
    have hne : ∀ f ∈ sf.files, f.1 ≠ tp := by simpa using List.find?_eq_none.mp hfind
    rw [Option.map_none', placeAll_of_ne _ fs fun f hf => ⟨fun e => hne f hf
      (filepath_inj hid (hty f hf) htp (by simpa using e.symm)), fun hin e => ?_⟩, hfree]
    obtain ⟨k, d, hk⟩ := sf.accel_of_inAccelDir f hf hin
    exact hdir ⟨k, d, hk, filepath_inj hid htp (by decide) (by simpa using e)⟩

/-- Paths of the directory that are none of the six stay as they were. -/
theorem ShardFiles.foldl_place_other (sf : ShardFiles) {rest : List Char}
    (hrest : ∀ tp ∈ shardFileTypes, rest ≠ tp.filepath id) :
    sf.files.foldl (placeShardFile sdir id) fs (sdir ++ '/' :: rest) = fs (sdir ++ '/' :: rest) :=
  placeAll_of_ne _ fs fun f hf => ⟨fun e => hrest f.1 (sf.files_wf.1 f hf) (by simpa using e),
    fun _ e => hrest .accelFile (by decide) (by simpa using e)⟩

/-- The unpacker, fed the entries of `sf` and the handler of an empty directory, succeeds and
writes every file. -/
theorem ShardFiles.unpack_entries (sf : ShardFiles) {gob : GobCodec} {n : List Char}
    {tu : List Tags.TagPair → Fs → Except FsErr Unit × Fs} (hsd : Proper sdir)
    (hid : GoodId (trimVersion n)) (hdir : fs sdir = some .dir)
    (hfree : ∀ rest, fs (sdir ++ '/' :: rest) = none) :
    unpack gob n (sf.entries n) (Filestore.handler sdir tu) fs =
      (.ok (), sf.files.foldl (placeShardFile sdir (trimVersion n)) fs) := by
  obtain ⟨hty, hnd, hacc, t, ht, hall⟩ := sf.files_wf
  rw [unpack, ShardFiles.entries, unpackEntries_place hsd hid _ _ t fs hty hnd hacc ht hdir
    (fun _ _ => hfree _) (fun _ _ _ => by simp [hfree])]
  simp only [hall]

end Unpacked

theorem resolveShardDir_of_free {fs : Fs} {base d : List Char} {i fuel : Nat} (h : fs d = none) :
    resolveShardDir fs base (fuel + 1) i d = d :=
  if_pos h

/-- **`UnpackShard` puts back what `PackShard` packed.** Take a shard whose trimmed id is
not empty and does not start with `.`, in a directory holding the files `sf`. Unpack the
entries `PackShard` streams under a new directory of the same name, on a disk where that
directory is missing and no directory on its way is a regular file. Then each of the six
types' paths holds what it held in the source, nothing else is in the new directory, and
nothing outside it changes but the directories `MkdirAll` makes. -/
theorem filestore_pack_unpack_roundtrip (sf : ShardFiles) (gob : GobCodec)
    (tu : List Tags.TagPair → Fs → Except FsErr Unit × Fs) {fs fs' : Fs}
    {basedir basedir' well well' n : List Char} {cid cid' : UInt64} {idx idx' : BitVec 128}
    (hn : IsElem n) (hid : trimVersion n ≠ []) (hdot : (trimVersion n).head? ≠ some '.')
    (hsrc : sf.OnDisk fs (join [indexerDir basedir cid idx, well, n]) (trimVersion n))
    (hnew : fs' (join [indexerDir basedir' cid' idx', well', n]) = none)
    (hbelow : ∀ rest, fs' (join [indexerDir basedir' cid' idx', well', n] ++ '/' :: rest) = none)
    (hway : ∀ q ∈ pathPrefixes (join [indexerDir basedir' cid' idx', well', n]),
      ∀ d, fs' q ≠ some (.file d)) :
    ∃ fs'', Filestore.packShard fs basedir cid idx well n = .ok (sf.entries n) ∧
      Filestore.unpackShard gob fs' basedir' cid' idx' well' n (sf.entries n) tu = (.ok (), fs'') ∧
      sf.OnDisk fs'' (join [indexerDir basedir' cid' idx', well', n]) (trimVersion n) ∧
      (∀ rest, (∀ tp ∈ shardFileTypes, rest ≠ tp.filepath (trimVersion n)) →
        fs'' (join [indexerDir basedir' cid' idx', well', n] ++ '/' :: rest) = none) ∧
      ∀ q ∉ pathPrefixes (join [indexerDir basedir' cid' idx', well', n]),
        (∀ rest, q ≠ join [indexerDir basedir' cid' idx', well', n] ++ '/' :: rest) →
        fs'' q = fs' q := by
  have hgood := goodId_trimVersion hn hid hdot
  generalize hD : join [indexerDir basedir' cid' idx', well', n] = D at hnew hbelow hway ⊢
  have hproper : Proper D := hD ▸ proper_join [_, _] hn
  obtain ⟨fs₁, hmk, hpre, hfr⟩ := Fs.mkdirAll_ok hway
  have hD₁ : fs₁ D = some .dir := hpre D (Proper.pathPrefixes hproper).1
  -- a path below `D` is no prefix of `D`, so `MkdirAll` leaves the new directory empty
  have hfree₁ : ∀ rest, fs₁ (D ++ '/' :: rest) = none := fun rest => by
    rw [hfr _ fun hq => ?_, hbelow]
    have := ((Proper.pathPrefixes hproper).2 _ hq).length_le
    simp only [List.length_append, List.length_cons] at this
    omega
  refine ⟨sf.files.foldl (placeShardFile D (trimVersion n)) fs₁, packShard_onDisk hn hgood hsrc,
    ?_, ⟨?_, fun tp htp => sf.foldl_place_node hgood hfree₁ htp⟩,
    fun rest hrest => (sf.foldl_place_other hrest).trans (hfree₁ rest), fun q hq hout => ?_⟩
  · simp only [Filestore.unpackShard, hD, @resolveShardDir_of_free _ _ _ 1 9998 hnew, hmk,
      sf.unpack_entries hproper hgood hD₁ hfree₁]
  · rw [placeAll_of_ne _ fs₁ fun f _ => ⟨by simp, fun _ => by simp⟩, hD₁]
  · rw [placeAll_of_ne _ fs₁ fun f _ => ⟨hout _, fun _ => hout _⟩, hfr q hq]

/-- The shard `769f2` with an index, a store and an accelerator directory, copied from one
indexer to another on a disk that holds only `/data`. -/
theorem filestore_pack_unpack_roundtrip_769f2 :
    let n := "769f2".data
    let src := join [indexerDir "/data".data 7 0, "w".data, n]
    let dst := join [indexerDir "/data".data 7 1, "w".data, n]
    let sf : ShardFiles := ⟨none, [2], [1], .dir [3] [4]⟩
    let fs : Fs := fun p =>
      if p = src then some .dir
      else if p = src ++ "/769f2.index".data then some (.file [2])
      else if p = src ++ "/769f2.store".data then some (.file [1])
      else if p = src ++ "/769f2.accel".data then some .dir
      else if p = src ++ "/769f2.accel/keys".data then some (.file [3])
      else if p = src ++ "/769f2.accel/data".data then some (.file [4])
      else none
    let fs' : Fs := fun p => if p = "/data".data then some .dir else none
    ∃ fs'', Filestore.packShard fs "/data".data 7 0 "w".data n = .ok (sf.entries n) ∧
      Filestore.unpackShard gobModel fs' "/data".data 7 1 "w".data n (sf.entries n)
        (fun _ fs => (.ok (), fs)) = (.ok (), fs'') ∧
      sf.OnDisk fs'' dst (trimVersion n) ∧
      (∀ rest, (∀ tp ∈ shardFileTypes, rest ≠ tp.filepath (trimVersion n)) →
        fs'' (dst ++ '/' :: rest) = none) ∧
      ∀ q ∉ pathPrefixes dst, (∀ rest, q ≠ dst ++ '/' :: rest) → fs'' q = fs' q := by
  intro n src dst sf fs fs'
  have hlen : "/data".data.length < (join [indexerDir "/data".data 7 1, "w".data, n]).length := by
    decide
  exact filestore_pack_unpack_roundtrip sf gobModel _ (by decide) (by decide) (by decide)
    (by decide) (by decide)
    (fun rest => if_neg fun h => by
      have := congrArg List.length h; rw [List.length_append, List.length_cons] at this; omega)
    (fun q _ d => by simp only [fs']; split <;> simp)

end CloudArchive.Store
