import CloudArchive.ShardPacker.RoundTrip

/-!
# Shard packer — the streams `Unpack` accepts

With callbacks that succeed, `Unpacker.Unpack` accepts a stream iff its entries are regular
files with known names, each `tagsupdate` payload decodes, the tracker admits the sequence of
their types, and the lenient `allFilesHit` check passes at the end. `Acceptable` states these
conditions on the stream itself. `Ftracker.hitAll_isSome_iff` shows the tracker admits a
sequence iff it repeats no type and never has the accelerator file together with `keys` or
`data`, and `unpack_ok_iff` puts the pieces together.
-/

namespace CloudArchive.ShardPacker

/-- A name `FilenameToType` knows, apart from `tagsupdate`: `keys`, `data`, `tags`, or an
extension `.store`, `.index`, `.verify` or `.accel`. -/
def KnownName (n : List Char) : Prop :=
  n = "keys".data ∨ n = "data".data ∨ n = wellTagsFilename ∨
    ext n ∈ [".store".data, ".index".data, ".verify".data, ".accel".data]

/-- The type an entry stands for: `TagsUpdate` for `tagsupdate`, else its name's type. -/
def entryType (e : Entry) : Option Ftype :=
  if e.name = tagupdateFilename then some .tagsUpdate
  else (filenameToType e.name : Except (CodecErr Empty) Ftype).toOption

/-- The streams `Unpack` accepts, in the words of the stream: regular files only; every name
but `tagsupdate` known; every `tagsupdate` payload decodes; no type twice; the accelerator
file never with `keys` or `data`; a store; and `keys` iff `data`. -/
structure Acceptable (gob : GobCodec) (es : List Entry) : Prop where
  regular : ∀ e ∈ es, e.typeflag = typeReg
  named : ∀ e ∈ es, e.name ≠ tagupdateFilename → KnownName e.name
  decodes : ∀ e ∈ es, e.name = tagupdateFilename → (gob.decode e.data).isSome
  once : (es.filterMap entryType).Nodup
  accel : ¬ (.accelFile ∈ es.filterMap entryType ∧
    (.indexAccelKeyFile ∈ es.filterMap entryType ∨ .indexAccelDataFile ∈ es.filterMap entryType))
  store : .store ∈ es.filterMap entryType
  keysData : .indexAccelKeyFile ∈ es.filterMap entryType ↔
    .indexAccelDataFile ∈ es.filterMap entryType

/-! ## Names -/

/-- `FilenameToType` does not depend on the handler's error type. -/
theorem filenameToType_toOption {ε ε' : Type} (n : List Char) :
    (filenameToType n : Except (CodecErr ε) Ftype).toOption =
      (filenameToType n : Except (CodecErr ε') Ftype).toOption := by
  simp only [filenameToType, apply_ite Except.toOption]
  rfl

/-- Past `tagsupdate`, the names `FilenameToType` types are the known ones. -/
theorem knownName_iff {n : List Char} (h : n ≠ tagupdateFilename) :
    KnownName n ↔ ∃ ft, (filenameToType n : Except (CodecErr Empty) Ftype) = .ok ft := by
  simp only [filenameToType, apply_ite (fun x : Except (CodecErr Empty) Ftype => ∃ ft, x = .ok ft),
    Except.ok.injEq, exists_eq', reduceCtorEq, exists_false, if_true_left, if_neg h, KnownName,
    List.mem_cons, List.not_mem_nil, or_false, or_iff_not_imp_left]

/-! ## The tracker -/

/-- `hitType` admits a type iff it was not hit, the accelerator file comes without `keys` and
`data`, and `keys` and `data` come without the accelerator file. -/
theorem Ftracker.hitType_none_iff (t : Ftracker) (x : Ftype) :
    (t.hitType x).1 = none ↔ t.hit x = false ∧
      (x = .accelFile → t.hit .indexAccelKeyFile = false ∧ t.hit .indexAccelDataFile = false) ∧
      (x = .indexAccelKeyFile ∨ x = .indexAccelDataFile → t.hit .accelFile = false) := by
  cases x <;> simp [Ftracker.hitType, Ftracker.hit] <;> tauto

/-- A run of `hitType` marks exactly the types of the run. -/
theorem Ftracker.hitAll_hit {t t' : Ftracker} {ts : List Ftype} (h : t.hitAll ts = some t')
    (y : Ftype) : t'.hit y = (t.hit y || decide (y ∈ ts)) := by
  induction ts generalizing t with
  | nil => cases h; simp
  | cons x ts ih =>
    rw [Ftracker.hitAll] at h
    rcases hx : t.hitType x with ⟨_ | m, t₁⟩ <;> rw [hx] at h
    · have h₁ := Ftracker.hit_hitType t x y
      rw [hx] at h₁
      rw [ih h, h₁]
      by_cases e : x = y
      · subst e; simp
      · simp [beq_false_of_ne e, Ne.symm e]
    · cases h

/-- The sequences of types the tracker admits: no type twice, and the accelerator file never
together with `keys` or `data`. -/
def Admissible (ts : List Ftype) : Prop :=
  ts.Nodup ∧ ¬ (.accelFile ∈ ts ∧ (.indexAccelKeyFile ∈ ts ∨ .indexAccelDataFile ∈ ts))

theorem Admissible.of_append {l m : List Ftype} (h : Admissible (l ++ m)) : Admissible l :=
  ⟨h.1.sublist (List.sublist_append_left l m), fun ⟨ha, hkd⟩ =>
    h.2 ⟨List.mem_append_left m ha, hkd.imp (List.mem_append_left m) (List.mem_append_left m)⟩⟩

/-- One more type keeps a sequence admissible iff it is new and does not bring the accelerator
file and `keys` or `data` together. -/
theorem admissible_append_singleton {seen : List Ftype} (hs : Admissible seen) (x : Ftype) :
    Admissible (seen ++ [x]) ↔ x ∉ seen ∧
      (x = .accelFile → .indexAccelKeyFile ∉ seen ∧ .indexAccelDataFile ∉ seen) ∧
      (x = .indexAccelKeyFile ∨ x = .indexAccelDataFile → .accelFile ∉ seen) := by
  obtain ⟨hnd, hacc⟩ := hs
  cases x <;> simp [Admissible, List.nodup_append, hnd] <;> tauto

/-- **The tracker's law.** From a tracker whose marks are the types `seen`, themselves
admissible, a run of `hitType` over `ts` is admitted iff `seen ++ ts` is admissible. -/
theorem Ftracker.hitAll_isSome_iff {seen : List Ftype} {t : Ftracker}
    (ht : ∀ y, t.hit y = decide (y ∈ seen)) (hs : Admissible seen) (ts : List Ftype) :
    (t.hitAll ts).isSome ↔ Admissible (seen ++ ts) := by
  induction ts generalizing seen t with
  | nil => simpa [Ftracker.hitAll] using hs
  | cons x ts ih =>
    have hx : (t.hitType x).1 = none ↔ Admissible (seen ++ [x]) := by
      rw [admissible_append_singleton hs, t.hitType_none_iff]
      simp [ht]
    rw [Ftracker.hitAll]
    rcases e : t.hitType x with ⟨_ | m, t₁⟩ <;> rw [e] at hx
    · have ht₁ : ∀ y, t₁.hit y = decide (y ∈ seen ++ [x]) := fun y => by
        have h₁ := Ftracker.hit_hitType t x y
        rw [e] at h₁
        by_cases h : x = y
        · subst h; simp_all
        · simp_all [beq_false_of_ne h, Ne.symm h]
      simpa using ih ht₁ (hx.mp rfl)
    · simp only [Option.isSome_none, Bool.false_eq_true, false_iff]
      exact fun h => absurd (hx.mpr (show Admissible (seen ++ [x] ++ ts) by simpa using h).of_append)
        (by simp)

/-! ## The loop -/

/-- An entry the loop takes, its callback succeeding: a regular file of a known type whose
payload, for `tagsupdate`, decodes. -/
def EntryOk (gob : GobCodec) (e : Entry) : Prop :=
  e.typeflag = typeReg ∧ (entryType e).isSome ∧ (e.name = tagupdateFilename → (gob.decode e.data).isSome)

theorem entryType_isSome_iff (e : Entry) :
    (entryType e).isSome ↔ (e.name ≠ tagupdateFilename → KnownName e.name) := by
  by_cases hn : e.name = tagupdateFilename
  · simp [entryType, hn]
  · rw [knownName_iff hn]
    simp only [entryType, hn, if_false, ne_eq, not_false_eq_true, forall_const]
    cases (filenameToType e.name : Except (CodecErr Empty) Ftype) <;> simp [Except.toOption]

/-- Past `tagsupdate`, an entry's type is what `FilenameToType` says, whatever the handler's
error type. -/
theorem entryType_eq_toOption {ε : Type} {name : List Char} (f : Char) (d : Bytes)
    (hn : name ≠ tagupdateFilename) :
    entryType ⟨name, f, d⟩ = (filenameToType name : Except (CodecErr ε) Ftype).toOption := by
  simp only [entryType, hn, if_false]
  exact filenameToType_toOption name

/-- **The loop's law.** With callbacks that succeed, the loop ends with tracker `t'` iff every
entry is taken and the tracker's run over the entries' types ends in `t'`. -/
theorem unpackEntries_ok_iff {σ ε : Type} {gob : GobCodec} {id : List Char} {h : UnpackHandler σ ε}
    (hf : ∀ p d s, (h.handleFile p d s).1 = .ok ()) (ht : ∀ tps s, (h.handleTagUpdate tps s).1 = .ok ()) :
    ∀ (es : List Entry) (t t' : Ftracker) (s : σ), (unpackEntries gob id h t es s).1 = .ok t' ↔
      (∀ e ∈ es, EntryOk gob e) ∧ t.hitAll (es.filterMap entryType) = some t'
  | [], t, t', s => by simp [unpackEntries, Ftracker.hitAll, eq_comm]
  | ⟨name, flag, data⟩ :: es, t, t', s => by
    by_cases hreg : flag = typeReg
    swap
    · simp [unpackEntries, hreg, EntryOk]
    subst hreg
    by_cases hn : name = tagupdateFilename
    · subst hn
      have hty : entryType ⟨tagupdateFilename, typeReg, data⟩ = some .tagsUpdate := by
        simp [entryType]
      rcases hd : gob.decode data with _ | ts
      · simp [unpackEntries, hd, EntryOk]
      obtain ⟨s₁, hs₁⟩ : ∃ s₁, h.handleTagUpdate ts s = (.ok (), s₁) := ⟨_, Prod.ext (ht ts s) rfl⟩
      rcases hx : t.hitType .tagsUpdate with ⟨_ | m, t₁⟩
      · rw [unpackEntries, if_neg (by simp), if_pos rfl]
        simp only [hd, hs₁, hx]
        rw [unpackEntries_ok_iff hf ht es t₁ t' s₁]
        simp [List.filterMap_cons, hty, Ftracker.hitAll, hx, EntryOk, hd]
      · simp [unpackEntries, hd, hs₁, hx, List.filterMap_cons, hty, Ftracker.hitAll]
    · rcases hft : (filenameToType name : Except (CodecErr ε) Ftype) with err | ft
      · have hty : entryType ⟨name, typeReg, data⟩ = none := by
          rw [@entryType_eq_toOption ε _ typeReg data hn, hft]; rfl
        simp [unpackEntries, hn, hft, EntryOk, hty]
      have hty : entryType ⟨name, typeReg, data⟩ = some ft := by
        rw [@entryType_eq_toOption ε _ typeReg data hn, hft]; rfl
      obtain ⟨s₁, hs₁⟩ : ∃ s₁, h.handleFile (ft.filepath id) data s = (.ok (), s₁) :=
        ⟨_, Prod.ext (hf _ _ _) rfl⟩
      rcases hx : t.hitType ft with ⟨_ | m, t₁⟩
      · rw [unpackEntries_cons_file h hn hft hx hs₁, unpackEntries_ok_iff hf ht es t₁ t' s₁]
        simp [List.filterMap_cons, hty, Ftracker.hitAll, hx, EntryOk, hn]
      · simp [unpackEntries, hn, hft, hx, List.filterMap_cons, hty, Ftracker.hitAll]

/-! ## The streams `Unpack` accepts -/

theorem acceptable_iff {gob : GobCodec} {es : List Entry} :
    Acceptable gob es ↔ (∀ e ∈ es, EntryOk gob e) ∧ Admissible (es.filterMap entryType) ∧
      .store ∈ es.filterMap entryType ∧
      (.indexAccelKeyFile ∈ es.filterMap entryType ↔ .indexAccelDataFile ∈ es.filterMap entryType) :=
  ⟨fun a => ⟨fun e he => ⟨a.regular e he, (entryType_isSome_iff e).mpr (a.named e he), a.decodes e he⟩,
      ⟨a.once, a.accel⟩, a.store, a.keysData⟩,
    fun ⟨hok, ⟨h₁, h₂⟩, h₃, h₄⟩ => ⟨fun e he => (hok e he).1,
      fun e he => (entryType_isSome_iff e).mp (hok e he).2.1, fun e he => (hok e he).2.2, h₁, h₂, h₃, h₄⟩⟩

/-- **What `Unpack` accepts.** With callbacks that succeed, `Unpack` returns `nil` on a stream
iff its entries are regular files; every name but `tagsupdate` is `keys`, `data`, `tags` or has
the extension `.store`, `.index`, `.verify` or `.accel`; every `tagsupdate` payload decodes; no
type, `TagsUpdate` included, occurs twice; the accelerator file never comes with `keys` or
`data`; a store comes; and `keys` comes iff `data` does. -/
theorem unpack_ok_iff {σ ε : Type} (gob : GobCodec) (id : List Char) (es : List Entry)
    (h : UnpackHandler σ ε) (s : σ) (hf : ∀ p d s, (h.handleFile p d s).1 = .ok ())
    (ht : ∀ tps s, (h.handleTagUpdate tps s).1 = .ok ()) :
    (unpack gob id es h s).1 = .ok () ↔ Acceptable gob es := by
  have hadm := @Ftracker.hitAll_isSome_iff [] .empty (by simp) ⟨List.nodup_nil, by simp⟩
    (es.filterMap entryType)
  rw [acceptable_iff, unpack]
  rcases hu : unpackEntries gob (trimVersion id) h .empty es s with ⟨_ | t', s'⟩
  · refine iff_of_false (by simp) fun ⟨hok, hA, _⟩ => ?_
    obtain ⟨t', ht'⟩ := Option.isSome_iff_exists.mp (hadm.mpr (by simpa using hA))
    have hrun : (unpackEntries gob (trimVersion id) h .empty es s).1 = .ok t' :=
      (unpackEntries_ok_iff hf ht es .empty t' s).mpr ⟨hok, ht'⟩
    rw [hu] at hrun
    cases hrun
  · obtain ⟨hok, ht'⟩ := (@unpackEntries_ok_iff σ ε gob (trimVersion id) h hf ht es .empty t' s).mp
      (by rw [hu])
    have hA : Admissible (es.filterMap entryType) := by simpa using hadm.mp (by rw [ht']; rfl)
    have hhit := Ftracker.hitAll_hit ht'
    have hlen := Ftracker.allFilesHit_lenient t'
    rw [and_iff_right hok, and_iff_right hA]
    simp only
    rcases ha : t'.allFilesHit false with _ | m <;> rw [ha] at hlen
    · simpa [hhit] using hlen
    · simpa [hhit] using hlen

/-- A stream of one store file is accepted by the logging handler's `Unpack`. -/
theorem unpack_ok_iff_store_only :
    ((unpack gobModel "a".data [⟨"a.store".data, typeReg, [7]⟩] logHandler []).1 = .ok () ↔
      Acceptable gobModel [⟨"a.store".data, typeReg, [7]⟩]) ∧
      Acceptable gobModel [⟨"a.store".data, typeReg, [7]⟩] :=
  ⟨unpack_ok_iff gobModel "a".data _ logHandler [] (fun _ _ _ => rfl) (fun _ _ => rfl),
    (unpack_ok_iff gobModel "a".data _ logHandler [] (fun _ _ _ => rfl) (fun _ _ => rfl)).mp rfl⟩

end CloudArchive.ShardPacker
