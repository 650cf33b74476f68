import CloudArchive.ShardPacker.Codec

/-!
# ShardPacker — what the unpacker hands its handler

Run any sequence of successful `AddTags`, `AddWellTags` and `AddFile` calls on a packer and
close it; unpack the stream with a handler whose callbacks succeed and record themselves.
Each call produced one entry, and the unpacker turns that entry back into one callback: the
tag list for `AddTags`, the `tags` file for `AddWellTags`, and for `AddFile(tp, sz, r)` the
file `tp.Filepath(trimVersion id)` holding the first `sz` bytes of `r`. Both ends mark the
same types in the same order, so the unpacker's tracker ends where the packer's did, and the
lenient completeness check accepts iff a store file was added and the indexed accelerator's
`keys` and `data` came together.

The one exception is `AddFile(TagsUpdate, …)`: the packer accepts it, but its entry is named
`tagsupdate`, which the unpacker always decodes as a tag update.

The proof is a simulation: one lemma per entry kind, one lemma per call, an induction over
the calls.
-/

namespace CloudArchive.ShardPacker

open CloudArchive CloudArchive.Tags

/-- A packer call. -/
inductive PackCall
  | addTags (tps : List TagPair)
  | addWellTags (tgs : List String)
  | addFile (tp : Ftype) (sz : Nat) (r : Bytes)
  deriving DecidableEq

/-- The semantic type a call adds. -/
def PackCall.ftype : PackCall → Ftype
  | .addTags _ => .tagsUpdate
  | .addWellTags _ => .wellTags
  | .addFile tp _ _ => tp

/-- One call on the packer. -/
def Packer.call (gob : GobCodec) (p : Packer) : PackCall → Except PackErr Unit × Packer
  | .addTags tps => p.addTags gob tps
  | .addWellTags tgs => p.addWellTags tgs
  | .addFile tp sz r => p.addFile tp sz r

/-- The calls in order, stopping at the first error. -/
def Packer.calls (gob : GobCodec) (p : Packer) : List PackCall → Except PackErr Unit × Packer
  | [] => (.ok (), p)
  | c :: cs =>
    match p.call gob c with
    | (.error e, p) => (.error e, p)
    | (.ok (), p) => p.calls gob cs

/-- The stream of `NewPacker(id)` after `calls` and `Close`, when all of them succeed. -/
def packStream (gob : GobCodec) (id : List Char) (calls : List PackCall) : Option (List Entry) :=
  match (Packer.new id).calls gob calls with
  | (.ok (), p) =>
    match p.close with
    | (.ok (), p) => some p.entries
    | _ => none
  | _ => none

/-- A handler callback. -/
inductive Callback
  | file (path : List Char) (data : Bytes)
  | tagUpdate (tps : List TagPair)
  deriving DecidableEq

/-- The callback a call should come back as, for a packer made with `id`. -/
def PackCall.callback (id : List Char) : PackCall → Callback
  | .addTags tps => .tagUpdate tps
  | .addWellTags tgs => .file wellTagsFilename (wellTagsBytes tgs)
  | .addFile tp sz r => .file (tp.filepath (trimVersion id)) (r.take sz)

/-- A handler whose callbacks succeed and append themselves to a log. -/
def logHandler : UnpackHandler (List Callback) Empty :=
  ⟨fun p d log => (.ok (), log ++ [.file p d]), fun tps log => (.ok (), log ++ [.tagUpdate tps])⟩

/-! ## Names and types -/

theorem append_ne_of_not_suffix {l s t : List Char} (h : ¬ s <:+ t) : l ++ s ≠ t :=
  fun e => h (e ▸ List.suffix_append l s)

theorem ext_append_dot (id s : List Char) (hs : ∀ c ∈ s, c ≠ '.' ∧ c ≠ '/') :
    ext (id ++ '.' :: s) = '.' :: s := by
  have hs' : ∀ c ∈ s.reverse, decide (c ≠ '.' ∧ c ≠ '/') = true := by simpa using hs
  simp only [ext, List.span_eq_take_drop, List.reverse_append, List.reverse_cons,
    List.append_assoc, List.singleton_append, List.takeWhile_append_of_pos hs',
    List.dropWhile_append_of_pos hs']
  simp

/-- The entry of every type but `TagsUpdate` is typed back to its type. -/
theorem filenameToType_filename {ε : Type} (tp : Ftype) (id : List Char) (h : tp ≠ .tagsUpdate) :
    (filenameToType (tp.filename id) : Except (CodecErr ε) Ftype) = .ok tp ∧
      tp.filename id ≠ tagupdateFilename := by
  cases tp with
  | tagsUpdate => exact absurd rfl h
  | wellTags | indexAccelKeyFile | indexAccelDataFile =>
    exact ⟨rfl, by simp [Ftype.filename, tagupdateFilename, wellTagsFilename]⟩
  | store | index | verify | accelFile =>
    simp (disch := decide) [Ftype.filename, filenameToType, tagupdateFilename, wellTagsFilename,
      ext_append_dot, append_ne_of_not_suffix]

/-! ## The simulation -/

/-- The bit a tracker keeps for a type. -/
def Ftracker.hit (t : Ftracker) : Ftype → Bool
  | .store => t.storeHit
  | .index => t.indexHit
  | .verify => t.verifyHit
  | .accelFile => t.accelHit
  | .indexAccelKeyFile => t.accelKeyHit
  | .indexAccelDataFile => t.accelDataHit
  | .tagsUpdate => t.tagsUpdateHit
  | .wellTags => t.wellTagsHit

@[simp] theorem Ftracker.hit_hitType (t : Ftracker) (tp tp' : Ftype) :
    (t.hitType tp).2.hit tp' = (t.hit tp' || tp == tp') := by
  cases tp <;> cases tp' <;> simp [Ftracker.hitType, Ftracker.hit]

@[simp] theorem Ftracker.hit_empty (tp : Ftype) : Ftracker.empty.hit tp = false := by
  cases tp <;> rfl

/-- The lenient check accepts iff the store is there and `keys` and `data` come together. -/
theorem Ftracker.allFilesHit_lenient (t : Ftracker) :
    t.allFilesHit false = none ↔
      (t.hit .store ∧ (t.hit .indexAccelKeyFile ↔ t.hit .indexAccelDataFile)) := by
  obtain ⟨s, _, _, _, k, d, _, _⟩ := t
  cases s <;> cases k <;> cases d <;> simp [Ftracker.allFilesHit, Ftracker.hit]

/-- The unpacker's tracker after marking each of `tps` once, if no mark is refused. -/
def Ftracker.hitAll (t : Ftracker) : List Ftype → Option Ftracker
  | [] => some t
  | tp :: tps =>
    match t.hitType tp with
    | (none, t') => t'.hitAll tps
    | (some _, _) => none

/-- A successful packer call wrote exactly one entry, marking its type. -/
theorem Packer.addEntry_ok {p p' : Packer} {tp : Ftype} {sz : Nat} {r : Bytes}
    (h : p.addEntry tp sz r = (.ok (), p')) :
    p.tracker.hitType tp = (none, p'.tracker) ∧ p'.id = p.id ∧ p'.writable = true ∧
      p'.entries = p.entries ++ [⟨tp.filename p.id, typeReg, r.take sz⟩] := by
  unfold Packer.addEntry at h
  rcases hh : p.tracker.hitType tp with ⟨_ | m, t⟩ <;> simp only [hh] at h
  · split at h
    · cases h
    · split at h
      · cases h
      · cases h
        simp_all
  · cases h

/-- The unpacker's step on a regular file entry other than `tagsupdate` whose callback
succeeds, for any handler. -/
theorem unpackEntries_cons_file {σ ε : Type} {gob : GobCodec} (h : UnpackHandler σ ε)
    {id name : List Char} {data : Bytes} {es : List Entry} {t t' : Ftracker} {ft : Ftype}
    {s s' : σ} (hname : name ≠ tagupdateFilename)
    (hty : (filenameToType name : Except (CodecErr ε) Ftype) = .ok ft)
    (hhit : t.hitType ft = (none, t')) (hh : h.handleFile (ft.filepath id) data s = (.ok (), s')) :
    unpackEntries gob id h t (⟨name, typeReg, data⟩ :: es) s = unpackEntries gob id h t' es s' := by
  rw [unpackEntries, if_neg (by simp), if_neg hname, hty]
  simp only [hhit, hh]

/-- The unpacker's step on a regular file entry other than `tagsupdate`. -/
theorem unpackEntries_file {gob : GobCodec} {id name : List Char} {data : Bytes} {t t' : Ftracker}
    {ft : Ftype} (es : List Entry) (log : List Callback) (hname : name ≠ tagupdateFilename)
    (hty : (filenameToType name : Except (CodecErr Empty) Ftype) = .ok ft)
    (hhit : t.hitType ft = (none, t')) :
    unpackEntries gob id logHandler t (⟨name, typeReg, data⟩ :: es) log =
      unpackEntries gob id logHandler t' es (log ++ [.file (ft.filepath id) data]) :=
  unpackEntries_cons_file logHandler hname hty hhit rfl

/-- The unpacker's step on a `tagsupdate` entry that decodes. -/
theorem unpackEntries_tagsUpdate {gob : GobCodec} {id : List Char} {data : Bytes} {t t' : Ftracker}
    {ts : List TagPair} (es : List Entry) (log : List Callback) (hdec : gob.decode data = some ts)
    (hhit : t.hitType .tagsUpdate = (none, t')) :
    unpackEntries gob id logHandler t (⟨tagupdateFilename, typeReg, data⟩ :: es) log =
      unpackEntries gob id logHandler t' es (log ++ [.tagUpdate ts]) := by
  rw [unpackEntries, if_neg (by simp), if_pos rfl, hdec]
  simp only [logHandler, hhit]

/-- **One call, one callback.** The entry a successful call writes is read back, from the
packer's tracker before the call, as the call's callback, leaving the packer's tracker after
it. -/
theorem Packer.call_unpacks {gob : GobCodec} {p p' : Packer} {c : PackCall}
    (h : p.call gob c = (.ok (), p')) (hc : c.ftype ≠ .tagsUpdate ∨ ∃ tps, c = .addTags tps) :
    p'.id = p.id ∧ p'.tracker = (p.tracker.hitType c.ftype).2 ∧ ∃ e, p'.entries = p.entries ++ [e] ∧
      ∀ es log, unpackEntries gob (trimVersion p.id) logHandler p.tracker (e :: es) log =
        unpackEntries gob (trimVersion p.id) logHandler p'.tracker es (log ++ [c.callback p.id]) := by
  cases c with
  | addTags tps =>
    obtain ⟨hhit, hid, -, hent⟩ := Packer.addEntry_ok h
    rw [List.take_length] at hent
    refine ⟨hid, by simp [PackCall.ftype, hhit], _, hent, fun es log => ?_⟩
    exact unpackEntries_tagsUpdate es log (gob.decode_encode tps) hhit
  | addWellTags tgs =>
    obtain ⟨hhit, hid, -, hent⟩ := Packer.addEntry_ok h
    rw [List.take_length] at hent
    obtain ⟨hty, hname⟩ := @filenameToType_filename Empty .wellTags p.id (by decide)
    refine ⟨hid, by simp [PackCall.ftype, hhit], _, hent, fun es log => ?_⟩
    exact unpackEntries_file es log hname hty hhit
  | addFile tp sz r =>
    obtain ⟨hhit, hid, -, hent⟩ := Packer.addEntry_ok h
    have htp : tp ≠ .tagsUpdate := by simpa [PackCall.ftype] using hc
    obtain ⟨hty, hname⟩ := @filenameToType_filename Empty tp p.id htp
    refine ⟨hid, by simp [PackCall.ftype, hhit], _, hent, fun es log => ?_⟩
    exact unpackEntries_file es log hname hty hhit

/-- Successful calls: the first call succeeded, and the rest did from where it left off. -/
theorem Packer.calls_cons_ok {gob : GobCodec} {p p' : Packer} {c : PackCall} {cs : List PackCall}
    (h : p.calls gob (c :: cs) = (.ok (), p')) :
    ∃ q, p.call gob c = (.ok (), q) ∧ q.calls gob cs = (.ok (), p') := by
  simp only [Packer.calls] at h
  split at h
  · cases h
  · exact ⟨_, ‹_›, h⟩

/-- **The run lemma.** After successful calls, the unpacker reading the new entries from the
packer's first tracker reaches its last one, having logged each call's callback in order. -/
theorem Packer.calls_unpack {gob : GobCodec} :
    ∀ (cs : List PackCall) (p p' : Packer), p.calls gob cs = (.ok (), p') →
      (∀ c ∈ cs, c.ftype ≠ .tagsUpdate ∨ ∃ tps, c = .addTags tps) →
      p'.id = p.id ∧ (∀ tp, p'.tracker.hit tp = (p.tracker.hit tp || cs.any (·.ftype == tp))) ∧
      ∃ E, p'.entries = p.entries ++ E ∧ ∀ es log,
        unpackEntries gob (trimVersion p.id) logHandler p.tracker (E ++ es) log =
          unpackEntries gob (trimVersion p.id) logHandler p'.tracker es
            (log ++ cs.map (·.callback p.id))
  | [], p, p', h, _ => by
    cases h
    exact ⟨rfl, by simp, [], by simp, fun es log => by simp⟩
  | c :: cs, p, p', h, hcs => by
    obtain ⟨q, hc, h⟩ := Packer.calls_cons_ok h
    obtain ⟨hid, htr, e, hent, hstep⟩ := Packer.call_unpacks hc (hcs c (by simp))
    obtain ⟨hid', hhit', E, hent', hrun⟩ :=
      Packer.calls_unpack cs q p' h (fun c' hc' => hcs c' (by simp [hc']))
    rw [hid] at hrun
    refine ⟨hid'.trans hid, fun tp => ?_, e :: E, by simp [hent', hent], fun es log => ?_⟩
    · simp [hhit', htr, Bool.or_assoc]
    · rw [List.cons_append, hstep, hrun]
      simp

theorem Packer.close_entries (p : Packer) : p.close.2.entries = p.entries := by
  unfold Packer.close; split <;> rfl

/-- A stream comes from successful calls and a successful `Close`, which adds no entry. -/
theorem packStream_eq_some {gob : GobCodec} {id : List Char} {calls : List PackCall}
    {entries : List Entry} (h : packStream gob id calls = some entries) :
    ∃ p, (Packer.new id).calls gob calls = (.ok (), p) ∧ entries = p.entries := by
  unfold packStream at h
  split at h
  next _ p hp =>
    split at h
    next _ q hq => exact ⟨p, hp, by cases h; rw [← Packer.close_entries p, hq]⟩
    next => cases h
  next => cases h

/-- **Pack, then unpack (amended).** For any shard id and any successful calls other than
`AddFile(TagsUpdate, …)`, followed by a successful `Close`: unpacking the stream with
succeeding callbacks hands the handler exactly one callback per call, in order, and returns
`nil` iff a store file was added and `keys` was added iff `data` was. -/
theorem unpack_packStream_delivers_calls (gob : GobCodec) (id : List Char)
    (calls : List PackCall) (entries : List Entry) (hpack : packStream gob id calls = some entries)
    (hcalls : ∀ sz r, PackCall.addFile .tagsUpdate sz r ∉ calls) :
    (unpack gob id entries logHandler []).2 = calls.map (·.callback id) ∧
      ((unpack gob id entries logHandler []).1 = .ok () ↔
        (calls.any (·.ftype == .store) ∧
          (calls.any (·.ftype == .indexAccelKeyFile) ↔ calls.any (·.ftype == .indexAccelDataFile)))) := by
  obtain ⟨p, hrun, rfl⟩ := packStream_eq_some hpack
  have hok : ∀ c ∈ calls, c.ftype ≠ .tagsUpdate ∨ ∃ tps, c = .addTags tps := by
    intro c hc
    cases c with
    | addTags tps => exact .inr ⟨tps, rfl⟩
    | addWellTags _ => exact .inl (by simp [PackCall.ftype])
    | addFile tp sz r => exact .inl fun (e : tp = _) => hcalls sz r (e ▸ hc)
  obtain ⟨-, hhit, E, hent, hsim⟩ := Packer.calls_unpack calls _ p hrun hok
  have hsim := hsim [] []
  simp only [Packer.new, List.nil_append, List.append_nil, Ftracker.hit_empty, Bool.false_or]
    at hent hsim hhit
  subst hent
  have hlen := Ftracker.allFilesHit_lenient p.tracker
  simp only [hhit] at hlen
  rw [← hlen]
  unfold unpack
  rw [hsim, unpackEntries]
  rcases h : p.tracker.allFilesHit false with _ | m <;> simp [h]

/-- A versioned id: the store entry is named `769f2.1.store` and placed at `769f2.store`. -/
theorem unpack_packStream_versioned_store :
    packStream gobModel "769f2.1".data [.addFile .store 3 [1, 2, 3, 4], .addTags [⟨"x", 5⟩]] =
        some [⟨"769f2.1.store".data, typeReg, [1, 2, 3]⟩,
          ⟨tagupdateFilename, typeReg, encodeList [⟨"x", 5⟩]⟩] ∧
      unpack gobModel "769f2.1".data [⟨"769f2.1.store".data, typeReg, [1, 2, 3]⟩,
          ⟨tagupdateFilename, typeReg, encodeList [⟨"x", 5⟩]⟩] logHandler [] =
        (.ok (), [.file "769f2.store".data [1, 2, 3], .tagUpdate [⟨"x", 5⟩]]) := by
  have hpack : packStream gobModel "769f2.1".data [.addFile .store 3 [1, 2, 3, 4], .addTags [⟨"x", 5⟩]] =
      some [⟨"769f2.1.store".data, typeReg, [1, 2, 3]⟩,
        ⟨tagupdateFilename, typeReg, encodeList [⟨"x", 5⟩]⟩] := rfl
  obtain ⟨hlog, hok⟩ := unpack_packStream_delivers_calls _ _ _ _ hpack (by simp)
  refine ⟨hpack, Prod.ext ((hok.mpr ⟨rfl, by decide⟩).trans rfl) (hlog.trans rfl)⟩

/-- **`AddFile(TagsUpdate, …)` comes back as a tag update.** The packer accepts the call and
names the entry `tagsupdate`; the unpacker gob-decodes it and calls `HandleTagUpdate`, not
`HandleFile` at `TagsUpdate.Filepath`. -/
theorem addFile_tagsUpdate_unpacks_as_tag_update :
    packStream gobModel "a".data [.addFile .store 1 [7], .addFile .tagsUpdate 1 [0]] =
        some [⟨"a.store".data, typeReg, [7]⟩, ⟨tagupdateFilename, typeReg, [0]⟩] ∧
      unpack gobModel "a".data [⟨"a.store".data, typeReg, [7]⟩, ⟨tagupdateFilename, typeReg, [0]⟩]
          logHandler [] = (.ok (), [.file "a.store".data [7], .tagUpdate []]) ∧
      [PackCall.addFile .store 1 [7], .addFile .tagsUpdate 1 [0]].map (·.callback "a".data) =
        [.file "a.store".data [7], .file tagupdateFilename [0]] :=
  ⟨rfl, rfl, rfl⟩

/-- **A repeated tag update reaches the handler.** `updateTags` decodes the payload and calls
`HandleTagUpdate` before `hitType` refuses a second `TagsUpdate`: on a stream of a store file
and two `tagsupdate` entries, the handler is called with both updates, and only then does the
unpack fail with `Tags update already added`. -/
theorem unpack_repeated_tagsUpdate_reaches_handler :
    unpack gobModel "a".data [⟨"a.store".data, typeReg, [7]⟩,
        ⟨tagupdateFilename, typeReg, gobModel.encode [⟨"x", 5⟩]⟩,
        ⟨tagupdateFilename, typeReg, gobModel.encode [⟨"y", 6⟩]⟩] logHandler [] =
      (.error (.msg "Tags update already added"),
        [.file "a.store".data [7], .tagUpdate [⟨"x", 5⟩], .tagUpdate [⟨"y", 6⟩]]) :=
  rfl

end CloudArchive.ShardPacker
