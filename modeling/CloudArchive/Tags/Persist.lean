import CloudArchive.Tags.Invariant
import CloudArchive.Tags.Format

/-!
# Tags — what `tags.dat` gives back after `Close`

After `Close` the bytes stay on disk, and the next `New(p)` reads them as an existing regular
file (`TagPath.file`). The dictionary survives a restart when that `New` succeeds and loads
exactly the map the closed manager held.

The calls that add pairs one at a time write each pair's line right after they insert it.
When such a call succeeds, the manager is its old self with some fresh, `CheckTag`ed pairs
added to both maps and appended to the file, in order (`Writes`). From a fresh file, a run of
successful `AddTag`, `ImportTags`, `GetAndPopulate` and `Merge` calls therefore leaves a file
that `New` reads back to exactly the manager's maps (`tagsNew_reloads_run`). `EnsureTag` adds
its pair in memory only, and is not such a call.

`ResetOverride` writes its list line by line with no check of the list against itself,
while `loadTags` rejects a repeated id. A successful `ResetOverride` whose list repeats an id
therefore writes a `tags.dat` that `New` refuses to open.
-/

namespace CloudArchive.Tags

/-- **A written dictionary that does not reopen.** On a fresh `tags.dat`,
`ResetOverride([{a,1},{b,1}])` and `Close` both succeed, and `New` on the bytes they leave
fails with `tag id 1 already exists`. -/
theorem reopen_after_resetOverride_repeated_id_fails :
    ∃ tm, tagsNew "tags.dat" (.missing healthyDisk) = .ok tm ∧
      (tm.resetOverride [⟨"a", 1⟩, ⟨"b", 1⟩]).1 = .ok () ∧
      ((tm.resetOverride [⟨"a", 1⟩, ⟨"b", 1⟩]).2.close).1 = .ok () ∧
      ∃ f, (tm.resetOverride [⟨"a", 1⟩, ⟨"b", 1⟩]).2.fout = some f ∧
        f.data = "default=0\ngravwell=65535\na=1\nb=1\n".data ∧
        tagsNew "tags.dat" (.file f) = .error (.msg "tag id 1 already exists") :=
  ⟨_, rfl, rfl, rfl, _, rfl, rfl, rfl⟩

/-! ## What a successful call writes -/

/-- Every pair of `ps` is fresh and `CheckTag`ed when it is added after the ones before it. -/
def Dict.FreshAll : Dict → List TagPair → Prop
  | _, [] => True
  | d, p :: ps => (d.tags p.name = none ∧ d.tagKeys p.value = none ∧ checkTag p.name) ∧
      (d.insert p.name p.value).FreshAll ps

theorem Dict.freshAll_append {d : Dict} {ps qs : List TagPair} (hp : d.FreshAll ps)
    (hq : (d.insertAll ps).FreshAll qs) : d.FreshAll (ps ++ qs) := by
  induction ps generalizing d with
  | nil => exact hq
  | cons p ps ih => exact ⟨hp.1, ih hp.2 hq⟩

/-- With the reserved pairs stored, `loadTags` accepts fresh pairs. -/
theorem DictInv.acceptsAll {d : Dict} {ps : List TagPair} (h : DictInv d) (hf : d.FreshAll ps) :
    d.AcceptsAll ps := by
  induction ps generalizing d with
  | nil => trivial
  | cons p ps ih =>
    obtain ⟨⟨hn, hi, hc⟩, hrest⟩ := hf
    have hk : ∀ {n i}, d.tags n = some i → p.value ≠ i := fun hs e => by
      simp [e, (h.inverse _ _).mp hs] at hi
    have hdn : p.name ≠ defaultTagName := fun e => by simp [e, h.default_present] at hn
    have hgn : p.name ≠ gravwellTagName := fun e => by simp [e, h.gravwell_present] at hn
    exact ⟨⟨hn, hi, hc, iff_of_false hdn (hk h.default_present),
      iff_of_false hgn (hk h.gravwell_present)⟩,
      ih ((Grows.insert _ _ .refl hn hi trivial : Grows (fun _ => True) d _).dictInv h) hrest⟩

/-- `tm'` is `tm` with the pairs `ps` added to both maps and appended to the file, in order,
each fresh and `CheckTag`ed when it is added. -/
structure Writes (tm tm' : TagMan) (ps : List TagPair) : Prop where
  fresh : tm.dict.FreshAll ps
  dict : tm'.dict = tm.dict.insertAll ps
  file : ∀ f, tm.fout = some f → ∃ f', tm'.fout = some f' ∧ f'.data = f.data ++ tagLines ps

theorem Writes.refl (tm : TagMan) : Writes tm tm [] :=
  ⟨trivial, rfl, fun f hf => ⟨f, hf, by simp [tagLines]⟩⟩

theorem Writes.trans {t₁ t₂ t₃ : TagMan} {ps qs : List TagPair} (h₁ : Writes t₁ t₂ ps)
    (h₂ : Writes t₂ t₃ qs) : Writes t₁ t₃ (ps ++ qs) where
  fresh := Dict.freshAll_append h₁.fresh (h₁.dict ▸ h₂.fresh)
  dict := by rw [h₂.dict, h₁.dict, Dict.insertAll_append]
  file f hf := by
    obtain ⟨f₂, hf₂, hd₂⟩ := h₁.file f hf
    obtain ⟨f₃, hf₃, hd₃⟩ := h₂.file f₂ hf₂
    exact ⟨f₃, hf₃, by rw [hd₃, hd₂, tagLines_append, List.append_assoc]⟩

/-- The bytes after a request that succeeds. -/
theorem TagFile.request_ok {f f' : TagFile} {u : List Char → List Char}
    (h : f.request u = (.ok (), f')) : f'.data = u f.data := by
  unfold TagFile.request at h
  split at h
  · cases h
  · cases h; rfl

/-- A request that succeeds, and the rest of the call after it. -/
theorem TagMan.io_ok {α : Type} {tm : TagMan} {req : TagFile → Except TagErr Unit × TagFile}
    {k : TagMan → Except TagErr α × TagMan} {a : α} (h : (tm.io req k).1 = .ok a) :
    ∃ f f', tm.fout = some f ∧ req f = (.ok (), f') ∧
      tm.io req k = k { tm with fout := some f' } := by
  unfold TagMan.io at h ⊢
  split at h
  · cases h
  · rename_i f hf
    split at h
    · cases h
    · rename_i f' hr
      exact ⟨f, f', hf, hr, by simp [hf, hr]⟩

/-- A call that seeks, inserts a fresh pair and writes its line, on success. -/
theorem Writes.seek_insert_write {tm t : TagMan} {n : String} {i : EntryTag}
    {f f' g g' : TagFile} (hn : tm.tags n = none) (hi : tm.tagKeys i = none) (hc : checkTag n)
    (hf : tm.fout = some f) (hs : f.seek = (.ok (), f')) (hg : some f' = some g)
    (hw : g.write (tagLine n i) = (.ok (), g')) (hd : t.dict = tm.dict.insert n i)
    (ht : t.fout = some g') : Writes tm t [⟨n, i⟩] where
  fresh := ⟨⟨hn, hi, hc⟩, trivial⟩
  dict := hd
  file f₀ hf₀ := by
    refine ⟨g', ht, ?_⟩
    rw [TagFile.request_ok hw, ← Option.some.inj hg, TagFile.request_ok hs,
      ← Option.some.inj (hf.symm.trans hf₀)]
    simp [tagLines]

theorem TagMan.allocateTag_writes {tm : TagMan} {name : String} (hn : tm.tags name = none)
    (h : (tm.allocateTag name).1 = .ok ()) : ∃ ps, Writes tm (tm.allocateTag name).2 ps := by
  unfold TagMan.allocateTag at h ⊢
  split at h
  · cases h
  · rename_i hc
    obtain ⟨f, f', hf, hs, he⟩ := TagMan.io_ok h
    rw [he] at h ⊢
    revert h
    dsimp only
    split
    · intro h; cases h
    · split
      · rename_i hfree
        intro h
        obtain ⟨g, g', hg, hw, he'⟩ := TagMan.io_ok h
        rw [he']
        exact ⟨_, .seek_insert_write hn (by simpa using hfree) (by simpa using hc) hf hs hg hw
          rfl rfl⟩
      · intro h; cases h

theorem TagMan.assignTag_writes {tm : TagMan} {name : String} {value : EntryTag}
    (hn : tm.tags name = none) (hi : tm.tagKeys value = none)
    (h : (tm.assignTag name value).1 = .ok ()) :
    ∃ ps, Writes tm (tm.assignTag name value).2 ps := by
  unfold TagMan.assignTag at h ⊢
  revert h
  split
  · intro h; cases h
  · rename_i hc
    intro h
    obtain ⟨f, f', hf, hs, he⟩ := TagMan.io_ok h
    rw [he] at h ⊢
    obtain ⟨g, g', hg, hw, he'⟩ := TagMan.io_ok h
    rw [he']
    exact ⟨_, .seek_insert_write hn hi (by simpa using hc) hf hs hg hw rfl rfl⟩

theorem TagMan.getAndPopulateNoLock_writes {tm : TagMan} {name : String} {v : EntryTag}
    (h : (tm.getAndPopulateNoLock name).1 = .ok v) :
    ∃ ps, Writes tm (tm.getAndPopulateNoLock name).2 ps := by
  unfold TagMan.getAndPopulateNoLock at h ⊢
  revert h
  split
  · exact fun _ => ⟨[], .refl tm⟩
  · rename_i hn
    rcases hr : tm.allocateTag name with ⟨_ | ⟨⟨⟩⟩, t⟩
    · intro h; cases h
    · have hw := TagMan.allocateTag_writes hn (by rw [hr])
      rw [hr] at hw
      dsimp only
      split
      · exact fun _ => hw
      · intro h; cases h

theorem TagMan.importTags_writes {tm : TagMan} {names : List String}
    (h : (tm.importTags names).1 = .ok ()) : ∃ ps, Writes tm (tm.importTags names).2 ps := by
  induction names generalizing tm with
  | nil => exact ⟨[], .refl tm⟩
  | cons v vs ih =>
    simp only [TagMan.importTags] at h ⊢
    revert h
    rcases hr : tm.getAndPopulateNoLock (trimSpaceStr v) with ⟨_ | a, t⟩
    · intro h; cases h
    · intro h
      obtain ⟨ps, hw⟩ := TagMan.getAndPopulateNoLock_writes
        (show (tm.getAndPopulateNoLock (trimSpaceStr v)).1 = .ok a by rw [hr])
      rw [hr] at hw
      obtain ⟨qs, hw'⟩ := ih h
      exact ⟨ps ++ qs, hw.trans hw'⟩

theorem TagMan.addTag_writes {tm : TagMan} {name : String} (h : (tm.addTag name).1 = .ok ()) :
    ∃ ps, Writes tm (tm.addTag name).2 ps := by
  unfold TagMan.addTag at h ⊢
  dsimp only at h ⊢
  revert h
  split
  · intro h; cases h
  · split
    · intro h; cases h
    · rename_i hn
      exact TagMan.allocateTag_writes (by simpa using hn)

theorem TagMan.getAndPopulate_writes {tm : TagMan} {name : String} {v : EntryTag}
    (h : (tm.getAndPopulate name).1 = .ok v) : ∃ ps, Writes tm (tm.getAndPopulate name).2 ps := by
  unfold TagMan.getAndPopulate at h ⊢
  revert h
  split
  · intro h; cases h
  · exact TagMan.getAndPopulateNoLock_writes

theorem TagMan.mergeLoop_writes {tm : TagMan} {s : List TagPair} {updated : Bool}
    (h : (tm.mergeLoop s updated).1.2 = .ok ()) :
    ∃ ps, Writes tm (tm.mergeLoop s updated).2 ps := by
  induction s generalizing tm updated with
  | nil => exact ⟨[], .refl tm⟩
  | cons v vs ih =>
    simp only [TagMan.mergeLoop] at h ⊢
    revert h
    split
    · intro h; cases h
    · split
      · intro h; cases h
      · split
        · exact ih
        · rename_i hc
          simp only [Bool.or_eq_true, Option.isSome_iff_ne_none, ne_eq, not_or, not_not] at hc
          rcases hr : tm.assignTag v.name v.value with ⟨_ | ⟨⟨⟩⟩, t⟩
          · intro h; cases h
          · intro h
            obtain ⟨ps, hw⟩ := TagMan.assignTag_writes hc.2 hc.1
              (show (tm.assignTag v.name v.value).1 = .ok () by rw [hr])
            rw [hr] at hw
            obtain ⟨qs, hw'⟩ := ih h
            exact ⟨ps ++ qs, hw.trans hw'⟩

theorem TagMan.merge_writes {tm : TagMan} {s : List TagPair} (h : (tm.merge s).1.2 = .ok ()) :
    ∃ ps, Writes tm (tm.merge s).2 ps := by
  unfold TagMan.merge at h ⊢
  revert h
  split
  · intro h; cases h
  · split
    · intro h; cases h
    · exact TagMan.mergeLoop_writes

/-! ## Runs of successful calls -/

/-- The calls that write each pair they add: all but `EnsureTag`, which adds its pair in
memory only, and `ResetOverride`. -/
def TagOp.writesThrough : TagOp → Bool
  | .ensureTag _ _ | .resetOverride _ => false
  | _ => true

/-- Whether a call returned without an error. -/
def TagMan.succeeds (tm : TagMan) : TagOp → Bool
  | .addTag name => (tm.addTag name).1.isOk
  | .importTags names => (tm.importTags names).1.isOk
  | .getAndPopulate name => (tm.getAndPopulate name).1.isOk
  | .ensureTag id name => (tm.ensureTag id name).1.isOk
  | .merge s => (tm.merge s).1.2.isOk
  | .resetOverride s => (tm.resetOverride s).1.isOk

/-- Every call of the run returned without an error. -/
def TagMan.runSucceeds (tm : TagMan) : List TagOp → Bool
  | [] => true
  | op :: ops => tm.succeeds op && (tm.apply op).runSucceeds ops

theorem eq_ok_of_isOk {ε α : Type} {r : Except ε α} (h : r.isOk) : ∃ a, r = .ok a := by
  cases r with
  | error e => cases h
  | ok a => exact ⟨a, rfl⟩

theorem TagMan.apply_writes (tm : TagMan) {op : TagOp} (hop : op.writesThrough)
    (hs : tm.succeeds op) : ∃ ps, Writes tm (tm.apply op) ps := by
  cases op with
  | addTag name =>
    obtain ⟨_, ha⟩ := eq_ok_of_isOk hs
    exact TagMan.addTag_writes ha
  | importTags names =>
    obtain ⟨_, ha⟩ := eq_ok_of_isOk hs
    exact TagMan.importTags_writes ha
  | getAndPopulate name =>
    obtain ⟨_, ha⟩ := eq_ok_of_isOk hs
    exact TagMan.getAndPopulate_writes ha
  | merge s =>
    obtain ⟨_, ha⟩ := eq_ok_of_isOk hs
    exact TagMan.merge_writes ha
  | ensureTag => cases hop
  | resetOverride => cases hop

theorem TagMan.applyAll_writes (tm : TagMan) {ops : List TagOp}
    (hops : ∀ op ∈ ops, op.writesThrough) (hok : tm.runSucceeds ops) :
    ∃ ps, Writes tm (tm.applyAll ops) ps := by
  induction ops generalizing tm with
  | nil => exact ⟨[], .refl tm⟩
  | cons op ops ih =>
    simp only [TagMan.runSucceeds, Bool.and_eq_true] at hok
    obtain ⟨ps, h₁⟩ := tm.apply_writes (hops op (.head _)) hok.1
    obtain ⟨qs, h₂⟩ := ih (tm.apply op) (fun o ho => hops o (.tail _ ho)) hok.2
    exact ⟨ps ++ qs, h₁.trans h₂⟩

/-! ## From a fresh file to a reopened one -/

/-- The reserved pairs, the lines `New` seeds a fresh file with. -/
def reservedPairs : List TagPair :=
  [⟨defaultTagName, defaultTagId⟩, ⟨gravwellTagName, gravwellTagId⟩]

/-- `New` on a fresh file leaves the reserved lines in the file and in the maps. -/
theorem tagsNew_missing_writes {path : String} {fails : Nat → Bool} {tm : TagMan}
    (h : tagsNew path (.missing fails) = .ok tm) :
    ∃ f, tm.fout = some f ∧ f.data = tagLines reservedPairs ∧
      tm.dict = Dict.empty.insertAll reservedPairs := by
  unfold tagsNew openTagFile at h
  dsimp only at h
  split at h
  · cases h
  · rename_i t hop
    obtain ⟨f₁, g₁, hf₁, hs₁, he⟩ := TagMan.io_ok (congrArg Prod.fst hop)
    rw [he] at hop
    obtain ⟨f₂, g₂, hf₂, hs₂, he⟩ := TagMan.io_ok (congrArg Prod.fst hop)
    rw [he] at hop
    obtain ⟨f₃, g₃, hf₃, hw₃, he⟩ := TagMan.io_ok (congrArg Prod.fst hop)
    rw [he] at hop
    obtain ⟨f₄, g₄, hf₄, hw₄, he⟩ := TagMan.io_ok (congrArg Prod.fst hop)
    rw [he] at hop
    cases hop
    cases Option.some.inj hf₁; cases Option.some.inj hf₂
    cases Option.some.inj hf₃; cases Option.some.inj hf₄
    unfold TagMan.loadTags at h
    rw [if_pos rfl] at h
    dsimp only [readLines, readLinesAux, TagMan.loadLines] at h
    rw [TagMan.ensureTag_of_stored ?_ ?_] at h
    · dsimp only at h
      rw [TagMan.ensureTag_of_stored ?_ ?_] at h
      · dsimp only at h
        split at h
        · cases h
        · cases h
          refine ⟨_, rfl, ?_, rfl⟩
          rw [TagFile.request_ok hw₄, TagFile.request_ok hw₃, TagFile.request_ok hs₂,
            TagFile.request_ok hs₁]
          rfl
      all_goals rfl
    all_goals rfl

/-- **What a run writes, `New` reads back.** On a fresh `tags.dat`, after any sequence of
`AddTag`, `ImportTags`, `GetAndPopulate` and `Merge` calls that all succeed, the file holds one
`name=id` line per stored pair: its bytes are the lines of a list of pairs with no name twice,
and those pairs are exactly the ones the manager stores. `New` on those bytes loads exactly the
manager's maps; it fails only where `findNextAvailableTag` does, when no id in `[1, 0xFFFE]` is
left. -/
theorem tagsNew_reloads_run {path : String} {fails : Nat → Bool} {tm : TagMan}
    (h : tagsNew path (.missing fails) = .ok tm) (ops : List TagOp)
    (hops : ∀ op ∈ ops, op.writesThrough) (hok : tm.runSucceeds ops) :
    ∃ f, (tm.applyAll ops).fout = some f ∧
      (∃ ps : List TagPair, f.data = tagLines ps ∧ (ps.map TagPair.name).Nodup ∧
        ∀ n i, (tm.applyAll ops).tags n = some i ↔ ⟨n, i⟩ ∈ ps) ∧
      (tagsNew path (.file ⟨f.data, healthyDisk, 0⟩)).map TagMan.dict =
        (findNextAvailableTag (tm.applyAll ops).tagKeys).map fun _ => (tm.applyAll ops).dict := by
  obtain ⟨f₀, hf₀, hdata₀, hdict₀⟩ := tagsNew_missing_writes h
  obtain ⟨ps, hw⟩ := tm.applyAll_writes hops hok
  obtain ⟨f, hf, hdata⟩ := hw.file f₀ hf₀
  obtain ⟨hi, hdef, hgr⟩ := tagsNew_spec h
  have hinv : DictInv (Dict.empty.insertAll reservedPairs) := hdict₀ ▸ ⟨hi, hdef, hgr⟩
  have hps := hinv.acceptsAll (hdict₀ ▸ hw.fresh)
  have hacc : Dict.empty.AcceptsAll (reservedPairs ++ ps) :=
    Dict.acceptsAll_append ⟨⟨rfl, rfl, rfl, by decide, by decide⟩,
      ⟨rfl, rfl, rfl, by decide, by decide⟩, trivial⟩ hps
  have hd : (tm.applyAll ops).dict = Dict.empty.insertAll (reservedPairs ++ ps) := by
    rw [hw.dict, hdict₀, Dict.insertAll_append]
  have hk : (tm.applyAll ops).tagKeys = (Dict.empty.insertAll (reservedPairs ++ ps)).tagKeys :=
    congrArg Dict.tagKeys hd
  have hfile : f.data = tagLines (reservedPairs ++ ps) := by rw [hdata, hdata₀, tagLines_append]
  refine ⟨f, hf, ⟨_, hfile, hacc.nodup, fun n i => ?_⟩, ?_⟩
  · have ht : (tm.applyAll ops).tags n = (Dict.empty.insertAll (reservedPairs ++ ps)).tags n :=
      congrFun (congrArg Dict.tags hd) n
    rw [ht, hacc.tags_insertAll]
    simp [Dict.empty]
  rw [hfile, hk, hd, Dict.insertAll_append]
  exact tagsNew_tagLines path hacc
    (by rw [Dict.insertAll_append]; exact hps.grows.tags_some hinv.default_present)
    (by rw [Dict.insertAll_append]; exact hps.grows.tags_some hinv.gravwell_present)

/-- A fresh file, then `AddTag(foo)`, `Merge([bar=7])` and `ImportTags([baz])`. -/
theorem tags_reload_after_add_merge_import :
    let ops : List TagOp := [.addTag "foo", .merge [⟨"bar", 7⟩], .importTags ["baz"]]
    ∃ tm, tagsNew "tags.dat" (.missing healthyDisk) = .ok tm ∧ (∀ op ∈ ops, op.writesThrough) ∧
      tm.runSucceeds ops ∧
      ∃ f, (tm.applyAll ops).fout = some f ∧
        (∃ ps : List TagPair, f.data = tagLines ps ∧ (ps.map TagPair.name).Nodup ∧
          ∀ n i, (tm.applyAll ops).tags n = some i ↔ ⟨n, i⟩ ∈ ps) ∧
        (tagsNew "tags.dat" (.file ⟨f.data, healthyDisk, 0⟩)).map TagMan.dict =
          (findNextAvailableTag (tm.applyAll ops).tagKeys).map fun _ => (tm.applyAll ops).dict :=
  let h : tagsNew "tags.dat" (.missing healthyDisk) = .ok _ := rfl
  ⟨_, h, by decide, rfl, tagsNew_reloads_run h _ (by decide) rfl⟩

end CloudArchive.Tags
