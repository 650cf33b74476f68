import CloudArchive.Tags.TagMan

/-!
# Tags — a `TagMan` after `Close`

`Close` clears `active` and drops the handle on every path, and keeps both maps
(`TagMan.close_state`). What an operation then does depends on whether it reads `active`,
and when:

* `AddTag`, `GetAndPopulate`, `GetTag`, `ReverseLookup`, `GetTagSubmap` (of at least one id),
  `TagSet` and `Count` return `ErrNotActive` and change nothing;
* `ResetOverride` and `Merge` run `checkTagSet` before the `active` check, so a set it
  refuses gets that error instead;
* `ImportTags` reads no flag: present names succeed, and the first missing one fails in
  `CheckTag` or on the `nil` handle; the manager is unchanged either way;
* `EnsureTag` reads no flag and writes no file: a pair with neither its id nor its name
  present goes into the maps of the closed manager.
-/

namespace CloudArchive.Tags

/-- `Close` clears `active`, drops the handle and keeps the maps, on every path. -/
theorem TagMan.close_state (tm : TagMan) :
    tm.close.2 = { tm with active := false, fout := none } := by
  unfold TagMan.close
  dsimp only
  split
  · next h => rw [h]
  · split <;> rfl

/-! ## The operations that check `active` -/

section Inactive

variable {tm : TagMan} (h : tm.active = false)
include h

theorem TagMan.addTag_inactive (name : String) : tm.addTag name = (.error errNotActive, tm) := by
  simp [TagMan.addTag, h]

theorem TagMan.getAndPopulate_inactive (name : String) :
    tm.getAndPopulate name = (.error errNotActive, tm) := by
  simp [TagMan.getAndPopulate, h]

theorem TagMan.getTag_inactive (name : String) : tm.getTag name = .error errNotActive := by
  simp [TagMan.getTag, h]

theorem TagMan.reverseLookup_inactive (tg : EntryTag) :
    tm.reverseLookup tg = .error errNotActive := by
  simp [TagMan.reverseLookup, h]

/-- The first lookup fails, so the map comes back empty. -/
theorem TagMan.getTagSubmap_inactive (tg : EntryTag) (tgs : List EntryTag) :
    tm.getTagSubmap (tg :: tgs) = (fun _ => none, .error errNotActive) := by
  simp [TagMan.getTagSubmap, TagMan.submapLoop, TagMan.reverseLookup_inactive h]

theorem TagMan.tagSet_inactive : tm.tagSet = .error errNotActive := by
  simp [TagMan.tagSet, h]

theorem TagMan.count_inactive : tm.count = .error errNotActive := by
  simp [TagMan.count, h]

/-- `checkTagSet`'s error first, `ErrNotActive` after it. -/
theorem TagMan.resetOverride_inactive (s : List TagPair) :
    tm.resetOverride s = ((checkTagSet s).bind fun _ => .error errNotActive, tm) := by
  unfold TagMan.resetOverride
  cases checkTagSet s <;> simp [h, Except.bind]

theorem TagMan.merge_inactive (s : List TagPair) :
    tm.merge s = ((false, (checkTagSet s).bind fun _ => .error errNotActive), tm) := by
  unfold TagMan.merge
  cases checkTagSet s <;> simp [h, Except.bind]

end Inactive

/-! ## `ImportTags` without a handle -/

section Unbacked

variable {tm : TagMan} (hf : tm.fout = none)
include hf

/-- Every I/O request fails with `os.ErrInvalid`. -/
theorem TagMan.io_unbacked {α : Type} (req : TagFile → Except TagErr Unit × TagFile)
    (k : TagMan → Except TagErr α × TagMan) : tm.io req k = (.error .invalid, tm) := by
  simp [TagMan.io, hf]

theorem TagMan.allocateTag_unbacked (name : String) :
    tm.allocateTag name = (.error (if checkTag name then .invalid else .checkTag), tm) := by
  cases hc : checkTag name <;> simp [TagMan.allocateTag, hc, TagMan.io_unbacked hf]

/-- A missing name fails, a present one is read back. -/
theorem TagMan.importTags_cons_unbacked (v : String) (vs : List String) :
    tm.importTags (v :: vs) =
      match tm.tags (trimSpaceStr v) with
      | some _ => tm.importTags vs
      | none => (.error (if checkTag (trimSpaceStr v) then .invalid else .checkTag), tm) := by
  cases hv : tm.tags (trimSpaceStr v) <;>
    simp [TagMan.importTags, TagMan.getAndPopulateNoLock, hv, TagMan.allocateTag_unbacked hf]

/-- `ImportTags` changes nothing, succeeds exactly when every trimmed name is present, and
never answers `ErrNotActive`. -/
theorem TagMan.importTags_unbacked (names : List String) :
    (tm.importTags names).2 = tm ∧
      ((tm.importTags names).1 = .ok () ↔ ∀ v ∈ names, (tm.tags (trimSpaceStr v)).isSome) ∧
      (tm.importTags names).1 ≠ .error errNotActive := by
  induction names with
  | nil => simp [TagMan.importTags]
  | cons v vs ih =>
    rw [TagMan.importTags_cons_unbacked hf]
    cases hv : tm.tags (trimSpaceStr v)
    · cases checkTag (trimSpaceStr v) <;> simp [hv, errNotActive]
    · simpa [hv] using ih

end Unbacked

/-- `EnsureTag` of a pair with neither its id nor its name present adds it, active or not. -/
theorem TagMan.ensureTag_fresh {tm : TagMan} {id : EntryTag} {name : String}
    (hk : tm.tagKeys id = none) (hn : tm.tags name = none) :
    tm.ensureTag id name = (.ok (), tm.insert name id) := by
  simp [TagMan.ensureTag, hk, hn]

/-! ## After `Close` -/

/-- The manager `Close` leaves: its maps are the manager's own; the operations that check
`active` answer `ErrNotActive` and change nothing (`ResetOverride` and `Merge` once
`checkTagSet` passes); `ImportTags` changes nothing and succeeds on present names; and
`EnsureTag` of a pair with neither its id nor its name present succeeds and adds the pair. -/
theorem closed_tagMan_ensureTag_inserts (tm : TagMan) :
    let c : TagMan := tm.close.2
    c.tags = tm.tags ∧ c.tagKeys = tm.tagKeys ∧
    (∀ name, c.addTag name = (.error errNotActive, c)) ∧
    (∀ name, c.getAndPopulate name = (.error errNotActive, c)) ∧
    (∀ name, c.getTag name = .error errNotActive) ∧
    (∀ tg, c.reverseLookup tg = .error errNotActive) ∧
    (∀ tg tgs, c.getTagSubmap (tg :: tgs) = (fun _ => none, .error errNotActive)) ∧
    c.tagSet = .error errNotActive ∧ c.count = .error errNotActive ∧
    (∀ s, c.resetOverride s = ((checkTagSet s).bind fun _ => .error errNotActive, c)) ∧
    (∀ s, c.merge s = ((false, (checkTagSet s).bind fun _ => .error errNotActive), c)) ∧
    (∀ names, (c.importTags names).2 = c ∧
      ((c.importTags names).1 = .ok () ↔ ∀ v ∈ names, (c.tags (trimSpaceStr v)).isSome) ∧
      (c.importTags names).1 ≠ .error errNotActive) ∧
    (∀ id name, c.tagKeys id = none → c.tags name = none →
      c.ensureTag id name = (.ok (), c.insert name id) ∧ (c.insert name id).tags name = some id) := by
  intro c
  have hc : c = { tm with active := false, fout := none } := TagMan.close_state tm
  have ha : c.active = false := by rw [hc]
  have hf : c.fout = none := by rw [hc]
  exact ⟨by rw [hc], by rw [hc], TagMan.addTag_inactive ha, TagMan.getAndPopulate_inactive ha,
    TagMan.getTag_inactive ha, TagMan.reverseLookup_inactive ha, TagMan.getTagSubmap_inactive ha,
    TagMan.tagSet_inactive ha, TagMan.count_inactive ha, TagMan.resetOverride_inactive ha,
    TagMan.merge_inactive ha, TagMan.importTags_unbacked hf,
    fun _ _ hk hn => ⟨TagMan.ensureTag_fresh hk hn, by simp [TagMan.insert]⟩⟩

end CloudArchive.Tags
