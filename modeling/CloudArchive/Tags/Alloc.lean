import CloudArchive.Tags.Merge

/-!
# Tags — the id `AddTag` hands out

`allocateTag` tries `nextTag` and, when `tagKeys` holds it, takes the first free id of
`[1, 0xFFFE]` that `findNextAvailableTag` finds. With the reserved pairs stored, `nextTag` is
free only inside `[1, 0xFFFE]`, whatever its value, so an allocation never hands out 0, 0xFFFF
or an id already held, and on a healthy file it succeeds iff a free id is left
(`TagMan.allocateTag_healthy`). `AddTag`, `GetAndPopulate` and each step of `ImportTags`
allocate through it (`TagMan.addTag_spec`).
-/

namespace CloudArchive.Tags

/-- An id `allocateTag` may hand out: in `[1, 0xFFFE]` and held by no name. -/
def FreeId (tagKeys : EntryTag → Option String) (i : EntryTag) : Prop :=
  1 ≤ i.toNat ∧ i.toNat ≤ 0xFFFE ∧ tagKeys i = none

theorem findNextAvailableTag_ok {tagKeys : EntryTag → Option String} {i : EntryTag}
    (h : findNextAvailableTag tagKeys = .ok i) : FreeId tagKeys i := by
  unfold findNextAvailableTag at h
  split at h
  · rename_i n hn
    cases h
    have hm := List.mem_range'_1.mp (List.mem_of_find?_eq_some hn)
    rw [FreeId, UInt16.toNat_ofNat_of_lt (by simp only [UInt16.size]; omega)]
    exact ⟨hm.1, by omega, by simpa using List.find?_some hn⟩
  · cases h

theorem findNextAvailableTag_error {tagKeys : EntryTag → Option String} {e : TagErr}
    (h : findNextAvailableTag tagKeys = .error e) :
    e = errNoTagsAvailable ∧ ¬ ∃ i, FreeId tagKeys i := by
  unfold findNextAvailableTag at h
  split at h
  · cases h
  · rename_i hn
    cases h
    refine ⟨rfl, fun ⟨i, h1, h2, hi⟩ => ?_⟩
    have := List.find?_eq_none.mp hn i.toNat (List.mem_range'_1.mpr ⟨h1, by omega⟩)
    rw [UInt16.toNat.inj (UInt16.toNat_ofNat_of_lt i.toNat_lt_size), hi] at this
    exact this rfl

/-- The id `allocateTag` picks, `nextTag` if it is free, else `findNextAvailableTag`'s: with
the reserved pairs stored it is a free id, and there is none when the pick fails. -/
theorem pick_spec {d : Dict} (hd : DictInv d) (next : EntryTag) :
    (∀ i, (if (d.tagKeys next).isSome then findNextAvailableTag d.tagKeys else .ok next) = .ok i →
      FreeId d.tagKeys i) ∧
    (∀ e, (if (d.tagKeys next).isSome then findNextAvailableTag d.tagKeys else .ok next) =
      .error e → e = errNoTagsAvailable ∧ ¬ ∃ i, FreeId d.tagKeys i) := by
  split
  · exact ⟨fun _ => findNextAvailableTag_ok, fun _ => findNextAvailableTag_error⟩
  · rename_i hs
    have hk : d.tagKeys next = none := by simpa using hs
    have h0 : next ≠ 0 := fun e => by
      subst e; exact absurd (hk.symm.trans ((hd.inverse _ _).mp hd.default_present)) (by simp)
    have h1 : next ≠ 0xFFFF := fun e => by
      subst e; exact absurd (hk.symm.trans ((hd.inverse _ _).mp hd.gravwell_present)) (by simp)
    have h0' : next.toNat ≠ 0 := fun e => h0 (UInt16.toNat.inj e)
    have h1' : next.toNat ≠ 0xFFFF := fun e => h1 (UInt16.toNat.inj e)
    have hlt := next.toNat_lt_size
    refine ⟨fun i hi => ?_, fun e he => by cases he⟩
    cases hi
    exact ⟨by omega, by simp only [UInt16.size] at hlt; omega, hk⟩

/-- `allocateTag` of a new, valid name on a healthy manager holding the reserved pairs: with
a free id left it adds the name with a free id to both maps and appends its line, and with none
it fails with `No tags available`. -/
theorem TagMan.allocateTag_healthy {tm : TagMan} {name : String} (hd : DictInv tm.dict)
    (hh : tm.Healthy) (hc : checkTag name = true) (hn : tm.tags name = none) :
    ((∃ i, FreeId tm.tagKeys i) → ∃ i t, FreeId tm.tagKeys i ∧ tm.allocateTag name = (.ok (), t) ∧
      Writes tm t [⟨name, i⟩] ∧ t.Healthy) ∧
    ((¬ ∃ i, FreeId tm.tagKeys i) → (tm.allocateTag name).1 = .error errNoTagsAvailable) := by
  obtain ⟨hok, herr⟩ := pick_spec hd tm.nextTag
  obtain ⟨f, hf, hff⟩ := hh
  rcases hr : (if (tm.tagKeys tm.nextTag).isSome then findNextAvailableTag tm.tagKeys
    else .ok tm.nextTag) with e | i
  · obtain ⟨rfl, hnone⟩ := herr e hr
    exact ⟨fun h => absurd h hnone, fun _ => by
      simp [TagMan.allocateTag, hc, TagMan.io, hf, TagFile.seek, TagFile.request, hff, hr]⟩
  · have hfree := hok i hr
    have hk : tm.tagKeys i = none := hfree.2.2
    refine ⟨fun _ => ⟨i, { tm.insert name i with
        nextTag := i + 1
        fout := some { f with data := f.data ++ tagLine name i, ops := f.ops + 1 + 1 } },
      hfree, ?_, ⟨⟨⟨hn, hk, hc⟩, trivial⟩, rfl, fun f₀ hf₀ => ?_⟩, ⟨_, rfl, hff⟩⟩,
      fun h => absurd ⟨i, hfree⟩ h⟩
    · simp [TagMan.allocateTag, hc, TagMan.io, hf, TagFile.seek, TagFile.write, TagFile.request,
        hff, hr, hk, TagMan.insert]
    · cases hf.symm.trans hf₀
      exact ⟨_, rfl, by simp [tagLines]⟩

/-- **`AddTag`, `GetAndPopulate` and `ImportTags` hand out a free id.** On an active manager
holding the reserved pairs in inverse maps, whose `tags.dat` answers every request, with any
`nextTag`: take a name that after `TrimSpace` passes `CheckTag` and is not stored. If an id of
`[1, 0xFFFE]` is free, `AddTag` and `GetAndPopulate` give the name one such id, the same, with
no other pair changed and its line appended, and `ImportTags` does so for the name before it
goes on with the rest of its list. If none is free, all three fail with `No tags available`. -/
theorem TagMan.addTag_spec {tm : TagMan} {name : String} (hd : DictInv tm.dict)
    (ha : tm.active = true) (hh : tm.Healthy) (hc : checkTag (trimSpaceStr name) = true)
    (hn : tm.tags (trimSpaceStr name) = none) :
    ((∃ i, FreeId tm.tagKeys i) → ∃ i, FreeId tm.tagKeys i ∧
      (tm.addTag name).1 = .ok () ∧ Writes tm (tm.addTag name).2 [⟨trimSpaceStr name, i⟩] ∧
      (tm.getAndPopulate name).1 = .ok i ∧
      Writes tm (tm.getAndPopulate name).2 [⟨trimSpaceStr name, i⟩] ∧
      ∀ vs, ∃ t, Writes tm t [⟨trimSpaceStr name, i⟩] ∧ tm.importTags (name :: vs) = t.importTags vs) ∧
    ((¬ ∃ i, FreeId tm.tagKeys i) → (tm.addTag name).1 = .error errNoTagsAvailable ∧
      (tm.getAndPopulate name).1 = .error errNoTagsAvailable ∧
      ∀ vs, (tm.importTags (name :: vs)).1 = .error errNoTagsAvailable) := by
  obtain ⟨hfree, hnone⟩ := TagMan.allocateTag_healthy hd hh hc hn
  have hadd : tm.addTag name = tm.allocateTag (trimSpaceStr name) := by
    simp [TagMan.addTag, ha, hn]
  have hgp : tm.getAndPopulate name = tm.getAndPopulateNoLock (trimSpaceStr name) := by
    simp [TagMan.getAndPopulate, ha]
  refine ⟨fun h => ?_, fun h => ?_⟩
  · obtain ⟨i, t, hi, hat, hw, -⟩ := hfree h
    have hti : t.tags (trimSpaceStr name) = some i := by
      rw [show t.tags = (tm.dict.insert (trimSpaceStr name) i).tags from congrArg Dict.tags hw.dict]
      simp [Dict.insert]
    have hnl : tm.getAndPopulateNoLock (trimSpaceStr name) = (.ok i, t) := by
      simp [TagMan.getAndPopulateNoLock, hn, hat, hti]
    rw [hadd, hgp, hat, hnl]
    exact ⟨i, hi, rfl, hw, rfl, hw, fun vs => ⟨t, hw, by simp [TagMan.importTags, hnl]⟩⟩
  · rcases hr : tm.allocateTag (trimSpaceStr name) with ⟨r, t⟩
    have he : r = .error errNoTagsAvailable := by rw [← hnone h, hr]
    subst he
    have hnl : tm.getAndPopulateNoLock (trimSpaceStr name) = (.error errNoTagsAvailable, t) := by
      simp [TagMan.getAndPopulateNoLock, hn, hr]
    rw [hadd, hgp, hr, hnl]
    exact ⟨rfl, rfl, fun vs => by simp [TagMan.importTags, hnl]⟩

theorem addTag_spec_on_fresh_file :
    ∃ tm, tagsNew "tags.dat" (.missing healthyDisk) = .ok tm ∧
      ∃ i, FreeId tm.tagKeys i ∧ (tm.addTag "x").1 = .ok () ∧ (tm.getAndPopulate "x").1 = .ok i := by
  have h : tagsNew "tags.dat" (.missing healthyDisk) = .ok _ := rfl
  obtain ⟨hi, hdef, hgr⟩ := tagsNew_spec h
  obtain ⟨i, hfree, hadd, -, hgp, -⟩ := (@TagMan.addTag_spec _ "x" ⟨hi, hdef, hgr⟩ rfl
    ⟨_, rfl, fun _ => rfl⟩ rfl rfl).1 ⟨1, by decide, by decide, rfl⟩
  exact ⟨_, h, i, hfree, hadd, hgp⟩

/-- **An allocation stopped by the file.** On a fresh `tags.dat` whose requests fail from the
sixth on, `AddTag(x)` finds id 1 free and its seek succeeds, but its write fails: the call
returns the write's error, and `x ↦ 1` stays in both maps. -/
theorem addTag_failed_write :
    ∃ tm, tagsNew "tags.dat" (.missing fun n => decide (5 ≤ n)) = .ok tm ∧ FreeId tm.tagKeys 1 ∧
      tm.tags "x" = none ∧ (tm.addTag "x").1 = .error .io ∧ (tm.addTag "x").2.tags "x" = some 1 ∧
      (tm.addTag "x").2.tagKeys 1 = some "x" :=
  ⟨_, rfl, ⟨by decide, by decide, rfl⟩, rfl, rfl, rfl, rfl⟩

end CloudArchive.Tags
