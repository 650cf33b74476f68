import CloudArchive.Tags.Persist

/-!
# Tags — what `Merge` does

`Merge(I)` walks the list: a pair whose id or name the maps hold must be held exactly, and a
pair with neither is assigned (checked by `CheckTag`, added to both maps, its line appended).
Read as sets of `(name, id)` pairs, on a manager whose maps are inverse and whose `tags.dat`
answers every request, the walk succeeds iff `S ∪ I` is still a bijection and every name new to
`S` passes `CheckTag` (`Dict.Mergeable`); it then leaves exactly `S ∪ I`, has appended the new
pairs in order, and reports `updated` iff `I` held a new pair (`TagMan.merge_spec`).

The pairs are applied and written one at a time and nothing is undone, so a merge that fails
at a later pair keeps the pairs it assigned before it, and a failed seek or write stops a
merge that the maps alone would accept.
-/

namespace CloudArchive.Tags

/-! ## `S ∪ I` -/

/-- The pairs of the maps and of the list together, `S ∪ I`. -/
def Dict.union (d : Dict) (ps : List TagPair) (n : String) (i : EntryTag) : Prop :=
  d.tags n = some i ∨ ⟨n, i⟩ ∈ ps

/-- A set of `(name, id)` pairs is a bijection: two of its pairs share a name iff they share an
id. -/
def Bijective (r : String → EntryTag → Prop) : Prop :=
  ∀ n i n' i', r n i → r n' i' → (n = n' ↔ i = i')

/-- A pair the maps do not hold. -/
def Dict.IsNew (d : Dict) (p : TagPair) : Prop := d.tags p.name ≠ some p.value

/-- What `Merge` asks of the list: `S ∪ I` is a bijection and every new name passes
`CheckTag`. -/
def Dict.Mergeable (d : Dict) (ps : List TagPair) : Prop :=
  Bijective (d.union ps) ∧ ∀ p ∈ ps, d.IsNew p → checkTag p.name = true

theorem Dict.union_cons_of_stored {d : Dict} {v : TagPair} (hv : d.tags v.name = some v.value)
    (vs : List TagPair) (n : String) (i : EntryTag) : d.union (v :: vs) n i ↔ d.union vs n i := by
  simp only [Dict.union, List.mem_cons]
  constructor
  · rintro (h | rfl | h)
    · exact .inl h
    · exact .inl hv
    · exact .inr h
  · rintro (h | h)
    · exact .inl h
    · exact .inr (.inr h)

theorem Dict.union_insert {d : Dict} {v : TagPair} (hv : d.tags v.name = none)
    (vs : List TagPair) (n : String) (i : EntryTag) :
    (d.insert v.name v.value).union vs n i ↔ d.union (v :: vs) n i := by
  simp only [Dict.union, Dict.insert, List.mem_cons, Function.update_apply]
  by_cases hn : n = v.name
  · subst hn
    have e : (⟨v.name, i⟩ : TagPair) = v ↔ v.value = i := by cases v; simp [eq_comm]
    simp [hv, e]
  · have : (⟨n, i⟩ : TagPair) ≠ v := fun e => hn (by rw [← e])
    simp only [hn, if_false, this, false_or]

theorem Dict.isNew_of_insert {d : Dict} {v p : TagPair} (hv : d.tags v.name = none)
    (h : (d.insert v.name v.value).IsNew p) : d.IsNew p := by
  by_cases hn : p.name = v.name
  · simp [Dict.IsNew, hn, hv]
  · simpa [Dict.IsNew, Dict.insert, Function.update_apply, hn] using h

theorem Dict.isNew_insert {d : Dict} {v p : TagPair} (h : d.IsNew p) (hp : p ≠ v) :
    (d.insert v.name v.value).IsNew p := by
  by_cases hn : p.name = v.name
  · simp only [Dict.IsNew, Dict.insert, hn, Function.update_same, ne_eq, Option.some.injEq]
    exact fun e => hp (by cases p; cases v; simp_all)
  · simpa [Dict.IsNew, Dict.insert, Function.update_apply, hn] using h

theorem Dict.mergeable_cons_of_stored {d : Dict} {v : TagPair} (hv : d.tags v.name = some v.value)
    (vs : List TagPair) : d.Mergeable (v :: vs) ↔ d.Mergeable vs := by
  simp only [Dict.Mergeable, Bijective, Dict.union_cons_of_stored hv, List.forall_mem_cons,
    Dict.IsNew, hv, ne_eq, not_true_eq_false, false_implies, true_and]

theorem Dict.mergeable_cons_of_absent {d : Dict} {v : TagPair} (hv : d.tags v.name = none)
    (vs : List TagPair) :
    d.Mergeable (v :: vs) ↔ checkTag v.name = true ∧ (d.insert v.name v.value).Mergeable vs := by
  have hnew : d.IsNew v := by simp [Dict.IsNew, hv]
  simp only [Dict.Mergeable, Bijective, ← Dict.union_insert hv, List.forall_mem_cons]
  constructor
  · rintro ⟨hb, hc, hcs⟩
    exact ⟨hc hnew, hb, fun p hp hn => hcs p hp (Dict.isNew_of_insert hv hn)⟩
  · rintro ⟨hc, hb, hcs⟩
    refine ⟨hb, fun _ => hc, fun p hp hn => ?_⟩
    by_cases e : p = v
    · exact e ▸ hc
    · exact hcs p hp (Dict.isNew_insert hn e)

theorem Dict.Inverse.mergeable_nil {d : Dict} (hd : d.Inverse) : d.Mergeable [] := by
  refine ⟨fun n i n' i' h h' => ?_, by simp⟩
  simp only [Dict.union, List.not_mem_nil, or_false] at h h'
  constructor
  · rintro rfl; exact Option.some.inj (h.symm.trans h')
  · rintro rfl; exact Option.some.inj (((hd n i).mp h).symm.trans ((hd n' i).mp h'))

/-- A pair that clashes with one the maps hold makes `S ∪ I` no bijection. -/
theorem Dict.not_mergeable_of_clash {d : Dict} {v : TagPair} {vs : List TagPair} {n : String}
    {i : EntryTag} (hs : d.tags n = some i) (hne : (n = v.name ↔ i = v.value) → False) :
    ¬ d.Mergeable (v :: vs) :=
  fun h => hne (h.1 n i v.name v.value (.inl hs) (.inr (.head _)))

theorem Dict.newPairs_cons_of_absent {d : Dict} {v : TagPair} (hv : d.tags v.name = none)
    {vs ps : List TagPair} (h : ∀ p, p ∈ ps ↔ p ∈ vs ∧ (d.insert v.name v.value).IsNew p) :
    ∀ p, p ∈ v :: ps ↔ p ∈ v :: vs ∧ d.IsNew p := by
  intro p
  by_cases e : p = v
  · subst e; simp [Dict.IsNew, hv]
  · simp only [List.mem_cons, e, false_or, h]
    exact ⟨fun ⟨hp, hn⟩ => ⟨hp, Dict.isNew_of_insert hv hn⟩,
      fun ⟨hp, hn⟩ => ⟨hp, Dict.isNew_insert hn e⟩⟩

theorem Dict.newPairs_cons_of_stored {d : Dict} {v : TagPair} (hv : d.tags v.name = some v.value)
    {vs ps : List TagPair} (h : ∀ p, p ∈ ps ↔ p ∈ vs ∧ d.IsNew p) :
    ∀ p, p ∈ ps ↔ p ∈ v :: vs ∧ d.IsNew p := by
  intro p
  rw [h, List.mem_cons]
  constructor
  · exact fun ⟨hp, hn⟩ => ⟨.inr hp, hn⟩
  · rintro ⟨rfl | hp, hn⟩
    · exact absurd hv hn
    · exact ⟨hp, hn⟩

/-! ## A manager whose file answers every request -/

/-- The manager's `tags.dat` is open and answers every request. -/
def TagMan.Healthy (tm : TagMan) : Prop := ∃ f, tm.fout = some f ∧ ∀ n, f.fails n = false

/-- `assignTag` of a fresh, valid pair on a healthy manager: it succeeds, stays healthy, and
has added and written the pair. -/
theorem TagMan.assignTag_healthy {tm : TagMan} {name : String} {value : EntryTag}
    (hh : tm.Healthy) (hc : checkTag name = true) (hn : tm.tags name = none)
    (hi : tm.tagKeys value = none) :
    ∃ t, tm.assignTag name value = (.ok (), t) ∧ t.Healthy ∧ t.active = tm.active ∧
      Writes tm t [⟨name, value⟩] := by
  obtain ⟨f, hf, hff⟩ := hh
  refine ⟨{ tm.insert name value with
      fout := some { f with data := f.data ++ tagLine name value, ops := f.ops + 1 + 1 } },
    ?_, ⟨_, rfl, hff⟩, rfl, ⟨⟨⟨hn, hi, hc⟩, trivial⟩, rfl, fun f₀ hf₀ => ?_⟩⟩
  · simp [TagMan.assignTag, hc, TagMan.io, TagMan.insert, hf, TagFile.seek, TagFile.write,
      TagFile.request, hff]
  · cases hf.symm.trans hf₀
    exact ⟨_, rfl, by simp [tagLines]⟩

/-! ## The loop -/

/-- `t` is `tm` after the loop of `Merge` went through `s` from `updated = u` and returned
`upd`: the maps hold exactly `S ∪ s`, the new pairs of `s` were added and written in order,
and `upd` says whether there was one. -/
structure Merged (tm : TagMan) (s : List TagPair) (u upd : Bool) (t : TagMan) : Prop where
  tags : ∀ n i, t.tags n = some i ↔ tm.dict.union s n i
  writes : ∃ ps, Writes tm t ps ∧ ∀ p, p ∈ ps ↔ p ∈ s ∧ tm.dict.IsNew p
  updated : upd = (u || s.any fun p => tm.tags p.name != some p.value)
  healthy : t.Healthy
  active : t.active = tm.active

theorem Merged.nil {tm : TagMan} (u : Bool) (hh : tm.Healthy) : Merged tm [] u u tm where
  tags _ _ := by simp [Dict.union, TagMan.dict]
  writes := ⟨[], .refl tm, by simp⟩
  updated := by simp
  healthy := hh
  active := rfl

/-- The loop of `Merge` on a healthy manager with inverse maps: it succeeds iff the list is
mergeable, and then it has merged the list. -/
theorem TagMan.mergeLoop_healthy (s : List TagPair) :
    ∀ {tm : TagMan} (u : Bool), tm.dict.Inverse → tm.Healthy →
      ((tm.mergeLoop s u).1.2 = .ok () ↔ tm.dict.Mergeable s) ∧
      ((tm.mergeLoop s u).1.2 = .ok () →
        Merged tm s u (tm.mergeLoop s u).1.1 (tm.mergeLoop s u).2) := by
  induction s with
  | nil =>
    intro tm u hd hh
    exact ⟨iff_of_true rfl hd.mergeable_nil, fun _ => Merged.nil u hh⟩
  | cons v vs ih =>
    intro tm u hd hh
    rcases hk : tm.tagKeys v.value with _ | n'
    · rcases ht : tm.tags v.name with _ | i'
      · -- neither the id nor the name is stored: the pair is assigned
        by_cases hc : checkTag v.name = true
        · obtain ⟨t, hat, hth, hta, htw⟩ := TagMan.assignTag_healthy hh hc ht hk
          have htd : t.dict = tm.dict.insert v.name v.value := htw.dict
          have hinv : t.dict.Inverse := htd ▸ hd.insert ht hk
          obtain ⟨hiff, hmerged⟩ := ih true hinv hth
          have hstep : tm.mergeLoop (v :: vs) u = t.mergeLoop vs true := by
            simp [TagMan.mergeLoop, hk, ht, hat]
          rw [hstep]
          refine ⟨hiff.trans ?_, fun h => ?_⟩
          · rw [htd, Dict.mergeable_cons_of_absent ht, and_iff_right hc]
          obtain ⟨htags, ⟨ps, hw, hps⟩, hupd, hh', ha'⟩ := hmerged h
          exact ⟨fun n i => (htags n i).trans (htd ▸ Dict.union_insert ht vs n i),
            ⟨v :: ps, htw.trans hw, Dict.newPairs_cons_of_absent ht (htd ▸ hps)⟩,
            by rw [hupd]; simp [ht], hh', ha'.trans hta⟩
        · have hat : tm.assignTag v.name v.value = (.error .checkTag, tm) := by
            simp [TagMan.assignTag, hc]
          have herr : (tm.mergeLoop (v :: vs) u).1.2 ≠ .ok () := by
            simp [TagMan.mergeLoop, hk, ht, hat]
          exact ⟨iff_of_false herr fun hm => hc ((Dict.mergeable_cons_of_absent ht vs).mp hm).1,
            fun h => absurd h herr⟩
      · -- the name is stored with another id
        have hne : i' ≠ v.value := fun e => by
          subst e; exact absurd (((hd _ _).mp ht).symm.trans hk) (by simp)
        have herr : (tm.mergeLoop (v :: vs) u).1.2 ≠ .ok () := by
          simp [TagMan.mergeLoop, hk, ht, hne]
        exact ⟨iff_of_false herr (Dict.not_mergeable_of_clash ht fun h => hne (h.mp rfl)),
          fun h => absurd h herr⟩
    · by_cases hn : n' = v.name
      · -- the pair is stored: it is passed over
        subst hn
        have ht : tm.tags v.name = some v.value := (hd _ _).mpr hk
        have hstep : tm.mergeLoop (v :: vs) u = tm.mergeLoop vs u := by
          simp [TagMan.mergeLoop, hk, ht]
        obtain ⟨hiff, hmerged⟩ := ih u hd hh
        rw [hstep]
        refine ⟨hiff.trans (Dict.mergeable_cons_of_stored ht vs).symm, fun h => ?_⟩
        obtain ⟨htags, ⟨ps, hw, hps⟩, hupd, hh', ha'⟩ := hmerged h
        exact ⟨fun n i => (htags n i).trans (Dict.union_cons_of_stored ht vs n i).symm,
          ⟨ps, hw, Dict.newPairs_cons_of_stored ht hps⟩, by rw [hupd]; simp [ht], hh', ha'⟩
      · -- the id is stored with another name
        have herr : (tm.mergeLoop (v :: vs) u).1.2 ≠ .ok () := by
          simp [TagMan.mergeLoop, hk, hn]
        exact ⟨iff_of_false herr (Dict.not_mergeable_of_clash ((hd _ _).mpr hk)
          fun h => hn (h.mpr rfl)), fun h => absurd h herr⟩

/-- On maps that hold every pair of the list, the loop passes over them all. -/
theorem TagMan.mergeLoop_of_stored {tm : TagMan} (hd : tm.dict.Inverse) :
    ∀ {s : List TagPair} (u : Bool), (∀ p ∈ s, tm.tags p.name = some p.value) →
      tm.mergeLoop s u = ((u, .ok ()), tm)
  | [], _, _ => rfl
  | v :: vs, u, h => by
    have ht := h v (.head _)
    have hk : tm.tagKeys v.value = some v.name := (hd _ _).mp ht
    simp only [TagMan.mergeLoop, hk, ht, Option.isSome_some, bne_self_eq_false, Bool.and_false,
      Bool.false_eq_true, if_false, Bool.true_or, if_true]
    exact TagMan.mergeLoop_of_stored hd u fun p hp => h p (.tail _ hp)

/-! ## `Merge` -/

/-- **`Merge` on a healthy manager.** On an active manager whose maps are inverse and whose
`tags.dat` answers every request, `Merge(s)` of a list `checkTagSet` accepts succeeds iff
`S ∪ s` is a bijection and every name new to `S` passes `CheckTag`. Then the maps are inverse
and hold exactly `S ∪ s`, the new pairs were appended to the file in order, `updated` says
whether `s` held a new pair, and a second `Merge(s)` reports no update and changes nothing. -/
theorem TagMan.merge_spec {tm : TagMan} {s : List TagPair} (hd : tm.dict.Inverse)
    (ha : tm.active = true) (hh : tm.Healthy) (hs : checkTagSet s = .ok ()) :
    ((tm.merge s).1.2 = .ok () ↔ tm.dict.Mergeable s) ∧
    ((tm.merge s).1.2 = .ok () →
      (∀ n i, (tm.merge s).2.tags n = some i ↔ tm.dict.union s n i) ∧
      (tm.merge s).2.dict.Inverse ∧
      (∃ ps, Writes tm (tm.merge s).2 ps ∧ ∀ p, p ∈ ps ↔ p ∈ s ∧ tm.dict.IsNew p) ∧
      ((tm.merge s).1.1 = true ↔ ∃ p ∈ s, tm.dict.IsNew p) ∧
      (tm.merge s).2.merge s = ((false, .ok ()), (tm.merge s).2)) := by
  have hm : tm.merge s = tm.mergeLoop s false := by simp [TagMan.merge, hs, ha]
  obtain ⟨hiff, hmerged⟩ := TagMan.mergeLoop_healthy s false hd hh
  rw [hm]
  refine ⟨hiff, fun h => ?_⟩
  obtain ⟨htags, hw, hupd, -, hact⟩ := hmerged h
  have hinv : (tm.mergeLoop s false).2.dict.Inverse := (tm.mergeLoop_grows s false).inverse hd
  refine ⟨htags, hinv, hw, by simp [hupd, Dict.IsNew, TagMan.dict], ?_⟩
  rw [TagMan.merge, hs]
  simp only [hact, ha, Bool.not_true, Bool.false_eq_true, if_false]
  exact TagMan.mergeLoop_of_stored hinv false fun p hp => (htags _ _).mpr (.inr hp)

theorem merge_spec_on_fresh_file :
    ∃ tm, tagsNew "tags.dat" (.missing healthyDisk) = .ok tm ∧
      ((tm.merge [⟨"x", 5⟩]).1.2 = .ok () ↔ tm.dict.Mergeable [⟨"x", 5⟩]) :=
  let h : tagsNew "tags.dat" (.missing healthyDisk) = .ok _ := rfl
  ⟨_, h, (@TagMan.merge_spec _ [⟨"x", 5⟩] (tagsNew_spec h).1 rfl ⟨_, rfl, fun _ => rfl⟩ rfl).1⟩

/-- **A merge the maps accept, stopped by the file.** On a fresh `tags.dat` whose requests
fail from the fifth on (the first four are `New`'s), `Merge([{x,5}])` is mergeable but returns
the error of the seek `assignTag` makes. -/
theorem merge_failed_seek :
    ∃ tm, tagsNew "tags.dat" (.missing fun n => decide (4 ≤ n)) = .ok tm ∧
      tm.dict.Mergeable [⟨"x", 5⟩] ∧ (tm.merge [⟨"x", 5⟩]).1.2 = .error .io := by
  have h : tagsNew "tags.dat" (.missing fun n => decide (4 ≤ n)) = .ok _ := rfl
  obtain ⟨_, -, -, hdict⟩ := tagsNew_missing_writes h
  let t : TagMan := ⟨(Dict.empty.insertAll reservedPairs).tagKeys,
    (Dict.empty.insertAll reservedPairs).tags, 1, some ⟨[], healthyDisk, 0⟩, true⟩
  have ht : t.dict.Inverse := hdict ▸ (tagsNew_spec h).1
  exact ⟨_, h, hdict ▸ (TagMan.mergeLoop_healthy _ false ht ⟨_, rfl, fun _ => rfl⟩).1.mp rfl, rfl⟩

/-- **A failed merge keeps what it assigned.** On a fresh `tags.dat`, `Merge([{x,5},{y,0}])`
assigns `x` to 5 and appends its line, then fails on `y`, whose id 0 is `default`'s. The call
returns the error (and `updated`), and `x ↦ 5` stays in both maps and in the file. -/
theorem merge_error_keeps_earlier_pair :
    ∃ tm, tagsNew "tags.dat" (.missing healthyDisk) = .ok tm ∧ tm.tags "x" = none ∧
      (tm.merge [⟨"x", 5⟩, ⟨"y", 0⟩]).1 =
        (true, .error (.msg "y tag exists in current set and does not match provided set")) ∧
      (tm.merge [⟨"x", 5⟩, ⟨"y", 0⟩]).2.tags "x" = some 5 ∧
      (tm.merge [⟨"x", 5⟩, ⟨"y", 0⟩]).2.tagKeys 5 = some "x" ∧
      ∃ f, (tm.merge [⟨"x", 5⟩, ⟨"y", 0⟩]).2.fout = some f ∧
        f.data = "default=0\ngravwell=65535\nx=5\n".data :=
  ⟨_, rfl, rfl, rfl, rfl, rfl, _, rfl, rfl⟩

end CloudArchive.Tags
