import CloudArchive.Tags.Load

/-!
# Tags — how the calls change the dictionary

The dictionary of a manager is its two maps, `tags` and `tagKeys`. Every call except
`ResetOverride` changes them only by adding pairs whose name and id are both absent:
`Grows ok d d'` says that `d'` is `d` with such pairs added, each name passing `ok`.

The checks that make a pair fresh are the code's own: `allocateTag` asks `tagKeys` for the
id and its callers ask `tags` for the name, while `Merge`, `ensureTag` and `loadTags` ask
both. So the lemmas of this module assume nothing about the state a call starts from, and a
failed call is covered too: it stops after some of its inserts, and each of them was fresh.
What a fresh insert keeps, inverse maps and the pairs already stored, then holds over whole
runs (`Tags.Invariant`).
-/

namespace CloudArchive.Tags

/-- The two maps of a manager. -/
structure Dict where
  tags : String → Option EntryTag
  tagKeys : EntryTag → Option String

/-- The dictionary of a manager. -/
def TagMan.dict (tm : TagMan) : Dict := ⟨tm.tags, tm.tagKeys⟩

/-- The maps of a manager before anything is loaded. -/
def Dict.empty : Dict := ⟨fun _ => none, fun _ => none⟩

/-- The pair `name ↔ id` written into both maps. -/
def Dict.insert (d : Dict) (name : String) (id : EntryTag) : Dict :=
  ⟨Function.update d.tags name (some id), Function.update d.tagKeys id (some name)⟩

@[simp] theorem TagMan.insert_dict (tm : TagMan) (name : String) (id : EntryTag) :
    (tm.insert name id).dict = tm.dict.insert name id := rfl

/-- `tags` and `tagKeys` are inverse maps. -/
def Dict.Inverse (d : Dict) : Prop := ∀ n i, d.tags n = some i ↔ d.tagKeys i = some n

theorem Dict.empty_inverse : Dict.empty.Inverse := fun _ _ => by simp [Dict.empty]

/-- A pair absent from both maps keeps them inverse. -/
theorem Dict.Inverse.insert {d : Dict} (h : d.Inverse) {n : String} {i : EntryTag}
    (hn : d.tags n = none) (hi : d.tagKeys i = none) : (d.insert n i).Inverse := by
  intro n' i'
  by_cases hn' : n' = n <;> by_cases hi' : i' = i <;>
    simp only [Dict.insert, Function.update_apply, hn', hi', if_true, if_false]
  · rw [← h n i', hn]; simp [Ne.symm hi']
  · rw [h n' i, hi]; simp [Ne.symm hn']
  · exact h n' i'

/-! ## Growth by fresh pairs -/

/-- `d'` is `d` with fresh pairs added, one at a time, each name passing `ok`. -/
inductive Grows (ok : String → Prop) (d : Dict) : Dict → Prop
  | refl : Grows ok d d
  | insert {d' : Dict} (n : String) (i : EntryTag) : Grows ok d d' → d'.tags n = none →
      d'.tagKeys i = none → ok n → Grows ok d (d'.insert n i)

section Grows

variable {ok ok' : String → Prop} {d d₁ d₂ d₃ : Dict}

theorem Grows.trans (h₁ : Grows ok d₁ d₂) (h₂ : Grows ok d₂ d₃) : Grows ok d₁ d₃ := by
  induction h₂ with
  | refl => exact h₁
  | insert n i _ hn hi hok ih => exact .insert n i ih hn hi hok

theorem Grows.mono (hok : ∀ n, ok n → ok' n) (h : Grows ok d₁ d₂) : Grows ok' d₁ d₂ := by
  induction h with
  | refl => exact .refl
  | insert n i _ hn hi hn' ih => exact .insert n i ih hn hi (hok n hn')

/-- One fresh insert into a manager's maps. -/
theorem Grows.insert_of {tm : TagMan} {n : String} {i : EntryTag} (h : Grows ok d tm.dict)
    (hn : tm.tags n = none) (hi : tm.tagKeys i = none) (hok : ok n) :
    Grows ok d (tm.insert n i).dict :=
  .insert n i h hn hi hok

theorem Grows.inverse (h : Grows ok d₁ d₂) (hd : d₁.Inverse) : d₂.Inverse := by
  induction h with
  | refl => exact hd
  | insert _ _ _ hn hi _ ih => exact ih.insert hn hi

/-- A stored pair stays. -/
theorem Grows.tags_some (h : Grows ok d₁ d₂) {n : String} {i : EntryTag}
    (hs : d₁.tags n = some i) : d₂.tags n = some i := by
  induction h with
  | refl => exact hs
  | insert m _ _ hm _ _ ih =>
    have hne : n ≠ m := fun e => by simp [e, hm] at ih
    simpa [Dict.insert, hne] using ih

/-- Every name of `d₂` is a name of `d₁` or passed `ok`. -/
theorem Grows.mem (h : Grows ok d₁ d₂) {n : String} {i : EntryTag} (hs : d₂.tags n = some i) :
    (∃ j, d₁.tags n = some j) ∨ ok n := by
  induction h generalizing i with
  | refl => exact .inl ⟨i, hs⟩
  | insert m j _ _ _ hok ih =>
    by_cases hnm : n = m
    · exact .inr (hnm ▸ hok)
    · exact ih (by simpa [Dict.insert, hnm] using hs)

end Grows

/-! ## The calls, one lemma each -/

section Calls

variable {tm : TagMan}

/-- An I/O request changes no map; the rest of the call starts from the same maps. -/
theorem TagMan.io_grows {α : Type} {ok : String → Prop} {d : Dict}
    {req : TagFile → Except TagErr Unit × TagFile} {k : TagMan → Except TagErr α × TagMan}
    (h : Grows ok d tm.dict) (hk : ∀ f, Grows ok d (k { tm with fout := some f }).2.dict) :
    Grows ok d (tm.io req k).2.dict := by
  unfold TagMan.io
  split
  · exact h
  · split
    · exact h
    · exact hk _

theorem TagMan.allocateTag_grows {name : String} (hn : tm.tags name = none) :
    Grows (checkTag · = true) tm.dict (tm.allocateTag name).2.dict := by
  unfold TagMan.allocateTag
  split
  · exact .refl
  · rename_i hc
    refine TagMan.io_grows .refl fun f => ?_
    split
    · exact .refl
    · split
      · rename_i hi
        have hc' : checkTag name = true := by simpa using hc
        refine TagMan.io_grows ?_ fun _ => ?_ <;>
          exact .insert_of .refl hn (Option.isNone_iff_eq_none.mp hi) hc'
      · exact .refl

theorem TagMan.getAndPopulateNoLock_grows (name : String) :
    Grows (checkTag · = true) tm.dict (tm.getAndPopulateNoLock name).2.dict := by
  unfold TagMan.getAndPopulateNoLock
  split
  · exact .refl
  · rename_i hn
    have h := TagMan.allocateTag_grows hn
    rcases hr : tm.allocateTag name with ⟨_ | ⟨⟨⟩⟩, t⟩ <;> rw [hr] at h
    · exact h
    · dsimp only
      split <;> exact h

theorem TagMan.importTags_grows (names : List String) :
    Grows (checkTag · = true) tm.dict (tm.importTags names).2.dict := by
  induction names generalizing tm with
  | nil => exact .refl
  | cons v vs ih =>
    have h := tm.getAndPopulateNoLock_grows (trimSpaceStr v)
    simp only [TagMan.importTags]
    rcases hr : tm.getAndPopulateNoLock (trimSpaceStr v) with ⟨_ | _, t⟩ <;> rw [hr] at h
    · exact h
    · exact h.trans ih

theorem TagMan.addTag_grows (name : String) :
    Grows (checkTag · = true) tm.dict (tm.addTag name).2.dict := by
  unfold TagMan.addTag
  dsimp only
  split
  · exact .refl
  · split
    · exact .refl
    · rename_i hn
      exact TagMan.allocateTag_grows (by simpa using hn)

theorem TagMan.getAndPopulate_grows (name : String) :
    Grows (checkTag · = true) tm.dict (tm.getAndPopulate name).2.dict := by
  unfold TagMan.getAndPopulate
  split
  · exact .refl
  · exact tm.getAndPopulateNoLock_grows _

/-- `ensureTag` adds at most its own pair, and only when both sides are absent. -/
theorem TagMan.ensureTag_grows (id : EntryTag) (name : String) :
    Grows (· = name) tm.dict (tm.ensureTag id name).2.dict := by
  unfold TagMan.ensureTag
  split
  · rename_i hc
    simp only [Bool.and_eq_true, Option.isNone_iff_eq_none] at hc
    exact .insert_of .refl hc.2 hc.1 rfl
  · split <;> exact .refl

/-- A successful `ensureTag` on inverse maps leaves its pair stored. -/
theorem TagMan.ensureTag_stores {id : EntryTag} {name : String} (hd : tm.dict.Inverse)
    (h : (tm.ensureTag id name).1 = .ok ()) : (tm.ensureTag id name).2.tags name = some id := by
  unfold TagMan.ensureTag at h ⊢
  split_ifs at h ⊢ with hc hm
  · simp [TagMan.insert]
  · simp only [Bool.or_eq_true, bne_iff_ne, ne_eq, not_or, not_not] at hm
    cases ht : tm.tags name with
    | some j => simp [ht] at hm; simp [hm.1]
    | none =>
      cases hk : tm.tagKeys id with
      | none => simp [hk, ht] at hc
      | some m =>
        simp only [hk, Option.getD_some] at hm
        have hs := (hd name id).mpr (by simp [TagMan.dict, hk, hm.2])
        simp [TagMan.dict, ht] at hs

theorem TagMan.assignTag_grows {name : String} {value : EntryTag} (hn : tm.tags name = none)
    (hi : tm.tagKeys value = none) :
    Grows (checkTag · = true) tm.dict (tm.assignTag name value).2.dict := by
  unfold TagMan.assignTag
  split
  · exact .refl
  · rename_i hc
    replace hc : checkTag name = true := by simpa using hc
    refine TagMan.io_grows .refl fun _ => TagMan.io_grows ?_ fun _ => ?_ <;>
      exact .insert_of .refl hn hi hc

theorem TagMan.mergeLoop_grows (s : List TagPair) (updated : Bool) :
    Grows (checkTag · = true) tm.dict (tm.mergeLoop s updated).2.dict := by
  induction s generalizing tm updated with
  | nil => exact .refl
  | cons v vs ih =>
    simp only [TagMan.mergeLoop]
    split
    · exact .refl
    · split
      · exact .refl
      · split
        · exact ih _
        · rename_i hc
          simp only [Bool.or_eq_true, Option.isSome_iff_ne_none, ne_eq, not_or, not_not] at hc
          have h := tm.assignTag_grows hc.2 hc.1
          rcases hr : tm.assignTag v.name v.value with ⟨_ | ⟨⟨⟩⟩, t⟩ <;> rw [hr] at h
          · exact h
          · exact h.trans (ih _)

theorem TagMan.merge_grows (s : List TagPair) :
    Grows (checkTag · = true) tm.dict (tm.merge s).2.dict := by
  unfold TagMan.merge
  split
  · exact .refl
  · split
    · exact .refl
    · exact tm.mergeLoop_grows s false

/-! ## Opening `tags.dat` -/

/-- The read loop adds only fresh pairs. -/
theorem TagMan.loadLines_grows {tm' : TagMan} {ls : List (List Char)}
    (h : tm.loadLines ls = .ok tm') : Grows (fun _ => True) tm.dict tm'.dict := by
  induction ls generalizing tm with
  | nil => cases h; exact .refl
  | cons line rest ih =>
    simp only [TagMan.loadLines] at h
    split at h
    · exact ih h
    · split at h
      · cases h
      · split at h
        · cases h
        · split at h
          · cases h
          · split at h
            · cases h
            · split at h
              · cases h
              · rename_i hi hn
                exact (Grows.insert_of .refl (by simpa using hn) (by simpa using hi)
                  trivial).trans (ih h)

/-- What `loadTags` does to the maps: the read loop, then `ensureTag` of the reserved pairs,
which are stored after it. -/
theorem TagMan.loadTags_spec {tm' : TagMan} {unread : List Char} (hd : tm.dict.Inverse)
    (h : tm.loadTags unread = .ok tm') :
    ∃ t, { tm with active := true }.loadLines (readLines unread) = .ok t ∧
      Grows (fun n => n = defaultTagName ∨ n = gravwellTagName) t.dict tm'.dict ∧
      tm'.tags defaultTagName = some defaultTagId ∧
      tm'.tags gravwellTagName = some gravwellTagId := by
  unfold TagMan.loadTags at h
  split at h
  · cases h
  · rename_i t ht
    have g₁ := t.ensureTag_grows defaultTagId defaultTagName
    have hd₁ : t.dict.Inverse := (TagMan.loadLines_grows ht).inverse hd
    split at h
    · cases h
    · rename_i t₁ hr₁
      have hs₁ := t.ensureTag_stores hd₁ (by rw [hr₁])
      rw [hr₁] at g₁ hs₁
      have g₂ := t₁.ensureTag_grows gravwellTagId gravwellTagName
      split at h
      · cases h
      · rename_i t₂ hr₂
        have hs₂ := t₁.ensureTag_stores (g₁.inverse hd₁) (by rw [hr₂])
        rw [hr₂] at g₂ hs₂
        split at h
        · cases h
        · cases h
          have g := (g₁.mono fun _ h => Or.inl h).trans (g₂.mono fun _ h => Or.inr h)
          exact ⟨t, ht, g, g₂.tags_some hs₁, hs₂⟩

/-- What `New` leaves in the maps after `os.Stat`: the reserved pairs, stored, and the pairs
of the file it read; a fresh file holds no others. -/
theorem openTagFile_spec {f : TagFile} {newFile : Bool} {tm : TagMan}
    (h : openTagFile f newFile = .ok tm) :
    Grows (fun n => newFile = false ∨ n = defaultTagName ∨ n = gravwellTagName) Dict.empty
        tm.dict ∧
      tm.tags defaultTagName = some defaultTagId ∧
      tm.tags gravwellTagName = some gravwellTagId := by
  unfold openTagFile at h
  dsimp only at h
  split at h
  · cases h
  · rename_i t hop
    have g : Grows (fun n => newFile = false ∨ n = defaultTagName ∨ n = gravwellTagName)
        Dict.empty t.dict := by
      have e := congrArg Prod.snd hop
      dsimp only at e
      rw [← e]
      refine TagMan.io_grows .refl fun _ => TagMan.io_grows .refl fun _ => ?_
      cases newFile
      · exact .refl
      · have g₁ : Grows (fun n => true = false ∨ n = defaultTagName ∨ n = gravwellTagName)
            Dict.empty (Dict.empty.insert defaultTagName defaultTagId) :=
          .insert _ _ .refl rfl rfl (Or.inr (Or.inl rfl))
        exact TagMan.io_grows .refl fun _ => TagMan.io_grows g₁ fun _ =>
          .insert_of g₁ rfl rfl (Or.inr (Or.inr rfl))
    obtain ⟨t', hl, g', hd, hg⟩ := t.loadTags_spec (g.inverse Dict.empty_inverse) h
    have gl : Grows (fun n => newFile = false ∨ n = defaultTagName ∨ n = gravwellTagName)
        t.dict t'.dict := by
      cases newFile
      · exact (TagMan.loadLines_grows hl).mono fun _ _ => Or.inl rfl
      · cases hl; exact .refl
    exact ⟨(g.trans gl).trans (g'.mono fun _ hn => Or.inr hn), hd, hg⟩

/-- `New` on any path: inverse maps holding the reserved pairs. -/
theorem tagsNew_spec {path : String} {p : TagPath} {tm : TagMan} (h : tagsNew path p = .ok tm) :
    tm.dict.Inverse ∧ tm.tags defaultTagName = some defaultTagId ∧
      tm.tags gravwellTagName = some gravwellTagId := by
  cases p with
  | missing fails =>
    obtain ⟨g, hd⟩ := openTagFile_spec h
    exact ⟨g.inverse Dict.empty_inverse, hd⟩
  | file f =>
    obtain ⟨g, hd⟩ := openTagFile_spec h
    exact ⟨g.inverse Dict.empty_inverse, hd⟩
  | dir => cases h
  | irregular => cases h

end Calls

end CloudArchive.Tags
