import CloudArchive.Tags.Dict

/-!
# Tags — the dictionary invariant over whole runs

`TagInv` is what the tag manager is for: the two maps are inverse bijections, the reserved
pairs `default → 0` and `gravwell → 0xFFFF` are there, and every other name passes
`CheckTag` and holds an id in `[1, 0xFFFE]`. A `TagMan` is reachable when it comes out of a
successful `New` and any sequence of mutating calls after it, each of which may succeed or
fail (`TagOp`, `TagMan.apply`).

`AddTag`, `ImportTags`, `GetAndPopulate`, `EnsureTag` and `Merge` only add fresh pairs
(`Tags.Dict`), so they keep the maps inverse and the reserved pairs in place on every
outcome, from any file `New` opens (`DictInv`); `EnsureTag` and the file's lines bring names
that `CheckTag` never saw, so the whole `TagInv` holds from a fresh file when `EnsureTag` is
given valid names. `ResetOverride` writes its list as given: a list that repeats an id puts
two names on one id, so the invariant fails on a reachable state.
-/

namespace CloudArchive.Tags

/-- The mutating calls of the `TagManager` interface. -/
inductive TagOp
  | addTag (name : String)
  | importTags (names : List String)
  | getAndPopulate (name : String)
  | ensureTag (id : EntryTag) (name : String)
  | merge (s : List TagPair)
  | resetOverride (s : List TagPair)

/-- The manager after one call, whatever the call returned. -/
def TagMan.apply (tm : TagMan) : TagOp → TagMan
  | .addTag name => (tm.addTag name).2
  | .importTags names => (tm.importTags names).2
  | .getAndPopulate name => (tm.getAndPopulate name).2
  | .ensureTag id name => (tm.ensureTag id name).2
  | .merge s => (tm.merge s).2
  | .resetOverride s => (tm.resetOverride s).2

/-- The states a `TagMan` can be in: opened by a successful `New` on any path (a fresh file
or any loadable one, on any disk), then any sequence of calls. -/
inductive TagReachable : TagMan → Prop
  | new {path : String} {p : TagPath} {tm : TagMan} : tagsNew path p = .ok tm → TagReachable tm
  | step {tm : TagMan} (op : TagOp) : TagReachable tm → TagReachable (tm.apply op)

/-- The tag dictionary's invariant. -/
structure TagInv (tm : TagMan) : Prop where
  /-- `tags` and `tagKeys` are inverse bijections -/
  inverse : ∀ n i, tm.tags n = some i ↔ tm.tagKeys i = some n
  default_present : tm.tags defaultTagName = some defaultTagId
  gravwell_present : tm.tags gravwellTagName = some gravwellTagId
  /-- every other name is a valid tag holding an id in `[1, 0xFFFE]` -/
  valid : ∀ n i, tm.tags n = some i → n ≠ defaultTagName → n ≠ gravwellTagName →
    checkTag n ∧ 1 ≤ i.toNat ∧ i.toNat ≤ 0xFFFE

/-- The part of `TagInv` about the maps alone: inverse maps holding the reserved pairs. -/
structure DictInv (d : Dict) : Prop where
  inverse : d.Inverse
  default_present : d.tags defaultTagName = some defaultTagId
  gravwell_present : d.tags gravwellTagName = some gravwellTagId

/-- Names other than the reserved ones pass `CheckTag`. -/
def NamesValid (d : Dict) : Prop :=
  ∀ n i, d.tags n = some i → n ≠ defaultTagName → n ≠ gravwellTagName → checkTag n

theorem Grows.dictInv {ok : String → Prop} {d d' : Dict} (g : Grows ok d d') (h : DictInv d) :
    DictInv d' :=
  ⟨g.inverse h.inverse, g.tags_some h.default_present, g.tags_some h.gravwell_present⟩

theorem Grows.namesValid {ok : String → Prop} {d d' : Dict} (g : Grows ok d d')
    (hok : ∀ n, ok n → checkTag n) (h : NamesValid d) : NamesValid d' := by
  intro n i hs hd hg
  rcases g.mem hs with ⟨j, hj⟩ | hn
  · exact h n j hj hd hg
  · exact hok n hn

/-- The reserved ids are taken, so every other name holds an id in `[1, 0xFFFE]`. -/
theorem DictInv.id_mem_range {d : Dict} (h : DictInv d) {n : String} {i : EntryTag}
    (hs : d.tags n = some i) (hd : n ≠ defaultTagName) (hg : n ≠ gravwellTagName) :
    1 ≤ i.toNat ∧ i.toNat ≤ 0xFFFE := by
  have hk := (h.inverse n i).mp hs
  have h0 : i ≠ defaultTagId := fun e =>
    hd (Option.some.inj (hk.symm.trans (e ▸ (h.inverse _ _).mp h.default_present)))
  have h1 : i ≠ gravwellTagId := fun e =>
    hg (Option.some.inj (hk.symm.trans (e ▸ (h.inverse _ _).mp h.gravwell_present)))
  have hlt := UInt16.toNat_lt_size i
  have h0' : i.toNat ≠ 0 := fun e => h0 (UInt16.toNat.inj e)
  have h1' : i.toNat ≠ 0xFFFF := fun e => h1 (UInt16.toNat.inj e)
  simp only [UInt16.size] at hlt
  omega

theorem TagInv.of_dictInv {tm : TagMan} (h : DictInv tm.dict) (hv : NamesValid tm.dict) :
    TagInv tm :=
  ⟨h.inverse, h.default_present, h.gravwell_present, fun n i hs hd hg =>
    ⟨hv n i hs hd hg, h.id_mem_range hs hd hg⟩⟩

/-! ## Runs without `ResetOverride` -/

/-- Every call but `ResetOverride`. -/
def TagOp.checked : TagOp → Bool
  | .resetOverride _ => false
  | _ => true

/-- The names a call may add: its own for `EnsureTag`, `CheckTag`ed ones for the rest. -/
def TagOp.adds : TagOp → String → Prop
  | .ensureTag _ name => (· = name)
  | _ => (checkTag · = true)

theorem TagMan.apply_grows (tm : TagMan) {op : TagOp} (h : op.checked) :
    Grows op.adds tm.dict (tm.apply op).dict := by
  cases op with
  | addTag name => exact tm.addTag_grows name
  | importTags names => exact tm.importTags_grows names
  | getAndPopulate name => exact tm.getAndPopulate_grows name
  | ensureTag id name => exact tm.ensureTag_grows id name
  | merge s => exact tm.merge_grows s
  | resetOverride s => cases h

/-- The manager after a sequence of calls, whatever each returned. -/
def TagMan.applyAll (tm : TagMan) (ops : List TagOp) : TagMan := ops.foldl TagMan.apply tm

theorem TagMan.applyAll_grows (tm : TagMan) {ops : List TagOp} (h : ∀ op ∈ ops, op.checked) :
    Grows (fun n => ∃ op ∈ ops, op.adds n) tm.dict (tm.applyAll ops).dict := by
  induction ops generalizing tm with
  | nil => exact .refl
  | cons op ops ih =>
    have g₁ : Grows (fun n => ∃ o ∈ op :: ops, o.adds n) tm.dict (tm.apply op).dict :=
      (tm.apply_grows (h op (.head _))).mono fun _ hn => ⟨op, .head _, hn⟩
    have g₂ : Grows (fun n => ∃ o ∈ op :: ops, o.adds n) (tm.apply op).dict
        ((tm.apply op).applyAll ops).dict :=
      (ih (tm.apply op) fun o ho => h o (.tail _ ho)).mono fun _ ⟨o, ho, hn⟩ =>
        ⟨o, .tail _ ho, hn⟩
    exact g₁.trans g₂

/-- **The maps stay inverse, with the reserved pairs, without `ResetOverride`.** From any
`tags.dat` that `New` opens, after any sequence of `AddTag`, `ImportTags`, `GetAndPopulate`,
`EnsureTag` and `Merge` calls, each succeeding or failing at any step: the maps are the opened
ones with pairs added one at a time, each with a name and an id both absent when it is added, and
a name that passes `CheckTag` or is the one `EnsureTag` was given (`Grows`); they are inverse and
hold the reserved pairs; so every other name holds an id in `[1, 0xFFFE]`. -/
theorem dictInv_of_checked_run {path : String} {p : TagPath} {tm : TagMan}
    (h : tagsNew path p = .ok tm) (ops : List TagOp) (hops : ∀ op ∈ ops, op.checked) :
    Grows (fun n => ∃ op ∈ ops, op.adds n) tm.dict (tm.applyAll ops).dict ∧
      DictInv (tm.applyAll ops).dict ∧
      ∀ n i, (tm.applyAll ops).tags n = some i → n ≠ defaultTagName → n ≠ gravwellTagName →
        1 ≤ i.toNat ∧ i.toNat ≤ 0xFFFE := by
  have g := tm.applyAll_grows hops
  obtain ⟨hi, hd, hg⟩ := tagsNew_spec h
  have hinv := g.dictInv ⟨hi, hd, hg⟩
  exact ⟨g, hinv, fun n i hs => hinv.id_mem_range hs⟩

/-- The maps after `New` and three calls, one of them an `EnsureTag` of a name with a space. -/
theorem dictInv_after_new_and_calls :
    let ops : List TagOp := [.addTag "foo", .ensureTag 7 "a b", .merge [⟨"bar", 9⟩]]
    ∃ tm, tagsNew "tags.dat" (.missing healthyDisk) = .ok tm ∧ (∀ op ∈ ops, op.checked) ∧
      Grows (fun n => ∃ op ∈ ops, op.adds n) tm.dict (tm.applyAll ops).dict ∧
      DictInv (tm.applyAll ops).dict ∧
      ∀ n i, (tm.applyAll ops).tags n = some i → n ≠ defaultTagName → n ≠ gravwellTagName →
        1 ≤ i.toNat ∧ i.toNat ≤ 0xFFFE :=
  let h : tagsNew "tags.dat" (.missing healthyDisk) = .ok _ := rfl
  ⟨_, h, by decide, dictInv_of_checked_run h _ (by decide)⟩

/-- **The whole invariant, from a fresh file.** On a fresh `tags.dat`, after any sequence of
calls without `ResetOverride`, each succeeding or failing, in which `EnsureTag` is given
names that pass `CheckTag`. -/
theorem tagInv_of_fresh_checked_run {path : String} {fails : Nat → Bool} {tm : TagMan}
    (h : tagsNew path (.missing fails) = .ok tm) (ops : List TagOp)
    (hops : ∀ op ∈ ops, op.checked)
    (hens : ∀ id name, TagOp.ensureTag id name ∈ ops → checkTag name) :
    TagInv (tm.applyAll ops) := by
  obtain ⟨g, hd⟩ := openTagFile_spec h
  have hv₀ : NamesValid tm.dict := by
    refine g.namesValid (fun n hn => ?_) fun _ _ hs => by simp [Dict.empty] at hs
    rcases hn with hn | rfl | rfl
    · nomatch hn
    · rfl
    · rfl
  refine .of_dictInv
    ((tm.applyAll_grows hops).dictInv ⟨g.inverse Dict.empty_inverse, hd.1, hd.2⟩)
    ((tm.applyAll_grows hops).namesValid ?_ hv₀)
  rintro n ⟨op, hop, hn⟩
  cases op with
  | ensureTag id name => exact (show n = name from hn) ▸ hens id name hop
  | _ => exact hn

/-- A fresh file, then `AddTag`, `EnsureTag` of a valid name, and a failing `Merge`. -/
theorem tagInv_after_fresh_calls :
    ∃ tm, tagsNew "tags.dat" (.missing healthyDisk) = .ok tm ∧
      TagInv (tm.applyAll [.addTag "foo", .ensureTag 7 "bar", .merge [⟨"foo", 9⟩]]) :=
  let h : tagsNew "tags.dat" (.missing healthyDisk) = .ok _ := rfl
  ⟨_, h, tagInv_of_fresh_checked_run h _ (by decide) fun _ _ he => by
    simp at he
    obtain ⟨-, rfl⟩ := he
    rfl⟩

/-- **The invariant fails on a reachable state.** On a fresh `tags.dat`,
`ResetOverride([{a,1},{b,1}])` succeeds and leaves `a → 1`, `b → 1` and `1 → b`:
`ReverseLookup(GetTag("a"))` is `"b"`. -/
theorem resetOverride_repeated_id_breaks_tagInv :
    ∃ tm, TagReachable tm ∧ ¬ TagInv tm :=
  ⟨_, .step (.resetOverride [⟨"a", 1⟩, ⟨"b", 1⟩]) (@TagReachable.new "tags.dat"
      (.missing healthyDisk) _ rfl),
    fun h => absurd ((h.inverse "a" 1).mp (by decide)) (by decide)⟩

end CloudArchive.Tags
