import CloudArchive.Tags.Dict

/-!
# Tags — the lines of `tags.dat`, written and read back

The manager writes one line `name=id\n` for each pair it adds (`tagLine`); `loadTags` reads
the complete lines back, trims each one, splits it at `=` and parses the id. For a name that
passes `CheckTag` the two agree (`parseLine_tagLine`), and a file made of such lines is read
back one line per pair (`readLines_tagLines`).

`Dict.AcceptsAll` is what the read loop asks of the pairs, in order: each name and id fresh,
each name valid, and the reserved names exactly with their ids. A file of accepted pairs loads
to exactly their maps, and `New` on it succeeds iff an id is left for `nextTag`
(`tagsNew_tagLines`).
-/

namespace CloudArchive.Tags

/-- The bytes of a file holding the lines of `ps`, in order. -/
def tagLines (ps : List TagPair) : List Char := (ps.map fun p => tagLine p.name p.value).flatten

/-- The maps with the pairs of `ps` inserted in order. -/
def Dict.insertAll (d : Dict) (ps : List TagPair) : Dict :=
  ps.foldl (fun d p => d.insert p.name p.value) d

@[simp] theorem tagLines_append (ps qs : List TagPair) :
    tagLines (ps ++ qs) = tagLines ps ++ tagLines qs := by
  simp [tagLines]

@[simp] theorem Dict.insertAll_append (d : Dict) (ps qs : List TagPair) :
    d.insertAll (ps ++ qs) = (d.insertAll ps).insertAll qs := by
  simp [Dict.insertAll]

/-! ## One line -/

/-- The runes `checkTag` lets through. -/
theorem checkTag_runes {name : String} (h : checkTag name) :
    name.data ≠ [] ∧ ∀ c ∈ name.data, isSpace c = false ∧ c ≠ '=' := by
  simpa [checkTag, List.all_eq_true] using h

/-- A tag line is its body and a `\n`; the body holds no white space. -/
theorem tagLine_body {name : String} (value : EntryTag) (h : checkTag name) :
    tagLine name value = (name.data ++ '=' :: decimal value.toNat) ++ ['\n'] ∧
      ∀ c ∈ name.data ++ '=' :: decimal value.toNat, isSpace c = false := by
  refine ⟨by simp [tagLine], fun c hc => ?_⟩
  rcases List.mem_append.mp hc with hc | hc
  · exact ((checkTag_runes h).2 c hc).1
  · rcases List.mem_cons.mp hc with rfl | hc
    · rfl
    · exact ((decimal_digits _).2.1 c hc).2.1

theorem parseLine_tagLine {name : String} (value : EntryTag) (h : checkTag name) :
    parseLine (trimSpace (tagLine name value)) = .ok (name, value) := by
  obtain ⟨hline, hbody⟩ := tagLine_body value h
  obtain ⟨hne, hrunes⟩ := checkTag_runes h
  obtain ⟨hdne, hdigits, -⟩ := decimal_digits value.toNat
  have hsplit : split (name.data ++ '=' :: decimal value.toNat) '=' =
      [name.data, decimal value.toNat] := by
    have : (['='].intercalate [name.data, decimal value.toNat]).splitOn '=' =
        [name.data, decimal value.toNat] := List.splitOn_intercalate _ '='
      (by simpa using ⟨fun e => (hrunes _ e).2 rfl, fun e => (hdigits _ e).2.2 rfl⟩) (by simp)
    simpa [List.intercalate] using this
  have hn : trimSpace name.data = name.data := trimSpace_of_forall fun c hc => (hrunes c hc).1
  have hd : trimSpace (decimal value.toNat) = decimal value.toNat :=
    trimSpace_of_forall fun c hc => (hdigits c hc).2.1
  have hu : UInt16.ofNat value.toNat = value :=
    UInt16.toNat.inj (UInt16.toNat_ofNat_of_lt value.toNat_lt_size)
  rw [hline, trimSpace_append_space hbody (by decide)]
  simp [parseLine, hsplit, hn, hd, hne, hdne,
    parseUint_decimal (show value.toNat < 2 ^ 16 from value.toNat_lt_size), hu]

/-! ## The file -/

theorem readLinesAux_line {body : List Char} (h : '\n' ∉ body) (rest acc : List Char) :
    readLinesAux (body ++ '\n' :: rest) acc = (acc.reverse ++ body ++ ['\n']) ::
      readLinesAux rest [] := by
  induction body generalizing acc with
  | nil => simp [readLinesAux]
  | cons c cs ih =>
    have hc : c ≠ '\n' := fun e => h (e ▸ .head _)
    simp [readLinesAux, hc, ih (fun h' => h (.tail _ h'))]

/-- `ReadString('\n')` gives back the lines the manager wrote. -/
theorem readLines_tagLines {ps : List TagPair} (h : ∀ p ∈ ps, checkTag p.name) :
    readLines (tagLines ps) = ps.map fun p => tagLine p.name p.value := by
  induction ps with
  | nil => rfl
  | cons p ps ih =>
    obtain ⟨hline, hbody⟩ := tagLine_body p.value (h p (.head _))
    have hnl : '\n' ∉ p.name.data ++ '=' :: decimal p.value.toNat := fun e =>
      absurd (hbody _ e) (by decide)
    have := readLinesAux_line hnl (tagLines ps) []
    simp only [List.append_assoc, List.singleton_append] at hline this
    simp only [readLines, tagLines, List.map_cons, List.flatten_cons, hline, List.append_assoc,
      List.cons_append, List.nil_append] at this ih ⊢
    rw [this, ih fun q hq => h q (.tail _ hq)]
    simp

/-- What the read loop of `loadTags` asks of a line's pair, given the maps so far. -/
def Dict.Accepts (d : Dict) (p : TagPair) : Prop :=
  d.tags p.name = none ∧ d.tagKeys p.value = none ∧ checkTag p.name ∧
    (p.name = defaultTagName ↔ p.value = defaultTagId) ∧
    (p.name = gravwellTagName ↔ p.value = gravwellTagId)

/-- Every pair of `ps` is accepted after the ones before it. -/
def Dict.AcceptsAll : Dict → List TagPair → Prop
  | _, [] => True
  | d, p :: ps => d.Accepts p ∧ (d.insert p.name p.value).AcceptsAll ps

theorem Dict.acceptsAll_append {d : Dict} {ps qs : List TagPair} (hp : d.AcceptsAll ps)
    (hq : (d.insertAll ps).AcceptsAll qs) : d.AcceptsAll (ps ++ qs) := by
  induction ps generalizing d with
  | nil => exact hq
  | cons p ps ih => exact ⟨hp.1, ih hp.2 hq⟩

theorem Dict.AcceptsAll.grows {d : Dict} {ps : List TagPair} (h : d.AcceptsAll ps) :
    Grows (fun _ => True) d (d.insertAll ps) := by
  induction ps generalizing d with
  | nil => exact .refl
  | cons p ps ih =>
    exact (Grows.insert p.name p.value .refl h.1.1 h.1.2.1 trivial).trans (ih h.2)

theorem Dict.AcceptsAll.checkTag {d : Dict} {ps : List TagPair} (h : d.AcceptsAll ps) :
    ∀ p ∈ ps, checkTag p.name := by
  induction ps generalizing d with
  | nil => simp
  | cons p ps ih =>
    intro q hq
    rcases List.mem_cons.mp hq with rfl | hq
    · exact h.1.2.2.1
    · exact ih h.2 q hq

/-- An accepted pair's name is absent from the maps the list starts from. -/
theorem Dict.AcceptsAll.absent {d : Dict} {ps : List TagPair} (h : d.AcceptsAll ps) :
    ∀ p ∈ ps, d.tags p.name = none := by
  induction ps generalizing d with
  | nil => simp
  | cons p ps ih =>
    intro q hq
    rcases List.mem_cons.mp hq with rfl | hq
    · exact h.1.1
    · have hq' := ih h.2 q hq
      simp only [Dict.insert, Function.update_apply] at hq'
      split at hq'
      · cases hq'
      · exact hq'

/-- No name is accepted twice. -/
theorem Dict.AcceptsAll.nodup {d : Dict} {ps : List TagPair} (h : d.AcceptsAll ps) :
    (ps.map TagPair.name).Nodup := by
  induction ps generalizing d with
  | nil => exact List.nodup_nil
  | cons p ps ih =>
    refine List.nodup_cons.mpr ⟨fun hm => ?_, ih h.2⟩
    obtain ⟨q, hq, he⟩ := List.mem_map.mp hm
    simpa [Dict.insert, he] using h.2.absent q hq

/-- After accepted pairs, a name holds an id iff it held it before or the pair is in the list. -/
theorem Dict.AcceptsAll.tags_insertAll {d : Dict} {ps : List TagPair} (h : d.AcceptsAll ps)
    (n : String) (i : EntryTag) :
    (d.insertAll ps).tags n = some i ↔ d.tags n = some i ∨ ⟨n, i⟩ ∈ ps := by
  induction ps generalizing d with
  | nil => simp [Dict.insertAll]
  | cons p ps ih =>
    rw [show d.insertAll (p :: ps) = (d.insert p.name p.value).insertAll ps from rfl, ih h.2]
    by_cases hn : n = p.name
    · -- the pair's own name: absent before, and from the rest of the list
      have hrest : (⟨n, i⟩ : TagPair) ∉ ps := fun hm => by
        simpa [Dict.insert, hn] using h.2.absent _ hm
      obtain ⟨pn, pv⟩ := p
      simp only at hn
      subst hn
      simp [Dict.insert, h.1.1, hrest, eq_comm]
    · have hp : (⟨n, i⟩ : TagPair) ≠ p := fun e => hn (e ▸ rfl)
      simp [Dict.insert, hn, hp]

/-- The read loop loads accepted lines to exactly their maps. -/
theorem TagMan.loadLines_tagLines {tm : TagMan} {ps : List TagPair} (h : tm.dict.AcceptsAll ps) :
    ∃ tm', tm.loadLines (ps.map fun p => tagLine p.name p.value) = .ok tm' ∧
      tm'.dict = tm.dict.insertAll ps := by
  induction ps generalizing tm with
  | nil => exact ⟨tm, rfl, rfl⟩
  | cons p ps ih =>
    obtain ⟨⟨hn, hi, hc, hdef, hgr⟩, hrest⟩ := h
    obtain ⟨tm', h', hd⟩ := @ih (tm.insert p.name p.value) hrest
    refine ⟨tm', ?_, hd⟩
    have hne : tagLine p.name p.value ≠ [] := by simp [tagLine]
    have hd' : ¬((p.value ≠ defaultTagId ∧ p.name = defaultTagName) ∨
        (p.value = defaultTagId ∧ p.name ≠ defaultTagName)) := by rw [hdef]; tauto
    have hg' : ¬((p.value ≠ gravwellTagId ∧ p.name = gravwellTagName) ∨
        (p.value = gravwellTagId ∧ p.name ≠ gravwellTagName)) := by rw [hgr]; tauto
    simp only [List.map_cons, TagMan.loadLines, hne, if_false, parseLine_tagLine _ hc]
    simp only [hd', hg', if_false]
    simp [TagMan.dict] at hn hi
    simp [hn, hi, h']

/-! ## `New` on a written file -/

/-- `ensureTag` of a stored pair changes nothing. -/
theorem TagMan.ensureTag_of_stored {tm : TagMan} {id : EntryTag} {name : String}
    (hn : tm.tags name = some id) (hi : tm.tagKeys id = some name) :
    tm.ensureTag id name = (.ok (), tm) := by
  simp [TagMan.ensureTag, hn, hi]

/-- `New`'s open and lock requests on a disk that never fails. -/
theorem openTagFile_healthy (data : List Char) :
    openTagFile ⟨data, healthyDisk, 0⟩ false =
      TagMan.loadTags ⟨fun _ => none, fun _ => none, 0, some ⟨data, healthyDisk, 2⟩, true⟩ data :=
  rfl

/-- `loadTags` after a read loop that stored the reserved pairs: the loaded maps, or the
error of `findNextAvailableTag` when no id is free. -/
theorem TagMan.loadTags_of_loadLines {tm t : TagMan} {data : List Char}
    (h : { tm with active := true }.loadLines (readLines data) = .ok t) (hd : t.dict.Inverse)
    (hdef : t.tags defaultTagName = some defaultTagId)
    (hgr : t.tags gravwellTagName = some gravwellTagId) :
    (tm.loadTags data).map TagMan.dict = (findNextAvailableTag t.tagKeys).map fun _ => t.dict := by
  unfold TagMan.loadTags
  rw [h]
  simp only [TagMan.ensureTag_of_stored hdef ((hd _ _).mp hdef),
    TagMan.ensureTag_of_stored hgr ((hd _ _).mp hgr)]
  cases findNextAvailableTag t.tagKeys <;> rfl

/-- **`New` reads back a file of accepted lines.** It loads exactly their maps, and fails
only when no id in `[1, 0xFFFE]` is left for `nextTag`. -/
theorem tagsNew_tagLines (path : String) {ps : List TagPair} (h : Dict.empty.AcceptsAll ps)
    (hdef : (Dict.empty.insertAll ps).tags defaultTagName = some defaultTagId)
    (hgr : (Dict.empty.insertAll ps).tags gravwellTagName = some gravwellTagId) :
    (tagsNew path (.file ⟨tagLines ps, healthyDisk, 0⟩)).map TagMan.dict =
      (findNextAvailableTag (Dict.empty.insertAll ps).tagKeys).map
        fun _ => Dict.empty.insertAll ps := by
  obtain ⟨t, hl, ht⟩ := @TagMan.loadLines_tagLines ⟨fun _ => none, fun _ => none, 0,
    some ⟨tagLines ps, healthyDisk, 2⟩, true⟩ _ h
  replace ht : t.dict = Dict.empty.insertAll ps := ht
  have hinv : t.dict.Inverse := ht ▸ h.grows.inverse Dict.empty_inverse
  have hk : t.tagKeys = (Dict.empty.insertAll ps).tagKeys := by rw [← ht]; rfl
  rw [tagsNew, openTagFile_healthy, TagMan.loadTags_of_loadLines
    (by rw [readLines_tagLines h.checkTag]; exact hl) hinv (by rw [← ht] at hdef; exact hdef)
    (by rw [← ht] at hgr; exact hgr), hk, ht]

end CloudArchive.Tags
