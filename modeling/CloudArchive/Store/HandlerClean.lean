import CloudArchive.Store.Filestore

/-!
# Store — where the handlers' `HandleFile` can write

`clean` of filestore's and ftpstore's `handler` (one text in both packages) turns the path an
archive entry names into a directory `d` and a file `f`: `filepath.Clean`, strip leading `.`
and `/` with `strings.TrimLeft(p, "./")`, `Clean` again, `filepath.Split`, and keep the `Base`
of the directory part.

The first `Clean` prints a normal stack: a root or a run of `..`, then plain elements
(`clean_normal`). `TrimLeft` eats the root, the `..` run and every element made of dots only,
with their slashes, and stops inside the first element with another character, which it
leaves plain (`trimLeft_render`). What is left is empty, or plain elements joined by `/`, which
the second `Clean` keeps; `Split` and `Base` then take its last two elements
(`Filestore.clean_shape`). `Join` of a proper shard directory with those is the directory or a
plain element or two below it, and `HandleFile` changes the disk nowhere else.
-/

namespace CloudArchive

/-! ## `strings.TrimLeft(p, "./")` of a printed stack -/

theorem trimLeft_slash (t : List Char) : trimLeft ('/' :: t) "./".data = trimLeft t "./".data := by
  simp [trimLeft]

/-- An element made of dots only is trimmed, with the `/` after it. -/
theorem trimLeft_intercalate_dots {x : List Char} (hx : ∀ c ∈ x, c = '.') (l : List (List Char)) :
    trimLeft (['/'].intercalate (x :: l)) "./".data = trimLeft (['/'].intercalate l) "./".data := by
  have hx' : ∀ c ∈ x, "./".data.contains c = true := fun c hc => by simp [hx c hc]
  rcases l with _ | ⟨y, ys⟩
  · rw [show ['/'].intercalate [x] = x by simp [List.intercalate], trimLeft,
      List.dropWhile_eq_nil_iff.mpr hx']
    rfl
  · rw [intercalate_cons_cons, trimLeft, trimLeft, List.dropWhile_append_of_pos hx']
    exact List.dropWhile_cons_of_pos (by decide)

/-- In an element with a character other than `.` and `/` the trim stops. -/
theorem trimLeft_append_of_mem {x t : List Char} (hx : ∃ c ∈ x, c ≠ '.' ∧ c ≠ '/') :
    trimLeft (x ++ t) "./".data = trimLeft x "./".data ++ t := by
  obtain ⟨c, hc, hc'⟩ := hx
  rw [trimLeft, trimLeft, List.dropWhile_append, if_neg]
  rw [List.isEmpty_iff, List.dropWhile_eq_nil_iff]
  exact fun h => by simpa [hc'] using h c hc

/-- ... and leaves a plain element. -/
theorem trimLeft_isElem {x : List Char} (hs : '/' ∉ x) (hx : ∃ c ∈ x, c ≠ '.') :
    IsElem (trimLeft x "./".data) := by
  induction x with
  | nil => simp at hx
  | cons c x ih =>
    simp only [List.mem_cons, not_or] at hs
    by_cases hc : c = '.'
    · subst hc
      rw [show trimLeft ('.' :: x) "./".data = trimLeft x "./".data by simp [trimLeft]]
      exact ih hs.2 (by simpa using hx)
    · rw [show trimLeft (c :: x) "./".data = c :: x by simp [trimLeft, hc, Ne.symm hs.1]]
      exact ⟨List.cons_ne_nil _ _, fun h => (List.mem_cons.mp h).elim hs.1 hs.2, by simp [hc],
        by simp [hc]⟩

theorem trimLeft_intercalate_of_mem {x : List Char} (hx : ∃ c ∈ x, c ≠ '.' ∧ c ≠ '/')
    (l : List (List Char)) :
    trimLeft (['/'].intercalate (x :: l)) "./".data =
      ['/'].intercalate (trimLeft x "./".data :: l) := by
  rcases l with _ | ⟨y, ys⟩
  · simp [List.intercalate]
  · rw [intercalate_cons_cons, intercalate_cons_cons, trimLeft_append_of_mem hx]

/-- The trim of plain elements joined by `/`: nothing, or plain elements joined by `/`. -/
theorem trimLeft_elems {ws : List (List Char)} (hw : ∀ w ∈ ws, IsElem w) :
    trimLeft (['/'].intercalate ws) "./".data = [] ∨
      ∃ e rest, IsElem e ∧ (∀ w ∈ rest, IsElem w) ∧
        trimLeft (['/'].intercalate ws) "./".data = ['/'].intercalate (e :: rest) := by
  induction ws with
  | nil => exact .inl (by simp [trimLeft, List.intercalate])
  | cons w ws ih =>
    have hw' : ∀ v ∈ ws, IsElem v := fun v hv => hw v (.tail _ hv)
    by_cases hd : ∀ c ∈ w, c = '.'
    · rw [trimLeft_intercalate_dots hd]
      exact ih hw'
    · push_neg at hd
      obtain ⟨c, hc, hc'⟩ := hd
      have hsl : c ≠ '/' := fun e => (hw w (.head _)).2.1 (e ▸ hc)
      exact .inr ⟨_, ws, trimLeft_isElem (hw w (.head _)).2.1 ⟨c, hc, hc'⟩, hw',
        trimLeft_intercalate_of_mem ⟨c, hc, hc', hsl⟩ ws⟩

/-- ... also after a run of `..`. -/
theorem trimLeft_dots_elems (n : Nat) {ws : List (List Char)} (hw : ∀ w ∈ ws, IsElem w) :
    trimLeft (['/'].intercalate (List.replicate n ['.', '.'] ++ ws)) "./".data = [] ∨
      ∃ e rest, IsElem e ∧ (∀ w ∈ rest, IsElem w) ∧
        trimLeft (['/'].intercalate (List.replicate n ['.', '.'] ++ ws)) "./".data =
          ['/'].intercalate (e :: rest) := by
  induction n with
  | zero => simpa using trimLeft_elems hw
  | succ n ih =>
    rw [List.replicate_succ, List.cons_append, trimLeft_intercalate_dots (by simp)]
    exact ih

/-- The trim of a printed normal stack. -/
theorem trimLeft_render {rooted : Bool} {st : List (List Char)} (h : NormalStack rooted st) :
    trimLeft (render rooted st) "./".data = [] ∨
      ∃ e rest, IsElem e ∧ (∀ w ∈ rest, IsElem w) ∧
        trimLeft (render rooted st) "./".data = ['/'].intercalate (e :: rest) := by
  rcases eq_or_ne st [] with rfl | hne
  · cases rooted <;> exact .inl (by decide)
  · have hn := h
    obtain ⟨es, n, rfl, hes, -⟩ := hn
    have key := trimLeft_dots_elems n fun w hw => hes w (List.mem_reverse.mp hw)
    rw [render_eq h hne, List.reverse_append, List.reverse_replicate]
    cases rooted
    · exact key
    · simpa only [if_true, trimLeft_slash] using key

end CloudArchive

namespace CloudArchive.Store

open CloudArchive CloudArchive.ShardPacker

/-! ## The handlers' `clean` -/

/-- The handler's `clean` once the trim has left plain elements joined by `/`: no directory
for one element, else the last two. -/
theorem Filestore.clean_of_trim {p : List Char} {ws : List (List Char)}
    (hw : ∀ w ∈ ws, IsElem w) (hne : ws ≠ [])
    (hq : trimLeft (CloudArchive.clean p) "./".data = ['/'].intercalate ws) :
    (∃ f, ws = [f] ∧ Filestore.clean p = ([], f)) ∨
      ∃ ys g f, ws = ys ++ [g, f] ∧ Filestore.clean p = (g, f) := by
  have hcl := (proper_intercalate hw hne).clean_eq
  obtain ⟨xs, f, rfl⟩ := (List.eq_nil_or_concat' ws).resolve_left hne
  have hf : IsElem f := hw f (by simp)
  rcases List.eq_nil_or_concat' xs with rfl | ⟨ys, g, rfl⟩
  · refine .inl ⟨f, rfl, ?_⟩
    have h1 : ['/'].intercalate ([] ++ [f]) = f := by simp [List.intercalate]
    simp only [Filestore.clean]
    rw [hq, hcl, h1, splitPath_of_not_mem hf.2.1]
    rfl
  · refine .inr ⟨ys, g, f, by simp, ?_⟩
    have hg : IsElem g := hw g (by simp)
    have hjoin : ['/'].intercalate (ys ++ [g] ++ [f]) = ['/'].intercalate (ys ++ [g]) ++ '/' :: f := by
      rw [intercalate_append (by simp) (by simp)]
      simp [List.intercalate]
    obtain ⟨y, hyg, hy⟩ : ∃ y, ['/'].intercalate (ys ++ [g]) = y ++ g ∧
        y.reverse.takeWhile (· ≠ '/') = [] := by
      rcases eq_or_ne ys [] with rfl | hys
      · exact ⟨[], by simp [List.intercalate], rfl⟩
      · exact ⟨['/'].intercalate ys ++ ['/'], by
          rw [intercalate_append hys (by simp)]; simp [List.intercalate], by simp⟩
    simp only [Filestore.clean]
    rw [hq, hcl, hjoin, splitPath_append hf.2.1, hyg, base_append_slash hg hy, if_neg hg.2.2.1]

/-- What the handler's `clean` returns, for every path: no directory and the file `.`, no
directory and a plain file, or a plain directory and a plain file. -/
theorem Filestore.clean_shape (p : List Char) :
    Filestore.clean p = ([], ['.']) ∨ (∃ f, IsElem f ∧ Filestore.clean p = ([], f)) ∨
      ∃ d f, IsElem d ∧ IsElem f ∧ Filestore.clean p = (d, f) := by
  obtain ⟨ro, st, hn, hcl⟩ := clean_normal p
  rcases trimLeft_render hn with h0 | ⟨e, rest, he, hrest, hq⟩
  · left
    simp only [Filestore.clean, hcl, h0]
    decide
  · have hw : ∀ w ∈ e :: rest, IsElem w := List.forall_mem_cons.mpr ⟨he, hrest⟩
    rw [← hcl] at hq
    rcases Filestore.clean_of_trim hw (List.cons_ne_nil _ _) hq with
      ⟨f, hf, hc⟩ | ⟨ys, g, f, hws, hc⟩
    · exact .inr (.inl ⟨f, hw f (by simp [hf]), hc⟩)
    · exact .inr (.inr ⟨g, f, hw g (by simp [hws]), hw f (by simp [hws]), hc⟩)

/-- What the handler's `clean` returns: no directory or a plain one, and a file that is one
element other than `..`. -/
theorem Filestore.clean_elems (p : List Char) :
    ((Filestore.clean p).1 = [] ∨ IsElem (Filestore.clean p).1) ∧
      (Filestore.clean p).2 ≠ [] ∧ '/' ∉ (Filestore.clean p).2 ∧
      (Filestore.clean p).2 ≠ ['.', '.'] := by
  rcases Filestore.clean_shape p with hc | ⟨f, hf, hc⟩ | ⟨d, f, hd, hf, hc⟩ <;> rw [hc]
  · exact ⟨.inl rfl, by decide⟩
  · exact ⟨.inl rfl, hf.1, hf.2.1, hf.2.2.2⟩
  · exact ⟨.inr hd, hf.1, hf.2.1, hf.2.2.2⟩

/-! ## Where `HandleFile` writes -/

/-- `q` is `sdir` itself, or a plain element or two below it. -/
def AtOrBelow (sdir q : List Char) : Prop :=
  q = sdir ∨ (∃ e, IsElem e ∧ q = sdir ++ '/' :: e) ∨
    ∃ e₁ e₂, IsElem e₁ ∧ IsElem e₂ ∧ q = sdir ++ '/' :: (e₁ ++ '/' :: e₂)

/-- ftpstore's `clean`: the same text as filestore's. -/
def Ftpstore.clean (p : List Char) : List Char × List Char := Filestore.clean p

/-- The path ftpstore's `HandleFile` stores the entry at:
`filepath.Join(h.sdir, filepath.Join(dir, file))`. -/
def Ftpstore.handleFileDest (sdir pth : List Char) : List Char :=
  let (d, f) := Ftpstore.clean pth
  join [sdir, join [d, f]]

theorem Fs.mkdir_frame {fs fs' : Fs} {p q : List Char} (h : fs.mkdir p = .ok fs') (hq : q ≠ p) :
    fs' q = fs q := by
  unfold Fs.mkdir at h
  split at h <;> cases h
  exact Function.update_noteq hq _ _

theorem Fs.create_frame {fs fs' : Fs} {p q : List Char} {data : Bytes}
    (h : fs.create p data = .ok fs') (hq : q ≠ p) : fs' q = fs q := by
  unfold Fs.create at h
  split at h <;> cases h
  exact Function.update_noteq hq _ _

/-- `HandleFile` changes the disk at most at the directory it makes and the file it
creates. -/
theorem Filestore.handleFile_frame {sdir pth : List Char} {data : Bytes} {fs : Fs}
    {q : List Char} (hq : (Filestore.handleFile sdir pth data fs).2 q ≠ fs q) :
    ((Filestore.clean pth).1 ≠ [] ∧ q = join [sdir, (Filestore.clean pth).1]) ∨
      q = join [sdir, (Filestore.clean pth).1, (Filestore.clean pth).2] := by
  rcases hc : Filestore.clean pth with ⟨d, f⟩
  unfold Filestore.handleFile at hq
  rw [hc] at hq
  dsimp only at hq ⊢
  by_contra hne
  push_neg at hne
  apply hq
  split
  · rfl
  · next fs₁ hmade =>
    have h₁ : fs₁ q = fs q := by
      split at hmade
      · cases hmade; rfl
      · split at hmade
        · cases hmade; rfl
        · next hd _ _ => exact Fs.mkdir_frame hmade (hne.1 hd)
    split
    · exact h₁
    · next fs₂ hcreate => exact (Fs.create_frame hcreate hne.2).trans h₁

section Confined

variable {sdir : List Char} (hsd : Proper sdir)
include hsd

/-- `Join` of the shard directory with what `clean` returns stays at or below it, and is the
FTP handler's destination too. -/
theorem Filestore.join_clean (p : List Char) :
    AtOrBelow sdir (join [sdir, (Filestore.clean p).1, (Filestore.clean p).2]) ∧
      Ftpstore.handleFileDest sdir p =
        join [sdir, (Filestore.clean p).1, (Filestore.clean p).2] := by
  rcases Filestore.clean_shape p with hc | ⟨f, hf, hc⟩ | ⟨d, f, hd, hf, hc⟩ <;>
    simp only [Ftpstore.handleFileDest, Ftpstore.clean, hc]
  · rw [hsd.join_nil_dot, show join [[], ['.']] = ['.'] by decide, hsd.join_dot]
    exact ⟨.inl rfl, rfl⟩
  · rw [hsd.join_nil_elem hf, hf.join_nil, hsd.join_pair hf.split_elem]
    exact ⟨.inr (.inl ⟨f, hf, rfl⟩), rfl⟩
  · rw [hsd.join_elems hd hf, hd.proper.join_pair hf.split_elem, hsd.join_pair (hd.split_pair hf)]
    exact ⟨.inr (.inr ⟨d, f, hd, hf, rfl⟩), rfl⟩

/-- `HandleFile` changes the disk only at or below the shard directory. -/
theorem Filestore.handleFile_confined (p : List Char) (data : Bytes) (fs : Fs) (q : List Char)
    (hq : (Filestore.handleFile sdir p data fs).2 q ≠ fs q) : AtOrBelow sdir q := by
  rcases Filestore.handleFile_frame hq with ⟨hd, rfl⟩ | rfl
  · rcases Filestore.clean_shape p with hc | ⟨f, -, hc⟩ | ⟨d, f, hd', -, hc⟩ <;>
      simp only [hc, ne_eq, not_true_eq_false] at hd ⊢
    exact .inr (.inl ⟨d, hd', hsd.join_pair hd'.split_elem⟩)
  · exact (Filestore.join_clean hsd p).1

end Confined

/-- For every path, the handlers' `clean` returns no directory or a plain one, and a file that
is one element other than `..`. Below a proper shard directory, `Join` of the three is the
directory or one or two plain elements below it; the FTP handler stores at that same path,
and `HandleFile` changes the disk nowhere else. -/
theorem handler_clean_confines (p : List Char) :
    ((Filestore.clean p).1 = [] ∨ IsElem (Filestore.clean p).1) ∧
    ((Filestore.clean p).2 ≠ [] ∧ '/' ∉ (Filestore.clean p).2 ∧
      (Filestore.clean p).2 ≠ ['.', '.']) ∧
    ∀ sdir, Proper sdir →
      AtOrBelow sdir (join [sdir, (Filestore.clean p).1, (Filestore.clean p).2]) ∧
      Ftpstore.handleFileDest sdir p =
        join [sdir, (Filestore.clean p).1, (Filestore.clean p).2] ∧
      ∀ data fs q, (Filestore.handleFile sdir p data fs).2 q ≠ fs q → AtOrBelow sdir q :=
  ⟨(Filestore.clean_elems p).1, (Filestore.clean_elems p).2, fun _ hsd =>
    ⟨(Filestore.join_clean hsd p).1, (Filestore.join_clean hsd p).2,
      Filestore.handleFile_confined hsd p⟩⟩

end CloudArchive.Store
