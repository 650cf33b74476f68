import CloudArchive.GoStrings

/-!
# Go `path/filepath` on Unix

`Clean`, `Join`, `Split`, `Dir`, `Base` and `Ext` as the shard code uses them to name and place
shard files, over `List Char` like the rest of the Go string model.

`clean` follows the lexical rules of Go's `Clean`: drop empty and `.` elements, let `..`
cancel the element before it (or vanish at the root, or stay when there is nothing to cancel
on a relative path), and turn an empty result into `.`. It is written over the list of
elements rather than Go's byte cursor; the two compute the same string.
-/

namespace CloudArchive

/-- The element stack of `Clean` (top first) after the elements `es`. -/
def cleanElems (rooted : Bool) : List (List Char) → List (List Char) → List (List Char)
  | [], acc => acc
  | e :: es, acc =>
    if e = [] ∨ e = ['.'] then cleanElems rooted es acc
    else if e = ['.', '.'] then
      match acc with
      | top :: rest =>
        if top = ['.', '.'] then cleanElems rooted es (e :: acc) else cleanElems rooted es rest
      | [] => if rooted then cleanElems rooted es [] else cleanElems rooted es [e]
    else cleanElems rooted es (e :: acc)

/-- Go `filepath.Clean`. -/
def clean (p : List Char) : List Char :=
  if p = [] then ['.'] else
  let rooted := p.head? = some '/'
  let body := ['/'].intercalate (cleanElems rooted (split p '/') []).reverse
  let out := if rooted then '/' :: body else body
  if out = [] then ['.'] else out

/-- Go `filepath.Join`: leading empty elements are skipped, the rest joined by `/` and
cleaned; all empty gives the empty string. -/
def join (elems : List (List Char)) : List Char :=
  match elems.dropWhile (· = []) with
  | [] => []
  | rest => clean (['/'].intercalate rest)

/-- Go `filepath.Split`: the part up to and including the last `/`, and the rest. -/
def splitPath (p : List Char) : List Char × List Char :=
  let file := (p.reverse.takeWhile (· ≠ '/')).reverse
  (p.take (p.length - file.length), file)

/-- Go `filepath.Dir`: `Clean` of `Split`'s directory part. -/
def dir (p : List Char) : List Char := clean (splitPath p).1

/-- Go `filepath.Base`: the last element after trailing slashes are dropped; `.` for the
empty path, `/` for a path of slashes. -/
def base (p : List Char) : List Char :=
  if p = [] then ['.'] else
  let stripped := (p.reverse.dropWhile (· = '/')).reverse
  let last := (stripped.reverse.takeWhile (· ≠ '/')).reverse
  if last = [] then ['/'] else last

/-- Go `filepath.Ext`: the suffix from the final `.` of the last element, or empty. -/
def ext (p : List Char) : List Char :=
  match p.reverse.span (fun c => c ≠ '.' ∧ c ≠ '/') with
  | (tail, '.' :: _) => '.' :: tail.reverse
  | _ => []

/-- `trimVersion` (in `util` and `shardpacker` alike): strip a dotted suffix, so that
`769f2.1` names the shard `769f2`. Go: `strings.TrimSuffix(nm, filepath.Ext(nm))`. -/
def trimVersion (nm : List Char) : List Char := trimSuffix nm (ext nm)

/-! ## What `Clean` leaves as it is

`Clean` reads a path as a stack of elements and prints the stack back. A stack it builds is
normal: plain elements over a run of `..` (`NormalStack`), and printing a normal stack and
reading it again gives the same stack. So a path printed from a non-empty stack (`Proper`) is
its own `Clean`, and appending plain elements after a `/` keeps it so: this is what lets the
shard code's `Join`s be computed by appending. -/

theorem not_sep_of_mem_split {s e : List Char} (h : e ∈ split s '/') : '/' ∉ e := by
  induction s generalizing e with
  | nil => simp_all [split]
  | cons c s ih =>
    simp only [split, List.splitOn, List.splitOnP_cons] at h ih
    split_ifs at h with hc
    · rcases List.mem_cons.mp h with rfl | h
      · simp
      · exact ih h
    · obtain ⟨x, xs, hx⟩ := List.exists_cons_of_ne_nil (List.splitOnP_ne_nil (· == '/') s)
      rw [hx] at h ih
      simp only [List.modifyHead_cons, List.mem_cons] at h
      rcases h with rfl | h
      · simp only [beq_iff_eq] at hc
        simp [Ne.symm hc, ih (.head _)]
      · exact ih (.tail _ h)

theorem cleanElems_append (rooted : Bool) (xs ys acc : List (List Char)) :
    cleanElems rooted (xs ++ ys) acc = cleanElems rooted ys (cleanElems rooted xs acc) := by
  induction xs generalizing acc with
  | nil => rfl
  | cons e es ih =>
    simp only [List.cons_append, cleanElems, List.append_eq]
    split_ifs <;> (try split) <;> (try split_ifs) <;> exact ih _

/-- A path element `Clean` keeps as it is: not empty, no `/`, not `.` or `..`. -/
def IsElem (e : List Char) : Prop := e ≠ [] ∧ '/' ∉ e ∧ e ≠ ['.'] ∧ e ≠ ['.', '.']

/-- The stacks `Clean` builds (top first): kept elements over a run of `..`, which only a
relative path keeps. -/
def NormalStack (rooted : Bool) (st : List (List Char)) : Prop :=
  ∃ es n, st = es ++ List.replicate n ['.', '.'] ∧ (∀ e ∈ es, IsElem e) ∧ (rooted = true → n = 0)

theorem cleanElems_elems {rooted : Bool} {xs : List (List Char)} (h : ∀ e ∈ xs, IsElem e)
    (acc : List (List Char)) : cleanElems rooted xs acc = xs.reverse ++ acc := by
  induction xs generalizing acc with
  | nil => rfl
  | cons e es ih =>
    obtain ⟨h1, -, h2, h3⟩ := h e (.head _)
    simp [cleanElems, h1, h2, h3, ih fun e' he' => h e' (.tail _ he')]

theorem cleanElems_dots (n k : Nat) :
    cleanElems false (List.replicate n ['.', '.']) (List.replicate k ['.', '.']) =
      List.replicate (n + k) ['.', '.'] := by
  induction n generalizing k with
  | zero => simp [cleanElems]
  | succ n ih =>
    rcases k with _ | k
    · simpa [List.replicate_succ, cleanElems] using ih 1
    · rw [show n + 1 + (k + 1) = n + (k + 2) by omega]
      simpa [List.replicate_succ, cleanElems] using ih (k + 2)

/-- `Clean`'s loop keeps its stack normal. -/
theorem cleanElems_normal {rooted : Bool} {xs acc : List (List Char)}
    (hx : ∀ e ∈ xs, '/' ∉ e) (hs : NormalStack rooted acc) :
    NormalStack rooted (cleanElems rooted xs acc) := by
  induction xs generalizing acc with
  | nil => exact hs
  | cons e es ih =>
    have hx' := fun e' he' => hx e' (.tail _ he')
    obtain ⟨ks, n, rfl, hks, hr⟩ := hs
    by_cases h1 : e = [] ∨ e = ['.']
    · simpa only [cleanElems, if_pos h1] using ih hx' ⟨ks, n, rfl, hks, hr⟩
    by_cases h2 : e = ['.', '.']
    · subst h2
      rcases ks with _ | ⟨k, ks⟩
      · rcases n with _ | n
        · -- nothing to cancel: a relative path keeps the `..`
          cases rooted
          · simpa [cleanElems] using ih hx' ⟨[], 1, rfl, by simp, by simp⟩
          · simpa [cleanElems] using ih hx' ⟨[], 0, rfl, by simp, by simp⟩
        · -- the top is `..`: one more is pushed
          have : rooted = false := by cases rooted <;> simp_all
          simpa [cleanElems, List.replicate_succ] using
            ih hx' ⟨[], n + 2, rfl, by simp, by simp [this]⟩
      · -- a kept element is popped
        have hk : k ≠ ['.', '.'] := (hks k (.head _)).2.2.2
        simpa [cleanElems, hk] using
          ih hx' ⟨ks, n, rfl, fun e he => hks e (.tail _ he), hr⟩
    · have he : IsElem e := ⟨fun h => h1 (.inl h), hx e (.head _), fun h => h1 (.inr h), h2⟩
      simpa only [cleanElems, if_neg h1, if_neg h2] using
        ih hx' ⟨e :: ks, n, rfl, List.forall_mem_cons.mpr ⟨he, hks⟩, hr⟩

/-- Reading a normal stack back from the bottom rebuilds it. -/
theorem cleanElems_reverse {rooted : Bool} {st : List (List Char)} (h : NormalStack rooted st) :
    cleanElems rooted st.reverse [] = st := by
  obtain ⟨es, n, rfl, hes, hr⟩ := h
  have hdots : cleanElems rooted (List.replicate n ['.', '.']) [] = List.replicate n ['.', '.'] := by
    cases rooted
    · simpa using cleanElems_dots n 0
    · simp [hr rfl, cleanElems]
  rw [List.reverse_append, List.reverse_replicate, cleanElems_append, hdots,
    cleanElems_elems (fun e he => hes e (List.mem_reverse.mp he)), List.reverse_reverse]

theorem intercalate_append {xs ys : List (List Char)} (hx : xs ≠ []) (hy : ys ≠ []) :
    ['/'].intercalate (xs ++ ys) = ['/'].intercalate xs ++ '/' :: ['/'].intercalate ys := by
  induction xs with
  | nil => exact absurd rfl hx
  | cons x xs ih =>
    rcases xs with _ | ⟨x', xs⟩
    · obtain ⟨y, ys, rfl⟩ := List.exists_cons_of_ne_nil hy
      simp [intercalate_cons_cons, List.intercalate]
    · rw [List.cons_append, List.cons_append, intercalate_cons_cons, ← List.cons_append,
        ih (by simp), intercalate_cons_cons]
      simp

/-- What `Clean` prints for a stack. -/
def render (rooted : Bool) (st : List (List Char)) : List Char :=
  let body := ['/'].intercalate st.reverse
  let out := if rooted then '/' :: body else body
  if out = [] then ['.'] else out

theorem clean_eq_render {p : List Char} (hp : p ≠ []) :
    clean p = render (p.head? = some '/') (cleanElems (p.head? = some '/') (split p '/') []) := by
  simp [clean, render, hp]

theorem NormalStack.elem {rooted : Bool} {st : List (List Char)} (h : NormalStack rooted st)
    {e : List Char} (he : e ∈ st) : e ≠ [] ∧ '/' ∉ e := by
  obtain ⟨es, n, rfl, hes, -⟩ := h
  rcases List.mem_append.mp he with he | he
  · exact ⟨(hes e he).1, (hes e he).2.1⟩
  · rw [List.eq_of_mem_replicate he]; simp

theorem NormalStack.push {rooted : Bool} {st xs : List (List Char)} (h : NormalStack rooted st)
    (hx : ∀ e ∈ xs, IsElem e) : NormalStack rooted (xs ++ st) := by
  obtain ⟨es, n, rfl, hes, hr⟩ := h
  exact ⟨xs ++ es, n, by simp, fun e he => (List.mem_append.mp he).elim (hx e) (hes e), hr⟩

theorem render_ne_nil {rooted : Bool} {st : List (List Char)} : render rooted st ≠ [] := by
  unfold render
  dsimp only
  split <;> split <;> simp_all

section Render

variable {rooted : Bool} {st : List (List Char)}

/-- The bottom element of a printed stack starts the body: not empty, and not with `/`. -/
theorem body_head (h : NormalStack rooted st) (hne : st ≠ []) :
    ∃ c t, ['/'].intercalate st.reverse = c :: t ∧ c ≠ '/' := by
  obtain ⟨x, xs, hx⟩ := List.exists_cons_of_ne_nil (List.reverse_ne_nil_iff.mpr hne)
  have hxmem : x ∈ st := List.mem_reverse.mp (by rw [hx]; exact .head _)
  obtain ⟨hxne, hxs⟩ := h.elem hxmem
  obtain ⟨c, t, rfl⟩ := List.exists_cons_of_ne_nil hxne
  have hc : c ≠ '/' := fun e => hxs (e ▸ .head _)
  rcases xs with _ | ⟨y, ys⟩
  · exact ⟨c, t, by simp [hx, List.intercalate], hc⟩
  · exact ⟨c, t ++ '/' :: ['/'].intercalate (y :: ys), by rw [hx, intercalate_cons_cons]; rfl, hc⟩

theorem render_eq (h : NormalStack rooted st) (hne : st ≠ []) :
    render rooted st =
      if rooted then '/' :: ['/'].intercalate st.reverse else ['/'].intercalate st.reverse := by
  obtain ⟨c, t, hb, -⟩ := body_head h hne
  cases rooted <;> simp [render, hb]

theorem head_render (h : NormalStack rooted st) (hne : st ≠ []) (t : List Char) :
    decide ((render rooted st ++ t).head? = some '/') = rooted := by
  obtain ⟨c, u, hb, hc⟩ := body_head h hne
  rw [render_eq h hne, hb]
  cases rooted <;> simp [hc]

theorem split_render (h : NormalStack rooted st) (hne : st ≠ []) :
    split (render rooted st) '/' = (if rooted then [[]] else []) ++ st.reverse := by
  have hsplit : split (['/'].intercalate st.reverse) '/' = st.reverse :=
    List.splitOn_intercalate _ '/' (fun l hl => (h.elem (List.mem_reverse.mp hl)).2)
      (by simpa using hne)
  rw [render_eq h hne]
  cases rooted
  · simpa using hsplit
  · simpa [hsplit] using split_append_sep '/' [] (['/'].intercalate st.reverse)

/-- `Clean` reads a printed normal stack back as itself. -/
theorem cleanElems_render (h : NormalStack rooted st) (hne : st ≠ []) :
    cleanElems rooted (split (render rooted st) '/') [] = st := by
  rw [split_render h hne, cleanElems_append]
  cases rooted <;> simp [cleanElems, cleanElems_reverse h]

end Render

/-- A path `Clean` prints from a non-empty stack: `Clean` leaves it as it is, and plain
elements appended after a `/` stay as they are. -/
def Proper (b : List Char) : Prop :=
  ∃ rooted st, NormalStack rooted st ∧ st ≠ [] ∧ b = render rooted st

/-- `Clean` after `/` and the elements of a plain relative path `r`. -/
theorem Proper.clean_append {b r : List Char} (hb : Proper b) (hr : ∀ e ∈ split r '/', IsElem e) :
    clean (b ++ '/' :: r) = b ++ '/' :: r ∧ Proper (b ++ '/' :: r) := by
  obtain ⟨ro, st, hn, hne, rfl⟩ := hb
  have hn' : NormalStack ro ((split r '/').reverse ++ st) :=
    hn.push fun e he => hr e (List.mem_reverse.mp he)
  have hne' : (split r '/').reverse ++ st ≠ [] := by simp [hne]
  have hrender : render ro ((split r '/').reverse ++ st) = render ro st ++ '/' :: r := by
    rw [render_eq hn' hne', render_eq hn hne, List.reverse_append, List.reverse_reverse,
      intercalate_append (by simpa using hne) (show split r '/' ≠ [] from List.splitOnP_ne_nil _ r)]
    cases ro <;> simp [split, List.intercalate_splitOn]
  refine ⟨?_, ro, _, hn', hne', hrender.symm⟩
  rw [clean_eq_render (by simp), head_render hn hne, split_append_sep, cleanElems_append,
    cleanElems_render hn hne, cleanElems_elems hr, hrender]

theorem Proper.clean_eq {b : List Char} (hb : Proper b) : clean b = b := by
  obtain ⟨ro, st, hn, hne, rfl⟩ := hb
  have := head_render hn hne []
  rw [List.append_nil] at this
  rw [clean_eq_render render_ne_nil, this, cleanElems_render hn hne]

/-- A trailing `/` is dropped. -/
theorem Proper.clean_slash {b : List Char} (hb : Proper b) : clean (b ++ ['/']) = b := by
  obtain ⟨ro, st, hn, hne, rfl⟩ := hb
  rw [clean_eq_render (by simp), head_render hn hne, split_append_sep, cleanElems_append,
    cleanElems_render hn hne]
  simp [split, cleanElems]

theorem forall_ne_sep_reverse {f : List Char} (hf : '/' ∉ f) :
    ∀ c ∈ f.reverse, decide (c ≠ '/') = true := by
  intro c hc
  simp only [ne_eq, decide_eq_true_eq]
  rintro rfl
  exact hf (List.mem_reverse.mp hc)

/-- `Clean` of a path whose last element is plain prints a non-empty stack. -/
theorem proper_clean_of_last {p n : List Char} (hn : IsElem n) (hp : p = n ∨ ∃ y, p = y ++ '/' :: n) :
    Proper (clean p) := by
  have hne : p ≠ [] := by rcases hp with rfl | ⟨y, rfl⟩ <;> simp [hn.1]
  have hsplit : ∃ xs, split p '/' = xs ++ [n] := by
    rcases hp with rfl | ⟨y, rfl⟩
    · exact ⟨[], split_of_not_mem hn.2.1⟩
    · exact ⟨split y '/', by rw [split_append_sep, split_of_not_mem hn.2.1]⟩
  obtain ⟨xs, hxs⟩ := hsplit
  have hn1 : ∀ e ∈ [n], IsElem e := fun e he => List.mem_singleton.mp he ▸ hn
  set ro := decide (p.head? = some '/')
  have hx : ∀ e ∈ xs, '/' ∉ e := fun e he => not_sep_of_mem_split (hxs ▸ List.mem_append_left _ he)
  have hst : cleanElems ro (split p '/') [] = n :: cleanElems ro xs [] := by
    rw [hxs, cleanElems_append, cleanElems_elems hn1]; rfl
  rw [clean_eq_render hne, hst]
  exact ⟨ro, _, (cleanElems_normal hx ⟨[], 0, rfl, by simp, fun _ => rfl⟩).push hn1, by simp, rfl⟩

/-- `Join` of elements ending in a plain one. -/
theorem proper_join (xs : List (List Char)) {n : List Char} (hn : IsElem n) :
    Proper (join (xs ++ [n])) := by
  have hd : (xs ++ [n]).dropWhile (· = []) = xs.dropWhile (· = []) ++ [n] := by
    rw [List.dropWhile_append]
    split
    · next h =>
      have : xs.dropWhile (· = []) = [] := by simpa using h
      simp [this, hn.1]
    · rfl
  unfold join
  rw [hd]
  generalize xs.dropWhile (· = []) = ds
  rcases ds with _ | ⟨d, ds⟩
  · exact proper_clean_of_last hn (.inl (by simp [List.intercalate]))
  · refine proper_clean_of_last hn (.inr ⟨['/'].intercalate (d :: ds), ?_⟩)
    show ['/'].intercalate ((d :: ds) ++ [n]) = _
    rw [intercalate_append (List.cons_ne_nil _ _) (List.cons_ne_nil _ _)]
    simp [List.intercalate]

theorem splitPath_append {a f : List Char} (hf : '/' ∉ f) :
    splitPath (a ++ '/' :: f) = (a ++ ['/'], f) := by
  have ht : (a ++ '/' :: f).reverse.takeWhile (· ≠ '/') = f.reverse := by
    rw [List.reverse_append, List.reverse_cons, List.append_assoc,
      List.takeWhile_append_of_pos (forall_ne_sep_reverse hf)]
    simp
  have hl : (a ++ '/' :: f).length - f.length = (a ++ ['/']).length := by simp; omega
  rw [splitPath]
  simp only [ht, List.reverse_reverse, hl]
  rw [show a ++ '/' :: f = (a ++ ['/']) ++ f by simp, List.take_left]

theorem splitPath_of_not_mem {f : List Char} (hf : '/' ∉ f) : splitPath f = ([], f) := by
  have ht : f.reverse.takeWhile (· ≠ '/') = f.reverse :=
    List.takeWhile_eq_self_iff.mpr (forall_ne_sep_reverse hf)
  simp only [splitPath, ht, List.reverse_reverse, Nat.sub_self, List.take_zero]

/-- The directory of a file directly below a proper path is that path. -/
theorem Proper.dir_append {b e : List Char} (hb : Proper b) (he : '/' ∉ e) :
    dir (b ++ '/' :: e) = b := by
  rw [dir, splitPath_append he, hb.clean_slash]

/-- `Base` of a path ending in a plain element and a `/`. -/
theorem base_append_slash {y g : List Char} (hg : IsElem g)
    (hy : y.reverse.takeWhile (· ≠ '/') = []) : base (y ++ g ++ ['/']) = g := by
  have hr := forall_ne_sep_reverse hg.2.1
  obtain ⟨c, t, hc⟩ := List.exists_cons_of_ne_nil (List.reverse_ne_nil_iff.mpr hg.1)
  have hc' : c ≠ '/' := by simpa using hr c (hc ▸ .head _)
  have hs : ((y ++ g ++ ['/']).reverse.dropWhile (· = '/')).reverse = y ++ g := by
    rw [← List.reverse_reverse g, hc]
    simp [hc']
  have ht : (y ++ g).reverse.takeWhile (· ≠ '/') = g.reverse := by
    rw [List.reverse_append, List.takeWhile_append_of_pos hr, hy, List.append_nil]
  unfold base
  simp only [List.append_eq_nil, List.cons_ne_self, and_false, ↓reduceIte, hs, ht,
    List.reverse_reverse, hg.1]

/-- The base of a plain element with a trailing `/` is the element. -/
theorem base_slash {a : List Char} (ha : IsElem a) : base (a ++ ['/']) = a :=
  @base_append_slash [] a ha rfl

instance : DecidablePred IsElem := fun _ => inferInstanceAs (Decidable (_ ∧ _ ∧ _ ∧ _))

theorem IsElem.proper {e : List Char} (he : IsElem e) : Proper e :=
  ⟨false, [e], ⟨[e], 0, by simp, by simpa using he, by simp⟩, by simp, by
    simp [render, List.intercalate, he.1]⟩

/-- An element is a plain relative path. -/
theorem IsElem.split_elem {e : List Char} (he : IsElem e) : ∀ x ∈ split e '/', IsElem x := by
  rw [split_of_not_mem he.2.1]; simpa using he

theorem Proper.ne_nil {b : List Char} (hb : Proper b) : b ≠ [] := by
  obtain ⟨ro, st, -, -, rfl⟩ := hb; exact render_ne_nil

/-- `Join` of elements that start with a proper path cleans their `/`-joined text. -/
theorem Proper.join_cons {b : List Char} (hb : Proper b) (rest : List (List Char)) :
    join (b :: rest) = clean (['/'].intercalate (b :: rest)) := by
  simp only [join, List.dropWhile_cons, hb.ne_nil, decide_False, Bool.false_eq_true, ↓reduceIte]

/-- `Join` of a proper path and a plain relative path appends them. -/
theorem Proper.join_pair {b r : List Char} (hb : Proper b) (hr : ∀ e ∈ split r '/', IsElem e) :
    join [b, r] = b ++ '/' :: r := by
  rw [hb.join_cons, show ['/'].intercalate [b, r] = b ++ '/' :: r by simp [List.intercalate]]
  exact (hb.clean_append hr).1

/-- An empty element between two `/` is dropped. -/
theorem clean_sep_sep {a r : List Char} (ha : a ≠ []) :
    clean (a ++ '/' :: '/' :: r) = clean (a ++ '/' :: r) := by
  have hs : split ('/' :: r) '/' = [] :: split r '/' := by
    simpa using split_append_sep '/' [] r
  have hh : ∀ t : List Char, (a ++ t).head? = a.head? := by
    intro t; obtain ⟨c, u, rfl⟩ := List.exists_cons_of_ne_nil ha; rfl
  rw [clean_eq_render (by simp), clean_eq_render (by simp), hh, hh, split_append_sep,
    split_append_sep, hs, cleanElems_append, cleanElems_append]
  simp [cleanElems]

/-- `Clean` of any path prints a normal stack. -/
theorem clean_normal (p : List Char) :
    ∃ rooted st, NormalStack rooted st ∧ clean p = render rooted st := by
  rcases eq_or_ne p [] with rfl | hp
  · exact ⟨false, [], ⟨[], 0, rfl, by simp, by simp⟩, by decide⟩
  · exact ⟨_, _, cleanElems_normal (fun e he => not_sep_of_mem_split he)
      ⟨[], 0, rfl, by simp, fun _ => rfl⟩, clean_eq_render hp⟩

/-- Plain elements joined by `/` are a proper relative path. -/
theorem proper_intercalate {ws : List (List Char)} (hw : ∀ w ∈ ws, IsElem w) (hne : ws ≠ []) :
    Proper (['/'].intercalate ws) := by
  have hn : NormalStack false ws.reverse :=
    ⟨ws.reverse, 0, by simp, fun w h => hw w (List.mem_reverse.mp h), by simp⟩
  refine ⟨false, ws.reverse, hn, by simpa using hne, ?_⟩
  rw [render_eq hn (by simpa using hne)]
  simp

/-- Two plain elements joined by `/` are a plain relative path. -/
theorem IsElem.split_pair {d f : List Char} (hd : IsElem d) (hf : IsElem f) :
    ∀ e ∈ split (d ++ '/' :: f) '/', IsElem e := by
  rw [split_append_sep, split_of_not_mem hd.2.1, split_of_not_mem hf.2.1]
  simp [hd, hf]

/-- `Clean` drops a trailing `/.`. -/
theorem Proper.clean_dot {b : List Char} (hb : Proper b) : clean (b ++ ['/', '.']) = b := by
  obtain ⟨ro, st, hn, hne, rfl⟩ := hb
  rw [clean_eq_render (by simp), head_render hn hne, split_append_sep, cleanElems_append,
    cleanElems_render hn hne]
  simp [split, cleanElems]

/-- ... and the empty element of a `//` before a plain relative path. -/
theorem Proper.clean_sep_sep_append {b r : List Char} (hb : Proper b)
    (hr : ∀ e ∈ split r '/', IsElem e) : clean (b ++ '/' :: '/' :: r) = b ++ '/' :: r := by
  rw [clean_sep_sep hb.ne_nil]
  exact (hb.clean_append hr).1

/-! ## `Join` below a proper path -/

theorem Proper.join_dot {b : List Char} (hb : Proper b) : join [b, ['.']] = b := by
  rw [hb.join_cons, show ['/'].intercalate [b, ['.']] = b ++ ['/', '.'] by simp [List.intercalate]]
  exact hb.clean_dot

theorem Proper.join_nil_dot {b : List Char} (hb : Proper b) : join [b, [], ['.']] = b := by
  rw [hb.join_cons, show ['/'].intercalate [b, [], ['.']] = b ++ '/' :: '/' :: ['.'] by
    simp [List.intercalate], clean_sep_sep hb.ne_nil]
  exact hb.clean_dot

theorem Proper.join_nil_elem {b f : List Char} (hb : Proper b) (hf : IsElem f) :
    join [b, [], f] = b ++ '/' :: f := by
  rw [hb.join_cons, show ['/'].intercalate [b, [], f] = b ++ '/' :: '/' :: f by
    simp [List.intercalate]]
  exact hb.clean_sep_sep_append hf.split_elem

theorem Proper.join_elems {b d f : List Char} (hb : Proper b) (hd : IsElem d) (hf : IsElem f) :
    join [b, d, f] = b ++ '/' :: (d ++ '/' :: f) := by
  rw [hb.join_cons, show ['/'].intercalate [b, d, f] = b ++ '/' :: (d ++ '/' :: f) by
    simp [List.intercalate]]
  exact (hb.clean_append (hd.split_pair hf)).1

/-- A leading empty element is skipped. -/
theorem IsElem.join_nil {f : List Char} (hf : IsElem f) : join [[], f] = f := by
  simp [join, hf.1, List.intercalate, hf.proper.clean_eq]

end CloudArchive
