import CloudArchive.Util.UploadTracker

/-!
# Store — every push and pull bracketed by the upload tracker

The four handlers that touch the tracker, `filestore.UnpackShard`, `filestore.PackShard`,
`ftpstore.UnpackShard` and `ftpstore.PackShard`, are written as `Code`: their calls to
`EnterUpload` and `ExitUpload`, and every other call whose failure makes them return early,
with the code that runs on that failure. A call whose error the handler ignores
(`os.RemoveAll`, `ensureTagsDat`) has the same code on both branches. What the calls do to
the disk or the FTP server plays no part here.

Any number of requests run concurrently (`Sys`): a step starts a new request, or runs one
call of one request, failing or succeeding as the environment decides. A request that never
steps again (a hung `PackShard` pipeline) is simply never scheduled.

The invariant says, per request, how many `ExitUpload`s it still owes, and that the
tracker's map is exactly the set of ids of the requests that hold one. From it: no two
requests hold one id, and a request that has returned called `ExitUpload` exactly once if
its `EnterUpload` succeeded and never otherwise.
-/

namespace CloudArchive.Store.Upload

open CloudArchive.Util

/-- A handler body, as far as the tracker sees it. -/
inductive Code
  /-- `return` -/
  | ret
  /-- `if err = f.EnterUpload(uid); err != nil { return }` -/
  | enterUpload (k : Code)
  /-- `f.ExitUpload(uid)` -/
  | exitUpload (k : Code)
  /-- a call that may fail: on failure `onErr` runs, on success `k` -/
  | call (name : String) (onErr k : Code)
  deriving DecidableEq, Repr

/-- A call whose error is ignored. -/
def Code.ignore (name : String) (k : Code) : Code := .call name k k

/-- The early return of a failed call after a successful `EnterUpload`. -/
def Code.bail : Code := .exitUpload .ret

/-- `filestore.UnpackShard`. The probe loop for a free `.N` suffix makes no call that can
fail; `os.RemoveAll`'s error is ignored. -/
def Filestore.unpackShard : Code :=
  .enterUpload <|
  .call "os.MkdirAll" .bail <|
  .call "shardpacker.NewUnpacker" (.ignore "os.RemoveAll" .bail) <|
  .call "Unpacker.Unpack" (.ignore "os.RemoveAll" .bail) <|
  .exitUpload .ret

/-- `filestore.PackShard`. The copier/adder pipeline returns an error or `nil`, and both
branches of the final `if err == nil` call `ExitUpload`. -/
def Filestore.packShard : Code :=
  .enterUpload <|
  .call "readableDir" .bail <|
  .call "pipeline" .bail <|
  .exitUpload .ret

/-- `ftpstore.UnpackShard`; `ensureTagsDat`'s and `RemoveDirRecur`'s errors are ignored. -/
def Ftpstore.unpackShard : Code :=
  .enterUpload <|
  .call "getFtpClient" .bail <|
  .call "ftpMkdirAll" .bail <|
  .ignore "ensureTagsDat" <|
  .call "shardpacker.NewUnpacker" (.ignore "RemoveDirRecur" .bail) <|
  .call "Unpacker.Unpack" (.ignore "RemoveDirRecur" .bail) <|
  .exitUpload .ret

/-- One regular file of the walk in `ftpstore.PackShard`: make its directory, create the
local copy, `Retr` it and copy it over, each failure returning after `ExitUpload`. -/
def Ftpstore.copyFile (k : Code) : Code :=
  .call "os.MkdirAll" .bail <| .call "os.Create" .bail <| .call "Retr" .bail <|
  .call "io.Copy" .bail k

/-- The walk over `files` regular files. -/
def Ftpstore.copyFiles : Nat → Code → Code
  | 0, k => k
  | n + 1, k => copyFile (copyFiles n k)

/-- `ftpstore.PackShard` on a shard directory holding `files` regular files. It dials the
FTP server before `EnterUpload`. -/
def Ftpstore.packShard (files : Nat) : Code :=
  .call "getFtpClient" .ret <|
  .enterUpload <|
  .call "ftpDirExists" .bail <|
  .call "os.MkdirAll" .bail <|
  copyFiles files <|
  .call "pipeline" .bail <|
  .exitUpload .ret

/-- The handlers a request may run. -/
inductive Handler
  | filestoreUnpack | filestorePack | ftpstoreUnpack | ftpstorePack (files : Nat)

/-- The body of a handler. -/
def Handler.code : Handler → Code
  | .filestoreUnpack => Filestore.unpackShard
  | .filestorePack => Filestore.packShard
  | .ftpstoreUnpack => Ftpstore.unpackShard
  | .ftpstorePack n => Ftpstore.packShard n

/-! ## Bracketing, read off the code -/

/-- Every path leaves the tracker alone. -/
def Code.noTracker : Code → Bool
  | .ret => true
  | .enterUpload _ | .exitUpload _ => false
  | .call _ e k => e.noTracker && k.noTracker

/-- Every path calls `ExitUpload` exactly once and `EnterUpload` never. -/
def Code.exitsOnce : Code → Bool
  | .ret | .enterUpload _ => false
  | .exitUpload k => k.noTracker
  | .call _ e k => e.exitsOnce && k.exitsOnce

/-- Before `EnterUpload` nothing touches the tracker; after a successful one every path
calls `ExitUpload` exactly once. -/
def Code.wellBracketed : Code → Bool
  | .ret => true
  | .enterUpload k => k.exitsOnce
  | .exitUpload _ => false
  | .call _ e k => e.wellBracketed && k.wellBracketed

theorem Ftpstore.copyFiles_exitsOnce (n : Nat) (k : Code) :
    (copyFiles n k).exitsOnce = k.exitsOnce := by
  induction n with
  | zero => rfl
  | succ n ih => simp [copyFiles, copyFile, Code.exitsOnce, Code.bail, Code.noTracker, ih]

/-- Every handler is well bracketed. -/
theorem Handler.code_wellBracketed (h : Handler) : h.code.wellBracketed = true := by
  cases h with
  | ftpstorePack n =>
    simp [code, Ftpstore.packShard, Code.wellBracketed, Code.exitsOnce,
      Ftpstore.copyFiles_exitsOnce, Code.bail, Code.noTracker]
  | _ => decide

/-! ## Concurrent requests -/

/-- A request in flight: its upload id, the code it has left, whether its `EnterUpload`
succeeded, and how many `ExitUpload`s it has made. -/
structure Call where
  uid : UploadID
  code : Code
  entered : Bool
  exits : Nat

/-- The request holds its id in the tracker. -/
def Call.holds (c : Call) : Bool := c.entered && c.exits == 0

/-- The requests so far (`calls i` for `i < count`) and the tracker they share. -/
structure Sys where
  tracker : UploadTracker
  calls : Nat → Call
  count : Nat

/-- No request yet. -/
def Sys.init : Sys := ⟨.new, fun _ => ⟨⟨0, 0, "", ""⟩, .ret, false, 0⟩, 0⟩

/-- What happens next: a new request for `uid` runs handler `h`, or request `i` makes its
next call, which fails iff `fail` (the flag is read only by calls that may fail). -/
inductive Event
  | start (uid : UploadID) (h : Handler)
  | run (i : Nat) (fail : Bool)

/-- One step of request `i` whose code is `c.code`. -/
def Sys.runCall (s : Sys) (i : Nat) (c : Call) (fail : Bool) : Option Sys :=
  match c.code with
  | .ret => none
  | .enterUpload k =>
    match s.tracker.enterUpload c.uid with
    | (.ok (), t) => some ⟨t, Function.update s.calls i { c with code := k, entered := true }, s.count⟩
    | (.error _, t) => some ⟨t, Function.update s.calls i { c with code := .ret }, s.count⟩
  | .exitUpload k =>
    some ⟨(s.tracker.exitUpload c.uid).2,
      Function.update s.calls i { c with code := k, exits := c.exits + 1 }, s.count⟩
  | .call _ e k =>
    some { s with calls := Function.update s.calls i { c with code := if fail then e else k } }

/-- One step of the system. -/
def Sys.step (s : Sys) : Event → Option Sys
  | .start uid h =>
    some { s with calls := Function.update s.calls s.count ⟨uid, h.code, false, 0⟩,
                  count := s.count + 1 }
  | .run i fail => if i < s.count then s.runCall i (s.calls i) fail else none

/-- The states some interleaving reaches. -/
inductive Reachable : Sys → Prop
  | init : Reachable Sys.init
  | step {s s' : Sys} (e : Event) : Reachable s → s.step e = some s' → Reachable s'

/-! ## The invariant -/

/-- What a request still owes: before a successful `EnterUpload` a well-bracketed body,
while it holds its id one `ExitUpload` on every path, afterwards none. -/
def Call.Inv (c : Call) : Prop :=
  (c.entered = false ∧ c.exits = 0 ∧ c.code.wellBracketed) ∨
  (c.entered = true ∧ c.exits = 0 ∧ c.code.exitsOnce) ∨
  (c.entered = true ∧ c.exits = 1 ∧ c.code.noTracker)

/-- Some request of the first `n` holds `u`. -/
def HeldBy (calls : Nat → Call) (n : Nat) (u : UploadID) : Prop :=
  ∃ j < n, (calls j).uid = u ∧ (calls j).holds

/-- The tracker's invariant over all requests. -/
structure Sys.Inv (s : Sys) : Prop where
  calls : ∀ i < s.count, (s.calls i).Inv
  /-- the map holds exactly the ids of the requests that hold one -/
  active : ∀ u, s.tracker.active u = true ↔ HeldBy s.calls s.count u
  /-- no two requests hold one id -/
  exclusive : ∀ i < s.count, ∀ j < s.count, (s.calls i).holds → (s.calls j).holds →
    (s.calls i).uid = (s.calls j).uid → i = j

/-- Replacing request `i` by `c'` changes no holder of `u` when neither holds `u`. -/
theorem heldBy_update_of_ne {calls : Nat → Call} {n i : Nat} {c' : Call} {u : UploadID}
    (hc : ¬((calls i).uid = u ∧ (calls i).holds)) (hc' : ¬(c'.uid = u ∧ c'.holds)) :
    HeldBy (Function.update calls i c') n u ↔ HeldBy calls n u := by
  constructor <;> rintro ⟨j, hj, hu, hh⟩ <;> by_cases hji : j = i
  · subst hji; simp only [Function.update_same] at hu hh; exact absurd ⟨hu, hh⟩ hc'
  · exact ⟨j, hj, by simpa [hji] using hu, by simpa [hji] using hh⟩
  · subst hji; exact absurd ⟨hu, hh⟩ hc
  · exact ⟨j, hj, by simpa [hji] using hu, by simpa [hji] using hh⟩

/-- A step of request `i` that keeps its id, whether it holds it, and the tracker. -/
theorem Sys.Inv.frame {s : Sys} (hs : s.Inv) {i : Nat} (hi : i < s.count) {c' : Call}
    (hc' : c'.Inv) (huid : c'.uid = (s.calls i).uid) (hholds : c'.holds = (s.calls i).holds) :
    Sys.Inv ⟨s.tracker, Function.update s.calls i c', s.count⟩ := by
  have hsame : ∀ j, (Function.update s.calls i c' j).uid = (s.calls j).uid ∧
      (Function.update s.calls i c' j).holds = (s.calls j).holds := by
    intro j; by_cases hji : j = i
    · subst hji; simp [huid, hholds]
    · simp [hji]
  refine ⟨fun j hj => ?_, fun u => ?_, fun j hj k hk hj' hk' hu => ?_⟩ <;> dsimp only at *
  · by_cases hji : j = i
    · subst hji; simpa using hc'
    · simpa [hji] using hs.calls j hj
  · simp only [hs.active, HeldBy, (hsame _).1, (hsame _).2]
  · rw [(hsame _).1, (hsame _).1] at hu; rw [(hsame _).2] at hj' hk'
    exact hs.exclusive j hj k hk hj' hk' hu

/-- A successful `EnterUpload` of request `i`. -/
theorem Sys.Inv.enter {s : Sys} (hs : s.Inv) {i : Nat} (hi : i < s.count) {k : Code}
    (hcode : (s.calls i).code = .enterUpload k) (hfree : s.tracker.active (s.calls i).uid = false) :
    Sys.Inv ⟨⟨Function.update s.tracker.active (s.calls i).uid true⟩,
      Function.update s.calls i { s.calls i with code := k, entered := true }, s.count⟩ := by
  obtain ⟨-, hex, hk⟩ : (s.calls i).entered = false ∧ (s.calls i).exits = 0 ∧ k.exitsOnce := by
    rcases hs.calls i hi with h | ⟨-, -, h⟩ | ⟨-, -, h⟩ <;>
      simp_all [Code.wellBracketed, Code.exitsOnce, Code.noTracker]
  have hnot : ∀ j < s.count, (s.calls j).holds → (s.calls j).uid ≠ (s.calls i).uid :=
    fun j hj hh hu => by simp [(hs.active _).mpr ⟨j, hj, hu, hh⟩] at hfree
  refine ⟨fun j hj => ?_, fun u => ?_, fun j hj l hl hj' hl' hu => ?_⟩ <;> dsimp only at *
  · by_cases hji : j = i
    · subst hji; simp [Call.Inv, hex, hk]
    · simpa [hji] using hs.calls j hj
  · by_cases hu : u = (s.calls i).uid
    · subst hu; simp only [Function.update_same, true_iff]
      exact ⟨i, hi, by simp, by simp [Call.holds, hex]⟩
    · rw [Function.update_noteq hu, hs.active]
      exact (heldBy_update_of_ne (by exact fun h => hu h.1.symm) (by exact fun h => hu h.1.symm)).symm
  · by_cases hji : j = i <;> by_cases hli : l = i
    · rw [hji, hli]
    · subst hji; simp [hli] at hu hl'; exact absurd hu.symm (hnot l hl hl')
    · subst hli; simp [hji] at hu hj'; exact absurd hu (hnot j hj hj')
    · simp [hji, hli] at hu hj' hl'; exact hs.exclusive j hj l hl hj' hl' hu

/-- `ExitUpload` of request `i`: it holds its id, and releases it. -/
theorem Sys.Inv.exit {s : Sys} (hs : s.Inv) {i : Nat} (hi : i < s.count) {k : Code}
    (hcode : (s.calls i).code = .exitUpload k) :
    s.tracker.active (s.calls i).uid = true ∧
    Sys.Inv ⟨⟨Function.update s.tracker.active (s.calls i).uid false⟩,
      Function.update s.calls i { s.calls i with code := k, exits := (s.calls i).exits + 1 },
      s.count⟩ := by
  obtain ⟨hen, hex, hk⟩ : (s.calls i).entered = true ∧ (s.calls i).exits = 0 ∧ k.noTracker := by
    rcases hs.calls i hi with ⟨-, -, h⟩ | h | ⟨-, -, h⟩ <;>
      simp_all [Code.wellBracketed, Code.exitsOnce, Code.noTracker]
  have hheld : (s.calls i).holds := by simp [Call.holds, hen, hex]
  have honly : ∀ j < s.count, (s.calls j).holds → (s.calls j).uid = (s.calls i).uid → j = i :=
    fun j hj hh hu => hs.exclusive j hj i hi hh hheld hu
  refine ⟨(hs.active _).mpr ⟨i, hi, rfl, hheld⟩, fun j hj => ?_, fun u => ?_,
    fun j hj l hl hj' hl' hu => ?_⟩ <;> dsimp only at *
  · by_cases hji : j = i
    · subst hji; simp [Call.Inv, hen, hex, hk]
    · simpa [hji] using hs.calls j hj
  · by_cases hu : u = (s.calls i).uid
    · subst hu; simp only [Function.update_same, Bool.false_eq_true, false_iff]
      rintro ⟨j, hj, hu, hh⟩
      by_cases hji : j = i
      · subst hji; simp [Call.holds] at hh
      · simp [hji] at hu hh; exact hji (honly j hj hh hu)
    · rw [Function.update_noteq hu, hs.active]
      exact (heldBy_update_of_ne (by exact fun h => hu h.1.symm)
        (by simp [Call.holds])).symm
  · by_cases hji : j = i
    · subst hji; simp [Call.holds] at hj'
    · by_cases hli : l = i
      · subst hli; simp [Call.holds] at hl'
      · simp [hji, hli] at hu hj' hl'; exact hs.exclusive j hj l hl hj' hl' hu

/-- A new request. -/
theorem Sys.Inv.start {s : Sys} (hs : s.Inv) (uid : UploadID) (h : Handler) :
    Sys.Inv { s with calls := Function.update s.calls s.count ⟨uid, h.code, false, 0⟩,
                     count := s.count + 1 } := by
  have hnew : ∀ j, j < s.count + 1 → j ≠ s.count → j < s.count := fun j hj hne => by omega
  refine ⟨fun j hj => ?_, fun u => ?_, fun j hj l hl hj' hl' hu => ?_⟩ <;> dsimp only at *
  · by_cases hji : j = s.count
    · subst hji; simp [Call.Inv, h.code_wellBracketed]
    · simpa [hji] using hs.calls j (hnew j hj hji)
  · rw [hs.active]
    constructor
    · rintro ⟨j, hj, hu, hh⟩
      have hji : j ≠ s.count := by omega
      exact ⟨j, by omega, by simpa [hji] using hu, by simpa [hji] using hh⟩
    · rintro ⟨j, hj, hu, hh⟩
      by_cases hji : j = s.count
      · subst hji; simp [Call.holds] at hh
      · exact ⟨j, hnew j hj hji, by simpa [hji] using hu, by simpa [hji] using hh⟩
  · by_cases hji : j = s.count
    · subst hji; simp [Call.holds] at hj'
    · by_cases hli : l = s.count
      · subst hli; simp [Call.holds] at hl'
      · simp [hji, hli] at hu hj' hl'
        exact hs.exclusive j (hnew j hj hji) l (hnew l hl hli) hj' hl' hu

/-- **Step lemma.** Every step keeps the invariant. -/
theorem Sys.Inv.step {s s' : Sys} (hs : s.Inv) {e : Event} (h : s.step e = some s') : s'.Inv := by
  cases e with
  | start uid hd => cases h; exact hs.start uid hd
  | run i fail =>
    simp only [Sys.step] at h
    split at h
    · rename_i hi
      unfold Sys.runCall at h
      split at h
      · cases h
      · rename_i k hcode
        split at h <;> cases h
        · rename_i t ht
          obtain ⟨hfree, rfl⟩ : s.tracker.active (s.calls i).uid = false ∧
              t = ⟨Function.update s.tracker.active (s.calls i).uid true⟩ := by
            unfold UploadTracker.enterUpload at ht; split at ht <;> simp_all
          exact hs.enter hi hcode hfree
        · rename_i t ht
          have ht : t = s.tracker := by
            unfold UploadTracker.enterUpload at ht; split at ht <;> simp_all
          subst ht
          obtain ⟨hen, hex⟩ : (s.calls i).entered = false ∧ (s.calls i).exits = 0 := by
            rcases hs.calls i hi with ⟨h1, h2, -⟩ | ⟨-, -, h⟩ | ⟨-, -, h⟩ <;>
              simp_all [Code.exitsOnce, Code.noTracker]
          exact hs.frame hi (.inl ⟨hen, hex, rfl⟩) rfl rfl
      · rename_i k hcode
        cases h
        obtain ⟨hact, hinv⟩ := hs.exit hi hcode
        simpa [UploadTracker.exitUpload, hact] using hinv
      · rename_i e k hcode
        cases h
        refine hs.frame hi ?_ rfl rfl
        rcases hs.calls i hi with h | h | h <;> rw [hcode] at h <;>
          cases fail <;> simp_all [Call.Inv, Code.wellBracketed, Code.exitsOnce, Code.noTracker]
    · cases h

/-- **Run lemma.** Every reachable state keeps the invariant. -/
theorem Reachable.inv {s : Sys} (h : Reachable s) : s.Inv := by
  induction h with
  | init =>
    exact ⟨fun i hi => absurd hi (Nat.not_lt_zero _),
      fun u => by simp [Sys.init, HeldBy, UploadTracker.new], fun i hi => absurd hi (Nat.not_lt_zero _)⟩
  | step _ _ hst ih => exact ih.step hst

/-- The events of a trace, in order. -/
def Sys.run (s : Sys) : List Event → Option Sys
  | [] => some s
  | e :: es => (s.step e).bind (·.run es)

theorem Reachable.run {s s' : Sys} (h : Reachable s) (es : List Event) (hr : s.run es = some s') :
    Reachable s' := by
  induction es generalizing s with
  | nil => cases hr; exact h
  | cons e es ih =>
    obtain ⟨s₁, h₁, h₂⟩ := Option.bind_eq_some.mp hr
    exact ih (.step e h h₁) h₂

/-! ## Every request bracketed -/

/-- What the tracker promises, in one state: (a) no two requests hold one upload id between
a successful `EnterUpload` and their `ExitUpload`; (b) a request has made at most one
`ExitUpload`, and one that has returned made exactly one if its `EnterUpload` succeeded and
none otherwise; so when every request has returned the map is empty. -/
def Sys.Bracketed (s : Sys) : Prop :=
  (∀ i < s.count, ∀ j < s.count, i ≠ j → (s.calls i).holds → (s.calls j).holds →
    (s.calls i).uid ≠ (s.calls j).uid) ∧
  (∀ i < s.count, (s.calls i).exits ≤ 1 ∧
    ((s.calls i).code = .ret → (s.calls i).exits = if (s.calls i).entered then 1 else 0)) ∧
  ((∀ i < s.count, (s.calls i).code = .ret) → ∀ u, s.tracker.active u = false)

theorem Call.Inv.exits_le {c : Call} (h : c.Inv) : c.exits ≤ 1 := by
  rcases h with ⟨-, h, -⟩ | ⟨-, h, -⟩ | ⟨-, h, -⟩ <;> omega

theorem Call.Inv.not_holds_of_ret {c : Call} (h : c.Inv) (hc : c.code = .ret) :
    c.holds = false ∧ c.exits = if c.entered then 1 else 0 := by
  rcases h with ⟨h1, h2, -⟩ | ⟨-, -, h⟩ | ⟨h1, h2, -⟩
  · simp [Call.holds, h1, h2]
  · simp [hc, Code.exitsOnce] at h
  · simp [Call.holds, h1, h2]

/-- **Every push and pull is bracketed.** In every state that any interleaving of
`filestore`/`ftpstore` `UnpackShard` and `PackShard` requests reaches, with any call failing
or succeeding, the tracker keeps its promise. -/
theorem reachable_bracketed {s : Sys} (h : Reachable s) : s.Bracketed := by
  have hs := h.inv
  refine ⟨fun i hi j hj hij hi' hj' hu => hij (hs.exclusive i hi j hj hi' hj' hu),
    fun i hi => ⟨(hs.calls i hi).exits_le, fun hc => ((hs.calls i hi).not_holds_of_ret hc).2⟩,
    fun hret u => ?_⟩
  by_contra hu
  obtain ⟨i, hi, -, hh⟩ := (hs.active u).mp (by simpa using hu)
  simp [((hs.calls i hi).not_holds_of_ret (hret i hi)).1] at hh

/-- Two pushes of one shard: the first enters, the second's `EnterUpload` fails and it
returns, then the first runs to the end. -/
theorem bracketed_two_pushes_of_one_shard :
    let es : List Event := [.start ⟨7, 0, "w", "769f2"⟩ .filestoreUnpack,
      .start ⟨7, 0, "w", "769f2"⟩ .filestoreUnpack, .run 0 false, .run 1 false, .run 0 false,
      .run 0 false, .run 0 false, .run 0 false]
    Reachable ((Sys.init.run es).getD Sys.init) ∧ ((Sys.init.run es).getD Sys.init).Bracketed := by
  intro es
  have h := Reachable.init.run es rfl
  exact ⟨h, reachable_bracketed h⟩

end CloudArchive.Store.Upload
