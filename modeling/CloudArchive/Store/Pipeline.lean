import Mathlib.Logic.Basic

/-!
# Store — the three tasks of `PackShard`

`filestore.PackShard` and `ftpstore.PackShard` end in the same code: a copier goroutine runs
`io.Copy(wtr, p)` from the packer to the HTTP response, an adder goroutine runs
`AddShardFilesToPacker`, `Flush` and `Close` (each failure handed to `CloseWithError`), and the
handler's own goroutine, the orchestrator, `select`s on their two buffered error channels.

Everything the packer writes goes through a synchronous `io.Pipe`: a write blocks until the
copier reads it or the pipe is closed. `Flush`, `closePipeline` and `CloseWithError` run under
the packer's mutex, and the first two write to the pipe while they hold it (`zlib`'s flush
always emits a sync marker, its close the final block). `CloseWithError` closes the pipe
first and then writes only into a cancelled context, so it never blocks while it holds the
mutex; it is one step here. A write the packer makes while the pipe is closed fails at once.

The environment decides, at each step of `AddShardFilesToPacker`, whether it writes a chunk
to the pipe, returns `nil` or fails, and at each write of the copier to the response writer
whether it succeeds. The orchestrator's `select` may take either ready channel.
-/

namespace CloudArchive.Store.PackShard

/-- The state of the `io.Pipe`'s write end. -/
inductive PipeState
  | open
  /-- `pwtr.Close()`: reads return `io.EOF` -/
  | eof
  /-- `pwtr.CloseWithError(err)`: reads return `err` -/
  | error
  deriving DecidableEq, Repr

/-- Where the adder goroutine is. -/
inductive AdderPc
  /-- inside `util.AddShardFilesToPacker` -/
  | adding
  /-- ... blocked in a pipe write, without the mutex -/
  | addWrite
  /-- `p.Flush()`, waiting for the mutex -/
  | flush
  /-- `p.Flush()` holding the mutex, `zlib`'s flush blocked in a pipe write -/
  | flushWrite
  /-- `p.Close()`, waiting for the mutex -/
  | close
  /-- `p.Close()` holding the mutex, closing `tar` and `zlib`: blocked in a pipe write -/
  | closeWrite
  /-- `p.CloseWithError(err)`, waiting for the mutex -/
  | closeWithError
  /-- `ch <- err`; `failed` says whether `err != nil` -/
  | send (failed : Bool)
  | done
  deriving DecidableEq, Repr

/-- Where the copier goroutine is. -/
inductive CopierPc
  /-- `io.Copy` reading the pipe -/
  | read
  /-- `io.Copy` writing what it read to the response writer -/
  | write
  /-- `ch <- err` -/
  | send (failed : Bool)
  | done
  deriving DecidableEq, Repr

/-- The channel the orchestrator waits on. -/
inductive Chan
  | copyErr | addFilesErr
  deriving DecidableEq, Repr

/-- Where the orchestrator is. -/
inductive OrchPc
  /-- the `select` -/
  | select
  /-- `p.CloseWithError(err)` waiting for the mutex, then `<-next` -/
  | closeWithError (next : Chan)
  /-- `<-c` (or `err = <-c`) -/
  | wait (c : Chan)
  /-- past the `select`: `ExitUpload` and return -/
  | done
  deriving DecidableEq, Repr

/-- The three tasks and what they share: the mutex, the pipe, and the value (`true` for a
non-`nil` error) waiting in each channel. Only the adder holds the mutex across steps, inside
`Flush` and `closePipeline`. -/
structure Pipeline where
  adder : AdderPc
  copier : CopierPc
  orch : OrchPc
  locked : Bool
  pipe : PipeState
  copyErrChan : Option Bool
  addFilesErrChan : Option Bool
  deriving DecidableEq, Repr

/-- Right after both goroutines are started. -/
def Pipeline.init : Pipeline := ⟨.adding, .read, .select, false, .open, none, none⟩

/-- What `AddShardFilesToPacker` does next. -/
inductive AddChoice
  /-- a write that reaches the pipe -/
  | write
  /-- return `nil` -/
  | ok
  /-- return an error -/
  | fail
  deriving DecidableEq, Repr

/-- What happens next. -/
inductive Event
  /-- `AddShardFilesToPacker` makes progress -/
  | add (c : AddChoice)
  /-- the adder's next move that no one else decides -/
  | adder
  /-- the copier reads the pipe, or sends on its channel -/
  | copier
  /-- the copier's write to the response writer, succeeding iff `ok` -/
  | copierWrite (ok : Bool)
  /-- the orchestrator moves; in the `select` it takes the copy channel iff `copyFirst` -/
  | orch (copyFirst : Bool)
  deriving DecidableEq, Repr

/-- `pwtr.CloseWithError(err)`: the first close of the pipe wins. -/
def PipeState.closeWithError : PipeState → PipeState
  | .open => .error
  | p => p

@[simp] theorem PipeState.closeWithError_ne_open (p : PipeState) : p.closeWithError ≠ .open := by
  cases p <;> simp [PipeState.closeWithError]

@[simp] theorem PipeState.closeWithError_eq_eof (p : PipeState) :
    p.closeWithError = .eof ↔ p = .eof := by
  cases p <;> simp [PipeState.closeWithError]

/-- The chunk the adder is blocked on, read by the copier: the adder's write returns. After
`zlib`'s flush `Flush` unlocks and `Close` follows; after `zlib`'s close `closePipeline`
closes the pipe, unlocks, and the adder sends `nil`. -/
def Pipeline.deliver (s : Pipeline) : Option Pipeline :=
  match s.adder with
  | .addWrite => some { s with adder := .adding, copier := .write }
  | .flushWrite => some { s with adder := .close, copier := .write, locked := false }
  | .closeWrite =>
    some { s with adder := .send false, copier := .write, locked := false, pipe := .eof }
  | _ => none

/-- One step. -/
def Pipeline.step (s : Pipeline) : Event → Option Pipeline
  | .add c =>
    match s.adder, c with
    | .adding, .write =>
      some { s with adder := if s.pipe = .open then .addWrite else .closeWithError }
    | .adding, .ok => some { s with adder := .flush }
    | .adding, .fail => some { s with adder := .closeWithError }
    | _, _ => none
  | .adder =>
    match s.adder with
    | .addWrite => if s.pipe = .open then none else some { s with adder := .closeWithError }
    | .flush =>
      if !s.locked then some { s with adder := .flushWrite, locked := true } else none
    | .flushWrite =>
      if s.pipe = .open then none else some { s with adder := .closeWithError, locked := false }
    | .close =>
      if !s.locked then some { s with adder := .closeWrite, locked := true } else none
    | .closeWrite =>
      if s.pipe = .open then none else some { s with adder := .closeWithError, locked := false }
    | .closeWithError =>
      if !s.locked then some { s with adder := .send true, pipe := s.pipe.closeWithError }
      else none
    | .send e => some { s with adder := .done, addFilesErrChan := some e }
    | _ => none
  | .copier =>
    match s.copier with
    | .read =>
      match s.pipe with
      | .eof => some { s with copier := .send false }
      | .error => some { s with copier := .send true }
      | .open => s.deliver
    | .send e => some { s with copier := .done, copyErrChan := some e }
    | _ => none
  | .copierWrite ok =>
    match s.copier with
    | .write => some { s with copier := if ok then .read else .send true }
    | _ => none
  | .orch copyFirst =>
    match s.orch with
    | .select =>
      if copyFirst then
        match s.copyErrChan with
        | some e => some { s with orch := if e then .closeWithError .addFilesErr
                                          else .wait .addFilesErr, copyErrChan := none }
        | none => none
      else
        match s.addFilesErrChan with
        | some e => some { s with orch := if e then .closeWithError .copyErr
                                          else .wait .copyErr, addFilesErrChan := none }
        | none => none
    | .closeWithError c =>
      if !s.locked then some { s with orch := .wait c, pipe := s.pipe.closeWithError }
      else none
    | .wait .copyErr =>
      match s.copyErrChan with
      | some _ => some { s with orch := .done, copyErrChan := none }
      | none => none
    | .wait .addFilesErr =>
      match s.addFilesErrChan with
      | some _ => some { s with orch := .done, addFilesErrChan := none }
      | none => none
    | .done => none

/-- The events of a trace, in order. -/
def Pipeline.run (s : Pipeline) : List Event → Option Pipeline
  | [] => some s
  | e :: es => (s.step e).bind (·.run es)

/-- The states some interleaving reaches. -/
inductive Reachable : Pipeline → Prop
  | init : Reachable Pipeline.init
  | step {s s' : Pipeline} (e : Event) : Reachable s → s.step e = some s' → Reachable s'

theorem Reachable.run {s s' : Pipeline} (h : Reachable s) (es : List Event)
    (hr : s.run es = some s') : Reachable s' := by
  induction es generalizing s with
  | nil => cases hr; exact h
  | cons e es ih =>
    obtain ⟨s₁, h₁, h₂⟩ := Option.bind_eq_some.mp hr
    exact ih (.step e h h₁) h₂

/-- No task can move. -/
def Pipeline.Deadlocked (s : Pipeline) : Prop := ∀ e, s.step e = none

/-- **`PackShard` can hang.** The adder writes a chunk, the copier reads it and its write to
the response fails, so it reports the error and stops reading. The adder's
`AddShardFilesToPacker` returns `nil` and its `Flush` takes the mutex and blocks in the pipe
write of `zlib`'s flush. The orchestrator takes the copier's error and calls
`CloseWithError`, which waits for the mutex. No task can move again, and the orchestrator
never reaches `ExitUpload`. -/
theorem packShard_deadlocks_in_flush :
    let es : List Event :=
      [.add .write, .copier, .copierWrite false, .copier, .add .ok, .adder, .orch true]
    let t : Pipeline :=
      ⟨.flushWrite, .done, .closeWithError .addFilesErr, true, .open, none, none⟩
    Pipeline.init.run es = some t ∧ Reachable t ∧ t.Deadlocked ∧ t.orch ≠ .done := by
  intro es t
  have hrun : Pipeline.init.run es = some t := rfl
  refine ⟨hrun, Reachable.init.run es hrun, fun e => ?_, by decide⟩
  rcases e with c | _ | _ | ok | b
  · cases c <;> rfl
  · rfl
  · rfl
  · cases ok <;> rfl
  · cases b <;> rfl

/-! ## Every hang is the copier's

What holds along every interleaving: only the adder holds the mutex across steps; each
goroutine's error sits in its channel from its send until the orchestrator takes it; a `nil`
on either channel means the pipe reached `io.EOF`; and once the adder has sent or the
orchestrator waits past its `select`, the pipe is closed. From these, a state in which no
task can move is either the end of the handler, or the copier has stopped while the pipe is
still open and the adder holds the mutex, blocked in a pipe write: the hang above. -/

/-- The orchestrator has taken the copier's error. -/
def OrchPc.tookCopy : OrchPc → Bool
  | .closeWithError .addFilesErr | .wait .addFilesErr | .done => true
  | _ => false

/-- The orchestrator has taken the adder's error. -/
def OrchPc.tookAdd : OrchPc → Bool
  | .closeWithError .copyErr | .wait .copyErr | .done => true
  | _ => false

/-- The orchestrator is past its `select` and any `CloseWithError`. -/
def OrchPc.waiting : OrchPc → Bool
  | .wait _ | .done => true
  | _ => false

/-- The adder has sent, or is sending, its result. -/
def AdderPc.finished : AdderPc → Bool
  | .send _ | .done => true
  | _ => false

/-- What every reachable state satisfies. -/
def Pipeline.Inv (s : Pipeline) : Prop :=
  -- only the adder holds the mutex across steps, in the pipe writes of `Flush` and
  -- `closePipeline`
  (s.locked = true ↔ s.adder = .flushWrite ∨ s.adder = .closeWrite) ∧
  -- the copier's error waits in its channel from its send until the orchestrator takes it
  (s.copyErrChan.isSome = true ↔ s.copier = .done ∧ s.orch.tookCopy = false) ∧
  (s.orch.tookCopy = true → s.copier = .done) ∧
  -- likewise the adder's
  (s.addFilesErrChan.isSome = true ↔ s.adder = .done ∧ s.orch.tookAdd = false) ∧
  (s.orch.tookAdd = true → s.adder = .done) ∧
  -- a `nil` sent on either channel means the pipe reached `io.EOF`
  (s.copier = .send false ∨ s.copyErrChan = some false → s.pipe = .eof) ∧
  (s.adder = .send false ∨ s.addFilesErrChan = some false → s.pipe = .eof) ∧
  -- once the adder has sent, or the orchestrator waits past its `select`, the pipe is closed
  (s.adder.finished = true → s.pipe ≠ .open) ∧
  (s.orch.waiting = true → s.pipe ≠ .open)

theorem Pipeline.Inv.init : Pipeline.init.Inv := by
  simp [Pipeline.Inv, Pipeline.init, OrchPc.tookCopy, OrchPc.tookAdd, OrchPc.waiting,
    AdderPc.finished]

/-- One step keeps the invariant: one case per transition of each task. -/
theorem Pipeline.Inv.step {s s' : Pipeline} {e : Event} (h : s.Inv) (hs : s.step e = some s') :
    s'.Inv := by
  obtain ⟨a, c, o, l, p, cc, ac⟩ := s
  obtain ⟨hl, hcc, htc, hac, hta, hcn, han, hadc, horc⟩ := h
  dsimp only at hl hcc htc hac hta hcn han hadc horc
  unfold Pipeline.Inv
  rcases e with ch | _ | _ | ok | b
  · -- `AddShardFilesToPacker`
    cases a <;> cases ch <;> simp only [Pipeline.step] at hs <;> (try split at hs) <;>
      cases hs <;> simp_all [AdderPc.finished]
  · -- the adder's own moves
    cases a <;> simp only [Pipeline.step] at hs <;> (try split at hs) <;> cases hs <;>
      simp_all [AdderPc.finished]
  · -- the copier reads the pipe (taking the adder's pending chunk), or sends its error
    cases c <;> simp only [Pipeline.step, Pipeline.deliver] at hs
    · cases p <;> simp only at hs
      · cases a <;> simp only at hs <;> cases hs <;> simp_all [AdderPc.finished]
      all_goals (cases hs; simp_all [AdderPc.finished])
    all_goals cases hs <;> simp_all [AdderPc.finished]
  · -- the copier's write to the response
    cases c <;> simp only [Pipeline.step, reduceCtorEq] at hs
    cases hs; cases ok <;> simp_all
  · -- the orchestrator
    cases o with
    | select =>
      cases b <;> simp only [Pipeline.step, Bool.false_eq_true, ↓reduceIte] at hs
      · rcases ac with _ | e
        · cases hs
        · cases e <;> cases hs <;> simp_all [OrchPc.tookAdd, OrchPc.tookCopy, OrchPc.waiting]
      · rcases cc with _ | e
        · cases hs
        · cases e <;> cases hs <;> simp_all [OrchPc.tookAdd, OrchPc.tookCopy, OrchPc.waiting]
    | closeWithError ch =>
      simp only [Pipeline.step] at hs
      split at hs <;> cases hs
      cases ch <;> simp_all [OrchPc.tookAdd, OrchPc.tookCopy, OrchPc.waiting]
    | wait ch =>
      cases ch <;> simp only [Pipeline.step] at hs <;> split at hs <;> cases hs <;>
        simp_all [OrchPc.tookAdd, OrchPc.tookCopy, OrchPc.waiting]
    | done => cases hs

theorem Reachable.inv {s : Pipeline} (h : Reachable s) : s.Inv := by
  induction h with
  | init => exact .init
  | step _ _ hs ih => exact ih.step hs

/-- Under the invariant, a state where no task can move is the end of the handler, or the
copier has stopped while the pipe is open and the adder holds the mutex. -/
theorem Pipeline.Inv.deadlocked {s : Pipeline} (h : s.Inv) (hd : s.Deadlocked) :
    (s.adder = .done ∧ s.copier = .done ∧ s.orch = .done) ∨
      (s.copier = .done ∧ s.pipe = .open ∧ s.locked = true) := by
  obtain ⟨a, c, o, l, p, cc, ac⟩ := s
  obtain ⟨hl, hcc, htc, hac, hta, hcn, han, hadc, horc⟩ := h
  dsimp only at *
  have e1 := hd (.add .ok)
  have e2 := hd .adder
  have e3 := hd .copier
  have e4 := hd (.copierWrite true)
  have e5 := hd (.orch true)
  have e6 := hd (.orch false)
  clear hd
  simp only [Pipeline.step, Pipeline.deliver] at e1 e2 e3 e4 e5 e6
  -- the copier has stopped: its write to the response, or its send, could move
  cases c <;> simp only [reduceCtorEq] at e4 e3
  -- reading, it finds the pipe open and no chunk pending, which leaves the adder free to move
  · cases p <;> simp only [reduceCtorEq] at e3
    cases a <;> simp_all [AdderPc.finished]
  -- the adder can only be blocked in a pipe write, or done
  cases a <;> simp_all [AdderPc.finished]
  -- and the orchestrator is done, or waits for the mutex
  all_goals (rcases o with _ | ch | ch | _ <;> (try cases ch) <;>
    simp_all [OrchPc.tookAdd, OrchPc.tookCopy, OrchPc.waiting])
  all_goals (cases p <;> rcases cc with _ | _ <;> rcases ac with _ | _ <;> simp_all)

/-- **Every hang is the copier's.** In every reachable state where no task can move, either
all three tasks have finished, or the copier has stopped while the pipe is still open and the
adder holds the packer's mutex (inside `Flush` or `Close`, blocked in a pipe write). -/
theorem reachable_deadlocked_cases {s : Pipeline} (h : Reachable s) (hd : s.Deadlocked) :
    (s.adder = .done ∧ s.copier = .done ∧ s.orch = .done) ∨
      (s.copier = .done ∧ s.pipe = .open ∧ s.locked = true) :=
  h.inv.deadlocked hd

/-- The whole handler, every write succeeding: the copier takes the flush and close chunks,
meets `io.EOF`, and both results reach the orchestrator. -/
def finishedRun : List Event :=
  [.add .ok, .adder, .copier, .copierWrite true, .adder, .copier, .copierWrite true, .copier,
    .copier, .adder, .orch true, .orch true]

/-- The state `finishedRun` ends in. -/
def finished : Pipeline := ⟨.done, .done, .done, false, .eof, none, none⟩

theorem finished_deadlocked : finished.Deadlocked := by
  intro e
  rcases e with c | _ | _ | ok | b
  · cases c <;> rfl
  · rfl
  · rfl
  · cases ok <;> rfl
  · cases b <;> rfl

/-- The finished handler is the stuck state of its own run. -/
theorem finishedRun_deadlocked_cases :
    (finished.adder = .done ∧ finished.copier = .done ∧ finished.orch = .done) ∨
      (finished.copier = .done ∧ finished.pipe = .open ∧ finished.locked = true) :=
  reachable_deadlocked_cases (Reachable.init.run finishedRun rfl) finished_deadlocked

/-! ## With every write to the response succeeding, nothing hangs -/

/-- The copier has stopped reading. -/
def CopierPc.stopped : CopierPc → Bool
  | .send _ | .done => true
  | _ => false

/-- The copier stops only once the pipe is closed. -/
def Pipeline.CopierStopsAtClose (s : Pipeline) : Prop := s.copier.stopped = true → s.pipe ≠ .open

theorem Pipeline.CopierStopsAtClose.step {s s' : Pipeline} {e : Event}
    (h : s.CopierStopsAtClose) (he : e ≠ .copierWrite false) (hs : s.step e = some s') :
    s'.CopierStopsAtClose := by
  obtain ⟨a, c, o, l, p, cc, ac⟩ := s
  unfold Pipeline.CopierStopsAtClose at h ⊢
  dsimp only at h
  rcases e with ch | _ | _ | ok | b
  · cases a <;> cases ch <;> simp only [Pipeline.step] at hs <;> (try split at hs) <;>
      cases hs <;> simp_all
  · cases a <;> simp only [Pipeline.step] at hs <;> (try split at hs) <;> cases hs <;> simp_all
  · cases c <;> simp only [Pipeline.step, Pipeline.deliver] at hs
    · cases p <;> simp only at hs
      · cases a <;> simp only at hs <;> cases hs <;> simp [CopierPc.stopped]
      all_goals (cases hs; simp)
    all_goals cases hs <;> simp_all [CopierPc.stopped]
  · cases ok
    · exact absurd rfl he
    · cases c <;> simp only [Pipeline.step, reduceCtorEq] at hs
      cases hs; simp [CopierPc.stopped]
  · cases o with
    | select =>
      cases b <;> simp only [Pipeline.step, Bool.false_eq_true, ↓reduceIte] at hs
      · rcases ac with _ | _ <;> cases hs
        simp_all
      · rcases cc with _ | _ <;> cases hs
        simp_all
    | closeWithError ch =>
      simp only [Pipeline.step] at hs
      split at hs <;> cases hs
      simp
    | wait ch =>
      cases ch <;> simp only [Pipeline.step] at hs <;> split at hs <;> cases hs <;> simp_all
    | done => cases hs

/-- **No hang without a failed write.** Every run in which each write of the copier to the
response succeeds, and after which no task can move, has finished all three tasks. -/
theorem run_deadlocked_finished {es : List Event} {s : Pipeline}
    (hr : Pipeline.init.run es = some s) (hw : Event.copierWrite false ∉ es)
    (hd : s.Deadlocked) : s.adder = .done ∧ s.copier = .done ∧ s.orch = .done := by
  have hstops : ∀ {t t' : Pipeline} (es : List Event), t.CopierStopsAtClose →
      Event.copierWrite false ∉ es → t.run es = some t' → t'.CopierStopsAtClose := by
    intro t t' es ht hw hr
    induction es generalizing t with
    | nil => cases hr; exact ht
    | cons e es ih =>
      obtain ⟨t₁, h₁, h₂⟩ := Option.bind_eq_some.mp hr
      exact ih (ht.step (fun h => hw (h ▸ .head _)) h₁) (fun h => hw (.tail _ h)) h₂
  have hc := hstops es (by simp [Pipeline.CopierStopsAtClose, Pipeline.init, CopierPc.stopped])
    hw hr
  rcases (Reachable.init.run es hr).inv.deadlocked hd with h | ⟨h₁, h₂, -⟩
  · exact h
  · exact absurd h₂ (hc (by simp [h₁, CopierPc.stopped]))

/-- The finished handler's run has no failed write, and ends with every task done. -/
theorem finishedRun_finished :
    finished.adder = .done ∧ finished.copier = .done ∧ finished.orch = .done :=
  run_deadlocked_finished (show Pipeline.init.run finishedRun = some finished from rfl)
    (by decide) finished_deadlocked

end CloudArchive.Store.PackShard
