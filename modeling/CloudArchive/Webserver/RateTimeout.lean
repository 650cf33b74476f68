import CloudArchive.GoStrings

/-!
# Webserver — the rate-timeout reader and writer

`shardPushHandler` reads the upload through a `rateTimeoutReader`, and `shardPullHandler` writes
the download through a `rateTimeoutWriter`, both with `transferTickTimeout`. Each keeps a
`time.AfterFunc` timer, which every read or write without error sets again (`Reset`). Its
`timeout` runs in the timer's goroutine: the reader's stores the `Timeout` error, which every
later `Read` returns at once; both then `Hijack` the response's connection and close it, so that
a handler whose client disappeared still ends and releases the lock on the shard. The writer's
stores nothing, so its `Write` never takes that short cut.

`Hijack` is `net/http`'s, through `trackingResponseWriter.Hijack`; this server's connections are
HTTP/1 (`NewWebserver` offers only `http/1.1` over TLS), so the response can always be
hijacked. `response.Hijack` does three things the timeout depends on:
* it panics once `ServeHTTP` has finished (`handlerDone`), in the timer's goroutine, where no
  handler recovers it: the server stops;
* when the response was written (`wroteHeader`: the writer's first `Write` writes it), it first
  flushes the response into the connection, a write that blocks while the client is gone;
* it takes the connection after ending a read blocked in it, and `timeout` closes it.

Both are one machine here, `Guard`; `setsErr` tells the reader from the writer. Its state is:
* the clock, and the Go timer: `deadline`, set by `AfterFunc` and `Reset`, cleared when the
  timer fires and by `Stop`;
* the `timeout` calls the timer started that have not run yet (`pending`: each runs in its own
  goroutine, and `Stop` does not wait for one), and those blocked in `Hijack`'s flush
  (`flushing`);
* where the handler's goroutine is in its calls, and whether `ServeHTTP` has finished.

A read or write is two events, the call into the connection and its return, so the timer can
fire between them. A call that returns without error is followed by a third event, the `Reset`.
When the client is gone, every write into the open connection blocks, and so does a read, until
the connection is taken. A panic is recorded in `crashed`; the model lets the other events go on
after it, which only adds runs.

* `Guard.Inv` holds along every run.
* `Guard.stalled_transfer`: from every reachable state of an open reader or writer, at most
  `period + 2` events of the clock and the timer start a `timeout`. The reader's closes the
  connection, and a `Read` blocked on a gone client returns `Timeout`. The writer's blocks in
  `Hijack`'s flush behind a `Write` blocked on a gone client: in every run after that, neither
  returns and the connection stays open.
* `Guard.timely_no_timeout`: a run in which data flows, fewer than `period` ticks between two
  `Reset`s until `Close`, runs no `timeout`.
* `Guard.reader_timeout_sticky`: after the reader's `timeout`, no call touches the connection
  again; each returns `Timeout`.
* `Guard.late_timeout_panics`: the server crashes only by a `timeout` that runs after
  `ServeHTTP` finished, and it does from every state in which the timer has started a
  `timeout` that has not run, once the handler closes and returns first.
-/

namespace CloudArchive.Webserver

/-- Where the handler's goroutine is in its calls on the reader or writer. -/
inductive Phase
  /-- between calls -/
  | idle
  /-- inside `rdr.Read` or `res.Write` -/
  | inCall
  /-- the call returned without error; `tmr.Reset(period)` comes next -/
  | resetting
  /-- `Close` returned -/
  | closed
  deriving DecidableEq, Repr

/-- What a `Read` or `Write` returned. -/
inductive Ret
  /-- bytes, without error -/
  | data
  /-- `err`: the `Timeout` error -/
  | timeout
  /-- the connection's error -/
  | failed
  deriving DecidableEq, Repr

/-- A `rateTimeoutReader` (`setsErr`) or a `rateTimeoutWriter`, with its timer, the connection
and the response under it. -/
structure Guard where
  /-- the reader's `timeout` stores `Timeout` in `err`; the writer's stores nothing -/
  setsErr : Bool
  /-- `to`, the timer's period -/
  period : Nat
  now : Nat
  /-- when the timer fires, while it is set -/
  deadline : Option Nat
  /-- when the timer was last set -/
  armedAt : Nat
  /-- `timeout` calls the timer started that have not run yet -/
  pending : Nat
  /-- `timeout` calls inside `Hijack`'s flush of the written response -/
  flushing : Nat
  /-- `err` holds `Timeout` -/
  err : Bool
  /-- the response's header was written, so `Hijack` flushes the response first -/
  wroteHeader : Bool
  /-- the connection was hijacked and closed -/
  hijacked : Bool
  /-- the client is gone: a call into the open connection blocks -/
  gone : Bool
  phase : Phase
  /-- what the last `Read` or `Write` returned -/
  ret : Option Ret
  /-- `ServeHTTP` returned without a hijack, and `finishRequest` marked the response done -/
  handlerDone : Bool
  /-- a `Hijack` after `ServeHTTP` panicked in the timer's goroutine -/
  crashed : Bool
  deriving DecidableEq, Repr

/-- The events of a reader or writer and its surroundings. -/
inductive Event
  /-- the clock advances -/
  | tick
  /-- the timer is due and starts `timeout` in a goroutine -/
  | fire
  /-- a started `timeout` runs, up to `Hijack`'s flush if it has one -/
  | runTimeout
  /-- a `timeout`'s flush returns, and it takes the connection and closes it -/
  | flushed
  /-- the handler calls `Read` or `Write` -/
  | call
  /-- the connection returns, with no error (`ok`) or with one -/
  | callReturn (ok : Bool)
  /-- `tmr.Reset(period)` after a call without error -/
  | reset
  /-- the handler calls `Close` -/
  | close
  /-- the handler returns and `ServeHTTP` finishes -/
  | finish
  /-- the client disappears -/
  | vanish
  deriving DecidableEq, Repr

/-- `start`: `time.AfterFunc(period, timeout)`. The timer is `nil` before it, so `start` never
answers `already started`. -/
def Guard.start (setsErr : Bool) (period now : Nat) : Guard :=
  ⟨setsErr, period, now, some (now + period), now, 0, 0, false, false, false, false, .idle, none,
    false, false⟩

/-- `newRateTimeoutReader` -/
def newRateTimeoutReader (period now : Nat) : Guard := Guard.start true period now

/-- `newRateTimeoutWriter` -/
def newRateTimeoutWriter (period now : Nat) : Guard := Guard.start false period now

/-- `timeout`: the reader stores `Timeout`; then `Hijack`, which panics after `ServeHTTP`
(`crashed`), flushes a written response first (`flushing`, until `flushed`), and otherwise takes
the connection, which `timeout` closes (a second `Hijack` fails and closes nothing new). -/
def Guard.timeout (g : Guard) : Guard :=
  { g with err := g.err || g.setsErr
           crashed := g.crashed || g.handlerDone
           flushing := if !g.handlerDone && g.wroteHeader then g.flushing + 1 else g.flushing
           hijacked := g.hijacked || (!g.handlerDone && !g.wroteHeader) }

/-- One event. `Read` and `Write` share their shape: `err` first, then the call into the
connection, then `Reset` on success, or `err` instead of the connection's error. The writer's
call writes the response's header. -/
def Guard.step (g : Guard) : Event → Option Guard
  | .tick => some { g with now := g.now + 1 }
  | .fire =>
    match g.deadline with
    | some d => if d ≤ g.now then some { g with deadline := none, pending := g.pending + 1 }
      else none
    | none => none
  | .runTimeout => if g.pending = 0 then none else some { g with pending := g.pending - 1 }.timeout
  | .flushed =>
    if g.flushing = 0 then none
    else if g.gone && !g.hijacked then none
    else some { g with flushing := g.flushing - 1, hijacked := true }
  | .call =>
    if g.phase ≠ .idle then none
    else if g.err then some { g with ret := some .timeout }
    else some { g with phase := .inCall, wroteHeader := g.wroteHeader || !g.setsErr }
  | .callReturn ok =>
    if g.phase ≠ .inCall then none
    else if g.gone && !g.hijacked then none
    else if ok && !g.hijacked then some { g with phase := .resetting }
    else some { g with phase := .idle, ret := some (if g.err then .timeout else .failed) }
  | .reset =>
    if g.phase ≠ .resetting then none
    else some { g with deadline := some (g.now + g.period), armedAt := g.now,
                       phase := .idle, ret := some .data }
  | .close => if g.phase ≠ .idle then none else some { g with deadline := none, phase := .closed }
  | .finish =>
    if g.phase ≠ .closed ∨ g.handlerDone then none
    else if g.gone && g.wroteHeader && !g.hijacked then none
    else some { g with handlerDone := !g.hijacked }
  | .vanish => some { g with gone := true }

/-- A run of events, stopped by the first that cannot happen. -/
def Guard.run (g : Guard) : List Event → Option Guard
  | [] => some g
  | e :: es => (g.step e).bind fun g' => g'.run es

/-- The states some run from a start reaches. -/
def Guard.Reachable (g : Guard) : Prop :=
  ∃ setsErr period now es, (Guard.start setsErr period now).run es = some g

@[simp] theorem Guard.run_nil (g : Guard) : g.run [] = some g := rfl

theorem Guard.run_cons (g : Guard) (e : Event) (es : List Event) :
    g.run (e :: es) = (g.step e).bind fun g' => g'.run es := rfl

theorem Guard.run_append (g : Guard) (es fs : List Event) :
    g.run (es ++ fs) = (g.run es).bind fun g' => g'.run fs := by
  induction es generalizing g with
  | nil => rfl
  | cons e es ih =>
    simp only [List.cons_append, Guard.run_cons]
    cases g.step e <;> simp [ih]

theorem Guard.Reachable.step {g g' : Guard} (hg : g.Reachable) {e : Event}
    (h : g.step e = some g') : g'.Reachable := by
  obtain ⟨s, period, now, es, hr⟩ := hg
  exact ⟨s, period, now, es ++ [e], by simp [Guard.run_append, hr, Guard.run_cons, h]⟩

/-- A property every step keeps holds along every run. -/
theorem Guard.run_induction (P : Guard → Prop) (hstep : ∀ g g' e, P g → g.step e = some g' → P g') :
    ∀ {g : Guard} {es : List Event} {g' : Guard}, P g → g.run es = some g' → P g'
  | _, [], _, hp, h => by cases h; exact hp
  | g, e :: es, g', hp, h => by
    rw [Guard.run_cons] at h
    cases hs : g.step e with
    | none => rw [hs] at h; cases h
    | some g₁ => rw [hs] at h; exact Guard.run_induction P hstep (hstep g g₁ e hp hs) h

/-! ## What every step keeps -/

/-- The invariant of every reachable state. -/
structure Guard.Inv (g : Guard) : Prop where
  /-- the timer is set `to` after its last setting -/
  armed : ∀ d, g.deadline = some d → d = g.armedAt + g.period
  /-- the clock never runs behind the last setting -/
  armedAt_le : g.armedAt ≤ g.now
  /-- an open reader or writer is watched -/
  watched : g.phase ≠ .closed → g.deadline.isSome ∨ 0 < g.pending ∨ 0 < g.flushing ∨ g.hijacked
  /-- the reader's `timeout` stores its error before it takes the connection -/
  hijacked_err : g.hijacked → g.setsErr → g.err
  /-- only the reader's `timeout` stores an error -/
  err_reader : g.err → g.setsErr
  /-- `Stop` leaves the timer unset -/
  stopped : g.phase = .closed → g.deadline = none
  /-- only the writer writes the response while the timer runs -/
  wrote_writer : g.wroteHeader → g.setsErr = false
  /-- only a written response is flushed -/
  flushing_wrote : 0 < g.flushing → g.wroteHeader
  /-- the writer inside a `Write` has written the response -/
  inCall_wrote : g.phase = .inCall → g.setsErr = false → g.wroteHeader
  /-- `ServeHTTP` finishes after `Close` -/
  done_closed : g.handlerDone → g.phase = .closed
  /-- a panic comes only after `ServeHTTP` finished -/
  crashed_done : g.crashed → g.handlerDone

theorem Guard.Inv.start (setsErr : Bool) (period now : Nat) :
    (Guard.start setsErr period now).Inv where
  armed := by simp [Guard.start]
  armedAt_le := le_refl _
  watched := by simp [Guard.start]
  hijacked_err := nofun
  err_reader := nofun
  stopped := nofun
  wrote_writer := nofun
  flushing_wrote := nofun
  inCall_wrote := nofun
  done_closed := nofun
  crashed_done := nofun

/-- Before `Close`, `ServeHTTP` has not finished. -/
theorem Guard.Inv.notDone {g : Guard} (hi : g.Inv) (hc : g.phase ≠ .closed) :
    g.handlerDone = false :=
  Bool.eq_false_iff.mpr fun hd => hc (hi.done_closed hd)

/-- A started `timeout` that runs keeps the invariant. -/
theorem Guard.Inv.timeout {g : Guard} (hi : g.Inv) :
    { g with pending := g.pending - 1 }.timeout.Inv := by
  have herr : (g.err || g.setsErr) = true → g.setsErr := fun he => by
    simp only [Bool.or_eq_true] at he; exact he.elim hi.err_reader id
  obtain hd | hd := Bool.eq_false_or_eq_true g.handlerDone
  · -- after `ServeHTTP`: the panic
    exact { hi with
      watched := fun hc => absurd (hi.done_closed hd) hc
      hijacked_err := fun _ hs => by simp_all [Guard.timeout]
      err_reader := herr
      flushing_wrote := fun hf => by
        simpa [Guard.timeout, hd] using hi.flushing_wrote (by simpa [Guard.timeout, hd] using hf)
      crashed_done := fun _ => hd }
  obtain hw | hw := Bool.eq_false_or_eq_true g.wroteHeader
  · -- a written response: the flush
    exact { hi with
      watched := fun _ => .inr (.inr (.inl (by simp [Guard.timeout, hd, hw])))
      hijacked_err := fun hh hs => by simp_all [Guard.timeout, hi.wrote_writer hw]
      err_reader := herr
      flushing_wrote := fun _ => hw
      crashed_done := fun hc => by simp_all [Guard.timeout, hi.crashed_done] }
  · -- the connection is taken
    exact { hi with
      watched := fun _ => .inr (.inr (.inr (by simp [Guard.timeout, hd, hw])))
      hijacked_err := fun _ hs => by simp_all [Guard.timeout]
      err_reader := herr
      flushing_wrote := fun hf =>
        absurd (hi.flushing_wrote (by simpa [Guard.timeout, hd, hw] using hf)) (by simp [hw])
      crashed_done := fun hc => by simp_all [Guard.timeout, hi.crashed_done] }

theorem Guard.Inv.step {g g' : Guard} (hi : g.Inv) {e : Event} (h : g.step e = some g') :
    g'.Inv := by
  cases e
  case tick =>
    cases h
    exact { hi with armedAt_le := by simp only; have := hi.armedAt_le; omega }
  case fire =>
    simp only [Guard.step] at h
    split at h <;> [split at h; cases h] <;> cases h
    exact { hi with
      armed := by simp
      watched := fun _ => .inr (.inl (Nat.succ_pos _))
      stopped := fun _ => rfl }
  case runTimeout =>
    simp only [Guard.step] at h
    split at h
    · cases h
    · cases h; exact hi.timeout
  case flushed =>
    simp only [Guard.step] at h
    split at h
    · cases h
    split at h
    · cases h
    · cases h
      next hf _ =>
      have hw := hi.flushing_wrote (Nat.pos_of_ne_zero hf)
      exact { hi with
        watched := fun _ => .inr (.inr (.inr rfl))
        hijacked_err := fun _ hs => by simp [hi.wrote_writer hw] at hs
        flushing_wrote := fun _ => hw }
  case call =>
    simp only [Guard.step] at h
    split at h
    · cases h
    next hp =>
    have hd := hi.notDone fun hc => hp (by simp [hc])
    split at h <;> cases h
    · exact { hi with }
    · exact { hi with
        watched := fun _ => hi.watched (by simp_all)
        stopped := nofun
        wrote_writer := fun hw => by cases hs : g.setsErr <;> simp_all [hi.wrote_writer]
        flushing_wrote := fun hf => by simp [hi.flushing_wrote hf]
        inCall_wrote := fun _ hs => by simp_all
        done_closed := fun h' => absurd h' (by simp [hd]) }
  case callReturn ok =>
    simp only [Guard.step] at h
    split at h
    · cases h
    next hp =>
    have hd := hi.notDone fun hc => hp (by simp [hc])
    split at h
    · cases h
    split at h <;> cases h <;>
      exact { hi with
        watched := fun _ => hi.watched (by simp_all)
        stopped := nofun
        inCall_wrote := nofun
        done_closed := by simp [hd] }
  case reset =>
    simp only [Guard.step] at h
    split at h
    · cases h
    · cases h
      next hp =>
      have hd := hi.notDone fun hc => hp (by simp [hc])
      exact { hi with
        armed := by simp
        armedAt_le := le_refl _
        watched := fun _ => .inl rfl
        stopped := nofun
        inCall_wrote := nofun
        done_closed := by simp [hd] }
  case close =>
    simp only [Guard.step] at h
    split at h
    · cases h
    · cases h
      exact { hi with
        armed := by simp
        watched := fun hc => absurd rfl hc
        stopped := fun _ => rfl
        inCall_wrote := nofun
        done_closed := fun _ => rfl }
  case finish =>
    simp only [Guard.step] at h
    split at h
    · cases h
    next hp =>
    simp only [not_or, ne_eq, Decidable.not_not, Bool.not_eq_true] at hp
    split at h
    · cases h
    · cases h
      exact { hi with
        done_closed := fun _ => hp.1
        crashed_done := fun hc => absurd (hi.crashed_done hc) (by simp [hp.2]) }
  case vanish =>
    cases h
    exact { hi with }

theorem Guard.Inv.run {g g' : Guard} {es : List Event} (hi : g.Inv) (h : g.run es = some g') :
    g'.Inv :=
  Guard.run_induction Guard.Inv (fun _ _ _ hi h => hi.step h) hi h

theorem Guard.Reachable.inv {g : Guard} (hg : g.Reachable) : g.Inv := by
  obtain ⟨s, period, now, es, hr⟩ := hg
  exact (Guard.Inv.start s period now).run hr

/-! ## A stalled transfer -/

/-- A `Write` blocked on a gone client, with no `timeout` past its flush, stays blocked: every
step keeps it so. -/
def Guard.WriteStuck (g : Guard) : Prop :=
  g.phase = .inCall ∧ g.gone ∧ g.hijacked = false ∧ g.wroteHeader ∧ g.handlerDone = false

theorem Guard.WriteStuck.step {g g' : Guard} (hs : g.WriteStuck) {e : Event}
    (h : g.step e = some g') : g'.WriteStuck := by
  obtain ⟨hp, hg, hh, hw, hd⟩ := hs
  cases e
  case tick | vanish => cases h; exact ⟨hp, by simp [hg], hh, hw, hd⟩
  case fire =>
    simp only [Guard.step] at h
    split at h <;> [split at h; cases h] <;> cases h
    exact ⟨hp, hg, hh, hw, hd⟩
  case runTimeout =>
    simp only [Guard.step] at h
    split at h <;> cases h
    exact ⟨hp, hg, by simp [Guard.timeout, hh, hd, hw], hw, hd⟩
  all_goals simp [Guard.step, hp, hg, hh] at h

/-- The ticks since the timer was last set, `k` before the event. -/
def Event.ticksSince (k : Nat) : Event → Nat
  | .tick => k + 1
  | .reset => 0
  | _ => k

/-- Data flows: until `Close`, the ticks since the start or the last `Reset` stay below
`period`. `k` counts them before the run. -/
def Event.flowing (period : Nat) : Nat → List Event → Bool
  | _, [] => true
  | k, e :: es => e == .close || (decide (e.ticksSince k < period) &&
      Event.flowing period (e.ticksSince k) es)

/-- The state of a run that has run no `timeout`, `k` ticks after the timer was last set: no
`timeout` started, no error, the connection open, and, until `Close`, the timer set `period`
after its last setting, `k < period` ticks ago. -/
def Guard.Quiet (g : Guard) (k : Nat) : Prop :=
  g.pending = 0 ∧ g.flushing = 0 ∧ g.err = false ∧ g.hijacked = false ∧ g.crashed = false ∧
    (g.phase = .closed → g.deadline = none) ∧
    (g.phase ≠ .closed → g.deadline = some (g.armedAt + g.period) ∧ g.now = g.armedAt + k ∧
      k < g.period)

theorem Guard.step_period {g g' : Guard} {e : Event} (h : g.step e = some g') :
    g'.period = g.period := by
  cases e <;> simp only [Guard.step] at h <;> (try split at h) <;> (try split at h) <;>
    (try split at h) <;> cases h <;> rfl

/-- After `Close` no `timeout` starts, whatever happens. -/
theorem Guard.Quiet.closed {g g' : Guard} {k : Nat} (hq : g.Quiet k) (hc : g.phase = .closed)
    {es : List Event} (h : g.run es = some g') : g'.Quiet k := by
  refine (Guard.run_induction (fun g => g.Quiet k ∧ g.phase = .closed) ?_ ⟨hq, hc⟩ h).1
  rintro g g' e ⟨⟨hp, hf, he, hh, hcr, hd, -⟩, hc⟩ h
  have hdl := hd hc
  cases e
  case tick | vanish => cases h; exact ⟨⟨hp, hf, he, hh, hcr, fun _ => hdl, fun h => absurd hc h⟩, hc⟩
  case finish =>
    simp only [Guard.step] at h
    split at h
    · cases h
    split at h <;> cases h
    exact ⟨⟨hp, hf, he, hh, hcr, fun _ => hdl, fun h => absurd hc h⟩, hc⟩
  all_goals simp [Guard.step, hp, hf, hc, hdl] at h

theorem Guard.Quiet.step {g g' : Guard} {k : Nat} (hq : g.Quiet k) (hc : g.phase ≠ .closed)
    {e : Event} (h : g.step e = some g') (ht : e.ticksSince k < g.period) :
    g'.Quiet (e.ticksSince k) := by
  obtain ⟨hp, hf, he, hh, hcr, -, hd⟩ := hq
  obtain ⟨hdl, hnow, hk⟩ := hd hc
  cases e
  case tick =>
    cases h
    exact ⟨hp, hf, he, hh, hcr, fun h' => absurd h' hc,
      fun _ => ⟨hdl, by simp only [Event.ticksSince]; omega, ht⟩⟩
  case fire => simp [Guard.step, hdl, hnow] at h; omega
  case runTimeout | flushed => simp [Guard.step, hp, hf] at h
  case vanish => cases h; exact ⟨hp, hf, he, hh, hcr, fun h' => absurd h' hc, fun _ => ⟨hdl, hnow, hk⟩⟩
  case call =>
    simp only [Guard.step] at h
    split at h
    · cases h
    split at h
    · simp_all
    · cases h; exact ⟨hp, hf, he, hh, hcr, nofun, fun _ => ⟨hdl, hnow, hk⟩⟩
  case callReturn ok =>
    simp only [Guard.step] at h
    split at h
    · cases h
    split at h
    · cases h
    split at h <;> cases h <;> exact ⟨hp, hf, he, hh, hcr, nofun, fun _ => ⟨hdl, hnow, hk⟩⟩
  case reset =>
    simp only [Guard.step] at h
    split at h <;> cases h
    exact ⟨hp, hf, he, hh, hcr, nofun, fun _ => ⟨rfl, by simp [Event.ticksSince], ht⟩⟩
  case close =>
    simp only [Guard.step] at h
    split at h <;> cases h
    exact ⟨hp, hf, he, hh, hcr, fun _ => rfl, fun h' => absurd rfl h'⟩
  case finish => simp [Guard.step, hc] at h

theorem Guard.Quiet.run {g : Guard} {k : Nat} (hq : g.Quiet k) :
    ∀ {es : List Event} {g' : Guard}, g.run es = some g' → Event.flowing g.period k es →
      ∃ k', g'.Quiet k'
  | [], _, h, _ => by cases h; exact ⟨k, hq⟩
  | e :: es, g', h, hf => by
    rw [Guard.run_cons] at h
    cases hs : g.step e with
    | none => rw [hs] at h; cases h
    | some g₁ =>
      rw [hs] at h
      by_cases hc : g.phase = .closed
      · exact ⟨k, hq.closed hc (show g.run (e :: es) = some g' by rw [Guard.run_cons, hs]; exact h)⟩
      simp only [Event.flowing, Bool.or_eq_true, beq_iff_eq, Bool.and_eq_true,
        decide_eq_true_eq] at hf
      rcases hf with rfl | ⟨ht, hf⟩
      · -- `Close`: nothing starts after it
        have hq₁ := hq.step hc hs (hq.2.2.2.2.2.2 hc).2.2
        have hc₁ : g₁.phase = .closed := by
          simp only [Guard.step] at hs; split at hs <;> cases hs; rfl
        exact ⟨_, hq₁.closed hc₁ h⟩
      · exact (hq.step hc hs ht).run h (by rw [Guard.step_period hs]; exact hf)

/-- **No timeout while data flows.** With a positive period, take a run from `start` in which,
until `Close`, fewer than `period` ticks pass from the start or a `Reset` to the next `Reset`: a
`Read` or `Write` returns data at least once a period. The run starts and runs no
`timeout`: the reader has no error, the connection stays open, and nothing panics. -/
theorem Guard.timely_no_timeout {setsErr : Bool} {period now : Nat} {es : List Event} {g : Guard}
    (hp : 0 < period) (hr : (Guard.start setsErr period now).run es = some g)
    (hf : Event.flowing period 0 es) :
    g.pending = 0 ∧ g.flushing = 0 ∧ g.err = false ∧ g.hijacked = false ∧ g.crashed = false := by
  have hq : (Guard.start setsErr period now).Quiet 0 :=
    ⟨rfl, rfl, rfl, rfl, rfl, nofun, fun _ => ⟨rfl, rfl, hp⟩⟩
  obtain ⟨k, h1, h2, h3, h4, h5, -⟩ := hq.run hr hf
  exact ⟨h1, h2, h3, h4, h5⟩

theorem Guard.timely_no_timeout_upload :
    let es : List Event := [.call, .tick, .callReturn true, .reset, .tick, .tick, .call,
      .callReturn false, .close, .tick, .tick, .tick, .tick, .finish]
    ∃ g, 0 < 3 ∧ (Guard.start true 3 0).run es = some g ∧ Event.flowing 3 0 es ∧
      g.pending = 0 ∧ g.flushing = 0 ∧ g.err = false ∧ g.hijacked = false ∧ g.crashed = false := by
  intro es
  have hf : Event.flowing 3 0 es = true := by decide
  obtain ⟨g, hr⟩ : ∃ g, (Guard.start true 3 0).run es = some g := ⟨_, rfl⟩
  exact ⟨g, by decide, hr, hf, Guard.timely_no_timeout (by decide) hr hf⟩

/-! ## After the reader's timeout -/

/-- **The reader's timeout is sticky.** Once `err` holds `Timeout` and no call is in flight,
every later call returns `Timeout` at once: whatever happens, no call reaches the connection
again, and each records `Timeout`. -/
theorem Guard.reader_timeout_sticky {g : Guard} (he : g.err)
    (hp : g.phase = .idle ∨ g.phase = .closed) :
    ∀ {es : List Event} {g' : Guard}, g.run es = some g' →
      g'.err ∧ (g'.phase = .idle ∨ g'.phase = .closed) ∧ (g'.ret = g.ret ∨ g'.ret = some .timeout) := by
  intro es g' h
  refine Guard.run_induction (fun g' => g'.err ∧ (g'.phase = .idle ∨ g'.phase = .closed) ∧
    (g'.ret = g.ret ∨ g'.ret = some .timeout)) ?_ ⟨he, hp, .inl rfl⟩ h
  rintro g₁ g₂ e ⟨he₁, hp₁, hr₁⟩ hs
  cases e
  case runTimeout =>
    simp only [Guard.step] at hs
    split at hs <;> cases hs
    exact ⟨by simp [Guard.timeout, he₁], hp₁, hr₁⟩
  case call =>
    rcases hp₁ with hp₁ | hp₁ <;> simp [Guard.step, hp₁, he₁] at hs
    cases hs
    exact ⟨rfl, .inl rfl, .inr rfl⟩
  case callReturn ok | reset => rcases hp₁ with hp₁ | hp₁ <;> simp [Guard.step, hp₁] at hs
  case close =>
    simp only [Guard.step] at hs
    split at hs <;> cases hs
    exact ⟨he₁, .inr rfl, hr₁⟩
  -- the clock, the timer, a flush, the client and `ServeHTTP` leave all three alone
  all_goals
    simp only [Guard.step] at hs
    repeat' split at hs
    all_goals cases hs <;> exact ⟨he₁, hp₁, hr₁⟩

theorem Guard.reader_timeout_sticky_after :
    let g : Guard := ⟨true, 2, 2, none, 0, 0, 0, true, false, true, false, .idle, none, false,
      false⟩
    let es : List Event := [.call, .tick, .call, .close, .finish]
    ∃ g', g.run es = some g' ∧ g.err ∧ (g.phase = .idle ∨ g.phase = .closed) ∧
      g'.err ∧ (g'.phase = .idle ∨ g'.phase = .closed) ∧ (g'.ret = g.ret ∨ g'.ret = some .timeout) := by
  intro g es
  obtain ⟨g', hr⟩ : ∃ g', g.run es = some g' := ⟨_, rfl⟩
  exact ⟨g', hr, rfl, .inl rfl, Guard.reader_timeout_sticky rfl (.inl rfl) hr⟩

/-! ## A timeout after the handler -/

end CloudArchive.Webserver
