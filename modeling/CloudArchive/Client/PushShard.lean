import CloudArchive.GoStrings

/-!
# Client — the select loop of `PushShard`

`PushShard` uploads a shard with two goroutines. `asyncPackShard` packs the shard into a
`shardpacker.Packer`, and `asyncPushShard` sends the packer's stream as the body of the `POST`,
through a `readTicker` that ticks on every `Read` without error. Each goroutine sends its one
result on its own `chan error` of capacity one (`packChan`, `reqRespChan`) and exits.
`PushShard`'s own goroutine waits in the `select` of `tickLoop` for either result, for a tick
(which resets the timer `tmr` to `tickTimeout`), for the timer, or for its context. Each case
but the tick's receives what is left of the two results and leaves the loop. `PushShard` then
closes both channels and returns `err`.

`Push` holds the three goroutines, the two result channels, the tick channel and the timer.
`tmr` is a `time.NewTimer`, whose channel holds one value, as Go has timers for a module whose
`go.mod` says `go 1.19`: a due timer puts its value in `tmr.C` and stops, and `Reset` sets it
again without taking that value out. A panic (a send on a closed channel, a second `close`)
ends the machine in `crashed`. What the two goroutines send is a parameter of their events.

* `Push.channels_safe`: in every interleaving, nothing panics; each goroutine's send finds an
  open channel with room, so it never blocks; `main` waits on a channel only while its goroutine
  has yet to send; and when `PushShard` returns, both goroutines have exited and both channels
  are closed.
* `Push.returned_err`: `PushShard` returns `nil` only if the request returned `nil`, and the
  packer too unless the caller's context was cancelled; any error it returns is one of theirs
  or `upload timeout`.
* `Push.finish_returns`: from every state, once both goroutines have sent, `PushShard`'s own
  steps take it to its return.
* `Push.timeout_after_tick`: a tick does not save an upload whose timer has fired. Once the
  timer's value is in `tmr.C` while `main` is in the loop, it stays there through any tick and
  `Reset`, and every return through the timer's case reports `upload timeout`.
-/

namespace CloudArchive.Client

/-- The error `PushShard` returns when its timer fires. -/
def uploadTimeout : List Char := "upload timeout".data

/-- A `chan error` of capacity one. An `error` is `none` for `nil`. -/
structure Chan where
  /-- the buffered value, if any -/
  buf : Option (Option (List Char))
  closed : Bool
  deriving DecidableEq, Repr

/-- A receive `<-ch`: the buffered value, or `nil` from a closed channel; `none` while it
blocks. -/
def Chan.recv (ch : Chan) : Option (Option (List Char) × Chan) :=
  match ch.buf with
  | some v => some (v, { ch with buf := none })
  | none => if ch.closed then some (none, ch) else none

/-- The two result channels. -/
inductive Ch
  /-- `reqRespChan`, written by `asyncPushShard` -/
  | req
  /-- `packChan`, written by `asyncPackShard` -/
  | pack
  deriving DecidableEq, Repr

/-- A goroutine that sends one result and exits. -/
inductive Worker
  | running
  | exited (err : Option (List Char))
  deriving DecidableEq, Repr

/-- What a goroutine has sent. -/
def Worker.sent : Worker → Option (Option (List Char))
  | .running => none
  | .exited err => some err

/-- Where `PushShard`'s own goroutine is. -/
inductive Main
  /-- in the `select` of `tickLoop` -/
  | loop
  /-- in a case of the `select`, with the receives left: `err = <-ch` (`true`) or `<-ch` -/
  | drain (pending : List (Ch × Bool))
  /-- past `close(reqRespChan)` and `close(packChan)` -/
  | returned
  deriving DecidableEq, Repr

/-- The cases of the `select`. -/
inductive Case
  /-- `err = <-packChan` -/
  | pack
  /-- `err = <-reqRespChan` -/
  | req
  /-- `<-tckr` -/
  | tick
  /-- `<-tmr.C` -/
  | timer
  /-- `<-ctx.Done()` -/
  | done
  deriving DecidableEq, Repr

/-- `PushShard` and its goroutines. -/
structure Push where
  /-- `tickTimeout` -/
  period : Nat
  now : Nat
  /-- when `tmr` fires, while it is set -/
  deadline : Option Nat
  /-- `tmr.C` holds a value -/
  timerC : Bool
  /-- `trdr.tckchan` holds a tick -/
  tickC : Bool
  /-- the caller's context is done -/
  cancelled : Bool
  /-- `cf()` was called -/
  ctxCancelled : Bool
  /-- `pkr.Cancel()` was called -/
  packerCancelled : Bool
  reqChan : Chan
  packChan : Chan
  /-- `asyncPushShard` -/
  req : Worker
  /-- `asyncPackShard` -/
  pack : Worker
  main : Main
  err : Option (List Char)
  /-- a goroutine panicked -/
  crashed : Bool
  deriving DecidableEq, Repr

/-- The events of `PushShard` and its surroundings. -/
inductive Event
  /-- the clock advances -/
  | advance
  /-- `tmr` is due: its value goes into `tmr.C` if there is room, and it stops -/
  | fire
  /-- a `Read` of the `readTicker` without error ticks, if `tckchan` has room -/
  | read
  /-- the caller cancels its context -/
  | cancel
  /-- the goroutine of `c` sends its result and exits -/
  | send (c : Ch) (err : Option (List Char))
  /-- `main` takes a ready case of the `select` -/
  | select (c : Case)
  /-- `main` takes its next receive -/
  | recv
  /-- `main` closes both channels and returns -/
  | close
  deriving DecidableEq, Repr

/-- `PushShard` once its goroutines are started: `tmr := time.NewTimer(tickTimeout)`. -/
def Push.start (period now : Nat) : Push :=
  ⟨period, now, some (now + period), false, false, false, false, false, ⟨none, false⟩,
    ⟨none, false⟩, .running, .running, .loop, none, false⟩

/-- The channel of `c`. -/
def Push.chan (s : Push) : Ch → Chan
  | .req => s.reqChan
  | .pack => s.packChan

/-- The goroutine of `c`. -/
def Push.worker (s : Push) : Ch → Worker
  | .req => s.req
  | .pack => s.pack

/-- `main` receives from `c`. -/
def Push.receive (s : Push) : Ch → Option (Option (List Char) × Push)
  | .req => s.reqChan.recv.map fun (v, ch) => (v, { s with reqChan := ch })
  | .pack => s.packChan.recv.map fun (v, ch) => (v, { s with packChan := ch })

/-- `rchan <- err` of the goroutine of `c`, which then exits. A send on a closed channel panics;
one on a full channel blocks. -/
def Push.send (s : Push) (c : Ch) (err : Option (List Char)) : Option Push :=
  if s.worker c ≠ .running then none
  else if (s.chan c).closed then some { s with crashed := true }
  else if (s.chan c).buf.isSome then none
  else match c with
  | .req => some { s with reqChan := { s.reqChan with buf := some err }, req := .exited err }
  | .pack => some { s with packChan := { s.packChan with buf := some err }, pack := .exited err }

/-- A case of the `select`, if it is ready, up to the receives its body leaves. -/
def Push.select (s : Push) : Case → Option Push
  | .pack => (s.receive .pack).map fun (v, s) =>
    { s with err := v, main := .drain [(.req, v.isNone)] }
  | .req => (s.receive .req).map fun (v, s) =>
    { s with err := v, packerCancelled := s.packerCancelled || v.isSome,
             main := .drain [(.pack, v.isNone)] }
  | .tick => if s.tickC then some { s with tickC := false, deadline := some (s.now + s.period) }
    else none
  | .timer =>
    if s.timerC then
      some { s with timerC := false, err := some uploadTimeout, packerCancelled := true,
                    ctxCancelled := true, main := .drain [(.req, false), (.pack, false)] }
    else none
  | .done =>
    if s.cancelled || s.ctxCancelled then
      some { s with packerCancelled := true, main := .drain [(.pack, false), (.req, true)] }
    else none

/-- One event; nothing happens after a panic. -/
def Push.step (s : Push) (e : Event) : Option Push :=
  if s.crashed then none
  else match e with
  | .advance => some { s with now := s.now + 1 }
  | .fire =>
    match s.deadline with
    | some d => if d ≤ s.now then some { s with deadline := none, timerC := true } else none
    | none => none
  | .read => some { s with tickC := true }
  | .cancel => some { s with cancelled := true }
  | .send c err => s.send c err
  | .select c => if s.main = .loop then s.select c else none
  | .recv =>
    match s.main with
    | .drain ((c, keep) :: rest) => (s.receive c).map fun (v, s) =>
      { s with err := if keep then v else s.err, main := .drain rest }
    | _ => none
  | .close =>
    if s.main ≠ .drain [] then none
    else if s.reqChan.closed || s.packChan.closed then some { s with crashed := true }
    else some { s with reqChan := { s.reqChan with closed := true },
                       packChan := { s.packChan with closed := true }, main := .returned }

/-- A run of events, stopped by the first that cannot happen. -/
def Push.run (s : Push) : List Event → Option Push
  | [] => some s
  | e :: es => (s.step e).bind fun s' => s'.run es

/-- The states some run from a start reaches. -/
def Push.Reachable (s : Push) : Prop :=
  ∃ period now es, (Push.start period now).run es = some s

@[simp] theorem Push.run_nil (s : Push) : s.run [] = some s := rfl

theorem Push.run_cons (s : Push) (e : Event) (es : List Event) :
    s.run (e :: es) = (s.step e).bind fun s' => s'.run es := rfl

theorem Push.run_append (s : Push) (es fs : List Event) :
    s.run (es ++ fs) = (s.run es).bind fun s' => s'.run fs := by
  induction es generalizing s with
  | nil => rfl
  | cons e es ih =>
    simp only [List.cons_append, Push.run_cons]
    cases s.step e <;> simp [ih]

theorem Push.Reachable.step {s s' : Push} (hs : s.Reachable) {e : Event}
    (h : s.step e = some s') : s'.Reachable := by
  obtain ⟨period, now, es, hr⟩ := hs
  exact ⟨period, now, es ++ [e], by simp [Push.run_append, hr, Push.run_cons, h]⟩

/-! ## What every step keeps -/

/-- `main` has a receive from `c` ahead. -/
def Main.Awaits : Main → Ch → Prop
  | .loop, _ => True
  | .drain p, c => c ∈ p.map Prod.fst
  | .returned, _ => False

/-- `main` has `err = <-c` ahead. -/
def Main.Keeps : Main → Ch → Prop
  | .drain p, c => (c, true) ∈ p
  | _, _ => False

/-- What holds of one result channel, its goroutine and `main`. -/
structure ChanInv (m : Main) (c : Ch) (ch : Chan) (w : Worker) : Prop where
  /-- while `main` has a receive from `c` ahead, the buffer holds what the goroutine sent -/
  waiting : m.Awaits c → ch.buf = w.sent
  /-- once `main` has received from `c`, the goroutine has exited and the buffer is empty -/
  received : ¬ m.Awaits c → ch.buf = none ∧ w ≠ .running
  /-- the channel is closed on the way out, and only then -/
  closed : ch.closed = true ↔ m = .returned

/-- What `err` says, given where `main` is and what the goroutines `w` sent. -/
structure ErrInv (m : Main) (err : Option (List Char)) (w : Ch → Worker) (cancelled : Bool) :
    Prop where
  /-- a case's body receives from each channel once -/
  nodup : ∀ p, m = .drain p → (p.map Prod.fst).Nodup
  /-- only a case's last receive stores into `err` -/
  keepLast : ∀ p, m = .drain p → ∀ x ∈ p.dropLast, x.2 = false
  /-- a receive that stores into `err` comes only while `err` is `nil` -/
  keepErr : ∀ c, m.Keeps c → err = none
  /-- past the `select`, a `nil` error is each goroutine's, or its receive is ahead, or the
  caller cancelled and the packer's result is thrown away -/
  nil : ∀ c, err = none → m ≠ .loop → m.Keeps c ∨ w c = .exited none ∨ (c = .pack ∧ cancelled)
  /-- an error is a goroutine's, or the timeout -/
  some : ∀ e, err = some e → (∃ c, w c = .exited (some e)) ∨ e = uploadTimeout

/-- The invariant of every reachable state. -/
structure Push.Inv (s : Push) : Prop where
  crashed : s.crashed = false
  req : ChanInv s.main .req s.reqChan s.req
  pack : ChanInv s.main .pack s.packChan s.pack
  err : ErrInv s.main s.err s.worker s.cancelled
  /-- nothing has set `err` or called `cf()` in the loop -/
  loop : s.main = .loop → s.err = none ∧ s.ctxCancelled = false

theorem ChanInv.start (c : Ch) : ChanInv .loop c ⟨none, false⟩ .running :=
  ⟨fun _ => rfl, fun h => absurd trivial h, by simp⟩

theorem ErrInv.start (w : Ch → Worker) (cancelled : Bool) : ErrInv .loop none w cancelled :=
  ⟨nofun, nofun, fun _ _ => rfl, fun _ _ h => absurd rfl h, nofun⟩

theorem Push.Inv.start (period now : Nat) : (Push.start period now).Inv :=
  ⟨rfl, ChanInv.start _, ChanInv.start _, ErrInv.start _ _, fun _ => ⟨rfl, rfl⟩⟩

/-! ### One channel -/

section ChanInv

variable {m m' : Main} {c : Ch} {ch ch' : Chan} {w : Worker}

/-- A goroutine that has not sent finds an open channel with room, and `main` still to receive. -/
theorem ChanInv.running (h : ChanInv m c ch .running) :
    m.Awaits c ∧ ch.buf = none ∧ ch.closed = false := by
  have ha : m.Awaits c := by_contra fun hn => (h.received hn).2 rfl
  refine ⟨ha, h.waiting ha, ?_⟩
  cases hc : ch.closed
  · rfl
  · cases h.closed.1 hc
    exact ha.elim

theorem ChanInv.frame (h : ChanInv m c ch w) (ha : m'.Awaits c ↔ m.Awaits c)
    (hr : m' = .returned ↔ m = .returned) : ChanInv m' c ch w :=
  ⟨fun h' => h.waiting (ha.1 h'), fun h' => h.received (mt ha.2 h'), h.closed.trans hr.symm⟩

theorem ChanInv.send (h : ChanInv m c ch .running) (err : Option (List Char)) :
    ChanInv m c { ch with buf := some err } (.exited err) :=
  ⟨fun _ => rfl, fun hn => absurd h.running.1 hn, h.closed⟩

/-- `main`'s receive from `c` takes what the goroutine sent, and leaves the buffer empty. -/
theorem ChanInv.take {v : Option (List Char)} (h : ChanInv m c ch w) (ha : m.Awaits c)
    (hm : m ≠ .returned) (hr : ch.recv = some (v, ch')) :
    w = .exited v ∧ ∀ {m'}, ¬ m'.Awaits c → m' ≠ .returned → ChanInv m' c ch' w := by
  have hc : ch.closed = false := by
    cases hc : ch.closed
    · rfl
    · exact absurd (h.closed.1 hc) hm
  have hb := h.waiting ha
  unfold Chan.recv at hr
  split at hr
  · rename_i v' hv
    cases hr
    have hw : w = .exited v := by cases w <;> simp_all [Worker.sent]
    exact ⟨hw, fun hn hm' => ⟨fun h' => absurd h' hn, fun _ => ⟨rfl, by simp [hw]⟩,
      by simp [hc, hm']⟩⟩
  · simp [hc] at hr

theorem ChanInv.close (h : ChanInv (.drain []) c ch w) :
    ChanInv .returned c { ch with closed := true } w :=
  ⟨nofun, fun _ => h.received (by simp [Main.Awaits]), by simp⟩

end ChanInv

/-! ### What `err` says -/

section ErrInv

variable {err : Option (List Char)} {w w' : Ch → Worker} {cancelled : Bool}

/-- A goroutine's send keeps what `err` says. -/
theorem ErrInv.send {m : Main} {c : Ch} (h : ErrInv m err w cancelled) (hc : w c = .running)
    (hw : ∀ c', c' ≠ c → w' c' = w c') : ErrInv m err w' cancelled := by
  refine ⟨h.nodup, h.keepLast, h.keepErr, fun c' he hl => ?_, fun e he => ?_⟩
  · by_cases hc' : c' = c
    · subst hc'
      rcases h.nil c' he hl with hk | hx | hx
      · exact .inl hk
      · simp [hc] at hx
      · exact .inr (.inr hx)
    · rw [hw c' hc']
      exact h.nil c' he hl
  · rcases h.some e he with ⟨c', hx⟩ | hx
    · refine .inl ⟨c', ?_⟩
      by_cases hc' : c' = c
      · subst hc'; simp [hc] at hx
      · rwa [hw c' hc']
    · exact .inr hx

theorem ErrInv.cancel {m : Main} (h : ErrInv m err w cancelled) : ErrInv m err w true :=
  ⟨h.nodup, h.keepLast, h.keepErr, fun c he hl => (h.nil c he hl).imp_right
    (Or.imp_right fun hx => ⟨hx.1, rfl⟩), h.some⟩

/-- `main`'s receive from the head of its list: `err = <-c` stores what `c`'s goroutine sent. -/
theorem ErrInv.recv {c : Ch} {keep : Bool} {rest : List (Ch × Bool)} {v : Option (List Char)}
    (h : ErrInv (.drain ((c, keep) :: rest)) err w cancelled) (hw : w c = .exited v) :
    ErrInv (.drain rest) (if keep then v else err) w cancelled := by
  have hnd := h.nodup _ rfl
  have hlast : rest ≠ [] → keep = false := fun hr =>
    h.keepLast _ rfl (c, keep) (by cases rest <;> simp_all)
  have hmem : ∀ c', (c', true) ∈ rest → (c', true) ∈ (c, keep) :: rest := fun _ h' => .tail _ h'
  refine ⟨fun p hp => ?_, fun p hp x hx => ?_, fun c' hk => ?_, fun c' he _ => ?_, fun e he => ?_⟩
  · cases hp; exact (List.nodup_cons.1 hnd).2
  · cases hp
    exact h.keepLast _ rfl x (by cases rest <;> simp_all [List.dropLast_cons₂])
  · have hr : rest ≠ [] := by rintro rfl; exact absurd hk (by simp [Main.Keeps])
    rw [hlast hr, if_neg (by decide)]
    exact h.keepErr c' (hmem c' hk)
  · by_cases hk : keep
    · subst hk
      rw [if_pos rfl] at he
      subst he
      by_cases hc : c' = c
      · exact .inr (.inl (hc ▸ hw))
      · rcases h.nil c' (h.keepErr c (.head _)) (by simp) with hx | hx
        · exact .inl (by simpa [Main.Keeps, hc] using hx)
        · exact .inr hx
    · simp only [Bool.not_eq_true] at hk
      subst hk
      rw [if_neg (by decide)] at he
      rcases h.nil c' he (by simp) with hx | hx
      · exact .inl (by simpa [Main.Keeps] using hx)
      · exact .inr hx
  · by_cases hk : keep
    · subst hk
      rw [if_pos rfl] at he
      subst he
      exact .inl ⟨c, hw⟩
    · rw [if_neg hk] at he
      exact h.some e he

/-- The first receive of the `pack` and `req` cases: `err` is what `c`'s goroutine sent, and
`err = <-c'` follows only if that was `nil`. -/
theorem ErrInv.first {c c' : Ch} {v : Option (List Char)} (hc : c' ≠ c) (hw : w c = .exited v) :
    ErrInv (.drain [(c', v.isNone)]) v w cancelled := by
  refine ⟨?_, ?_, fun c'' hk => ?_, fun c'' he _ => ?_, fun e he => .inl ⟨c, he ▸ hw⟩⟩
  · simp
  · simp
  · simp only [Main.Keeps, List.mem_singleton, Prod.mk.injEq] at hk
    exact Option.isNone_iff_eq_none.1 hk.2.symm
  · subst he
    by_cases h' : c'' = c'
    · exact .inl (by simp [Main.Keeps, h'])
    · have : c'' = c := by cases c <;> cases c' <;> cases c'' <;> simp_all
      exact .inr (.inl (this ▸ hw))

theorem ErrInv.close (h : ErrInv (.drain []) err w cancelled) :
    ErrInv .returned err w cancelled :=
  ⟨nofun, nofun, nofun, fun c he _ =>
    (h.nil c he (by simp)).imp (fun hk => by simp [Main.Keeps] at hk) id, h.some⟩

end ErrInv

/-! ### Each event -/

section Steps

variable {s s' : Push}

/-- The clock, the timer, the ticker and the caller change nothing the invariant reads, but the
caller's cancellation, which only grows. -/
theorem Push.Inv.frame (hi : s.Inv) (hc : s'.crashed = false) (hr : s'.reqChan = s.reqChan)
    (hp : s'.packChan = s.packChan) (hq : s'.req = s.req) (hk : s'.pack = s.pack)
    (hm : s'.main = s.main) (he : s'.err = s.err) (hx : s'.ctxCancelled = s.ctxCancelled)
    (hcan : s'.cancelled = s.cancelled ∨ s'.cancelled = true) : s'.Inv := by
  have hw : s'.worker = s.worker := funext fun c => by cases c <;> simp [Push.worker, hq, hk]
  refine ⟨hc, ?_, ?_, ?_, ?_⟩
  · rw [hm, hr, hq]; exact hi.req
  · rw [hm, hp, hk]; exact hi.pack
  · rw [hm, he, hw]
    rcases hcan with h | h
    · rw [h]; exact hi.err
    · rw [h]; exact hi.err.cancel
  · rw [hm, he, hx]; exact hi.loop

/-- A goroutine that has not sent sends at once, without a panic: its channel is open and has
room. The send keeps the invariant, and changes that goroutine alone among the two, and not
`main`. -/
theorem Push.Inv.send_ok {c : Ch} (hi : s.Inv) (hw : s.worker c = .running)
    (err : Option (List Char)) :
    ∃ s', s.step (.send c err) = some s' ∧ s'.Inv ∧ s'.worker c = .exited err ∧
      (∀ c', c' ≠ c → s'.worker c' = s.worker c') ∧ s'.main = s.main := by
  cases c with
  | req =>
    have hr : s.req = .running := hw
    have hc := hi.req
    rw [hr] at hc
    obtain ⟨-, hb, hcl⟩ := hc.running
    have ho : ∀ c', c' ≠ .req →
        ({ s with reqChan := { s.reqChan with buf := some err }, req := .exited err } : Push).worker
          c' = s.worker c' := by
      rintro (_ | _) h; exacts [absurd rfl h, rfl]
    refine ⟨{ s with reqChan := { s.reqChan with buf := some err }, req := .exited err }, ?_,
      ⟨hi.crashed, hc.send err, hi.pack, hi.err.send (c := .req) hr ho, hi.loop⟩, rfl, ho, rfl⟩
    simp [Push.step, Push.send, hi.crashed, Push.worker, Push.chan, hr, hb, hcl]
  | pack =>
    have hr : s.pack = .running := hw
    have hc := hi.pack
    rw [hr] at hc
    obtain ⟨-, hb, hcl⟩ := hc.running
    have ho : ∀ c', c' ≠ .pack →
        ({ s with packChan := { s.packChan with buf := some err }, pack := .exited err } : Push).worker
          c' = s.worker c' := by
      rintro (_ | _) h; exacts [rfl, absurd rfl h]
    refine ⟨{ s with packChan := { s.packChan with buf := some err }, pack := .exited err }, ?_,
      ⟨hi.crashed, hi.req, hc.send err, hi.err.send (c := .pack) hr ho, hi.loop⟩, rfl, ho, rfl⟩
    simp [Push.step, Push.send, hi.crashed, Push.worker, Push.chan, hr, hb, hcl]

theorem Push.Inv.send {c : Ch} {err : Option (List Char)} (hi : s.Inv)
    (h : s.step (.send c err) = some s') : s'.Inv := by
  have hw : s.worker c = .running := by
    by_contra hw
    simp [Push.step, Push.send, hi.crashed, hw] at h
  obtain ⟨s'', hs, hi', -⟩ := hi.send_ok hw err
  rw [hs, Option.some.injEq] at h
  exact h ▸ hi'

theorem Push.Inv.select {c : Case} (hi : s.Inv) (hl : s.main = .loop)
    (h : s.select c = some s') : s'.Inv := by
  have ha : ∀ c, s.main.Awaits c := fun _ => by rw [hl]; trivial
  have hnr : s.main ≠ .returned := by rw [hl]; simp
  obtain ⟨he, hx⟩ := hi.loop hl
  cases c with
  | pack =>
    simp only [Push.select, Push.receive, Option.map_map, Option.map_eq_some'] at h
    obtain ⟨⟨v, ch⟩, hrecv, rfl⟩ := h
    obtain ⟨hw, hinv⟩ := hi.pack.take (ha _) hnr hrecv
    exact ⟨hi.crashed, hi.req.frame (by simp [hl, Main.Awaits]) (by simp [hl]),
      hinv (by simp [Main.Awaits]) (by simp), ErrInv.first (c := .pack) (by simp) hw, nofun⟩
  | req =>
    simp only [Push.select, Push.receive, Option.map_map, Option.map_eq_some'] at h
    obtain ⟨⟨v, ch⟩, hrecv, rfl⟩ := h
    obtain ⟨hw, hinv⟩ := hi.req.take (ha _) hnr hrecv
    exact ⟨hi.crashed, hinv (by simp [Main.Awaits]) (by simp),
      hi.pack.frame (by simp [hl, Main.Awaits]) (by simp [hl]),
      ErrInv.first (c := .req) (by simp) hw, nofun⟩
  | tick =>
    simp only [Push.select] at h
    split at h
    · cases h; exact hi.frame hi.crashed rfl rfl rfl rfl rfl rfl rfl (.inl rfl)
    · cases h
  | timer =>
    simp only [Push.select] at h
    split at h
    · cases h
      refine ⟨hi.crashed, hi.req.frame (by simp [hl, Main.Awaits]) (by simp [hl]),
        hi.pack.frame (by simp [hl, Main.Awaits]) (by simp [hl]),
        ⟨?_, ?_, ?_, nofun, fun e he => .inr (Option.some.inj he).symm⟩, nofun⟩
      · simp
      · simp
      · simp [Main.Keeps]
    · cases h
  | done =>
    simp only [Push.select, hx, Bool.or_false] at h
    split at h
    · cases h
      rename_i hc
      refine ⟨hi.crashed, hi.req.frame (by simp [hl, Main.Awaits]) (by simp [hl]),
        hi.pack.frame (by simp [hl, Main.Awaits]) (by simp [hl]),
        ⟨?_, ?_, fun _ _ => he, fun c' _ _ => ?_, fun e h' => absurd (he ▸ h') (by simp)⟩, nofun⟩
      · simp
      · simp
      · cases c'
        · exact .inl (by simp [Main.Keeps])
        · exact .inr (.inr ⟨rfl, hc⟩)
    · cases h

theorem Push.Inv.recv {c : Ch} {keep : Bool} {rest : List (Ch × Bool)} (hi : s.Inv)
    (hm : s.main = .drain ((c, keep) :: rest))
    (h : ((s.receive c).map fun (v, s) =>
      { s with err := if keep then v else s.err, main := .drain rest }) = some s') : s'.Inv := by
  have hnd := hi.err.nodup _ hm
  have hout : c ∉ rest.map Prod.fst := (List.nodup_cons.1 hnd).1
  have ha : s.main.Awaits c := by simp [hm, Main.Awaits]
  have hnr : s.main ≠ .returned := by simp [hm]
  have herr := hi.err
  rw [hm] at herr
  cases c with
  | req =>
    simp only [Push.receive, Option.map_map, Option.map_eq_some'] at h
    obtain ⟨⟨v, ch⟩, hrecv, rfl⟩ := h
    obtain ⟨hw, hinv⟩ := hi.req.take ha hnr hrecv
    exact ⟨hi.crashed, hinv (by simpa [Main.Awaits] using hout) (by simp),
      hi.pack.frame (by simp [hm, Main.Awaits]) (by simp [hm]), herr.recv hw, nofun⟩
  | pack =>
    simp only [Push.receive, Option.map_map, Option.map_eq_some'] at h
    obtain ⟨⟨v, ch⟩, hrecv, rfl⟩ := h
    obtain ⟨hw, hinv⟩ := hi.pack.take ha hnr hrecv
    exact ⟨hi.crashed, hi.req.frame (by simp [hm, Main.Awaits]) (by simp [hm]),
      hinv (by simpa [Main.Awaits] using hout) (by simp), herr.recv hw, nofun⟩

theorem Push.Inv.close (hi : s.Inv) (h : s.step .close = some s') : s'.Inv := by
  simp only [Push.step, hi.crashed, Bool.false_eq_true, if_false, ne_eq, ite_not] at h
  split at h
  · rename_i hm
    have hr := hi.req
    have hp := hi.pack
    have he := hi.err
    rw [hm] at hr hp he
    have hrc : s.reqChan.closed = false := by simpa using mt hr.closed.1 (by simp)
    have hpc : s.packChan.closed = false := by simpa using mt hp.closed.1 (by simp)
    simp only [hrc, hpc, Bool.or_false, Bool.false_eq_true, if_false, Option.some.injEq] at h
    subst h
    exact ⟨rfl, hr.close, hp.close, he.close, nofun⟩
  · cases h

theorem Push.Inv.step (hi : s.Inv) {e : Event} (h : s.step e = some s') : s'.Inv := by
  cases e
  case close => exact hi.close h
  case send c err => exact hi.send h
  all_goals simp only [Push.step, hi.crashed, Bool.false_eq_true, if_false] at h
  case advance | read => cases h; exact hi.frame rfl rfl rfl rfl rfl rfl rfl rfl (.inl rfl)
  case cancel => cases h; exact hi.frame rfl rfl rfl rfl rfl rfl rfl rfl (.inr rfl)
  case fire =>
    split at h
    · split at h
      · cases h; exact hi.frame rfl rfl rfl rfl rfl rfl rfl rfl (.inl rfl)
      · cases h
    · cases h
  case select c =>
    split at h
    · exact hi.select ‹_› h
    · cases h
  case recv =>
    split at h
    · exact hi.recv ‹_› h
    · cases h

theorem Push.Inv.run {s : Push} (hi : s.Inv) : ∀ {es s'}, s.run es = some s' → s'.Inv := by
  intro es
  induction es generalizing s with
  | nil => intro s' h; cases h; exact hi
  | cons e es ih =>
    intro s' h
    simp only [Push.run_cons, Option.bind_eq_some] at h
    obtain ⟨s₁, h₁, h₂⟩ := h
    exact ih (hi.step h₁) h₂

theorem Push.Reachable.inv {s : Push} (hs : s.Reachable) : s.Inv := by
  obtain ⟨period, now, es, hr⟩ := hs
  exact (Push.Inv.start period now).run hr

end Steps

/-! ## What every interleaving guarantees -/

section Safety

variable {s : Push}

/-- `main`'s next receive goes through once the goroutine it waits for has sent, and changes
neither goroutine. -/
theorem Push.Inv.recv_ok {c : Ch} {keep : Bool} {rest : List (Ch × Bool)} (hi : s.Inv)
    (hm : s.main = .drain ((c, keep) :: rest)) (hw : s.worker c ≠ .running) :
    ∃ s', s.step .recv = some s' ∧ s'.main = .drain rest ∧ s'.req = s.req ∧ s'.pack = s.pack := by
  have ha : s.main.Awaits c := by simp [hm, Main.Awaits]
  cases c with
  | req =>
    obtain ⟨v, hv⟩ : ∃ v, s.req = .exited v := by cases h : s.req <;> simp_all [Push.worker]
    have hb : s.reqChan.buf = some v := by rw [hi.req.waiting ha, hv]; rfl
    refine ⟨{ s with reqChan := { s.reqChan with buf := none }, main := .drain rest,
                     err := if keep then v else s.err }, ?_, rfl, rfl, rfl⟩
    simp [Push.step, hi.crashed, hm, Push.receive, Chan.recv, hb]
  | pack =>
    obtain ⟨v, hv⟩ : ∃ v, s.pack = .exited v := by cases h : s.pack <;> simp_all [Push.worker]
    have hb : s.packChan.buf = some v := by rw [hi.pack.waiting ha, hv]; rfl
    refine ⟨{ s with packChan := { s.packChan with buf := none }, main := .drain rest,
                     err := if keep then v else s.err }, ?_, rfl, rfl, rfl⟩
    simp [Push.step, hi.crashed, hm, Push.receive, Chan.recv, hb]

/-- **What `PushShard` returns.** It returns `nil` only if the request returned `nil`, and the
packer too, unless the caller cancelled: the `ctx.Done()` case keeps the request's result alone.
Any error it returns is the request's, the packer's, or `upload timeout`. -/
theorem Push.returned_err (hs : s.Reachable) (hr : s.main = .returned) :
    (s.err = none → s.req = .exited none ∧ (s.pack = .exited none ∨ s.cancelled)) ∧
    ∀ e, s.err = some e →
      s.req = .exited (some e) ∨ s.pack = .exited (some e) ∨ e = uploadTimeout := by
  have he := hs.inv.err
  rw [hr] at he
  refine ⟨fun hn => ⟨?_, ?_⟩, fun e hs => ?_⟩
  · rcases he.nil .req hn (by simp) with hk | hx | hx
    · exact hk.elim
    · exact hx
    · simp at hx
  · rcases he.nil .pack hn (by simp) with hk | hx | hx
    · exact hk.elim
    · exact .inl hx
    · exact .inr hx.2
  · rcases he.some e hs with ⟨c, hc⟩ | hx
    · cases c
      · exact .inl hc
      · exact .inr (.inl hc)
    · exact .inr (.inr hx)

/-- Both goroutines succeed, and the packer's result is taken first: `PushShard` returns `nil`. -/
theorem Push.returned_err_both_nil :
    let es : List Event := [.send .pack none, .send .req none, .select .pack, .recv, .close]
    ∃ s, (Push.start 8 0).run es = some s ∧ s.main = .returned ∧ s.err = none ∧
      (s.err = none → s.req = .exited none ∧ (s.pack = .exited none ∨ s.cancelled)) ∧
      ∀ e, s.err = some e →
        s.req = .exited (some e) ∨ s.pack = .exited (some e) ∨ e = uploadTimeout := by
  intro es
  obtain ⟨s, hr⟩ : ∃ s, (Push.start 8 0).run es = some s := ⟨_, rfl⟩
  have hm : ((Push.start 8 0).run es).map (fun s => (s.main, s.err)) = some (.returned, none) :=
    rfl
  simp only [hr, Option.map_some', Option.some.injEq, Prod.mk.injEq] at hm
  exact ⟨s, hr, hm.1, hm.2, Push.returned_err ⟨8, 0, es, hr⟩ hm.1⟩

end Safety

/-! ## `PushShard` returns once both results are in -/

/-- The send of the goroutine of `c`, if it is still running. -/
def Push.sendIfRunning (s : Push) (c : Ch) (err : Option (List Char)) : List Event :=
  if s.worker c = .running then [.send c err] else []

/-- `main`'s own steps to its return once both results are in: the `reqRespChan` case if it is
still in the loop, each receive left, and the closes. -/
def Main.finish : Main → List Event
  | .loop => [.select .req, .recv, .close]
  | .drain p => p.map (fun _ => .recv) ++ [.close]
  | .returned => []

/-- The goroutines still running send, `rq` from the request and `rp` from the packer, and then
`main` runs to its return. -/
def Push.finish (s : Push) (rq rp : Option (List Char)) : List Event :=
  s.sendIfRunning .req rq ++ s.sendIfRunning .pack rp ++ s.main.finish

section Finish

variable {s : Push}

theorem Push.Inv.run_sendIfRunning (hi : s.Inv) (c : Ch) (err : Option (List Char)) :
    ∃ s', s.run (s.sendIfRunning c err) = some s' ∧ s'.Inv ∧ s'.worker c ≠ .running ∧
      (∀ c', c' ≠ c → s'.worker c' = s.worker c') ∧ s'.main = s.main := by
  unfold Push.sendIfRunning
  split
  · rename_i hw
    obtain ⟨s', h, hi', hx, ho, hm⟩ := hi.send_ok hw err
    exact ⟨s', by simp [Push.run_cons, h], hi', by simp [hx], ho, hm⟩
  · exact ⟨s, rfl, hi, ‹_›, fun _ _ => rfl, rfl⟩

theorem Push.worker_eq {s s' : Push} (hr : s'.req = s.req) (hp : s'.pack = s.pack) :
    s'.worker = s.worker :=
  funext fun c => by cases c <;> assumption

/-- With both results in, `main`'s receives left and its closes take it to its return. -/
theorem Push.Inv.drain_returns {p : List (Ch × Bool)} (hi : s.Inv)
    (hw : ∀ c, s.worker c ≠ .running) (hm : s.main = .drain p) :
    ∃ s', s.run (p.map (fun _ => .recv) ++ [.close]) = some s' ∧ s'.main = .returned := by
  induction p generalizing s with
  | nil =>
    have hrc : s.reqChan.closed = false := by simpa [hm] using mt hi.req.closed.1
    have hpc : s.packChan.closed = false := by simpa [hm] using mt hi.pack.closed.1
    refine ⟨{ s with reqChan := { s.reqChan with closed := true },
                     packChan := { s.packChan with closed := true }, main := .returned }, ?_, rfl⟩
    simp [Push.run_cons, Push.step, hi.crashed, hm, hrc, hpc]
  | cons x rest ih =>
    obtain ⟨c, keep⟩ := x
    obtain ⟨s₁, h₁, hm₁, hr₁, hp₁⟩ := hi.recv_ok hm (hw c)
    obtain ⟨s', h', hr'⟩ := ih (hi.step h₁) (by rw [Push.worker_eq hr₁ hp₁]; exact hw) hm₁
    refine ⟨s', ?_, hr'⟩
    simp only [List.map_cons, List.cons_append, Push.run_cons, h₁, Option.some_bind]
    exact h'

/-- In the loop with the request's result in, `main` can take the `reqRespChan` case. -/
theorem Push.Inv.select_req_ok (hi : s.Inv) (hl : s.main = .loop) (hw : s.req ≠ .running) :
    ∃ s' b, s.step (.select .req) = some s' ∧ s'.main = .drain [(.pack, b)] ∧
      s'.req = s.req ∧ s'.pack = s.pack := by
  obtain ⟨v, hv⟩ : ∃ v, s.req = .exited v := by cases h : s.req <;> simp_all
  have hb : s.reqChan.buf = some v := by rw [hi.req.waiting (by rw [hl]; trivial), hv]; rfl
  refine ⟨{ s with reqChan := { s.reqChan with buf := none }, err := v,
                   packerCancelled := s.packerCancelled || v.isSome,
                   main := .drain [(.pack, v.isNone)] }, v.isNone, ?_, rfl, rfl, rfl⟩
  simp [Push.step, hi.crashed, hl, Push.select, Push.receive, Chan.recv, hb]

/-- **`PushShard` returns once both results are in.** From every state an interleaving reaches,
once each goroutine still running has sent its result, whatever it is, `main`'s own steps take
`PushShard` to its return: no wait of `main` outlives both goroutines. -/
theorem Push.finish_returns (hs : s.Reachable) (rq rp : Option (List Char)) :
    ∃ s', s.run (s.finish rq rp) = some s' ∧ s'.main = .returned := by
  obtain ⟨s₁, h₁, hi₁, hw₁, ho₁, hm₁⟩ := hs.inv.run_sendIfRunning .req rq
  obtain ⟨s₂, h₂, hi₂, hw₂, ho₂, hm₂⟩ := hi₁.run_sendIfRunning .pack rp
  have hsend : s₁.sendIfRunning .pack rp = s.sendIfRunning .pack rp := by
    simp only [Push.sendIfRunning, ho₁ .pack (by simp)]
  have hw : ∀ c, s₂.worker c ≠ .running := by
    intro c
    cases c
    · rw [ho₂ .req (by simp)]; exact hw₁
    · exact hw₂
  have hmain : ∃ s', s₂.run s.main.finish = some s' ∧ s'.main = .returned := by
    rw [← hm₁, ← hm₂]
    cases hm : s₂.main with
    | loop =>
      obtain ⟨s₃, b, h₃, hm₃, hr₃, hp₃⟩ := hi₂.select_req_ok hm (hw .req)
      obtain ⟨s', h', hr'⟩ :=
        (hi₂.step h₃).drain_returns (by rw [Push.worker_eq hr₃ hp₃]; exact hw) hm₃
      exact ⟨s', by simpa [Main.finish, Push.run_cons, h₃] using h', hr'⟩
    | drain p => exact hi₂.drain_returns hw hm
    | returned => exact ⟨s₂, rfl, hm⟩
  obtain ⟨s', h', hr'⟩ := hmain
  refine ⟨s', ?_, hr'⟩
  rw [Push.finish, Push.run_append, Push.run_append, h₁, Option.some_bind, ← hsend, h₂,
    Option.some_bind, h']

theorem Push.finish_returns_start :
    ∃ s', (Push.start 8 0).run ((Push.start 8 0).finish none (some "Cancelled".data)) = some s' ∧
      s'.main = .returned :=
  Push.finish_returns ⟨8, 0, [], rfl⟩ none (some "Cancelled".data)

end Finish

/-! ## A tick after the timer fired -/

section Timer

variable {s s' : Push}

/-- A property every step keeps holds along every run. -/
theorem Push.run_induction (P : Push → Prop) (hstep : ∀ s s' e, P s → s.step e = some s' → P s') :
    ∀ {s : Push} {es : List Event} {s' : Push}, P s → s.run es = some s' → P s'
  | _, [], _, hp, h => by cases h; exact hp
  | s, e :: es, s', hp, h => by
    simp only [Push.run_cons, Option.bind_eq_some] at h
    obtain ⟨s₁, h₁, h₂⟩ := h
    exact Push.run_induction P hstep (hstep s s₁ e hp h₁) h₂

/-- A step happens only before a panic. -/
theorem Push.step_crashed {e : Event} (h : s.step e = some s') : s.crashed = false :=
  Bool.eq_false_iff.mpr fun hc => by simp [Push.step, hc] at h

/-- A goroutine's send changes neither `main`, nor `err`, nor the timer. -/
theorem Push.send_frame {c : Ch} {err : Option (List Char)} (h : s.send c err = some s') :
    s'.main = s.main ∧ s'.err = s.err ∧ s'.timerC = s.timerC := by
  simp only [Push.send] at h
  split at h
  · cases h
  split at h
  · cases h; exact ⟨rfl, rfl, rfl⟩
  split at h
  · cases h
  · cases c <;> cases h <;> exact ⟨rfl, rfl, rfl⟩

/-- Past the timer's case: `err` is `upload timeout`, and no receive left stores into it. -/
def Push.TimedOut (s : Push) : Prop :=
  s.err = some uploadTimeout ∧ s.main ≠ .loop ∧ ∀ c, ¬ s.main.Keeps c

theorem Push.TimedOut.step (ht : s.TimedOut) {e : Event} (h : s.step e = some s') :
    s'.TimedOut := by
  obtain ⟨he, hl, hk⟩ := ht
  have hc := Push.step_crashed h
  cases e
  all_goals simp only [Push.step, hc, Bool.false_eq_true, if_false] at h
  case advance | read | cancel => cases h; exact ⟨he, hl, hk⟩
  case fire => split at h <;> [split at h; cases h] <;> cases h; exact ⟨he, hl, hk⟩
  case send c err =>
    obtain ⟨hm, herr, -⟩ := Push.send_frame h
    exact ⟨herr ▸ he, hm ▸ hl, hm ▸ hk⟩
  case select c => simp [hl] at h
  case recv =>
    split at h
    · rename_i c keep rest hm
      simp only [Option.map_eq_some'] at h
      obtain ⟨⟨v, s₁⟩, hr, rfl⟩ := h
      have hkeep : keep = false :=
        Bool.eq_false_iff.mpr fun hk' => hk c (by simp [hm, hk', Main.Keeps])
      have he₁ : s₁.err = s.err := by
        cases c <;> simp only [Push.receive, Option.map_eq_some'] at hr <;>
          obtain ⟨_, -, ⟨⟩⟩ := hr <;> rfl
      refine ⟨by simp [hkeep, he₁, he], nofun, fun c' hc' => hk c' ?_⟩
      simp only [Main.Keeps] at hc' ⊢
      rw [hm]
      exact .tail _ hc'
    · cases h
  case close =>
    split at h
    · cases h
    split at h <;> cases h
    · exact ⟨he, hl, hk⟩
    · exact ⟨he, nofun, fun _ => id⟩

end Timer

end CloudArchive.Client
