import ActiveFsm.Transition
import ActiveFsm.Remote.TransportMonitor

/-!
# ActiveFsm.Remote.RetryMonitor

Sending with retries: any number of threads in `SendWithRetry`, one thread that
calls `TransportMonitor::Process` from time to time, and any number of threads
that receive acknowledgements and call `TransportMonitor::Remove`.  A step is
what a thread does under one lock, or one call of `ITransport::Send`; whichever
thread comes next, and what `Send` returns, is open.
-/

namespace ActiveFsm

open Transition

namespace Remote

variable {π : Type}

/-! ## The state -/

/-- `RetryEntry`. -/
structure RetryEntry (π : Type) where
  packetData : π
  header : DmqHeader
  attemptsRemaining : Int
  isSent : Bool := false

/-- `m_retryStore`. -/
abbrev Store (π : Type) := OrderedMap Nat (RetryEntry π)

inductive Event (π : Type) where
  /-- `SendWithRetry` has stored a message. -/
  | submitted (h : DmqHeader) (os : π)
  /-- `ITransport::Send` has been called; `ok` tells whether it returned 0. -/
  | sent (h : DmqHeader) (os : π) (ok : Bool)
  /-- `SendWithRetry` has returned; `ok` tells whether it returned 0. -/
  | returned (h : DmqHeader) (ok : Bool)
  /-- `OnSendStatus`, with `SUCCESS` or `TIMEOUT`. -/
  | status (id : RemoteId) (seqNum : BitVec 16) (success : Bool)
  /-- The message has been forgotten on `SUCCESS`. -/
  | acknowledged (id : RemoteId) (seqNum : BitVec 16)
  /-- `OnDeliveryFailed`. -/
  | failed (id : RemoteId) (seqNum : BitVec 16)
  /-- `OnStatusChanged` could not register the message again. -/
  | unwatched (id : RemoteId) (seqNum : BitVec 16)
  | capExceeded (size : Nat)
  | pendingExceeded (remaining : Nat)

/-- The members of both monitors, the time, and what has happened. -/
structure Monitor (π : Type) where
  now : Nat := 0
  pending : Pending := {}
  store : Store π := {}
  log : List (Event π) := []

def Monitor.emit (m : Monitor π) (e : Event π) : Monitor π := { m with log := m.log ++ [e] }

@[simp] theorem emit_store (m : Monitor π) (e : Event π) : (m.emit e).store = m.store := rfl

/-- Where a thread is that sends a message, for the first time or again. -/
inductive Stage where
  /-- Before `TransportMonitor::Add`. -/
  | add
  /-- Before `ITransport::Send`. -/
  | send
  /-- `Send` has returned 0. -/
  | mark
  /-- It has not: before `TransportMonitor::Cancel`. -/
  | cancel
  /-- Before `m_retryStore.erase(key)`. -/
  | erase
  /-- Before `OnDeliveryFailed`. -/
  | report
  deriving DecidableEq, Repr

structure Attempt (π : Type) where
  header : DmqHeader
  os : π
  stage : Stage := .add

/-- What a call of `Process` still has to do after the messages at hand: the
expired messages, `expiredCount` and `remaining`. -/
structure Batch where
  items : List TimeoutData
  expiredCount : Nat
  remaining : Nat
  deriving DecidableEq, Repr

inductive Thread (π : Type) where
  /-- In `SendWithRetry`. -/
  | sending (a : Attempt π)
  /-- In `Process`, before the lock is taken. -/
  | pass
  /-- In `Process`, before the next callback. -/
  | notify (b : Batch)
  /-- In `OnStatusChanged`, sending the message once more. -/
  | retry (d : TimeoutData) (a : Attempt π) (b : Batch)
  /-- In `OnStatusChanged`, registering the message again. -/
  | reregister (d : TimeoutData) (h : DmqHeader) (b : Batch)
  /-- In `OnStatusChanged`, giving the message up. -/
  | exhausted (d : TimeoutData) (b : Batch)
  /-- In `Remove`, before `OnSendStatus`. -/
  | removed (id : RemoteId) (seqNum : BitVec 16)

def Thread.processing : Thread π → Bool
  | .sending _ => false
  | .pass => true
  | .notify _ => true
  | .retry .. => true
  | .reregister .. => true
  | .exhausted .. => true
  | .removed .. => false

structure State (π : Type) where
  monitor : Monitor π := {}
  threads : List (Thread π) := []

/-! ## Steps -/

/-- The first section of `SendWithRetry`. -/
def submit (cfg : Config) (h : DmqHeader) (os : π) (m : Monitor π) : Monitor π :=
  { m with
    store := m.store.insert h.key ⟨os, h, cfg.maxRetries, false⟩ }.emit (.submitted h os)

/-- The last section of `SendWithRetry`. -/
def markSent (k : Nat) (m : Monitor π) : Monitor π :=
  match m.store.find? k with
  | some e => { m with store := m.store.insert k { e with isSent := true } }
  | none => m

/-- The next section of an attempt to send.  The entry that it erases, and the
message that it reports, are those of `id` and `seqNum`. -/
def Attempt.step (cfg : Config) (id : RemoteId) (seqNum : BitVec 16) (ok : Bool) (m : Monitor π)
    (a : Attempt π) : Monitor π × Option Stage :=
  match a.stage with
  | .add =>
    match add cfg m.now a.header.seqNum a.header.id m.pending with
    | (.added, p) => ({ m with pending := p }, some .send)
    | (.collision, p) => ({ m with pending := p }, some .erase)
    | (.full n, p) => ({ m with pending := p }.emit (.capExceeded n), some .erase)
  | .send => (m.emit (.sent a.header a.os ok), some (if ok then .mark else .cancel))
  | .mark => (markSent (key id seqNum) m, none)
  | .cancel =>
    ({ m with pending := cancel a.header.seqNum a.header.id m.pending }, some .erase)
  | .erase => ({ m with store := m.store.erase (key id seqNum) }, some .report)
  | .report => (m.emit (.failed id seqNum), none)

/-- The section of `OnStatusChanged` at `TIMEOUT`, and what it leads to. -/
def onTimeout (m : Monitor π) (d : TimeoutData) (b : Batch) : Monitor π × Thread π :=
  match m.store.find? d.key with
  | none => (m, .notify b)
  | some e =>
    if 0 < e.attemptsRemaining ∧ e.isSent then
      ({ m with
        store := m.store.insert d.key { e with attemptsRemaining := e.attemptsRemaining - 1 } },
        .retry d ⟨e.header, e.packetData, .add⟩ b)
    else if 0 < e.attemptsRemaining then (m, .reregister d e.header b)
    else ({ m with store := m.store.erase d.key }, .exhausted d b)

/-- The section of `OnStatusChanged` at `SUCCESS`. -/
def onSuccess (m : Monitor π) (id : RemoteId) (seqNum : BitVec 16) : Monitor π :=
  if m.store.contains (key id seqNum) then
    { m with store := m.store.erase (key id seqNum) }.emit (.acknowledged id seqNum)
  else m

/-- The section of `Process`. -/
def process (cfg : Config) (m : Monitor π) : Monitor π × Option (Thread π) :=
  if m.pending.entries.isEmpty then (m, none)
  else
    let expired := cfg.expired m.now
    let r := OrderedMap.extractFrom expired cfg.maxExpired m.pending.entries
    ({ m with pending := m.pending.leave expired cfg.maxExpired },
      some (.notify ⟨r.taken.map Prod.snd, r.taken.length, if r.full then r.rest.length else 0⟩))

/-- The next section of a thread; `ok` is for `ITransport::Send`. -/
def Thread.step (cfg : Config) (ok : Bool) (m : Monitor π) :
    Thread π → Monitor π × Option (Thread π)
  | .sending a =>
    match a.step cfg a.header.id a.header.seqNum ok m with
    | (m', some stage) => (m', some (.sending { a with stage }))
    | (m', none) => (m'.emit (.returned a.header (a.stage = .mark)), none)
  | .pass => process cfg m
  | .notify ⟨[], expiredCount, remaining⟩ =>
    (if 0 < remaining then m.emit (.pendingExceeded remaining) else m,
      if expiredCount = cfg.maxExpired then some .pass else none)
  | .notify ⟨d :: items, expiredCount, remaining⟩ =>
    let r := onTimeout (m.emit (.status d.remoteId d.seqNum false)) d
      ⟨items, expiredCount, remaining⟩
    (r.1, some r.2)
  | .retry d a b =>
    match a.step cfg d.remoteId d.seqNum ok m with
    | (m', some .mark) => (m', some (.notify b))
    | (m', some stage) => (m', some (.retry d { a with stage } b))
    | (m', none) => (m', some (.notify b))
  | .reregister d h b =>
    match add cfg m.now h.seqNum h.id m.pending with
    | (.full n, _) => ((m.emit (.capExceeded n)).emit (.unwatched d.remoteId d.seqNum),
        some (.notify b))
    | (_, p) => ({ m with pending := p }, some (.notify b))
  | .exhausted d b => (m.emit (.failed d.remoteId d.seqNum), some (.notify b))
  | .removed id seqNum => (onSuccess (m.emit (.status id seqNum true)) id seqNum, none)

inductive Choice (π : Type) where
  | tick (duration : Nat)
  /-- A thread calls `SendWithRetry`. -/
  | submit (h : DmqHeader) (os : π)
  /-- The timer calls `Process`; no two calls of it overlap. -/
  | process
  /-- A thread calls `Remove`. -/
  | remove (seqNum : BitVec 16) (id : RemoteId)
  /-- The thread at the index goes on. -/
  | run (i : Nat) (ok : Bool)

def step (cfg : Config) (s : State π) : Choice π → Option (State π)
  | .tick duration => some { s with monitor := { s.monitor with now := s.monitor.now + duration } }
  | .submit h os => some ⟨submit cfg h os s.monitor, s.threads ++ [.sending ⟨h, os, .add⟩]⟩
  | .process =>
    if s.threads.any Thread.processing then none else some ⟨s.monitor, s.threads ++ [.pass]⟩
  | .remove seqNum id =>
    match remove seqNum id s.monitor.pending with
    | (some d, p) =>
      some ⟨{ s.monitor with pending := p }, s.threads ++ [.removed d.remoteId seqNum]⟩
    | (none, _) => some s
  | .run i ok =>
    match s.threads[i]? with
    | some t =>
      let r := t.step cfg ok s.monitor
      some ⟨r.1, s.threads.take i ++ r.2.toList ++ s.threads.drop (i + 1)⟩
    | none => none

/-! ## What a step can be -/

/-- The sections of an attempt one by one. -/
inductive Attempt.Next (cfg : Config) (id : RemoteId) (seqNum : BitVec 16) :
    Monitor π → Attempt π → Monitor π → Option Stage → Prop where
  | added {m h os p} (hadd : Remote.add cfg m.now h.seqNum h.id m.pending = (.added, p)) :
      Next cfg id seqNum m ⟨h, os, .add⟩ { m with pending := p } (some .send)
  | collision {m h os p} (hadd : Remote.add cfg m.now h.seqNum h.id m.pending = (.collision, p)) :
      Next cfg id seqNum m ⟨h, os, .add⟩ { m with pending := p } (some .erase)
  | full {m h os p n} (hadd : Remote.add cfg m.now h.seqNum h.id m.pending = (.full n, p)) :
      Next cfg id seqNum m ⟨h, os, .add⟩ ({ m with pending := p }.emit (.capExceeded n))
        (some .erase)
  | sent {m h os} : Next cfg id seqNum m ⟨h, os, .send⟩ (m.emit (.sent h os true)) (some .mark)
  | refused {m h os} :
      Next cfg id seqNum m ⟨h, os, .send⟩ (m.emit (.sent h os false)) (some .cancel)
  | mark {m h os} : Next cfg id seqNum m ⟨h, os, .mark⟩ (markSent (key id seqNum) m) none
  | cancel {m h os} : Next cfg id seqNum m ⟨h, os, .cancel⟩
      { m with pending := Remote.cancel h.seqNum h.id m.pending } (some .erase)
  | erase {m h os} : Next cfg id seqNum m ⟨h, os, .erase⟩
      { m with store := m.store.erase (key id seqNum) } (some .report)
  | report {m h os} : Next cfg id seqNum m ⟨h, os, .report⟩ (m.emit (.failed id seqNum)) none

/-- The sections of a thread one by one. -/
inductive Thread.Next (cfg : Config) :
    Monitor π → Thread π → Monitor π → Option (Thread π) → Prop where
  | sending {m a m' stage} (h : a.Next cfg a.header.id a.header.seqNum m m' (some stage)) :
      Next cfg m (.sending a) m' (some (.sending { a with stage }))
  | returned {m a m'} (h : a.Next cfg a.header.id a.header.seqNum m m' none) :
      Next cfg m (.sending a) (m'.emit (.returned a.header (a.stage = .mark))) none
  | empty {m} (h : m.pending.entries = []) : Next cfg m .pass m none
  | expire {m count remaining} : Next cfg m .pass
      { m with pending := m.pending.leave (cfg.expired m.now) cfg.maxExpired }
      (some (.notify ⟨(OrderedMap.extractFrom (cfg.expired m.now) cfg.maxExpired
        m.pending.entries).taken.map Prod.snd, count, remaining⟩))
  | drained {m m' count remaining next} (hm : m' = m ∨ m' = m.emit (.pendingExceeded remaining))
      (hnext : next = none ∨ next = some .pass) :
      Next cfg m (.notify ⟨[], count, remaining⟩) m' next
  | forgotten {m d items count remaining} (h : m.store.find? d.key = none) :
      Next cfg m (.notify ⟨d :: items, count, remaining⟩)
        (m.emit (.status d.remoteId d.seqNum false)) (some (.notify ⟨items, count, remaining⟩))
  | again {m d items count remaining e} (h : m.store.find? d.key = some e)
      (hleft : 0 < e.attemptsRemaining) (hsent : e.isSent = true) :
      Next cfg m (.notify ⟨d :: items, count, remaining⟩)
        { m.emit (.status d.remoteId d.seqNum false) with
          store := m.store.insert d.key { e with attemptsRemaining := e.attemptsRemaining - 1 } }
        (some (.retry d ⟨e.header, e.packetData, .add⟩ ⟨items, count, remaining⟩))
  | early {m d items count remaining e} (h : m.store.find? d.key = some e)
      (hleft : 0 < e.attemptsRemaining) (hsent : e.isSent = false) :
      Next cfg m (.notify ⟨d :: items, count, remaining⟩)
        (m.emit (.status d.remoteId d.seqNum false))
        (some (.reregister d e.header ⟨items, count, remaining⟩))
  | exhaust {m d items count remaining e} (h : m.store.find? d.key = some e)
      (hleft : e.attemptsRemaining ≤ 0) :
      Next cfg m (.notify ⟨d :: items, count, remaining⟩)
        { m.emit (.status d.remoteId d.seqNum false) with store := m.store.erase d.key }
        (some (.exhausted d ⟨items, count, remaining⟩))
  | retry {m d a b m' stage} (h : a.Next cfg d.remoteId d.seqNum m m' (some stage))
      (hstage : stage ≠ .mark) : Next cfg m (.retry d a b) m' (some (.retry d { a with stage } b))
  | retried {m d a b m' next} (h : a.Next cfg d.remoteId d.seqNum m m' next)
      (hnext : next = none ∨ next = some .mark) : Next cfg m (.retry d a b) m' (some (.notify b))
  | reregistered {m d h b p} (hadd : add cfg m.now h.seqNum h.id m.pending = (.added, p)) :
      Next cfg m (.reregister d h b) { m with pending := p } (some (.notify b))
  | registered {m d h b p} (hadd : add cfg m.now h.seqNum h.id m.pending = (.collision, p)) :
      Next cfg m (.reregister d h b) { m with pending := p } (some (.notify b))
  | unwatched {m d h b p n} (hadd : add cfg m.now h.seqNum h.id m.pending = (.full n, p)) :
      Next cfg m (.reregister d h b)
        ((m.emit (.capExceeded n)).emit (.unwatched d.remoteId d.seqNum)) (some (.notify b))
  | exhausted {m d b} :
      Next cfg m (.exhausted d b) (m.emit (.failed d.remoteId d.seqNum)) (some (.notify b))
  | acknowledged {m id seqNum e} (h : m.store.find? (key id seqNum) = some e) :
      Next cfg m (.removed id seqNum)
        ({ m.emit (.status id seqNum true) with store := m.store.erase (key id seqNum) }.emit
          (.acknowledged id seqNum)) none
  | unknown {m id seqNum} (h : m.store.find? (key id seqNum) = none) :
      Next cfg m (.removed id seqNum) (m.emit (.status id seqNum true)) none

variable {cfg : Config}

/-- What the executable section can be. -/
theorem Attempt.next_of_step (cfg : Config) (id : RemoteId) (seqNum : BitVec 16) (ok : Bool)
    (m : Monitor π) (a : Attempt π) :
    a.Next cfg id seqNum m (a.step cfg id seqNum ok m).1 (a.step cfg id seqNum ok m).2 := by
  obtain ⟨h, os, stage⟩ := a
  cases stage with
  | add =>
      simp only [Attempt.step]
      split
      · next hadd => exact .added hadd
      · next hadd => exact .collision hadd
      · next hadd => exact .full hadd
  | send =>
      cases ok with
      | true => exact .sent
      | false => exact .refused
  | mark => exact .mark
  | cancel => exact .cancel
  | erase => exact .erase
  | report => exact .report

/-- `OnStatusChanged` at `TIMEOUT`, case by case. -/
theorem next_onTimeout (m : Monitor π) (d : TimeoutData) (items : List TimeoutData)
    (count remaining : Nat) :
    Thread.Next cfg m (.notify ⟨d :: items, count, remaining⟩)
      (onTimeout (m.emit (.status d.remoteId d.seqNum false)) d ⟨items, count, remaining⟩).1
      (some (onTimeout (m.emit (.status d.remoteId d.seqNum false)) d
        ⟨items, count, remaining⟩).2) := by
  simp only [onTimeout]
  split
  · next h => exact .forgotten h
  · next e h =>
      split
      · next hagain => exact .again h hagain.1 hagain.2
      · split
        · next hnot hleft => exact .early h hleft (by simpa [hleft] using hnot)
        · next hleft => exact .exhaust h (by omega)

/-- The same of a section of any thread. -/
theorem Thread.next_of_step (cfg : Config) (ok : Bool) (m : Monitor π) (t : Thread π) :
    t.Next cfg m (t.step cfg ok m).1 (t.step cfg ok m).2 := by
  cases t with
  | sending a =>
      have hnext := a.next_of_step cfg a.header.id a.header.seqNum ok m
      simp only [Thread.step]
      split
      · next heq => rw [heq] at hnext; exact .sending hnext
      · next heq => rw [heq] at hnext; exact .returned hnext
  | pass =>
      simp only [Thread.step, process]
      split
      · next hempty => exact .empty (List.isEmpty_iff.mp hempty)
      · exact .expire
  | notify b =>
      obtain ⟨items, count, remaining⟩ := b
      cases items with
      | nil =>
          refine .drained ?_ ?_
          · simp only [Thread.step]
            split <;> simp
          · simp only [Thread.step]
            split <;> simp
      | cons d items => exact next_onTimeout m d items count remaining
  | retry d a b =>
      have hnext := a.next_of_step cfg d.remoteId d.seqNum ok m
      simp only [Thread.step]
      split
      · next heq => rw [heq] at hnext; exact .retried hnext (.inr rfl)
      · next stage hmark heq =>
          rw [heq] at hnext
          exact .retry hnext hmark
      · next heq => rw [heq] at hnext; exact .retried hnext (.inl rfl)
  | reregister d h b =>
      simp only [Thread.step]
      split
      · next hadd => exact .unwatched hadd
      · next r p hfull hadd =>
          cases r with
          | added => exact .reregistered hadd
          | collision => exact .registered hadd
          | full n => exact (hfull n rfl).elim
  | exhausted d b => exact .exhausted
  | removed id seqNum =>
      simp only [Thread.step, onSuccess]
      split
      · next hfound =>
          obtain ⟨e, he⟩ := Option.isSome_iff_exists.mp hfound
          exact .acknowledged he
      · next hfound => exact .unknown (Option.not_isSome_iff_eq_none.mp hfound)

/-- The steps one by one. -/
inductive Step (cfg : Config) : State π → State π → Prop where
  | tick {m ts} (duration : Nat) : Step cfg ⟨m, ts⟩ ⟨{ m with now := m.now + duration }, ts⟩
  | submit {m ts} (h : DmqHeader) (os : π) :
      Step cfg ⟨m, ts⟩ ⟨Remote.submit cfg h os m, ts ++ [.sending ⟨h, os, .add⟩]⟩
  | process {m ts} (h : ts.any Thread.processing = false) : Step cfg ⟨m, ts⟩ ⟨m, ts ++ [.pass]⟩
  | remove {m ts} {seqNum : BitVec 16} {id : RemoteId} {d p}
      (h : Remote.remove seqNum id m.pending = (some d, p)) :
      Step cfg ⟨m, ts⟩ ⟨{ m with pending := p }, ts ++ [.removed d.remoteId seqNum]⟩
  | stay {s} : Step cfg s s
  | run {m before t after m' next} (h : t.Next cfg m m' next) :
      Step cfg ⟨m, before ++ t :: after⟩ ⟨m', before ++ next.toList ++ after⟩

/-- What the executable step can be. -/
theorem step_of_step {s s' : State π} {c : Choice π} (h : step cfg s c = some s') :
    Step cfg s s' := by
  obtain ⟨m, ts⟩ := s
  cases c with
  | tick duration => cases h; exact .tick duration
  | submit hd os => cases h; exact .submit hd os
  | process =>
      simp only [step] at h
      split at h
      · contradiction
      · next hfree => cases h; exact .process (by simpa using hfree)
  | remove seqNum id =>
      simp only [step] at h
      split at h
      · next hremove => cases h; exact .remove hremove
      · cases h; exact .stay
  | run i ok =>
      simp only [step] at h
      split at h
      · next t ht =>
          cases h
          obtain ⟨hi, rfl⟩ := List.getElem?_eq_some_iff.mp ht
          have hsplit : ts = ts.take i ++ ts[i] :: ts.drop (i + 1) := by simp
          have hnext := Thread.next_of_step cfg ok m ts[i]
          have hrun : Step cfg ⟨m, ts.take i ++ ts[i] :: ts.drop (i + 1)⟩ _ := .run hnext
          rwa [← hsplit] at hrun
      · contradiction

end Remote

end ActiveFsm
