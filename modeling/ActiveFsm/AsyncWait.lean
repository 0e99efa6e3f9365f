import ActiveFsm.Transition

/-!
# ActiveFsm.AsyncWait

Calls that block: `operator()` of an `AsyncWait` delegate sends a message to
another thread, `Invoke` calls the target function there, and a semaphore
releases the caller.  The arguments stay on the caller's stack, and the caller
may give up waiting at any time, so `m_lock` and two flags decide between the
two threads what has become of the call.

The two threads are different ones.  `DispatchAsyncWait` does not look at the
thread it is called on: a caller that is the destination itself would wait for
a message that only it can take.
-/

namespace ActiveFsm

open Transition

namespace AsyncWait

variable {ρ : Type}

/-! ## The state of a call -/

/-- The two threads. -/
inductive Party where
  | source
  | destination
  deriving DecidableEq, Repr

/-- Where the calling thread is in `operator()` and `DispatchAsyncWait`. -/
inductive Source (ρ : Type) where
  /-- Before `SetInvokerWaiting(true)`. -/
  | build
  /-- Before `DispatchDelegate`. -/
  | dispatch
  /-- In `GetSema().Wait(timeout)`. -/
  | wait
  /-- Before the lock is taken. -/
  | acquire (waited : Bool)
  /-- Before `GetInvokeSucceeded()`. -/
  | read (waited : Bool)
  /-- Before `SetInvokerWaiting(false)`. -/
  | clear (success : Bool)
  /-- Before the lock is released. -/
  | release (success : Bool)
  /-- Back in `operator()`, before the return value is taken over. -/
  | collect (success : Bool)
  /-- `IsSuccess()` is true where there is a value. -/
  | returned (retVal : Option ρ)
  deriving DecidableEq, Repr

/-- What has become of the message on the other side. -/
inductive Destination (ρ : Type) where
  /-- It has not been sent. -/
  | absent
  | queued
  /-- In `Invoke`, before the lock is taken. -/
  | acquire
  /-- Before `GetInvokerWaiting()`. -/
  | check
  /-- In the target function. -/
  | call
  /-- Before the return value is stored. -/
  | store (r : ρ)
  /-- Before `SetInvokeSucceeded(true)`. -/
  | succeed
  /-- Before the semaphore is signalled. -/
  | signal
  /-- Before the lock is released. -/
  | release
  /-- Taken off the queue without being invoked, before `Cancel()`. -/
  | cancel
  | done
  deriving DecidableEq, Repr

/-- What happens in a call. -/
inductive Event (ρ : Type) where
  /-- The wait has timed out. -/
  | expired
  /-- The target function begins. -/
  | began
  /-- It has returned a value, or thrown. -/
  | finished (r : Option ρ)
  /-- `operator()` has returned. -/
  | returned (retVal : Option ρ)
  deriving DecidableEq, Repr

/-- The members of `DelegateAsyncWaitMsg`, and `RetVal()` of the clone. -/
structure Msg (ρ : Type) where
  invokerWaiting : Bool := false
  invokeSucceeded : Bool := false
  /-- `m_signaled` of `m_sema`. -/
  signaled : Bool := false
  /-- The owner of `m_lock`. -/
  lock : Option Party := none
  retVal : Option ρ := none
  deriving DecidableEq, Repr

structure Call (ρ : Type) where
  msg : Msg ρ := {}
  source : Source ρ := .build
  destination : Destination ρ := .absent
  log : List (Event ρ) := []
  deriving DecidableEq, Repr

/-! ## Steps -/

/-- What happens next: a step of one of the threads, or what is not theirs to
decide. -/
inductive Choice (ρ : Type) where
  | source
  /-- There is no thread, or `DispatchDelegate` fails. -/
  | refuse
  | timeout
  | destination
  /-- The queue is cleared. -/
  | discard
  /-- The target function returns, or throws. -/
  | finish (r : Option ρ)
  deriving DecidableEq, Repr

/-- The next statement of `operator()` or `DispatchAsyncWait`. -/
def sourceStep : Call ρ → Option (Call ρ)
  | ⟨m, .build, d, l⟩ => some ⟨{ m with invokerWaiting := true }, .dispatch, d, l⟩
  | ⟨m, .dispatch, _, l⟩ => some ⟨m, .wait, .queued, l⟩
  | ⟨m, .wait, d, l⟩ =>
    if m.signaled then some ⟨{ m with signaled := false }, .acquire true, d, l⟩ else none
  | ⟨m, .acquire waited, d, l⟩ =>
    if m.lock = none then some ⟨{ m with lock := some .source }, .read waited, d, l⟩ else none
  | ⟨m, .read waited, d, l⟩ => some ⟨m, .clear (waited && m.invokeSucceeded), d, l⟩
  | ⟨m, .clear success, d, l⟩ => some ⟨{ m with invokerWaiting := false }, .release success, d, l⟩
  | ⟨m, .release success, d, l⟩ => some ⟨{ m with lock := none }, .collect success, d, l⟩
  | ⟨m, .collect success, d, l⟩ =>
    let result := if success then m.retVal else none
    some ⟨m, .returned result, d, l ++ [.returned result]⟩
  | ⟨_, .returned _, _, _⟩ => none

/-- The next statement of `Invoke` or of `Cancel`. -/
def destinationStep : Call ρ → Option (Call ρ)
  | ⟨m, s, .queued, l⟩ => some ⟨m, s, .acquire, l⟩
  | ⟨m, s, .acquire, l⟩ =>
    if m.lock = none then some ⟨{ m with lock := some .destination }, s, .check, l⟩ else none
  | ⟨m, s, .check, l⟩ =>
    if m.invokerWaiting then some ⟨m, s, .call, l ++ [.began]⟩ else some ⟨m, s, .release, l⟩
  | ⟨m, s, .store r, l⟩ => some ⟨{ m with retVal := some r }, s, .succeed, l⟩
  | ⟨m, s, .succeed, l⟩ => some ⟨{ m with invokeSucceeded := true }, s, .signal, l⟩
  | ⟨m, s, .signal, l⟩ => some ⟨{ m with signaled := true }, s, .release, l⟩
  | ⟨m, s, .release, l⟩ => some ⟨{ m with lock := none }, s, .done, l⟩
  | ⟨m, s, .cancel, l⟩ => some ⟨{ m with signaled := true }, s, .done, l⟩
  | _ => none

/-- One step; `timed` tells whether the wait is bounded.  `Wait` looks at
`m_signaled` once more when its time is up. -/
def step (timed : Bool) : Call ρ → Choice ρ → Option (Call ρ)
  | s, .source => sourceStep s
  | ⟨m, .dispatch, d, l⟩, .refuse => some ⟨m, .acquire false, d, l⟩
  | ⟨m, .wait, d, l⟩, .timeout =>
    if timed && !m.signaled then some ⟨m, .acquire false, d, l ++ [.expired]⟩ else none
  | s, .destination => destinationStep s
  | ⟨m, s, .queued, l⟩, .discard => some ⟨m, s, .cancel, l⟩
  | ⟨m, s, .call, l⟩, .finish r =>
    let next := match r with
      | some r => .store r
      | none => .signal
    some ⟨m, s, next, l ++ [.finished r]⟩
  | _, _ => none

/-! ## What a step can be -/

/-- The steps one by one. -/
inductive Next (timed : Bool) : Call ρ → Call ρ → Prop where
  | build {m d l} :
      Next timed ⟨m, .build, d, l⟩ ⟨{ m with invokerWaiting := true }, .dispatch, d, l⟩
  | dispatch {m d l} : Next timed ⟨m, .dispatch, d, l⟩ ⟨m, .wait, .queued, l⟩
  | refuse {m d l} : Next timed ⟨m, .dispatch, d, l⟩ ⟨m, .acquire false, d, l⟩
  | wake {m d l} (h : m.signaled = true) :
      Next timed ⟨m, .wait, d, l⟩ ⟨{ m with signaled := false }, .acquire true, d, l⟩
  | timeout {m d l} (htimed : timed = true) (h : m.signaled = false) :
      Next timed ⟨m, .wait, d, l⟩ ⟨m, .acquire false, d, l ++ [.expired]⟩
  | lock {m waited d l} (h : m.lock = none) :
      Next timed ⟨m, .acquire waited, d, l⟩ ⟨{ m with lock := some .source }, .read waited, d, l⟩
  | read {m waited d l} :
      Next timed ⟨m, .read waited, d, l⟩ ⟨m, .clear (waited && m.invokeSucceeded), d, l⟩
  | clear {m success d l} : Next timed ⟨m, .clear success, d, l⟩
      ⟨{ m with invokerWaiting := false }, .release success, d, l⟩
  | unlock {m success d l} :
      Next timed ⟨m, .release success, d, l⟩ ⟨{ m with lock := none }, .collect success, d, l⟩
  | collect {m success d l} : Next timed ⟨m, .collect success, d, l⟩
      ⟨m, .returned (if success then m.retVal else none), d,
        l ++ [.returned (if success then m.retVal else none)]⟩
  | take {m s l} : Next timed ⟨m, s, .queued, l⟩ ⟨m, s, .acquire, l⟩
  | discard {m s l} : Next timed ⟨m, s, .queued, l⟩ ⟨m, s, .cancel, l⟩
  | lockInvoke {m s l} (h : m.lock = none) :
      Next timed ⟨m, s, .acquire, l⟩ ⟨{ m with lock := some .destination }, s, .check, l⟩
  | invoke {m s l} (h : m.invokerWaiting = true) :
      Next timed ⟨m, s, .check, l⟩ ⟨m, s, .call, l ++ [.began]⟩
  | skip {m s l} (h : m.invokerWaiting = false) :
      Next timed ⟨m, s, .check, l⟩ ⟨m, s, .release, l⟩
  | finish {m s l} (r : ρ) :
      Next timed ⟨m, s, .call, l⟩ ⟨m, s, .store r, l ++ [.finished (some r)]⟩
  | throw {m s l} : Next timed ⟨m, s, .call, l⟩ ⟨m, s, .signal, l ++ [.finished none]⟩
  | store {m s r l} :
      Next timed ⟨m, s, .store r, l⟩ ⟨{ m with retVal := some r }, s, .succeed, l⟩
  | succeed {m s l} :
      Next timed ⟨m, s, .succeed, l⟩ ⟨{ m with invokeSucceeded := true }, s, .signal, l⟩
  | signal {m s l} :
      Next timed ⟨m, s, .signal, l⟩ ⟨{ m with signaled := true }, s, .release, l⟩
  | unlockInvoke {m s l} :
      Next timed ⟨m, s, .release, l⟩ ⟨{ m with lock := none }, s, .done, l⟩
  | cancel {m s l} : Next timed ⟨m, s, .cancel, l⟩ ⟨{ m with signaled := true }, s, .done, l⟩

/-- What the executable step can be. -/
theorem next_of_step {timed : Bool} {s s' : Call ρ} {c : Choice ρ}
    (h : step timed s c = some s') : Next timed s s' := by
  obtain ⟨m, source, destination, l⟩ := s
  cases c with
  | source =>
      cases source with
      | build => cases h; exact .build
      | dispatch => cases h; exact .dispatch
      | wait =>
          simp only [step, sourceStep] at h
          split at h
          · next hsignaled => cases h; exact .wake hsignaled
          · contradiction
      | acquire waited =>
          simp only [step, sourceStep] at h
          split at h
          · next hlock => cases h; exact .lock hlock
          · contradiction
      | read waited => cases h; exact .read
      | clear success => cases h; exact .clear
      | release success => cases h; exact .unlock
      | collect success => cases h; exact .collect
      | returned retVal => contradiction
  | refuse =>
      cases source with
      | dispatch => cases h; exact .refuse
      | _ => contradiction
  | timeout =>
      cases source with
      | wait =>
          simp only [step] at h
          split at h
          · next hexpired =>
              cases h
              obtain ⟨htimed, hsignaled⟩ := Bool.and_eq_true_iff.mp hexpired
              exact .timeout htimed (by simpa using hsignaled)
          · contradiction
      | _ => contradiction
  | destination =>
      cases destination with
      | queued => cases h; exact .take
      | acquire =>
          simp only [step, destinationStep] at h
          split at h
          · next hlock => cases h; exact .lockInvoke hlock
          · contradiction
      | check =>
          simp only [step, destinationStep] at h
          split at h
          · next hwaiting => cases h; exact .invoke hwaiting
          · next hwaiting => cases h; exact .skip (by simpa using hwaiting)
      | store r => cases h; exact .store
      | succeed => cases h; exact .succeed
      | signal => cases h; exact .signal
      | release => cases h; exact .unlockInvoke
      | cancel => cases h; exact .cancel
      | absent => contradiction
      | call => contradiction
      | done => contradiction
  | discard =>
      cases destination with
      | queued => cases h; exact .discard
      | _ => contradiction
  | finish r =>
      cases destination with
      | call =>
          cases r with
          | some r => cases h; exact .finish r
          | none => cases h; exact .throw
      | _ => contradiction

/-! ## What holds at every moment -/

/-- The calling thread owns the lock. -/
@[simp] def Source.inside : Source ρ → Bool
  | .build => false
  | .dispatch => false
  | .wait => false
  | .acquire _ => false
  | .read _ => true
  | .clear _ => true
  | .release _ => true
  | .collect _ => false
  | .returned _ => false

/-- It has announced that it waits, and has not taken that back. -/
@[simp] def Source.waiting : Source ρ → Bool
  | .build => false
  | .dispatch => true
  | .wait => true
  | .acquire _ => true
  | .read _ => true
  | .clear _ => true
  | .release _ => false
  | .collect _ => false
  | .returned _ => false

/-- The other thread owns the lock. -/
@[simp] def Destination.inside : Destination ρ → Bool
  | .absent => false
  | .queued => false
  | .acquire => false
  | .check => true
  | .call => true
  | .store _ => true
  | .succeed => true
  | .signal => true
  | .release => true
  | .cancel => false
  | .done => false

/-- It is between the call of the target function and the signal. -/
@[simp] def Destination.invoking : Destination ρ → Bool
  | .absent => false
  | .queued => false
  | .acquire => false
  | .check => false
  | .call => true
  | .store _ => true
  | .succeed => true
  | .signal => true
  | .release => false
  | .cancel => false
  | .done => false

/-- Outside the lock the target is not called. -/
theorem Destination.invoking_of_outside {d : Destination ρ} (h : d.inside = false) :
    d.invoking = false := by
  cases d <;> simp_all

/-- The lock is owned by the thread that is inside, the flag says whether the
calling thread waits, and the target function runs only while it does. -/
structure Call.Locked (s : Call ρ) : Prop where
  source : s.msg.lock = some .source ↔ s.source.inside = true
  destination : s.msg.lock = some .destination ↔ s.destination.inside = true
  waiting : s.msg.invokerWaiting = s.source.waiting
  unsent : s.source = .build ∨ s.source = .dispatch → s.destination = .absent
  invoking : s.destination.invoking = true → s.source.waiting = true

/-- The lock is kept from one step to the next. -/
theorem Call.Locked.next {timed : Bool} {s s' : Call ρ} (h : s.Locked) (hnext : Next timed s s') :
    s'.Locked := by
  obtain ⟨hsource, hdestination, hwaiting, hunsent, hinvoking⟩ := h
  cases hnext with
  | @clear m success d l =>
      have howner : m.lock = some .source := hsource.mpr rfl
      have houtside : d.inside = false := by simpa [howner] using hdestination
      have hquiet := Destination.invoking_of_outside houtside
      constructor <;> simp_all
  | _ => constructor <;> simp_all

/-- The calling thread remembers that the semaphore has woken it. -/
@[simp] def Source.woken : Source ρ → Bool
  | .build => false
  | .dispatch => false
  | .wait => false
  | .acquire waited => waited
  | .read waited => waited
  | .clear success => success
  | .release success => success
  | .collect success => success
  | .returned retVal => retVal.isSome

/-- The other thread may have signalled the semaphore. -/
@[simp] def Destination.signalled : Destination ρ → Bool
  | .absent => false
  | .queued => false
  | .acquire => false
  | .check => false
  | .call => false
  | .store _ => false
  | .succeed => false
  | .signal => false
  | .release => true
  | .cancel => false
  | .done => true

/-- No wake-up comes too early, and none is lost. -/
structure Call.Woken (s : Call ρ) : Prop where
  early : s.destination.signalled = false → s.msg.signaled = false ∧ s.source.woken = false
  lost : s.source = .wait → s.destination.signalled = true → s.msg.signaled = true
  sent : s.source = .wait → s.destination ≠ .absent

/-- So is what the semaphore says. -/
theorem Call.Woken.next {timed : Bool} {s s' : Call ρ} (h : s.Woken) (hlocked : s.Locked)
    (hnext : Next timed s s') : s'.Woken := by
  obtain ⟨hearly, hlost, hsent⟩ := h
  obtain ⟨-, -, hwaiting, hunsent, -⟩ := hlocked
  cases hnext with
  | dispatch =>
      have habsent := hunsent (.inr rfl)
      constructor <;> simp_all
  | @collect m success d l =>
      constructor <;> cases success <;> simp_all
  | @skip m s l hoff =>
      have hleft : s ≠ .wait := by
        rintro rfl
        rw [hoff] at hwaiting
        contradiction
      clear hwaiting
      constructor <;> simp_all
  | _ => constructor <;> simp_all

/-! ## What the log tells -/

/-- How often the target function has begun. -/
def begins (log : List (Event ρ)) : Nat :=
  log.countP fun
    | .began => true
    | _ => false

/-- How it has finished, each time. -/
def finishes (log : List (Event ρ)) : List (Option ρ) :=
  log.filterMap fun
    | .finished r => some r
    | _ => none

@[simp] theorem begins_nil : begins ([] : List (Event ρ)) = 0 := rfl

/-- How often the target has begun, over two parts of a log. -/
@[simp] theorem begins_append (log log' : List (Event ρ)) :
    begins (log ++ log') = begins log + begins log' := List.countP_append

@[simp] theorem begins_began : begins ([.began] : List (Event ρ)) = 1 := rfl

@[simp] theorem begins_finished (r : Option ρ) : begins [.finished r] = 0 := rfl

@[simp] theorem begins_expired : begins ([.expired] : List (Event ρ)) = 0 := rfl

@[simp] theorem begins_returned (v : Option ρ) : begins [.returned v] = 0 := rfl

@[simp] theorem finishes_nil : finishes ([] : List (Event ρ)) = [] := rfl

/-- How it has finished, over two parts of a log. -/
@[simp] theorem finishes_append (log log' : List (Event ρ)) :
    finishes (log ++ log') = finishes log ++ finishes log' := List.filterMap_append

@[simp] theorem finishes_began : finishes ([.began] : List (Event ρ)) = [] := rfl

@[simp] theorem finishes_finished (r : Option ρ) : finishes [.finished r] = [r] := rfl

@[simp] theorem finishes_expired : finishes ([.expired] : List (Event ρ)) = [] := rfl

@[simp] theorem finishes_returned (v : Option ρ) : finishes [.returned v] = [] := rfl

/-- The target function has been invoked, with a result, or to no avail. -/
def Msg.Settled (m : Msg ρ) (results : List (Option ρ)) : Prop :=
  (m.invokeSucceeded = false ∧ (results = [] ∨ results = [none])) ∨
    ∃ r, m.invokeSucceeded = true ∧ m.retVal = some r ∧ results = [some r]

/-- What the other thread has brought about. -/
@[simp] def Destination.Shows (m : Msg ρ) (results : List (Option ρ)) : Destination ρ → Prop
  | .absent => m.invokeSucceeded = false ∧ results = []
  | .queued => m.invokeSucceeded = false ∧ results = []
  | .acquire => m.invokeSucceeded = false ∧ results = []
  | .check => m.invokeSucceeded = false ∧ results = []
  | .call => m.invokeSucceeded = false ∧ results = []
  | .store r => m.invokeSucceeded = false ∧ results = [some r]
  | .succeed => m.invokeSucceeded = false ∧ ∃ r, m.retVal = some r ∧ results = [some r]
  | .signal => m.Settled results
  | .release => m.Settled results
  | .cancel => m.invokeSucceeded = false ∧ results = []
  | .done => m.Settled results

/-- Where the target function begins and finishes. -/
structure Call.Settles (s : Call ρ) : Prop where
  shows : s.destination.Shows s.msg (finishes s.log)
  running : s.destination = .call → begins s.log = 1
  finished : s.destination ≠ .call → begins s.log = (finishes s.log).length

/-- What the log says of the two parties stays true. -/
theorem Call.Settles.next {timed : Bool} {s s' : Call ρ} (h : s.Settles)
    (hnext : Next timed s s') (hunsent : s.source = .dispatch → s.destination = .absent) :
    s'.Settles := by
  obtain ⟨hshows, hrunning, hfinished⟩ := h
  cases hnext <;> constructor <;> simp_all [Msg.Settled]

/-- The call can no longer succeed. -/
def Call.Failed (s : Call ρ) : Prop :=
  .expired ∈ s.log ∨
    s.msg.invokeSucceeded = false ∧ (s.destination = .absent ∨ s.destination = .done)

/-- The target function has done its work, and the calling thread has waited
for it. -/
def Call.Succeeded (s : Call ρ) : Prop :=
  .expired ∉ s.log ∧ s.msg.invokeSucceeded = true ∧ s.destination = .done

/-- What the calling thread has found out. -/
@[simp] def Source.Knows (s : Call ρ) : Source ρ → Prop
  | .build => .expired ∉ s.log
  | .dispatch => .expired ∉ s.log
  | .wait => .expired ∉ s.log
  | .acquire true => .expired ∉ s.log
  | .acquire false => .expired ∈ s.log ∨ s.destination = .absent
  | .read true => .expired ∉ s.log
  | .read false => .expired ∈ s.log ∨ s.destination = .absent
  | .clear success => if success then s.Succeeded else s.Failed
  | .release success => if success then s.Succeeded else s.Failed
  | .collect success => if success then s.Succeeded else s.Failed
  | .returned (some r) => s.Succeeded ∧ finishes s.log = [some r]
  | .returned none => s.Failed

/-- The calling thread returns once, what it has found out. -/
structure Call.Answered (s : Call ρ) : Prop where
  knows : s.source.Knows s
  silent : (∀ v, s.source ≠ .returned v) → ∀ v, .returned v ∉ s.log
  last : ∀ v, s.source = .returned v →
    ∃ before, s.log = before ++ [.returned v] ∧ ∀ v', .returned v' ∉ before

/-- The calling thread looks at the result: the other one is done with it. -/
theorem knows_read {m : Msg ρ} {waited : Bool} {d : Destination ρ} {l : List (Event ρ)}
    (hlocked : (⟨m, .read waited, d, l⟩ : Call ρ).Locked)
    (hwoken : (⟨m, .read waited, d, l⟩ : Call ρ).Woken)
    (hsettles : (⟨m, .read waited, d, l⟩ : Call ρ).Settles)
    (hknows : (Source.read waited).Knows ⟨m, .read waited, d, l⟩) :
    (Source.clear (waited && m.invokeSucceeded)).Knows
      ⟨m, .clear (waited && m.invokeSucceeded), d, l⟩ := by
  cases waited with
  | false =>
      obtain hexpired | rfl := hknows
      · exact .inl hexpired
      · exact .inr ⟨hsettles.shows.1, .inl rfl⟩
  | true =>
      have howner : m.lock = some .source := hlocked.source.mpr rfl
      have houtside : d.inside = false := by
        have hdestination := hlocked.destination
        simpa [howner] using hdestination
      have hdone : d = .done := by
        have hearly := hwoken.early
        cases d <;> simp_all
      cases hsucceeded : m.invokeSucceeded with
      | true => simpa [hsucceeded] using ⟨hknows, hsucceeded, hdone⟩
      | false => simpa [hsucceeded] using .inr ⟨hsucceeded, .inr hdone⟩

/-- What it has found out stands while the other thread is at work. -/
theorem Source.Knows.busy {source : Source ρ} {s s' : Call ρ} (h : source.Knows s)
    (habsent : s.destination ≠ .absent) (hdone : s.destination ≠ .done)
    (hlog : .expired ∈ s'.log ↔ .expired ∈ s.log) : source.Knows s' := by
  have hfailed (h : s.Failed) : s'.Failed :=
    .inl (hlog.mpr (h.resolve_right fun h => h.2.elim habsent hdone))
  have hnever (h : s.Succeeded) : False := hdone h.2.2
  cases source with
  | acquire waited => cases waited <;> simp_all
  | read waited => cases waited <;> simp_all
  | clear success => cases success <;> simp_all
  | release success => cases success <;> simp_all
  | collect success => cases success <;> simp_all
  | returned retVal => cases retVal <;> simp_all
  | _ => simp_all

/-- A step of the other thread. -/
theorem Call.Answered.busy {m m' : Msg ρ} {source : Source ρ} {d d' : Destination ρ}
    {l l' : List (Event ρ)} (h : (⟨m, source, d, l⟩ : Call ρ).Answered) (habsent : d ≠ .absent)
    (hdone : d ≠ .done)
    (hlog : l' = l ∨ source.waiting = true ∧
      ∃ e, l' = l ++ [e] ∧ e ≠ .expired ∧ ∀ v, e ≠ .returned v) :
    (⟨m', source, d', l'⟩ : Call ρ).Answered := by
  obtain ⟨hknows, hsilent, hlast⟩ := h
  obtain rfl | ⟨hwaiting, e, rfl, hexpired, hreturned⟩ := hlog
  · exact ⟨hknows.busy habsent hdone Iff.rfl, hsilent, hlast⟩
  · have hlog : .expired ∈ l ++ [e] ↔ .expired ∈ l := by
      simp [Ne.symm hexpired]
    refine ⟨hknows.busy habsent hdone hlog, fun hs v hv => ?_, fun v hv => ?_⟩
    · obtain hv | hv := List.mem_append.mp hv
      · exact hsilent hs v hv
      · exact hreturned v (List.mem_singleton.mp hv).symm
    · dsimp only at hv
      rw [hv] at hwaiting
      contradiction

/-- The return value is taken over. -/
theorem Call.Answered.collect {m : Msg ρ} {success : Bool} {d : Destination ρ}
    {l : List (Event ρ)} (h : (⟨m, .collect success, d, l⟩ : Call ρ).Answered)
    (hsettles : (⟨m, .collect success, d, l⟩ : Call ρ).Settles) :
    (⟨m, .returned (if success then m.retVal else none), d,
      l ++ [.returned (if success then m.retVal else none)]⟩ : Call ρ).Answered := by
  obtain ⟨hknows, hsilent, -⟩ := h
  have hnone : ∀ v, .returned v ∉ l := hsilent fun v => nofun
  refine ⟨?_, fun hs => absurd rfl (hs _), fun v hv => ⟨l, ?_, hnone⟩⟩
  · cases success with
    | true =>
        obtain ⟨hexpired, hsucceeded, rfl⟩ : Call.Succeeded ⟨m, .collect true, d, l⟩ := hknows
        obtain ⟨hno, -⟩ | ⟨r, -, hretVal, hfinishes⟩ := hsettles.shows
        · rw [hno] at hsucceeded
          contradiction
        · simp_all [Call.Succeeded]
    | false =>
        have hfailed : Call.Failed ⟨m, .collect false, d, l⟩ := hknows
        obtain hexpired | hover := hfailed
        · exact .inl (List.mem_append_left _ hexpired)
        · exact .inr hover
  · cases hv
    rfl

/-- The answer to the caller fits what has happened. -/
theorem Call.Answered.next {timed : Bool} {s s' : Call ρ} (h : s.Answered) (hlocked : s.Locked)
    (hwoken : s.Woken) (hsettles : s.Settles) (hnext : Next timed s s') : s'.Answered := by
  have hlater := hlocked.next hnext
  obtain ⟨hknows, hsilent, hlast⟩ := h
  cases hnext with
  | build => exact ⟨hknows, fun _ => hsilent fun _ => nofun, nofun⟩
  | dispatch => exact ⟨hknows, fun _ => hsilent fun _ => nofun, nofun⟩
  | refuse =>
      exact ⟨.inr (hlocked.unsent (.inr rfl)), fun _ => hsilent fun _ => nofun, nofun⟩
  | wake => exact ⟨hknows, fun _ => hsilent fun _ => nofun, nofun⟩
  | timeout =>
      have hnone := hsilent fun _ => nofun
      exact ⟨.inl (by simp), by simp_all, nofun⟩
  | @lock m waited =>
      refine ⟨?_, fun _ => hsilent fun _ => nofun, nofun⟩
      cases waited <;> exact hknows
  | read =>
      exact ⟨knows_read hlocked hwoken hsettles hknows, fun _ => hsilent fun _ => nofun, nofun⟩
  | clear => exact ⟨hknows, fun _ => hsilent fun _ => nofun, nofun⟩
  | unlock => exact ⟨hknows, fun _ => hsilent fun _ => nofun, nofun⟩
  | collect => exact Call.Answered.collect ⟨hknows, hsilent, hlast⟩ hsettles
  | invoke =>
      have hwaiting := hlater.invoking rfl
      exact Call.Answered.busy ⟨hknows, hsilent, hlast⟩ nofun nofun
        (.inr ⟨hwaiting, .began, rfl, nofun, nofun⟩)
  | finish r =>
      have hwaiting := hlocked.invoking rfl
      exact Call.Answered.busy ⟨hknows, hsilent, hlast⟩ nofun nofun
        (.inr ⟨hwaiting, .finished (some r), rfl, nofun, nofun⟩)
  | throw =>
      have hwaiting := hlocked.invoking rfl
      exact Call.Answered.busy ⟨hknows, hsilent, hlast⟩ nofun nofun
        (.inr ⟨hwaiting, .finished none, rfl, nofun, nofun⟩)
  | _ => exact Call.Answered.busy ⟨hknows, hsilent, hlast⟩ nofun nofun (.inl rfl)

/-! ## Every run -/

/-- Everything that holds at every moment. -/
structure Call.Sound (s : Call ρ) : Prop where
  locked : s.Locked
  woken : s.Woken
  settles : s.Settles
  answered : s.Answered

/-- A call that has not been made yet. -/
theorem sound_initial : ({} : Call ρ).Sound where
  locked := ⟨by simp, by simp, rfl, fun _ => rfl, nofun⟩
  woken := ⟨fun _ => ⟨rfl, rfl⟩, nofun, nofun⟩
  settles := ⟨⟨rfl, rfl⟩, nofun, fun _ => rfl⟩
  answered := ⟨nofun, fun _ => nofun, nofun⟩

/-- One step of either party. -/
theorem Call.Sound.step {timed : Bool} {s s' : Call ρ} {c : Choice ρ} (h : s.Sound)
    (hstep : step timed s c = some s') : s'.Sound := by
  have hnext := next_of_step hstep
  exact ⟨h.locked.next hnext, h.woken.next h.locked hnext,
    h.settles.next hnext fun hs => h.locked.unsent (.inr hs),
    h.answered.next h.locked h.woken h.settles hnext⟩

/-- Whatever the two have done so far. -/
theorem sound_of_runs {timed : Bool} {s : Call ρ} (h : Runs (step timed) {} s) : s.Sound :=
  h.invariant (fun _ _ _ hs hstep => hs.step hstep) sound_initial

/-- There is one result at most. -/
theorem Destination.Shows.length_le {d : Destination ρ} {m : Msg ρ} {results : List (Option ρ)}
    (h : d.Shows m results) : results.length ≤ 1 := by
  have hsettled (h : m.Settled results) : results.length ≤ 1 := by
    obtain ⟨-, rfl | rfl⟩ | ⟨r, -, -, rfl⟩ := h <;> simp
  cases d with
  | succeed =>
      obtain ⟨-, r, -, rfl⟩ := h
      exact Nat.le_refl 1
  | signal => exact hsettled h
  | release => exact hsettled h
  | done => exact hsettled h
  | _ =>
      obtain ⟨-, rfl⟩ := h
      simp

/-- The target function begins at most once. -/
theorem Call.Sound.begins_le {s : Call ρ} (h : s.Sound) : begins s.log ≤ 1 := by
  by_cases hcall : s.destination = .call
  · exact Nat.le_of_eq (h.settles.running hcall)
  · rw [h.settles.finished hcall]
    exact h.settles.shows.length_le

/-- What the call reports. -/
theorem Call.Sound.reports {s : Call ρ} (h : s.Sound) {v : Option ρ}
    (hv : s.source = .returned v) (r : ρ) :
    v = some r ↔ finishes s.log = [some r] ∧ .expired ∉ s.log := by
  have hknows := h.answered.knows
  rw [hv] at hknows
  cases v with
  | some r' =>
      obtain ⟨⟨hexpired, -⟩, hfinishes⟩ := hknows
      rw [hfinishes]
      simp [hexpired]
  | none =>
      refine ⟨nofun, fun ⟨hfinishes, hexpired⟩ => ?_⟩
      obtain ⟨hsucceeded, hover⟩ := hknows.resolve_left hexpired
      have hshows := h.settles.shows
      rw [hfinishes] at hshows
      obtain habsent | hdone := hover
      · rw [habsent] at hshows
        exact absurd hshows.2 nofun
      · rw [hdone] at hshows
        obtain ⟨-, hnone | hnone⟩ | ⟨r', hyes, -⟩ := hshows
        · contradiction
        · cases hnone
        · rw [hsucceeded] at hyes
          contradiction

/-- **A blocking call.**  In every interleaving of the calling thread and the
other one, whatever times out, is refused, discarded or throws: the target
function begins at most once; `operator()` returns once, nothing happens after
it has, and the target function is not running then; and the call reports
success, with the value that the target function has returned, exactly if the
function has returned one and the wait for it has not timed out. -/
theorem async_wait_sound {timed : Bool} {s : Call ρ} (h : Runs (step timed) {} s) :
    begins s.log ≤ 1 ∧
    ∀ v, .returned v ∈ s.log →
      (∃ before, s.log = before ++ [.returned v] ∧ ∀ v', .returned v' ∉ before) ∧
      begins s.log = (finishes s.log).length ∧
      ∀ r, v = some r ↔ finishes s.log = [some r] ∧ .expired ∉ s.log := by
  have hsound := sound_of_runs h
  refine ⟨hsound.begins_le, fun v hv => ?_⟩
  have hsource : ∃ v', s.source = .returned v' := by
    refine Classical.byContradiction fun hnone => ?_
    exact hsound.answered.silent (fun v' hv' => hnone ⟨v', hv'⟩) v hv
  obtain ⟨v', hv'⟩ := hsource
  obtain ⟨before, hlog, hbefore⟩ := hsound.answered.last v' hv'
  have heq : v = v' := by
    rw [hlog] at hv
    obtain hv | hv := List.mem_append.mp hv
    · exact absurd hv (hbefore v)
    · exact Event.returned.inj (List.mem_singleton.mp hv)
  subst heq
  have hcall : s.destination ≠ .call := by
    intro hcall
    have hwaiting := hsound.locked.invoking (by rw [hcall]; rfl)
    rw [hv'] at hwaiting
    contradiction
  exact ⟨⟨before, hlog, hbefore⟩, hsound.settles.finished hcall, hsound.reports hv'⟩

/-- The wait times out while the target function runs: the caller is held back
until it has returned, and does not get its value. -/
theorem async_wait_sound_late :
    let cs : List (Choice Nat) :=
      [.source, .source, .destination, .destination, .destination, .timeout, .finish (some 7),
        .destination, .destination, .destination, .destination, .source, .source, .source,
        .source, .source]
    let s := (exec (step true) {} cs).getD {}
    s.log = [.began, .expired, .finished (some 7), .returned none] ∧ begins s.log ≤ 1 ∧
      ∀ v, .returned v ∈ s.log →
        ∀ r, v = some r ↔ finishes s.log = [some r] ∧ .expired ∉ s.log := by
  intro cs s
  have hrun : Runs (step true) {} s := ⟨cs, rfl⟩
  have hsound := async_wait_sound hrun
  exact ⟨rfl, hsound.1, fun v hv => (hsound.2 v hv).2.2⟩

/-! ## Every run ends -/

/-- How many statements the calling thread has before it. -/
@[simp] def Source.left : Source ρ → Nat
  | .build => 8
  | .dispatch => 7
  | .wait => 6
  | .acquire _ => 5
  | .read _ => 4
  | .clear _ => 3
  | .release _ => 2
  | .collect _ => 1
  | .returned _ => 0

/-- How many the other one has at most. -/
@[simp] def Destination.left : Destination ρ → Nat
  | .absent => 9
  | .queued => 8
  | .acquire => 7
  | .check => 6
  | .call => 5
  | .store _ => 4
  | .succeed => 3
  | .signal => 2
  | .release => 1
  | .cancel => 1
  | .done => 0

/-- Each step leaves less to do. -/
theorem left_next {timed : Bool} {s s' : Call ρ} (hnext : Next timed s s')
    (hlocked : s.Locked) :
    s'.source.left + s'.destination.left < s.source.left + s.destination.left := by
  have hunsent := hlocked.unsent
  cases hnext <;> simp_all

/-- So the steps of a run are bounded by what there was to do. -/
theorem left_exec {timed : Bool} {s s' : Call ρ} {cs : List (Choice ρ)} (hs : s.Sound)
    (h : exec (step timed) s cs = some s') :
    cs.length + (s'.source.left + s'.destination.left) ≤ s.source.left + s.destination.left := by
  induction cs generalizing s with
  | nil =>
      cases h
      simp
  | cons c cs ih =>
      rw [exec_cons] at h
      obtain ⟨s₁, hstep, hrest⟩ := Option.bind_eq_some_iff.mp h
      have hless := left_next (next_of_step hstep) hs.locked
      have hle := ih (hs.step hstep) hrest
      rw [List.length_cons]
      omega

/-- While the other thread has the lock or waits for the target function, it or
the function can go on. -/
theorem moves_inside {timed : Bool} {s : Call ρ} (h : s.destination.inside = true) :
    ∃ c, step timed s c ≠ none := by
  obtain ⟨m, source, d, l⟩ := s
  cases d with
  | check =>
      refine ⟨.destination, ?_⟩
      cases hwaiting : m.invokerWaiting <;> simp [step, destinationStep, hwaiting]
  | call => exact ⟨.finish none, nofun⟩
  | store r => exact ⟨.destination, nofun⟩
  | succeed => exact ⟨.destination, nofun⟩
  | signal => exact ⟨.destination, nofun⟩
  | release => exact ⟨.destination, nofun⟩
  | _ => contradiction

/-- The other thread can go on, unless it is done with the message or waits for
the lock. -/
theorem moves_destination {timed : Bool} {s : Call ρ} (hs : s.Sound)
    (hinside : s.source.inside = false) (habsent : s.destination ≠ .absent)
    (hdone : s.destination ≠ .done) : ∃ c, step timed s c ≠ none := by
  by_cases hd : s.destination.inside = true
  · exact moves_inside hd
  · have hlock : s.msg.lock = none := by
      have hsource := hs.locked.source
      have hdestination := hs.locked.destination
      rcases howner : s.msg.lock with - | ⟨⟨⟩⟩ <;> simp_all
    obtain ⟨m, source, d, l⟩ := s
    cases d with
    | absent => contradiction
    | done => contradiction
    | queued => exact ⟨.destination, nofun⟩
    | acquire => exact ⟨.destination, by simp_all [step, destinationStep]⟩
    | cancel => exact ⟨.destination, nofun⟩
    | _ => exact absurd rfl hd

/-- Somebody can go on until the call has returned and the message is dealt
with. -/
theorem moves {timed : Bool} {s : Call ρ} (hs : s.Sound)
    (h : (∀ v, s.source ≠ .returned v) ∨ s.destination ≠ .absent ∧ s.destination ≠ .done) :
    ∃ c, step timed s c ≠ none := by
  have hdestination (hinside : s.source.inside = false) (habsent : s.destination ≠ .absent)
      (hdone : s.destination ≠ .done) : ∃ c, step timed s c ≠ none :=
    moves_destination hs hinside habsent hdone
  obtain ⟨m, source, d, l⟩ := s
  cases source with
  | wait =>
      cases hsignaled : m.signaled with
      | true => exact ⟨.source, by simp [step, sourceStep, hsignaled]⟩
      | false =>
          refine hdestination rfl (hs.woken.sent rfl) fun hdone => ?_
          dsimp only at hdone
          subst hdone
          have hlost : m.signaled = true := hs.woken.lost rfl rfl
          rw [hsignaled] at hlost
          contradiction
  | acquire waited =>
      have hsource := hs.locked.source
      have hinside := hs.locked.destination
      rcases howner : m.lock with - | ⟨⟨⟩⟩
      · exact ⟨.source, by simp [step, sourceStep, howner]⟩
      · simp_all
      · exact moves_inside (hinside.mp howner)
  | returned v =>
      obtain ⟨habsent, hdone⟩ := h.resolve_left fun hnone => hnone v rfl
      exact hdestination rfl habsent hdone
  | _ => exact ⟨.source, nofun⟩

/-- **No call hangs** that is made on another thread than the destination's, if
the destination gets to its messages.  Every run of a blocking call is finite,
and one that cannot be continued has returned and has dealt with the message:
the caller is woken even if its wait is unbounded, once the other thread has got
to the message or thrown it away and the target function, if it was called, has
returned or thrown. -/
theorem async_wait_ends {timed : Bool} {s : Call ρ} {cs : List (Choice ρ)}
    (h : exec (step timed) {} cs = some s) :
    cs.length ≤ 17 ∧ ((∀ c, step timed s c = none) →
      (∃ v, s.source = .returned v) ∧ (s.destination = .absent ∨ s.destination = .done)) := by
  have hsound := sound_of_runs ⟨cs, h⟩
  have hleft := left_exec sound_initial h
  refine ⟨by simp at hleft; omega, fun hstuck => ?_⟩
  refine Classical.byContradiction fun hnot => ?_
  have hopen : (∀ v, s.source ≠ .returned v) ∨
      s.destination ≠ .absent ∧ s.destination ≠ .done := by
    by_cases hreturned : ∃ v, s.source = .returned v
    · exact .inr (not_or.mp fun hover => hnot ⟨hreturned, hover⟩)
    · exact .inl fun v hv => hreturned ⟨v, hv⟩
  have hmoves : ∃ c, step timed s c ≠ none := moves hsound hopen
  obtain ⟨c, hc⟩ := hmoves
  exact hc (hstuck c)

/-- The queue is cleared, which releases a caller that waits without a limit. -/
theorem async_wait_ends_discarded :
    let cs : List (Choice Nat) :=
      [.source, .source, .discard, .destination, .source, .source, .source, .source, .source,
        .source]
    let s := (exec (step false) {} cs).getD {}
    s.log = [.returned none] ∧ cs.length ≤ 17 ∧ ((∀ c, step false s c = none) →
      (∃ v, s.source = .returned v) ∧ (s.destination = .absent ∨ s.destination = .done)) := by
  intro cs s
  have hrun : exec (step false) {} cs = some s := rfl
  exact ⟨rfl, async_wait_ends hrun⟩

end AsyncWait

end ActiveFsm
