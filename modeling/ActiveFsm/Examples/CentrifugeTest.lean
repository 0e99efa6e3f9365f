import ActiveFsm.Abstraction
import ActiveFsm.Descent
import Mathlib.Data.Fintype.Basic
import Mathlib.Data.List.Induction
import Mathlib.Tactic.FinCases

/-!
# ActiveFsm.Examples.CentrifugeTest

The centrifuge test, a class derived from `SelfTest`: `Cancel` and the states
idle, completed and failed belong to the base class.  A timer polls the machine
while a test is running; five polls accelerate the centrifuge and six slow it
down again.
-/

namespace ActiveFsm

open Proc Transition

namespace CentrifugeTest

/-! ## The machine -/

/-- The members of the class itself: `m_speed`, whether `m_pollTimer` has been
started, and how often `OnComplete` has been signalled. -/
structure Own where
  speed : Int := 0
  polling : Bool := false
  completions : Nat := 0
  deriving DecidableEq, Repr

/-- No event of this machine has data. -/
abbrev NoData := Empty

def stIdle : UInt8 := 0

def stCompleted : UInt8 := 1

def stFailed : UInt8 := 2

def stStartTest : UInt8 := 3

def stAcceleration : UInt8 := 4

def stWaitForAcceleration : UInt8 := 5

def stDeceleration : UInt8 := 6

def stWaitForDeceleration : UInt8 := 7

def stMaxStates : UInt8 := 8

def startPoll (k : Callback Own NoData Unit) : Callback Own NoData Unit :=
  .update (fun _ own => { own with polling := true }) fun _ _ => k

def stopPoll (k : Callback Own NoData Unit) : Callback Own NoData Unit :=
  .update (fun _ own => { own with polling := false }) fun _ _ => k

/-- `CentrifugeTest::Idle`. -/
def idle (_ : EventPtr NoData) : Callback Own NoData Unit :=
  stopPoll (.update (fun _ own => { own with completions := own.completions + 1 }) fun _ _ =>
    .ret ())

/-- `SelfTest::EntryIdle`. -/
def entryIdle (_ : EventPtr NoData) : Callback Own NoData Unit := .ret ()

/-- `SelfTest::Completed`. -/
def completed (_ : EventPtr NoData) : Callback Own NoData Unit :=
  .internalEvent stIdle none (.ret ())

/-- `SelfTest::Failed`. -/
def failed (_ : EventPtr NoData) : Callback Own NoData Unit :=
  .internalEvent stIdle none (.ret ())

def startTest (_ : EventPtr NoData) : Callback Own NoData Unit :=
  .internalEvent stAcceleration none (.ret ())

def guardStartTest (_ : EventPtr NoData) : Callback Own NoData Bool :=
  .update (fun _ own => own) fun _ own => .ret (decide (own.speed = 0))

def acceleration (_ : EventPtr NoData) : Callback Own NoData Unit := startPoll (.ret ())

def waitForAcceleration (_ : EventPtr NoData) : Callback Own NoData Unit :=
  .update (fun _ own => { own with speed := own.speed + 1 }) fun _ own =>
    if own.speed + 1 ≥ 5 then .internalEvent stDeceleration none (.ret ()) else .ret ()

def exitWaitForAcceleration : Callback Own NoData Unit := stopPoll (.ret ())

def deceleration (_ : EventPtr NoData) : Callback Own NoData Unit := startPoll (.ret ())

def waitForDeceleration (_ : EventPtr NoData) : Callback Own NoData Unit :=
  .update (fun _ own => { own with speed := own.speed - 1 }) fun _ own =>
    if own.speed = 0 then .internalEvent stCompleted none (.ret ()) else .ret ()

def exitWaitForDeceleration : Callback Own NoData Unit := stopPoll (.ret ())

def centrifugeTest (thread : Option ThreadId) : Machine Own NoData where
  maxStates := stMaxStates
  maps := .flat none (some
    [{ state := some idle, entry := some entryIdle }, { state := some completed },
      { state := some failed }, { state := some startTest, guard := some guardStartTest },
      { state := some acceleration },
      { state := some waitForAcceleration, exit := some exitWaitForAcceleration },
      { state := some deceleration },
      { state := some waitForDeceleration, exit := some exitWaitForDeceleration }])
  thread := thread
  maps_size := by simp [StateMaps.HasSize, stMaxStates]

def start : Call NoData :=
  .event
    { transitions := [stStartTest, cannotHappen, cannotHappen, eventIgnored, eventIgnored,
        eventIgnored, eventIgnored, eventIgnored] }

def poll : Call NoData :=
  .event
    { transitions := [eventIgnored, eventIgnored, eventIgnored, eventIgnored,
        stWaitForAcceleration, stWaitForAcceleration, stWaitForDeceleration,
        stWaitForDeceleration] }

/-- `SelfTest::Cancel`. -/
def cancel : Call NoData :=
  .event
    { parentTransition := some stFailed
      transitions := [eventIgnored, cannotHappen, cannotHappen] }

/-! ## The test at rest -/

/-- The operations; `poll` is called by the timer. -/
inductive Op where
  | start
  | poll
  | cancel
  deriving DecidableEq, Repr

def perform : Op → Call NoData
  | .start => CentrifugeTest.start
  | .poll => CentrifugeTest.poll
  | .cancel => CentrifugeTest.cancel

/-- The machine between two operations: idle, or in a test that has been polled
`polls` times. -/
inductive Rest where
  | idle (speed : Int)
  | testing (polls : Fin 11)
  deriving DecidableEq, Repr

def Rest.state : Rest → UInt8
  | idle _ => stIdle
  | testing polls =>
    if polls = 0 then stAcceleration
    else if polls < 5 then stWaitForAcceleration
    else if polls = 5 then stDeceleration
    else stWaitForDeceleration

def Rest.speed : Rest → Int
  | idle speed => speed
  | testing polls => if polls ≤ 5 then polls.val else 10 - polls.val

def Rest.isTesting : Rest → Bool
  | idle _ => false
  | testing _ => true

/-- What an operation does.  A test begins only at speed 0. -/
def Rest.after : Rest → Op → Rest
  | idle speed, .start => if speed = 0 then testing 0 else idle speed
  | idle speed, _ => idle speed
  | testing polls, .start => testing polls
  | testing polls, .poll => if h : polls.val + 1 < 11 then testing ⟨polls.val + 1, h⟩ else idle (-1)
  | testing polls, .cancel => idle (testing polls).speed

/-- How often an operation signals `OnComplete`. -/
def Rest.signals : Rest → Op → Nat
  | testing polls, .poll => if polls.val + 1 < 11 then 0 else 1
  | testing _, .cancel => 1
  | _, _ => 0

/-- The machine rests as `r` says. -/
def Rests (r : Rest) (w : World Own NoData) : Prop :=
  w.members.currentState = r.state ∧ w.members.eventGenerated = false ∧
    w.user.speed = r.speed ∧ w.user.polling = r.isTesting

/-- One operation, executed. -/
theorem call_perform (thread : ThreadId) (n : Nat) (r : Rest) (o : Op) (target : UInt8)
    (data : EventPtr NoData) (completions : Nat) (queue : ThreadQueue (Message NoData))
    (log : List (Entry NoData)) :
    (call (centrifugeTest none) ⟨thread, perform o⟩ (n + 5) (perform o)).wp
      (fun _ w => Rests (r.after o) w ∧ w.user.completions = completions + r.signals o)
      (fun _ _ => False)
      ⟨⟨r.state, target, false, data⟩, ⟨r.speed, r.isTesting, completions⟩, queue, log⟩ := by
  cases r with
  | idle speed =>
      cases speed with
      | ofNat m => cases m <;> cases o <;> exact wp_of_ok rfl ⟨⟨rfl, rfl, rfl, rfl⟩, rfl⟩
      | negSucc m => cases o <;> exact wp_of_ok rfl ⟨⟨rfl, rfl, rfl, rfl⟩, rfl⟩
  | testing polls =>
      fin_cases polls <;> cases o <;> exact wp_of_ok rfl ⟨⟨rfl, rfl, rfl, rfl⟩, rfl⟩

/-- What `Cancel` has decided on another thread: the test fails, even where
there is none any more. -/
theorem invoke_failed (thread : ThreadId) (sender : Frame NoData) (n : Nat) (r : Rest)
    (target : UInt8) (data : EventPtr NoData) (completions : Nat)
    (queue : ThreadQueue (Message NoData)) (log : List (Entry NoData)) :
    (invoke (centrifugeTest (some thread)) thread (n + 5)
        ⟨sender, .externalEventImpl stFailed none⟩).wp
      (fun _ => Rests (r.after .cancel)) (fun _ _ => False)
      ⟨⟨r.state, target, false, data⟩, ⟨r.speed, r.isTesting, completions⟩, queue, log⟩ := by
  cases r with
  | idle speed => exact wp_of_ok rfl ⟨rfl, rfl, rfl, rfl⟩
  | testing polls => fin_cases polls <;> exact wp_of_ok rfl ⟨rfl, rfl, rfl, rfl⟩

/-- How often a test that nobody has cancelled has signalled `OnComplete`. -/
def Rest.finished : Rest → Nat
  | idle speed => if speed = -1 then 1 else 0
  | testing _ => 0

/-- Completions are counted where they are signalled, unless somebody cancels. -/
theorem finished_after (r : Rest) {o : Op} (ho : o ≠ .cancel) :
    (r.after o).finished = r.finished + r.signals o := by
  cases r with
  | idle speed =>
      cases o with
      | start =>
          by_cases hspeed : speed = 0
          · subst hspeed
            rfl
          · have hafter : Rest.after (.idle speed) .start = .idle speed := if_neg hspeed
            rw [hafter]
            rfl
      | poll => rfl
      | cancel => contradiction
  | testing polls =>
      cases o with
      | start => rfl
      | poll =>
          revert polls
          decide
      | cancel => contradiction

/-- The machine between two operations, whether it has been cancelled, and how
often `OnComplete` had been signalled before. -/
structure Past where
  rest : Rest
  cancelled : Bool := false
  before : Nat := 0

def Past.after (p : Past) (o : Op) : Past where
  rest := p.rest.after o
  cancelled := p.cancelled || decide (o = .cancel)
  before := p.before

def Past.next (p : Past) (o : Op) : Option Past := some (p.after o)

/-- The machine shows `p`. -/
def Shows (p : Past) (w : World Own NoData) : Prop :=
  Rests p.rest w ∧ (p.cancelled = false → w.user.completions = p.before + p.rest.finished)

/-- The test is the automaton, one operation after another. -/
theorem centrifuge_implements (thread : ThreadId) (n : Nat) :
    Implements (centrifugeTest none) thread (n + 5) perform Past.next Shows where
  goes p o p' w hw hnext := by
    obtain ⟨⟨s, target, pending, data⟩, ⟨speed, polling, completions⟩, queue, log⟩ := w
    obtain ⟨⟨hs, hpending, hspeed, hpolling⟩, hcompletions⟩ := hw
    dsimp only at hs hpending hspeed hpolling hcompletions
    subst hs hpending hspeed hpolling
    rw [← Option.some.inj hnext]
    refine wp_then (call_perform thread n p.rest o target data completions queue log) ?_
    rintro u w' ⟨hrests, hsignals⟩
    refine ⟨hrests, fun hcancelled => ?_⟩
    obtain ⟨hbefore, ho⟩ : p.cancelled = false ∧ o ≠ .cancel := by
      simpa [Past.after] using hcancelled
    rw [hsignals, hcompletions hbefore, Nat.add_assoc]
    exact congrArg (p.before + ·) (finished_after p.rest ho).symm
  stops p o w _ hnext := by contradiction
  same p w w' hw hsame := by
    unfold Shows Rests
    rw [← hsame.1, ← hsame.2.1]
    exact hw

/-! ## Runs -/

/-- Any operations are possible. -/
theorem exec_next (p : Past) (ops : List Op) :
    exec Past.next p ops = some ⟨ops.foldl Rest.after p.rest,
      p.cancelled || decide (.cancel ∈ ops), p.before⟩ := by
  induction ops generalizing p with
  | nil => simp
  | cons o ops ih =>
      have hnext : Past.next p o = some (p.after o) := rfl
      rw [exec_cons, hnext, Option.bind_some, ih, List.foldl_cons]
      simp [Past.after, Bool.or_assoc, eq_comm]

/-- At any speed but 0 it stays as it is for ever. -/
theorem after_spent {speed : Int} (hspeed : speed ≠ 0) (ops : List Op) :
    ops.foldl Rest.after (.idle speed) = .idle speed := by
  induction ops with
  | nil => rfl
  | cons o ops ih =>
      have hstay : Rest.after (.idle speed) o = .idle speed := by
        cases o with
        | start => exact if_neg hspeed
        | poll => rfl
        | cancel => rfl
      rw [List.foldl_cons, hstay, ih]

/-- A test that is not cancelled goes on until its eleventh poll. -/
theorem after_started (polls : Fin 11) {ops : List Op} (h : .cancel ∉ ops) :
    ops.foldl Rest.after (.testing polls) =
      if h : polls.val + ops.count .poll < 11 then .testing ⟨polls.val + ops.count .poll, h⟩
      else .idle (-1) := by
  induction ops generalizing polls with
  | nil => simp
  | cons o ops ih =>
      rw [List.mem_cons, not_or] at h
      obtain ⟨hfirst, hrest⟩ := h
      rw [List.foldl_cons]
      cases o with
      | start => exact ih polls hrest
      | cancel => exact absurd rfl hfirst
      | poll =>
          rw [List.count_cons_self]
          by_cases hnext : polls.val + 1 < 11
          · have hafter : Rest.after (.testing polls) .poll = .testing ⟨polls.val + 1, hnext⟩ :=
              dif_pos hnext
            rw [hafter, ih _ hrest]
            simp only [Nat.add_right_comm, Nat.add_assoc]
          · have hafter : Rest.after (.testing polls) .poll = .idle (-1) := dif_neg hnext
            rw [hafter, after_spent (by decide), dif_neg (by omega)]

/-- The speeds of a machine at rest. -/
theorem speed_after (ops : List Op) :
    -1 ≤ (ops.foldl Rest.after (.idle 0)).speed ∧ (ops.foldl Rest.after (.idle 0)).speed ≤ 5 := by
  induction ops using List.reverseRecOn with
  | nil => decide
  | append_singleton ops o ih =>
      rw [List.foldl_append, List.foldl_cons, List.foldl_nil]
      generalize ops.foldl Rest.after (.idle 0) = r at ih
      have hbound (polls : Fin 11) : -1 ≤ (Rest.testing polls).speed ∧
          (Rest.testing polls).speed ≤ 5 := by
        revert polls
        decide
      cases r with
      | idle speed =>
          cases o with
          | start =>
              by_cases hspeed : speed = 0
              · subst hspeed
                decide
              · have hafter : Rest.after (.idle speed) .start = .idle speed := if_neg hspeed
                rw [hafter]
                exact ih
          | poll => exact ih
          | cancel => exact ih
      | testing polls =>
          cases o with
          | start => exact ih
          | poll =>
              by_cases hnext : polls.val + 1 < 11
              · have hafter : Rest.after (.testing polls) .poll = .testing ⟨polls.val + 1, hnext⟩ :=
                  dif_pos hnext
                rw [hafter]
                exact hbound _
              · have hafter : Rest.after (.testing polls) .poll = .idle (-1) := dif_neg hnext
                rw [hafter]
                decide
          | cancel => exact hbound polls

/-! ## The active object -/

/-- Only `Cancel` has a `PARENT_TRANSITION`. -/
theorem parent_perform {o : Op} {f : EventFunction NoData} {p : UInt8}
    (hf : perform o = .event f) (hp : f.parentTransition = some p) :
    o = .cancel ∧ p = stFailed := by
  cases o with
  | start =>
      cases hf
      contradiction
  | poll =>
      cases hf
      contradiction
  | cancel =>
      cases hf
      exact ⟨rfl, (Option.some.inj hp).symm⟩

/-- All of them are event functions. -/
theorem plain_perform (o : Op) : (perform o).IsPlain := by
  cases o with
  | start => exact ⟨_, rfl, nofun⟩
  | poll => exact ⟨_, rfl, nofun⟩
  | cancel =>
      refine ⟨_, rfl, fun t ht => ?_⟩
      rw [← Option.some.inj ht]
      decide

/-- It does no harm that `Cancel` may decide too early. -/
theorem centrifuge_robust (thread : ThreadId) (n : Nat) :
    Robust (centrifugeTest (some thread)) thread (n + 5) perform Past.next Shows := by
  intro past o w sender f p hw _ hf hp
  obtain ⟨rfl, rfl⟩ := parent_perform hf hp
  obtain ⟨⟨s, target, pending, data⟩, ⟨speed, polling, completions⟩, queue, log⟩ := w
  obtain ⟨⟨hs, hpending, hspeed, hpolling⟩, -⟩ := hw
  dsimp only at hs hpending hspeed hpolling
  subst hs hpending hspeed hpolling
  refine wp_mono (invoke_failed thread sender n past.rest target data completions queue log)
    (fun _ _ hw' => ⟨_, rfl, hw', fun hcancelled => ?_⟩) fun _ _ => False.elim
  simp [Past.after] at hcancelled

/-- Its thread serves what is queued. -/
theorem centrifuge_serves (thread : ThreadId) (n : Nat) (p : Past) (before : List (Call NoData)) :
    Serves (centrifugeTest (some thread)) thread (n + 5) (StandsFor perform)
      (Abides perform Past.next Shows p before) (Breaks perform Past.next p before) := by
  have himpl : Implements (centrifugeTest (some thread)) thread (n + 4 + 1) perform Past.next
      Shows := .of_synchronous (runsOn_of_thread rfl) (centrifuge_implements thread n)
  exact himpl.serves (centrifuge_robust thread n) plain_perform before

/-- An operation is known by its call. -/
theorem perform_injective : Function.Injective perform := by
  intro o o' h
  cases o <;> cases o' <;> first | rfl | exact absurd h (by decide)

/-- The state tells whether a test is running. -/
theorem state_eq_idle (r : Rest) : r.state = stIdle ↔ r.isTesting = false := by
  cases r with
  | idle speed => exact ⟨fun _ => rfl, fun _ => rfl⟩
  | testing polls =>
      revert polls
      decide

/-- A test that begins at speed 0 and is not cancelled. -/
theorem test_after {test : List Op} (htest : .cancel ∉ test) :
    (Op.start :: test).foldl Rest.after (.idle 0) =
      if h : test.count .poll < 11 then .testing ⟨test.count .poll, h⟩ else .idle (-1) := by
  have hbegin : Rest.after (.idle 0) .start = .testing 0 := rfl
  rw [List.foldl_cons, hbegin]
  simpa using after_started 0 htest

/-- A machine that has just been constructed. -/
def centrifugeNew : World Own NoData := World.start { currentState := stIdle } {}

theorem centrifugeNew_isNew : centrifugeNew.queue.IsNew := rfl

/-- Thread 1 cancels, starts a test and lets the timer poll it to its end. -/
def todoTest (t : ThreadId) : List Op :=
  if t = 1 then .cancel :: .start :: List.replicate 11 .poll else []

/-- Thread 1 queues a call in `sender` steps, and the machine's thread executes
it in `machine`. -/
def callTaken (sender machine : Nat) : List ActiveFsm.Choice :=
  .call 1 :: List.replicate sender (.move 1 .go) ++ .take :: List.replicate machine (.move 0 .go)

/-- The start and the eleven polls. -/
def wholeTest : List ActiveFsm.Choice :=
  [44, 24, 18, 18, 18, 39, 24, 18, 18, 18, 18, 59].flatMap (callTaken 2)

/-- What is to be seen of a system whose machine rests. -/
def seen (S : System Own NoData) : Bool × UInt8 × Own × List (Call NoData) :=
  ((S.running 0).isRet, S.world.members.currentState, S.world.user, callsOf S.taken)

/-- What has been taken by then, and what has come of it. -/
theorem exec_wholeTest :
    ((System.exec (centrifugeTest (some 0)) 0 9 (fun _ _ => true)
      { world := centrifugeNew, pending := fun t => (todoTest t).map perform } (callTaken 3 3)).map
      seen = some (true, stIdle, {}, [perform .cancel])) ∧
    ((System.exec (centrifugeTest (some 0)) 0 9 (fun _ _ => true)
      { world := centrifugeNew, pending := fun t => (todoTest t).map perform }
      (callTaken 3 3 ++ wholeTest)).map seen =
        some (true, stIdle, { speed := -1, completions := 1 },
          [perform .cancel] ++ (Op.start :: List.replicate 11 .poll).map perform)) := by
  constructor <;> decide +kernel

/-- **A test that has run cannot be started again.**  Once the machine is idle
at a speed other than 0, as it is when a test has completed, it stays so,
whatever it is asked to do. -/
theorem centrifuge_spent {thread : ThreadId} (n : Nat) {start : World Own NoData}
    (hnew : start.queue.IsNew) (hstart : Shows { rest := .idle 0 } start)
    {todo : ThreadId → List Op} (hown : todo thread = []) {S S' : System Own NoData}
    (h : Reaches (centrifugeTest (some thread)) thread (n + 5) (fun _ _ => True)
      { world := start, pending := fun t => (todo t).map perform } S)
    (hidle : S.running thread = ret ()) (hstate : S.world.members.currentState = stIdle)
    (hspeed : S.world.user.speed ≠ 0)
    (h' : Reaches (centrifugeTest (some thread)) thread (n + 5) (fun _ _ => True) S S')
    (hidle' : S'.running thread = ret ()) :
    S'.world.members.currentState = stIdle ∧ S'.world.user.speed = S.world.user.speed ∧
      S'.world.user.polling = false := by
  have hserving := h.serving rfl (centrifuge_serves thread n { rest := .idle 0 } [])
    (serving_initial hnew hstart hown plain_perform)
  obtain ⟨-, p, -, -, hw, -⟩ := hserving.idle hidle
  -- from here on, completions are not looked at
  let past : Past := { rest := .idle S.world.user.speed, cancelled := true }
  have hshows : Shows past S.world := by
    obtain ⟨hs, hpending, -, hpolling⟩ := hw
    rw [hs, state_eq_idle] at hstate
    exact ⟨⟨hs.trans ((state_eq_idle p.rest).mpr hstate), hpending, rfl, hpolling.trans hstate⟩,
      nofun⟩
  have hspent : Abides perform Past.next Shows past (callsOf S.taken) S.taken S.world :=
    ⟨[], past, (List.append_nil _).symm, rfl, hshows⟩
  have hagain := h'.serving rfl (centrifuge_serves thread n past (callsOf S.taken))
    (hserving.restart hidle hspent)
  obtain ⟨ops, p', -, hexec, ⟨hstate', -, hspeed', hpolling'⟩, -⟩ := hagain.idle hidle'
  rw [exec_next, Option.some.injEq, after_spent hspeed] at hexec
  subst hexec
  exact ⟨hstate', hspeed', hpolling'⟩

/-- Thread 1 starts a test, polls it and cancels it, and tries again. -/
def todoAgain (t : ThreadId) : List Op :=
  if t = 1 then [.start, .poll, .cancel, .start] else []

/-- The machine's thread takes the first call. -/
def firstCall : List ActiveFsm.Choice :=
  [.call 1, .move 1 .go, .move 1 .go, .take] ++ List.replicate 44 (.move 0 .go)

/-- It takes the next two: the poll and the decision of `Cancel`. -/
def nextCalls : List ActiveFsm.Choice :=
  [.call 1, .move 1 .go, .move 1 .go, .take] ++ List.replicate 24 (.move 0 .go) ++
    [.call 1, .move 1 .go, .move 1 .go, .move 1 .go, .move 1 .go, .take] ++
    List.replicate 44 (.move 0 .go)

/-- It takes the last one. -/
def lastCall : List ActiveFsm.Choice :=
  [.call 1, .move 1 .go, .move 1 .go, .take] ++ List.replicate 12 (.move 0 .go)

set_option maxRecDepth 4000 in
theorem centrifuge_spent_again :
    ∃ S S', Reaches (centrifugeTest (some 0)) 0 (4 + 5) (fun _ _ => True)
        { world := centrifugeNew, pending := fun t => (todoAgain t).map perform } S ∧
      Reaches (centrifugeTest (some 0)) 0 (4 + 5) (fun _ _ => True) S S' ∧
      S.taken.length = 3 ∧ S'.taken.length = 4 ∧
      S'.world.members.currentState = stIdle ∧ S'.world.user.speed = S.world.user.speed ∧
      S'.world.user.polling = false := by
  have hexec : ∃ S S', System.exec (centrifugeTest (some 0)) 0 9 (fun _ _ => true)
      { world := centrifugeNew, pending := fun t => (todoAgain t).map perform }
        (firstCall ++ nextCalls) = some S ∧
      System.exec (centrifugeTest (some 0)) 0 9 (fun _ _ => true) S lastCall = some S' ∧
      S.taken.length = 3 ∧ S'.taken.length = 4 ∧
      S.running 0 = ret () ∧ S.world.members.currentState = stIdle ∧ S.world.user.speed = 1 ∧
      S'.running 0 = ret () := ⟨_, _, rfl, rfl, rfl, rfl, rfl, rfl, rfl, rfl⟩
  obtain ⟨S, S', hS, hS', htaken, htaken', hidle, hstate, hspeed, hidle'⟩ := hexec
  have hreach : Reaches (centrifugeTest (some 0)) 0 (4 + 5) (fun _ _ => True)
      { world := centrifugeNew, pending := fun t => (todoAgain t).map perform } S :=
    (reaches_of_exec hS).mono fun _ _ _ => trivial
  have hreach' : Reaches (centrifugeTest (some 0)) 0 (4 + 5) (fun _ _ => True) S S' :=
    (reaches_of_exec hS').mono fun _ _ _ => trivial
  have hspent : S.world.user.speed ≠ 0 := by
    rw [hspeed]
    decide
  exact ⟨S, S', hreach, hreach', htaken, htaken',
    centrifuge_spent 4 centrifugeNew_isNew ⟨⟨rfl, rfl, rfl, rfl⟩, fun _ => rfl⟩ rfl hreach hidle
      hstate hspent hreach' hidle'⟩

/-! ## No circles -/

/-- How many internal events can follow an event for the state. -/
def rank (s : UInt8) : Nat :=
  if s = stWaitForDeceleration then 2
  else if s = stCompleted ∨ s = stFailed ∨ s = stStartTest ∨ s = stWaitForAcceleration then 1
  else 0

theorem rank_lt (s : UInt8) : rank s < 3 := by
  unfold rank
  split
  · decide
  · split <;> decide

/-- The acceleration posts an event of lower rank, if any. -/
theorem waitForAcceleration_posts (d : EventPtr NoData) :
    (waitForAcceleration d).PostsTo fun t => rank t < rank stWaitForAcceleration := by
  intro _ own
  dsimp only
  split
  · exact ⟨by decide, trivial⟩
  · trivial

/-- So does the deceleration. -/
theorem waitForDeceleration_posts (d : EventPtr NoData) :
    (waitForDeceleration d).PostsTo fun t => rank t < rank stWaitForDeceleration := by
  intro _ own
  dsimp only
  split
  · exact ⟨by decide, trivial⟩
  · trivial

/-- So its internal events lead down. -/
theorem centrifuge_descends (thread : Option ThreadId) :
    (centrifugeTest thread).Descends rank where
  quiet := by
    refine ⟨fun row hrow => ?_, ⟨fun _ _ => trivial, fun _ => trivial, fun _ => trivial,
      fun _ => trivial⟩⟩
    simp only [centrifugeTest, StateMaps.rows, Option.getD_none, List.map_nil, Option.getD_some,
      List.nil_append, List.mem_cons, List.not_mem_nil, or_false] at hrow
    rcases hrow with rfl | rfl | rfl | rfl | rfl | rfl | rfl | rfl
    all_goals
      constructor
      all_goals
        simp [idle, entryIdle, completed, failed, startTest, guardStartTest, acceleration,
          waitForAcceleration, exitWaitForAcceleration, deceleration, waitForDeceleration,
          exitWaitForDeceleration, startPoll, stopPoll, Callback.Only]
    all_goals
      intro own
      split <;> simp [Callback.Only]
  state s f hf d := by
    have hs (k : UInt8) (hk : s.toNat = k.toNat) : s = k := UInt8.toNat_inj.mp hk
    simp only [centrifugeTest, StateMaps.stateFunction] at hf
    generalize hi : s.toNat = i at hf
    rcases i with _ | _ | _ | _ | _ | _ | _ | _ | i
    · cases hf
      exact fun _ _ _ _ => trivial
    · obtain rfl := hs stCompleted hi
      cases hf
      exact ⟨by decide, trivial⟩
    · obtain rfl := hs stFailed hi
      cases hf
      exact ⟨by decide, trivial⟩
    · obtain rfl := hs stStartTest hi
      cases hf
      exact ⟨by decide, trivial⟩
    · cases hf
      exact fun _ _ => trivial
    · obtain rfl := hs stWaitForAcceleration hi
      cases hf
      exact waitForAcceleration_posts d
    · cases hf
      exact fun _ _ => trivial
    · obtain rfl := hs stWaitForDeceleration hi
      cases hf
      exact waitForDeceleration_posts d
    · contradiction

/-- No message of a test can hang its thread. -/
theorem active_settles_centrifuge :
    ∃ S, Reaches (centrifugeTest (some 0)) 0 (UInt8.size + 2) (fun _ _ => True)
        { world := centrifugeNew, pending := fun t => (todoAgain t).map perform } S ∧
      S.running 0 = ret () ∧ S.world.user.polling = true ∧
      S.running 0 ≠ Proc.halt .outOfFuel ∧
      (S.running 0 = ret () → S.world.members.eventGenerated = false) := by
  have hexec : ∃ S, System.exec (centrifugeTest (some 0)) 0 (UInt8.size + 2) (fun _ _ => true)
      { world := centrifugeNew, pending := fun t => (todoAgain t).map perform } firstCall =
        some S ∧
      S.running 0 = ret () ∧ S.world.user.polling = true := ⟨_, rfl, rfl, rfl⟩
  obtain ⟨S, hS, hidle, hpolling⟩ := hexec
  have hreach : Reaches (centrifugeTest (some 0)) 0 (UInt8.size + 2) (fun _ _ => True)
      { world := centrifugeNew, pending := fun t => (todoAgain t).map perform } S :=
    (reaches_of_exec hS).mono fun _ _ _ => trivial
  have hcalls : ∀ t, ∀ c ∈ (todoAgain t).map perform,
      c.IsPlain ∧ c.Acyclic (centrifugeTest (some 0)) := by
    intro t c hc
    obtain ⟨o, -, rfl⟩ := List.mem_map.mp hc
    exact ⟨plain_perform o, by cases o <;> exact acyclic_of_flat rfl⟩
  have hrank (s : UInt8) : rank s < UInt8.size := (rank_lt s).trans (by decide)
  obtain ⟨hends, hrests, -⟩ := active_settles rfl (centrifuge_descends _) hrank le_rfl
    centrifugeNew_isNew ⟨rfl, rfl⟩ rfl hcalls hreach
  exact ⟨S, hreach, hidle, hpolling, hends, hrests⟩

end CentrifugeTest

end ActiveFsm
