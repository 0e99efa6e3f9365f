import ActiveFsm.Monitor
import ActiveFsm.Timer
import Mathlib.Algebra.BigOperators.Group.Finset.Basic
import Mathlib.Algebra.Order.BigOperators.Group.Finset
import Mathlib.Tactic.Linarith

/-!
# ActiveFsm.Expiry

When a timer expires: never before its time and never while it is stopped,
over every interleaving; and, as long as the clock stands still, each timer that
is due at least once and at most twice, however many are due at once.
-/

namespace ActiveFsm

namespace Timers

open Transition Linked

/-! ## Times that fit -/

/-- The timer is not started with a timeout longer than `longest`. -/
def Choice.Within (longest : Int) : Choice → Prop
  | .start _ timeout _ => timeout ≤ longest
  | _ => True

instance (longest : Int) : DecidablePred (Choice.Within longest)
  | .construct _ => inferInstanceAs (Decidable True)
  | .destroy _ => inferInstanceAs (Decidable True)
  | .start _ timeout _ => inferInstanceAs (Decidable (timeout ≤ longest))
  | .stop _ => inferInstanceAs (Decidable True)
  | .pass => inferInstanceAs (Decidable True)

/-- A step of timers with bounded timeouts. -/
def stepWithin (clock : Nat → Int) (longest : Int) (s : Timers) (c : Choice) : Option Timers :=
  if c.Within longest then s.step clock c else none

/-- The time at which such a timeout has passed can be counted. -/
structure InRange (clock : Nat → Int) (longest : Int) : Prop where
  low : ∀ i, minCount ≤ clock i
  high : ∀ i, clock i + longest ≤ maxCount

/-- The timers that are enabled have been started with such a timeout. -/
def Fits (longest : Int) (s : Timers) : Prop :=
  ∀ t, (s.timer t).enabled = true → 0 < (s.timer t).timeout ∧ (s.timer t).timeout ≤ longest ∧
    minCount ≤ (s.timer t).expireTime

section Range

variable {clock : Nat → Int} {longest : Int} {s s' : Timers} {t : Nat} {ns : List Nat}

/-- A step with a bounded timeout is a step. -/
theorem step_of_stepWithin {c : Choice} (h : s.stepWithin clock longest c = some s') :
    c.Within longest ∧ s.step clock c = some s' := by
  unfold stepWithin at h
  split at h
  · next hc => exact ⟨hc, h⟩
  · contradiction

/-- So its runs are runs. -/
theorem runs_of_within (h : Runs (stepWithin clock longest) s s') : Runs (step clock) s s' := by
  refine h.invariant (I := fun s' => Runs (step clock) s s') (fun s₁ c s₂ hruns hstep => ?_)
    ⟨[], rfl⟩
  exact hruns.trans ⟨[c], by
    rw [exec_cons, (step_of_stepWithin hstep).2, Option.bind_some, exec_nil]⟩

/-- At first no timer is enabled. -/
theorem fits_start (longest : Int) : Fits longest {} := fun _ he => nomatch he

/-- A change of one timer. -/
theorem Fits.update (h : Fits longest s) {timer : Timer}
    (htimer : s'.timer = Function.update s.timer t timer)
    (hfits : timer.enabled = true →
      0 < timer.timeout ∧ timer.timeout ≤ longest ∧ minCount ≤ timer.expireTime) :
    Fits longest s' := by
  intro u he
  rw [htimer] at he ⊢
  by_cases hut : u = t
  · subst hut
    rw [Function.update_self] at he ⊢
    exact hfits he
  · rw [Function.update_of_ne hut] at he ⊢
    exact h u he

/-- The next expiration of a timer that is due can be counted. -/
theorem Fits.next (h : Fits longest s) (hrange : InRange clock longest)
    (henabled : (s.timer t).enabled = true) (hdue : (s.timer t).expireTime ≤ clock s.reads) :
    wrapCount ((s.timer t).expireTime + (s.timer t).timeout) =
      (s.timer t).expireTime + (s.timer t).timeout := by
  obtain ⟨hpos, hle, hlow⟩ := h t henabled
  have hhigh := hrange.high s.reads
  exact wrapCount_eq (by omega) (by omega)

/-- So can the first. -/
theorem InRange.first (hrange : InRange clock longest) {timeout : Int} (hpos : 0 < timeout)
    (hle : timeout ≤ longest) (i : Nat) : wrapCount (clock i + timeout) = clock i + timeout := by
  have hlow := hrange.low i
  have hhigh := hrange.high i
  exact wrapCount_eq (by omega) (by omega)

/-- A timer is started with such a timeout. -/
theorem Fits.arm (h : Fits longest s) {timeout : Int} (hpos : 0 < timeout)
    (hle : timeout ≤ longest) (once found : Bool) :
    Fits longest (s.arm clock t timeout once found) :=
  h.update rfl fun _ => ⟨hpos, hle, minCount_le_wrapCount _⟩

/-- A timer is moved on to its next expiration. -/
theorem Fits.checkExpired (h : Fits longest s) (hrange : InRange clock longest) (t : Nat) :
    Fits longest (s.checkExpired clock t).2 := by
  have hchecked := checkExpired_cases clock t s
  generalize s.checkExpired clock t = r at hchecked ⊢
  cases hchecked with
  | rest reads => exact h
  | once => exact h.update rfl fun he => nomatch he
  | again expireTime reads henabled hdue honce hreads hnext =>
      refine h.update rfl fun _ => ⟨(h t henabled).1, (h t henabled).2.1, ?_⟩
      obtain ⟨rfl, -⟩ | ⟨rfl, -⟩ := hnext
      · exact minCount_le_wrapCount _
      · exact hrange.low _

/-- The pass goes through the list. -/
theorem Fits.scan (h : Fits longest s) (hrange : InRange clock longest) (ns : List Nat)
    (count : Nat) : Fits longest (visit (scanBody clock) ns (count, s)).2 := by
  have hbody : ∀ n (r : Nat × Timers), Fits longest r.2 →
      Fits longest (scanBody clock n r).1.2 := by
    rintro n ⟨count, s⟩ hr
    simp only [scanBody]
    split
    · exact hr
    · exact hr.checkExpired hrange n
  refine visit_rule (I := fun _ (r : Nat × Timers) => Fits longest r.2)
    (Q := fun (r : Nat × Timers) => Fits longest r.2) ?_ ?_ ?_ h
  · exact fun n _ r hr _ => hbody n r hr
  · exact fun n _ r hr _ => hbody n r hr
  · exact fun _ hr => hr

/-- Every step keeps the timeouts within the range. -/
theorem Fits.step (h : Fits longest s) (hrange : InRange clock longest) (hs : s.Sound ns)
    {c : Choice} (hstep : s.stepWithin clock longest c = some s') : Fits longest s' := by
  obtain ⟨hc, hstep⟩ := step_of_stepWithin hstep
  unfold Timers.step at hstep
  split at hstep
  · cases c with
    | construct t => exact Option.some.inj hstep ▸ h.update rfl fun he => absurd he (by simp)
    | destroy t =>
        obtain ⟨links, -, rfl⟩ := Option.map_eq_some_iff.mp hstep
        exact h
    | start t timeout once =>
        simp only [Timers.start] at hstep
        split at hstep
        · exact Option.some.inj hstep ▸ h
        · next hpos =>
            obtain ⟨found, -, rfl⟩ := Option.map_eq_some_iff.mp hstep
            exact h.arm (not_le.mp hpos) hc once found
    | stop t => exact Option.some.inj hstep ▸ h.update rfl fun he => absurd he (by simp)
    | pass =>
        obtain ⟨r, hr, rfl⟩ := Option.map_eq_some_iff.mp hstep
        obtain ⟨s₀, ns', -, -, -, hs₀, hpass⟩ := hs.pass clock
        rw [hpass, Option.some.injEq] at hr
        subst hr
        have hstart : Fits longest s₀ := by
          rw [hs₀]
          exact h
        exact hstart.scan hrange ns' 0
  · contradiction

/-- What holds of every state of a run with bounded timeouts. -/
theorem fits_runs (hrange : InRange clock longest) (hs : s.Sound ns) (hfits : Fits longest s)
    (h : Runs (stepWithin clock longest) s s') : (∃ ns, s'.Sound ns) ∧ Fits longest s' := by
  refine h.invariant (I := fun s' => (∃ ns, s'.Sound ns) ∧ Fits longest s') ?_ ⟨⟨ns, hs⟩, hfits⟩
  rintro s c s' ⟨⟨ns, hs⟩, hfits⟩ hstep
  exact ⟨hs.runs (runs_of_within ⟨[c], by rw [exec_cons, hstep, Option.bind_some, exec_nil]⟩),
    hfits.step hrange hs hstep⟩

end Range

/-! ## Never early -/

/-- The clock never goes back. -/
def Steady (clock : Nat → Int) : Prop := ∀ i j, i ≤ j → clock i ≤ clock j

/-- What a timer may do next, as far as one can tell from what happened. -/
inductive Schedule where
  | idle
  /-- Started at `start`; it has expired `fired` times since. -/
  | running (start timeout : Int) (once : Bool) (fired : Nat)
  deriving DecidableEq, Repr

/-- A started timer expires for the `k`-th time when `k` timeouts have passed,
or later; a one-shot timer once; a timer that was stopped, destroyed or not yet
started, not at all. -/
def Schedule.next (t : Nat) : Monitor Schedule TimerEvent := fun schedule e =>
  if e.timer ≠ t then some schedule
  else
    match e, schedule with
    | .started _ now timeout once, _ => some (.running now timeout once 0)
    | .expired _ _, .idle => none
    | .expired _ now, .running start timeout once fired =>
      if start + (fired + 1) * timeout ≤ now then
        some (if once then .idle else .running start timeout once (fired + 1))
      else none
    | _, _ => some .idle

/-- The timer does not expire before the schedule lets it. -/
def Schedule.Covers (timer : Timer) : Schedule → Prop
  | .idle => timer.enabled = false
  | .running start timeout once fired => timer.enabled = true →
      timeout = timer.timeout ∧ once = timer.once ∧ start + (fired + 1) * timeout ≤ timer.expireTime

/-- What happened is on schedule so far. -/
def OnSchedule (t : Nat) (s : Timers) : Prop :=
  ∃ schedule, (Schedule.next t).scan .idle s.log = some schedule ∧
    (t ∈ s.live → schedule.Covers (s.timer t))

section Schedule

variable {clock : Nat → Int} {longest : Int} {s s' : Timers} {t u : Nat} {ns : List Nat}
  {e : TimerEvent}

/-- What happens to other timers is of no account. -/
theorem Schedule.next_other (schedule : Schedule) (he : e.timer ≠ t) :
    Schedule.next t schedule e = some schedule := if_pos he

/-- A step that says nothing about the timer. -/
theorem OnSchedule.other (h : OnSchedule t s) (htimer : s'.timer t = s.timer t)
    (hlive : t ∈ s'.live → t ∈ s.live)
    (hlog : s'.log = s.log ∨ ∃ e, s'.log = s.log ++ [e] ∧ e.timer ≠ t) : OnSchedule t s' := by
  obtain ⟨schedule, hscan, hcovers⟩ := h
  refine ⟨schedule, ?_, fun ht => htimer ▸ hcovers (hlive ht)⟩
  obtain hlog | ⟨e, hlog, hne⟩ := hlog
  · rw [hlog, hscan]
  · rw [hlog, Monitor.scan_snoc, hscan, Option.bind_some, Schedule.next_other schedule hne]

/-- A step that does not let the timer expire. -/
theorem OnSchedule.snoc (h : OnSchedule t s) (schedule : Schedule)
    (hlog : s'.log = s.log ++ [e]) (hnext : ∀ sch, Schedule.next t sch e = some schedule)
    (hcovers : t ∈ s'.live → schedule.Covers (s'.timer t)) : OnSchedule t s' := by
  obtain ⟨before, hscan, -⟩ := h
  refine ⟨schedule, ?_, hcovers⟩
  rw [hlog, Monitor.scan_snoc, hscan, Option.bind_some, hnext]

/-- A timer is constructed. -/
theorem OnSchedule.construct (h : OnSchedule t s) (u : Nat) : OnSchedule t (s.construct u) := by
  by_cases htu : t = u
  · subst htu
    refine h.snoc (e := .constructed t) .idle rfl (fun _ => by
      simp [Schedule.next, TimerEvent.timer]) fun _ => ?_
    exact congrArg Timer.enabled (timer_setTimer_self t {} s)
  · refine h.other (timer_setTimer_ne htu {} s) (fun ht => ?_)
      (.inr ⟨.constructed u, rfl, fun hu => htu hu.symm⟩)
    exact (Finset.mem_insert.mp ht).resolve_left htu

/-- A timer is destroyed, and expires no more. -/
theorem OnSchedule.destroy (h : OnSchedule t s) (hs' : s.destroy u = some s') :
    OnSchedule t s' := by
  obtain ⟨links, -, rfl⟩ := Option.map_eq_some_iff.mp hs'
  by_cases htu : t = u
  · subst htu
    refine h.snoc (e := .destroyed t) .idle rfl (fun _ => by
      simp [Schedule.next, TimerEvent.timer]) fun ht => ?_
    exact absurd ht (Finset.notMem_erase t s.live)
  · exact h.other rfl Finset.mem_of_mem_erase
      (.inr ⟨.destroyed u, rfl, fun hu => htu hu.symm⟩)

/-- A timer is started, and its first expiration is set. -/
theorem OnSchedule.arm (hrange : InRange clock longest) (h : OnSchedule t s) (u : Nat)
    {timeout : Int} (hpos : 0 < timeout) (hle : timeout ≤ longest) (once found : Bool) :
    OnSchedule t (s.arm clock u timeout once found) := by
  by_cases htu : t = u
  · subst htu
    refine h.snoc (e := .started t (clock s.reads) timeout once)
      (.running (clock s.reads) timeout once 0) rfl (fun _ => by
      simp [Schedule.next, TimerEvent.timer]) fun _ _ => ?_
    rw [timer_arm_self]
    refine ⟨rfl, rfl, ?_⟩
    dsimp only
    rw [hrange.first hpos hle]
    simp
  · exact h.other (timer_arm_ne htu timeout once found s) id
      (.inr ⟨.started u (clock s.reads) timeout once, rfl, fun hu => htu hu.symm⟩)

/-- A timer is stopped, and expires no more. -/
theorem OnSchedule.stop (h : OnSchedule t s) (u : Nat) : OnSchedule t (s.stop u) := by
  by_cases htu : t = u
  · subst htu
    refine h.snoc (e := .stopped t) .idle rfl (fun _ => by
      simp [Schedule.next, TimerEvent.timer]) fun _ => ?_
    exact congrArg Timer.enabled (timer_setTimer_self t { s.timer t with enabled := false } s)
  · exact h.other (timer_setTimer_ne htu { s.timer u with enabled := false } s) id
      (.inr ⟨.stopped u, rfl, fun hu => htu hu.symm⟩)

/-- A timer that expires was covered by its schedule, which lets it. -/
theorem OnSchedule.expired (h : OnSchedule t s) (ht : t ∈ s.live)
    (henabled : (s.timer t).enabled = true) {now : Int} (hdue : (s.timer t).expireTime ≤ now) :
    ∃ start fired, (Schedule.next t).scan .idle (s.log ++ [.expired t now]) =
        some (if (s.timer t).once then .idle
          else .running start (s.timer t).timeout (s.timer t).once (fired + 1)) ∧
      start + (fired + 1) * (s.timer t).timeout ≤ (s.timer t).expireTime := by
  obtain ⟨schedule, hscan, hcovers⟩ := h
  cases schedule with
  | idle => exact absurd (hcovers ht) (by simp [Schedule.Covers, henabled])
  | running start timeout once fired =>
      obtain ⟨rfl, rfl, hnext⟩ := hcovers ht henabled
      refine ⟨start, fired, ?_, hnext⟩
      rw [Monitor.scan_snoc, hscan, Option.bind_some]
      have hnow : start + (fired + 1) * (s.timer t).timeout ≤ now := hnext.trans hdue
      simp [Schedule.next, TimerEvent.timer, hnow]

/-- A timer expires only when its time has come. -/
theorem OnSchedule.checkExpired (hclock : Steady clock) (hrange : InRange clock longest)
    (hfits : Fits longest s) (h : OnSchedule t s) (hu : u ∈ s.live) :
    OnSchedule t (s.checkExpired clock u).2 := by
  have hchecked := checkExpired_cases clock u s
  generalize s.checkExpired clock u = r at hchecked ⊢
  by_cases htu : t = u
  · subst htu
    cases hchecked with
    | rest reads => exact h.other rfl id (.inl rfl)
    | once henabled hdue honce =>
        obtain ⟨start, fired, hscan, -⟩ := h.expired hu henabled hdue
        rw [if_pos honce] at hscan
        refine ⟨.idle, hscan, fun _ => ?_⟩
        exact congrArg Timer.enabled (timer_setTimer_self t { s.timer t with enabled := false } _)
    | again expireTime reads henabled hdue honce _ hnext =>
        obtain ⟨start, fired, hscan, hle⟩ := h.expired hu henabled hdue
        rw [if_neg (by simp [honce])] at hscan
        refine ⟨_, hscan, fun _ _ => ?_⟩
        have htimer := timer_setTimer_self t { s.timer t with expireTime := expireTime }
          (s.note (.expired t (clock s.reads)))
        refine ⟨(congrArg Timer.timeout htimer).symm, (congrArg Timer.once htimer).symm, ?_⟩
        -- the new expiration is a timeout later than the last one, or later still
        have hlater : (s.timer t).expireTime + (s.timer t).timeout ≤ expireTime := by
          rw [hfits.next hrange henabled hdue] at hnext
          obtain ⟨rfl, -⟩ | ⟨rfl, hbehind⟩ := hnext
          · exact le_rfl
          · exact hbehind.le.trans (hclock _ _ (by omega))
        refine le_trans ?_ (hlater.trans (congrArg Timer.expireTime htimer).ge)
        push_cast
        linarith
  · have hne : TimerEvent.timer (.expired u (clock s.reads)) ≠ t := fun hu => htu hu.symm
    cases hchecked with
    | rest reads => exact h.other rfl id (.inl rfl)
    | once =>
        exact h.other (timer_setTimer_ne htu { s.timer u with enabled := false } _) id
          (.inr ⟨_, rfl, hne⟩)
    | again expireTime =>
        exact h.other (timer_setTimer_ne htu { s.timer u with expireTime := expireTime } _) id
          (.inr ⟨_, rfl, hne⟩)

/-- A whole pass. -/
theorem OnSchedule.pass (hclock : Steady clock) (hrange : InRange clock longest)
    (hfits : Fits longest s) (h : OnSchedule t s) (hs : s.Sound ns) {r : Nat × Timers}
    (hr : s.pass clock = some r) : OnSchedule t r.2 := by
  obtain ⟨s₀, ns', -, hsound, -, hs₀, hpass⟩ := hs.pass clock
  rw [hpass, Option.some.injEq] at hr
  subst hr
  have hstart : OnSchedule t s₀ := h.other (by rw [hs₀]) (by rw [hs₀]; exact id)
    (.inl (by rw [hs₀]))
  have hfits₀ : Fits longest s₀ := by
    rw [hs₀]
    exact hfits
  refine visit_rule (I := fun rest (r : Nat × Timers) =>
      (∀ u ∈ rest, u ∈ r.2.live) ∧ Fits longest r.2 ∧ OnSchedule t r.2)
    (Q := fun (r : Nat × Timers) => OnSchedule t r.2) ?_ ?_ ?_ ⟨hsound.live, hfits₀, hstart⟩
  · rintro u rest ⟨count, s⟩ ⟨hlive, hfits, hsched⟩ hgo
    simp only [scanBody] at hgo ⊢
    split at hgo
    · contradiction
    · next hcount =>
        rw [if_neg hcount]
        refine ⟨fun v hv => ?_, hfits.checkExpired hrange u,
          hsched.checkExpired hclock hrange hfits (hlive u List.mem_cons_self)⟩
        show v ∈ (s.checkExpired clock u).2.live
        rw [live_checkExpired]
        exact hlive v (List.mem_cons_of_mem u hv)
  · rintro u rest ⟨count, s⟩ ⟨-, -, hsched⟩ hleave
    simp only [scanBody] at hleave ⊢
    split at hleave
    · next hcount => rwa [if_pos hcount]
    · contradiction
  · exact fun _ h => h.2.2

/-- Any step. -/
theorem OnSchedule.step (hclock : Steady clock) (hrange : InRange clock longest)
    (hfits : Fits longest s) (h : OnSchedule t s) (hs : s.Sound ns) {c : Choice}
    (hstep : s.stepWithin clock longest c = some s') : OnSchedule t s' := by
  obtain ⟨hc, hstep⟩ := step_of_stepWithin hstep
  unfold Timers.step at hstep
  split at hstep
  · cases c with
    | construct u => exact Option.some.inj hstep ▸ h.construct u
    | destroy u => exact h.destroy hstep
    | start u timeout once =>
        simp only [Timers.start] at hstep
        split at hstep
        · exact Option.some.inj hstep ▸ h
        · next hpos =>
            obtain ⟨found, -, rfl⟩ := Option.map_eq_some_iff.mp hstep
            exact h.arm hrange u (not_le.mp hpos) hc once found
    | stop u => exact Option.some.inj hstep ▸ h.stop u
    | pass =>
        obtain ⟨r, hr, rfl⟩ := Option.map_eq_some_iff.mp hstep
        exact h.pass hclock hrange hfits hs hr
  · contradiction

/-- **A timer never expires early.**  Whatever threads construct, start, stop,
destroy and service timers, and however their steps interleave, as long as the
times at which the timeouts have passed can be counted: the `k`-th expiration
after a start comes `k` timeouts after it, or later; a one-shot timer expires
once at most; and a timer that was stopped or destroyed expires no more until it
is started again.  A timer expires when its callbacks are captured; they are
made later, outside the lock. -/
theorem timer_on_schedule (hclock : Steady clock) (hrange : InRange clock longest)
    (h : Runs (stepWithin clock longest) {} s) (t : Nat) :
    (Schedule.next t).scan .idle s.log ≠ none := by
  have hinv : ((∃ ns, s.Sound ns) ∧ Fits longest s) ∧ OnSchedule t s := by
    refine h.invariant
      (I := fun s => ((∃ ns, s.Sound ns) ∧ Fits longest s) ∧ OnSchedule t s) ?_
      ⟨⟨⟨[], sound_start⟩, fits_start longest⟩, .idle, rfl, fun _ => rfl⟩
    rintro s c s' ⟨⟨⟨ns, hs⟩, hfits⟩, hsched⟩ hstep
    exact ⟨fits_runs hrange hs hfits ⟨[c], by
        rw [exec_cons, hstep, Option.bind_some, exec_nil]⟩,
      hsched.step hclock hrange hfits hs hstep⟩
  obtain ⟨-, schedule, hscan, -⟩ := hinv
  rw [hscan]
  nofun

/-- A clock that goes two ticks from one reading to the next, up to 100. -/
def coarse (i : Nat) : Int := min (2 * i) 100

/-- Two timers are started; one expires late, the other is stopped in time. -/
def oneLate : List Choice :=
  [.construct 1, .construct 2, .start 1 3 false, .start 2 4 true, .pass, .stop 2, .pass,
    .destroy 2, .pass]

theorem timer_on_schedule_late :
    let s := (exec (stepWithin coarse 10) {} oneLate).getD {}
    .expired 1 6 ∈ s.log ∧ (Schedule.next 1).scan .idle s.log ≠ none := by
  have hclock : Steady coarse := by
    intro i j hij
    unfold coarse
    omega
  have hrange : InRange coarse 10 := by
    constructor <;> intro i <;> simp only [coarse, minCount, maxCount] <;> omega
  exact ⟨by decide, timer_on_schedule hclock hrange ⟨oneLate, rfl⟩ 1⟩

end Schedule

/-! ## Never skipped -/

/-- The timer that an event says has expired. -/
def expiration : TimerEvent → Option Nat
  | .expired t _ => some t
  | _ => none

/-- The timers that have expired, in order. -/
def expirations (log : List TimerEvent) : List Nat := log.filterMap expiration

/-- The timer will expire when it is come to. -/
def Due (now : Int) (s : Timers) (t : Nat) : Prop :=
  t ∈ s.live ∧ (s.timer t).enabled = true ∧ (s.timer t).expireTime ≤ now

/-- A periodic timer lags when it will still be due after it has expired once. -/
def Lags (now : Int) (s : Timers) (t : Nat) : Prop :=
  (s.timer t).once = false ∧ (s.timer t).expireTime + (s.timer t).timeout ≤ now

instance (now : Int) (s : Timers) (t : Nat) : Decidable (s.Due now t) :=
  inferInstanceAs (Decidable (_ ∧ _ ∧ _))

instance (now : Int) (s : Timers) (t : Nat) : Decidable (s.Lags now t) :=
  inferInstanceAs (Decidable (_ ∧ _))

/-- How often the timer may expire while the clock stands still. -/
def charge (now : Int) (s : Timers) (t : Nat) : Nat :=
  if s.Due now t then (if s.Lags now t then 2 else 1) else 0

/-- What may become of the timers while the clock stands still, and what
happens to them in the meantime. -/
structure Elapses (now : Int) (s s' : Timers) (events : List TimerEvent) : Prop where
  reads : s.reads ≤ s'.reads
  log : s'.log = s.log ++ events
  spent : ∀ t, (expirations events).count t + s'.charge now t ≤ s.charge now t
  due : ∀ t, s.Due now t → s'.Due now t ∨ ∃ e ∈ events, e.timer = t

section Elapses

variable {clock : Nat → Int} {longest now : Int} {s s' s'' : Timers} {t u : Nat} {ns : List Nat}
  {e : TimerEvent} {events events' : List TimerEvent}

@[simp] theorem expirations_append (log log' : List TimerEvent) :
    expirations (log ++ log') = expirations log ++ expirations log' := List.filterMap_append ..

/-- A timer that is not due does not expire. -/
theorem charge_of_not_due (h : ¬s.Due now t) : s.charge now t = 0 := if_neg h

/-- One that lags may expire twice. -/
theorem charge_of_lags (h : s.Due now t) (hlags : s.Lags now t) : s.charge now t = 2 := by
  rw [charge, if_pos h, if_pos hlags]

/-- One that is due, but does not lag, expires once. -/
theorem charge_of_not_lags (h : s.Due now t) (hlags : ¬s.Lags now t) : s.charge now t = 1 := by
  rw [charge, if_pos h, if_neg hlags]

/-- No timer expires more than twice. -/
theorem charge_le (now : Int) (s : Timers) (t : Nat) : s.charge now t ≤ 2 := by
  unfold charge
  split <;> [split; skip] <;> omega

/-- Only one that lags expires more than once. -/
theorem charge_le_one (h : ¬s.Lags now t) : s.charge now t ≤ 1 := by
  unfold charge
  rw [if_neg h]
  split <;> omega

/-- Other timers are of no account. -/
theorem charge_congr (htimer : s'.timer t = s.timer t) (hlive : t ∈ s'.live ↔ t ∈ s.live) :
    s'.charge now t = s.charge now t := by
  have hdue : s'.Due now t ↔ s.Due now t := by simp only [Due, htimer, hlive]
  have hlags : s'.Lags now t ↔ s.Lags now t := by simp only [Lags, htimer]
  simp only [charge, hdue, hlags]

/-- Nothing has happened. -/
theorem Elapses.refl (now : Int) (s : Timers) : Elapses now s s [] where
  reads := le_rfl
  log := (List.append_nil _).symm
  spent t := by simp [expirations]
  due t ht := .inl ht

/-- One thing after another. -/
theorem Elapses.trans (h : Elapses now s s' events) (h' : Elapses now s' s'' events') :
    Elapses now s s'' (events ++ events') where
  reads := h.reads.trans h'.reads
  log := by rw [h'.log, h.log, List.append_assoc]
  spent t := by
    have hfirst := h.spent t
    have hsecond := h'.spent t
    rw [expirations_append, List.count_append]
    omega
  due t ht := by
    obtain hdue | ⟨e, he, htimer⟩ := h.due t ht
    · obtain hdue | ⟨e, he, htimer⟩ := h'.due t hdue
      · exact .inl hdue
      · exact .inr ⟨e, List.mem_append_right _ he, htimer⟩
    · exact .inr ⟨e, List.mem_append_left _ he, htimer⟩

/-- A step that no timer sees. -/
theorem elapses_silent (hreads : s.reads ≤ s'.reads) (hlog : s'.log = s.log)
    (htimer : s'.timer = s.timer) (hlive : s'.live = s.live) : Elapses now s s' [] where
  reads := hreads
  log := by rw [hlog, List.append_nil]
  spent t := by
    have hcharge : s'.charge now t = s.charge now t :=
      charge_congr (by rw [htimer]) (by rw [hlive])
    simp [expirations, hcharge]
  due t ht := by
    refine .inl ?_
    rw [Due, htimer, hlive]
    exact ht

/-- A step that one timer sees. -/
theorem elapses_one (hreads : s.reads ≤ s'.reads) (hlog : s'.log = s.log ++ [e])
    (htimer : ∀ u, u ≠ e.timer → s'.timer u = s.timer u)
    (hlive : ∀ u, u ≠ e.timer → (u ∈ s'.live ↔ u ∈ s.live))
    (hspent : (expirations [e]).length + s'.charge now e.timer ≤ s.charge now e.timer) :
    Elapses now s s' [e] where
  reads := hreads
  log := hlog
  spent t := by
    by_cases ht : t = e.timer
    · subst ht
      exact (Nat.add_le_add_right List.count_le_length _).trans hspent
    · rw [charge_congr (htimer t ht) (hlive t ht)]
      have hnot : t ∉ expirations [e] := by
        cases e <;> simp_all [expirations, expiration, TimerEvent.timer]
      simp [List.count_eq_zero_of_not_mem hnot]
  due t ht := by
    by_cases hte : t = e.timer
    · exact .inr ⟨e, List.mem_cons_self, hte.symm⟩
    · refine .inl ?_
      rw [Due, htimer t hte, hlive t hte]
      exact ht

/-- A step after which one timer is not due. -/
theorem elapses_rest (hreads : s.reads ≤ s'.reads) (hlog : s'.log = s.log ++ [e])
    (htimer : ∀ u, u ≠ e.timer → s'.timer u = s.timer u)
    (hlive : ∀ u, u ≠ e.timer → (u ∈ s'.live ↔ u ∈ s.live)) (he : expiration e = none)
    (hrest : ¬s'.Due now e.timer) : Elapses now s s' [e] := by
  refine elapses_one hreads hlog htimer hlive ?_
  rw [charge_of_not_due hrest]
  simp [expirations, he]

/-- A timer that is constructed is not due. -/
theorem elapses_construct (now : Int) (s : Timers) (t : Nat) :
    Elapses now s (s.construct t) [.constructed t] := by
  refine elapses_rest le_rfl rfl (fun u hu => timer_setTimer_ne hu {} s)
    (fun u hu => ?_) rfl fun hdue => ?_
  · exact Finset.mem_insert.trans (or_iff_right hu)
  · have hself : ((s.construct t).timer t).enabled = false :=
      congrArg Timer.enabled (timer_setTimer_self t {} s)
    exact absurd hdue.2.1 (by rw [TimerEvent.timer, hself]; nofun)

/-- A timer that is destroyed is not due any more. -/
theorem elapses_destroy (now : Int) (hs' : s.destroy t = some s') :
    Elapses now s s' [.destroyed t] := by
  obtain ⟨links, -, rfl⟩ := Option.map_eq_some_iff.mp hs'
  refine elapses_rest le_rfl rfl (fun u _ => rfl) (fun u hu => ?_) rfl fun hdue => ?_
  · exact ⟨Finset.mem_of_mem_erase, fun hlive => Finset.mem_erase.mpr ⟨hu, hlive⟩⟩
  · exact Finset.notMem_erase t s.live hdue.1

/-- A timer that is started is not due yet. -/
theorem elapses_arm (hrange : InRange clock longest) (hclock : ∀ i, s.reads ≤ i → clock i = now)
    (t : Nat) {timeout : Int} (hpos : 0 < timeout) (htimeout : timeout ≤ longest)
    (once found : Bool) :
    Elapses now s (s.arm clock t timeout once found)
      [.started t (clock s.reads) timeout once] := by
  refine elapses_rest (Nat.le_succ _) rfl (fun u hu => timer_arm_ne hu timeout once found s)
    (fun u _ => Iff.rfl) rfl fun hdue => ?_
  have hle := hdue.2.2
  rw [TimerEvent.timer, timer_arm_self, hrange.first hpos htimeout, hclock s.reads le_rfl] at hle
  dsimp only at hle
  omega

/-- Nor is one that is stopped. -/
theorem elapses_stop (now : Int) (s : Timers) (t : Nat) :
    Elapses now s (s.stop t) [.stopped t] := by
  refine elapses_rest le_rfl rfl
    (fun u hu => timer_setTimer_ne hu { s.timer t with enabled := false } s)
    (fun u _ => Iff.rfl) rfl fun hdue => ?_
  have hself : ((s.stop t).timer t).enabled = false :=
    congrArg Timer.enabled (timer_setTimer_self t { s.timer t with enabled := false } s)
  exact absurd hdue.2.1 (by rw [TimerEvent.timer, hself]; nofun)

/-- `CheckExpired` is true of a timer that is due, and of no other; each time it
uses up one of the expirations the timer has left. -/
theorem elapses_checkExpired (hrange : InRange clock longest)
    (hclock : ∀ i, s.reads ≤ i → clock i = now) (hfits : Fits longest s) (ht : t ∈ s.live) :
    ((s.checkExpired clock t).1 = true ∧
      Elapses now s (s.checkExpired clock t).2 [.expired t now]) ∨
    ((s.checkExpired clock t).1 = false ∧ ¬s.Due now t ∧
      Elapses now s (s.checkExpired clock t).2 []) := by
  have hnow : clock s.reads = now := hclock s.reads le_rfl
  have hchecked := checkExpired_cases clock t s
  generalize s.checkExpired clock t = r at hchecked ⊢
  cases hchecked with
  | rest reads hreads hrest =>
      refine .inr ⟨rfl, fun hdue => ?_, elapses_silent hreads rfl rfl rfl⟩
      have hlt := hrest hdue.2.1
      have hle := hdue.2.2
      omega
  | once henabled hdue honce =>
      rw [hnow] at hdue ⊢
      refine .inl ⟨rfl, elapses_one (Nat.le_succ _) rfl
        (fun u hu => timer_setTimer_ne hu { s.timer t with enabled := false } _)
        (fun u _ => Iff.rfl) ?_⟩
      have hlags : ¬s.Lags now t := fun h => by simp [Lags, honce] at h
      rw [charge_of_not_due, TimerEvent.timer, charge_of_not_lags ⟨ht, henabled, hdue⟩ hlags]
      · rfl
      · rintro ⟨-, he, -⟩
        have hself := congrArg Timer.enabled
          (timer_setTimer_self t { s.timer t with enabled := false } (s.note (.expired t now)))
        exact absurd (hself.symm.trans he) nofun
  | again expireTime reads henabled hdue honce hreads hnext =>
      rw [hfits.next hrange henabled hdue] at hnext
      rw [hnow] at hdue ⊢
      rw [hclock _ (by omega : s.reads ≤ s.reads + 1),
        hclock _ (by omega : s.reads ≤ s.reads + 2)] at hnext
      have hpos := (hfits t henabled).1
      have hself := timer_setTimer_self t { s.timer t with expireTime := expireTime }
        (s.note (.expired t now))
      refine .inl ⟨rfl, elapses_one hreads rfl
        (fun u hu => timer_setTimer_ne hu { s.timer t with expireTime := expireTime } _)
        (fun u _ => Iff.rfl) ?_⟩
      rw [TimerEvent.timer]
      by_cases hlags : s.Lags now t
      · -- it is due once more, and then a timeout later
        have hexpire : expireTime = now := by
          obtain ⟨hnext, hle⟩ | ⟨hnext, -⟩ := hnext
          · have hbehind := hlags.2
            omega
          · exact hnext
        rw [charge_of_lags ⟨ht, henabled, hdue⟩ hlags]
        refine Nat.add_le_add_left (charge_le_one fun hagain => ?_) 1
        have hle := hagain.2
        rw [hself] at hle
        dsimp only at hle
        omega
      · have hahead : now < (s.timer t).expireTime + (s.timer t).timeout := by
          by_contra hle
          exact hlags ⟨honce, not_lt.mp hle⟩
        rw [charge_of_not_lags ⟨ht, henabled, hdue⟩ hlags, charge_of_not_due]
        · rfl
        · rintro ⟨-, -, hle⟩
          rw [hself] at hle
          dsimp only at hle
          omega

/-- What the scan of the list has done so far; `rest` are the timers it has not
come to. -/
structure Scanned (longest now : Int) (s : Timers) (ns rest : List Nat) (r : Nat × Timers)
    (events : List TimerEvent) : Prop where
  sound : r.2.Sound ns
  fits : Fits longest r.2
  live : ∀ t ∈ rest, t ∈ r.2.live
  elapses : Elapses now s r.2 events
  expired : ∀ e ∈ events, ∃ t, e = .expired t now
  count : events.length = r.1
  le : r.1 ≤ maxTimerExpired
  done : ∀ t ∈ ns, t ∉ rest → s.Due now t → ∃ e ∈ events, e.timer = t

/-- One more timer of the list is checked. -/
theorem Scanned.scanBody {rest : List Nat} {r : Nat × Timers} (hrange : InRange clock longest)
    (hclock : ∀ i, s.reads ≤ i → clock i = now)
    (h : Scanned longest now s ns (t :: rest) r events)
    (hgo : (Timers.scanBody clock t r).2 = true) :
    ∃ events', Scanned longest now s ns rest (Timers.scanBody clock t r).1 events' := by
  obtain ⟨count, s₁⟩ := r
  simp only [Timers.scanBody] at hgo ⊢
  split at hgo
  · contradiction
  next hcount =>
  rw [if_neg hcount]
  have hlive : ∀ u ∈ rest, u ∈ (s₁.checkExpired clock t).2.live := by
    intro u hu
    rw [live_checkExpired]
    exact h.live u (List.mem_cons_of_mem t hu)
  have hsound := h.sound.checkExpired clock t
  have hfits := h.fits.checkExpired hrange t
  obtain ⟨htrue, helapses⟩ | ⟨hfalse, hrest, helapses⟩ := elapses_checkExpired hrange
    (fun i hi => hclock i (h.elapses.reads.trans hi)) h.fits (h.live t List.mem_cons_self)
  · refine ⟨events ++ [.expired t now], hsound, hfits, hlive, h.elapses.trans helapses, ?_, ?_, ?_,
      ?_⟩
    · intro e he
      obtain he | he := List.mem_append.mp he
      · exact h.expired e he
      · exact ⟨t, List.mem_singleton.mp he⟩
    · simp [htrue, h.count]
    · simp only [htrue, if_true]
      omega
    · intro u hu hnot hdue
      by_cases hut : u = t
      · exact ⟨_, List.mem_append_right _ List.mem_cons_self, hut.symm⟩
      · obtain ⟨e, he, htimer⟩ := h.done u hu (by simp [hut, hnot]) hdue
        exact ⟨e, List.mem_append_left _ he, htimer⟩
  · have hmore := h.elapses.trans helapses
    rw [List.append_nil] at hmore
    refine ⟨events, hsound, hfits, hlive, hmore, h.expired, ?_, ?_, ?_⟩
    · simp [hfalse, h.count]
    · simpa [hfalse] using h.le
    · intro u hu hnot hdue
      by_cases hut : u = t
      · subst hut
        exact (h.elapses.due u hdue).resolve_left hrest
      · exact h.done u hu (by simp [hut, hnot]) hdue

/-- A pass captures at most `MAX_TIMER_EXPIRED` timers, and where it captures
fewer, every timer that was due. -/
theorem elapses_pass (hrange : InRange clock longest) (hclock : ∀ i, s.reads ≤ i → clock i = now)
    (hs : s.Sound ns) (hfits : Fits longest s) :
    ∃ count s' events, s.pass clock = some (count, s') ∧ Elapses now s s' events ∧
      (∀ e ∈ events, ∃ t, e = .expired t now) ∧ events.length = count ∧
      count ≤ maxTimerExpired ∧
      (count ≠ maxTimerExpired → ∀ t, s.Due now t → ∃ e ∈ events, e.timer = t) := by
  obtain ⟨s₀, ns', -, hsound, -, hs₀, hpass⟩ := hs.pass clock
  have hsweep : Elapses now s s₀ [] := by
    rw [hs₀]
    exact elapses_silent le_rfl rfl rfl rfl
  have hclock₀ : ∀ i, s₀.reads ≤ i → clock i = now := fun i hi => hclock i (hsweep.reads.trans hi)
  have hfits₀ : Fits longest s₀ := by
    rw [hs₀]
    exact hfits
  have hscan : ∃ events rest,
      Scanned longest now s₀ ns' rest (visit (scanBody clock) ns' (0, s₀)) events ∧
      ((visit (scanBody clock) ns' (0, s₀)).1 ≠ maxTimerExpired → rest = []) := by
    refine visit_rule (I := fun rest r => ∃ events, Scanned longest now s₀ ns' rest r events)
      (Q := fun r => ∃ events rest, Scanned longest now s₀ ns' rest r events ∧
        (r.1 ≠ maxTimerExpired → rest = [])) ?_ ?_ ?_ ?_
    · rintro t rest r ⟨events, hr⟩ hgo
      exact hr.scanBody hrange hclock₀ hgo
    · rintro t rest ⟨count, s₁⟩ ⟨events, hr⟩ hleave
      simp only [scanBody] at hleave ⊢
      split at hleave
      · next hcount =>
          rw [if_pos hcount]
          refine ⟨events, t :: rest, hr, fun hne => ?_⟩
          have hle := hr.le
          exact absurd (le_antisymm hle hcount) hne
      · contradiction
    · rintro r ⟨events, hr⟩
      exact ⟨events, [], hr, fun _ => rfl⟩
    · exact ⟨[], hsound, hfits₀, hsound.live, .refl now s₀, nofun, rfl, Nat.zero_le _,
        fun t ht hnot => absurd ht hnot⟩
  obtain ⟨events, rest, hr, hend⟩ := hscan
  refine ⟨_, _, events, hpass, ?_, hr.expired, hr.count, hr.le, fun hne t hdue => ?_⟩
  · simpa using hsweep.trans hr.elapses
  · have hdue₀ : s₀.Due now t := by
      rw [hs₀]
      exact hdue
    have hlisted := hsound.listed t hdue₀.1 hdue₀.2.1
    exact hr.done t hlisted (by simp [hend hne]) hdue₀

/-- Whatever another thread does. -/
theorem elapses_step (hrange : InRange clock longest) (hclock : ∀ i, s.reads ≤ i → clock i = now)
    (hs : s.Sound ns) (hfits : Fits longest s) {c : Choice}
    (hstep : s.stepWithin clock longest c = some s') : ∃ events, Elapses now s s' events := by
  obtain ⟨hc, hstep⟩ := step_of_stepWithin hstep
  unfold Timers.step at hstep
  split at hstep
  · cases c with
    | construct t => exact ⟨_, Option.some.inj hstep ▸ elapses_construct now s t⟩
    | destroy t => exact ⟨_, elapses_destroy now hstep⟩
    | start t timeout once =>
        simp only [Timers.start] at hstep
        split at hstep
        · exact ⟨[], Option.some.inj hstep ▸ Elapses.refl now s⟩
        · next hpos =>
            obtain ⟨found, -, rfl⟩ := Option.map_eq_some_iff.mp hstep
            exact ⟨_, elapses_arm hrange hclock t (not_le.mp hpos) hc once found⟩
    | stop t => exact ⟨_, Option.some.inj hstep ▸ elapses_stop now s t⟩
    | pass =>
        obtain ⟨r, hr, rfl⟩ := Option.map_eq_some_iff.mp hstep
        obtain ⟨count, s₁, events, hpass, helapses, -⟩ := elapses_pass hrange hclock hs hfits
        rw [hpass, Option.some.injEq] at hr
        exact ⟨events, hr ▸ helapses⟩
  · contradiction

/-- Whatever other threads do. -/
theorem elapses_runs (hrange : InRange clock longest) (hclock : ∀ i, s.reads ≤ i → clock i = now)
    (hs : s.Sound ns) (hfits : Fits longest s) (h : Runs (stepWithin clock longest) s s') :
    ∃ events, Elapses now s s' events := by
  have hinv : ((∃ ns, s'.Sound ns) ∧ Fits longest s') ∧ ∃ events, Elapses now s s' events := by
    refine h.invariant (I := fun s' => ((∃ ns, s'.Sound ns) ∧ Fits longest s') ∧
      ∃ events, Elapses now s s' events) ?_ ⟨⟨⟨ns, hs⟩, hfits⟩, [], .refl now s⟩
    rintro s₁ c s₂ ⟨⟨⟨ns, hs₁⟩, hfits₁⟩, events, helapses⟩ hstep
    obtain ⟨events', hmore⟩ :=
      elapses_step hrange (fun i hi => hclock i (helapses.reads.trans hi)) hs₁ hfits₁ hstep
    exact ⟨fits_runs hrange hs₁ hfits₁ ⟨[c], by
        rw [exec_cons, hstep, Option.bind_some, exec_nil]⟩,
      _, helapses.trans hmore⟩
  exact hinv.2

/-- While the clock stands still, no more expires than two times each timer. -/
theorem Elapses.length_le (h : Elapses now s s' events) :
    (expirations events).length ≤ 2 * s.live.card := by
  have hspent : ∀ t, (expirations events).count t ≤ s.charge now t :=
    fun t => (Nat.le_add_right _ _).trans (h.spent t)
  have hlive : (expirations events).toFinset ⊆ s.live := by
    intro t ht
    by_contra hnot
    have hzero := hspent t
    rw [charge_of_not_due fun hdue => hnot hdue.1] at hzero
    have hpos := List.count_pos_iff.mpr (List.mem_toFinset.mp ht)
    omega
  calc (expirations events).length
      = ∑ t ∈ (expirations events).toFinset, (expirations events).count t :=
        (List.sum_toFinset_count_eq_length _).symm
    _ ≤ ∑ t ∈ (expirations events).toFinset, 2 :=
        Finset.sum_le_sum fun t _ => (hspent t).trans (charge_le now s t)
    _ = 2 * (expirations events).toFinset.card := by
        rw [Finset.sum_const_nat fun _ _ => rfl, Nat.mul_comm]
    _ ≤ 2 * s.live.card := Nat.mul_le_mul_left 2 (Finset.card_le_card hlive)

/-- A list of expirations is as long as what it lists. -/
theorem expirations_of_expired (h : ∀ e ∈ events, ∃ t, e = .expired t now) :
    (expirations events).length = events.length := by
  induction events with
  | nil => rfl
  | cons e events ih =>
      obtain ⟨t, rfl⟩ := h e List.mem_cons_self
      have hrest := ih fun e he => h e (List.mem_cons_of_mem _ he)
      simp only [expirations, List.filterMap_cons, expiration, List.length_cons] at hrest ⊢
      rw [hrest]

/-- The loop of `ProcessTimers`, from some pass on. -/
theorem processTimers_from (hrange : InRange clock longest)
    (hclock : ∀ i, s.reads ≤ i → clock i = now) {env : Timers → Timers}
    (henv : ∀ s, Runs (stepWithin clock longest) s (env s)) {fuel : Nat}
    (h : Elapses now s s' events) (hs' : s'.Sound ns) (hfits : Fits longest s')
    (hfuel : 2 * s.live.card < maxTimerExpired * fuel + (expirations events).length) :
    ∃ s'' events', s'.processTimers clock env fuel = some s'' ∧ Elapses now s s'' events' ∧
      ∀ t, s.Due now t → ∃ e ∈ events', e.timer = t := by
  induction fuel generalizing s' ns events with
  | zero =>
      have hle := h.length_le
      omega
  | succ fuel ih =>
      have hclock' : ∀ i, s'.reads ≤ i → clock i = now := fun i hi => hclock i (h.reads.trans hi)
      obtain ⟨count, s₁, events₁, hpass, hpassed, hexpired, hcount, hle, hall⟩ :=
        elapses_pass hrange hclock' hs' hfits
      have hstep : Runs (stepWithin clock longest) s' s₁ :=
        ⟨[.pass], by simp [exec_cons, stepWithin, Choice.Within, Timers.step, Allowed, hpass]⟩
      obtain ⟨⟨ns₁, hs₁⟩, hfits₁⟩ := fits_runs hrange hs' hfits hstep
      have hclock₁ : ∀ i, s₁.reads ≤ i → clock i = now :=
        fun i hi => hclock' i (hpassed.reads.trans hi)
      obtain ⟨events₂, hmeanwhile⟩ := elapses_runs hrange hclock₁ hs₁ hfits₁ (henv s₁)
      obtain ⟨⟨ns₂, hs₂⟩, hfits₂⟩ := fits_runs hrange hs₁ hfits₁ (henv s₁)
      have hthis := (h.trans hpassed).trans hmeanwhile
      simp only [processTimers, hpass, Option.bind_some]
      by_cases hfull : count = maxTimerExpired
      · rw [if_pos hfull]
        refine ih hthis hs₂ hfits₂ ?_
        simp only [expirations_append, List.length_append, expirations_of_expired hexpired]
        rw [Nat.mul_succ] at hfuel
        omega
      · rw [if_neg hfull]
        refine ⟨_, _, rfl, hthis, fun t hdue => ?_⟩
        obtain hdue' | ⟨e, he, htimer⟩ := h.due t hdue
        · obtain ⟨e, he, htimer⟩ := hall hfull t hdue'
          exact ⟨e, by simp [he], htimer⟩
        · exact ⟨e, by simp [he], htimer⟩

/-- **`ProcessTimers` returns, and skips no timer.**  While the clock stands
still, whatever the callbacks and the other threads do in the meantime, as long
as the times at which the timeouts have passed can be counted: a call makes at
most one pass for every eight timers, and one more; no timer that is not due
when it begins expires before it returns, a timer that is due expires twice only
where it lags, and every timer that is due has expired, unless somebody starts,
stops or destroys it first. -/
theorem process_timers_drains (hrange : InRange clock longest)
    (hs : Runs (stepWithin clock longest) {} s) (hclock : ∀ i, s.reads ≤ i → clock i = now)
    (env : Timers → Timers) (henv : ∀ s, Runs (stepWithin clock longest) s (env s)) :
    ∃ s' events, s.processTimers clock env (s.live.card / 8 + 1) = some s' ∧
      s'.log = s.log ++ events ∧
      (∀ t, ¬s.Due now t → t ∉ expirations events) ∧
      (∀ t, (expirations events).count t ≤ if s.Lags now t then 2 else 1) ∧
      (∀ t, s.Due now t → (∀ e ∈ events, e.timer = t → (expiration e).isSome) →
        t ∈ expirations events) := by
  obtain ⟨⟨ns, hsound⟩, hfits⟩ := fits_runs hrange sound_start (fits_start longest) hs
  have hfuel : 2 * s.live.card < maxTimerExpired * (s.live.card / 8 + 1) +
      (expirations []).length := by
    simp only [maxTimerExpired]
    omega
  obtain ⟨s', events, hrun, h, hall⟩ :=
    processTimers_from hrange hclock henv (.refl now s) hsound hfits hfuel
  have hspent : ∀ t, (expirations events).count t ≤ s.charge now t :=
    fun t => (Nat.le_add_right _ _).trans (h.spent t)
  refine ⟨s', events, hrun, h.log, fun t hdue hmem => ?_, fun t => ?_, fun t hdue honly => ?_⟩
  · have hzero := hspent t
    rw [charge_of_not_due hdue] at hzero
    have hpos := List.count_pos_iff.mpr hmem
    omega
  · refine (hspent t).trans ?_
    split
    · exact charge_le now s t
    · next hlags => exact charge_le_one hlags
  · obtain ⟨e, he, htimer⟩ := hall t hdue
    have hexpired := honly e he htimer
    refine List.mem_filterMap.mpr ⟨e, he, ?_⟩
    cases e with
    | expired u now' => exact congrArg some htimer
    | _ => simp [expiration] at hexpired

/-- The clock jumps from 0 to 7 after two readings. -/
def jump (i : Nat) : Int := if i < 2 then 0 else 7

/-- A periodic timer and a one-shot timer. -/
def twoStarted : List Choice :=
  [.construct 1, .construct 2, .start 1 3 false, .start 2 5 true]

/-- A callback that stops the second timer. -/
def stopSecond (s : Timers) : Timers := (s.stepWithin jump 5 (.stop 2)).getD s

theorem process_timers_drains_two :
    let s := (exec (stepWithin jump 5) {} twoStarted).getD {}
    s.Due 7 1 ∧ s.Lags 7 1 ∧ s.Due 7 2 ∧
      ∃ s' events, s.processTimers jump stopSecond (s.live.card / 8 + 1) = some s' ∧
        s'.log = s.log ++ events ∧
        (∀ t, ¬s.Due 7 t → t ∉ expirations events) ∧
        (∀ t, (expirations events).count t ≤ if s.Lags 7 t then 2 else 1) ∧
        (∀ t, s.Due 7 t → (∀ e ∈ events, e.timer = t → (expiration e).isSome) →
          t ∈ expirations events) := by
  have hrange : InRange jump 5 := by
    constructor <;> intro i <;> simp only [jump, minCount, maxCount] <;> split <;> omega
  refine ⟨by decide, by decide, by decide,
    process_timers_drains hrange ⟨twoStarted, rfl⟩ ?_ _ ?_⟩
  · intro i hi
    have hreads : 2 ≤ i := hi
    exact if_neg (by omega)
  · intro s
    cases hstep : s.stepWithin jump 5 (.stop 2) with
    | none => exact ⟨[], by simp [stopSecond, hstep]⟩
    | some s' => exact ⟨[.stop 2], by simp [stopSecond, exec_cons, hstep]⟩

end Elapses

end Timers

end ActiveFsm
