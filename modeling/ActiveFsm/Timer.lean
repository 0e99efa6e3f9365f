import ActiveFsm.Linked
import ActiveFsm.Transition
import Mathlib.Data.Finset.Card

/-!
# ActiveFsm.Timer

The timers: the list that they are linked into by their own `m_next`, and
`Start`, `Stop` and `ProcessTimers`, which read the clock and change both under
one lock.  Every step is what one thread does while it has the lock, so the
steps of any number of threads, and of the callbacks that `ProcessTimers` makes
without it, are some interleaving.

The clock is the sequence of its readings, which a step takes as many of as the
code calls `GetNow`.
-/

namespace ActiveFsm

open Transition Linked

/-- `dmq::MAX_TIMER_EXPIRED`. -/
def maxTimerExpired : Nat := 16

/-! ## Times -/

/-- The least count of ticks: `dmq::Duration` and `dmq::TimePoint` count them in
64 bits. -/
def minCount : Int := -9223372036854775808

def maxCount : Int := 9223372036854775807

/-- A sum of two counts.  Where it does not fit it wraps around, as it does on
the targets of the library; the language leaves it undefined. -/
def wrapCount (x : Int) : Int :=
  (x + 9223372036854775808) % 18446744073709551616 - 9223372036854775808

/-- A sum that fits is not changed. -/
theorem wrapCount_eq {x : Int} (hmin : minCount ≤ x) (hmax : x ≤ maxCount) : wrapCount x = x := by
  unfold minCount at hmin
  unfold maxCount at hmax
  unfold wrapCount
  omega

/-- A wrapped count is a count. -/
theorem minCount_le_wrapCount (x : Int) : minCount ≤ wrapCount x := by
  unfold minCount wrapCount
  omega

/-! ## The timers -/

/-- A `Timer`, without `m_next`. -/
structure Timer where
  timeout : Int := 0
  expireTime : Int := 0
  enabled : Bool := false
  once : Bool := false
  deriving DecidableEq, Repr

/-- What happened to a timer. -/
inductive TimerEvent where
  | constructed (t : Nat)
  | destroyed (t : Nat)
  | started (t : Nat) (now timeout : Int) (once : Bool)
  | stopped (t : Nat)
  /-- `CheckExpired` found it due, and its callbacks were captured. -/
  | expired (t : Nat) (now : Int)
  deriving DecidableEq, Repr

/-- The timer an event is about. -/
def TimerEvent.timer : TimerEvent → Nat
  | constructed t => t
  | destroyed t => t
  | started t _ _ _ => t
  | stopped t => t
  | expired t _ => t

/-- The static members of `Timer`, and the timers.  `live` are those whose
constructor has run and whose destructor has not, `reads` the number of
readings of the clock so far, and `log` what happened. -/
structure Timers where
  links : Links Nat := {}
  timer : Nat → Timer := fun _ => {}
  live : Finset Nat := ∅
  timerStopped : Bool := false
  reads : Nat := 0
  log : List TimerEvent := []

namespace Timers

/-! ## Steps -/

section Steps

variable (clock : Nat → Int)

def setTimer (t : Nat) (timer : Timer) (s : Timers) : Timers :=
  { s with timer := Function.update s.timer t timer }

def note (e : TimerEvent) (s : Timers) : Timers := { s with log := s.log ++ [e] }

/-- `Timer::Timer`; the members have their initial values. -/
def construct (t : Nat) (s : Timers) : Timers :=
  { s.setTimer t {} with
    links := s.links.write (.next t) none
    live := insert t s.live }.note (.constructed t)

/-- `Timer::~Timer`. -/
def destroy (t : Nat) (s : Timers) : Option Timers :=
  (s.links.unlink t s.live.card .head).map fun links =>
    { s with links := links, live := s.live.erase t }.note (.destroyed t)

/-- Whether `Start` finds the timer in the list. -/
def contains (t : Nat) (s : Timers) : Option Bool :=
  each s.links.next (fun n found => if n = t then (true, false) else (found, true))
    s.live.card s.links.head false

/-- `Start` from there on. -/
def arm (t : Nat) (timeout : Int) (once : Bool) (s : Timers) (found : Bool) : Timers :=
  { s.setTimer t
      { timeout := timeout
        expireTime := wrapCount (clock s.reads + timeout)
        enabled := true
        once := once } with
    links := if found then s.links else s.links.pushFront t
    reads := s.reads + 1 }.note (.started t (clock s.reads) timeout once)

/-- `Timer::Start`; a timeout that is not positive throws before it does
anything. -/
def start (t : Nat) (timeout : Int) (once : Bool) (s : Timers) : Option Timers :=
  if timeout ≤ 0 then some s else (s.contains t).map (s.arm clock t timeout once)

/-- `Timer::Stop`. -/
def stop (t : Nat) (s : Timers) : Timers :=
  { s.setTimer t { s.timer t with enabled := false } with timerStopped := true }.note (.stopped t)

/-- `Timer::CheckExpired`. -/
def checkExpired (t : Nat) (s : Timers) : Bool × Timers :=
  let timer := s.timer t
  if timer.enabled = false then (false, s)
  else if clock s.reads < timer.expireTime then (false, { s with reads := s.reads + 1 })
  else
    let noted := s.note (.expired t (clock s.reads))
    if timer.once then
      (true, { noted.setTimer t { timer with enabled := false } with
        timerStopped := true
        reads := s.reads + 1 })
    else
      let expireTime := wrapCount (timer.expireTime + timer.timeout)
      if clock (s.reads + 1) > expireTime then
        (true, { noted.setTimer t { timer with expireTime := clock (s.reads + 2) } with
          reads := s.reads + 3 })
      else
        (true, { noted.setTimer t { timer with expireTime := expireTime } with
          reads := s.reads + 2 })

/-- The removal of the disabled timers from the list. -/
def sweep (s : Timers) : Option Timers :=
  if s.timerStopped then
    (s.links.sweep (fun t => !(s.timer t).enabled) s.live.card .head).map fun links =>
      { s with links := links, timerStopped := false }
  else some s

/-- One timer of the list, with the number of those captured so far. -/
def scanBody (t : Nat) : Nat × Timers → (Nat × Timers) × Bool
  | (count, s) =>
    if count ≥ maxTimerExpired then ((count, s), false)
    else
      let checked := s.checkExpired clock t
      ((if checked.1 then count + 1 else count, checked.2), true)

/-- What `ProcessTimers` does while it has the lock, with the number of timers
whose callbacks it has captured. -/
def pass (s : Timers) : Option (Nat × Timers) :=
  s.sweep.bind fun s => each s.links.next (scanBody clock) s.live.card s.links.head (0, s)

/-- `Timer::ProcessTimers`; `env` is what the callbacks of a pass and the other
threads do until the next one. -/
def processTimers (env : Timers → Timers) : Nat → Timers → Option Timers
  | 0, _ => none
  | fuel + 1, s =>
    (s.pass clock).bind fun passed =>
      if passed.1 = maxTimerExpired then processTimers env fuel (env passed.2)
      else some (env passed.2)

/-- Who has the lock next. -/
inductive Choice where
  | construct (t : Nat)
  | destroy (t : Nat)
  | start (t : Nat) (timeout : Int) (once : Bool)
  | stop (t : Nat)
  | pass
  deriving DecidableEq, Repr

/-- A timer is constructed before it is used, and not used after it is
destroyed. -/
def Allowed (s : Timers) : Choice → Prop
  | .construct t => t ∉ s.live
  | .destroy t => t ∈ s.live
  | .start t _ _ => t ∈ s.live
  | .stop t => t ∈ s.live
  | .pass => True

instance (s : Timers) : DecidablePred s.Allowed
  | .construct t => inferInstanceAs (Decidable (t ∉ s.live))
  | .destroy t => inferInstanceAs (Decidable (t ∈ s.live))
  | .start t _ _ => inferInstanceAs (Decidable (t ∈ s.live))
  | .stop t => inferInstanceAs (Decidable (t ∈ s.live))
  | .pass => inferInstanceAs (Decidable True)

def step (s : Timers) (c : Choice) : Option Timers :=
  if s.Allowed c then
    match c with
    | .construct t => some (s.construct t)
    | .destroy t => s.destroy t
    | .start t timeout once => s.start clock t timeout once
    | .stop t => some (s.stop t)
    | .pass => (s.pass clock).map fun passed => passed.2
  else none

end Steps

/-! ## What a step does -/

section Lemmas

variable {clock : Nat → Int} {s s' : Timers} {t : Nat} {ns : List Nat}

/-- What `CheckExpired` may do. -/
inductive Checked (clock : Nat → Int) (s : Timers) (t : Nat) : Bool × Timers → Prop where
  | rest (reads : Nat) (hreads : s.reads ≤ reads)
      (hrest : (s.timer t).enabled = true → clock s.reads < (s.timer t).expireTime) :
      Checked clock s t (false, { s with reads := reads })
  | once (henabled : (s.timer t).enabled = true)
      (hdue : (s.timer t).expireTime ≤ clock s.reads) (honce : (s.timer t).once = true) :
      Checked clock s t (true,
        { (s.note (.expired t (clock s.reads))).setTimer t
            { s.timer t with enabled := false } with
          timerStopped := true
          reads := s.reads + 1 })
  | again (expireTime : Int) (reads : Nat) (henabled : (s.timer t).enabled = true)
      (hdue : (s.timer t).expireTime ≤ clock s.reads) (honce : (s.timer t).once = false)
      (hreads : s.reads ≤ reads)
      (hnext : expireTime = wrapCount ((s.timer t).expireTime + (s.timer t).timeout) ∧
          clock (s.reads + 1) ≤ expireTime ∨
        expireTime = clock (s.reads + 2) ∧
          wrapCount ((s.timer t).expireTime + (s.timer t).timeout) < clock (s.reads + 1)) :
      Checked clock s t (true,
        { (s.note (.expired t (clock s.reads))).setTimer t
            { s.timer t with expireTime := expireTime } with
          reads := reads })

/-- The cases of `CheckExpired`. -/
theorem checkExpired_cases (clock : Nat → Int) (t : Nat) (s : Timers) :
    Checked clock s t (s.checkExpired clock t) := by
  unfold checkExpired
  by_cases henabled : (s.timer t).enabled = false
  · rw [if_pos henabled]
    exact .rest s.reads le_rfl fun h => by simp [henabled] at h
  by_cases hrest : clock s.reads < (s.timer t).expireTime
  · rw [if_neg henabled, if_pos hrest]
    exact .rest _ (by omega) fun _ => hrest
  rw [if_neg henabled, if_neg hrest]
  simp only [Bool.not_eq_false] at henabled
  simp only [not_lt] at hrest
  by_cases honce : (s.timer t).once = true
  · rw [if_pos honce]
    exact .once henabled hrest honce
  rw [if_neg honce]
  simp only [Bool.not_eq_true] at honce
  by_cases hbehind :
      clock (s.reads + 1) > wrapCount ((s.timer t).expireTime + (s.timer t).timeout)
  · rw [if_pos hbehind]
    exact .again _ _ henabled hrest honce (by omega) (.inr ⟨rfl, hbehind⟩)
  · rw [if_neg hbehind]
    exact .again _ _ henabled hrest honce (by omega) (.inl ⟨rfl, by omega⟩)

/-- A check does not construct or destroy timers. -/
theorem live_checkExpired (clock : Nat → Int) (t : Nat) (s : Timers) :
    (s.checkExpired clock t).2.live = s.live := by
  have hchecked := checkExpired_cases clock t s
  generalize s.checkExpired clock t = r at hchecked ⊢
  cases hchecked <;> rfl

/-! ## The list -/

/-- What holds between any two steps; `ns` are the timers in the list. -/
structure Sound (s : Timers) (ns : List Nat) : Prop where
  holds : s.links.Holds ns
  live : ∀ t ∈ ns, t ∈ s.live
  listed : ∀ t ∈ s.live, (s.timer t).enabled = true → t ∈ ns
  positive : ∀ t ∈ s.live, (s.timer t).enabled = true → 0 < (s.timer t).timeout
  swept : s.timerStopped = false → ∀ t ∈ ns, (s.timer t).enabled = true

/-- The list is no longer than there are timers. -/
theorem Sound.length_le (h : s.Sound ns) : ns.length ≤ s.live.card := by
  rw [← List.toFinset_card_of_nodup h.holds.nodup]
  exact Finset.card_le_card fun t ht => h.live t (List.mem_toFinset.mp ht)

/-- The list does not change where the links do not. -/
theorem Sound.mono (h : s.Sound ns) (hlinks : s'.links = s.links) (hlive : s'.live = s.live)
    (hlisted : ∀ t ∈ s.live, (s'.timer t).enabled = true →
      (s.timer t).enabled = true ∧ (s'.timer t).timeout = (s.timer t).timeout)
    (hswept : s'.timerStopped = false → s.timerStopped = false ∧
      ∀ t ∈ ns, (s.timer t).enabled = true → (s'.timer t).enabled = true) : s'.Sound ns where
  holds := by
    rw [hlinks]
    exact h.holds
  live t ht := by
    rw [hlive]
    exact h.live t ht
  listed t ht he := by
    rw [hlive] at ht
    exact h.listed t ht (hlisted t ht he).1
  positive t ht he := by
    rw [hlive] at ht
    obtain ⟨he', htimeout⟩ := hlisted t ht he
    rw [htimeout]
    exact h.positive t ht he'
  swept hstop t ht := by
    obtain ⟨hstop', hkept⟩ := hswept hstop
    exact hkept t ht (h.swept hstop' t ht)

@[simp] theorem timer_setTimer_self (t : Nat) (timer : Timer) (s : Timers) :
    (s.setTimer t timer).timer t = timer := Function.update_self ..

/-- The other timers are as they were. -/
theorem timer_setTimer_ne {u : Nat} (h : u ≠ t) (timer : Timer) (s : Timers) :
    (s.setTimer t timer).timer u = s.timer u := Function.update_of_ne h ..

/-- A new timer is not in the list. -/
theorem Sound.construct (h : s.Sound ns) (ht : t ∉ s.live) : (s.construct t).Sound ns := by
  have hother : ∀ u ∈ s.live, (s.construct t).timer u = s.timer u :=
    fun u hu => timer_setTimer_ne (by rintro rfl; exact ht hu) {} s
  have hlive : ∀ u ∈ (s.construct t).live, ((s.construct t).timer u).enabled = true →
      u ∈ s.live := by
    intro u hu he
    obtain rfl | hu := Finset.mem_insert.mp hu
    · have hself : (s.construct u).timer u = {} := timer_setTimer_self u {} s
      rw [hself] at he
      contradiction
    · exact hu
  constructor
  · exact h.holds.write_next (fun hn => ht (h.live t hn)) none
  · exact fun u hu => Finset.mem_insert_of_mem (h.live u hu)
  · intro u hu he
    have hu' := hlive u hu he
    rw [hother u hu'] at he
    exact h.listed u hu' he
  · intro u hu he
    have hu' := hlive u hu he
    rw [hother u hu'] at he ⊢
    exact h.positive u hu' he
  · intro hstop u hu
    rw [hother u (h.live u hu)]
    exact h.swept hstop u hu

/-- The destructor finds the timer in the list, if it is there. -/
theorem Sound.destroy (h : s.Sound ns) (t : Nat) :
    ∃ s', s.destroy t = some s' ∧ s'.Sound (ns.erase t) := by
  obtain ⟨links, hlinks, hholds⟩ := h.holds.unlink t h.length_le
  refine ⟨_, by rw [Timers.destroy, hlinks, Option.map_some], hholds, ?_, ?_, ?_, ?_⟩
  · intro u hu
    obtain ⟨hne, hu⟩ := (h.holds.nodup.mem_erase_iff).mp hu
    exact Finset.mem_erase.mpr ⟨hne, h.live u hu⟩
  · intro u hu he
    obtain ⟨hne, hu⟩ := Finset.mem_erase.mp hu
    exact (h.holds.nodup.mem_erase_iff).mpr ⟨hne, h.listed u hu he⟩
  · intro u hu he
    exact h.positive u (Finset.mem_of_mem_erase hu) he
  · intro hstop u hu
    exact h.swept hstop u (List.mem_of_mem_erase hu)

/-- The search of `Start` finds out whether it is there. -/
theorem Sound.contains (h : s.Sound ns) (t : Nat) : s.contains t = some (decide (t ∈ ns)) := by
  rw [Timers.contains, each_eq h.holds h.length_le, visit_find, Bool.false_or]

/-- A timer that is started. -/
theorem timer_arm_self (t : Nat) (timeout : Int) (once found : Bool) (s : Timers) :
    (s.arm clock t timeout once found).timer t =
      { timeout := timeout
        expireTime := wrapCount (clock s.reads + timeout)
        enabled := true
        once := once } := timer_setTimer_self ..

/-- The other timers then. -/
theorem timer_arm_ne {u : Nat} (h : u ≠ t) (timeout : Int) (once found : Bool) (s : Timers) :
    (s.arm clock t timeout once found).timer u = s.timer u := timer_setTimer_ne h ..

/-- `Start` puts the timer in front, if it is not in the list. -/
theorem Sound.arm (clock : Nat → Int) (h : s.Sound ns) (ht : t ∈ s.live) {timeout : Int}
    (hpos : 0 < timeout) (once : Bool) :
    (s.arm clock t timeout once (decide (t ∈ ns))).Sound (if t ∈ ns then ns else t :: ns) := by
  have hmem : ∀ u, u ∈ (if t ∈ ns then ns else t :: ns) ↔ u = t ∨ u ∈ ns := by
    intro u
    split
    · next hin => exact ⟨.inr, fun hu => hu.elim (fun hut => hut ▸ hin) id⟩
    · exact List.mem_cons
  constructor
  · show Links.Holds (if decide (t ∈ ns) = true then s.links else s.links.pushFront t) _
    by_cases hin : t ∈ ns
    · simpa [hin] using h.holds
    · simpa [hin] using h.holds.pushFront hin
  · intro u hu
    obtain rfl | hu := (hmem u).mp hu
    · exact ht
    · exact h.live u hu
  · intro u hu he
    by_cases hut : u = t
    · exact (hmem u).mpr (.inl hut)
    · rw [timer_arm_ne hut] at he
      exact (hmem u).mpr (.inr (h.listed u hu he))
  · intro u hu he
    by_cases hut : u = t
    · subst hut
      rw [timer_arm_self]
      exact hpos
    · rw [timer_arm_ne hut] at he ⊢
      exact h.positive u hu he
  · intro hstop u hu
    by_cases hut : u = t
    · subst hut
      rw [timer_arm_self]
    · rw [timer_arm_ne hut]
      exact h.swept hstop u (((hmem u).mp hu).resolve_left hut)

/-- `Stop` leaves the list to the next pass. -/
theorem Sound.stop (h : s.Sound ns) (t : Nat) : (s.stop t).Sound ns := by
  refine h.mono rfl rfl (fun u _ he => ?_) nofun
  by_cases hut : u = t
  · subst hut
    simp [Timers.stop, note] at he
  · have hsame := timer_setTimer_ne hut { s.timer t with enabled := false } s
    exact ⟨hsame ▸ he, congrArg Timer.timeout hsame⟩

/-- `CheckExpired` does not touch the list. -/
theorem Sound.checkExpired (clock : Nat → Int) (h : s.Sound ns) (t : Nat) :
    (s.checkExpired clock t).2.Sound ns := by
  have hchecked := checkExpired_cases clock t s
  generalize s.checkExpired clock t = r at hchecked ⊢
  cases hchecked with
  | rest reads =>
      exact h.mono rfl rfl (fun _ _ he => ⟨he, rfl⟩) fun hstop => ⟨hstop, fun _ _ he => he⟩
  | once henabled =>
      refine h.mono rfl rfl (fun u _ he => ?_) nofun
      by_cases hut : u = t
      · subst hut
        simp at he
      · have hsame := timer_setTimer_ne hut { s.timer t with enabled := false }
          (s.note (.expired t (clock s.reads)))
        exact ⟨hsame ▸ he, congrArg Timer.timeout hsame⟩
  | again expireTime reads henabled =>
      have hfields : ∀ u, (((s.note (.expired t (clock s.reads))).setTimer t
            { s.timer t with expireTime := expireTime }).timer u).enabled = (s.timer u).enabled ∧
          (((s.note (.expired t (clock s.reads))).setTimer t
            { s.timer t with expireTime := expireTime }).timer u).timeout =
            (s.timer u).timeout := by
        intro u
        by_cases hut : u = t
        · subst hut
          simp
        · rw [timer_setTimer_ne hut]
          exact ⟨rfl, rfl⟩
      refine h.mono rfl rfl (fun u _ he => ?_) fun hstop => ⟨hstop, fun u _ he => ?_⟩
      · exact ⟨(hfields u).1.symm.trans he, (hfields u).2⟩
      · exact (hfields u).1.trans he

/-- The sweep leaves the timers that are enabled. -/
theorem Sound.sweep (h : s.Sound ns) : ∃ s' ns', s.sweep = some s' ∧ s'.Sound ns' ∧
    (∀ t ∈ ns', (s.timer t).enabled = true) ∧
    s' = { s with links := s'.links, timerStopped := false } := by
  unfold Timers.sweep
  by_cases hstop : s.timerStopped = true
  · obtain ⟨links, hlinks, hholds⟩ :=
      h.holds.sweep (fun t => !(s.timer t).enabled) h.length_le
    have hmem : ∀ t, t ∈ ns.filter (fun t => !!(s.timer t).enabled) ↔
        t ∈ ns ∧ (s.timer t).enabled = true := by simp
    refine ⟨{ s with links := links, timerStopped := false }, _, ?_, ⟨hholds, ?_, ?_, ?_, ?_⟩, ?_,
      rfl⟩
    · rw [if_pos hstop, hlinks, Option.map_some]
    · exact fun t ht => h.live t ((hmem t).mp ht).1
    · exact fun t ht he => (hmem t).mpr ⟨h.listed t ht he, he⟩
    · exact h.positive
    · exact fun _ t ht => ((hmem t).mp ht).2
    · exact fun t ht => ((hmem t).mp ht).2
  · have hstop' : s.timerStopped = false := by simpa using hstop
    refine ⟨s, ns, if_neg hstop, h, h.swept hstop', ?_⟩
    rw [← hstop']

/-- The critical section of `ProcessTimers` ends; it comes to every timer in
the swept list, or to as many as fill the batch. -/
theorem Sound.pass (clock : Nat → Int) (h : s.Sound ns) :
    ∃ s₀ ns', s.sweep = some s₀ ∧ s₀.Sound ns' ∧
    (∀ t ∈ ns', (s.timer t).enabled = true) ∧
    s₀ = { s with links := s₀.links, timerStopped := false } ∧
    s.pass clock = some (visit (scanBody clock) ns' (0, s₀)) := by
  obtain ⟨s₀, ns', hsweep, hsound, henabled, hs₀⟩ := h.sweep
  refine ⟨s₀, ns', hsweep, hsound, henabled, hs₀, ?_⟩
  rw [Timers.pass, hsweep, Option.bind_some]
  exact each_eq hsound.holds hsound.length_le _

/-- The scan does not touch the list. -/
theorem Sound.scanBody (clock : Nat → Int) {r : Nat × Timers} (h : r.2.Sound ns) (t : Nat) :
    (Timers.scanBody clock t r).1.2.Sound ns := by
  obtain ⟨count, s⟩ := r
  unfold Timers.scanBody
  dsimp only
  split
  · exact h
  · exact Sound.checkExpired clock h t

/-- Nor does it as a whole. -/
theorem Sound.scan (clock : Nat → Int) (h : s.Sound ns) (ns' : List Nat) (count : Nat) :
    (visit (Timers.scanBody clock) ns' (count, s)).2.Sound ns := by
  have hbody : ∀ n (r : Nat × Timers), r.2.Sound ns → (Timers.scanBody clock n r).1.2.Sound ns :=
    fun n _ hr => hr.scanBody clock n
  refine visit_rule (I := fun _ (r : Nat × Timers) => r.2.Sound ns)
    (Q := fun (r : Nat × Timers) => r.2.Sound ns) ?_ ?_ ?_ h
  · exact fun n _ r hr _ => hbody n r hr
  · exact fun n _ r hr _ => hbody n r hr
  · exact fun _ hr => hr

/-- Every step that is allowed ends, and keeps the list sound. -/
theorem Sound.step (clock : Nat → Int) (h : s.Sound ns) {c : Choice} (hc : s.Allowed c) :
    ∃ s' ns', s.step clock c = some s' ∧ s'.Sound ns' := by
  unfold Timers.step
  rw [if_pos hc]
  cases c with
  | construct t => exact ⟨_, ns, rfl, h.construct hc⟩
  | destroy t =>
      obtain ⟨s', hs', hsound⟩ := h.destroy t
      exact ⟨s', _, hs', hsound⟩
  | start t timeout once =>
      by_cases hpos : timeout ≤ 0
      · exact ⟨s, ns, if_pos hpos, h⟩
      · refine ⟨_, _, ?_, h.arm clock hc (not_le.mp hpos) once⟩
        simp only [Timers.start, if_neg hpos, h.contains, Option.map_some]
  | stop t => exact ⟨_, ns, rfl, h.stop t⟩
  | pass =>
      obtain ⟨s₀, ns', -, hsound, -, -, hpass⟩ := h.pass clock
      exact ⟨_, ns', congrArg (Option.map _) hpass, hsound.scan clock ns' 0⟩

/-- There are no timers. -/
theorem sound_start : Sound {} [] := by
  refine ⟨Links.holds_empty, ?_, ?_, ?_, ?_⟩ <;> simp

/-- The list is sound in every run. -/
theorem Sound.runs (hs : s.Sound ns) (h : Runs (Timers.step clock) s s') :
    ∃ ns', s'.Sound ns' := by
  refine h.invariant (I := fun s => ∃ ns, s.Sound ns) ?_ ⟨ns, hs⟩
  rintro s c s' ⟨ns, hs⟩ hstep
  by_cases hc : s.Allowed c
  · obtain ⟨s₁, ns', hs₁, hsound⟩ := hs.step clock hc
    rw [hs₁, Option.some.injEq] at hstep
    exact ⟨ns', hstep ▸ hsound⟩
  · unfold Timers.step at hstep
    rw [if_neg hc] at hstep
    contradiction

/-- **The list is sound in every interleaving.**  From the head the pointers
lead through live timers only, through none of them twice and through every one
that is enabled; and no operation goes round in it forever. -/
theorem timer_list_sound (h : Runs (step clock) {} s) :
    (∃ ns, s.links.Holds ns ∧ ns.Nodup ∧ (∀ t ∈ ns, t ∈ s.live) ∧
      (∀ t ∈ s.live, (s.timer t).enabled = true → t ∈ ns) ∧
      (s.timerStopped = false → ∀ t ∈ ns, (s.timer t).enabled = true)) ∧
    ∀ c, s.Allowed c → (s.step clock c).isSome := by
  obtain ⟨ns, hs⟩ := sound_start.runs h
  refine ⟨⟨ns, hs.holds, hs.holds.nodup, hs.live, hs.listed, hs.swept⟩, fun c hc => ?_⟩
  obtain ⟨s', ns', hs', -⟩ := hs.step clock hc
  rw [hs', Option.isSome_some]

/-- Three timers; one is started again and stopped, one destroyed. -/
def threeTimers : List Choice :=
  [.construct 1, .construct 2, .construct 3, .start 1 3 false, .start 2 5 true, .start 1 9 true,
    .stop 1, .destroy 3, .pass, .start 1 1 false]

theorem timer_list_sound_three :
    let s := (exec (step fun i => i) {} threeTimers).getD {}
    s.live = {1, 2} ∧
    (∃ ns, s.links.Holds ns ∧ ns.Nodup ∧ (∀ t ∈ ns, t ∈ s.live) ∧
      (∀ t ∈ s.live, (s.timer t).enabled = true → t ∈ ns) ∧
      (s.timerStopped = false → ∀ t ∈ ns, (s.timer t).enabled = true)) ∧
    ∀ c, s.Allowed c → (s.step (fun i => i) c).isSome :=
  ⟨by decide, timer_list_sound ⟨threeTimers, rfl⟩⟩

end Lemmas

end Timers

end ActiveFsm
