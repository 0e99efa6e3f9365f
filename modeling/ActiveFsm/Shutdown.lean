import ActiveFsm.Lifetime

/-!
# ActiveFsm.Shutdown

`ExitThread` comes to an end.  Once it has been called no message is accepted
any more, so the worker has only so many messages before it, and `ExitThread`
only so many to cancel; callers that are blocked on a full queue are let go.
-/

namespace ActiveFsm

open Transition

/-! ## What is left to do -/

/-- How many steps `Process` has before it, next to two for every message that
waits. -/
@[simp] def Worker.left : Worker → Nat
  | ready => 1
  | invoking _ => 2
  | exited => 0
  | faulted _ => 0

/-- How many steps `ExitThread` has before it. -/
@[simp] def Exiting.left : Exiting → Nat
  | notCalled => 0
  | cancelling rest => rest.length + 3
  | joined => 2
  | cleaning rest => rest.length + 1
  | returned => 0

namespace Lifetime

/-- How many steps the worker and `ExitThread` have before them. -/
def left (L : Lifetime) : Nat := 2 * L.queued.length + L.worker.left + L.exiting.left

/-- A step of the worker or of `ExitThread`. -/
def Choice.closing : Choice → Bool
  | process => true
  | processFault => true
  | exitThreadStep => true
  | _ => false

section Steps

variable {priority : Nat → Priority} {limit : Nat} {L L' : Lifetime} {high normal : List Nat}
  {call : Nat}

/-- The message that is taken was the first. -/
theorem takeNext_lanes {q q' : ThreadQueue ThreadMsg} {msg : DelegateMsg ThreadMsg}
    (h : q.takeNext = some (msg, q')) :
    q.highQueue ++ q.normalQueue = msg :: (q'.highQueue ++ q'.normalQueue) := by
  unfold ThreadQueue.takeNext at h
  split at h
  · next hhigh =>
    cases h
    rw [hhigh, List.cons_append]
  · next hhigh hnormal =>
    cases h
    rw [hhigh, hnormal, List.nil_append, List.nil_append]
  · contradiction

/-- What is taken has been queued, at the front. -/
theorem queued_take {q' : ThreadQueue ThreadMsg} {msg : DelegateMsg ThreadMsg}
    (h : L.queue.takeNext = some (msg, q')) :
    L.queued = msg.body.data.toList ++
      delegates ((q'.highQueue ++ q'.normalQueue).map fun m => m.body) := by
  rw [queued, takeNext_lanes h, List.map_cons, delegates_cons]

/-- The worker comes nearer to its end. -/
theorem left_process (hstep : L.process = some L') : L'.left + 1 ≤ L.left := by
  unfold Lifetime.process at hstep
  split at hstep
  · next hworker =>
    split at hstep
    · next msg q' hnext =>
      have hqueued := queued_take hnext
      split at hstep
      · next call hbody =>
        cases hstep
        rw [hbody] at hqueued
        have hlength := congrArg List.length hqueued
        simp only [ThreadMsg.data, Option.toList_some, List.length_append,
          List.length_singleton] at hlength
        simp only [left, queued, hworker, Worker.left] at hlength ⊢
        omega
      · next hbody =>
        cases hstep
        rw [hbody] at hqueued
        have hlength := congrArg List.length hqueued
        simp only [ThreadMsg.data, Option.toList_none, List.nil_append] at hlength
        simp only [left, queued, hworker, Worker.left] at hlength ⊢
        omega
    · split at hstep
      · cases hstep
        simp only [left, queued, hworker, Worker.left]
        omega
      · contradiction
  · next hworker =>
    cases hstep
    simp only [left, queued, hworker, Worker.left]
    omega
  · contradiction

/-- So it does when an invocation fails. -/
theorem left_processFault (hstep : L.processFault = some L') : L'.left + 1 ≤ L.left := by
  unfold Lifetime.processFault at hstep
  split at hstep
  · next hworker =>
    cases hstep
    simp only [left, queued, hworker, Worker.left]
    omega
  · contradiction

/-- Nothing is left in the lanes when the worker has exited. -/
theorem Holds.lanes_exited (h : L.Holds priority limit high normal)
    (hexited : L.worker = .exited) : L.queue.highQueue = [] ∧ L.queue.normalQueue = [] := by
  obtain ⟨rfl, rfl, -⟩ := h.exited hexited
  rw [h.highQueue, h.normalQueue, marker, if_neg fun hm => hm.2 hexited]
  exact ⟨rfl, rfl⟩

/-- `ExitThread` gets past `join` only when the worker has exited. -/
theorem Holds.exited_of_past (h : L.Holds priority limit high normal)
    (hcalled : L.exiting ≠ .notCalled) (hpast : ∀ rest, L.exiting ≠ .cancelling rest) :
    L.worker = .exited := by
  rcases h.joined with hnot | ⟨rest, hrest⟩ | hexited
  · contradiction
  · exact absurd hrest (hpast rest)
  · exact hexited

/-- So does `ExitThread`. -/
theorem Holds.left_exitThreadStep (h : L.Holds priority limit high normal)
    (hstep : L.exitThreadStep = some L') : L'.left + 1 ≤ L.left := by
  unfold Lifetime.exitThreadStep at hstep
  split at hstep
  · contradiction
  · next msg rest he =>
    cases hstep
    simp only [left, queued, he, Exiting.left, List.length_cons]
    omega
  · next he =>
    split at hstep
    · cases hstep
      simp only [left, queued, he, Exiting.left, List.length_nil]
      omega
    · contradiction
  · next he =>
    cases hstep
    have hexited := h.exited_of_past (by simp [he]) (by simp [he])
    obtain ⟨hhigh, hnormal⟩ := h.lanes_exited hexited
    simp [left, queued, he, hhigh, hnormal, delegates]
  · next msg rest he =>
    cases hstep
    simp only [left, queued, he, Exiting.left, List.length_cons]
    omega
  · next he =>
    cases hstep
    simp only [left, queued, he, Exiting.left, List.length_nil]
    omega
  · contradiction

/-- `DispatchDelegate` adds nothing any more. -/
theorem Holds.push_exiting (h : L.Holds priority limit high normal)
    (hcalled : L.exiting ≠ .notCalled) :
    L.push priority call = L.setDispatch call (.returned false) := by
  rw [Lifetime.push, ThreadQueue.pushUnlessExit, h.posted.mpr hcalled]
  rfl

/-- Callers make no work once it has been called. -/
theorem Holds.left_dispatchDelegate (h : L.Holds priority limit high normal)
    (hcalled : L.exiting ≠ .notCalled) (hstep : L.dispatchDelegate priority call = some L') :
    L'.left = L.left := by
  have hset (d : Dispatch) : (L.setDispatch call d).left = L.left := rfl
  unfold Lifetime.dispatchDelegate at hstep
  rw [h.push_exiting hcalled] at hstep
  repeat' split at hstep
  all_goals first | contradiction | (cases hstep; exact hset _)

/-- Every step of the worker or of `ExitThread` leaves one less, and no other
step leaves more. -/
theorem Holds.left_step (h : L.Holds priority limit high normal)
    (hcalled : L.exiting ≠ .notCalled) {c : Choice} (hstep : L.step priority c = some L') :
    L'.left + (if c.closing then 1 else 0) ≤ L.left := by
  cases c with
  | dispatchDelegate call => exact Nat.le_of_eq (h.left_dispatchDelegate hcalled hstep)
  | timeout call =>
      simp only [Lifetime.step, Lifetime.timeout] at hstep
      split at hstep
      · split at hstep
        · contradiction
        · cases hstep
          exact Nat.le_refl _
      · contradiction
  | process => exact left_process hstep
  | processFault => exact left_processFault hstep
  | exitThread policy =>
      simp only [Lifetime.step, Lifetime.exitThread] at hstep
      contradiction
  | exitThreadStep => exact h.left_exitThreadStep hstep

/-- The same for a whole run. -/
theorem Sound.left_exec (hpos : 0 < limit) {cs : List Choice} (h : L.Sound priority limit)
    (hcalled : L.exiting ≠ .notCalled) (hexec : exec (Lifetime.step priority) L cs = some L') :
    L'.left + cs.countP Choice.closing ≤ L.left ∧ L'.exiting ≠ .notCalled := by
  induction cs generalizing L with
  | nil =>
      cases hexec
      exact ⟨Nat.le_refl _, hcalled⟩
  | cons c cs ih =>
      rw [exec_cons] at hexec
      obtain ⟨L₁, hstep, hrest⟩ := Option.bind_eq_some_iff.mp hexec
      obtain ⟨high, normal, hholds⟩ := id h
      have hone := hholds.left_step hcalled hstep
      obtain ⟨hleft, hcalled'⟩ := ih (h.step hpos hstep) (hholds.frozen hcalled hstep).called hrest
      refine ⟨?_, hcalled'⟩
      rw [List.countP_cons]
      omega

/-- The worker can go on unless it has exited, or an invocation has failed. -/
theorem process_isSome (hexit : L.queue.exit = true) (hexited : L.worker ≠ .exited)
    (hfaulted : ∀ c, L.worker ≠ .faulted c) : L.process.isSome := by
  unfold Lifetime.process
  split
  · split
    · split <;> rfl
    · rw [if_pos hexit]
      rfl
  · rfl
  · next hready hinvoking =>
    cases hworker : L.worker with
    | ready => exact absurd hworker hready
    | invoking call => exact absurd hworker (hinvoking call)
    | exited => exact absurd hworker hexited
    | faulted call => exact absurd hworker (hfaulted call)

/-- The worker or `ExitThread` can go on. -/
theorem Holds.closing_step (h : L.Holds priority limit high normal)
    (hcalled : L.exiting ≠ .notCalled) (hreturned : L.exiting ≠ .returned)
    (hfaulted : ∀ c, L.worker ≠ .faulted c) :
    ∃ c, c.closing = true ∧ (L.step priority c).isSome := by
  have hexit : L.queue.exit = true := h.posted.mpr hcalled
  have hexitThread (h : L.exitThreadStep.isSome) :
      ∃ c, Choice.closing c = true ∧ (L.step priority c).isSome := ⟨.exitThreadStep, rfl, h⟩
  cases he : L.exiting with
  | notCalled => contradiction
  | returned => contradiction
  | joined => exact hexitThread (by simp [Lifetime.exitThreadStep, he])
  | cleaning rest => cases rest <;> exact hexitThread (by simp [Lifetime.exitThreadStep, he])
  | cancelling rest =>
      cases rest with
      | cons msg rest => exact hexitThread (by simp [Lifetime.exitThreadStep, he])
      | nil =>
          by_cases hexited : L.worker = .exited
          · exact hexitThread (by simp [Lifetime.exitThreadStep, he, hexited])
          · exact ⟨.process, rfl, process_isSome hexit hexited hfaulted⟩

/-- A caller that is blocked on the full queue is let go. -/
theorem Holds.released (h : L.Holds priority limit high normal) (hcalled : L.exiting ≠ .notCalled)
    (hwaiting : L.dispatch call = .waiting) :
    L.step priority (.dispatchDelegate call) = some (L.setDispatch call (.returned false)) := by
  have hexit : L.queue.exit = true := h.posted.mpr hcalled
  have hproceed : L.queue.mayProceed = true := by simp [ThreadQueue.mayProceed, hexit]
  rw [Lifetime.step, Lifetime.dispatchDelegate, hwaiting]
  simp only [hproceed, if_true, h.push_exiting hcalled]

/-- When `ExitThread` has returned, every message has been dealt with. -/
theorem Holds.settled (h : L.Holds priority limit high normal) (hreturned : L.exiting = .returned) :
    List.Perm L.accepted (L.invoked ++ L.cancelled) := by
  have hexited := h.exited_of_past (by simp [hreturned]) (by simp [hreturned])
  obtain ⟨rfl, rfl, -⟩ := h.exited hexited
  have hqueued : L.queued = [] := h.queued_eq
  have htaken : L.taken = L.invoked := by
    rw [h.running, hexited]
    exact List.append_nil _
  have hdiscarded : L.discarded = L.cancelled := by
    rw [discarded, hreturned]
    exact List.append_nil _
  have hplaces := h.places_perm
  rwa [hqueued, htaken, hdiscarded, List.nil_append] at hplaces

end Steps

/-- **`ExitThread` returns.**  Once it has been called, the worker and
`ExitThread` itself have only so many steps before them, however callers of
`DispatchDelegate` are interleaved; one of them can always go on until
`ExitThread` has returned, unless an invocation fails; nobody stays blocked on
the full queue; and when it has returned, every message that was ever accepted
has been invoked or cancelled, and only one of these, once. -/
theorem exit_thread_returns (priority : Nat → Priority) (maxQueueSize : Nat)
    (fullPolicy : FullPolicy) {L L' : Lifetime} {cs : List Choice}
    (h : Runs (step priority) (start maxQueueSize fullPolicy) L)
    (hcalled : L.exiting ≠ .notCalled) (hexec : exec (step priority) L cs = some L') :
    cs.countP Choice.closing ≤ 2 * L.queued.length + L.exiting.held.length + 5 ∧
    (L'.exiting ≠ .returned → (∀ c, L'.worker ≠ .faulted c) →
      ∃ c, c.closing = true ∧ (L'.step priority c).isSome) ∧
    (∀ call, L'.dispatch call = .waiting →
      L'.step priority (.dispatchDelegate call) = some (L'.setDispatch call (.returned false))) ∧
    (L'.exiting = .returned → (L'.invoked ++ L'.cancelled).Nodup ∧
      ∀ call, call ∈ L'.invoked ++ L'.cancelled ↔ L'.dispatch call = .returned true) := by
  have hpos := start_limit_pos maxQueueSize fullPolicy
  have hsound := sound_of_runs h
  obtain ⟨hleft, hcalled'⟩ := hsound.left_exec hpos hcalled hexec
  have hbound : L.left ≤ 2 * L.queued.length + L.exiting.held.length + 5 := by
    have hworker : L.worker.left ≤ 2 := by cases L.worker <;> simp
    have hexiting : L.exiting.left ≤ L.exiting.held.length + 3 := by
      cases L.exiting <;> simp [Exiting.held]
    rw [left]
    omega
  obtain ⟨high, normal, hlater⟩ := sound_of_runs (h.trans ⟨cs, hexec⟩)
  refine ⟨by omega, fun hreturned hfaulted => hlater.closing_step hcalled' hreturned hfaulted,
    fun call hwaiting => hlater.released hcalled' hwaiting, fun hreturned => ?_⟩
  have hperm := hlater.settled hreturned
  exact ⟨hperm.nodup hlater.nodup, fun call => by rw [← hperm.mem_iff, hlater.returned call]⟩

/-- The queue is full and a caller is blocked when `ExitThread(DISCARD)` is
called; the worker is invoking a message. -/
def exitFull : List Choice :=
  [.dispatchDelegate 0, .dispatchDelegate 0, .dispatchDelegate 0, .process, .dispatchDelegate 1,
    .dispatchDelegate 1, .dispatchDelegate 1, .dispatchDelegate 2, .dispatchDelegate 2,
    .dispatchDelegate 2, .exitThread .discard]

theorem exit_thread_returns_full :
    let step := Lifetime.step fun _ => .normal
    let L := (exec step (start 1 .timeout) exitFull).getD (start 1 .timeout)
    let closing : List Choice :=
      [.exitThreadStep, .dispatchDelegate 2, .process, .process, .exitThreadStep, .exitThreadStep,
        .exitThreadStep]
    let L' := (exec step L closing).getD L
    L.dispatch 2 = .waiting ∧ L'.exiting = .returned ∧ L'.invoked = [0] ∧ L'.cancelled = [1] ∧
      closing.countP Choice.closing ≤ 2 * L.queued.length + L.exiting.held.length + 5 := by
  intro step L closing L'
  have hrun : Runs step (start 1 .timeout) L := ⟨exitFull, rfl⟩
  have hcalled : L.exiting ≠ .notCalled := by decide
  have hexec : exec step L closing = some L' := rfl
  exact ⟨rfl, rfl, rfl, rfl, (exit_thread_returns _ 1 .timeout hrun hcalled hexec).1⟩

end Lifetime

end ActiveFsm
