import ActiveFsm.Thread
import ActiveFsm.Transition
import Mathlib.Data.List.Count
import Mathlib.Data.List.Perm.Basic
import Mathlib.Logic.Function.Basic

/-!
# ActiveFsm.Lifetime

One lifetime of a `StdlibThread`, from `CreateThread` on: any number of calls
of `DispatchDelegate`, the worker loop `Process`, and one call of `ExitThread`
from another thread.  Every step is what happens between two points at which
another thread can intervene.

A message is told apart by the number of the call of `DispatchDelegate` that
brings it.  Calls are not assigned to threads: whichever threads make them, and
however often, the steps of the calls are some interleaving.
-/

namespace ActiveFsm

open Transition

/-! ## Messages -/

/-- `ThreadMsg`: `MSG_DISPATCH_DELEGATE` with its data, or `MSG_EXIT_THREAD`. -/
inductive ThreadMsg where
  | dispatchDelegate (call : Nat)
  | exitThread
  deriving DecidableEq, Repr

/-- The delegate message, if there is one. -/
def ThreadMsg.data : ThreadMsg → Option Nat
  | dispatchDelegate call => some call
  | exitThread => none

/-- `dmq::ExitPolicy`. -/
inductive ExitPolicy where
  | drain
  | discard
  deriving DecidableEq, Repr

/-- `THREAD_DESKTOP_QUEUE_SIZE`. -/
def threadDesktopQueueSize : Nat := 1000

/-! ## Where the threads are -/

/-- How far a call of `DispatchDelegate` is. -/
inductive Dispatch where
  | notCalled
  /-- Past the early check of `m_exit`. -/
  | checked
  /-- Past the check of `m_thread`, before the mutex is taken. -/
  | entered
  /-- Blocked on `m_cvNotFull`. -/
  | waiting
  | returned (accepted : Bool)
  | threw
  | faulted
  deriving DecidableEq, Repr

/-- How far `Process` is. -/
inductive Worker where
  /-- Before it takes the mutex, or blocked on `m_cv`. -/
  | ready
  | invoking (call : Nat)
  | exited
  /-- The invocation did not succeed. -/
  | faulted (call : Nat)
  deriving DecidableEq, Repr

/-- The message whose invocation has begun and not returned. -/
def Worker.current : Worker → List Nat
  | invoking call => [call]
  | faulted call => [call]
  | _ => []

/-- How far `ExitThread` is.  `rest` is what the two local queues still hold. -/
inductive Exiting where
  | notCalled
  /-- `CancelAll` of what was swapped out, before `join`. -/
  | cancelling (rest : List ThreadMsg)
  | joined
  /-- `CancelAll` of what was left after `join`. -/
  | cleaning (rest : List ThreadMsg)
  | returned
  deriving DecidableEq, Repr

/-- What `ExitThread` has swapped out and not cancelled yet. -/
def Exiting.held : Exiting → List ThreadMsg
  | cancelling rest => rest
  | cleaning rest => rest
  | _ => []

/-- A thread and everybody who uses it.  `taken` are the messages the worker
has taken off the queues for invocation, `invoked` those whose invocation has
returned, and `cancelled` those `ExitThread` has cancelled. -/
structure Lifetime where
  queue : ThreadQueue ThreadMsg
  threadExists : Bool := true
  dispatch : Nat → Dispatch := fun _ => .notCalled
  worker : Worker := .ready
  exiting : Exiting := .notCalled
  policy : Option ExitPolicy := none
  taken : List Nat := []
  invoked : List Nat := []
  cancelled : List Nat := []

namespace Lifetime

/-- Just created. -/
def start (maxQueueSize : Nat) (fullPolicy : FullPolicy) : Lifetime where
  queue :=
    { maxQueueSize := if maxQueueSize = 0 then threadDesktopQueueSize else maxQueueSize
      fullPolicy := fullPolicy }

/-! ## Steps -/

section Steps

variable (priority : Nat → Priority) (L : Lifetime) (call : Nat)

/-- The message a call of `DispatchDelegate` pushes. -/
def threadMsg : DelegateMsg ThreadMsg :=
  { body := .dispatchDelegate call, priority := priority call }

/-- The exit message; it has no data, so its priority is `NORMAL`. -/
def exitMsg : DelegateMsg ThreadMsg := { body := .exitThread }

def setDispatch (d : Dispatch) : Lifetime :=
  { L with dispatch := Function.update L.dispatch call d }

/-- The end of `DispatchDelegate`. -/
def push : Lifetime :=
  { L with
    queue := L.queue.pushUnlessExit (threadMsg priority call)
    dispatch := Function.update L.dispatch call (.returned !L.queue.exit) }

/-- `DispatchDelegate`, one step. -/
def dispatchDelegate : Option Lifetime :=
  match L.dispatch call with
  | .notCalled =>
      some (L.setDispatch call (if L.queue.exit then .returned false else .checked))
  | .checked => some (L.setDispatch call (if L.threadExists then .entered else .threw))
  | .entered =>
      if L.queue.full then
        some (L.setDispatch call (match L.queue.fullPolicy with
          | .drop => .returned false
          | .fault => .faulted
          | .timeout => .waiting))
      else some (L.push priority call)
  | .waiting => if L.queue.mayProceed then some (L.push priority call) else none
  | _ => none

/-- `wait_for` times out. -/
def timeout : Option Lifetime :=
  match L.dispatch call with
  | .waiting =>
      if L.queue.mayProceed then none else some (L.setDispatch call (.returned false))
  | _ => none

/-- `Process`, one step: from taking the mutex to releasing it, or the return
of `Invoke`. -/
def process : Option Lifetime :=
  match L.worker with
  | .ready =>
      match L.queue.takeNext with
      | some (msg, queue) =>
          match msg.body with
          | .dispatchDelegate call => some { L with
              queue := queue
              worker := .invoking call
              taken := L.taken ++ [call] }
          | .exitThread => some { L with queue := queue, worker := .exited }
      | none => if L.queue.exit then some { L with worker := .exited } else none
  | .invoking call => some { L with worker := .ready, invoked := L.invoked ++ [call] }
  | _ => none

/-- `Invoke` does not succeed. -/
def processFault : Option Lifetime :=
  match L.worker with
  | .invoking call => some { L with worker := .faulted call }
  | _ => none

/-- What `ExitThread` leaves in the lanes before it pushes the exit message,
and what it has swapped out of them. -/
def swapOut (policy : ExitPolicy) (q : ThreadQueue ThreadMsg) :
    ThreadQueue ThreadMsg × List (DelegateMsg ThreadMsg) :=
  match policy with
  | .drain => (q, [])
  | .discard => ({ q with highQueue := [], normalQueue := [] }, q.highQueue ++ q.normalQueue)

/-- `ExitThread(policy)` up to the end of its first critical section. -/
def exitThread (policy : ExitPolicy) : Option Lifetime :=
  match L.exiting with
  | .notCalled =>
      let swapped := swapOut policy { L.queue with exit := true }
      some { L with
        queue := swapped.1.pushBack exitMsg
        exiting := .cancelling (swapped.2.map fun m => m.body)
        policy := some policy }
  | _ => none

/-- The rest of `ExitThread`, one step. -/
def exitThreadStep : Option Lifetime :=
  match L.exiting with
  | .notCalled => none
  | .cancelling (msg :: rest) => some { L with
      exiting := .cancelling rest
      cancelled := L.cancelled ++ msg.data.toList }
  | .cancelling [] => if L.worker = .exited then some { L with exiting := .joined } else none
  | .joined => some { L with
      queue := { L.queue with highQueue := [], normalQueue := [] }
      threadExists := false
      exiting := .cleaning ((L.queue.highQueue ++ L.queue.normalQueue).map fun m => m.body) }
  | .cleaning (msg :: rest) => some { L with
      exiting := .cleaning rest
      cancelled := L.cancelled ++ msg.data.toList }
  | .cleaning [] => some { L with exiting := .returned }
  | .returned => none

/-- Who makes the next step. -/
inductive Choice where
  | dispatchDelegate (call : Nat)
  | timeout (call : Nat)
  | process
  | processFault
  | exitThread (policy : ExitPolicy)
  | exitThreadStep
  deriving DecidableEq, Repr

def step : Choice → Option Lifetime
  | .dispatchDelegate call => L.dispatchDelegate priority call
  | .timeout call => L.timeout call
  | .process => L.process
  | .processFault => L.processFault
  | .exitThread policy => L.exitThread policy
  | .exitThreadStep => L.exitThreadStep

end Steps

/-! ## Where a message is -/

/-- The delegate messages among `msgs`. -/
def delegates (msgs : List ThreadMsg) : List Nat := msgs.filterMap ThreadMsg.data

/-- The messages of one priority. -/
def ofPriority (priority : Nat → Priority) (p : Priority) (calls : List Nat) : List Nat :=
  calls.filter fun c => priority c = p

section Places

variable (L : Lifetime)

/-- The messages accepted, in the order in which they were enqueued. -/
def accepted : List Nat := delegates (L.queue.accepted.map fun m => m.body)

/-- The messages that wait in the queues. -/
def queued : List Nat :=
  delegates ((L.queue.highQueue ++ L.queue.normalQueue).map fun m => m.body)

/-- The messages taken off the queues for cancellation. -/
def discarded : List Nat := L.cancelled ++ delegates L.exiting.held

/-- The exit message, from when it is pushed until the worker takes it. -/
def marker : List (DelegateMsg ThreadMsg) :=
  if L.queue.exit = true ∧ L.worker ≠ .exited then [exitMsg] else []

end Places

/-! ## The invariant -/

section Invariant

variable (priority : Nat → Priority) (limit : Nat)

/-- The lane of a priority. -/
def lane (high normal : List Nat) : Priority → List Nat
  | .high => high
  | .normal => normal

/-- What holds between any two steps; `high` and `normal` are the delegate
messages that wait in the two lanes. -/
structure Holds (L : Lifetime) (high normal : List Nat) : Prop where
  highQueue : L.queue.highQueue = high.map (threadMsg priority)
  normalQueue : L.queue.normalQueue = normal.map (threadMsg priority) ++ L.marker
  lanes : ∀ p, ∀ c ∈ lane high normal p, priority c = p
  order : ∀ p, ofPriority priority p L.accepted =
    ofPriority priority p L.taken ++ ofPriority priority p L.discarded ++ lane high normal p
  nodup : L.accepted.Nodup
  returned : ∀ c, c ∈ L.accepted ↔ L.dispatch c = .returned true
  limited : L.queue.maxQueueSize = limit
  size : high.length + normal.length ≤ limit
  running : L.taken = L.invoked ++ L.worker.current
  posted : L.queue.exit = true ↔ L.exiting ≠ .notCalled
  called : L.exiting = .notCalled → L.policy = none
  drain : L.policy ≠ some .discard → L.discarded = []
  discard : L.policy = some .discard → high = [] ∧ normal = []
  exited : L.worker = .exited → high = [] ∧ normal = [] ∧ L.queue.exit = true
  joined : L.exiting = .notCalled ∨ (∃ rest, L.exiting = .cancelling rest) ∨ L.worker = .exited

/-- The invariant, whatever waits in the lanes. -/
def Sound (L : Lifetime) : Prop := ∃ high normal, L.Holds priority limit high normal

end Invariant

section Lemmas

variable {priority : Nat → Priority} {limit : Nat} {L L' : Lifetime} {high normal : List Nat}
  {call : Nat}

/-- The delegates of two queues, one behind the other. -/
@[simp] theorem delegates_append (msgs msgs' : List ThreadMsg) :
    delegates (msgs ++ msgs') = delegates msgs ++ delegates msgs' := List.filterMap_append ..

/-- The delegates of messages that carry one each. -/
@[simp] theorem delegates_threadMsg (cs : List Nat) :
    delegates ((cs.map (threadMsg priority)).map fun m => m.body) = cs := by
  induction cs with
  | nil => rfl
  | cons c cs ih =>
      have hcons : delegates (((c :: cs).map (threadMsg priority)).map fun m => m.body) =
          c :: delegates ((cs.map (threadMsg priority)).map fun m => m.body) := rfl
      rw [hcons, ih]

/-- The exit message carries none. -/
theorem delegates_marker (L : Lifetime) : delegates (L.marker.map fun m => m.body) = [] := by
  unfold marker
  split <;> rfl

/-- The calls of one priority, in two parts. -/
@[simp] theorem ofPriority_append (p : Priority) (cs cs' : List Nat) :
    ofPriority priority p (cs ++ cs') = ofPriority priority p cs ++ ofPriority priority p cs' :=
  List.filter_append ..

/-- A lane holds its own priority only. -/
theorem Holds.ofPriority_lane (h : L.Holds priority limit high normal) (p : Priority) :
    ofPriority priority p (lane high normal p) = lane high normal p := by
  unfold ofPriority
  rw [List.filter_eq_self]
  intro c hc
  exact decide_eq_true (h.lanes p c hc)

/-- What is queued, the high lane first. -/
theorem Holds.queued_eq (h : L.Holds priority limit high normal) : L.queued = high ++ normal := by
  rw [queued, h.highQueue, h.normalQueue]
  simp only [List.map_append, delegates_append, delegates_threadMsg, delegates_marker,
    List.append_nil]

/-! ### `DispatchDelegate` -/

/-- The call moves on without having pushed anything. -/
theorem Holds.setDispatch (h : L.Holds priority limit high normal) {d : Dispatch}
    (hbefore : L.dispatch call ≠ .returned true) (hafter : d ≠ .returned true) :
    (L.setDispatch call d).Holds priority limit high normal := by
  have hreturned (c : Nat) :
      c ∈ L.accepted ↔ Function.update L.dispatch call d c = .returned true := by
    rw [h.returned c]
    by_cases hc : c = call
    · rw [hc, Function.update_self]
      exact iff_of_false hbefore hafter
    · rw [Function.update_of_ne hc]
  exact { h with returned := hreturned }

/-- A call that goes behind the high lane. -/
theorem lane_snoc_high (hp : priority call = .high) (p : Priority) :
    lane (high ++ [call]) normal p = lane high normal p ++ ofPriority priority p [call] := by
  cases p <;> simp [lane, ofPriority, hp]

/-- A call that goes behind the normal lane. -/
theorem lane_snoc_normal (hp : priority call = .normal) (p : Priority) :
    lane high (normal ++ [call]) p = lane high normal p ++ ofPriority priority p [call] := by
  cases p <;> simp [lane, ofPriority, hp]

/-- A call at the head of the high lane. -/
theorem lane_cons_high (hp : priority call = .high) (p : Priority) :
    lane (call :: high) normal p = ofPriority priority p [call] ++ lane high normal p := by
  cases p <;> simp [lane, ofPriority, hp]

/-- A call at the head of the normal lane. -/
theorem lane_cons_normal (hp : priority call = .normal) (p : Priority) :
    lane high (call :: normal) p = ofPriority priority p [call] ++ lane high normal p := by
  cases p <;> simp [lane, ofPriority, hp]

/-- Lanes from which something is taken off the front get no longer. -/
theorem length_lanes_le {high' normal' : List Nat} {front : Priority → List Nat}
    (h : ∀ p, lane high normal p = front p ++ lane high' normal' p) :
    high'.length + normal'.length ≤ high.length + normal.length := by
  have hhigh := congrArg List.length (h .high)
  have hnormal := congrArg List.length (h .normal)
  simp only [lane, List.length_append] at hhigh hnormal
  omega

/-- A message is accepted into its lane while nobody has called
`ExitThread`. -/
theorem Holds.accept (h : L.Holds priority limit high normal)
    (hbefore : L.dispatch call ≠ .returned true) (hexit : L.queue.exit = false)
    {highQueue normalQueue : List (DelegateMsg ThreadMsg)} {high' normal' : List Nat}
    (hhigh : highQueue = high'.map (threadMsg priority))
    (hnormal : normalQueue = normal'.map (threadMsg priority))
    (hlane : ∀ p, lane high' normal' p = lane high normal p ++ ofPriority priority p [call])
    (hsize : high'.length + normal'.length ≤ limit) :
    Holds priority limit { L with
      queue := { L.queue with
        highQueue := highQueue
        normalQueue := normalQueue
        accepted := L.queue.accepted ++ [threadMsg priority call] }
      dispatch := Function.update L.dispatch call (.returned true) } high' normal' := by
  have hpolicy : L.policy = none := by
    refine h.called (Classical.byContradiction fun hcalled => ?_)
    rw [h.posted.mpr hcalled] at hexit
    contradiction
  have haccepted : delegates ((L.queue.accepted ++ [threadMsg priority call]).map fun m => m.body) =
      L.accepted ++ [call] := by
    rw [List.map_append, delegates_append]
    rfl
  have hnew : call ∉ L.accepted := fun hmem => hbefore ((h.returned call).mp hmem)
  have hnodup : (L.accepted ++ [call]).Nodup := by
    rw [List.nodup_append]
    refine ⟨h.nodup, by simp, fun c hc c' hc' heq => ?_⟩
    rw [List.mem_singleton.mp hc'] at heq
    exact hnew (heq ▸ hc)
  have hreturned (c : Nat) : c ∈ L.accepted ++ [call] ↔
      Function.update L.dispatch call (.returned true) c = .returned true := by
    by_cases hc : c = call
    · simp [hc]
    · rw [Function.update_of_ne hc, ← h.returned c]
      simp [hc]
  have horder (p : Priority) : ofPriority priority p (L.accepted ++ [call]) =
      ofPriority priority p L.taken ++ ofPriority priority p L.discarded ++
        lane high' normal' p := by
    rw [ofPriority_append, h.order p, List.append_assoc, hlane]
  have hlanes (p : Priority) (c : Nat) (hc : c ∈ lane high' normal' p) : priority c = p := by
    rw [hlane, List.mem_append] at hc
    cases hc with
    | inl hold => exact h.lanes p c hold
    | inr hcall => exact of_decide_eq_true (List.mem_filter.mp hcall).2
  rw [← haccepted] at hnodup
  simp only [← haccepted] at hreturned horder
  exact { h with
    highQueue := hhigh
    normalQueue := by simp [hnormal, marker, hexit]
    lanes := hlanes
    order := horder
    nodup := hnodup
    returned := hreturned
    size := hsize
    discard := fun hdiscard => by
      rw [hpolicy] at hdiscard
      contradiction
    exited := fun hworker => by
      rw [(h.exited hworker).2.2] at hexit
      contradiction }

/-- A message is pushed where there is room for it and nobody has called
`ExitThread`. -/
theorem Holds.pushBack (h : L.Holds priority limit high normal)
    (hbefore : L.dispatch call ≠ .returned true) (hexit : L.queue.exit = false)
    (hroom : L.queue.size < limit) :
    Sound priority limit { L with
      queue := L.queue.pushBack (threadMsg priority call)
      dispatch := Function.update L.dispatch call (.returned true) } := by
  have hmarker : L.marker = [] := by simp [marker, hexit]
  have hnormal : L.queue.normalQueue = normal.map (threadMsg priority) := by
    rw [h.normalQueue, hmarker, List.append_nil]
  have hsize : high.length + normal.length < limit := by
    rw [ThreadQueue.size, h.highQueue, hnormal] at hroom
    simpa using hroom
  cases hp : priority call with
  | high =>
      have hpush : L.queue.pushBack (threadMsg priority call) = { L.queue with
          highQueue := L.queue.highQueue ++ [threadMsg priority call]
          accepted := L.queue.accepted ++ [threadMsg priority call] } := by
        simp [ThreadQueue.pushBack, threadMsg, hp]
      have hhigh : L.queue.highQueue ++ [threadMsg priority call] =
          (high ++ [call]).map (threadMsg priority) := by
        rw [h.highQueue, List.map_append]
        rfl
      rw [hpush]
      refine ⟨_, _, h.accept hbefore hexit hhigh hnormal (lane_snoc_high hp) ?_⟩
      rw [List.length_append, List.length_singleton]
      omega
  | normal =>
      have hpush : L.queue.pushBack (threadMsg priority call) = { L.queue with
          normalQueue := L.queue.normalQueue ++ [threadMsg priority call]
          accepted := L.queue.accepted ++ [threadMsg priority call] } := by
        simp [ThreadQueue.pushBack, threadMsg, hp]
      have hnormal' : L.queue.normalQueue ++ [threadMsg priority call] =
          (normal ++ [call]).map (threadMsg priority) := by
        rw [hnormal, List.map_append]
        rfl
      rw [hpush]
      refine ⟨_, _, h.accept hbefore hexit h.highQueue hnormal' (lane_snoc_normal hp) ?_⟩
      rw [List.length_append, List.length_singleton]
      omega

/-- The last part of `DispatchDelegate`. -/
theorem Holds.push (h : L.Holds priority limit high normal)
    (hbefore : L.dispatch call ≠ .returned true)
    (hroom : L.queue.exit = false → L.queue.size < limit) :
    (L.push priority call).Sound priority limit := by
  unfold Lifetime.push ThreadQueue.pushUnlessExit
  cases hexit : L.queue.exit with
  | true => exact ⟨high, normal, h.setDispatch hbefore (by simp)⟩
  | false => exact h.pushBack hbefore hexit (hroom hexit)

/-- `DispatchDelegate` accepts a call, refuses it or makes it wait. -/
theorem Holds.dispatchDelegate (hpos : 0 < limit) (h : L.Holds priority limit high normal)
    (hstep : L.dispatchDelegate priority call = some L') : L'.Sound priority limit := by
  unfold Lifetime.dispatchDelegate at hstep
  split at hstep
  · next hd =>
    cases hstep
    exact ⟨high, normal, h.setDispatch (by simp [hd]) (by split <;> simp)⟩
  · next hd =>
    cases hstep
    exact ⟨high, normal, h.setDispatch (by simp [hd]) (by split <;> simp)⟩
  · next hd =>
    split at hstep
    · cases hstep
      exact ⟨high, normal, h.setDispatch (by simp [hd]) (by split <;> simp)⟩
    · next hfull =>
      cases hstep
      refine h.push (by simp [hd]) fun _ => ?_
      simp only [ThreadQueue.full, decide_eq_true_eq, h.limited] at hfull
      omega
  · next hd =>
    split at hstep
    · next hproceed =>
      cases hstep
      refine h.push (by simp [hd]) fun hexit => ?_
      simpa [ThreadQueue.mayProceed, hexit, h.limited] using hproceed
    · contradiction
  · contradiction

/-- A caller that has waited long enough is refused. -/
theorem Holds.timeout (h : L.Holds priority limit high normal)
    (hstep : L.timeout call = some L') : L'.Sound priority limit := by
  unfold Lifetime.timeout at hstep
  split at hstep
  · next hd =>
    split at hstep
    · contradiction
    · cases hstep
      exact ⟨high, normal, h.setDispatch (by simp [hd]) (by simp)⟩
  · contradiction

/-! ### `Process` -/

/-- The worker goes on; the queues stay as they are. -/
theorem Holds.setWorker (h : L.Holds priority limit high normal) {w : Worker} {cs : List Nat}
    (hbefore : L.worker ≠ .exited) (hafter : w ≠ .exited)
    (hcurrent : L.invoked ++ L.worker.current = cs ++ w.current) :
    Holds priority limit { L with worker := w, invoked := cs } high normal := by
  have hmarker : marker { L with worker := w, invoked := cs } = L.marker := by
    simp [marker, hbefore, hafter]
  have hjoined := h.joined
  exact { h with
    normalQueue := by rw [hmarker]; exact h.normalQueue
    running := h.running.trans hcurrent
    exited := fun hw => absurd hw hafter
    joined := hjoined.imp_right fun hj => hj.imp_right fun hw => absurd hw hbefore }

/-- Nothing has been cancelled while a lane is not empty. -/
theorem Holds.discarded_eq (h : L.Holds priority limit high normal)
    (hne : ¬(high = [] ∧ normal = [])) : L.discarded = [] :=
  h.drain fun hp => hne (h.discard hp)

/-- The worker takes a message off a lane. -/
theorem Holds.take (h : L.Holds priority limit high normal) {q : ThreadQueue ThreadMsg}
    {high' normal' : List Nat} (hworker : L.worker = .ready)
    (hlane : ∀ p, lane high normal p = ofPriority priority p [call] ++ lane high' normal' p)
    (hhigh : q.highQueue = high'.map (threadMsg priority))
    (hnormal : q.normalQueue = normal'.map (threadMsg priority) ++ L.marker)
    (haccepted : q.accepted = L.queue.accepted) (hlimit : q.maxQueueSize = L.queue.maxQueueSize)
    (hexit : q.exit = L.queue.exit) :
    Holds priority limit { L with
      queue := q
      worker := .invoking call
      taken := L.taken ++ [call] } high' normal' := by
  have hne : ¬(high = [] ∧ normal = []) := by
    rintro ⟨rfl, rfl⟩
    have hcall := hlane (priority call)
    cases hp : priority call <;> simp [lane, ofPriority, hp] at hcall
  have hdiscarded := h.discarded_eq hne
  have hmarker : marker { L with
      queue := q
      worker := .invoking call
      taken := L.taken ++ [call] } = L.marker := by
    simp [marker, hworker, hexit]
  have hrunning : L.taken = L.invoked := by
    rw [h.running, hworker]
    exact List.append_nil _
  exact { h with
    highQueue := hhigh
    normalQueue := by rw [hmarker]; exact hnormal
    lanes := fun p c hc => h.lanes p c (by rw [hlane p]; exact List.mem_append_right _ hc)
    order := fun p => by
      show ofPriority priority p (delegates (q.accepted.map fun m => m.body)) =
        ofPriority priority p (L.taken ++ [call]) ++ ofPriority priority p L.discarded ++
          lane high' normal' p
      rw [haccepted]
      refine (h.order p).trans ?_
      rw [hdiscarded, hlane p, ofPriority_append]
      simp [ofPriority]
    nodup := by
      show (delegates (q.accepted.map fun m => m.body)).Nodup
      rw [haccepted]
      exact h.nodup
    returned := fun c => by
      show c ∈ delegates (q.accepted.map fun m => m.body) ↔ _
      rw [haccepted]
      exact h.returned c
    limited := hlimit.trans h.limited
    size := Nat.le_trans (length_lanes_le hlane) h.size
    running := congrArg (fun l => l ++ [call]) hrunning
    posted := by rw [← h.posted, hexit]
    discard := fun hp => absurd (h.discard hp) hne
    exited := fun hw => by contradiction
    joined := h.joined.imp_right fun hj => hj.imp_right fun hw => by
      rw [hworker] at hw
      contradiction }

/-- The worker takes the exit message: it is the last one. -/
theorem Holds.takeExit (h : L.Holds priority limit [] []) (hexit : L.queue.exit = true)
    (hcurrent : L.worker.current = []) :
    Holds priority limit { L with
      queue := { L.queue with highQueue := [], normalQueue := [] }
      worker := .exited } [] [] := by
  have hrunning : L.taken = L.invoked ++ [] := by
    rw [h.running, hcurrent]
  exact { h with
    highQueue := rfl
    normalQueue := by simp [marker]
    running := hrunning
    exited := fun _ => ⟨rfl, rfl, hexit⟩
    joined := Or.inr (Or.inr rfl) }

/-- The worker takes the next message, or invokes the one it has. -/
theorem Holds.process (h : L.Holds priority limit high normal) (hstep : L.process = some L') :
    L'.Sound priority limit := by
  unfold Lifetime.process at hstep
  split at hstep
  · next hworker =>
    have hmarker : L.marker = if L.queue.exit = true then [exitMsg] else [] := by
      simp [marker, hworker]
    unfold ThreadQueue.takeNext at hstep
    rw [h.highQueue, h.normalQueue] at hstep
    cases high with
    | cons call high =>
        cases hstep
        have hp : priority call = .high := h.lanes .high call (by simp [lane])
        exact ⟨high, normal, h.take hworker (lane_cons_high hp) rfl rfl rfl rfl rfl⟩
    | nil =>
        cases normal with
        | cons call normal =>
            cases hstep
            have hp : priority call = .normal := h.lanes .normal call (by simp [lane])
            exact ⟨[], normal, h.take hworker (lane_cons_normal hp) rfl rfl rfl rfl rfl⟩
        | nil =>
            cases hexit : L.queue.exit with
            | true =>
                rw [hmarker, if_pos hexit] at hstep
                cases hstep
                exact ⟨[], [], h.takeExit hexit (by simp [hworker, Worker.current])⟩
            | false =>
                rw [hmarker, hexit] at hstep
                simp at hstep
  · next hworker =>
    cases hstep
    exact ⟨high, normal, h.setWorker (by simp [hworker]) (by simp)
      (by simp [hworker, Worker.current])⟩
  · contradiction

/-- An invocation that fails takes its call with it. -/
theorem Holds.processFault (h : L.Holds priority limit high normal)
    (hstep : L.processFault = some L') : L'.Sound priority limit := by
  unfold Lifetime.processFault at hstep
  split at hstep
  · next hworker =>
    cases hstep
    exact ⟨high, normal, h.setWorker (by simp [hworker]) (by simp)
      (by simp [hworker, Worker.current])⟩
  · contradiction

/-! ### `ExitThread` -/

/-- The calls of one priority are those of its lane. -/
theorem Holds.ofPriority_queued (h : L.Holds priority limit high normal) (p : Priority) :
    ofPriority priority p (high ++ normal) = lane high normal p := by
  have hother {p' : Priority} (hne : p' ≠ p) :
      ofPriority priority p (lane high normal p') = [] := by
    unfold ofPriority
    rw [List.filter_eq_nil_iff]
    intro c hc
    simpa [h.lanes p' c hc] using hne
  have hown := h.ofPriority_lane p
  rw [ofPriority_append]
  cases p with
  | high =>
      have hnone := hother (show Priority.normal ≠ .high by simp)
      rw [show ofPriority priority .high normal = [] from hnone, List.append_nil]
      exact hown
  | normal =>
      have hnone := hother (show Priority.high ≠ .normal by simp)
      rw [show ofPriority priority .normal high = [] from hnone, List.nil_append]
      exact hown

/-- `ExitThread` up to the end of its first critical section: `high'` and
`normal'` stay in the lanes, `rest` has been swapped out. -/
theorem Holds.swapOut (h : L.Holds priority limit high normal) {policy : ExitPolicy}
    {rest : List ThreadMsg} {high' normal' : List Nat} (hcalled : L.exiting = .notCalled)
    (hsplit : ∀ p, lane high normal p =
      ofPriority priority p (delegates rest) ++ lane high' normal' p)
    (hdrain : policy ≠ .discard → delegates rest = [])
    (hdiscard : policy = .discard → high' = [] ∧ normal' = []) :
    Holds priority limit { L with
      queue := { L.queue with
        highQueue := high'.map (threadMsg priority)
        normalQueue := normal'.map (threadMsg priority) ++ [exitMsg]
        exit := true
        accepted := L.queue.accepted ++ [exitMsg] }
      exiting := .cancelling rest
      policy := some policy } high' normal' := by
  have hexit : L.queue.exit = false := by
    rw [Bool.eq_false_iff]
    exact fun hexit => h.posted.mp hexit hcalled
  have hrunning (hw : L.worker = .exited) : False := by
    rw [(h.exited hw).2.2] at hexit
    contradiction
  have hcancelled : L.cancelled = [] := by
    have hdiscarded := h.drain (by simp [h.called hcalled])
    rw [discarded, hcalled] at hdiscarded
    exact (List.append_eq_nil_iff.mp hdiscarded).1
  have haccepted : delegates ((L.queue.accepted ++ [exitMsg]).map fun m => m.body) =
      L.accepted := by
    rw [List.map_append, delegates_append]
    exact List.append_nil _
  have hnodup := h.nodup
  have hreturned := h.returned
  have horder (p : Priority) : ofPriority priority p L.accepted =
      ofPriority priority p L.taken ++ ofPriority priority p (L.cancelled ++ delegates rest) ++
        lane high' normal' p := by
    rw [h.order p, discarded, hcalled, hsplit p, hcancelled]
    simp [Exiting.held, delegates, ofPriority]
  rw [← haccepted] at hnodup
  simp only [← haccepted] at hreturned horder
  exact { h with
    highQueue := rfl
    normalQueue := by
      rw [marker, if_pos ⟨rfl, hrunning⟩]
    lanes := fun p c hc => h.lanes p c (by rw [hsplit p]; exact List.mem_append_right _ hc)
    order := horder
    nodup := hnodup
    returned := hreturned
    size := Nat.le_trans (length_lanes_le hsplit) h.size
    posted := by simp
    called := fun hnot => by contradiction
    drain := fun hp => by
      show L.cancelled ++ delegates rest = []
      rw [hcancelled, hdrain fun heq => hp (congrArg some heq), List.append_nil]
    discard := fun hp => hdiscard (Option.some.inj hp)
    exited := fun hw => (hrunning hw).elim
    joined := Or.inr (Or.inl ⟨rest, rfl⟩) }

/-- `ExitThread` discards the queue or puts the exit message behind it. -/
theorem Holds.exitThread (h : L.Holds priority limit high normal) {policy : ExitPolicy}
    (hstep : L.exitThread policy = some L') : L'.Sound priority limit := by
  unfold Lifetime.exitThread at hstep
  split at hstep
  · next hcalled =>
    have hexit : L.queue.exit ≠ true := fun hexit => h.posted.mp hexit hcalled
    have hqueue : L.queue.normalQueue = normal.map (threadMsg priority) := by
      rw [h.normalQueue, marker, if_neg fun hm => hexit hm.1, List.append_nil]
    cases policy with
    | drain =>
        have hnone : ExitPolicy.drain = .discard → high = [] ∧ normal = [] := by simp
        have hsplit (p : Priority) : lane high normal p =
            ofPriority priority p (delegates []) ++ lane high normal p := rfl
        have hkept := h.swapOut hcalled hsplit (fun _ => rfl) hnone
        rw [← h.highQueue, ← hqueue] at hkept
        cases hstep
        exact ⟨high, normal, hkept⟩
    | discard =>
        cases hstep
        refine ⟨[], [], h.swapOut hcalled (fun p => ?_) (by simp) fun _ => ⟨rfl, rfl⟩⟩
        have hempty : lane [] [] p = [] := by cases p <;> rfl
        rw [hempty, List.append_nil, ← h.ofPriority_queued p, ← h.queued_eq]
        rfl
  · contradiction

/-- The rest of `ExitThread` only moves messages from `held` to `cancelled`. -/
theorem Holds.setExiting (h : L.Holds priority limit high normal) {e : Exiting}
    {cancelled : List Nat} (hcalled : L.exiting ≠ .notCalled) (hafter : e ≠ .notCalled)
    (hdiscarded : cancelled ++ delegates e.held = L.discarded)
    (hjoined : (∃ rest, e = .cancelling rest) ∨ L.worker = .exited) :
    Holds priority limit { L with exiting := e, cancelled := cancelled } high normal := by
  have horder (p : Priority) : ofPriority priority p L.accepted = ofPriority priority p L.taken ++
      ofPriority priority p (cancelled ++ delegates e.held) ++ lane high normal p := by
    rw [hdiscarded]
    exact h.order p
  exact { h with
    order := horder
    posted := by
      rw [h.posted]
      exact ⟨fun _ => hafter, fun _ => hcalled⟩
    called := fun hnot => absurd hnot hafter
    drain := fun hp => hdiscarded.trans (h.drain hp)
    joined := Or.inr hjoined }

/-- The delegates of a queue, its head first. -/
theorem delegates_cons (msg : ThreadMsg) (rest : List ThreadMsg) :
    delegates (msg :: rest) = msg.data.toList ++ delegates rest := by
  cases msg <;> rfl

/-- `Cancel` of one message. -/
theorem discarded_cancel {msg : ThreadMsg} {rest : List ThreadMsg}
    (hheld : L.exiting.held = msg :: rest) :
    L.cancelled ++ msg.data.toList ++ delegates rest = L.discarded := by
  rw [discarded, hheld, delegates_cons, List.append_assoc]

/-- `ExitThread` cancels what it has swapped out, one message at a time. -/
theorem Holds.exitThreadStep (h : L.Holds priority limit high normal)
    (hstep : L.exitThreadStep = some L') : L'.Sound priority limit := by
  have hjoined (hcalled : L.exiting ≠ .notCalled)
      (hpast : ∀ rest, L.exiting ≠ .cancelling rest) : L.worker = .exited := by
    rcases h.joined with hnot | ⟨rest, hrest⟩ | hexited
    · contradiction
    · exact absurd hrest (hpast rest)
    · exact hexited
  unfold Lifetime.exitThreadStep at hstep
  split at hstep
  · contradiction
  · next msg rest he =>
    cases hstep
    exact ⟨high, normal, h.setExiting (by simp [he]) (by simp)
      (discarded_cancel (by rw [he]; rfl)) (Or.inl ⟨rest, rfl⟩)⟩
  · next he =>
    split at hstep
    · next hexited =>
      cases hstep
      exact ⟨high, normal, h.setExiting (by simp [he]) (by simp)
        (by rw [discarded, he]; rfl) (Or.inr hexited)⟩
    · contradiction
  · next he =>
    cases hstep
    have hexited := hjoined (by simp [he]) (by simp [he])
    obtain ⟨rfl, rfl, hexit⟩ := h.exited hexited
    have hhigh : L.queue.highQueue = [] := h.highQueue
    have hnormal : L.queue.normalQueue = [] := by
      rw [h.normalQueue, marker, if_neg fun hm => hm.2 hexited]
      rfl
    have hkept : Holds priority limit { L with exiting := .cleaning [] } [] [] :=
      h.setExiting (by simp [he]) (by simp) (by rw [discarded, he]; rfl) (Or.inr hexited)
    rw [hhigh, hnormal]
    exact ⟨[], [], { hkept with
      highQueue := rfl
      normalQueue := by simp [marker, hexited] }⟩
  · next msg rest he =>
    cases hstep
    exact ⟨high, normal, h.setExiting (by simp [he]) (by simp)
      (discarded_cancel (by rw [he]; rfl)) (Or.inr (hjoined (by simp [he]) (by simp [he])))⟩
  · next he =>
    cases hstep
    exact ⟨high, normal, h.setExiting (by simp [he]) (by simp)
      (by rw [discarded, he]; rfl) (Or.inr (hjoined (by simp [he]) (by simp [he])))⟩
  · contradiction

/-! ### Runs -/

/-- One step of whichever party. -/
theorem Sound.step (hpos : 0 < limit) (h : L.Sound priority limit) {choice : Choice}
    (hstep : L.step priority choice = some L') : L'.Sound priority limit := by
  obtain ⟨high, normal, h⟩ := h
  cases choice with
  | dispatchDelegate call => exact h.dispatchDelegate hpos hstep
  | timeout call => exact h.timeout hstep
  | process => exact h.process hstep
  | processFault => exact h.processFault hstep
  | exitThread policy => exact h.exitThread hstep
  | exitThreadStep => exact h.exitThreadStep hstep

/-- A thread that has just been created. -/
theorem start_holds (maxQueueSize : Nat) (fullPolicy : FullPolicy) :
    (start maxQueueSize fullPolicy).Holds priority
      (start maxQueueSize fullPolicy).queue.maxQueueSize [] [] where
  highQueue := rfl
  normalQueue := rfl
  lanes p c hc := by cases p <;> simp [lane] at hc
  order p := by cases p <;> rfl
  nodup := List.nodup_nil
  returned c := by simp [start, accepted, delegates]
  limited := rfl
  size := Nat.zero_le _
  running := rfl
  posted := by simp [start]
  called _ := rfl
  drain _ := rfl
  discard hp := by simp [start] at hp
  exited hw := by simp [start] at hw
  joined := Or.inl rfl

/-- The limit of the queue is never 0, whatever was asked for. -/
theorem start_limit_pos (maxQueueSize : Nat) (fullPolicy : FullPolicy) :
    0 < (start maxQueueSize fullPolicy).queue.maxQueueSize := by
  show 0 < if maxQueueSize = 0 then threadDesktopQueueSize else maxQueueSize
  split
  · decide
  · omega

/-- What no step changes any more once `ExitThread` has pushed its message. -/
structure Frozen (L L' : Lifetime) : Prop where
  called : L'.exiting ≠ .notCalled
  accepted : L'.accepted = L.accepted
  policy : L'.policy = L.policy
  taken : L.policy = some .discard → L'.taken = L.taken

/-- What stays as it is over two stretches of a run. -/
theorem Frozen.trans {L'' : Lifetime} (h : Frozen L L') (h' : Frozen L' L'') : Frozen L L'' where
  called := h'.called
  accepted := h'.accepted.trans h.accepted
  policy := h'.policy.trans h.policy
  taken hp := (h'.taken (h.policy.trans hp)).trans (h.taken hp)

/-- After `ExitThread` has been called nothing is accepted. -/
theorem Holds.frozen_dispatchDelegate (h : L.Holds priority limit high normal)
    (hcalled : L.exiting ≠ .notCalled) (hstep : L.dispatchDelegate priority call = some L') :
    Frozen L L' := by
  have hset (d : Dispatch) : Frozen L (L.setDispatch call d) := ⟨hcalled, rfl, rfl, fun _ => rfl⟩
  have hpush : L.push priority call = L.setDispatch call (.returned false) := by
    rw [Lifetime.push, ThreadQueue.pushUnlessExit, h.posted.mpr hcalled]
    rfl
  unfold Lifetime.dispatchDelegate at hstep
  rw [hpush] at hstep
  repeat' split at hstep
  all_goals first | contradiction | (cases hstep; exact hset _)

/-- Taking a message accepts none. -/
theorem takeNext_accepted {q q' : ThreadQueue ThreadMsg} {msg : DelegateMsg ThreadMsg}
    (h : q.takeNext = some (msg, q')) : q'.accepted = q.accepted := by
  unfold ThreadQueue.takeNext at h
  split at h
  · cases h
    rfl
  · cases h
    rfl
  · contradiction

/-- Nor does the worker. -/
theorem Holds.frozen_process (h : L.Holds priority limit high normal)
    (hcalled : L.exiting ≠ .notCalled) (hstep : L.process = some L') : Frozen L L' := by
  unfold Lifetime.process at hstep
  split at hstep
  · next hworker =>
    split at hstep
    · next msg queue hnext =>
      have haccepted : delegates (queue.accepted.map fun m => m.body) = L.accepted := by
        rw [takeNext_accepted hnext]
        rfl
      split at hstep
      · next call hbody =>
        cases hstep
        refine ⟨hcalled, haccepted, rfl, fun hp => ?_⟩
        -- under `DISCARD` only the exit message is left in the lanes
        obtain ⟨rfl, rfl⟩ := h.discard hp
        rw [ThreadQueue.takeNext, h.highQueue, h.normalQueue, marker,
          if_pos ⟨h.posted.mpr hcalled, by simp [hworker]⟩] at hnext
        cases hnext
        contradiction
      · cases hstep
        exact ⟨hcalled, haccepted, rfl, fun _ => rfl⟩
    · split at hstep
      · cases hstep
        exact ⟨hcalled, rfl, rfl, fun _ => rfl⟩
      · contradiction
  · cases hstep
    exact ⟨hcalled, rfl, rfl, fun _ => rfl⟩
  · contradiction

/-- Once `ExitThread` has been called nothing is accepted, whoever moves. -/
theorem Holds.frozen (h : L.Holds priority limit high normal) (hcalled : L.exiting ≠ .notCalled)
    {choice : Choice} (hstep : L.step priority choice = some L') : Frozen L L' := by
  cases choice with
  | dispatchDelegate call => exact h.frozen_dispatchDelegate hcalled hstep
  | timeout call =>
      simp only [Lifetime.step, Lifetime.timeout] at hstep
      split at hstep
      · split at hstep
        · contradiction
        · cases hstep
          exact ⟨hcalled, rfl, rfl, fun _ => rfl⟩
      · contradiction
  | process => exact h.frozen_process hcalled hstep
  | processFault =>
      simp only [Lifetime.step, Lifetime.processFault] at hstep
      split at hstep
      · cases hstep
        exact ⟨hcalled, rfl, rfl, fun _ => rfl⟩
      · contradiction
  | exitThread policy =>
      simp only [Lifetime.step, Lifetime.exitThread] at hstep
      contradiction
  | exitThreadStep =>
      simp only [Lifetime.step, Lifetime.exitThreadStep] at hstep
      repeat' split at hstep
      all_goals first
        | contradiction
        | (cases hstep
           exact ⟨by simp, rfl, rfl, fun _ => rfl⟩)

/-- What every step keeps. -/
theorem sound_of_runs {maxQueueSize : Nat} {fullPolicy : FullPolicy}
    (h : Runs (step priority) (start maxQueueSize fullPolicy) L) :
    L.Sound priority (start maxQueueSize fullPolicy).queue.maxQueueSize :=
  h.invariant (fun _ _ _ hsound hstep =>
    hsound.step (start_limit_pos maxQueueSize fullPolicy) hstep) ⟨[], [], start_holds ..⟩

end Lemmas

/-! ## What the queue promises -/

section Safe

variable (priority : Nat → Priority) (limit : Nat)

/-- At one moment: an accepted message is in one place, exactly once; the
messages of one priority are taken in the order in which they were enqueued. -/
structure Safe (L : Lifetime) : Prop where
  once : (L.queued ++ L.taken ++ L.discarded).Nodup
  places : ∀ c, c ∈ L.queued ++ L.taken ++ L.discarded ↔ L.dispatch c = .returned true
  enqueued : ∀ c, c ∈ L.accepted ↔ L.dispatch c = .returned true
  order : ∀ p, ofPriority priority p L.taken <+: ofPriority priority p L.accepted
  started : L.taken = L.invoked ++ L.worker.current
  bound : L.queued.length ≤ limit
  drain : L.policy ≠ some .discard → L.discarded = []
  drained : L.policy = some .drain → L.exiting = .returned →
    ∀ c, L.dispatch c = .returned true → c ∈ L.invoked

variable {priority limit} {L L' : Lifetime} {high normal : List Nat}

/-- The messages of one priority, wherever they are. -/
theorem Holds.places_eq (h : L.Holds priority limit high normal) (p : Priority) :
    ofPriority priority p L.accepted =
      ofPriority priority p (L.taken ++ L.discarded ++ L.queued) := by
  rw [h.order p, h.queued_eq, ofPriority_append, ofPriority_append, h.ofPriority_queued p]

/-- Every accepted message is somewhere, and as often as it was accepted. -/
theorem Holds.places_perm (h : L.Holds priority limit high normal) :
    List.Perm L.accepted (L.queued ++ L.taken ++ L.discarded) := by
  rw [List.perm_iff_count]
  intro c
  have hfilter (cs : List Nat) : cs.count c = (ofPriority priority (priority c) cs).count c :=
    (List.count_filter (by simp)).symm
  rw [hfilter L.accepted, h.places_eq, ← hfilter]
  simp only [List.count_append]
  omega

/-- What the invariant says about each call. -/
theorem Holds.safe (h : L.Holds priority limit high normal) : L.Safe priority limit where
  once := h.places_perm.nodup h.nodup
  places c := by rw [← h.places_perm.mem_iff, h.returned c]
  enqueued := h.returned
  order p := by
    rw [h.order p, List.append_assoc]
    exact List.prefix_append ..
  started := h.running
  bound := by
    rw [h.queued_eq, List.length_append]
    exact h.size
  drain := h.drain
  drained hpolicy hreturned c hc := by
    have hexited : L.worker = .exited := by
      rcases h.joined with hnot | ⟨rest, hrest⟩ | hexited
      · simp [hreturned] at hnot
      · simp [hreturned] at hrest
      · exact hexited
    obtain ⟨rfl, rfl, -⟩ := h.exited hexited
    -- nothing waits and nothing was cancelled, so it was taken, and the worker is not invoking
    rw [← h.returned c, h.places_perm.mem_iff, h.queued_eq, h.drain (by simp [hpolicy]),
      h.running, hexited] at hc
    simpa [Worker.current] using hc

end Safe

/-- Over every interleaving of a lifetime. -/
theorem thread_lifetime (priority : Nat → Priority) (maxQueueSize : Nat)
    (fullPolicy : FullPolicy) {L : Lifetime}
    (h : Runs (step priority) (start maxQueueSize fullPolicy) L) :
    L.Safe priority (start maxQueueSize fullPolicy).queue.maxQueueSize ∧
      ∀ L', Runs (step priority) L L' → L.exiting ≠ .notCalled →
        L'.accepted = L.accepted ∧ (L.policy = some .discard → L'.taken = L.taken) := by
  have hpos := start_limit_pos maxQueueSize fullPolicy
  have hsound := sound_of_runs h
  obtain ⟨high, normal, hholds⟩ := sound_of_runs h
  refine ⟨hholds.safe, fun L' hrest hcalled => ?_⟩
  have hlater : L'.Sound priority (start maxQueueSize fullPolicy).queue.maxQueueSize ∧
      Frozen L L' := by
    refine Runs.invariant (I := fun M =>
      M.Sound priority (start maxQueueSize fullPolicy).queue.maxQueueSize ∧ Frozen L M) hrest ?_
      ⟨hsound, ⟨hcalled, rfl, rfl, fun _ => rfl⟩⟩
    rintro M choice M' ⟨⟨high', normal', hM⟩, hfrozen⟩ hstep
    exact ⟨Sound.step hpos ⟨high', normal', hM⟩ hstep,
      hfrozen.trans (hM.frozen hfrozen.called hstep)⟩
  exact ⟨hlater.2.accepted, hlater.2.taken⟩

/-- Two calls of different priority, then `ExitThread(DRAIN)` to its end. -/
theorem thread_lifetime_drain :
    ∃ L, Runs (step fun call => if call = 1 then .high else .normal) (start 2 .drop) L ∧
      L.exiting = .returned ∧ L.invoked = [1, 0] ∧
      L.Safe (fun call => if call = 1 then .high else .normal) 2 := by
  have hrun : Runs (step fun call => if call = 1 then .high else .normal) (start 2 .drop)
      ((exec (step fun call => if call = 1 then .high else .normal) (start 2 .drop)
        [.dispatchDelegate 0, .dispatchDelegate 0, .dispatchDelegate 1, .dispatchDelegate 1,
          .dispatchDelegate 0, .dispatchDelegate 1, .exitThread .drain, .process, .process,
          .process, .process, .process, .exitThreadStep, .exitThreadStep, .exitThreadStep]).get
            (by decide)) :=
    ⟨_, (Option.some_get _).symm⟩
  exact ⟨_, hrun, rfl, rfl, (thread_lifetime _ 2 .drop hrun).1⟩

end Lifetime

end ActiveFsm
