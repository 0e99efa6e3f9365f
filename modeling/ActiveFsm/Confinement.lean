import ActiveFsm.Active

/-!
# ActiveFsm.Confinement

Thread confinement: callbacks, signals and writes of the members happen on
the machine's thread only.

`ExternalEvent` looks at the target before it looks at the thread, so an event
that cannot happen is reported on the thread that raised it.  In every run in
which no other thread gets to that branch the machine is confined to its
thread (`thread_confinement`).
-/

namespace ActiveFsm

open Proc

variable {σ δ : Type}

/-- Thread `t` is about to execute `ExternalEvent(CANNOT_HAPPEN)`. -/
def RaisesCannotHappen (M : Machine σ δ) (t : ThreadId) (x : Fsm σ δ Unit) : Prop :=
  ∃ c nested n d, x = externalEvent M ⟨t, c⟩ nested n cannotHappen d

/-- The action changes nothing but the queue. -/
def QueueOnly (f : World σ δ → World σ δ) : Prop := ∀ w, (f w).SameMachine w

/-! ## What other threads execute -/

section Foreign

variable {M : Machine σ δ} {self : Frame δ} {B : Fsm σ δ Unit → Prop}

theorem queueOnly_id : QueueOnly (id : World σ δ → World σ δ) := fun _ => ⟨rfl, rfl, rfl⟩

/-- An action on the queue is nothing else. -/
theorem queueOnly_onQueue (f : ThreadQueue (Message δ) → ThreadQueue (Message δ)) :
    QueueOnly (World.onQueue f : World σ δ → World σ δ) := fun _ => ⟨rfl, rfl, rfl⟩

/-- `DispatchDelegate` touches the queue only. -/
theorem dispatchDelegate_within (msg : DelegateMsg (Message δ)) :
    (dispatchDelegate msg : Fsm σ δ Bool).Within (fun _ => False) QueueOnly := by
  refine .inr ⟨queueOnly_id, fun w => ?_⟩
  dsimp only
  split
  · trivial
  · refine .inr ⟨queueOnly_onQueue _, fun w => ?_⟩
    dsimp only
    split
    · split
      · trivial
      · trivial
      · refine .inr ⟨queueOnly_onQueue _, fun o => ?_⟩
        cases o <;> trivial
    · trivial

/-- So does marshalling a call. -/
theorem marshal_within (d : Delegate δ) : (marshal self d : Fsm σ δ Unit).Within B QueueOnly :=
  within_bind (dispatchDelegate_within _) fun _ => trivial

/-- The check of the range reads only. -/
theorem inDerivedRange_within (f : EventFunction δ) :
    (inDerivedRange M f : Fsm σ δ Bool).Within (fun _ => False) QueueOnly := by
  refine .inr ⟨queueOnly_id, fun w => ?_⟩
  show Within _ _ (ite _ _ _)
  split
  · exact .inr ⟨queueOnly_id, fun _ => trivial⟩
  · trivial

variable (hself : isOnStateMachineThread M self = false)

include hself

/-- Off the machine's thread nothing happens but `OnCannotHappen`. -/
theorem externalEvent_within (nested : Call δ → Fsm σ δ Unit) (n : Nat) (t : UInt8)
    (d : EventPtr δ) :
    (externalEvent M self nested n t d).Within (RaisesCannotHappen M self.thread) QueueOnly := by
  by_cases ht : t = cannotHappen
  · rw [ht]
    exact within_of ⟨self.call, nested, n, d, rfl⟩
  · unfold externalEvent
    rw [if_neg ht, hself]
    split
    · trivial
    · exact marshal_within _

/-- **On another thread** a call only queues, unless its event cannot happen. -/
theorem call_within (n : Nat) (c : Call δ) :
    (call M self n c).Within (RaisesCannotHappen M self.thread) QueueOnly := by
  cases n with
  | zero => trivial
  | succ n =>
      cases c with
      | externalEvent t d => exact externalEvent_within hself _ n t d
      | event f =>
          have hmap : (transitionMap M self (call M self n) n f).Within
              (RaisesCannotHappen M self.thread) QueueOnly := by
            rw [transitionMap, hself]
            exact marshal_within _
          rw [call, eventFunction]
          cases f.parentTransition with
          | none => exact hmap
          | some p =>
              refine within_bind (inDerivedRange_within f) fun inRange => ?_
              cases inRange with
              | true => exact externalEvent_within hself _ n p none
              | false => exact hmap

end Foreign

/-! ## Every run -/

/-- No thread other than the machine's takes the `CANNOT_HAPPEN` branch of
`ExternalEvent` in this step. -/
def Marshalled (M : Machine σ δ) (thread : ThreadId) (S : System σ δ) (ch : Choice) : Prop :=
  ∀ t m, ch = .move t m → t ≠ thread → ¬RaisesCannotHappen M t (S.running t)

/-- What thread `t` may be executing. -/
def Executes (M : Machine σ δ) (thread t : ThreadId) (x : Fsm σ δ Unit) : Prop :=
  if t = thread then MachineCode thread x else x.Within (RaisesCannotHappen M t) QueueOnly

/-- The log is the machine's thread's, and every thread executes what it may. -/
structure System.Confined (M : Machine σ δ) (thread : ThreadId) (S : System σ δ) : Prop where
  log : ∀ e ∈ S.world.log, e.thread = thread
  running : ∀ t, Executes M thread t (S.running t)

section Runs

variable {M : Machine σ δ} {thread : ThreadId} {n : Nat} {S S' : System σ δ} {ch : Choice}

/-- A machine runs on the thread it has been given. -/
theorem runsOn_of_thread (hM : M.thread = some thread) : M.RunsOn thread := by
  intro t ht
  rw [hM] at ht
  exact (Option.some.inj ht).symm

/-- And on no other. -/
theorem isOn_other (hM : M.thread = some thread) {self : Frame δ} (hself : self.thread ≠ thread) :
    isOnStateMachineThread M self = false := by
  unfold isOnStateMachineThread
  rw [hM]
  exact decide_eq_false hself.symm

/-- A call on any thread keeps to its own business. -/
theorem executes_call (hM : M.thread = some thread) (self : Frame δ) (c : Call δ) :
    Executes M thread self.thread (call M self n c) := by
  unfold Executes
  by_cases ht : self.thread = thread
  · rw [if_pos ht, ← ht]
    refine call_machine ?_ n c
    rw [ht]
    exact runsOn_of_thread hM
  · rw [if_neg ht]
    exact call_within (isOn_other hM ht) n c

/-- Another thread leaves the machine alone. -/
theorem System.Confined.other (hS : S.Confined M thread) (hok : Marshalled M thread S ch)
    (h : S.step M thread n ch = some S') (hother : ch.by thread ≠ thread) :
    S'.world.SameMachine S.world := by
  obtain ⟨t, m, x, w, rfl, hstep, rfl⟩ | ⟨t, c, cs, rfl, -, -, rfl⟩ | ⟨msg, queue, rfl, -⟩ :=
    System.step_cases h
  · have hrun := hS.running t
    unfold Executes at hrun
    have hne : t ≠ thread := hother
    rw [if_neg hne] at hrun
    obtain ⟨-, rfl | ⟨f, hf, rfl⟩⟩ := hrun.step (hok t m rfl hother) hstep
    · exact ⟨rfl, rfl, rfl⟩
    · exact hf S.world
  · exact ⟨rfl, rfl, rfl⟩
  · exact absurd rfl hother

/-- An action of thread `t`. -/
theorem Executes.step {t : ThreadId} {x x' : Fsm σ δ Unit} {m : Move} {w w' : World σ δ}
    (hx : Executes M thread t x) (hok : t ≠ thread → ¬RaisesCannotHappen M t x)
    (h : x.step m w = some (x', w')) (hlog : ∀ e ∈ w.log, e.thread = thread) :
    Executes M thread t x' ∧ ∀ e ∈ w'.log, e.thread = thread := by
  unfold Executes at hx ⊢
  by_cases ht : t = thread
  · rw [if_pos ht] at hx ⊢
    obtain ⟨-, hx', f, hf, rfl⟩ := hx.step h
    obtain ⟨-, lines, hlines, hthread⟩ := hf w
    refine ⟨hx', fun e he => ?_⟩
    rw [hlines] at he
    exact (List.mem_append.mp he).elim (hlog e) (hthread e)
  · rw [if_neg ht] at hx ⊢
    obtain ⟨hx', rfl | ⟨f, hf, rfl⟩⟩ := hx.step (hok ht) h
    · exact ⟨hx', hlog⟩
    · refine ⟨hx', ?_⟩
      rw [(hf w).2.2]
      exact hlog

/-- Thread `t` goes on with `x`. -/
theorem System.Confined.update (hS : S.Confined M thread) {t : ThreadId} {x : Fsm σ δ Unit}
    (hx : Executes M thread t x) (t' : ThreadId) :
    Executes M thread t' (Function.update S.running t x t') := by
  have hall := (Function.forall_update_iff S.running (Executes M thread)).mpr
    ⟨hx, fun t' _ => hS.running t'⟩
  exact hall t'

/-- One step of the program. -/
theorem System.Confined.step (hM : M.thread = some thread) (hS : S.Confined M thread)
    (hok : Marshalled M thread S ch) (h : S.step M thread n ch = some S') :
    S'.Confined M thread := by
  obtain ⟨t, m, x, w, rfl, hstep, rfl⟩ | ⟨t, c, cs, rfl, -, -, rfl⟩ |
    ⟨msg, queue, rfl, -, -, rfl⟩ := System.step_cases h
  · obtain ⟨hx, hlog⟩ := (hS.running t).step (hok t m rfl) hstep hS.log
    exact ⟨hlog, hS.update hx⟩
  · have hcall : Executes M thread t (call M ⟨t, c⟩ n c) := executes_call hM ⟨t, c⟩ c
    exact ⟨hS.log, hS.update hcall⟩
  · have hinvoke : Executes M thread thread (invoke M thread n msg.body) := by
      unfold Executes
      rw [if_pos rfl]
      exact invoke_machine (runsOn_of_thread hM) n msg.body
    exact ⟨hS.log, hS.update hinvoke⟩

end Runs

/-- **Thread confinement**: in every run, of any number of threads that make
any calls, in which no other thread takes the `CANNOT_HAPPEN` branch of
`ExternalEvent`, everything in the log happened on the machine's thread, and a
step of another thread changes neither the members nor the user's data. -/
theorem thread_confinement (M : Machine σ δ) {thread : ThreadId} (hM : M.thread = some thread)
    (n : Nat) {w : World σ δ} (hw : w.log = []) (pending : ThreadId → List (Call δ))
    {S : System σ δ}
    (h : Reaches M thread n (Marshalled M thread) { world := w, pending := pending } S) :
    (∀ e ∈ S.world.log, e.thread = thread) ∧
      ∀ ch S', Marshalled M thread S ch → S.step M thread n ch = some S' →
        ch.by thread ≠ thread → S'.world.SameMachine S.world := by
  have hstart : System.Confined M thread { world := w, pending := pending } := by
    refine ⟨by simp [hw], fun t => ?_⟩
    unfold Executes
    split <;> trivial
  have hS : S.Confined M thread :=
    h.invariant (fun S ch S' hS hok hstep => hS.step hM hok hstep) hstart
  exact ⟨hS.log, fun ch S' hok hstep hother => hS.other hok hstep hother⟩

/-! ## Two threads -/

/-- Code that would return if it ran alone does not take that branch. -/
theorem not_raises_of_returns {M : Machine σ δ} {t : ThreadId} {x : Fsm σ δ Unit} {w : World σ δ}
    (h : (x.run w).1.isOk = true) : ¬RaisesCannotHappen M t x := by
  rintro ⟨c, nested, n, d, rfl⟩
  have hhalt (s : UInt8) (w : World σ δ) :
      ((onCannotHappen M ⟨t, c⟩ nested s).bind fun _ =>
        (halt (.fault .cannotHappen) : Fsm σ δ Unit)).wp (fun _ _ => False)
        (fun _ _ => True) w := by
    rw [wp_bind]
    unfold wp
    split <;> trivial
  have hrun : (externalEvent M ⟨t, c⟩ nested n cannotHappen d).wp (fun _ _ => False)
      (fun _ _ => True) w := by
    have hne : cannotHappen ≠ eventIgnored := by decide
    rw [externalEvent, if_neg hne, if_pos rfl]
    exact hhalt w.members.currentState w
  rcases hr : (externalEvent M ⟨t, c⟩ nested n cannotHappen d).run w with ⟨e | a, w'⟩
  · simp [hr, Except.isOk, Except.toBool] at h
  · exact wp_ok hrun hr

/-- Two states; the machine runs on thread 0. -/
def gate : Machine Nat Nat where
  maxStates := 2
  maps := .flat (some [⟨some fun _ => .ret ()⟩, ⟨some fun _ => .ret ()⟩]) none
  thread := some 0
  maps_size := by simp [StateMaps.HasSize]

/-- Every step of a thread other than 0 is one of code that would return. -/
def gateOk (S : System Nat Nat) : Choice → Bool
  | .move t _ => decide (t = 0) || ((S.running t).run S.world).1.isOk
  | _ => true

/-- The condition of the theorem, as it is checked. -/
theorem gateOk_marshalled {S : System Nat Nat} {ch : Choice} (h : gateOk S ch = true) :
    Marshalled gate 0 S ch := by
  rintro t m rfl ht
  simp only [gateOk, ht, decide_false, Bool.false_or] at h
  exact not_raises_of_returns h

/-- Thread `t` makes the calls `cs`. -/
def only (t : ThreadId) (cs : List (Call Nat)) : System Nat Nat where
  world := World.start { currentState := 0 } 0
  pending := fun t' => if t' = t then cs else []

/-- Thread 1 raises an ignored event, and one for state 1 that thread 0
executes. -/
def gateChoices : List Choice :=
  [.call 1, .call 1, .move 1 .go, .move 1 .go, .take] ++ List.replicate 13 (.move 0 .go)

theorem thread_confinement_gate :
    ∃ S, Reaches gate 0 4 (Marshalled gate 0)
        (only 1 [.externalEvent eventIgnored none, .externalEvent 1 none]) S ∧
      S.world.members.currentState = 1 ∧ S.world.log.length = 7 ∧
      ∀ e ∈ S.world.log, e.thread = 0 := by
  have hexec : ∃ S, (only 1 [.externalEvent eventIgnored none, .externalEvent 1 none]).exec gate 0 4
      gateOk gateChoices = some S ∧ S.world.members.currentState = 1 ∧ S.world.log.length = 7 :=
    ⟨_, rfl, rfl, rfl⟩
  obtain ⟨S, hS, hcur, hlen⟩ := hexec
  have hreach := (reaches_of_exec hS).mono fun _ _ => gateOk_marshalled
  refine ⟨S, hreach, hcur, hlen, ?_⟩
  exact (thread_confinement gate rfl 4 rfl _ hreach).1

/-- Thread 1 raises an event that cannot happen: the subscribers of
`OnCannotHappen` are called on thread 1. -/
theorem reported_on_caller :
    ∃ S, Reaches gate 0 4 (fun _ _ => True) (only 1 [.externalEvent cannotHappen none]) S ∧
      ∃ e ∈ S.world.log, e.obs = .onCannotHappen 0 ∧ e.thread = 1 := by
  have hexec : ∃ S, (only 1 [.externalEvent cannotHappen none]).exec gate 0 4 (fun _ _ => true)
      [.call 1, .move 1 .go, .move 1 .go] = some S ∧
      S.world.log = [⟨1, .onCannotHappen 0, { currentState := 0 }⟩] := ⟨_, rfl, rfl⟩
  obtain ⟨S, hS, hlog⟩ := hexec
  refine ⟨S, (reaches_of_exec hS).mono fun _ _ _ => trivial, ?_⟩
  rw [hlog]
  exact ⟨_, List.mem_cons_self, rfl, rfl⟩

end ActiveFsm
