import ActiveFsm.Refinement

/-!
# ActiveFsm.Service

The invariant rule for active objects.  What holds of the machine whenever its
thread waits for a message, and is restored by every message that can be in
the queue, holds in every interleaving: however many threads there are,
whatever the size of the queue and its policy, and whether the decisions that
the messages carry are up to date or not.
-/

namespace ActiveFsm

open Proc

variable {σ δ : Type}

/-! ## What may wait in the queue -/

/-- Every message in the queue satisfies `P`. -/
def ThreadQueue.All {β : Type} (P : β → Prop) (q : ThreadQueue β) : Prop :=
  (∀ msg ∈ q.highQueue, P msg.body) ∧ ∀ msg ∈ q.normalQueue, P msg.body

namespace ThreadQueue

variable {β : Type} {P : β → Prop} {q q' : ThreadQueue β} {msg : DelegateMsg β}

/-- A message goes into its lane. -/
theorem All.pushBack (hq : q.All P) (hmsg : P msg.body) : (q.pushBack msg).All P := by
  unfold ThreadQueue.pushBack
  cases msg.priority with
  | normal => exact ⟨hq.1, List.forall_mem_append.mpr ⟨hq.2, List.forall_mem_singleton.mpr hmsg⟩⟩
  | high => exact ⟨List.forall_mem_append.mpr ⟨hq.1, List.forall_mem_singleton.mpr hmsg⟩, hq.2⟩

/-- The same, unless the thread is exiting. -/
theorem All.pushUnlessExit (hq : q.All P) (hmsg : P msg.body) : (q.pushUnlessExit msg).All P := by
  unfold ThreadQueue.pushUnlessExit
  split
  · exact hq
  · exact hq.pushBack hmsg

/-- The same, unless the queue is full. -/
theorem All.tryPush (hq : q.All P) (hmsg : P msg.body) : (q.tryPush msg).All P := by
  unfold ThreadQueue.tryPush
  split
  · exact hq
  · exact hq.pushUnlessExit hmsg

/-- What the worker takes, and what it leaves. -/
theorem All.takeNext (hq : q.All P) (h : q.takeNext = some (msg, q')) : P msg.body ∧ q'.All P := by
  obtain ⟨hhigh, hnormal⟩ := hq
  unfold ThreadQueue.takeNext at h
  split at h
  · next rest _ heq =>
      obtain ⟨rfl, rfl⟩ := Prod.mk.inj (Option.some.inj h)
      rw [heq] at hhigh
      obtain ⟨hfirst, hrest⟩ := List.forall_mem_cons.mp hhigh
      exact ⟨hfirst, hrest, hnormal⟩
  · next rest heq hnil =>
      obtain ⟨rfl, rfl⟩ := Prod.mk.inj (Option.some.inj h)
      rw [hnil] at hnormal
      obtain ⟨hfirst, hrest⟩ := List.forall_mem_cons.mp hnormal
      exact ⟨hfirst, hhigh, hrest⟩
  · contradiction

/-- Nothing waits in the queue of a thread that has just been created. -/
theorem IsNew.all (hq : q.IsNew) : q.All P := by
  unfold ThreadQueue.IsNew at hq
  rw [hq]
  exact ⟨by simp, by simp⟩

end ThreadQueue

/-! ## What other threads do -/

/-- The action leaves the machine alone and puts no message into its queue that
does not satisfy `P`. -/
def Sends (P : Message δ → Prop) (f : World σ δ → World σ δ) : Prop :=
  ∀ w, (f w).SameMachine w ∧ (w.queue.All P → (f w).queue.All P)

section Senders

variable {M : Machine σ δ} {self : Frame δ} {P : Message δ → Prop}

theorem sends_id : Sends P (id : World σ δ → World σ δ) := fun _ => ⟨⟨rfl, rfl, rfl⟩, id⟩

/-- An action on the queue, of whose messages `P` holds. -/
theorem sends_onQueue {f : ThreadQueue (Message δ) → ThreadQueue (Message δ)}
    (hf : ∀ q : ThreadQueue (Message δ), q.All P → (f q).All P) :
    Sends P (World.onQueue f : World σ δ → World σ δ) :=
  fun w => ⟨⟨rfl, rfl, rfl⟩, hf w.queue⟩

/-- Dispatching a message that satisfies `P`, whatever becomes of it. -/
theorem marshal_sends {d : Delegate δ} (hd : P ⟨self, d⟩) :
    (marshal self d : Fsm σ δ Unit).Within (fun _ => False) (Sends P) := by
  have hdispatch : (dispatchDelegate (message self d) : Fsm σ δ Bool).Within (fun _ => False)
      (Sends P) := by
    refine .inr ⟨sends_id, fun w => ?_⟩
    dsimp only
    split
    · trivial
    · refine .inr ⟨sends_onQueue fun q hq => hq.tryPush hd, fun w => ?_⟩
      dsimp only
      split
      · split
        · trivial
        · trivial
        · refine .inr ⟨sends_onQueue fun q hq => hq.pushUnlessExit hd, fun o => ?_⟩
          cases o <;> trivial
      · trivial
  exact within_bind hdispatch fun _ => trivial

/-- **Off the machine's thread** a call of an event function sends what it may
queue, and does nothing else. -/
theorem call_sends (hself : isOnStateMachineThread M self = false) (hc : self.call.IsPlain)
    (hP : ∀ d, self.call.Queues d → P ⟨self, d⟩) (n : Nat) :
    (call M self n self.call).Within (fun _ => False) (Sends P) := by
  cases n with
  | zero => trivial
  | succ n =>
      obtain ⟨f, hf, hstate⟩ := hc
      have hmap : (transitionMap M self (call M self n) n f).Within (fun _ => False) (Sends P) := by
        rw [transitionMap, hself]
        exact marshal_sends (hP _ (by simp [hf, Call.Queues]))
      rw [hf, call, eventFunction]
      cases hp : f.parentTransition with
      | none => exact hmap
      | some t =>
          have hparent : (externalEvent M self (call M self n) n t none).Within (fun _ => False)
              (Sends P) := by
            rw [externalEvent, if_neg (hstate t hp).1, if_neg (hstate t hp).2, hself]
            exact marshal_sends (hP _ (by simp [hf, Call.Queues, hp]))
          refine .inr ⟨sends_id, fun w => ?_⟩
          by_cases hlen : f.transitions.length ≤ w.members.currentState.toNat
          · simp only [ret_bind, hlen, if_true]
            refine .inr ⟨sends_id, fun w => ?_⟩
            by_cases hmax : w.members.currentState < M.maxStates
            · simpa [hmax] using hparent
            · simpa [hmax] using hmap
          · simpa [hlen] using hmap

end Senders

/-! ## The rule -/

section Rule

variable (M : Machine σ δ) (thread : ThreadId) (n : Nat) (P : Message δ → Prop)
  (R : List (Message δ) → World σ δ → Prop) (E : List (Message δ) → Stop → Prop)

/-- What has to be shown of one message: where `R` holds of a machine at rest
that has been through `taken`, the message leads to where it holds again, or
stops the machine as `E` allows. -/
structure Serves : Prop where
  serve : ∀ taken m w, P m → R taken w →
    (invoke M thread n m).wp (fun _ => R (taken ++ [m])) (fun e _ => E (taken ++ [m]) e) w
  /-- `R` is not about the queue. -/
  same : ∀ taken w w', R taken w → w.SameMachine w' → R taken w'

/-- Where the program is. -/
structure System.Serving (S : System σ δ) : Prop where
  queue : S.world.queue.All P
  own : S.pending thread = []
  pending : ∀ t, ∀ c ∈ S.pending t, c.IsPlain ∧ ∀ d, c.Queues d → P ⟨⟨t, c⟩, d⟩
  others : ∀ t, t ≠ thread → (S.running t).Within (fun _ => False) (Sends P)
  machine : MachineCode thread (S.running thread)
  outcome : (S.running thread).wp (fun _ => R S.taken) (fun e _ => E S.taken e) S.world

variable {M thread n P R E} {S S' : System σ δ} {ch : Choice}

/-- What the queue holds makes no difference to the machine's thread. -/
theorem System.Serving.outcome_same (hserves : Serves M thread n P R E)
    (hS : S.Serving thread P R E) {w : World σ δ} (hsame : w.SameMachine S.world) :
    (S.running thread).wp (fun _ => R S.taken) (fun e _ => E S.taken e) w := by
  obtain ⟨hout, hworld⟩ := hS.machine.run hsame
  have hwp := hS.outcome
  unfold wp at hwp ⊢
  rcases hr : (S.running thread).run S.world with ⟨e | u, w'⟩ <;>
    rcases hr' : (S.running thread).run w with ⟨e' | u', w''⟩ <;>
    simp only [hr, hr'] at hwp hout hworld ⊢
  · cases hout
    exact hwp
  · contradiction
  · contradiction
  · exact hserves.same _ w' w'' hwp ⟨hworld.1.symm, hworld.2.1.symm, hworld.2.2.symm⟩

/-- The machine's thread makes an action. -/
theorem System.Serving.own_step {x : Fsm σ δ Unit} {w : World σ δ} {m : Move}
    (hS : S.Serving thread P R E) (h : (S.running thread).step m S.world = some (x, w)) :
    System.Serving thread P R E
      { S with running := Function.update S.running thread x, world := w } := by
  obtain ⟨rfl, hx, f, hf, rfl⟩ := hS.machine.step h
  have hqueue : (f S.world).queue = S.world.queue := (hf S.world).1
  constructor
  case queue => simpa only [hqueue] using hS.queue
  case own => exact hS.own
  case pending => exact hS.pending
  case others =>
    intro t ht
    simpa only [Function.update_of_ne ht] using hS.others t ht
  case machine => simpa only [Function.update_self] using hx
  case outcome =>
    have hwp := hS.outcome
    unfold wp at hwp ⊢
    simp only [Function.update_self]
    rwa [← run_step h]

/-- Another thread makes an action. -/
theorem System.Serving.other_step {t : ThreadId} {x : Fsm σ δ Unit} {w : World σ δ} {m : Move}
    (hserves : Serves M thread n P R E) (hS : S.Serving thread P R E) (ht : t ≠ thread)
    (h : (S.running t).step m S.world = some (x, w)) :
    System.Serving thread P R E
      { S with running := Function.update S.running t x, world := w } := by
  obtain ⟨hx, hw⟩ := (hS.others t ht).step id h
  have hsends : w.SameMachine S.world ∧ w.queue.All P := by
    obtain rfl | ⟨f, hf, rfl⟩ := hw
    · exact ⟨⟨rfl, rfl, rfl⟩, hS.queue⟩
    · exact ⟨(hf S.world).1, (hf S.world).2 hS.queue⟩
  constructor
  case queue => exact hsends.2
  case own => exact hS.own
  case pending => exact hS.pending
  case others =>
    refine (Function.forall_update_iff _ fun t' (y : Fsm σ δ Unit) => t' ≠ thread →
      y.Within (fun _ => False) (Sends P)).mpr ⟨fun _ => hx, fun t' _ ht' => hS.others t' ht'⟩
  case machine => simpa only [Function.update_of_ne (Ne.symm ht)] using hS.machine
  case outcome =>
    simpa only [Function.update_of_ne (Ne.symm ht)] using hS.outcome_same hserves hsends.1

/-- A thread begins its next call. -/
theorem System.Serving.call_step (hM : M.thread = some thread) (hS : S.Serving thread P R E)
    {t : ThreadId} {c : Call δ} {cs : List (Call δ)} (hpending : S.pending t = c :: cs) :
    System.Serving thread P R E { S with
      running := Function.update S.running t (call M ⟨t, c⟩ n c)
      pending := Function.update S.pending t cs } := by
  have ht : t ≠ thread := by
    rintro rfl
    rw [hS.own] at hpending
    contradiction
  have hc : c ∈ S.pending t := by
    rw [hpending]
    exact List.mem_cons_self
  obtain ⟨hplain, hqueues⟩ := hS.pending t c hc
  constructor
  case queue => exact hS.queue
  case own => simpa only [Function.update_of_ne (Ne.symm ht)] using hS.own
  case pending =>
    refine (Function.forall_update_iff _ fun t' (cs' : List (Call δ)) => ∀ c ∈ cs',
      c.IsPlain ∧ ∀ d, c.Queues d → P ⟨⟨t', c⟩, d⟩).mpr
        ⟨fun c' hc' => ?_, fun t' _ => hS.pending t'⟩
    refine hS.pending t c' ?_
    rw [hpending]
    exact List.mem_cons_of_mem c hc'
  case others =>
    refine (Function.forall_update_iff _ fun t' (y : Fsm σ δ Unit) => t' ≠ thread →
      y.Within (fun _ => False) (Sends P)).mpr ⟨fun _ => ?_, fun t' _ ht' => hS.others t' ht'⟩
    have hself : isOnStateMachineThread M (⟨t, c⟩ : Frame δ) = false := isOn_other hM ht
    exact call_sends hself hplain hqueues n
  case machine => simpa only [Function.update_of_ne (Ne.symm ht)] using hS.machine
  case outcome => simpa only [Function.update_of_ne (Ne.symm ht)] using hS.outcome

/-- The machine's thread takes a message. -/
theorem System.Serving.take_step (hM : M.RunsOn thread) (hserves : Serves M thread n P R E)
    (hS : S.Serving thread P R E) (hidle : S.running thread = ret ())
    {msg : DelegateMsg (Message δ)} {queue : ThreadQueue (Message δ)}
    (htake : S.world.queue.takeNext = some (msg, queue)) :
    System.Serving thread P R E { S with
      world := { S.world with queue := queue }
      running := Function.update S.running thread (invoke M thread n msg.body)
      taken := S.taken ++ [msg.body] } := by
  obtain ⟨hmsg, hqueue⟩ := hS.queue.takeNext htake
  have hrest : R S.taken S.world := by
    have hout := hS.outcome
    rw [hidle] at hout
    exact hout
  constructor
  case queue => exact hqueue
  case own => exact hS.own
  case pending => exact hS.pending
  case others =>
    intro t ht
    simpa only [Function.update_of_ne ht] using hS.others t ht
  case machine => simpa only [Function.update_self] using invoke_machine hM n msg.body
  case outcome =>
    simp only [Function.update_self]
    exact hserves.serve S.taken msg.body _ hmsg (hserves.same _ _ _ hrest ⟨rfl, rfl, rfl⟩)

/-- One step of the program. -/
theorem System.Serving.step (hM : M.thread = some thread) (hserves : Serves M thread n P R E)
    (hS : S.Serving thread P R E) (h : S.step M thread n ch = some S') :
    S'.Serving thread P R E := by
  obtain ⟨t, m, x, w, rfl, hstep, rfl⟩ | ⟨t, c, cs, rfl, -, hpending, rfl⟩ |
    ⟨msg, queue, rfl, hidle, htake, rfl⟩ := System.step_cases h
  · by_cases ht : t = thread
    · subst ht
      exact hS.own_step hstep
    · exact hS.other_step hserves ht hstep
  · exact hS.call_step hM hpending
  · exact hS.take_step (runsOn_of_thread hM) hserves hidle htake

/-- **The invariant rule**: whatever else the threads of the program do. -/
theorem Reaches.serving {ok : System σ δ → Choice → Prop} (hM : M.thread = some thread)
    (hserves : Serves M thread n P R E) (hS : S.Serving thread P R E)
    (h : Reaches M thread n ok S S') : S'.Serving thread P R E :=
  h.invariant (fun _ _ _ hS _ hstep => hS.step hM hserves hstep) hS

/-- Where a program begins. -/
theorem System.Serving.initial {start : World σ δ} {calls : ThreadId → List (Call δ)}
    (hnew : start.queue.IsNew) (hown : calls thread = [])
    (hcalls : ∀ t, ∀ c ∈ calls t, c.IsPlain ∧ ∀ d, c.Queues d → P ⟨⟨t, c⟩, d⟩)
    (hstart : R [] start) : System.Serving thread P R E { world := start, pending := calls } where
  queue := hnew.all
  own := hown
  pending := hcalls
  others _ _ := trivial
  machine := trivial
  outcome := hstart

/-- Where the machine's thread waits for a message. -/
theorem System.Serving.idle (hS : S.Serving thread P R E) (hidle : S.running thread = ret ()) :
    R S.taken S.world := by
  have hout := hS.outcome
  rw [hidle] at hout
  exact hout

/-- There, what is shown of the machine may be replaced. -/
theorem System.Serving.restart {R' : List (Message δ) → World σ δ → Prop}
    {E' : List (Message δ) → Stop → Prop} (hS : S.Serving thread P R E)
    (hidle : S.running thread = ret ()) (hR : R' S.taken S.world) : S.Serving thread P R' E' where
  queue := hS.queue
  own := hS.own
  pending := hS.pending
  others := hS.others
  machine := hS.machine
  outcome := by
    rw [hidle]
    exact hR

/-- Where it has stopped. -/
theorem System.Serving.halted (hS : S.Serving thread P R E) {e : Stop}
    (he : S.running thread = halt e) : E S.taken e := by
  have hout := hS.outcome
  rw [he] at hout
  exact hout

end Rule

end ActiveFsm
