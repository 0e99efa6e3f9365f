import ActiveFsm.Confinement

/-!
# ActiveFsm.Refinement

Active-object mode against synchronous mode.  Threads post calls of event
functions, the machine's thread executes them; the reference is the machine
without a thread, executing the same calls one after the other in the order
in which they were queued.

An event function is looked up twice: `PARENT_TRANSITION` where it is called,
the transition map where it is executed.  What the first decides can be out of
date when the message is taken (`stale_decision`); in every run in which it is
not, and in every run without `PARENT_TRANSITION`, the active object refines
the synchronous machine (`parent_transition_refines`, `active_refines`).
-/

namespace ActiveFsm

open Proc

variable {σ δ : Type}

/-! ## The machine without a thread -/

/-- `SetThread` has not been called. -/
def Machine.synchronous (M : Machine σ δ) : Machine σ δ := { M with thread := none }

section Synchronous

variable {M : Machine σ δ} {self : Frame δ} {nested : Call δ → Fsm σ δ Unit}
  {rows : List (StateMapRowHSM σ δ)}

/-- `FindLCA` does not ask for the thread. -/
theorem lcaInner_synchronous (a : UInt8) (left : Nat) (b : UInt8) :
    (lcaInner M.synchronous rows a left b : Fsm σ δ Bool) = lcaInner M rows a left b := by
  induction left generalizing b with
  | zero =>
      unfold lcaInner
      rfl
  | succ left ih =>
      unfold lcaInner
      simp only [ih]
      rfl

/-- Nor does its outer walk. -/
theorem lcaOuter_synchronous (b : UInt8) (left : Nat) (a : UInt8) :
    (lcaOuter M.synchronous rows b left a : Fsm σ δ UInt8) = lcaOuter M rows b left a := by
  induction left generalizing a with
  | zero =>
      unfold lcaOuter
      rfl
  | succ left ih =>
      unfold lcaOuter
      simp only [ih, lcaInner_synchronous]
      rfl

/-- Nor do the exits. -/
theorem exitWalk_synchronous (lca : UInt8) (left : Nat) (s : UInt8) :
    exitWalk M.synchronous self nested rows lca left s =
      exitWalk M self nested rows lca left s := by
  induction left generalizing s with
  | zero =>
      unfold exitWalk
      rfl
  | succ left ih =>
      unfold exitWalk
      simp only [ih]
      rfl

/-- Nor does the entry chain. -/
theorem collectEntryChain_synchronous (lca : UInt8) (left : Nat) (s : UInt8) :
    (collectEntryChain M.synchronous rows lca left s : Fsm σ δ (List UInt8)) =
      collectEntryChain M rows lca left s := by
  induction left generalizing s with
  | zero =>
      unfold collectEntryChain
      rfl
  | succ left ih =>
      unfold collectEntryChain
      simp only [ih]
      rfl

/-- Nor does the move as a whole. -/
theorem moveHSM_synchronous (s t : UInt8) (d : EventPtr δ) :
    moveHSM M.synchronous self nested rows s t d = moveHSM M self nested rows s t d := by
  simp only [moveHSM, changeStateHSM, findLCA, lcaOuter_synchronous, exitWalk_synchronous,
    collectEntryChain_synchronous]
  rfl

/-- Whichever engine it is. -/
theorem stateEngine_synchronous (n : Nat) :
    stateEngine M.synchronous self nested n = stateEngine M self nested n := by
  have hdispatch (rows : List (StateMapRowHSM σ δ)) :
      dispatchHSM M.synchronous self nested rows = dispatchHSM M self nested rows := by
    simp only [dispatchHSM, transitionHSM, moveHSM_synchronous]
    rfl
  have hmaps : M.synchronous.maps = M.maps := rfl
  simp only [stateEngine, hmaps, stateEngineHSM, hdispatch]
  rfl

/-- Nor does the lookup of an event. -/
theorem resolve_synchronous (f : EventFunction δ) (left : Nat) (state resolved : UInt8) :
    resolve M.synchronous f left state resolved = resolve M f left state resolved := by
  induction left generalizing state resolved with
  | zero =>
      unfold resolve
      rfl
  | succ left ih =>
      unfold resolve
      simp only [ih]
      rfl

/-- On its own thread the machine is a synchronous one. -/
theorem externalEvent_synchronous (hself : M.RunsOn self.thread) (n : Nat) (t : UInt8)
    (d : EventPtr δ) :
    externalEvent M.synchronous self nested n t d = externalEvent M self nested n t d := by
  have hon : isOnStateMachineThread M self = true := isOn_of_runsOn hself
  have hon' : isOnStateMachineThread M.synchronous self = true := rfl
  simp only [externalEvent, externalEventImpl, stateEngine_synchronous, hon, hon']
  rfl

/-- On its own thread a machine does what it does without a thread. -/
theorem call_synchronous (hself : M.RunsOn self.thread) (n : Nat) (c : Call δ) :
    call M.synchronous self n c = call M self n c := by
  have hon : isOnStateMachineThread M self = true := isOn_of_runsOn hself
  have hon' : isOnStateMachineThread M.synchronous self = true := rfl
  induction n generalizing c with
  | zero => rfl
  | succ n ih =>
      have hnested : call M.synchronous self n = call M self n := funext ih
      cases c with
      | externalEvent t d => rw [call, call, hnested, externalEvent_synchronous hself]
      | event f =>
          have hlookup (s : UInt8) :
              lookupTransition M.synchronous n f s = lookupTransition M n f s := by
            simp only [lookupTransition, resolve_synchronous]
          simp only [call, eventFunction, transitionMap, endTransitionMap, hnested, hlookup, hon,
            hon', externalEvent_synchronous hself]
          rfl

end Synchronous

/-! ## What a producer does -/

/-- What a call of an event function queues when it is made on another thread
than the machine's: the function itself, or what its `PARENT_TRANSITION` has
decided. -/
def Call.Queues : Call δ → Delegate δ → Prop
  | .event f, .event g => g = f
  | .event f, .externalEventImpl t d => f.parentTransition = some t ∧ d = none
  | .externalEvent _ _, _ => False

/-- A call of an event function.  `PARENT_TRANSITION` names a state, neither
`EVENT_IGNORED` nor `CANNOT_HAPPEN`. -/
def Call.IsPlain (c : Call δ) : Prop :=
  ∃ f, c = .event f ∧ ∀ t, f.parentTransition = some t → t ≠ eventIgnored ∧ t ≠ cannotHappen

/-- The process looks around and then queues one message on behalf of `self`,
unless the queue is full or the thread exiting. -/
inductive Posts (self : Frame δ) : Fsm σ δ Unit → Prop where
  | look {k : World σ δ → Fsm σ δ Unit} (h : ∀ w, w.queue.exit = false → Posts self (k w)) :
      Posts self (act id k)
  | push {d : Delegate δ} {k : World σ δ → Fsm σ δ Unit} (hd : self.call.Queues d)
      (h : ∀ w, w.queue.exit = false → w.queue.full = false → k w = ret ()) :
      Posts self (act (World.onQueue fun q => q.tryPush (message self d)) k)

section Producer

variable {M : Machine σ δ} {self : Frame δ}

/-- Marshalling queues one message. -/
theorem marshal_posts {d : Delegate δ} (hd : self.call.Queues d) :
    Posts self (marshal self d : Fsm σ δ Unit) := by
  refine .look fun w hexit => ?_
  simp only [hexit, Bool.false_eq_true, if_false]
  exact .push hd fun w hexit hfull => by simp [hexit, hfull]

/-- **Off the machine's thread** a call of an event function posts. -/
theorem call_posts (hself : isOnStateMachineThread M self = false) (hc : self.call.IsPlain)
    (n : Nat) : Posts self (call M self (n + 1) self.call) := by
  obtain ⟨f, hf, hstate⟩ := hc
  have hmap : Posts self (transitionMap M self (call M self n) n f) := by
    rw [transitionMap, hself]
    exact marshal_posts (by simp [hf, Call.Queues])
  rw [hf, call, eventFunction]
  cases hp : f.parentTransition with
  | none => exact hmap
  | some t =>
      have hparent : Posts self (externalEvent M self (call M self n) n t none) := by
        rw [externalEvent, if_neg (hstate t hp).1, if_neg (hstate t hp).2, hself]
        exact marshal_posts (by simp [hf, Call.Queues, hp])
      refine .look fun w _ => ?_
      by_cases hlen : f.transitions.length ≤ w.members.currentState.toNat
      · simp only [ret_bind, hlen, if_true]
        refine .look fun w _ => ?_
        by_cases hmax : w.members.currentState < M.maxStates
        · simpa [hmax] using hparent
        · simpa [hmax] using hmap
      · simpa [hlen] using hmap

/-- A step of such a process looks around, or queues the message. -/
theorem Posts.step {x x' : Fsm σ δ Unit} {m : Move} {w w' : World σ δ} (hx : Posts self x)
    (hexit : w.queue.exit = false) (hfull : w.queue.full = false)
    (h : x.step m w = some (x', w')) :
    (w' = w ∧ Posts self x') ∨
    (∃ d, self.call.Queues d ∧ x' = ret () ∧
      w' = w.onQueue fun q => q.pushBack (message self d)) := by
  cases hx with
  | @look k hk =>
      obtain ⟨f, k', heq, -, rfl, rfl⟩ | ⟨p, f, k', heq, -⟩ | ⟨p, f, k', heq, -⟩ := step_cases h
      · cases heq
        exact .inl ⟨rfl, hk w hexit⟩
      · contradiction
      · contradiction
  | @push d k hd hk =>
      obtain ⟨f, k', heq, -, rfl, rfl⟩ | ⟨p, f, k', heq, -⟩ | ⟨p, f, k', heq, -⟩ := step_cases h
      · cases heq
        refine .inr ⟨d, hd, hk w hexit hfull, ?_⟩
        simp [World.onQueue, ThreadQueue.tryPush, ThreadQueue.pushUnlessExit, hexit, hfull]
      · contradiction
      · contradiction

end Producer

/-! ## What the machine's thread does -/

/-- Two worlds with the machine of a third. -/
theorem World.SameMachine.trans {w w' w'' : World σ δ} (h : w.SameMachine w')
    (h' : w'.SameMachine w'') : w.SameMachine w'' :=
  ⟨h.1.trans h'.1, h.2.1.trans h'.2.1, h.2.2.trans h'.2.2⟩

/-- Two runs with the same outcome that leave the machine the same. -/
def Follows (r r' : Except Stop Unit × World σ δ) : Prop := r.1 = r'.1 ∧ r.2.SameMachine r'.2

/-- What `PARENT_TRANSITION` has decided for the message stands in state `s`:
the state is in the derived range, or its entry in the transition map is the
same event. -/
def Message.Fresh (M : Machine σ δ) (n : Nat) (s : UInt8) (msg : Message δ) : Prop :=
  match msg.delegate, msg.sender.call with
  | .externalEventImpl t d, .event f =>
    f.InDerivedRange M s ∨ (f.mapTarget M n s = .ok t ∧ f.data = d)
  | _, _ => True

instance {α : Type} [DecidableEq α] (a : α) : (x : Except Stop α) → Decidable (x = .ok a)
  | .ok b => decidable_of_iff (b = a) ⟨congrArg Except.ok, Except.ok.inj⟩
  | .error _ => .isFalse nofun

instance [DecidableEq δ] (M : Machine σ δ) (n : Nat) (s : UInt8) :
    (msg : Message δ) → Decidable (msg.Fresh M n s)
  | ⟨⟨_, .event f⟩, .externalEventImpl t d⟩ =>
    inferInstanceAs
      (Decidable (f.InDerivedRange M s ∨ (f.mapTarget M n s = .ok t ∧ f.data = d)))
  | ⟨⟨_, .externalEvent _ _⟩, .externalEventImpl _ _⟩ => inferInstanceAs (Decidable True)
  | ⟨_, .event _⟩ => inferInstanceAs (Decidable True)

/-- The machine without a thread executes the calls. -/
def reference (M : Machine σ δ) (thread : ThreadId) (n : Nat) (start : World σ δ)
    (cs : List (Call δ)) : Except Stop Unit × World σ δ :=
  (runCalls M.synchronous thread n cs).run start

section Taking

variable {M : Machine σ δ} {thread : ThreadId} {n : Nat} {start : World σ δ}

/-- A decision that stands is what the event function prescribes. -/
theorem target_of_fresh {f : EventFunction δ} {sender : ThreadId} {p s : UInt8}
    (hp : f.parentTransition = some p)
    (h : Message.Fresh M n s ⟨⟨sender, .event f⟩, .externalEventImpl p none⟩) :
    (Call.event f).target M n s = .ok p ∧ (Call.event f).eventData M s = none := by
  have hdecision : f.InDerivedRange M s ∨ (f.mapTarget M n s = .ok p ∧ f.data = none) := h
  by_cases hrange : f.InDerivedRange M s
  · simp [Call.target, Call.eventData, hp, hrange]
  · obtain ⟨hmap, hdata⟩ := hdecision.resolve_left hrange
    simp [Call.target, Call.eventData, hp, hrange, hmap, hdata]

/-- Invoking a message whose decision is up to date is making the call. -/
theorem invoke_run (hM : M.RunsOn thread) {msg : Message δ} (hplain : msg.sender.call.IsPlain)
    (hqueues : msg.sender.call.Queues msg.delegate) {w : World σ δ}
    (hfresh : msg.Fresh M n w.members.currentState) :
    (invoke M thread (n + 1) msg).run w =
      (call M ⟨thread, msg.sender.call⟩ (n + 1) msg.sender.call).run w := by
  obtain ⟨⟨t, c⟩, delegate⟩ := msg
  obtain ⟨f, rfl, hstate⟩ := hplain
  cases delegate with
  | event g =>
      have hg : g = f := hqueues
      rw [hg]
      rfl
  | externalEventImpl p d =>
      obtain ⟨hp, rfl⟩ : f.parentTransition = some p ∧ d = none := hqueues
      obtain ⟨htarget, hdata⟩ := target_of_fresh hp hfresh
      have hself : M.RunsOn (⟨thread, .event f⟩ : Frame δ).thread := hM
      rw [call_run hself, htarget, hdata, orHalt, ret_bind, externalEvent, if_neg (hstate p hp).1,
        if_neg (hstate p hp).2, isOn_of_runsOn hself, if_pos rfl]
      rfl

/-- The reference makes one call more. -/
theorem reference_snoc {cs : List (Call δ)} {w : World σ δ}
    (h : reference M thread n start cs = (.ok (), w)) (c : Call δ) :
    reference M thread n start (cs ++ [c]) = (call M.synchronous ⟨thread, c⟩ n c).run w := by
  unfold reference runCalls at h ⊢
  rw [each_append, h]
  exact congrArg (fun x : Fsm σ δ Unit => x.run w) (bind_ret _)

end Taking

/-! ## The invariant -/

/-- The messages the machine's thread has been sent. -/
def System.accepted (S : System σ δ) : List (Message δ) :=
  S.world.queue.accepted.map fun m => m.body

/-- The messages that wait in the queue. -/
def System.queued (S : System σ δ) : List (Message δ) :=
  S.world.queue.normalQueue.map fun m => m.body

/-- The calls the messages stand for. -/
def callsOf (msgs : List (Message δ)) : List (Call δ) := msgs.map fun m => m.sender.call

/-- The messages of thread `t`. -/
def sentBy (t : ThreadId) (msgs : List (Message δ)) : List (Message δ) :=
  msgs.filter fun m => m.sender.thread = t

/-- Thread `t` is to make `calls`; those in `sent` it has made, it is executing
`x`, and `pending` is left. -/
def Produces (t : ThreadId) (calls sent : List (Call δ)) (x : Fsm σ δ Unit)
    (pending : List (Call δ)) : Prop :=
  (x = ret () ∧ sent ++ pending = calls) ∨ ∃ c, Posts ⟨t, c⟩ x ∧ sent ++ c :: pending = calls

section Invariant

variable (M : Machine σ δ) (thread : ThreadId) (n : Nat) (start : World σ δ)
  (calls : ThreadId → List (Call δ))

/-- Where the program is; `outcome` relates it to the reference. -/
structure System.Tracks (S : System σ δ) : Prop where
  lanes : S.world.queue.highQueue = []
  exit : S.world.queue.exit = false
  order : S.accepted = S.taken ++ S.queued
  messages : ∀ m ∈ S.accepted, m.sender.thread ≠ thread ∧
    m.sender.call ∈ calls m.sender.thread ∧ m.sender.call.Queues m.delegate
  own : S.pending thread = []
  producers : ∀ t, t ≠ thread →
    Produces t (calls t) (callsOf (sentBy t S.accepted)) (S.running t) (S.pending t)
  machine : MachineCode thread (S.running thread)
  outcome : Follows ((S.running thread).run S.world) (reference M thread n start (callsOf S.taken))

end Invariant

section Steps

variable {M : Machine σ δ} {thread : ThreadId} {n : Nat} {start : World σ δ}
  {calls : ThreadId → List (Call δ)} {S : System σ δ} {t : ThreadId} {x : Fsm σ δ Unit}
  {w : World σ δ} {m : Move}

/-- The machine's thread makes an action. -/
theorem System.Tracks.own_step (hS : S.Tracks M thread n start calls)
    (h : (S.running thread).step m S.world = some (x, w)) :
    System.Tracks M thread n start calls
      { S with running := Function.update S.running thread x, world := w } := by
  obtain ⟨rfl, hx, f, hf, rfl⟩ := hS.machine.step h
  have hqueue : (f S.world).queue = S.world.queue := (hf S.world).1
  have hrun := run_step h
  constructor
  case lanes => simpa only [hqueue] using hS.lanes
  case exit => simpa only [hqueue] using hS.exit
  case order => simpa only [System.accepted, System.queued, hqueue] using hS.order
  case messages => simpa only [System.accepted, hqueue] using hS.messages
  case own => exact hS.own
  case producers =>
    intro t ht
    simpa only [System.accepted, hqueue, Function.update_of_ne ht] using hS.producers t ht
  case machine => simpa only [Function.update_self] using hx
  case outcome => simpa only [Function.update_self, ← hrun] using hS.outcome

/-- Another thread looks around. -/
theorem System.Tracks.look_step (hS : S.Tracks M thread n start calls) (ht : t ≠ thread)
    {c : Call δ} (hx : Posts ⟨t, c⟩ x)
    (hcalls : callsOf (sentBy t S.accepted) ++ c :: S.pending t = calls t) :
    System.Tracks M thread n start calls
      { S with running := Function.update S.running t x } := by
  constructor
  case lanes => exact hS.lanes
  case exit => exact hS.exit
  case order => exact hS.order
  case messages => exact hS.messages
  case own => exact hS.own
  case producers =>
    refine (Function.forall_update_iff _ fun t' y => t' ≠ thread →
      Produces t' (calls t') (callsOf (sentBy t' S.accepted)) y (S.pending t')).mpr
        ⟨fun _ => ?_, ?_⟩
    · exact .inr ⟨c, hx, hcalls⟩
    · exact fun t' _ ht' => hS.producers t' ht'
  case machine => simpa only [Function.update_of_ne (Ne.symm ht)] using hS.machine
  case outcome => simpa only [Function.update_of_ne (Ne.symm ht)] using hS.outcome

/-- The calls behind two lists of messages. -/
theorem callsOf_append (msgs msgs' : List (Message δ)) :
    callsOf (msgs ++ msgs') = callsOf msgs ++ callsOf msgs' := List.map_append

/-- What one thread has sent, in two parts. -/
theorem sentBy_append (t : ThreadId) (msgs msgs' : List (Message δ)) :
    sentBy t (msgs ++ msgs') = sentBy t msgs ++ sentBy t msgs' := List.filter_append ..

/-- Another thread queues its message. -/
theorem System.Tracks.push_step (hS : S.Tracks M thread n start calls) (ht : t ≠ thread)
    {c : Call δ} {d : Delegate δ} (hd : c.Queues d)
    (hcalls : callsOf (sentBy t S.accepted) ++ c :: S.pending t = calls t) :
    System.Tracks M thread n start calls { S with
      running := Function.update S.running t (ret ())
      world := S.world.onQueue fun q => q.pushBack (message ⟨t, c⟩ d) } := by
  have haccepted : (S.world.queue.pushBack (message ⟨t, c⟩ d)).accepted.map (fun m => m.body) =
      S.accepted ++ [⟨⟨t, c⟩, d⟩] := by
    simp [ThreadQueue.pushBack, message, System.accepted]
  have hqueued : (S.world.queue.pushBack (message ⟨t, c⟩ d)).normalQueue.map (fun m => m.body) =
      S.queued ++ [⟨⟨t, c⟩, d⟩] := by
    simp [ThreadQueue.pushBack, message, System.queued]
  have hsame : (S.world.onQueue fun q => q.pushBack (message ⟨t, c⟩ d)).SameMachine S.world :=
    ⟨rfl, rfl, rfl⟩
  constructor
  case lanes => exact hS.lanes
  case exit => exact hS.exit
  case order =>
    have horder := hS.order
    simp only [System.accepted, System.queued, World.onQueue] at horder haccepted hqueued ⊢
    rw [haccepted, hqueued, ← List.append_assoc, horder]
  case messages =>
    simp only [System.accepted, World.onQueue, haccepted]
    rw [List.forall_mem_append]
    refine ⟨hS.messages, List.forall_mem_singleton.mpr ⟨ht, ?_, hd⟩⟩
    rw [← hcalls]
    simp
  case own => exact hS.own
  case producers =>
    simp only [System.accepted, World.onQueue, haccepted]
    refine (Function.forall_update_iff _ fun t' y => t' ≠ thread →
      Produces t' (calls t') (callsOf (sentBy t' (S.accepted ++ [⟨⟨t, c⟩, d⟩]))) y
        (S.pending t')).mpr ⟨fun _ => ?_, fun t' hne ht' => ?_⟩
    · refine .inl ⟨rfl, ?_⟩
      rw [← hcalls, sentBy_append, callsOf_append]
      simp [sentBy, callsOf]
    · have hnone : sentBy t' [(⟨⟨t, c⟩, d⟩ : Message δ)] = [] := by simp [sentBy, Ne.symm hne]
      rw [sentBy_append, hnone, List.append_nil]
      exact hS.producers t' ht'
  case machine => simpa only [Function.update_of_ne (Ne.symm ht)] using hS.machine
  case outcome =>
    simp only [Function.update_of_ne (Ne.symm ht)]
    obtain ⟨hout, hworld⟩ := hS.machine.run hsame
    exact ⟨hout.trans hS.outcome.1, hworld.trans hS.outcome.2⟩

/-- Another thread begins its next call. -/
theorem System.Tracks.call_step (hM : M.thread = some thread)
    (hS : S.Tracks M thread (n + 1) start calls)
    (hplain : ∀ c ∈ calls t, c.IsPlain) (hidle : S.running t = ret ()) {c : Call δ}
    {cs : List (Call δ)} (hpending : S.pending t = c :: cs) :
    System.Tracks M thread (n + 1) start calls { S with
      running := Function.update S.running t (call M ⟨t, c⟩ (n + 1) c)
      pending := Function.update S.pending t cs } := by
  have ht : t ≠ thread := by
    rintro rfl
    rw [hS.own] at hpending
    contradiction
  have hcalls : callsOf (sentBy t S.accepted) ++ c :: cs = calls t := by
    obtain ⟨-, hcalls⟩ | ⟨c', hx, -⟩ := hS.producers t ht
    · rw [← hpending]
      exact hcalls
    · rw [hidle] at hx
      cases hx
  have hposts : Posts ⟨t, c⟩ (call M ⟨t, c⟩ (n + 1) c) := by
    refine call_posts (isOn_other hM ht) (hplain c ?_) n
    rw [← hcalls]
    simp
  constructor
  case lanes => exact hS.lanes
  case exit => exact hS.exit
  case order => exact hS.order
  case messages => exact hS.messages
  case own => simpa only [Function.update_of_ne (Ne.symm ht)] using hS.own
  case producers =>
    intro t' ht'
    by_cases heq : t' = t
    · subst heq
      simp only [Function.update_self]
      exact .inr ⟨c, hposts, hcalls⟩
    · simpa only [System.accepted, Function.update_of_ne heq] using hS.producers t' ht'
  case machine => simpa only [Function.update_of_ne (Ne.symm ht)] using hS.machine
  case outcome => simpa only [Function.update_of_ne (Ne.symm ht)] using hS.outcome

/-- With one lane the worker takes the message that waits longest. -/
theorem takeNext_normal {β : Type} {q q' : ThreadQueue β} {msg : DelegateMsg β}
    (hlanes : q.highQueue = []) (h : q.takeNext = some (msg, q')) :
    ∃ rest, q.normalQueue = msg :: rest ∧ q' = { q with normalQueue := rest } := by
  unfold ThreadQueue.takeNext at h
  rw [hlanes] at h
  cases hnormal : q.normalQueue with
  | nil => simp [hnormal] at h
  | cons first rest =>
      simp only [hnormal, Option.some.injEq, Prod.mk.injEq] at h
      obtain ⟨rfl, rfl⟩ := h
      exact ⟨rest, rfl, by rw [hlanes]⟩

/-- What the worker takes has been sent. -/
theorem System.Tracks.mem_of_takeNext (hS : S.Tracks M thread n start calls)
    {msg : DelegateMsg (Message δ)} {queue : ThreadQueue (Message δ)}
    (htake : S.world.queue.takeNext = some (msg, queue)) : msg.body ∈ S.accepted := by
  obtain ⟨rest, hnormal, -⟩ := takeNext_normal hS.lanes htake
  rw [hS.order, System.queued, hnormal]
  simp

/-- The machine's thread takes a message whose decision is up to date. -/
theorem System.Tracks.take_step (hM : M.RunsOn thread) (hS : S.Tracks M thread (n + 1) start calls)
    (hplain : ∀ t, ∀ c ∈ calls t, c.IsPlain)
    (hidle : S.running thread = ret ()) {msg : DelegateMsg (Message δ)}
    {queue : ThreadQueue (Message δ)} (htake : S.world.queue.takeNext = some (msg, queue))
    (hfresh : msg.body.Fresh M n S.world.members.currentState) :
    System.Tracks M thread (n + 1) start calls { S with
      world := { S.world with queue := queue }
      running := Function.update S.running thread (invoke M thread (n + 1) msg.body)
      taken := S.taken ++ [msg.body] } := by
  obtain ⟨rest, hnormal, rfl⟩ := takeNext_normal hS.lanes htake
  have hqueued : S.queued = msg.body :: rest.map fun m => m.body := by
    rw [System.queued, hnormal]
    rfl
  obtain ⟨-, hcall, hqueues⟩ := hS.messages msg.body (hS.mem_of_takeNext htake)
  have hout := hS.outcome
  rw [hidle] at hout
  obtain ⟨w, href⟩ : ∃ w, reference M thread (n + 1) start (callsOf S.taken) = (.ok (), w) :=
    ⟨(reference M thread (n + 1) start (callsOf S.taken)).2, Prod.ext hout.1.symm rfl⟩
  constructor
  case lanes => exact hS.lanes
  case exit => exact hS.exit
  case order =>
    have horder := hS.order
    rw [hqueued] at horder
    simp only [System.accepted, System.queued] at horder ⊢
    rw [horder, List.append_assoc]
    rfl
  case messages => exact hS.messages
  case own => exact hS.own
  case producers =>
    intro t ht
    simpa only [System.accepted, Function.update_of_ne ht] using hS.producers t ht
  case machine => simpa only [Function.update_self] using invoke_machine hM (n + 1) msg.body
  case outcome =>
    have hself : M.RunsOn (⟨thread, msg.body.sender.call⟩ : Frame δ).thread := hM
    let w' : World σ δ :=
      { S.world with queue := { S.world.queue with normalQueue := rest } }
    have hsame : w'.SameMachine w := by
      have hworld := hout.2
      rw [href] at hworld
      exact hworld
    have hinvoke : (invoke M thread (n + 1) msg.body).run w' =
        (call M ⟨thread, msg.body.sender.call⟩ (n + 1) msg.body.sender.call).run w' :=
      invoke_run hM (hplain _ _ hcall) hqueues hfresh
    have hreference : reference M thread (n + 1) start (callsOf (S.taken ++ [msg.body])) =
        (call M ⟨thread, msg.body.sender.call⟩ (n + 1) msg.body.sender.call).run w := by
      have hlast : callsOf [msg.body] = [msg.body.sender.call] := rfl
      rw [callsOf_append, hlast, reference_snoc href, call_synchronous hself]
    simp only [Function.update_self]
    rw [hinvoke, hreference]
    exact (call_machine hself (n + 1) msg.body.sender.call).run hsame

/-- If the step takes a message, its decision is up to date. -/
def TakesFresh (M : Machine σ δ) (n : Nat) (S : System σ δ) (ch : Choice) : Prop :=
  ch = .take → ∀ msg queue, S.world.queue.takeNext = some (msg, queue) →
    msg.body.Fresh M n S.world.members.currentState

/-- One step of the program. -/
theorem System.Tracks.step (hM : M.thread = some thread) (hplain : ∀ t, ∀ c ∈ calls t, c.IsPlain)
    {S' : System σ δ} {ch : Choice} (hS : S.Tracks M thread (n + 1) start calls)
    (hfull : S.world.queue.full = false) (hfresh : TakesFresh M n S ch)
    (h : S.step M thread (n + 1) ch = some S') : S'.Tracks M thread (n + 1) start calls := by
  obtain ⟨t, m, x, w, rfl, hstep, rfl⟩ | ⟨t, c, cs, rfl, hidle, hpending, rfl⟩ |
    ⟨msg, queue, rfl, hidle, htake, rfl⟩ := System.step_cases h
  · by_cases ht : t = thread
    · subst ht
      exact hS.own_step hstep
    · obtain ⟨hidle, -⟩ | ⟨c, hx, hcalls⟩ := hS.producers t ht
      · rw [hidle] at hstep
        cases m <;> simp [Proc.step] at hstep
      · obtain ⟨rfl, hx'⟩ | ⟨d, hd, rfl, rfl⟩ := hx.step hS.exit hfull hstep
        · exact hS.look_step ht hx' hcalls
        · exact hS.push_step ht hd hcalls
  · exact hS.call_step hM (hplain t) hidle hpending
  · exact hS.take_step (runsOn_of_thread hM) hplain hidle htake (hfresh rfl msg queue htake)

end Steps

/-! ## The refinement -/

/-- The queue of a thread that has just been created. -/
def ThreadQueue.IsNew {β : Type} (q : ThreadQueue β) : Prop :=
  q = { maxQueueSize := q.maxQueueSize, fullPolicy := q.fullPolicy }

/-- The program refines the synchronous machine: `start` is the world it began
in, and thread `t` is to make `calls t`. -/
structure System.Refines (M : Machine σ δ) (thread : ThreadId) (n : Nat) (start : World σ δ)
    (calls : ThreadId → List (Call δ)) (S : System σ δ) : Prop where
  /-- Every message queued has been taken, once and in the order of the queue,
  or still waits. -/
  order : S.accepted = S.taken ++ S.queued
  /-- The messages of a thread are its calls, in the order in which it makes
  them. -/
  sent : ∀ t, callsOf (sentBy t S.accepted) <+: calls t
  /-- When nothing is left to do, every call has been executed. -/
  complete : (∀ t, S.running t = ret () ∧ S.pending t = []) → S.queued = [] →
    ∀ t, callsOf (sentBy t S.taken) = calls t
  /-- The message taken next raises the event that its function prescribes in
  the current state, the one left by the message before it. -/
  lookup : S.running thread = ret () → ∀ msg queue, S.world.queue.takeNext = some (msg, queue) →
    msg.body.Fresh M n S.world.members.currentState →
    (invoke M thread (n + 1) msg.body).run { S.world with queue := queue } =
      ((orHalt (msg.body.sender.call.target M n S.world.members.currentState)).bind fun t =>
        externalEvent M ⟨thread, msg.body.sender.call⟩
          (call M ⟨thread, msg.body.sender.call⟩ n) n t
          (msg.body.sender.call.eventData M S.world.members.currentState)).run
        { S.world with queue := queue }
  /-- The trace so far is the beginning of the reference's. -/
  trace : S.world.log <+: (reference M thread (n + 1) start (callsOf S.taken)).2.log
  /-- Whenever the machine's thread is idle, the traces and the members agree. -/
  idle : S.running thread = ret () →
    Follows (.ok (), S.world) (reference M thread (n + 1) start (callsOf S.taken))

section Conclusion

variable {M : Machine σ δ} {thread : ThreadId} {n : Nat} {start : World σ δ}
  {calls : ThreadId → List (Call δ)} {S : System σ δ}

/-- A program that has not begun. -/
theorem System.Tracks.initial (hnew : start.queue.IsNew) (hown : calls thread = []) :
    System.Tracks M thread n start calls { world := start, pending := calls } := by
  have haccepted : start.queue.accepted = [] := by rw [hnew]
  have hnormal : start.queue.normalQueue = [] := by rw [hnew]
  constructor
  case lanes =>
    show start.queue.highQueue = []
    rw [hnew]
  case exit =>
    show start.queue.exit = false
    rw [hnew]
  case order => simp [System.accepted, System.queued, haccepted, hnormal]
  case messages => simp [System.accepted, haccepted]
  case own => exact hown
  case producers =>
    intro t _
    exact .inl ⟨rfl, by simp [System.accepted, haccepted, sentBy, callsOf]⟩
  case machine => trivial
  case outcome => exact ⟨rfl, rfl, rfl, rfl⟩

/-- The machine's thread sends itself nothing. -/
theorem System.Tracks.sent_own (hS : S.Tracks M thread n start calls) :
    sentBy thread S.accepted = [] := by
  rw [sentBy, List.filter_eq_nil_iff]
  intro m hm hsender
  exact (hS.messages m hm).1 (of_decide_eq_true hsender)

/-- What a thread has sent is the beginning of its calls. -/
theorem System.Tracks.sent_prefix (hS : S.Tracks M thread n start calls) (t : ThreadId) :
    callsOf (sentBy t S.accepted) <+: calls t := by
  by_cases ht : t = thread
  · rw [ht, hS.sent_own]
    exact List.nil_prefix
  · obtain ⟨-, hcalls⟩ | ⟨c, -, hcalls⟩ := hS.producers t ht
    · exact ⟨_, hcalls⟩
    · exact ⟨_, hcalls⟩

/-- What the invariant says about the trace. -/
theorem System.Tracks.refines (hM : M.RunsOn thread) (hplain : ∀ t, ∀ c ∈ calls t, c.IsPlain)
    (hown : calls thread = []) (hS : S.Tracks M thread (n + 1) start calls) :
    S.Refines M thread n start calls := by
  constructor
  case order => exact hS.order
  case sent => exact hS.sent_prefix
  case complete =>
    intro hidle hqueued t
    have horder := hS.order
    rw [hqueued, List.append_nil] at horder
    rw [← horder]
    by_cases ht : t = thread
    · rw [ht, hS.sent_own, hown]
      rfl
    · obtain ⟨-, hcalls⟩ | ⟨c, hx, -⟩ := hS.producers t ht
      · rw [(hidle t).2, List.append_nil] at hcalls
        exact hcalls
      · rw [(hidle t).1] at hx
        cases hx
  case lookup =>
    intro _ msg queue htake hfresh
    obtain ⟨-, hcall, hqueues⟩ := hS.messages msg.body (hS.mem_of_takeNext htake)
    have hself : M.RunsOn (⟨thread, msg.body.sender.call⟩ : Frame δ).thread := hM
    let w : World σ δ := { S.world with queue := queue }
    have hinvoke : (invoke M thread (n + 1) msg.body).run w =
        (call M ⟨thread, msg.body.sender.call⟩ (n + 1) msg.body.sender.call).run w :=
      invoke_run hM (hplain _ _ hcall) hqueues hfresh
    exact hinvoke.trans (call_run hself _)
  case trace =>
    have hprefix : S.world.log <+: ((S.running thread).run S.world).2.log := by
      refine hS.machine.preserves (P := fun w => S.world.log <+: w.log) ?_ (List.prefix_refl _)
      intro f hf w hw
      obtain ⟨-, lines, hlines, -⟩ := hf w
      rw [hlines]
      exact hw.trans (List.prefix_append _ _)
    rw [← hS.outcome.2.2.2]
    exact hprefix
  case idle =>
    intro hidle
    have hout := hS.outcome
    rw [hidle] at hout
    exact hout

end Conclusion

/-- **Active-object mode refines synchronous mode**: any number of threads
call event functions without `PARENT_TRANSITION`; in every interleaving in
which the queue does not fill up, the program refines the synchronous machine
executing the calls in queue order, and no message carries a decision that
could be out of date. -/
theorem active_refines (M : Machine σ δ) {thread : ThreadId} (hM : M.thread = some thread) (n : Nat)
    {start : World σ δ} (hnew : start.queue.IsNew) {calls : ThreadId → List (Call δ)}
    (hown : calls thread = [])
    (hcalls : ∀ t, ∀ c ∈ calls t, ∃ f, c = .event f ∧ f.parentTransition = none) {S : System σ δ}
    (h : Reaches M thread (n + 1) (fun S _ => S.world.queue.full = false)
      { world := start, pending := calls } S) :
    S.Refines M thread n start calls ∧ ∀ m ∈ S.accepted, ∀ s, m.Fresh M n s := by
  have hplain (t : ThreadId) (c : Call δ) (hc : c ∈ calls t) : c.IsPlain := by
    obtain ⟨f, rfl, hf⟩ := hcalls t c hc
    exact ⟨f, rfl, by simp [hf]⟩
  have hfresh {S : System σ δ} (hS : S.Tracks M thread (n + 1) start calls) :
      ∀ m ∈ S.accepted, ∀ s, m.Fresh M n s := by
    intro m hm s
    obtain ⟨-, hcall, hqueues⟩ := hS.messages m hm
    obtain ⟨f, hf, hnone⟩ := hcalls _ _ hcall
    unfold Message.Fresh
    cases hdelegate : m.delegate with
    | event g => trivial
    | externalEventImpl p d => simp [hf, hdelegate, Call.Queues, hnone] at hqueues
  have hS : S.Tracks M thread (n + 1) start calls := by
    refine h.invariant (fun S ch S' hS hfull hstep => ?_) (System.Tracks.initial hnew hown)
    refine hS.step hM hplain hfull (fun _ msg queue htake => ?_) hstep
    exact hfresh hS msg.body (hS.mem_of_takeNext htake) _
  exact ⟨hS.refines (runsOn_of_thread hM) hplain hown, hfresh hS⟩

/-- **`PARENT_TRANSITION` in active-object mode**: in every interleaving in
which the queue does not fill up and every decision that is taken from it is
up to date, the program refines the synchronous machine. -/
theorem parent_transition_refines (M : Machine σ δ) {thread : ThreadId}
    (hM : M.thread = some thread) (n : Nat) {start : World σ δ} (hnew : start.queue.IsNew)
    {calls : ThreadId → List (Call δ)} (hown : calls thread = [])
    (hcalls : ∀ t, ∀ c ∈ calls t, c.IsPlain) {S : System σ δ}
    (h : Reaches M thread (n + 1)
      (fun S ch => S.world.queue.full = false ∧ TakesFresh M n S ch)
      { world := start, pending := calls } S) :
    S.Refines M thread n start calls := by
  have hS : S.Tracks M thread (n + 1) start calls :=
    h.invariant (fun S ch S' hS hok hstep => hS.step hM hcalls hok.1 hok.2 hstep)
      (System.Tracks.initial hnew hown)
  exact hS.refines (runsOn_of_thread hM) hcalls hown

/-! ## A self-test on a thread of its own -/

/-- Idle (0) and failed (1) belong to the base class, running (2) to the
derived one. -/
def selfTest : Machine Nat Nat where
  maxStates := 3
  maps := .flat (some [⟨some fun _ => .ret ()⟩, ⟨some fun _ => .ret ()⟩, ⟨some fun _ => .ret ()⟩])
    none
  thread := some 0
  maps_size := by simp [StateMaps.HasSize]

/-- `Cancel` of the base class: a test that runs fails. -/
def cancel : Call Nat :=
  .event { parentTransition := some 1, transitions := [eventIgnored, eventIgnored] }

/-- `Finish` of the derived class: a test that runs becomes idle. -/
def finish : Call Nat := .event { transitions := [eventIgnored, eventIgnored, 0] }

/-- The test is running. -/
def selfTestRunning : World Nat Nat := World.start { currentState := 2 } 0

theorem selfTestRunning_isNew : selfTestRunning.queue.IsNew := rfl

/-- Two threads are to make the calls `first` and `second`. -/
def producers (first second : List (Call Nat)) : System Nat Nat where
  world := selfTestRunning
  pending := fun t => if t = 1 then first else if t = 2 then second else []

/-- The calls of the two threads. -/
theorem mem_producers {first second : List (Call Nat)} {t : ThreadId} {c : Call Nat}
    (hc : c ∈ (producers first second).pending t) : c ∈ first ∨ c ∈ second := by
  simp only [producers] at hc
  split at hc
  · exact .inl hc
  · split at hc
    · exact .inr hc
    · contradiction

/-- Both threads finish the test; the second call finds it idle. -/
def finishTwice : List Choice :=
  [.call 1, .call 2, .move 2 .go, .move 1 .go, .move 2 .go, .take, .move 1 .go] ++
    List.replicate 15 (.move 0 .go) ++ [.take] ++ List.replicate 2 (.move 0 .go)

theorem active_refines_selfTest :
    ∃ S, Reaches selfTest 0 4 (fun S _ => S.world.queue.full = false)
        (producers [finish] [finish]) S ∧
      S.Refines selfTest 0 3 selfTestRunning (producers [finish] [finish]).pending ∧
      S.taken.map (fun m => m.sender.thread) = [2, 1] ∧ S.world.members.currentState = 0 := by
  have hexec : ∃ S, (producers [finish] [finish]).exec selfTest 0 4
      (fun S _ => !S.world.queue.full) finishTwice = some S ∧
      S.taken.map (fun m => m.sender.thread) = [2, 1] ∧ S.world.members.currentState = 0 :=
    ⟨_, rfl, rfl, rfl⟩
  obtain ⟨S, hS, htaken, hcur⟩ := hexec
  have hreach : Reaches selfTest 0 4 (fun S _ => S.world.queue.full = false)
      (producers [finish] [finish]) S := (reaches_of_exec hS).mono fun S _ h => by simpa using h
  refine ⟨S, hreach, ?_, htaken, hcur⟩
  refine (active_refines selfTest rfl 3 selfTestRunning_isNew rfl (fun t c hc => ?_) hreach).1
  have hfinish : c = finish := by simpa using mem_producers hc
  exact ⟨_, hfinish, rfl⟩

/-- `Cancel` is called and taken while the test runs. -/
def cancelFirst : List Choice :=
  [.call 1, .call 2] ++ List.replicate 4 (.move 1 .go) ++ [.move 2 .go, .move 2 .go, .take] ++
    List.replicate 13 (.move 0 .go) ++ [.take] ++ List.replicate 2 (.move 0 .go)

/-- The queue has room, and what the worker would take is up to date. -/
def freshOk (S : System Nat Nat) (_ : Choice) : Bool :=
  !S.world.queue.full && match S.world.queue.takeNext with
    | some (msg, _) => decide (msg.body.Fresh selfTest 3 S.world.members.currentState)
    | none => true

theorem parent_transition_refines_selfTest :
    ∃ S, Reaches selfTest 0 4
        (fun S ch => S.world.queue.full = false ∧ TakesFresh selfTest 3 S ch)
        (producers [cancel] [finish]) S ∧
      S.Refines selfTest 0 3 selfTestRunning (producers [cancel] [finish]).pending ∧
      callsOf S.taken = [cancel, finish] ∧ S.world.members.currentState = 1 := by
  have hexec : ∃ S, (producers [cancel] [finish]).exec selfTest 0 4 freshOk cancelFirst = some S ∧
      callsOf S.taken = [cancel, finish] ∧ S.world.members.currentState = 1 :=
    ⟨_, rfl, rfl, rfl⟩
  obtain ⟨S, hS, htaken, hcur⟩ := hexec
  have hreach : Reaches selfTest 0 4
      (fun S ch => S.world.queue.full = false ∧ TakesFresh selfTest 3 S ch)
      (producers [cancel] [finish]) S := by
    refine (reaches_of_exec hS).mono fun S ch h => ?_
    obtain ⟨hfull, hfresh⟩ := Bool.and_eq_true_iff.mp h
    refine ⟨by simpa using hfull, fun _ msg queue htake => ?_⟩
    rw [htake] at hfresh
    exact of_decide_eq_true hfresh
  refine ⟨S, hreach, ?_, htaken, hcur⟩
  refine parent_transition_refines selfTest rfl 3 selfTestRunning_isNew rfl (fun t c hc => ?_)
    hreach
  have hcall : c = cancel ∨ c = finish := by simpa using mem_producers hc
  rcases hcall with rfl | rfl
  · exact ⟨_, rfl, fun t ht => by cases ht; decide⟩
  · exact ⟨_, rfl, fun t ht => by cases ht⟩

/-- Thread 1 calls `Finish` and then `Cancel`, both while the test runs; then
the messages are executed. -/
def cancelLate : List Choice :=
  [.call 1, .move 1 .go, .move 1 .go, .call 1] ++ List.replicate 4 (.move 1 .go) ++ [.take] ++
    List.replicate 15 (.move 0 .go) ++ [.take] ++ List.replicate 13 (.move 0 .go)

/-- In the idle state `Cancel` is ignored, but what its `PARENT_TRANSITION` has
decided before makes the test fail. -/
theorem stale_decision :
    ∃ S, Reaches selfTest 0 4 (fun S _ => S.world.queue.full = false)
        (producers [finish, cancel] []) S ∧
      S.running 0 = ret () ∧ callsOf S.taken = [finish, cancel] ∧
      S.world.members.currentState = 1 ∧
      cancel.target selfTest 3 0 = .ok eventIgnored ∧
      (reference selfTest 0 4 selfTestRunning [finish]).2.members.currentState = 0 ∧
      (reference selfTest 0 4 selfTestRunning [finish, cancel]).2.members.currentState = 0 ∧
      ¬S.Refines selfTest 0 3 selfTestRunning (producers [finish, cancel] []).pending := by
  have hexec : ∃ S, (producers [finish, cancel] []).exec selfTest 0 4
      (fun S _ => !S.world.queue.full) cancelLate = some S ∧
      S.running 0 = ret () ∧ callsOf S.taken = [finish, cancel] ∧
      S.world.members.currentState = 1 := ⟨_, rfl, rfl, rfl, rfl⟩
  obtain ⟨S, hS, hidle, htaken, hcur⟩ := hexec
  have hreference :
      (reference selfTest 0 4 selfTestRunning [finish, cancel]).2.members.currentState = 0 := rfl
  refine ⟨S, (reaches_of_exec hS).mono fun S _ h => by simpa using h, hidle, htaken, hcur, rfl, rfl,
    hreference, fun h => ?_⟩
  have hsame := (h.idle hidle).2.1
  rw [htaken] at hsame
  rw [← hsame] at hreference
  exact absurd (hcur.symm.trans hreference) (by decide)

end ActiveFsm
