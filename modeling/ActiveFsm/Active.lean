import ActiveFsm.Event
import ActiveFsm.Schedule
import Mathlib.Logic.Function.Basic
import Mathlib.Logic.Relation

/-!
# ActiveFsm.Active

The machine as an active object.  Any number of threads call its event
functions; the machine's thread takes the queued messages one by one and
invokes them.  A scheduler interleaves the threads, one atomic action at a
time, in any order.

What the machine's thread executes is `MachineCode`: it never looks at the
queue and never waits, and the lines it adds to the log are its own.
-/

namespace ActiveFsm

open Proc

variable {σ δ : Type}

/-! ## The program around a machine -/

/-- `running` is what each thread is executing, `pending` the calls it has
still to make, and `taken` the messages the machine's thread has taken so
far. -/
structure System (σ δ : Type) where
  world : World σ δ
  running : ThreadId → Fsm σ δ Unit := fun _ => ret ()
  pending : ThreadId → List (Call δ)
  taken : List (Message δ) := []

/-- What the scheduler lets happen next: an action of a thread, the beginning
of a thread's next call, or the machine's thread taking a message. -/
inductive Choice where
  | move (t : ThreadId) (m : Move)
  | call (t : ThreadId)
  | take
  deriving DecidableEq, Repr

/-- The thread the choice is about. -/
def Choice.by (thread : ThreadId) : Choice → ThreadId
  | .move t _ => t
  | .call t => t
  | .take => thread

section Steps

variable (M : Machine σ δ) (thread : ThreadId) (n : Nat)

/-- One step of the program; `thread` is the machine's. -/
def System.step (S : System σ δ) : Choice → Option (System σ δ)
  | .move t m => ((S.running t).step m S.world).map fun r =>
      { S with running := Function.update S.running t r.1, world := r.2 }
  | .call t =>
    match S.running t, S.pending t with
    | .ret (), c :: cs => some { S with
        running := Function.update S.running t (call M ⟨t, c⟩ n c)
        pending := Function.update S.pending t cs }
    | _, _ => none
  | .take =>
    match S.running thread, S.world.queue.takeNext with
    | .ret (), some (msg, queue) => some { S with
        world := { S.world with queue := queue }
        running := Function.update S.running thread (invoke M thread n msg.body)
        taken := S.taken ++ [msg.body] }
    | _, _ => none

/-- `S'` is reached from `S` by steps that satisfy `ok`. -/
def Reaches (ok : System σ δ → Choice → Prop) : System σ δ → System σ δ → Prop :=
  Relation.ReflTransGen fun S S' => ∃ ch, ok S ch ∧ S.step M thread n ch = some S'

/-- Make the given choices, as long as they satisfy `ok`. -/
def System.exec (ok : System σ δ → Choice → Bool) (S : System σ δ) (chs : List Choice) :
    Option (System σ δ) :=
  chs.foldlM (fun S ch => if ok S ch then S.step M thread n ch else none) S

variable {M thread n}

/-- The executable run is one of those that are possible. -/
theorem reaches_of_exec {ok : System σ δ → Choice → Bool} {chs : List Choice} {S S' : System σ δ}
    (h : S.exec M thread n ok chs = some S') :
    Reaches M thread n (fun S ch => ok S ch = true) S S' := by
  induction chs generalizing S with
  | nil =>
      cases h
      exact .refl
  | cons ch chs ih =>
      simp only [System.exec, List.foldlM_cons, Option.bind_eq_bind] at h
      obtain ⟨S₁, hstep, hrest⟩ := Option.bind_eq_some_iff.mp h
      split at hstep
      · next hok => exact (ih hrest).head ⟨ch, hok, hstep⟩
      · contradiction

/-- A run whose choices satisfy less. -/
theorem Reaches.mono {ok ok' : System σ δ → Choice → Prop} {S S' : System σ δ}
    (h : Reaches M thread n ok S S') (hok : ∀ S ch, ok S ch → ok' S ch) :
    Reaches M thread n ok' S S' := by
  refine Relation.ReflTransGen.mono (fun S _ h => ?_) _ _ h
  obtain ⟨ch, hch, hstep⟩ := h
  exact ⟨ch, hok S ch hch, hstep⟩

/-- The invariant rule. -/
theorem Reaches.invariant {ok : System σ δ → Choice → Prop} {I : System σ δ → Prop}
    {S S' : System σ δ} (h : Reaches M thread n ok S S')
    (hstep : ∀ S ch S', I S → ok S ch → S.step M thread n ch = some S' → I S') (hS : I S) :
    I S' := by
  induction h with
  | refl => exact hS
  | tail _ hlast ih =>
      obtain ⟨ch, hok, hch⟩ := hlast
      exact hstep _ ch _ ih hok hch

/-- What a step can be. -/
theorem System.step_cases {S S' : System σ δ} {ch : Choice}
    (h : S.step M thread n ch = some S') :
    (∃ t m x w, ch = .move t m ∧ (S.running t).step m S.world = some (x, w) ∧
      S' = { S with running := Function.update S.running t x, world := w }) ∨
    (∃ t c cs, ch = .call t ∧ S.running t = ret () ∧ S.pending t = c :: cs ∧
      S' = { S with
        running := Function.update S.running t (ActiveFsm.call M ⟨t, c⟩ n c)
        pending := Function.update S.pending t cs }) ∨
    (∃ msg queue, ch = .take ∧ S.running thread = ret () ∧
      S.world.queue.takeNext = some (msg, queue) ∧
      S' = { S with
        world := { S.world with queue := queue }
        running := Function.update S.running thread (invoke M thread n msg.body)
        taken := S.taken ++ [msg.body] }) := by
  cases ch with
  | move t m =>
      simp only [System.step, Option.map_eq_some_iff] at h
      obtain ⟨⟨x, w⟩, hstep, rfl⟩ := h
      exact .inl ⟨t, m, x, w, rfl, hstep, rfl⟩
  | call t =>
      simp only [System.step] at h
      split at h
      · next c cs hidle hpending =>
          exact .inr (.inl ⟨t, c, cs, rfl, hidle, hpending, (Option.some.inj h).symm⟩)
      · contradiction
  | take =>
      simp only [System.step] at h
      split at h
      · next msg queue hidle htake =>
          exact .inr (.inr ⟨msg, queue, rfl, hidle, htake, (Option.some.inj h).symm⟩)
      · contradiction

end Steps

/-! ## What the machine's thread executes -/

/-- The action leaves the queue alone and adds only lines of `thread` to the
log. -/
def OwnAction (thread : ThreadId) (f : World σ δ → World σ δ) : Prop :=
  ∀ w, (f w).queue = w.queue ∧
    ∃ lines, (f w).log = w.log ++ lines ∧ ∀ e ∈ lines, e.thread = thread

/-- The same machine, whatever waits in the queue. -/
def World.SameMachine (w w' : World σ δ) : Prop :=
  w.members = w'.members ∧ w.user = w'.user ∧ w.log = w'.log

/-- Code that logs on `thread`, does not wait and does not look at the queue. -/
abbrev MachineCode {α : Type} (thread : ThreadId) (x : Fsm σ δ α) : Prop :=
  x.Local (OwnAction thread) World.SameMachine

theorem ownAction_id (thread : ThreadId) : OwnAction thread (id : World σ δ → World σ δ) :=
  fun _ => ⟨rfl, [], by simp, by simp⟩

/-- An action that logs one line of its thread, and leaves the queue alone. -/
theorem ownAction_of_log {thread : ThreadId} {f : World σ δ → World σ δ}
    {line : World σ δ → Entry δ} (hqueue : ∀ w, (f w).queue = w.queue)
    (hlog : ∀ w, (f w).log = w.log ++ [line w]) (hline : ∀ w, (line w).thread = thread) :
    OwnAction thread f := by
  intro w
  refine ⟨hqueue w, [line w], hlog w, fun e he => ?_⟩
  rw [List.mem_singleton.mp he]
  exact hline w

section Actions

variable {self : Frame δ} {α : Type}

/-- A read of the members. -/
theorem observe_machine (thread : ThreadId) {f : Members δ → α} :
    MachineCode thread (act id fun w => ret (f w.members) : Fsm σ δ α) := by
  refine ⟨ownAction_id thread, fun w w' hw => ⟨hw, ?_⟩, fun _ => trivial⟩
  show ret (f w.members) = ret (f w'.members)
  rw [hw.1]

/-- Reading the members is the machine's own business. -/
theorem getCurrentState_machine (thread : ThreadId) :
    MachineCode thread (getCurrentState : Fsm σ δ UInt8) := observe_machine thread

theorem getNewState_machine (thread : ThreadId) :
    MachineCode thread (getNewState : Fsm σ δ UInt8) := observe_machine thread

theorem isEventPending_machine (thread : ThreadId) :
    MachineCode thread (isEventPending : Fsm σ δ Bool) := observe_machine thread

theorem sameMachine_note {w w' : World σ δ} (o : Obs δ) (h : w.SameMachine w') :
    (w.note self o).SameMachine (w'.note self o) := by
  obtain ⟨hmembers, huser, hlog⟩ := h
  exact ⟨hmembers, huser, by simp only [note_log, hmembers, hlog]⟩

/-- So is writing to the log. -/
theorem record_machine (o : Obs δ) : MachineCode self.thread (record self o : Fsm σ δ Unit) :=
  ⟨ownAction_of_log (fun _ => rfl) (fun w => note_log self w o) fun _ => rfl,
    fun _ _ hw => ⟨sameMachine_note o hw, rfl⟩, fun _ => trivial⟩

/-- `SetCurrentState` is an action of the machine's thread. -/
theorem setCurrentState_machine (s : UInt8) :
    MachineCode self.thread (setCurrentState self s : Fsm σ δ Unit) := by
  refine ⟨ownAction_of_log (fun _ => rfl) (fun w => setCurrentState_log self w s) fun _ => rfl,
    fun w w' hw => ⟨sameMachine_note _ ⟨?_, hw.2⟩, rfl⟩, fun _ => trivial⟩
  simp only [hw.1]

/-- `InternalEvent` does not touch the queue. -/
theorem internalEvent_machine (t : UInt8) (d : EventPtr δ) :
    MachineCode self.thread (internalEvent self t d : Fsm σ δ Unit) := by
  refine ⟨ownAction_of_log (fun _ => rfl) (fun w => post_log self w t d) fun _ => rfl,
    fun w w' hw => ⟨sameMachine_note _ ⟨?_, hw.2⟩, rfl⟩, fun _ => trivial⟩
  simp only [hw.1]

/-- Nor does `ConsumeEvent`. -/
theorem consumeEvent_machine :
    MachineCode self.thread (consumeEvent self : Fsm σ δ (EventPtr δ)) := by
  refine ⟨ownAction_of_log (fun _ => rfl) (fun w => consume_log self w) fun _ => rfl,
    fun w w' hw => ⟨?_, ?_⟩, fun _ => trivial⟩
  · obtain ⟨hmembers, huser, hlog⟩ := hw
    exact ⟨by simp only [consume_members, hmembers], huser,
      by simp only [consume_log, hmembers, hlog]⟩
  · show ret w.members.pEventData = ret w'.members.pEventData
    rw [hw.1]

/-- A failed assertion stops the machine, not the queue. -/
theorem assertTrue_machine (thread : ThreadId) (site : Site) (c : Bool) :
    MachineCode thread (assertTrue site c : Fsm σ δ Unit) := local_ite trivial trivial

theorem orHalt_machine (thread : ThreadId) (x : Except Stop α) :
    MachineCode thread (orHalt x : Fsm σ δ α) := by
  cases x <;> trivial

end Actions

section Code

variable {M : Machine σ δ} {self : Frame δ} {nested : Call δ → Fsm σ δ Unit}
  (hnested : ∀ c, MachineCode self.thread (nested c))

include hnested

/-- A callback does what it says, and what its nested calls do. -/
theorem callback_machine {ρ : Type} (cb : Callback σ δ ρ) :
    MachineCode self.thread (cb.run self nested) := by
  induction cb with
  | ret r => trivial
  | fail => trivial
  | update f k ih =>
      refine ⟨fun w => ⟨rfl, [], by simp, by simp⟩, fun w w' hw => ?_, fun w => ih _ _⟩
      obtain ⟨hmembers, huser, hlog⟩ := hw
      exact ⟨⟨hmembers, by simp only [hmembers, huser], hlog⟩, by simp only [hmembers, huser]⟩
  | internalEvent t d k ih => exact local_bind (internalEvent_machine t d) fun _ => ih
  | call c k ih =>
      exact local_bind (record_machine _) fun _ => local_bind (hnested c) fun _ => ih

/-- A guard is a callback. -/
theorem evalGuard_machine (s : UInt8) (guard : Option (EventPtr δ → Callback σ δ Bool))
    (d : EventPtr δ) : MachineCode self.thread (evalGuard self nested s guard d) := by
  cases guard with
  | none => trivial
  | some guard =>
      exact local_bind (record_machine _) fun _ => local_bind (assertTrue_machine _ _ _) fun _ =>
        callback_machine hnested (guard d)

/-- So is an entry action. -/
theorem runEntry_machine (s : UInt8) (entry : Option (EventPtr δ → Callback σ δ Unit))
    (d : EventPtr δ) : MachineCode self.thread (runEntry self nested s entry d) := by
  cases entry with
  | none => trivial
  | some entry =>
      exact local_bind (record_machine _) fun _ => local_bind (assertTrue_machine _ _ _) fun _ =>
        callback_machine hnested (entry d)

/-- So is an exit action. -/
theorem runExit_machine (s : UInt8) (exit : Option (Callback σ δ Unit)) :
    MachineCode self.thread (runExit self nested s exit) := by
  cases exit with
  | none => trivial
  | some exit => exact local_bind (record_machine _) fun _ => callback_machine hnested exit

/-- So is a state action. -/
theorem runState_machine (s : UInt8) (state : Option (EventPtr δ → Callback σ δ Unit))
    (d : EventPtr δ) : MachineCode self.thread (runState self nested s state d) := by
  cases state with
  | none => trivial
  | some state => exact local_bind (record_machine _) fun _ => callback_machine hnested (state d)

/-- A subscriber of `OnTransition` is one as well. -/
theorem onTransition_machine (s t : UInt8) :
    MachineCode self.thread (onTransition M self nested s t) :=
  local_bind (record_machine _) fun _ => callback_machine hnested _

theorem onEntry_machine (s : UInt8) : MachineCode self.thread (onEntry M self nested s) :=
  local_bind (record_machine _) fun _ => callback_machine hnested _

theorem onExit_machine (s : UInt8) : MachineCode self.thread (onExit M self nested s) :=
  local_bind (record_machine _) fun _ => callback_machine hnested _

theorem onCannotHappen_machine (s : UInt8) :
    MachineCode self.thread (onCannotHappen M self nested s) :=
  local_bind (record_machine _) fun _ => callback_machine hnested _

/-! ### The engines -/

/-- One turn of the plain engine. -/
theorem dispatchPlain_machine (rows : List (StateMapRow σ δ)) :
    MachineCode self.thread (dispatchPlain M self nested rows) :=
  local_bind (getNewState_machine _) fun newState =>
    local_bind (assertTrue_machine _ _ _) fun _ =>
    local_bind (orHalt_machine _ _) fun row =>
    local_bind consumeEvent_machine fun d =>
    local_bind (getCurrentState_machine _) fun fromState =>
    local_bind (getNewState_machine _) fun _ =>
    local_bind (setCurrentState_machine _) fun _ =>
    local_bind (runState_machine hnested newState row.state d) fun _ =>
    local_bind (getCurrentState_machine _) fun s => onTransition_machine hnested fromState s

/-- The exit and the entry of the extended engine. -/
theorem moveEx_machine (target exitRow : UInt8) (exit : Option (Callback σ δ Unit))
    (entry : Option (EventPtr δ → Callback σ δ Unit)) (d : EventPtr δ) :
    MachineCode self.thread (moveEx M self nested target exitRow exit entry d) := by
  refine local_bind (getNewState_machine _) fun newState =>
    local_bind (getCurrentState_machine _) fun s => local_ite ?_ (setCurrentState_machine _)
  exact local_bind (runExit_machine hnested exitRow exit) fun _ =>
    local_bind (getCurrentState_machine _) fun s =>
    local_bind (onExit_machine hnested s) fun _ =>
    local_bind (getNewState_machine _) fun t =>
    local_bind (setCurrentState_machine t) fun _ =>
    local_bind (runEntry_machine hnested target entry d) fun _ =>
    local_bind (getCurrentState_machine _) fun s =>
    local_bind (onEntry_machine hnested s) fun _ =>
    local_bind (isEventPending_machine _) fun _ => assertTrue_machine _ _ _

/-- One turn of the extended engine. -/
theorem dispatchEx_machine (rows : List (StateMapRowEx σ δ)) :
    MachineCode self.thread (dispatchEx M self nested rows) := by
  refine local_bind (getNewState_machine _) fun newState =>
    local_bind (assertTrue_machine _ _ _) fun _ =>
    local_bind (orHalt_machine _ _) fun row =>
    local_bind (getCurrentState_machine _) fun currentState =>
    local_bind (orHalt_machine _ _) fun current =>
    local_bind consumeEvent_machine fun d =>
    local_bind (evalGuard_machine hnested newState row.guard d) fun _ => local_ite ?_ trivial
  exact local_bind (getCurrentState_machine _) fun fromState =>
    local_bind (moveEx_machine hnested newState currentState current.exit row.entry d) fun _ =>
    local_bind (runState_machine hnested newState row.state d) fun _ =>
    local_bind (getCurrentState_machine _) fun s => onTransition_machine hnested fromState s

section Hierarchical

variable (rows : List (StateMapRowHSM σ δ))

omit hnested in
/-- The inner walk of `FindLCA` only reads. -/
theorem lcaInner_machine (thread : ThreadId) (a : UInt8) (left : Nat) (b : UInt8) :
    MachineCode thread (lcaInner M rows a left b) := by
  induction left generalizing b with
  | zero =>
      unfold lcaInner
      exact local_ite trivial trivial
  | succ left ih =>
      unfold lcaInner
      refine local_ite (local_ite trivial ?_) trivial
      exact local_bind (orHalt_machine _ _) fun row => ih row.parentState

omit hnested in
/-- So does the outer one. -/
theorem lcaOuter_machine (thread : ThreadId) (b : UInt8) (left : Nat) (a : UInt8) :
    MachineCode thread (lcaOuter M rows b left a) := by
  induction left generalizing a with
  | zero =>
      unfold lcaOuter
      exact local_ite trivial trivial
  | succ left ih =>
      unfold lcaOuter
      refine local_ite ?_ trivial
      refine local_bind (lcaInner_machine rows thread a maxHsmDepth b) fun _ =>
        local_ite trivial ?_
      exact local_bind (orHalt_machine _ _) fun row => ih row.parentState

/-- The states that are left. -/
theorem exitWalk_machine (lca : UInt8) (left : Nat) (s : UInt8) :
    MachineCode self.thread (exitWalk M self nested rows lca left s) := by
  induction left generalizing s with
  | zero =>
      unfold exitWalk
      exact local_ite trivial trivial
  | succ left ih =>
      unfold exitWalk
      refine local_ite ?_ trivial
      exact local_bind (orHalt_machine _ _) fun row =>
        local_bind (runExit_machine hnested s row.exit) fun _ =>
        local_bind (onExit_machine hnested s) fun _ => ih row.parentState

omit hnested in
/-- Collecting the states to enter only reads. -/
theorem collectEntryChain_machine (thread : ThreadId) (lca : UInt8) (left : Nat) (s : UInt8) :
    MachineCode thread (collectEntryChain M rows lca left s) := by
  induction left generalizing s with
  | zero =>
      unfold collectEntryChain
      exact local_ite trivial trivial
  | succ left ih =>
      unfold collectEntryChain
      refine local_ite ?_ trivial
      exact local_bind (orHalt_machine _ _) fun row =>
        local_bind (ih row.parentState) fun _ => trivial

/-- The states that are entered. -/
theorem enterState_machine (d : EventPtr δ) (s : UInt8) :
    MachineCode self.thread (enterState M self nested rows d s) :=
  local_bind (orHalt_machine _ _) fun row =>
    local_bind (runEntry_machine hnested s row.entry d) fun _ => onEntry_machine hnested s

/-- The exit and the entry of the hierarchical engine. -/
theorem moveHSM_machine (fromState newState : UInt8) (d : EventPtr δ) :
    MachineCode self.thread (moveHSM M self nested rows fromState newState d) := by
  refine local_ite ?_ (setCurrentState_machine _)
  exact local_bind (lcaOuter_machine rows _ newState maxHsmDepth fromState) fun lca =>
    local_bind (exitWalk_machine hnested rows lca maxHsmDepth fromState) fun _ =>
    local_bind (collectEntryChain_machine rows _ lca maxHsmDepth newState) fun chain =>
    local_bind (setCurrentState_machine newState) fun _ =>
    local_bind (local_each (enterState_machine hnested rows d) chain.reverse) fun _ =>
    local_bind (isEventPending_machine _) fun _ => assertTrue_machine _ _ _

/-- One turn of the hierarchical engine. -/
theorem dispatchHSM_machine : MachineCode self.thread (dispatchHSM M self nested rows) := by
  refine local_bind (getNewState_machine _) fun newState =>
    local_bind (assertTrue_machine _ _ _) fun _ =>
    local_bind (orHalt_machine _ _) fun row =>
    local_bind consumeEvent_machine fun d =>
    local_bind (evalGuard_machine hnested newState row.guard d) fun _ => local_ite ?_ trivial
  exact local_bind (getCurrentState_machine _) fun fromState =>
    local_bind (moveHSM_machine hnested rows fromState newState d) fun _ =>
    local_bind (runState_machine hnested newState row.state d) fun _ =>
    local_bind (getCurrentState_machine _) fun s => onTransition_machine hnested fromState s

end Hierarchical

/-- Whichever engine the machine has, by induction on its turns. -/
theorem stateEngine_machine (n : Nat) : MachineCode self.thread (stateEngine M self nested n) := by
  have hloop {body : Fsm σ δ Unit} (hbody : MachineCode self.thread body) :
      MachineCode self.thread
        (loop .outOfFuel (fun w : World σ δ => w.members.eventGenerated) body n) :=
    local_loop (ownAction_id _) (fun w w' hw => by rw [hw.1]) hbody n
  unfold stateEngine
  split
  · exact hloop (dispatchPlain_machine hnested _)
  · exact hloop (dispatchEx_machine hnested _)
  · trivial
  · exact hloop (dispatchHSM_machine hnested _)
  · trivial

/-! ### External events -/

/-- The part of `ExternalEvent` that runs on the machine's thread. -/
theorem externalEventImpl_machine (n : Nat) (t : UInt8) (d : EventPtr δ) :
    MachineCode self.thread (externalEventImpl M self nested n t d) :=
  local_bind (record_machine _) fun _ => local_bind (internalEvent_machine t d) fun _ =>
    local_bind (stateEngine_machine hnested n) fun _ => record_machine _

/-- On that thread `ExternalEvent` queues nothing. -/
theorem externalEvent_machine (hself : M.RunsOn self.thread) (n : Nat) (t : UInt8)
    (d : EventPtr δ) : MachineCode self.thread (externalEvent M self nested n t d) := by
  unfold externalEvent
  rw [isOn_of_runsOn hself, if_pos rfl]
  refine local_ite trivial (local_ite ?_ (externalEventImpl_machine hnested n t d))
  exact local_bind (getCurrentState_machine _) fun s =>
    local_bind (onCannotHappen_machine hnested s) fun _ => trivial

/-- Nor does an event function. -/
theorem endTransitionMap_machine (hself : M.RunsOn self.thread) (n : Nat) (f : EventFunction δ) :
    MachineCode self.thread (endTransitionMap M self nested n f) :=
  local_bind (getCurrentState_machine _) fun _ => local_bind (assertTrue_machine _ _ _) fun _ =>
    local_bind (getCurrentState_machine _) fun _ => local_bind (orHalt_machine _ _) fun target =>
    externalEvent_machine hnested hself n target f.data

end Code

theorem inDerivedRange_machine (M : Machine σ δ) (thread : ThreadId) (f : EventFunction δ) :
    MachineCode thread (inDerivedRange M f : Fsm σ δ Bool) :=
  local_bind (getCurrentState_machine _) fun _ =>
    local_ite (local_bind (getCurrentState_machine _) fun _ => trivial) trivial

/-- **On the machine's thread** a call is the machine's code. -/
theorem call_machine {M : Machine σ δ} {self : Frame δ} (hself : M.RunsOn self.thread) (n : Nat)
    (c : Call δ) : MachineCode self.thread (call M self n c) := by
  induction n generalizing c with
  | zero => trivial
  | succ n ih =>
      cases c with
      | externalEvent t d => exact externalEvent_machine ih hself n t d
      | event f =>
          have hmap : MachineCode self.thread (transitionMap M self (call M self n) n f) := by
            rw [transitionMap, isOn_of_runsOn hself, if_pos rfl]
            exact endTransitionMap_machine ih hself n f
          rw [call, eventFunction]
          cases f.parentTransition with
          | none => exact hmap
          | some p =>
              exact local_bind (inDerivedRange_machine M self.thread f) fun _ =>
                local_ite (externalEvent_machine ih hself n p none) hmap

/-- The machine's thread invokes a message. -/
theorem invoke_machine {M : Machine σ δ} {thread : ThreadId} (hM : M.RunsOn thread) (n : Nat)
    (msg : Message δ) : MachineCode thread (invoke M thread n msg) := by
  obtain ⟨sender, delegate⟩ := msg
  let self : Frame δ := ⟨thread, sender.call⟩
  have hself : M.RunsOn self.thread := hM
  cases n with
  | zero => trivial
  | succ n =>
      have hcall (c : Call δ) : MachineCode self.thread (call M self n c) := call_machine hself n c
      cases delegate with
      | externalEventImpl t d => exact externalEventImpl_machine hcall n t d
      | event f => exact call_machine hself (n + 1) (.event f)

end ActiveFsm
