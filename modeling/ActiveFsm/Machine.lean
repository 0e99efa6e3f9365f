import ActiveFsm.Thread
import ActiveFsm.Proc

/-!
# ActiveFsm.Machine

The data of a state machine: its members, its state map, the code a derived
class supplies for guards, actions and signal subscribers, and what a run of
it leaves behind.

State indices, targets and parent links are the source's `uint8_t`; the
values 0xFC to 0xFF double as sentinels.  An event data pointer is an
`Option`, `none` being the null pointer.
-/

namespace ActiveFsm

/-! ## Sentinels and limits -/

def eventIgnored : UInt8 := 0xFE

def cannotHappen : UInt8 := 0xFF

def noParent : UInt8 := 0xFD

def propagateToParent : UInt8 := 0xFC

/-- `StateMachineHSM::MAX_HSM_DEPTH`. -/
def maxHsmDepth : Nat := 32

/-! ## Events -/

/-- `EventData`; the base class itself is `NoEventData`. -/
inductive EventData (δ : Type) where
  | noEventData
  | data (d : δ)
  deriving DecidableEq, Repr

/-- `std::shared_ptr<const EventData>`. -/
abbrev EventPtr (δ : Type) := Option (EventData δ)

/-- The body of an external event function of a derived class: an optional
`PARENT_TRANSITION(state)`, then `BEGIN_TRANSITION_MAP ... END_TRANSITION_MAP`
or `... END_TRANSITION_MAP_HSM`, with the data it passes on.  `ST_MAX_STATES`
of the class it is written in is the number of entries (`static_assert`). -/
structure EventFunction (δ : Type) where
  parentTransition : Option UInt8 := none
  transitions : List UInt8
  hsm : Bool := false
  data : EventPtr δ := none
  deriving DecidableEq, Repr

/-- A call that raises an external event: `ExternalEvent` itself, or an event
function. -/
inductive Call (δ : Type) where
  | externalEvent (newState : UInt8) (pData : EventPtr δ)
  | event (f : EventFunction δ)
  deriving DecidableEq, Repr

/-! ## User code -/

/-- What a guard, an action or a signal subscriber does before it returns an
`ρ`: it may read the current state and read and write data of its own (`σ`),
fail an assertion of its own, post internal events and raise external ones. -/
inductive Callback (σ δ ρ : Type) : Type where
  | ret (r : ρ)
  | fail
  | update (f : UInt8 → σ → σ) (k : UInt8 → σ → Callback σ δ ρ)
  | internalEvent (newState : UInt8) (pData : EventPtr δ) (k : Callback σ δ ρ)
  | call (c : Call δ) (k : Callback σ δ ρ)

/-- The callback posts internal events only if `posts` and raises external
ones only if `raises`. -/
def Callback.Only (posts raises : Prop) {σ δ ρ : Type} : Callback σ δ ρ → Prop
  | ret _ => True
  | fail => True
  | update _ k => ∀ s u, (k s u).Only posts raises
  | internalEvent _ _ k => posts ∧ k.Only posts raises
  | call _ k => raises ∧ k.Only posts raises

/-- Less is allowed of the same callback. -/
theorem Callback.Only.mono {posts posts' raises raises' : Prop} {σ δ ρ : Type}
    {cb : Callback σ δ ρ} (hposts : posts → posts') (hraises : raises → raises')
    (h : cb.Only posts raises) : cb.Only posts' raises' := by
  induction cb with
  | ret r => trivial
  | fail => trivial
  | update f k ih => exact fun s u => ih s u (h s u)
  | internalEvent t d k ih => exact ⟨hposts h.1, ih h.2⟩
  | call c k ih => exact ⟨hraises h.1, ih h.2⟩

/-! ## State maps -/

section Maps

variable (σ δ : Type)

/-- `StateMapRow`. -/
structure StateMapRow where
  state : Option (EventPtr δ → Callback σ δ Unit)

/-- `StateMapRowEx`. -/
structure StateMapRowEx where
  state : Option (EventPtr δ → Callback σ δ Unit)
  guard : Option (EventPtr δ → Callback σ δ Bool) := none
  entry : Option (EventPtr δ → Callback σ δ Unit) := none
  exit : Option (Callback σ δ Unit) := none

/-- `StateMapRowHSM`. -/
structure StateMapRowHSM extends StateMapRowEx σ δ where
  parentState : UInt8

/-- What `GetStateMap()` and `GetStateMapEx()` of a flat machine, or
`GetStateMapHSM()` of a hierarchical one, return. -/
inductive StateMaps where
  | flat (getStateMap : Option (List (StateMapRow σ δ)))
      (getStateMapEx : Option (List (StateMapRowEx σ δ)))
  | hsm (getStateMapHSM : Option (List (StateMapRowHSM σ δ)))

variable {σ δ}

/-- Every map that is not null has `n` rows (`static_assert` of the `END_`
macros). -/
def StateMaps.HasSize (n : Nat) : StateMaps σ δ → Prop
  | flat rows rowsEx => (∀ r ∈ rows, r.length = n) ∧ ∀ r ∈ rowsEx, r.length = n
  | hsm rows => ∀ r ∈ rows, r.length = n

end Maps

/-- The subscribers of the four signals.  A signal calls its subscribers one
after the other, so together they are one callback. -/
structure Signals (σ δ : Type) where
  onTransition : UInt8 → UInt8 → Callback σ δ Unit := fun _ _ => .ret ()
  onEntry : UInt8 → Callback σ δ Unit := fun _ => .ret ()
  onExit : UInt8 → Callback σ δ Unit := fun _ => .ret ()
  onCannotHappen : UInt8 → Callback σ δ Unit := fun _ => .ret ()

/-- What does not change while a machine runs: `MAX_STATES`, the maps, the
subscribers and `m_thread`. -/
structure Machine (σ δ : Type) where
  maxStates : UInt8
  maps : StateMaps σ δ
  signals : Signals σ δ := {}
  thread : Option ThreadId := none
  maps_size : maps.HasSize maxStates.toNat

/-! ## Faults -/

/-- The assertions of the source, each named after what it checks. -/
inductive Site where
  | maxStates
  | cannotHappen
  | stateMap
  | newState
  | eventPending
  | nullState
  | guardData
  | entryData
  | exitDepth
  | entryDepth
  | lcaDepth
  | transitionMap
  | queueFull
  | user
  deriving DecidableEq, Repr

/-- Why a thread makes no further step.  `outOfRange i` is a subscript outside
its array, from where on the source's behaviour is undefined. -/
inductive Stop where
  | fault (site : Site)
  | outOfRange (index : UInt8)
  | outOfFuel
  deriving DecidableEq, Repr

/-! ## The mutable state -/

/-- The members a run reads and writes. -/
structure Members (δ : Type) where
  currentState : UInt8
  newState : UInt8 := 0
  eventGenerated : Bool := false
  pEventData : EventPtr δ := none
  deriving DecidableEq, Repr

/-- What a thread is executing: its id, and the outermost call on its stack. -/
structure Frame (δ : Type) where
  thread : ThreadId
  call : Call δ
  deriving DecidableEq, Repr

/-- The delegates `MakeDelegate(this, ..., *thread)(...)` puts on the thread's
queue. -/
inductive Delegate (δ : Type) where
  | externalEventImpl (newState : UInt8) (pData : EventPtr δ)
  | event (f : EventFunction δ)
  deriving DecidableEq, Repr

/-- A queued delegate, and on behalf of which call it was queued. -/
structure Message (δ : Type) where
  sender : Frame δ
  delegate : Delegate δ
  deriving DecidableEq, Repr

/-- What a run does, as seen from outside: callbacks invoked, signals emitted,
members written.  A guard, an action, an entry or an exit action is named by
the row its pointer was read from. -/
inductive Obs (δ : Type) where
  | guard (s : UInt8) (pData : EventPtr δ)
  | exit (s : UInt8)
  | entry (s : UInt8) (pData : EventPtr δ)
  | action (s : UInt8) (pData : EventPtr δ)
  | onExit (s : UInt8)
  | onEntry (s : UInt8)
  | onTransition (fromState toState : UInt8)
  | onCannotHappen (s : UInt8)
  | post (newState : UInt8) (pData : EventPtr δ)
  | consume (newState : UInt8) (pData : EventPtr δ)
  | setCurrentState (s : UInt8)
  | raise (c : Call δ)
  | start
  | finish
  deriving DecidableEq, Repr

/-- One line of a run's log: what happened, on which thread, and the members
right after. -/
structure Entry (δ : Type) where
  thread : ThreadId
  obs : Obs δ
  members : Members δ
  deriving DecidableEq, Repr

/-- Everything the threads of the program share. -/
structure World (σ δ : Type) where
  members : Members δ
  user : σ
  queue : ThreadQueue (Message δ) := { maxQueueSize := 0 }
  log : List (Entry δ) := []

/-- Code of the machine. -/
abbrev Fsm (σ δ α : Type) := Proc Stop (World σ δ) α

section Construct

variable {σ δ : Type} (M : Machine σ δ)

/-- The constructors `StateMachine(maxStates, initialState)` and
`StateMachineHSM(maxStates, initialState)`. -/
def construct (initialState : UInt8) : Except Stop (Members δ) :=
  if M.maxStates < eventIgnored then
    match M.maps with
    | .flat _ _ => .ok { currentState := initialState }
    | .hsm _ =>
        if M.maxStates < propagateToParent then .ok { currentState := initialState }
        else .error (.fault .maxStates)
  else .error (.fault .maxStates)

end Construct

end ActiveFsm
