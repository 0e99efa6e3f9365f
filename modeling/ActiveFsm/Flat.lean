import ActiveFsm.Action

/-!
# ActiveFsm.Flat

The two flat engines of `StateMachine.cpp`.  `dispatch...` is the body of an
engine's `while (m_eventGenerated)` loop.
-/

namespace ActiveFsm

open Proc

variable {σ δ : Type} (M : Machine σ δ) (self : Frame δ) (nested : Call δ → Fsm σ δ Unit)

/-! ## `StateEngine(const StateMapRow*)` -/

/-- One iteration of the plain engine. -/
def dispatchPlain (rows : List (StateMapRow σ δ)) : Fsm σ δ Unit := do
  let newState ← getNewState
  assertTrue .newState (newState < M.maxStates)
  let row ← rowAt rows newState
  let pDataTemp ← consumeEvent self
  let fromState ← getCurrentState
  setCurrentState self (← getNewState)
  runState self nested newState row.state pDataTemp
  onTransition M self nested fromState (← getCurrentState)

/-- `StateEngine(const StateMapRow*)`. -/
def stateEnginePlain (rows : List (StateMapRow σ δ)) (n : Nat) : Fsm σ δ Unit :=
  loop .outOfFuel (fun w => w.members.eventGenerated) (dispatchPlain M self nested rows) n

/-! ## `StateEngine(const StateMapRowEx*)` -/

/-- The branch taken when `m_newState != m_currentState`.  `exit` was read
from row `exitRow`, and `entry` from row `target`, before the guard ran; the
state that is left and the state that is entered are read from the members
as they are now. -/
def changeStateEx (target exitRow : UInt8) (exit : Option (Callback σ δ Unit))
    (entry : Option (EventPtr δ → Callback σ δ Unit)) (pDataTemp : EventPtr δ) :
    Fsm σ δ Unit := do
  runExit self nested exitRow exit
  onExit M self nested (← getCurrentState)
  setCurrentState self (← getNewState)
  runEntry self nested target entry pDataTemp
  onEntry M self nested (← getCurrentState)
  assertTrue .eventPending (!(← isEventPending))

/-- The change of state: with exit and entry, or a self-transition. -/
def moveEx (target exitRow : UInt8) (exit : Option (Callback σ δ Unit))
    (entry : Option (EventPtr δ → Callback σ δ Unit)) (pDataTemp : EventPtr δ) :
    Fsm σ δ Unit := do
  let newState ← getNewState
  let currentState ← getCurrentState
  if newState ≠ currentState then changeStateEx M self nested target exitRow exit entry pDataTemp
  else setCurrentState self newState

/-- What follows a guard that succeeded. -/
def transitionEx (target exitRow : UInt8) (row : StateMapRowEx σ δ)
    (exit : Option (Callback σ δ Unit)) (pDataTemp : EventPtr δ) : Fsm σ δ Unit := do
  let fromState ← getCurrentState
  moveEx M self nested target exitRow exit row.entry pDataTemp
  runState self nested target row.state pDataTemp
  onTransition M self nested fromState (← getCurrentState)

/-- One iteration of the extended engine. -/
def dispatchEx (rows : List (StateMapRowEx σ δ)) : Fsm σ δ Unit := do
  let newState ← getNewState
  assertTrue .newState (newState < M.maxStates)
  let row ← rowAt rows newState
  let currentState ← getCurrentState
  let current ← rowAt rows currentState
  let pDataTemp ← consumeEvent self
  let guardResult ← evalGuard self nested newState row.guard pDataTemp
  if guardResult then transitionEx M self nested newState currentState row current.exit pDataTemp
  else ret ()

/-- `StateEngine(const StateMapRowEx*)`. -/
def stateEngineEx (rows : List (StateMapRowEx σ δ)) (n : Nat) : Fsm σ δ Unit :=
  loop .outOfFuel (fun w => w.members.eventGenerated) (dispatchEx M self nested rows) n

end ActiveFsm
