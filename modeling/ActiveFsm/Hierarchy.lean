import ActiveFsm.Action

/-!
# ActiveFsm.Hierarchy

The hierarchical engine of `StateMachineHSM.cpp`.  Its three bounded walks
count down the steps that `MAX_HSM_DEPTH` still allows.
-/

namespace ActiveFsm

open Proc

variable {σ δ : Type} (M : Machine σ δ) (self : Frame δ) (nested : Call δ → Fsm σ δ Unit)
  (rows : List (StateMapRowHSM σ δ))

/-! ## `FindLCA` -/

/-- The inner loop of `FindLCA`: is `a` among `b` and its ancestors? -/
def lcaInner (a : UInt8) : Nat → UInt8 → Fsm σ δ Bool
  | left, b =>
    if b < M.maxStates then
      match left with
      | 0 => halt (.fault .lcaDepth)
      | left + 1 =>
        if a = b then ret true
        else do
          let row ← rowAt rows b
          lcaInner a left row.parentState
    else ret false

/-- The outer loop of `FindLCA`. -/
def lcaOuter (stateB : UInt8) : Nat → UInt8 → Fsm σ δ UInt8
  | left, a =>
    if a < M.maxStates then
      match left with
      | 0 => halt (.fault .lcaDepth)
      | left + 1 => do
        if ← lcaInner M rows a maxHsmDepth stateB then ret a
        else do
          let row ← rowAt rows a
          lcaOuter stateB left row.parentState
    else ret noParent

/-- `FindLCA(stateA, stateB, map)`. -/
def findLCA (stateA stateB : UInt8) : Fsm σ δ UInt8 := lcaOuter M rows stateB maxHsmDepth stateA

/-! ## `StateMachineHSM::StateEngine` -/

/-- Exit from `s` up to, not including, the LCA. -/
def exitWalk (lca : UInt8) : Nat → UInt8 → Fsm σ δ Unit
  | left, s =>
    if s < M.maxStates ∧ s ≠ lca then
      match left with
      | 0 => halt (.fault .exitDepth)
      | left + 1 => do
        let row ← rowAt rows s
        runExit self nested s row.exit
        onExit M self nested s
        exitWalk lca left row.parentState
    else ret ()

/-- Collect the entry chain from `s` up to, not including, the LCA, leaf
first. -/
def collectEntryChain (lca : UInt8) : Nat → UInt8 → Fsm σ δ (List UInt8)
  | left, s =>
    if s < M.maxStates ∧ s ≠ lca then
      match left with
      | 0 => halt (.fault .entryDepth)
      | left + 1 => do
        let row ← rowAt rows s
        let rest ← collectEntryChain lca left row.parentState
        ret (s :: rest)
    else ret []

/-- Run the entry action of one state and announce the entry. -/
def enterState (pDataTemp : EventPtr δ) (s : UInt8) : Fsm σ δ Unit := do
  let row ← rowAt rows s
  runEntry self nested s row.entry pDataTemp
  onEntry M self nested s

/-- The branch taken when `newState != fromState`. -/
def changeStateHSM (fromState newState : UInt8) (pDataTemp : EventPtr δ) : Fsm σ δ Unit := do
  let lca ← findLCA M rows fromState newState
  exitWalk M self nested rows lca maxHsmDepth fromState
  let entryChain ← collectEntryChain M rows lca maxHsmDepth newState
  setCurrentState self newState
  each (enterState M self nested rows pDataTemp) entryChain.reverse
  assertTrue .eventPending (!(← isEventPending))

/-- The change of state: through the hierarchy, or a self-transition. -/
def moveHSM (fromState newState : UInt8) (pDataTemp : EventPtr δ) : Fsm σ δ Unit :=
  if newState ≠ fromState then changeStateHSM M self nested rows fromState newState pDataTemp
  else setCurrentState self newState

/-- What follows a guard that succeeded. -/
def transitionHSM (newState : UInt8) (row : StateMapRowHSM σ δ) (pDataTemp : EventPtr δ) :
    Fsm σ δ Unit := do
  let fromState ← getCurrentState
  moveHSM M self nested rows fromState newState pDataTemp
  runState self nested newState row.state pDataTemp
  onTransition M self nested fromState (← getCurrentState)

/-- One iteration of the hierarchical engine. -/
def dispatchHSM : Fsm σ δ Unit := do
  let newState ← getNewState
  assertTrue .newState (newState < M.maxStates)
  let row ← rowAt rows newState
  let pDataTemp ← consumeEvent self
  let guardResult ← evalGuard self nested newState row.guard pDataTemp
  if guardResult then transitionHSM M self nested rows newState row pDataTemp
  else ret ()

/-- `StateMachineHSM::StateEngine()`. -/
def stateEngineHSM (n : Nat) : Fsm σ δ Unit :=
  loop .outOfFuel (fun w => w.members.eventGenerated) (dispatchHSM M self nested rows) n

end ActiveFsm
