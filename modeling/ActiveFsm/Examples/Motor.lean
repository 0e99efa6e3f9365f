import ActiveFsm.Abstraction
import Mathlib.Data.List.Induction

/-!
# ActiveFsm.Examples.Motor

The motor: it is started and changes its speed on `SetSpeed`, and on `Halt` it
passes through `ST_STOP` to `ST_IDLE`.  In `ST_STOP` neither can happen.
-/

namespace ActiveFsm

open Proc Transition

namespace Motor

/-! ## The machine -/

structure MotorData where
  speed : Int
  deriving DecidableEq, Repr

/-- The members of the class itself. -/
structure Own where
  currentSpeed : Int := 0
  deriving DecidableEq, Repr

def stIdle : UInt8 := 0

def stStop : UInt8 := 1

def stStart : UInt8 := 2

def stChangeSpeed : UInt8 := 3

def stMaxStates : UInt8 := 4

def idle (_ : EventPtr MotorData) : Callback Own MotorData Unit := .ret ()

def stop (_ : EventPtr MotorData) : Callback Own MotorData Unit :=
  .update (fun _ m => { m with currentSpeed := 0 }) fun _ _ =>
    .internalEvent stIdle none (.ret ())

def start (data : EventPtr MotorData) : Callback Own MotorData Unit :=
  .withData data fun d => .update (fun _ m => { m with currentSpeed := d.speed }) fun _ _ => .ret ()

def changeSpeed (data : EventPtr MotorData) : Callback Own MotorData Unit :=
  .withData data fun d => .update (fun _ m => { m with currentSpeed := d.speed }) fun _ _ => .ret ()

def motor (thread : Option ThreadId) : Machine Own MotorData where
  maxStates := stMaxStates
  maps := .flat none (some
    [{ state := some idle }, { state := some stop }, { state := some start },
      { state := some changeSpeed }])
  thread := thread
  maps_size := by simp [StateMaps.HasSize, stMaxStates]

def setSpeed (data : MotorData) : Call MotorData :=
  .event
    { transitions := [stStart, cannotHappen, stChangeSpeed, stChangeSpeed]
      data := some (.data data) }

def halt : Call MotorData :=
  .event { transitions := [eventIgnored, cannotHappen, stStop, stStop] }

/-! ## The motor at rest -/

/-- The public operations. -/
inductive Op where
  | setSpeed (data : MotorData)
  | halt
  deriving DecidableEq, Repr

def perform : Op → Call MotorData
  | .setSpeed data => Motor.setSpeed data
  | .halt => Motor.halt

/-- A motor between two operations. -/
inductive Rest where
  | idle
  | started (speed : Int)
  | changed (speed : Int)
  deriving DecidableEq, Repr

def Rest.state : Rest → UInt8
  | idle => stIdle
  | started _ => stStart
  | changed _ => stChangeSpeed

def Rest.speed : Rest → Int
  | idle => 0
  | started speed => speed
  | changed speed => speed

/-- No operation is one the motor does not survive. -/
def next : Rest → Op → Option Rest
  | .idle, .setSpeed data => some (.started data.speed)
  | .started _, .setSpeed data => some (.changed data.speed)
  | .changed _, .setSpeed data => some (.changed data.speed)
  | _, .halt => some .idle

/-- The motor rests as `r` says. -/
def Rests (r : Rest) (w : World Own MotorData) : Prop :=
  w.members.currentState = r.state ∧ w.members.eventGenerated = false ∧
    w.user.currentSpeed = r.speed

/-- The motor can do everything at any time. -/
theorem next_isSome (r : Rest) (o : Op) : (next r o).isSome = true := by
  cases r <;> cases o <;> rfl

/-- Each operation, executed. -/
theorem motor_implements (thread : ThreadId) (n : Nat) :
    Implements (motor none) thread (n + 5) perform next Rests where
  goes r o r' w hw hnext := by
    obtain ⟨⟨s, target, pending, data⟩, ⟨speed⟩, queue, log⟩ := w
    obtain ⟨hs, hpending, hspeed⟩ := hw
    dsimp only at hs hpending hspeed
    subst hs hpending hspeed
    cases r <;> cases o <;> cases hnext <;> exact wp_of_ok rfl ⟨rfl, rfl, rfl⟩
  stops r o w _ hnext := by
    have hsome := next_isSome r o
    rw [hnext] at hsome
    contradiction
  same r w w' hw hsame := by
    unfold Rests
    rw [← hsame.1, ← hsame.2.1]
    exact hw

/-! ## What it runs at -/

/-- The speed that the last operation asks for. -/
def setpoint (ops : List Op) : Int :=
  match ops.getLast? with
  | some (.setSpeed data) => data.speed
  | _ => 0

/-- The last operation decides. -/
theorem setpoint_snoc (ops : List Op) (o : Op) :
    setpoint (ops ++ [o]) = match o with
      | .setSpeed data => data.speed
      | .halt => 0 := by
  cases o <;> simp [setpoint]

/-- The motor survives everything, and runs at the last speed it was set to. -/
theorem exec_next (ops : List Op) :
    ∃ r, exec next .idle ops = some r ∧ r.speed = setpoint ops := by
  induction ops using List.reverseRecOn with
  | nil => exact ⟨.idle, rfl, rfl⟩
  | append_singleton ops o ih =>
      obtain ⟨r, hexec, -⟩ := ih
      rw [exec_append, hexec, Option.bind_some, setpoint_snoc]
      cases r <;> cases o <;> exact ⟨_, rfl, rfl⟩

/-- The operations are event functions without a parent. -/
theorem plain_perform (o : Op) : ∃ f, perform o = .event f ∧ f.parentTransition = none := by
  cases o <;> exact ⟨_, rfl, rfl⟩

/-- Thread 1 sets the speed twice, thread 2 halts the motor. -/
def todoTwo (t : ThreadId) : List Op :=
  if t = 1 then [.setSpeed ⟨100⟩, .setSpeed ⟨200⟩] else if t = 2 then [.halt] else []

/-- A motor that has just been constructed. -/
def motorNew : World Own MotorData := World.start { currentState := stIdle } {}

/-- `Halt` is taken first, then `SetSpeed`. -/
def haltFirst : List ActiveFsm.Choice :=
  [.call 2, .move 2 .go, .call 1, .move 1 .go, .move 2 .go, .move 1 .go, .take] ++
    List.replicate 2 (.move 0 .go) ++ [.take] ++ List.replicate 24 (.move 0 .go)

theorem motorNew_isNew : motorNew.queue.IsNew := rfl

/-- The queue has room, and what the worker would take is up to date. -/
def linearOk (S : System Own MotorData) (_ : ActiveFsm.Choice) : Bool :=
  !S.world.queue.full && match S.world.queue.takeNext with
    | some (msg, _) => decide (msg.body.Fresh (motor (some 0)) 8 S.world.members.currentState)
    | none => true

/-- `Halt` takes effect before the first `SetSpeed`. -/
theorem active_linearizable_motor :
    ∃ S, Reaches (motor (some 0)) 0 (4 + 4 + 1)
        (fun S ch => S.world.queue.full = false ∧ TakesFresh (motor (some 0)) (4 + 4) S ch)
        { world := motorNew, pending := fun t => (todoTwo t).map perform } S ∧
      S.taken.map (fun m => m.sender.thread) = [2, 1] ∧
      ∃ ops, S.Linear 0 perform next Rests .idle todoTwo ops := by
  have hexec : ∃ S, System.exec (motor (some 0)) 0 9 linearOk
      { world := motorNew, pending := fun t => (todoTwo t).map perform } haltFirst = some S ∧
      S.taken.map (fun m => m.sender.thread) = [2, 1] := ⟨_, rfl, rfl⟩
  obtain ⟨S, hS, htaken⟩ := hexec
  have hreach : Reaches (motor (some 0)) 0 (4 + 4 + 1)
      (fun S ch => S.world.queue.full = false ∧ TakesFresh (motor (some 0)) (4 + 4) S ch)
      { world := motorNew, pending := fun t => (todoTwo t).map perform } S := by
    refine (reaches_of_exec hS).mono fun S ch h => ?_
    obtain ⟨hfull, hfresh⟩ := Bool.and_eq_true_iff.mp h
    refine ⟨by simpa using hfull, fun _ msg queue htake => ?_⟩
    rw [htake] at hfresh
    exact of_decide_eq_true hfresh
  have hplain : ∀ t, ∀ o ∈ todoTwo t, (perform o).IsPlain := by
    intro t o _
    obtain ⟨f, hf, hnone⟩ := plain_perform o
    exact ⟨f, hf, by simp [hnone]⟩
  have himpl : Implements (motor (some 0)) 0 (4 + 4 + 1) perform next Rests :=
    .of_synchronous (runsOn_of_thread rfl) (motor_implements 0 4)
  exact ⟨S, hreach, htaken,
    active_linearizable rfl motorNew_isNew rfl hplain himpl ⟨rfl, rfl, rfl⟩ hreach⟩

end Motor

end ActiveFsm
