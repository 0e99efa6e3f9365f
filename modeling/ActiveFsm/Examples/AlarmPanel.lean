import ActiveFsm.Abstraction
import ActiveFsm.Monitor

/-!
# ActiveFsm.Examples.AlarmPanel

The alarm panel, a hierarchical machine: `ST_ARMED` is the parent of
`ST_ARMED_HOME` and `ST_ARMED_AWAY`, handles `Disarm` and `Trigger` for both,
and its entry and exit actions switch the sensors on and off.
-/

namespace ActiveFsm

open Proc Transition

namespace AlarmPanel

/-! ## The machine -/

structure TriggerData where
  zone : Int := 0
  deriving DecidableEq, Repr

/-- What the panel says. -/
inductive Line where
  | systemDisarmed
  | armedComposite
  | armedHome
  | armedAway
  | alarm (zone : Int)
  | activatingSensors
  | deactivatingSensors
  | interiorMotionDisabled
  | fullCoverageEnabled
  deriving DecidableEq, Repr

/-- The output of the panel. -/
structure Own where
  cout : List Line := []
  deriving DecidableEq, Repr

def stDisarmed : UInt8 := 0

def stArmed : UInt8 := 1

def stArmedHome : UInt8 := 2

def stArmedAway : UInt8 := 3

def stAlarming : UInt8 := 4

def stMaxStates : UInt8 := 5

def print (line : Line) : Callback Own TriggerData Unit :=
  .update (fun _ own => { own with cout := own.cout ++ [line] }) fun _ _ => .ret ()

def disarmed (_ : EventPtr TriggerData) : Callback Own TriggerData Unit := print .systemDisarmed

def armed (_ : EventPtr TriggerData) : Callback Own TriggerData Unit := print .armedComposite

def armedHome (_ : EventPtr TriggerData) : Callback Own TriggerData Unit := print .armedHome

def armedAway (_ : EventPtr TriggerData) : Callback Own TriggerData Unit := print .armedAway

def alarming (data : EventPtr TriggerData) : Callback Own TriggerData Unit :=
  .withData data fun d => print (.alarm d.zone)

def entryArmed (_ : EventPtr TriggerData) : Callback Own TriggerData Unit :=
  print .activatingSensors

def exitArmed : Callback Own TriggerData Unit := print .deactivatingSensors

def entryArmedHome (_ : EventPtr TriggerData) : Callback Own TriggerData Unit :=
  print .interiorMotionDisabled

def entryArmedAway (_ : EventPtr TriggerData) : Callback Own TriggerData Unit :=
  print .fullCoverageEnabled

def alarmPanel : Machine Own TriggerData where
  maxStates := stMaxStates
  maps := .hsm (some
    [{ state := some disarmed, parentState := noParent },
      { state := some armed, entry := some entryArmed, exit := some exitArmed
        parentState := noParent },
      { state := some armedHome, entry := some entryArmedHome, parentState := stArmed },
      { state := some armedAway, entry := some entryArmedAway, parentState := stArmed },
      { state := some alarming, parentState := noParent }])
  maps_size := by simp [StateMaps.HasSize, stMaxStates]

def armHome : Call TriggerData :=
  .event
    { transitions := [stArmedHome, eventIgnored, eventIgnored, eventIgnored, eventIgnored]
      hsm := true }

def armAway : Call TriggerData :=
  .event
    { transitions := [stArmedAway, eventIgnored, eventIgnored, eventIgnored, eventIgnored]
      hsm := true }

def disarm : Call TriggerData :=
  .event
    { transitions := [eventIgnored, stDisarmed, propagateToParent, propagateToParent, stDisarmed]
      hsm := true }

def toggle : Call TriggerData :=
  .event
    { transitions := [eventIgnored, eventIgnored, stArmedAway, stArmedHome, eventIgnored]
      hsm := true }

def trigger (data : TriggerData) : Call TriggerData :=
  .event
    { transitions := [eventIgnored, stAlarming, propagateToParent, propagateToParent, eventIgnored]
      hsm := true
      data := some (.data data) }

/-! ## What the panel may say -/

/-- What the sensors and the alarm do. -/
inductive Watch where
  | off
  /-- The sensors are active. -/
  | on
  /-- The sensors have been deactivated; the reason comes next. -/
  | leaving
  | sounding
  deriving DecidableEq, Repr

/-- The sensors are activated where they are off and deactivated where they are
on; the alarm sounds only when they have just been deactivated, until the
system is disarmed.  The composite state never acts. -/
def Watch.next : Monitor Watch Line
  | .off, .activatingSensors => some .on
  | .on, .interiorMotionDisabled => some .on
  | .on, .fullCoverageEnabled => some .on
  | .on, .armedHome => some .on
  | .on, .armedAway => some .on
  | .on, .deactivatingSensors => some .leaving
  | .leaving, .alarm _ => some .sounding
  | .leaving, .systemDisarmed => some .off
  | .sounding, .systemDisarmed => some .off
  | _, _ => none

/-! ## The panel at rest -/

/-- The public operations. -/
inductive Op where
  | armHome
  | armAway
  | disarm
  | toggle
  | trigger (data : TriggerData)
  deriving DecidableEq, Repr

def perform : Op → Call TriggerData
  | .armHome => AlarmPanel.armHome
  | .armAway => AlarmPanel.armAway
  | .disarm => AlarmPanel.disarm
  | .toggle => AlarmPanel.toggle
  | .trigger data => AlarmPanel.trigger data

/-- A panel between two operations. -/
inductive Rest where
  | disarmed
  | home
  | away
  | alarming
  deriving DecidableEq, Repr

def Rest.state : Rest → UInt8
  | disarmed => stDisarmed
  | home => stArmedHome
  | away => stArmedAway
  | alarming => stAlarming

def Rest.watch : Rest → Watch
  | disarmed => .off
  | home => .on
  | away => .on
  | alarming => .sounding

/-- What an operation does. -/
def Rest.after : Rest → Op → Rest
  | .disarmed, .armHome => .home
  | .disarmed, .armAway => .away
  | .disarmed, _ => .disarmed
  | _, .disarm => .disarmed
  | .home, .toggle => .away
  | .away, .toggle => .home
  | .home, .trigger _ => .alarming
  | .away, .trigger _ => .alarming
  | r, _ => r

/-- What the panel says meanwhile: leaving and entering first, then the state. -/
def Rest.prints : Rest → Op → List Line
  | .disarmed, .armHome => [.activatingSensors, .interiorMotionDisabled, .armedHome]
  | .disarmed, .armAway => [.activatingSensors, .fullCoverageEnabled, .armedAway]
  | .home, .disarm => [.deactivatingSensors, .systemDisarmed]
  | .away, .disarm => [.deactivatingSensors, .systemDisarmed]
  | .alarming, .disarm => [.systemDisarmed]
  | .home, .toggle => [.fullCoverageEnabled, .armedAway]
  | .away, .toggle => [.interiorMotionDisabled, .armedHome]
  | .home, .trigger data => [.deactivatingSensors, .alarm data.zone]
  | .away, .trigger data => [.deactivatingSensors, .alarm data.zone]
  | _, _ => []

/-- One operation, executed. -/
theorem call_perform (thread : ThreadId) (n : Nat) (r : Rest) (o : Op) (target : UInt8)
    (data : EventPtr TriggerData) (cout : List Line) (queue : ThreadQueue (Message TriggerData))
    (log : List (Entry TriggerData)) :
    (call alarmPanel ⟨thread, perform o⟩ (n + 5) (perform o)).wp
      (fun _ w => w.members.currentState = (r.after o).state ∧ w.members.eventGenerated = false ∧
        w.user.cout = (r.prints o).foldl (fun cout line => cout ++ [line]) cout)
      (fun _ _ => False) ⟨⟨r.state, target, false, data⟩, ⟨cout⟩, queue, log⟩ := by
  cases r <;> cases o <;> exact wp_of_ok rfl ⟨rfl, rfl, rfl⟩

/-- The panel rests as `r` says, and what it has said so far is in order. -/
def Rests (r : Rest) (w : World Own TriggerData) : Prop :=
  w.members.currentState = r.state ∧ w.members.eventGenerated = false ∧
    Watch.next.scan .off w.user.cout = some r.watch

theorem foldl_print (cout lines : List Line) :
    lines.foldl (fun cout line => cout ++ [line]) cout = cout ++ lines := by
  induction lines generalizing cout with
  | nil => rw [List.foldl_nil, List.append_nil]
  | cons line lines ih => rw [List.foldl_cons, ih, List.append_assoc, List.singleton_append]

/-- What an operation says fits in with what the sensors and the alarm do. -/
theorem scan_prints (r : Rest) (o : Op) :
    Watch.next.scan r.watch (r.prints o) = some (r.after o).watch := by
  cases r <;> cases o <;> rfl

/-- The panel is the automaton, one operation after another. -/
theorem alarm_implements (thread : ThreadId) (n : Nat) :
    Implements alarmPanel thread (n + 5) perform (fun r o => some (r.after o)) Rests where
  goes r o r' w hw hnext := by
    obtain ⟨⟨s, target, pending, data⟩, ⟨cout⟩, queue, log⟩ := w
    obtain ⟨hs, hpending, hcout⟩ := hw
    dsimp only at hs hpending hcout
    subst hs hpending
    rw [← Option.some.inj hnext]
    refine wp_then (call_perform thread n r o target data cout queue log) fun _ w' hw' => ?_
    refine ⟨hw'.1, hw'.2.1, ?_⟩
    rw [hw'.2.2, foldl_print, Monitor.scan_append, hcout, Option.bind_some, scan_prints]
  stops r o w _ hnext := by contradiction
  same r w w' hw hsame := by
    unfold Rests
    rw [← hsame.1, ← hsame.2.1]
    exact hw

/-- The operations that lead a panel from one rest to the next. -/
theorem exec_after (r : Rest) (ops : List Op) :
    exec (fun r o => some (Rest.after r o)) r ops = some (ops.foldl Rest.after r) := by
  induction ops generalizing r with
  | nil => rfl
  | cons o ops ih => rw [exec_cons, Option.bind_some, List.foldl_cons, ih]

/-- **The alarm panel.**  Whatever it is asked to do, in any order, it fails no
assertion; its sensors are never activated twice or deactivated twice, and the
alarm sounds only when they have just been deactivated; and whenever it has
done what it was asked to, the sensors are active exactly where it is armed,
and the composite state is never the current one. -/
theorem alarm_panel_safe (thread : ThreadId) (n : Nat) (ops : List Op) :
    (runCalls alarmPanel thread (n + 5) (ops.map perform)).wp
      (fun _ w => w.members.currentState ≠ stArmed ∧
        ∃ watch, Watch.next.scan .off w.user.cout = some watch ∧
          (watch = .on ↔ w.members.currentState = stArmedHome ∨
            w.members.currentState = stArmedAway) ∧
          (watch = .sounding ↔ w.members.currentState = stAlarming))
      (fun _ _ => False) (World.start { currentState := stDisarmed } {}) := by
  have hstart : Rests .disarmed (World.start { currentState := stDisarmed } {}) := ⟨rfl, rfl, rfl⟩
  have hrun := (alarm_implements thread n).runCalls_goes hstart (exec_after .disarmed ops)
  refine wp_then hrun fun _ w hw => ?_
  generalize ops.foldl Rest.after .disarmed = r at hw
  obtain ⟨hstate, -, hcout⟩ := hw
  rw [hstate]
  refine ⟨?_, r.watch, hcout, ?_, ?_⟩ <;> cases r <;> decide

end AlarmPanel

end ActiveFsm
