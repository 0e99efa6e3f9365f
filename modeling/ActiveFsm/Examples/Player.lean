import ActiveFsm.Abstraction
import ActiveFsm.Bare
import Mathlib.Data.List.Induction

/-!
# ActiveFsm.Examples.Player

The CD player.  Its sensor is a `static` variable of `ST_Empty` that changes
each time the tray is closed; when it finds a disc, `ST_EMPTY` leads on to
`ST_STOPPED`.
-/

namespace ActiveFsm

open Proc Transition

namespace Player

/-! ## The machine -/

/-- The `static` variable of `ST_Empty`, which all objects of the class share:
what follows is about a program with one of them. -/
structure Own where
  cdDetectedToggle : Bool := false
  deriving DecidableEq, Repr

/-- No event of this machine has data. -/
abbrev NoData := Empty

def stEmpty : UInt8 := 0

def stOpen : UInt8 := 1

def stStopped : UInt8 := 2

def stPaused : UInt8 := 3

def stPlaying : UInt8 := 4

def stMaxStates : UInt8 := 5

def empty (_ : EventPtr NoData) : Callback Own NoData Unit :=
  .update (fun _ own => { own with cdDetectedToggle := !own.cdDetectedToggle }) fun _ own =>
    if !own.cdDetectedToggle then .internalEvent stStopped none (.ret ()) else .ret ()

/-- The state functions that print their name only. -/
def quiet (_ : EventPtr NoData) : Callback Own NoData Unit := .ret ()

def stateMap : List (StateMapRowEx Own NoData) :=
  [{ state := some empty }, { state := some quiet }, { state := some quiet },
    { state := some quiet }, { state := some quiet }]

def player : Machine Own NoData where
  maxStates := stMaxStates
  maps := .flat none (some stateMap)
  maps_size := by simp [StateMaps.HasSize, stMaxStates, stateMap]

def openClose : Call NoData :=
  .event { transitions := [stOpen, stEmpty, stOpen, stOpen, stOpen] }

def play : Call NoData :=
  .event { transitions := [eventIgnored, eventIgnored, stPlaying, eventIgnored, eventIgnored] }

def stop : Call NoData :=
  .event { transitions := [eventIgnored, eventIgnored, stStopped, stStopped, stStopped] }

def pause : Call NoData :=
  .event { transitions := [eventIgnored, eventIgnored, eventIgnored, eventIgnored, stPaused] }

def endPause : Call NoData :=
  .event { transitions := [eventIgnored, eventIgnored, eventIgnored, stPlaying, eventIgnored] }

/-! ## The player at rest -/

/-- The operations. -/
inductive Op where
  | openClose
  | play
  | stop
  | pause
  | endPause
  deriving DecidableEq, Repr

def perform : Op → Call NoData
  | .openClose => Player.openClose
  | .play => Player.play
  | .stop => Player.stop
  | .pause => Player.pause
  | .endPause => Player.endPause

/-- A player between two operations; with the tray open it remembers whether
there was a disc. -/
inductive Rest where
  | empty
  | opened (disc : Bool)
  | stopped
  | paused
  | playing
  deriving DecidableEq, Repr

def Rest.state : Rest → UInt8
  | empty => stEmpty
  | opened _ => stOpen
  | stopped => stStopped
  | paused => stPaused
  | playing => stPlaying

/-- Whether the sensor has found a disc. -/
def Rest.disc : Rest → Bool
  | empty => false
  | opened disc => disc
  | _ => true

/-- What an operation does. -/
def Rest.after : Rest → Op → Rest
  | opened disc, .openClose => if disc then empty else stopped
  | r, .openClose => opened r.disc
  | stopped, .play => playing
  | stopped, .stop => stopped
  | paused, .stop => stopped
  | paused, .endPause => playing
  | playing, .stop => stopped
  | playing, .pause => paused
  | r, _ => r

/-- The player rests as `r` says. -/
def Rests (r : Rest) (w : World Own NoData) : Prop :=
  w.members.currentState = r.state ∧ w.members.eventGenerated = false ∧
    w.user.cdDetectedToggle = r.disc

/-! ## One operation -/

/-- What an operation raises. -/
theorem target_perform (n : Nat) (r : Rest) (o : Op) :
    ((perform o).target player n r.state = .ok eventIgnored ∧ r.after o = r) ∨
    ((perform o).target player n r.state = .ok (r.after o).state ∧
      (r.after o).state ≠ stEmpty ∧ (r.after o).disc = r.disc) ∨
    ((perform o).target player n r.state = .ok stEmpty ∧
      r.after o = if r.disc then .empty else .stopped) := by
  cases r with
  | opened disc =>
      cases o with
      | openClose => exact .inr (.inr ⟨rfl, rfl⟩)
      | _ => exact .inl ⟨rfl, rfl⟩
  | _ => cases o <;> first | exact .inl ⟨rfl, rfl⟩ | exact .inr (.inl ⟨rfl, by decide, rfl⟩)

/-- The rows of the states that print their names. -/
theorem quiet_bare : StateMapRowEx.IsBare (σ := Own) { state := some quiet } quiet :=
  ⟨rfl, rfl, rfl, rfl⟩

/-- The row of `ST_EMPTY`. -/
theorem empty_bare : StateMapRowEx.IsBare (σ := Own) { state := some empty } empty :=
  ⟨rfl, rfl, rfl, rfl⟩

/-- Every row of the map is bare. -/
theorem stateMap_rest (r : Rest) :
    ∃ row act, stateMap[r.state.toNat]? = some row ∧ row.IsBare act := by
  cases r with
  | empty => exact ⟨_, _, rfl, empty_bare⟩
  | _ => exact ⟨_, _, rfl, quiet_bare⟩

/-- All the rows but that of `ST_EMPTY`. -/
theorem stateMap_quiet {r : Rest} (h : r.state ≠ stEmpty) :
    stateMap[r.state.toNat]? = some { state := some quiet } := by
  cases r with
  | empty => exact absurd rfl h
  | _ => rfl

/-- The states are states of the machine. -/
theorem state_ne (r : Rest) :
    r.state ≠ eventIgnored ∧ r.state ≠ cannotHappen ∧ r.state < stMaxStates := by
  cases r with
  | opened disc => cases disc <;> decide
  | _ => decide

/-- The player rests where the engine has left it. -/
theorem rests_of_entering {r : Rest} {w : World Own NoData} {own : Own}
    (h : w.Is (.entering r.state) own) (hdisc : own.cdDetectedToggle = r.disc) : Rests r w := by
  unfold Rests
  rw [h.1, h.2]
  exact ⟨rfl, rfl, hdisc⟩

section Raise

variable {self : Frame NoData} {nested : Call NoData → Fsm Own NoData Unit} {n : Nat}
  {r : Rest} {w : World Own NoData} (hw : Rests r w) (d : EventPtr NoData)

include hw

/-- An event for any state but `ST_EMPTY`. -/
theorem raise_quiet {r' : Rest} (hstate : r'.state ≠ stEmpty) (hdisc : r'.disc = r.disc) :
    (externalEvent player self nested (n + 2) r'.state d).wp (fun _ => Rests r')
      (fun _ _ => False) w := by
  obtain ⟨row, act, hcur, hbare⟩ := stateMap_rest r
  rw [← hw.1] at hcur
  obtain ⟨hignored, hcannot, hlt⟩ := state_ne r'
  have hrun : (externalEvent player self nested (n + 2) r'.state d).wp
      (fun _ => World.Is (.entering r'.state) w.user) (fun _ _ => False) w :=
    externalEvent_bare (by simp [Machine.RunsOn, player]) rfl hignored hcannot rfl
      (stateMap_quiet hstate) quiet_bare hcur hbare hlt (fun _ hv => hv) ⟨rfl, rfl⟩
      fun _ hv => stateEngineEx_settled rfl hv
  exact wp_then hrun fun _ w' hw' => rests_of_entering hw' (hw.2.2.trans hdisc.symm)

/-- Closing the tray. -/
theorem raise_empty :
    (externalEvent player self nested (n + 3) stEmpty d).wp
      (fun _ => Rests (if r.disc then .empty else .stopped)) (fun _ _ => False) w := by
  obtain ⟨row, act, hcur, hbare⟩ := stateMap_rest r
  rw [← hw.1] at hcur
  have hself : player.RunsOn self.thread := by simp [Machine.RunsOn, player]
  cases hdisc : r.disc with
  | true =>
      have htoggle : w.user.cdDetectedToggle = true := hw.2.2.trans hdisc
      have hsettles : ∀ v : World Own NoData, v.Is (.entering stEmpty) w.user →
          ((empty (makeData d)).run self nested).wp (fun _ => World.Is (.entering stEmpty) ⟨false⟩)
            (fun _ _ => False) v := by
        rintro v ⟨hmembers, huser⟩
        simp only [empty, Callback.run, wp_act, huser, htoggle, Bool.not_true, Bool.false_eq_true,
          if_false]
        exact ⟨hmembers, rfl⟩
      have hrun : (externalEvent player self nested (n + 3) stEmpty d).wp
          (fun _ => World.Is (.entering stEmpty) ⟨false⟩) (fun _ _ => False) w :=
        externalEvent_bare hself rfl (by decide) (by decide) rfl rfl empty_bare hcur hbare
          (by decide) hsettles ⟨rfl, rfl⟩ fun _ hv => stateEngineEx_settled rfl hv
      exact wp_then hrun fun _ w' hw' => rests_of_entering (r := .empty) hw' rfl
  | false =>
      have htoggle : w.user.cdDetectedToggle = false := hw.2.2.trans hdisc
      let posted : Members NoData :=
        { currentState := stEmpty, newState := stStopped, eventGenerated := true
          pEventData := makeData none }
      have hposts : ∀ v : World Own NoData, v.Is (.entering stEmpty) w.user →
          ((empty (makeData d)).run self nested).wp (fun _ => World.Is posted ⟨true⟩)
            (fun _ _ => False) v := by
        rintro v ⟨hmembers, huser⟩
        simp only [empty, Callback.run, wp_act, huser, htoggle, Bool.not_false, if_true, bind_eq,
          wp_bind, wp_internalEvent]
        refine ⟨?_, rfl⟩
        rw [post_members, hmembers]
        rfl
      have hrun : (externalEvent player self nested (n + 3) stEmpty d).wp
          (fun _ => World.Is (.entering stStopped) ⟨true⟩) (fun _ _ => False) w := by
        refine externalEvent_bare hself rfl (by decide) (by decide) rfl rfl empty_bare hcur hbare
          (by decide) hposts ⟨rfl, rfl⟩ fun v hv => ?_
        have hdispatch : (dispatchEx player self nested stateMap).wp
            (fun _ => World.Is (.entering stStopped) ⟨true⟩) (fun _ _ => False) v :=
          dispatchEx_bare (m := posted) rfl rfl quiet_bare rfl empty_bare (by decide)
            (fun _ hv => hv) hv
        exact stateEngineEx_pending rfl hv hdispatch fun _ hv => stateEngineEx_settled rfl hv
      exact wp_then hrun fun _ w' hw' => rests_of_entering (r := .stopped) hw' rfl

end Raise

/-- The player is the automaton, one operation after another. -/
theorem player_implements (thread : ThreadId) (n : Nat) :
    Implements player thread (n + 5) perform (fun r o => some (Rest.after r o)) Rests where
  goes r o r' w hw hnext := by
    rw [← Option.some.inj hnext]
    have hself : player.RunsOn (⟨thread, perform o⟩ : Frame NoData).thread := by
      simp [Machine.RunsOn, player]
    refine call_wp_of hself (fun t ht => ?_) fun e he => ?_
    · rw [hw.1] at ht
      obtain ⟨htarget, hsame⟩ | ⟨htarget, hstate, hdisc⟩ | ⟨htarget, hafter⟩ :=
        target_perform (n + 4) r o <;> rw [htarget, Except.ok.injEq] at ht <;> subst ht
      · rw [externalEvent, if_pos rfl, hsame]
        exact hw
      · exact raise_quiet hw _ hstate hdisc
      · rw [hafter]
        exact raise_empty hw _
    · rw [hw.1] at he
      obtain ⟨htarget, -⟩ | ⟨htarget, -⟩ | ⟨htarget, -⟩ := target_perform (n + 4) r o <;>
        rw [htarget] at he <;> contradiction
  stops r o w _ hnext := by contradiction
  same r w w' hw hsame := by
    unfold Rests
    rw [← hsame.1, ← hsame.2.1]
    exact hw

/-! ## Runs -/

/-- Any operations are possible. -/
theorem exec_after (r : Rest) (ops : List Op) :
    exec (fun r o => some (Rest.after r o)) r ops = some (ops.foldl Rest.after r) := by
  induction ops generalizing r with
  | nil => rfl
  | cons o ops ih => rw [exec_cons, Option.bind_some, List.foldl_cons, ih]

/-- How often the tray has been opened or closed, up to four times. -/
def Rest.phase : Rest → Nat
  | empty => 0
  | opened false => 1
  | opened true => 3
  | _ => 2

/-- Only `OpenClose` counts. -/
theorem phase_after (r : Rest) (o : Op) :
    (r.after o).phase = (r.phase + if o = .openClose then 1 else 0) % 4 := by
  cases r with
  | opened disc => cases disc <;> cases o <;> rfl
  | _ => cases o <;> rfl

/-- How often it has been called. -/
theorem phase_foldl (ops : List Op) :
    (ops.foldl Rest.after .empty).phase = ops.count .openClose % 4 := by
  induction ops using List.reverseRecOn with
  | nil => rfl
  | append_singleton ops o ih =>
      rw [List.foldl_append, List.foldl_cons, List.foldl_nil, phase_after, ih, List.count_append,
        List.count_singleton]
      simp only [beq_iff_eq, Nat.mod_add_mod]

/-- **The player.**  Whatever it is asked to do, in any order, it fails no
assertion, and where it is depends on how often `OpenClose` has been called:
the tray is open after an odd number of calls, and of the even numbers every
other one finds a disc.  Only with a disc can the player be stopped, paused or
playing, and `ST_EMPTY` is a state to wait in only without one. -/
theorem player_safe (thread : ThreadId) (n : Nat) (ops : List Op) :
    (runCalls player thread (n + 5) (ops.map perform)).wp
      (fun _ w =>
        (w.members.currentState = stEmpty ↔ ops.count .openClose % 4 = 0) ∧
        (w.members.currentState = stOpen ↔ ops.count .openClose % 2 = 1) ∧
        (w.members.currentState ∈ [stStopped, stPaused, stPlaying] ↔
          ops.count .openClose % 4 = 2) ∧
        (w.user.cdDetectedToggle = true ↔ 2 ≤ ops.count .openClose % 4))
      (fun _ _ => False) (World.start { currentState := stEmpty } {}) := by
  have hstart : Rests .empty (World.start { currentState := stEmpty } {}) := ⟨rfl, rfl, rfl⟩
  have hrun := (player_implements thread n).runCalls_goes hstart (exec_after .empty ops)
  refine wp_then hrun fun _ w hw => ?_
  have hphase := phase_foldl ops
  generalize ops.foldl Rest.after .empty = r at hw hphase
  obtain ⟨hstate, -, htoggle⟩ := hw
  have hodd : ops.count .openClose % 2 = r.phase % 2 := by
    rw [hphase]
    omega
  rw [hstate, htoggle, ← hphase, hodd]
  cases r with
  | opened disc => cases disc <;> decide
  | _ => decide

end Player

end ActiveFsm
