import ActiveFsm.Mailbox
import ActiveFsm.Slot

/-!
# ActiveFsm.Delivery

What becomes of an internal event.  `InternalEvent` writes into the one slot a
machine has, so the slot is a mailbox with room for one message: a later post
replaces the event that waits there.  Every other event is handed, once and
in the order of the posts, to the guard of its target, or to its state action
if there is no guard (`delivery`).

User code may post from every hook.  It may raise external events from state
actions and from the subscribers of `OnTransition` and `OnCannotHappen`: there
the event being processed has already been handed over.
-/

namespace ActiveFsm

open Proc Mailbox

variable {σ δ : Type}

/-! ## The mailbox -/

/-- What a line of the log does to the mailbox. -/
def Obs.op : Obs δ → Option (Op (UInt8 × EventPtr δ))
  | .post t d => some (.put (t, d))
  | .consume t d => some (.take (t, d))
  | .guard s d => some (.ask (s, d))
  | .action s d => some (.act (s, d))
  | _ => none

/-- The history of the mailbox. -/
def mailOps (log : List (Entry δ)) : List (Op (UInt8 × EventPtr δ)) :=
  log.filterMap fun e => e.obs.op

/-- The event that waits in the slot. -/
def Members.slot (m : Members δ) : Option (UInt8 × EventPtr δ) :=
  if m.eventGenerated then some (m.newState, m.pEventData) else none

/-- The log is the history of a mailbox whose slot is the one of the machine,
and whose consumer is at `stage`. -/
def World.At (stage : Stage (UInt8 × EventPtr δ)) (w : World σ δ) : Prop :=
  w.members.SlotConsistent ∧ Steps {} (mailOps w.log) ⟨w.members.slot, stage⟩

/-- No event has been taken and not been handed over. -/
def World.Quiet (w : World σ δ) : Prop := ∃ stage, stage.Settled ∧ w.At stage

/-- The event `e` has been taken, and may have been handed to its guard. -/
def World.Taken (e : UInt8 × EventPtr δ) (w : World σ δ) : Prop :=
  w.At (.taken e) ∨ w.At (.asked e)

/-- The log is the history of a mailbox. -/
def World.Delivering (w : World σ δ) : Prop := ∃ s, Steps {} (mailOps w.log) s

section Mailbox

variable {self : Frame δ} {w : World σ δ} {stage : Stage (UInt8 × EventPtr δ)}

/-- The operations on the slot, with one line more. -/
theorem mailOps_snoc (log : List (Entry δ)) (e : Entry δ) :
    mailOps (log ++ [e]) = mailOps log ++ e.obs.op.toList := by
  unfold mailOps
  rw [List.filterMap_append]
  cases h : e.obs.op with
  | none => simp [h]
  | some op => simp [h]

/-- What is known of the stage is enough. -/
theorem World.At.delivering (h : w.At stage) : w.Delivering := ⟨_, h.2⟩

/-- So is that nothing is being dispatched. -/
theorem World.Quiet.delivering (h : w.Quiet) : w.Delivering := by
  obtain ⟨stage, -, h⟩ := h
  exact h.delivering

/-- So is that an event has been taken. -/
theorem World.Taken.delivering {e : UInt8 × EventPtr δ} (h : w.Taken e) : w.Delivering := by
  cases h with
  | inl h => exact h.delivering
  | inr h => exact h.delivering

/-- A line that does not concern the mailbox. -/
theorem at_silent {w' : World σ δ} {e : Entry δ} (h : w.At stage) (hlog : w'.log = w.log ++ [e])
    (he : e.obs.op = none) (hm : w'.members.SlotConsistent)
    (hslot : w'.members.slot = w.members.slot) : w'.At stage := by
  refine ⟨hm, ?_⟩
  rw [hlog, mailOps_snoc, he, hslot]
  simpa using h.2

/-- A line that does. -/
theorem at_step {w' : World σ δ} {e : Entry δ} {op : Op (UInt8 × EventPtr δ)}
    {stage' : Stage (UInt8 × EventPtr δ)} (h : w.At stage) (hlog : w'.log = w.log ++ [e])
    (he : e.obs.op = some op) (hm : w'.members.SlotConsistent)
    (hstep : Step ⟨w.members.slot, stage⟩ op ⟨w'.members.slot, stage'⟩) : w'.At stage' := by
  refine ⟨hm, ?_⟩
  rw [hlog, mailOps_snoc, he]
  exact h.2.snoc hstep

/-- A line that is no operation on the slot. -/
theorem at_note {o : Obs δ} (ho : o.op = none) (h : w.At stage) : (w.note self o).At stage :=
  at_silent h rfl ho h.1 rfl

/-- A post, at whatever stage. -/
theorem at_post (t : UInt8) (d : EventPtr δ) (h : w.At stage) : (w.post self t d).At stage :=
  at_step h rfl rfl (slotConsistent_post w t d) (.put _ _)

/-- The engine takes the event. -/
theorem at_consume (h : w.At stage) (hstage : stage.Settled)
    (hgen : w.members.eventGenerated = true) :
    (w.consume self).At (.taken (w.members.newState, w.members.pEventData)) := by
  have hslot : w.members.slot = some (w.members.newState, w.members.pEventData) := by
    rw [Members.slot, if_pos hgen]
  refine at_step h rfl rfl rfl ?_
  rw [hslot]
  exact .take stage _ hstage

/-- The guard is asked with the event that was taken. -/
theorem at_guard {s : UInt8} {d : EventPtr δ} (h : w.At (.taken (s, d))) :
    (w.note self (.guard s d)).At (.asked (s, d)) :=
  at_step h rfl rfl h.1 (.ask _ _)

/-- The action is given the event that was taken. -/
theorem at_action {s : UInt8} {d : EventPtr δ} (h : w.Taken (s, d)) :
    (w.note self (.action s d)).At .idle := by
  cases h with
  | inl h => exact at_step h rfl rfl h.1 (.act _ _)
  | inr h => exact at_step h rfl rfl h.1 (.actAsked _ _)

/-- A line between two turns. -/
theorem quiet_note {o : Obs δ} (ho : o.op = none) (h : w.Quiet) : (w.note self o).Quiet := by
  obtain ⟨stage, hstage, h⟩ := h
  exact ⟨stage, hstage, at_note ho h⟩

/-- A post between two turns. -/
theorem quiet_post (t : UInt8) (d : EventPtr δ) (h : w.Quiet) : (w.post self t d).Quiet := by
  obtain ⟨stage, hstage, h⟩ := h
  exact ⟨stage, hstage, at_post t d h⟩

end Mailbox

/-! ## One dispatch -/

section Dispatch

variable {M : Machine σ δ} {self : Frame δ} {nested : Call δ → Fsm σ δ Unit} {w : World σ δ}

/-- Posts do not touch what has been taken. -/
theorem at_survives {raises : Prop} (hraises : ¬raises) (stage : Stage (UInt8 × EventPtr δ)) :
    Survives self nested True raises (World.At stage) fun _ (w : World σ δ) => w.Delivering where
  user _ _ h := h
  fail _ h := h.delivering
  post _ _ t d h := at_post t d h
  raise h := absurd h hraises

/-- A change of state does not concern the mailbox. -/
theorem at_moves (stage : Stage (UInt8 × EventPtr δ)) :
    MoveInvariant self nested (fun _ => True) Hook.IsAction (World.At stage)
      fun _ (w : World σ δ) => w.Delivering where
  survives hook hmove := by
    have hraise : ¬hook.IsAction := by cases hook <;> simp_all [Hook.IsMove, Hook.IsAction]
    exact at_survives hraise stage
  note w o ho h := by
    cases o with
    | exit s => exact at_note rfl h
    | entry s d => exact at_note rfl h
    | onExit s => exact at_note rfl h
    | onEntry s => exact at_note rfl h
    | _ => exact ho.elim
  halts _ _ _ h := h.delivering
  setCurrentState _ _ h := at_silent h rfl rfl h.1 rfl

/-- Where an event is already handed over, user code may raise another one. -/
theorem quiet_survives (raises : Prop) (hnested : ∀ c (w : World σ δ), w.Quiet →
      (nested c).wp (fun _ => World.Quiet) (fun _ w => w.Delivering) w) :
    Survives self nested True raises World.Quiet fun _ (w : World σ δ) => w.Delivering where
  user _ _ h := h
  fail _ h := h.delivering
  post _ _ t d h := quiet_post t d h
  raise _ _ c h := hnested c _ (quiet_note rfl h)

/-- The guard of the target is the first to see the event. -/
theorem evalGuard_taken {row : StateMapRowEx σ δ}
    (hrow : row.Obeys (fun _ => True) Hook.IsAction) {s : UInt8} {d : EventPtr δ}
    (hd : d.isSome = true) (h : w.At (.taken (s, d))) :
    (evalGuard self nested s row.guard d).wp
      (fun g w' => w'.Taken (s, d) ∧ (g = false → w'.At (.asked (s, d))))
      (fun _ w' => w'.Delivering) w := by
  have hsurvives : Survives self nested True (Hook.IsAction .guard) (World.At (.asked (s, d)))
      fun _ (w : World σ δ) => w.Delivering := at_survives id _
  exact evalGuard_wp hsurvives (fun f hf => hrow.guard f hf d) hd ⟨.inl h, by simp⟩
    (fun _ _ hw' => ⟨.inr hw', fun _ => hw'⟩) (at_guard h)

section Nested

variable (hnested : ∀ c (w : World σ δ), w.Quiet →
  (nested c).wp (fun _ => World.Quiet) (fun _ w => w.Delivering) w)

include hnested

/-- The state action is the first to see an event that has no guard. -/
theorem finish_quiet (hM : M.Obeys (fun _ => True) Hook.IsAction)
    {row : StateMapRowEx σ δ} (hrow : row.Obeys (fun _ => True) Hook.IsAction) {s t : UInt8}
    {d : EventPtr δ} (h : w.Taken (t, d)) :
    ((runState self nested t row.state d).bind fun _ =>
      getCurrentState.bind fun cur => onTransition M self nested s cur).wp
        (fun _ => World.Quiet) (fun _ w' => w'.Delivering) w := by
  have hquiet (raises : Prop) : Survives self nested True raises World.Quiet
      fun _ (w : World σ δ) => w.Delivering := quiet_survives raises hnested
  rw [wp_bind]
  have haction : (w.note self (.action t d)).Quiet := ⟨.idle, trivial, at_action h⟩
  have hstate := runState_wp (hquiet (Hook.IsAction .state)) (fun f hf => hrow.state f hf d)
    h.delivering haction
  refine wp_then hstate fun _ w' hw' => ?_
  rw [wp_bind, wp_getCurrentState]
  exact onTransition_wp (hquiet _) (hM.signals.onTransition s _) (quiet_note rfl hw')

/-- A turn of the plain engine takes an event and uses it. -/
theorem dispatchPlain_quiet (hM : M.Obeys (fun _ => True) Hook.IsAction)
    {rows : List (StateMapRow σ δ)}
    (hrows : ∀ row ∈ rows, row.toEx.Obeys (fun _ => True) Hook.IsAction) (h : w.Quiet)
    (hgen : w.members.eventGenerated = true) :
    (dispatchPlain M self nested rows).wp (fun _ => World.Quiet) (fun _ w' => w'.Delivering) w := by
  obtain ⟨stage, hstage, hat⟩ := h
  simp only [dispatchPlain, bind_eq, wp_bind, wp_getNewState]
  refine wp_assertTrue (fun _ => ?_) fun _ => hat.delivering
  refine wp_rowAt (fun row hrow => ?_) fun _ => hat.delivering
  have htaken : (w.consume self).At (.taken (w.members.newState, w.members.pEventData)) :=
    at_consume hat hstage hgen
  have hset : ((w.consume self).setCurrentState self w.members.newState).At
      (.taken (w.members.newState, w.members.pEventData)) :=
    at_silent htaken rfl rfl htaken.1 rfl
  simp only [wp_consumeEvent, wp_getCurrentState, wp_setCurrentState, consume_members]
  simpa only [wp_bind, wp_getCurrentState, StateMapRow.toEx] using
    finish_quiet hnested hM (hrows row (List.mem_of_getElem? hrow)) (.inl hset)

omit hnested in
/-- A change of state, whether the guard has seen the event or not. -/
theorem move_taken {α : Type} {x : Fsm σ δ α} {e : UInt8 × EventPtr δ} (h : w.Taken e)
    (hx : ∀ stage, w.At stage → x.wp (fun _ => World.At stage) (fun _ w' => w'.Delivering) w) :
    x.wp (fun _ w' => w'.Taken e) (fun _ w' => w'.Delivering) w := by
  cases h with
  | inl h => exact wp_then (hx _ h) fun _ _ h' => .inl h'
  | inr h => exact wp_then (hx _ h) fun _ _ h' => .inr h'

/-- A turn of the extended engine, which may be denied by the guard. -/
theorem dispatchEx_quiet (hM : M.Obeys (fun _ => True) Hook.IsAction)
    {rows : List (StateMapRowEx σ δ)}
    (hrows : ∀ row ∈ rows, row.Obeys (fun _ => True) Hook.IsAction) (h : w.Quiet)
    (hgen : w.members.eventGenerated = true) :
    (dispatchEx M self nested rows).wp (fun _ => World.Quiet) (fun _ w' => w'.Delivering) w := by
  obtain ⟨stage, hstage, hat⟩ := h
  simp only [dispatchEx, bind_eq, wp_bind, wp_getNewState, wp_getCurrentState]
  refine wp_assertTrue (fun _ => ?_) fun _ => hat.delivering
  refine wp_rowAt (fun row hrow => ?_) fun _ => hat.delivering
  refine wp_rowAt (fun current hcurrent => ?_) fun _ => hat.delivering
  replace hrow := hrows row (List.mem_of_getElem? hrow)
  replace hcurrent := hrows current (List.mem_of_getElem? hcurrent)
  have hd : w.members.pEventData.isSome = true := hat.1.isSome hgen
  rw [wp_consumeEvent]
  refine wp_then (evalGuard_taken hrow hd (at_consume hat hstage hgen)) fun g w₁ hw₁ => ?_
  cases g with
  | false => exact ⟨.asked _, trivial, hw₁.2 rfl⟩
  | true =>
      simp only [transitionEx, bind_eq, wp_bind, wp_getCurrentState, if_true]
      refine wp_then (move_taken hw₁.1 fun stage hw =>
        moveEx_wp (at_moves stage) hM hrow hcurrent hd hw) fun _ w₂ hw₂ => ?_
      simpa only [wp_bind, wp_getCurrentState] using finish_quiet hnested hM hrow hw₂

/-- A turn of the hierarchical engine. -/
theorem dispatchHSM_quiet (hM : M.Obeys (fun _ => True) Hook.IsAction)
    {rows : List (StateMapRowHSM σ δ)} (hlen : rows.length = M.maxStates.toNat)
    (hrows : ∀ row ∈ rows, row.toStateMapRowEx.Obeys (fun _ => True) Hook.IsAction) (h : w.Quiet)
    (hgen : w.members.eventGenerated = true) :
    (dispatchHSM M self nested rows).wp (fun _ => World.Quiet) (fun _ w' => w'.Delivering) w := by
  obtain ⟨stage, hstage, hat⟩ := h
  simp only [dispatchHSM, bind_eq, wp_bind, wp_getNewState]
  refine wp_assertTrue (fun _ => ?_) fun _ => hat.delivering
  refine wp_rowAt (fun row hrow => ?_) fun _ => hat.delivering
  replace hrow := hrows row (List.mem_of_getElem? hrow)
  have hd : w.members.pEventData.isSome = true := hat.1.isSome hgen
  rw [wp_consumeEvent]
  refine wp_then (evalGuard_taken hrow hd (at_consume hat hstage hgen)) fun g w₁ hw₁ => ?_
  cases g with
  | false => exact ⟨.asked _, trivial, hw₁.2 rfl⟩
  | true =>
      simp only [transitionHSM, bind_eq, wp_bind, wp_getCurrentState, if_true]
      refine wp_then (move_taken hw₁.1 fun stage hw =>
        moveHSM_wp hlen (at_moves stage) hM hrows hd _ _ hw) fun _ w₂ hw₂ => ?_
      simpa only [wp_bind, wp_getCurrentState] using finish_quiet hnested hM hrow hw₂

/-- The engine leaves nothing in the slot. -/
theorem stateEngine_quiet (hM : M.Obeys (fun _ => True) Hook.IsAction) (n : Nat) (h : w.Quiet) :
    (stateEngine M self nested n).wp
      (fun _ w' => w'.Quiet ∧ w'.members.eventGenerated = false) (fun _ w' => w'.Delivering) w := by
  refine stateEngine_wp_of hM (fun _ hw => hw.delivering) (fun _ hw => hw.delivering) ?_ ?_ ?_ n h
  · exact fun rows _ hrows w hw => dispatchPlain_quiet hnested hM hrows hw
  · exact fun _ rows _ hrows w hw => dispatchEx_quiet hnested hM hrows hw
  · exact fun rows hlen hrows w hw => dispatchHSM_quiet hnested hM hlen hrows hw

end Nested

end Dispatch

/-! ## Every run -/

section Runs

variable {M : Machine σ δ} {self : Frame δ} {w : World σ δ}

/-- An external event from a moment at which nothing is held; it leaves no
event pending, or whatever was pending before. -/
theorem call_quiet (hM : M.Obeys (fun _ => True) Hook.IsAction) (hself : M.RunsOn self.thread)
    (n : Nat) (c : Call δ) (h : w.Quiet) :
    (call M self n c).wp
      (fun _ w' => w'.Quiet ∧ (w'.members.eventGenerated = true → w.members.eventGenerated = true))
      (fun _ w' => w'.Delivering) w := by
  induction n generalizing c w with
  | zero => exact h.delivering
  | succ n ih =>
      have hnested (c : Call δ) (w : World σ δ) (hw : w.Quiet) :
          (call M self n c).wp (fun _ => World.Quiet) (fun _ w' => w'.Delivering) w :=
        wp_then (ih c hw) fun _ _ hw' => hw'.1
      refine call_wp_of hself (fun t _ => ?_) fun _ _ => h.delivering
      refine externalEvent_wp_of hself (fun _ => ⟨h, id⟩) ?_ fun _ _ => ?_
      · have hsub := hM.signals.onCannotHappen w.members.currentState
        exact wp_then (onCannotHappen_wp (quiet_survives _ hnested) hsub (quiet_note rfl h))
          fun _ _ hw' => hw'.delivering
      · have hstart : (w.note self .start).Quiet := quiet_note rfl h
        have hpost : ((w.note self .start).post self t
            (c.eventData M w.members.currentState)).Quiet := quiet_post _ _ hstart
        refine wp_then (stateEngine_quiet hnested hM n hpost) fun _ w' hw' =>
          ⟨quiet_note rfl hw'.1, fun hgen => ?_⟩
        rw [note_members, hw'.2] at hgen
        contradiction

/-- Nothing has been posted yet. -/
theorem quiet_start (s : UInt8) (u : σ) :
    (World.start { currentState := s } u : World σ δ).Quiet :=
  ⟨.idle, trivial, rfl, .nil _⟩

end Runs

/-- **Delivery.**  User code may post internal events from every hook, any
number of them, and raise external events from state actions.  In every run
the log is the history of a mailbox: each event is either overwritten by a
later post before the engine takes it, or delivered, exactly once, with the
data it was posted with, and in the order of the posts.  When the outermost
external event returns, nothing is left to deliver. -/
theorem delivery (M : Machine σ δ) {thread : ThreadId} (hself : M.RunsOn thread)
    (hM : M.Obeys (fun _ => True) Hook.IsAction) (n : Nat) (cs : List (Call δ)) (s : UInt8)
    (u : σ) :
    let r := (runCalls M thread n cs).run (World.start { currentState := s } u)
    let ops := mailOps r.2.log
    (∃ t, Steps {} ops t) ∧ delivered ops <+: survivors ops ∧
      (r.1 = .ok () → delivered ops = survivors ops) := by
  intro r ops
  have hrun : (runCalls M thread n cs).wp
      (fun _ w' => w'.Quiet ∧ w'.members.eventGenerated = false) (fun _ w' => w'.Delivering)
      (World.start { currentState := s } u) := by
    refine each_wp (I := fun w : World σ δ => w.Quiet ∧ w.members.eventGenerated = false) cs
      (fun c _ w hw => ?_) _ ⟨quiet_start s u, rfl⟩
    refine wp_then (call_quiet hM hself n c hw.1) fun _ w' hw' => ⟨hw'.1, ?_⟩
    cases hgen : w'.members.eventGenerated with
    | false => rfl
    | true =>
        have hbefore := hw'.2 hgen
        rw [hw.2] at hbefore
        contradiction
  have hdelivering : r.2.Delivering :=
    wp_snd (wp_mono hrun (fun _ _ h => h.1.delivering) fun _ _ h => h)
  refine ⟨hdelivering, ?_, fun hok => ?_⟩
  · obtain ⟨t, ht⟩ := hdelivering
    rw [← delivered_eq ht]
    exact List.prefix_append _ _
  · obtain ⟨⟨stage, hstage, hat⟩, hrest⟩ := wp_ok hrun (Prod.ext hok rfl)
    have heq := delivered_eq hat.2
    have hslot : r.2.members.slot = none := by
      rw [Members.slot, hrest]
      rfl
    rw [hslot, held_of_settled hstage] at heq
    simpa using heq

/-- A machine whose first state posts an event for each of the other two. -/
def overposting : Machine Nat Nat where
  maxStates := 3
  maps := .flat (some [⟨some fun d => .internalEvent 1 d (.internalEvent 2 d (.ret ()))⟩,
    ⟨some fun _ => .ret ()⟩, ⟨some fun _ => .ret ()⟩]) none
  maps_size := by simp [StateMaps.HasSize]

theorem overposting_obeys : overposting.Obeys (fun _ => True) Hook.IsAction where
  rows := by
    intro row hrow
    simp only [overposting, StateMaps.rows, Option.getD_none, Option.getD_some, List.map_cons,
      List.map_nil, List.append_nil, List.mem_cons, List.not_mem_nil, or_false] at hrow
    obtain rfl | rfl | rfl := hrow <;> constructor <;>
      simp [StateMapRow.toEx, Callback.Only]
  signals := by constructor <;> simp [overposting, Callback.Only]

theorem delivery_overposting :
    let r := (runCalls overposting 0 4 [.externalEvent 0 none, .externalEvent 1 none]).run
      (World.start { currentState := 1 } 0)
    r.1 = .ok () ∧ delivered (mailOps r.2.log) = survivors (mailOps r.2.log) := by
  intro r
  have hself : overposting.RunsOn 0 := by simp [Machine.RunsOn, overposting]
  have hok : r.1 = .ok () := rfl
  exact ⟨hok, (delivery overposting hself overposting_obeys 4 _ 1 0).2.2 hok⟩

/-- The event for state 1 is lost: nobody overwrote it but the action that had
posted it. -/
theorem event_lost :
    let r := (runCalls overposting 0 4 [.externalEvent 0 none]).run
      (World.start { currentState := 1 } 0)
    overposting.RunsOn 0 ∧ overposting.Obeys (fun _ => True) Hook.IsAction ∧ r.1 = .ok () ∧
      posted (mailOps r.2.log) = [(0, some .noEventData), (1, some .noEventData),
        (2, some .noEventData)] ∧
      delivered (mailOps r.2.log) = [(0, some .noEventData), (2, some .noEventData)] :=
  ⟨by simp [Machine.RunsOn, overposting], overposting_obeys, rfl, by decide, by decide⟩

end ActiveFsm
