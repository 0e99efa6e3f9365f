import ActiveFsm.Agreement
import ActiveFsm.Range

/-!
# ActiveFsm.Observe

The plain and the extended flat engine.  A class with a plain state map can
also be declared with `BEGIN_STATE_MAP_EX` and no guard, entry or exit.  Both
engines run the same actions, but the plain one emits neither `OnExit` nor
`OnEntry`: an observer sees no difference exactly in the runs in which every
event dispatched is a self-transition (`plain_observed_iff`).
-/

namespace ActiveFsm

open Proc

variable {σ δ : Type}

/-! ## The two declarations -/

/-- What the derived class supplies: a plain state map of `maxStates` rows. -/
structure PlainClass (σ δ : Type) where
  maxStates : UInt8
  rows : List (StateMapRow σ δ)
  signals : Signals σ δ := {}
  thread : Option ThreadId := none
  rows_size : rows.length = maxStates.toNat

namespace PlainClass

variable (C : PlainClass σ δ)

/-- The class declared with `BEGIN_STATE_MAP`. -/
def plain : Machine σ δ where
  maxStates := C.maxStates
  maps := .flat (some C.rows) none
  signals := C.signals
  thread := C.thread
  maps_size := ⟨by simp [C.rows_size], by simp⟩

/-- The class declared with `BEGIN_STATE_MAP_EX`. -/
def extended : Machine σ δ where
  maxStates := C.maxStates
  maps := .flat none (some (C.rows.map StateMapRow.toEx))
  signals := C.signals
  thread := C.thread
  maps_size := ⟨by simp, by simp [C.rows_size]⟩

/-- User code raises no external event, and posts internal ones only outside
changes of state. -/
def EventFree : Prop := C.plain.Obeys Hook.IsAction fun _ => False

end PlainClass

/-! ## What an observer sees -/

/-- State actions, changes of the current state, and signals. -/
def Obs.observable : Obs δ → Bool
  | .action _ _ | .setCurrentState _ => true
  | .onExit _ | .onEntry _ | .onTransition _ _ => true
  | _ => false

/-- What an observer sees of a run, and the current state at each point. -/
def observed (log : List (Entry δ)) : List (Obs δ × UInt8) :=
  (log.filter fun e => e.obs.observable).map fun e => (e.obs, e.members.currentState)

/-- An event dispatched at this line has the current state for its target. -/
def Entry.IsSelf (e : Entry δ) : Prop :=
  ∀ t d, e.obs = .consume t d → t = e.members.currentState

/-- The line announces that a state is left. -/
def Entry.IsExit (e : Entry δ) : Prop := ∃ s, e.obs = .onExit s

/-! ## Every line, some line -/

section Lines

variable (P : Entry δ → Prop)

/-- Every line of the log satisfies `P`. -/
def World.Every (w : World σ δ) : Prop := w.members.SlotConsistent ∧ ∀ e ∈ w.log, P e

/-- Some line of the log satisfies `P`. -/
def World.Some (w : World σ δ) : Prop := w.members.SlotConsistent ∧ ∃ e ∈ w.log, P e

end Lines

section Actions

variable {P : Entry δ → Prop} {M : Machine σ δ} {self : Frame δ} {nested : Call δ → Fsm σ δ Unit}
  {w w' : World σ δ} {e : Entry δ}

/-- A line of which the property holds. -/
theorem World.Every.snoc (h : w.Every P) (hslot : w'.members.SlotConsistent)
    (hlog : w'.log = w.log ++ [e]) (he : P e) : w'.Every P := by
  refine ⟨hslot, ?_⟩
  rw [hlog, List.forall_mem_append]
  exact ⟨h.2, List.forall_mem_singleton.mpr he⟩

/-- A line that has been found stays in the log. -/
theorem World.Some.snoc (h : w.Some P) (hslot : w'.members.SlotConsistent)
    (hlog : w'.log = w.log ++ [e]) : w'.Some P := by
  obtain ⟨e', he', hP⟩ := h.2
  refine ⟨hslot, e', ?_, hP⟩
  rw [hlog]
  exact List.mem_append_left _ he'

/-- The new line is one. -/
theorem World.Some.last (hslot : w'.members.SlotConsistent) (hlog : w'.log = w.log ++ [e])
    (he : P e) : w'.Some P := by
  refine ⟨hslot, e, ?_, he⟩
  rw [hlog]
  exact List.mem_append_right _ List.mem_cons_self

/-- What holds of all lines fails for none. -/
theorem World.Every.not_some (h : w.Every P) : ¬w.Some fun e => ¬P e := by
  rintro ⟨-, e, he, hn⟩
  exact hn (h.2 e he)

/-- Where there is a machine, not to find a line is to know about all of them. -/
theorem every_of_not_some (hslot : w.members.SlotConsistent) (h : ¬w.Some fun e => ¬P e) :
    w.Every P := by
  refine ⟨hslot, fun e he => Classical.byContradiction fun hn => ?_⟩
  exact h ⟨hslot, e, he, hn⟩

/-- What is in the log stays in it. -/
theorem some_invariant (posts : Hook → Prop) :
    EngineInvariant M self nested posts (fun _ => False) (World.Some P) fun _ w => w.Some P where
  survives _ :=
    { user := fun _ _ h => h
      fail := fun _ h => h
      post := fun _ w t d h => h.snoc (slotConsistent_post w t d) (post_log self w t d)
      raise := fun h => h.elim }
  halts _ _ _ h := h
  range _ _ h := .inr h
  data _ h := h.1.isSome
  consume w h _ := h.snoc rfl (consume_log self w)
  setCurrentState w s h := h.snoc h.1 (setCurrentState_log self w s)
  note w o _ h := h.snoc h.1 (note_log self w o)

/-- `P` is about dispatched events and announced exits only. -/
def OfDispatch (P : Entry δ → Prop) : Prop :=
  ∀ e : Entry δ, (∀ t d, e.obs ≠ .consume t d) → ¬e.IsExit → P e

/-- Whether events are for the current state is such a question. -/
theorem ofDispatch_isSelf : OfDispatch (@Entry.IsSelf δ) :=
  fun _ hconsume _ t d h => absurd h (hconsume t d)

/-- A line that is neither of the two that matter. -/
theorem every_note (hP : OfDispatch P) {o : Obs δ} (hconsume : ∀ t d, o ≠ .consume t d)
    (hexit : ∀ s, o ≠ .onExit s) (h : w.Every P) : (w.note self o).Every P :=
  h.snoc h.1 (note_log self w o) (hP _ hconsume fun ⟨s, hs⟩ => hexit s hs)

/-- User code that raises nothing writes such lines only. -/
theorem every_survives (hP : OfDispatch P) (posts : Prop) :
    Survives self nested posts False (World.Every P) fun _ (w : World σ δ) => w.Every P where
  user _ _ h := h
  fail _ h := h
  post _ w t d h := h.snoc (slotConsistent_post w t d) (post_log self w t d)
    (hP _ (by simp) (by simp [Entry.IsExit]))
  raise h := h.elim

end Actions

/-! ## The plain engine announces nothing -/

section Plain

variable {P : Entry δ → Prop} {C : PlainClass σ δ} {self : Frame δ}
  {nested : Call δ → Fsm σ δ Unit} {w : World σ δ}

/-- The rows of a class without nested events. -/
theorem obeys_of_plainRow (hC : C.EventFree) {row : StateMapRow σ δ} (hrow : row ∈ C.rows) :
    row.toEx.Obeys Hook.IsAction fun _ => False :=
  (hC.plain rfl).2 row hrow

/-- A dispatch of the plain engine adds a dispatched event, and no exit. -/
theorem dispatchPlain_every (hC : C.EventFree) (hP : OfDispatch P)
    (hconsume : P ⟨self.thread, .consume w.members.newState w.members.pEventData,
      { w.members with pEventData := none, eventGenerated := false }⟩) (h : w.Every P) :
    (dispatchPlain C.plain self nested C.rows).wp (fun _ => World.Every P)
      (fun _ w' => w'.Every P) w := by
  simp only [dispatchPlain, bind_eq, wp_bind, wp_getNewState]
  refine wp_assertTrue (fun _ => ?_) fun _ => h
  refine wp_rowAt (fun row hrow => ?_) fun _ => h
  have hobeys := obeys_of_plainRow hC (List.mem_of_getElem? hrow)
  have hconsumed : (w.consume self).Every P := h.snoc rfl (consume_log self w) hconsume
  have hset : ((w.consume self).setCurrentState self w.members.newState).Every P :=
    hconsumed.snoc hconsumed.1 (setCurrentState_log self _ _)
      (hP _ (by simp) (by simp [Entry.IsExit]))
  simp only [wp_consumeEvent, wp_getCurrentState, wp_setCurrentState, consume_members]
  refine wp_then (runState_wp (every_survives hP _) (fun f hf => hobeys.state f hf _) hset
    (every_note hP (by simp) (by simp) hset)) fun _ w' hw' => ?_
  exact onTransition_wp (every_survives hP _) (hC.signals.onTransition _ _)
    (every_note hP (by simp) (by simp) hw')

end Plain

/-! ## Where the engines part -/

section Parting

variable {C : PlainClass σ δ} {self : Frame δ} {nested nested' : Call δ → Fsm σ δ Unit}
  {w : World σ δ}

/-- An event for another state has been dispatched. -/
def World.Left (w : World σ δ) : Prop := w.Some fun e => ¬e.IsSelf

/-- The exit of a state has been announced. -/
def World.Announced (w : World σ δ) : Prop := w.Some Entry.IsExit

/-- The same class with an extended map. -/
theorem obeys_extended (hC : C.EventFree) : C.extended.Obeys Hook.IsAction fun _ => False where
  rows row hrow := by
    have hmem := (List.mem_append.mp hrow).resolve_left (by simp)
    obtain ⟨plain, hplain, rfl⟩ := List.mem_map.mp hmem
    exact obeys_of_plainRow hC hplain
  signals := hC.signals

/-- The plain engine leaves a state without a word. -/
theorem dispatchPlain_left (hC : C.EventFree) (hslot : w.members.SlotConsistent)
    (hgen : w.members.eventGenerated = true) (hnew : w.members.newState < C.plain.maxStates)
    (hne : w.members.newState ≠ w.members.currentState) :
    (dispatchPlain C.plain self nested C.rows).wp (fun _ => World.Left) (fun _ w' => w'.Left)
      w := by
  have hleft : (w.consume self).Left :=
    World.Some.last rfl (consume_log self w) fun h => hne (h _ _ rfl)
  obtain ⟨row, hrow⟩ := row_exists C.rows_size hnew
  have hobeys := obeys_of_plainRow hC (List.mem_of_getElem? hrow)
  have hengine : EngineInvariant C.plain self nested Hook.IsAction (fun _ => False) World.Left
      fun _ w => w.Left := some_invariant _
  have hset := hengine.setCurrentState _ w.members.newState hleft
  have hfinish := hengine.hooks.finish hC hobeys (s := w.members.currentState)
    (t := w.members.newState) (hslot.isSome hgen) hset
  simp only [dispatchPlain, bind_eq, wp_bind, wp_getNewState, assertTrue, hnew, decide_true,
    if_true, wp_ret, rowAt_eq hrow, wp_consumeEvent, wp_getCurrentState, wp_setCurrentState,
    consume_members]
  simpa only [wp_bind, wp_getCurrentState, StateMapRow.toEx] using hfinish

/-- The extended engine announces that it leaves the state. -/
theorem dispatchEx_announced (hC : C.EventFree) (hslot : w.members.SlotConsistent)
    (hgen : w.members.eventGenerated = true) (hcur : w.members.currentState < C.extended.maxStates)
    (hnew : w.members.newState < C.extended.maxStates)
    (hne : w.members.newState ≠ w.members.currentState) :
    (dispatchEx C.extended self nested (C.rows.map StateMapRow.toEx)).wp
      (fun _ => World.Announced) (fun _ w' => w'.Announced) w := by
  obtain ⟨row, hrow⟩ := row_exists C.rows_size hnew
  obtain ⟨current, hcurrent⟩ := row_exists C.rows_size hcur
  have hobeys := obeys_of_plainRow hC (List.mem_of_getElem? hrow)
  have hengine : EngineInvariant C.extended self nested Hook.IsAction (fun _ => False)
      World.Announced fun _ w => w.Announced := some_invariant _
  have hexit : ((w.consume self).note self (.onExit w.members.currentState)).Announced :=
    World.Some.last rfl (note_log self _ _) ⟨_, rfl⟩
  simp only [dispatchEx, transitionEx, moveEx, changeStateEx, bind_eq, wp_bind, wp_getNewState,
    assertTrue, hnew, decide_true, if_true, wp_ret, rowAt_map _ hrow, wp_getCurrentState,
    rowAt_map _ hcurrent, wp_consumeEvent, StateMapRow.toEx, evalGuard, runExit, runEntry,
    consume_members, ne_eq, hne, not_false_eq_true, wp_setCurrentState, wp_isEventPending]
  refine wp_then (onExit_wp (hengine.survives .onExit) (hC.signals.onExit _) hexit)
    fun _ w₁ hw₁ => ?_
  have hset := hengine.setCurrentState w₁ w₁.members.newState hw₁
  refine wp_then (hengine.moves.onEntry (obeys_extended hC) hset) fun _ w₂ hw₂ => ?_
  split
  · simpa only [wp_ret, wp_bind, wp_getCurrentState, StateMapRow.toEx] using
      hengine.hooks.finish (obeys_extended hC) hobeys (hslot.isSome hgen) hw₂
  · exact hw₂

/-- An event for the current state is dispatched alike. -/
theorem dispatch_self (hC : C.EventFree) (hcur : w.members.currentState < C.extended.maxStates)
    (hself : w.members.newState = w.members.currentState) :
    (dispatchPlain C.plain self nested C.rows).run w =
      (dispatchEx C.extended self nested' (C.rows.map StateMapRow.toEx)).run w := by
  have hnew : w.members.newState < C.plain.maxStates := by
    rw [hself]
    exact hcur
  have hnew' : w.members.newState < C.extended.maxStates := hnew
  obtain ⟨row, hrow⟩ := row_exists C.rows_size hnew
  obtain ⟨current, hcurrent⟩ := row_exists C.rows_size hcur
  have hobeys := obeys_of_plainRow hC (List.mem_of_getElem? hrow)
  have hstate : runState self nested' w.members.newState row.toEx.state w.members.pEventData =
      runState self nested w.members.newState row.state w.members.pEventData :=
    runState_nested nested hobeys _ _
  have honTransition (s t : UInt8) :
      onTransition C.extended self nested' s t = onTransition C.plain self nested s t :=
    onTransition_nested nested hC s t
  have hguard : evalGuard self nested' w.members.newState row.toEx.guard w.members.pEventData =
      ret true := rfl
  have hmove : (moveEx C.extended self nested' w.members.newState w.members.currentState
      current.toEx.exit row.toEx.entry w.members.pEventData).run (w.consume self) =
      (setCurrentState self w.members.newState).run (w.consume self) := by
    rw [moveEx, bind_eq, run_getNewState, bind_eq, run_getCurrentState, if_neg fun h => h hself]
    rfl
  simp only [dispatchPlain, dispatchEx, transitionEx, bind_eq, run_getNewState, assertTrue, hnew,
    hnew', decide_true, if_true, ret_bind, rowAt_eq hrow, rowAt_map _ hrow,
    run_getCurrentState, rowAt_map _ hcurrent, run_consumeEvent, hguard]
  rw [run_bind, run_bind, hmove, consume_members]
  simp only [hstate, honTransition]

/-- **One dispatch**: the engines do the same, or part for good. -/
theorem dispatch_parts (hC : C.EventFree) (hw : w.members.Settled C.extended.maxStates)
    (hnot : ¬w.Left) (hgen : w.members.eventGenerated = true) :
    AgreesUntil World.Left World.Announced (dispatchPlain C.plain self nested C.rows)
      (dispatchEx C.extended self nested' (C.rows.map StateMapRow.toEx)) w := by
  by_cases hnew : w.members.newState < C.plain.maxStates
  · have hcur : w.members.currentState < C.extended.maxStates := hw.current_lt hnew
    by_cases hself : w.members.newState = w.members.currentState
    · have hevery : w.Every Entry.IsSelf := every_of_not_some hw.1 hnot
      have hconsume (t : UInt8) (d : EventPtr δ)
          (h : Obs.consume w.members.newState w.members.pEventData = .consume t d) :
          t = w.members.currentState := by
        cases h
        exact hself
      have hstay : ((dispatchPlain C.plain self nested C.rows).run w).2.Every Entry.IsSelf :=
        wp_snd (dispatchPlain_every hC ofDispatch_isSelf hconsume hevery)
      exact .inl ⟨dispatch_self hC hcur hself, hstay.not_some⟩
    · exact .inr ⟨wp_snd (dispatchPlain_left hC hw.1 hgen hnew hself),
        wp_snd (dispatchEx_announced hC hw.1 hgen hcur hnew hself)⟩
  · -- neither engine goes past the check of the target
    have hplain : (dispatchPlain C.plain self nested C.rows).run w =
        (.error (.fault .newState), w) := by
      simp only [dispatchPlain, bind_eq, run_getNewState, assertTrue, hnew, decide_false,
        Bool.false_eq_true, if_false, halt_bind, run]
    have hex : (dispatchEx C.extended self nested' (C.rows.map StateMapRow.toEx)).run w =
        (.error (.fault .newState), w) := by
      have hnew' : ¬w.members.newState < C.extended.maxStates := hnew
      simp only [dispatchEx, bind_eq, run_getNewState, assertTrue, hnew', decide_false,
        Bool.false_eq_true, if_false, halt_bind, run]
    refine .inl ⟨hplain.trans hex.symm, ?_⟩
    rw [hplain]
    exact hnot

/-! ## Every run -/

/-- The same with less said of who posts. -/
theorem obeys_inRange (hC : C.EventFree) : C.extended.Obeys (fun _ => True) fun _ => False :=
  (obeys_extended hC).mono (fun _ _ => trivial) fun _ h => h

/-- The two engines agree until a state is left. -/
theorem stateEngine_parts (hC : C.EventFree) (n : Nat)
    (hw : w.members.Settled C.extended.maxStates) (hnot : ¬w.Left) :
    AgreesUntil World.Left World.Announced (stateEngine C.plain self nested n)
      (stateEngine C.extended self nested' n) w := by
  have hmaps : C.extended.maps = .flat none (some (C.rows.map StateMapRow.toEx)) := rfl
  obtain ⟨hlen, hrows⟩ := (obeys_extended hC).extended hmaps
  have hrange (w : World σ δ) (hw : w.members.Settled C.extended.maxStates)
      (hgen : w.members.eventGenerated = true) :
      (dispatchEx C.extended self nested' (C.rows.map StateMapRow.toEx)).wp
        (fun _ w' => w'.members.Settled C.extended.maxStates) (fun e _ => e.InRange) w :=
    dispatchEx_inRange (obeys_inRange hC) hlen ((obeys_inRange hC).extended hmaps).2 hw hgen
  have hplain (w : World σ δ) (hw : w.Left) (hgen : w.members.eventGenerated = true) :
      (dispatchPlain C.plain self nested C.rows).wp (fun _ => World.Left) (fun _ w' => w'.Left) w :=
    dispatchPlain_wp (some_invariant _) hC C.rows_size
      (fun row hrow => obeys_of_plainRow hC hrow) hw hgen
  have hex (w : World σ δ) (hw : w.Announced) (hgen : w.members.eventGenerated = true) :
      (dispatchEx C.extended self nested' (C.rows.map StateMapRow.toEx)).wp
        (fun _ => World.Announced) (fun _ w' => w'.Announced) w :=
    dispatchEx_wp (some_invariant _) (obeys_extended hC) trivial hlen hrows hw hgen
  exact agreesUntil_loop hrange (fun w hw hnot hgen => dispatch_parts hC hw hnot hgen) hplain hex
    n w hw hnot

/-- An external event, unless it cannot happen or is ignored. -/
theorem externalEventImpl_parts (hC : C.EventFree) (n : Nat) (t : UInt8) (d : EventPtr δ)
    (hw : w.members.InRange C.extended) (hnot : ¬w.Left) :
    AgreesUntil World.Left World.Announced (externalEventImpl C.plain self nested n t d)
      (externalEventImpl C.extended self nested' n t d) w := by
  have hpost : ((w.note self .start).post self t d).members.Settled C.extended.maxStates :=
    ⟨slotConsistent_post _ t d, hw.2 trivial⟩
  have hevery : w.Every Entry.IsSelf := every_of_not_some hw.1 hnot
  have hstart : (w.note self .start).Every Entry.IsSelf :=
    every_note ofDispatch_isSelf (by simp) (by simp) hevery
  have hposted : ((w.note self .start).post self t d).Every Entry.IsSelf :=
    hstart.snoc (slotConsistent_post _ t d) (post_log self _ t d) fun _ _ h => by cases h
  have hengine : AgreesUntil World.Left World.Announced
      ((stateEngine C.plain self nested n).bind fun _ => record self .finish)
      ((stateEngine C.extended self nested' n).bind fun _ => record self .finish)
      ((w.note self .start).post self t d) := by
    refine (stateEngine_parts hC n hpost hposted.not_some).bind
      (stateEngine_inRange (obeys_inRange hC) trivial n hpost) (fun _ w' hw' hnot' => ?_)
      (fun _ w' hw' => hw'.snoc hw'.1 (note_log self w' _))
      fun _ w' hw' => hw'.snoc hw'.1 (note_log self w' _)
    have hfinish : (w'.note self .finish).Every Entry.IsSelf :=
      every_note ofDispatch_isSelf (by simp) (by simp) (every_of_not_some hw'.1 hnot')
    exact agreesUntil_refl hfinish.not_some
  unfold AgreesUntil at hengine ⊢
  simpa only [externalEventImpl, bind_eq, run_record, run_internalEvent] using hengine

/-- So do two machines, given the same event. -/
theorem call_parts (hC : C.EventFree) (hself : C.plain.RunsOn self.thread) (n : Nat) (t : UInt8)
    (d : EventPtr δ) (hw : w.members.InRange C.extended) (hnot : ¬w.Left) :
    AgreesUntil World.Left World.Announced (call C.plain self n (.externalEvent t d))
      (call C.extended self n (.externalEvent t d)) w := by
  cases n with
  | zero => exact agreesUntil_refl hnot
  | succ n =>
      have hon : isOnStateMachineThread C.plain self = true := isOn_of_runsOn hself
      have hon' : isOnStateMachineThread C.extended self = true := isOn_of_runsOn hself
      have hevery : w.Every Entry.IsSelf := every_of_not_some hw.1 hnot
      have hcannot (s : UInt8) :
          onCannotHappen C.extended self (call C.extended self n) s =
            onCannotHappen C.plain self (call C.plain self n) s :=
        onCannotHappen_nested (call C.plain self n) hC s
      simp only [call, externalEvent, hon, hon', hcannot, if_true]
      split
      · exact agreesUntil_refl hnot
      · split
        · refine agreesUntil_refl (World.Every.not_some (wp_snd ?_))
          simp only [bind_eq, wp_bind, wp_getCurrentState, wp_halt]
          exact onCannotHappen_wp (every_survives ofDispatch_isSelf _)
            (hC.signals.onCannotHappen _) (every_note ofDispatch_isSelf (by simp) (by simp) hevery)
        · exact externalEventImpl_parts hC n t d hw hnot

/-- The call alone, of either engine. -/
theorem call_some (M : Machine σ δ) (hM : M.Obeys Hook.IsAction fun _ => False)
    (hself : M.RunsOn self.thread) {P : Entry δ → Prop} (n : Nat) (t : UInt8) (d : EventPtr δ)
    (hw : w.Some P) :
    (call M self n (.externalEvent t d)).wp (fun _ => World.Some P) (fun _ w' => w'.Some P) w := by
  cases n with
  | zero => exact hw
  | succ n =>
      have hengine : EngineInvariant M self (call M self n) Hook.IsAction (fun _ => False)
          (World.Some P) fun _ w => w.Some P := some_invariant _
      refine externalEvent_wp_of hself (fun _ => hw) ?_ fun _ _ => ?_
      · exact onCannotHappen_wp (hengine.survives .onCannotHappen) (hM.signals.onCannotHappen _)
          (hw.snoc hw.1 (note_log self w _))
      · have hstart : (w.note self .start).Some P := hw.snoc hw.1 (note_log self w _)
        have hpost : ((w.note self .start).post self t d).Some P :=
          hstart.snoc (slotConsistent_post _ t d) (post_log self _ t d)
        exact wp_then (stateEngine_wp hengine hM n hpost) fun _ w' hw' =>
          hw'.1.snoc hw'.1.1 (note_log self w' _)

/-- The plain engine never announces an exit. -/
theorem runCalls_silent {thread : ThreadId} (hC : C.EventFree) (hself : C.plain.RunsOn thread)
    (n : Nat) (events : List (UInt8 × EventPtr δ)) (h : w.Every fun e => ¬e.IsExit) :
    (runCalls C.plain thread n (externalEvents events)).wp
      (fun _ => World.Every fun e => ¬e.IsExit) (fun _ w' => w'.Every fun e => ¬e.IsExit) w := by
  have hP : OfDispatch fun e : Entry δ => ¬e.IsExit := fun _ _ hexit => hexit
  refine each_wp _ (fun c hc w h => ?_) w h
  obtain ⟨t, d, rfl⟩ := exists_of_mem_externalEvents hc
  cases n with
  | zero => exact h
  | succ n =>
      refine externalEvent_wp_of hself (fun _ => h) ?_ fun _ _ => ?_
      · exact onCannotHappen_wp (every_survives hP _) (hC.signals.onCannotHappen _)
          (every_note hP (by simp) (by simp) h)
      · have hstart : (w.note ⟨thread, .externalEvent t d⟩ .start).Every fun e => ¬e.IsExit :=
          every_note hP (by simp) (by simp) h
        have hpost := hstart.snoc (slotConsistent_post _ t d)
          (post_log ⟨thread, .externalEvent t d⟩ _ t d) (by simp [Entry.IsExit])
        refine wp_then (loop_wp (fun w hw _ => ?_) (fun _ h => h) n _ hpost) fun _ w' hw' =>
          every_note hP (by simp) (by simp) hw'.1
        exact dispatchPlain_every hC hP (by simp [Entry.IsExit]) hw

/-- So do they, given the same events. -/
theorem runCalls_parts {thread : ThreadId} (hC : C.EventFree) (hself : C.plain.RunsOn thread)
    (n : Nat) (events : List (UInt8 × EventPtr δ)) (hw : w.members.InRange C.extended)
    (hnot : ¬w.Left) :
    AgreesUntil World.Left World.Announced (runCalls C.plain thread n (externalEvents events))
      (runCalls C.extended thread n (externalEvents events)) w := by
  have hself' : C.extended.RunsOn thread := hself
  refine agreesUntil_each (I := fun w => w.members.InRange C.extended) (E := fun e _ => e.InRange) _
    (fun c hc w hw => ?_) (fun c hc w hw hnot => ?_) (fun c hc w hw => ?_) (fun c hc w hw => ?_)
    w hw hnot
  · obtain ⟨t, d, rfl⟩ := exists_of_mem_externalEvents hc
    exact call_inRange (obeys_inRange hC) hself' n t d hw
  · obtain ⟨t, d, rfl⟩ := exists_of_mem_externalEvents hc
    exact call_parts hC hself n t d hw hnot
  · obtain ⟨t, d, rfl⟩ := exists_of_mem_externalEvents hc
    exact call_some C.plain hC hself n t d hw
  · obtain ⟨t, d, rfl⟩ := exists_of_mem_externalEvents hc
    exact call_some C.extended (obeys_extended hC) hself' n t d hw

end Parting

/-- An exit that was announced can be seen. -/
theorem observed_exit {log : List (Entry δ)} {e : Entry δ} (he : e ∈ log) {s : UInt8}
    (hs : e.obs = .onExit s) : (.onExit s, e.members.currentState) ∈ observed log := by
  have hfilter : e ∈ log.filter fun e => e.obs.observable := by
    rw [List.mem_filter, hs]
    exact ⟨he, rfl⟩
  rw [← hs]
  exact List.mem_map_of_mem hfilter

/-- What is seen of an exit is a line of the log. -/
theorem exit_of_observed {log : List (Entry δ)} {s c : UInt8}
    (h : (.onExit s, c) ∈ observed log) : ∃ e ∈ log, e.IsExit := by
  obtain ⟨e, he, heq⟩ := List.mem_map.mp h
  exact ⟨e, (List.mem_filter.mp he).1, s, congrArg Prod.fst heq⟩

/-- **What the two declarations have in common**: on every sequence of external
events, from every valid initial state, an observer sees the same of both
engines exactly if every event the plain one dispatches is a self-transition;
then the two runs are equal. -/
theorem plain_observed_iff (C : PlainClass σ δ) (hC : C.EventFree) {thread : ThreadId}
    (hself : C.plain.RunsOn thread) (n : Nat) (events : List (UInt8 × EventPtr δ)) {s : UInt8}
    (hs : s < C.maxStates) (u : σ) :
    let plain := (runCalls C.plain thread n (externalEvents events)).run
      (World.start { currentState := s } u)
    let extended := (runCalls C.extended thread n (externalEvents events)).run
      (World.start { currentState := s } u)
    (observed plain.2.log = observed extended.2.log ↔ ∀ e ∈ plain.2.log, e.IsSelf) ∧
      ((∀ e ∈ plain.2.log, e.IsSelf) → plain = extended) := by
  intro plain extended
  have hempty : (World.start { currentState := s } u : World σ δ).log = [] := rfl
  have hsilent := wp_snd (runCalls_silent hC hself n events
    (w := World.start { currentState := s } u) ⟨rfl, by simp [hempty]⟩)
  have hnot : ¬(World.start { currentState := s } u : World σ δ).Left := by
    rintro ⟨-, e, he, -⟩
    rw [hempty] at he
    contradiction
  have hinRange : (World.start { currentState := s } u : World σ δ).members.InRange C.extended :=
    ⟨rfl, fun _ => .inl hs⟩
  obtain ⟨heq, hstay⟩ | ⟨hleft, hannounced⟩ := runCalls_parts hC hself n events hinRange hnot
  · have hall : ∀ e ∈ plain.2.log, e.IsSelf := (every_of_not_some hsilent.1 hstay).2
    exact ⟨⟨fun _ => hall, fun _ => congrArg (fun r => observed r.2.log) heq⟩, fun _ => heq⟩
  · have hsome : ¬∀ e ∈ plain.2.log, e.IsSelf := fun h => World.Every.not_some ⟨hleft.1, h⟩ hleft
    obtain ⟨-, e, he, t, ht⟩ := hannounced
    have hseen : observed plain.2.log ≠ observed extended.2.log := by
      intro h
      have hmem := observed_exit he ht
      rw [← h] at hmem
      obtain ⟨e', he', hexit⟩ := exit_of_observed hmem
      exact hsilent.2 e' he' hexit
    exact ⟨⟨fun h => absurd h hseen, fun h => absurd h hsome⟩, fun h => absurd h hsome⟩

/-- Two states without user code. -/
def door : PlainClass Nat Nat where
  maxStates := 2
  rows := [⟨some fun _ => .ret ()⟩, ⟨some fun _ => .ret ()⟩]
  rows_size := rfl

theorem door_eventFree : door.EventFree where
  rows := by
    intro row hrow
    simp only [door, PlainClass.plain, StateMaps.rows, Option.getD_none, Option.getD_some,
      List.map_cons, List.map_nil, List.append_nil, List.mem_cons, List.not_mem_nil,
      or_false, or_self] at hrow
    rw [hrow]
    constructor <;> simp [StateMapRow.toEx, Callback.Only]
  signals := by constructor <;> simp [door, PlainClass.plain, Callback.Only]

/-- The door stays open. -/
theorem plain_observed_iff_door :
    let plain := (runCalls door.plain 0 4 (externalEvents [(0, none), (0, none)])).run
      (World.start { currentState := 0 } 0)
    let extended := (runCalls door.extended 0 4 (externalEvents [(0, none), (0, none)])).run
      (World.start { currentState := 0 } 0)
    plain.1 = .ok () ∧ observed plain.2.log = observed extended.2.log := by
  intro plain extended
  have hall : ∀ e ∈ plain.2.log, (match e.obs with
      | .consume t _ => decide (t = e.members.currentState)
      | _ => true) = true := by decide
  have hself : door.plain.RunsOn 0 := by simp [Machine.RunsOn, door, PlainClass.plain]
  have hiff := (plain_observed_iff door door_eventFree hself 4 [(0, none), (0, none)]
    (s := 0) (by decide) 0).1
  refine ⟨rfl, hiff.mpr fun e he t d ht => ?_⟩
  have he' := hall e he
  rw [ht] at he'
  exact of_decide_eq_true he'

/-- The door closes: only the extended engine says so. -/
theorem plain_unannounced :
    let plain := (runCalls door.plain 0 4 (externalEvents [(1, none)])).run
      (World.start { currentState := 0 } 0)
    let extended := (runCalls door.extended 0 4 (externalEvents [(1, none)])).run
      (World.start { currentState := 0 } 0)
    observed plain.2.log ≠ observed extended.2.log ∧
      door.EventFree ∧ plain.1 = .ok () ∧ extended.1 = .ok () ∧
      plain.2.members.currentState = 1 ∧ extended.2.members.currentState = 1 ∧
      observed plain.2.log =
        [(.setCurrentState 1, 1), (.action 1 (some .noEventData), 1), (.onTransition 0 1, 1)] ∧
      observed extended.2.log =
        [(.onExit 0, 0), (.setCurrentState 1, 1), (.onEntry 1, 1),
          (.action 1 (some .noEventData), 1), (.onTransition 0 1, 1)] :=
  ⟨by decide, door_eventFree, rfl, rfl, rfl, rfl, by decide, by decide⟩

end ActiveFsm
