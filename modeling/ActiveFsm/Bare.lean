import ActiveFsm.Event

/-!
# ActiveFsm.Bare

The extended engine on rows that have a state function and nothing else, as
`STATE_MAP_ENTRY_EX` makes them.  An event then consumes itself, changes the
current state and runs one function; what it comes to is what the function
makes of the members and of the user's data.
-/

namespace ActiveFsm

open Proc

variable {σ δ : Type}

/-- `STATE_MAP_ENTRY_EX(act)`. -/
structure StateMapRowEx.IsBare (row : StateMapRowEx σ δ) (act : EventPtr δ → Callback σ δ Unit) :
    Prop where
  state : row.state = some act
  guard : row.guard = none
  entry : row.entry = none
  exit : row.exit = none

/-- The members are `m`, the user's data `u`. -/
def World.Is (m : Members δ) (u : σ) (w : World σ δ) : Prop := w.members = m ∧ w.user = u

/-- The members when the function of state `s` begins. -/
def Members.entering (s : UInt8) : Members δ := { currentState := s, newState := s }

section Bare

variable {M : Machine σ δ} {self : Frame δ} {nested : Call δ → Fsm σ δ Unit}
  {rows : List (StateMapRowEx σ δ)} {row current : StateMapRowEx σ δ}
  {act old : EventPtr δ → Callback σ δ Unit} {m m' : Members δ} {u u' : σ} {w : World σ δ}
  {Q : Unit → World σ δ → Prop} {E : Stop → World σ δ → Prop} {n : Nat}

/-- One iteration of the engine. -/
theorem dispatchEx_bare (hsignals : M.signals = {}) (hrow : rows[m.newState.toNat]? = some row)
    (hbare : row.IsBare act) (hcur : rows[m.currentState.toNat]? = some current)
    (hold : current.IsBare old) (hnew : m.newState < M.maxStates)
    (hact : ∀ v : World σ δ, v.Is (.entering m.newState) u →
      ((act m.pEventData).run self nested).wp (fun _ => World.Is m' u') (fun _ _ => False) v)
    (hw : w.Is m u) :
    (dispatchEx M self nested rows).wp (fun _ => World.Is m' u') (fun _ _ => False) w := by
  obtain ⟨rfl, rfl⟩ := hw
  have hfinish (v : World σ δ) (hv : v.Is (.entering w.members.newState) w.user) :
      (runState self nested w.members.newState row.state w.members.pEventData).wp
        (fun _ v' => (onTransition M self nested w.members.currentState
          v'.members.currentState).wp (fun _ => World.Is m' u') (fun _ _ => False) v')
        (fun _ _ => False) v := by
    rw [hbare.state, runState, invokeStateAction, bind_eq, wp_bind, wp_record]
    refine wp_then (hact _ hv) fun _ v' hv' => ?_
    rw [onTransition, hsignals]
    exact hv'
  simp only [dispatchEx, bind_eq, wp_bind, wp_getNewState, wp_getCurrentState]
  refine wp_assertTrue (fun _ => ?_) fun h => ?_
  · have hguard (d : EventPtr δ) :
        evalGuard self nested w.members.newState row.guard d = ret true := by
      rw [hbare.guard]
      rfl
    rw [rowAt_eq hrow, wp_ret, rowAt_eq hcur, wp_ret, wp_consumeEvent]
    simp only [hguard, wp_ret, if_true, transitionEx, moveEx, bind_eq, wp_bind, wp_getNewState,
      wp_getCurrentState]
    split
    · rw [hbare.entry, hold.exit]
      simp only [changeStateEx, runExit, runEntry, onExit, onEntry, hsignals, Callback.run, bind_eq,
        wp_bind, wp_ret, wp_record, wp_getNewState, wp_getCurrentState, wp_setCurrentState,
        wp_isEventPending]
      exact hfinish _ ⟨rfl, rfl⟩
    · rw [wp_setCurrentState]
      exact hfinish _ ⟨rfl, rfl⟩
  · simp [hnew] at h

/-- No event is pending: the engine returns. -/
theorem stateEngineEx_settled (hsettled : m.eventGenerated = false) (hw : w.Is m u) :
    (stateEngineEx M self nested rows (n + 1)).wp (fun _ => World.Is m u) E w := by
  obtain ⟨rfl, rfl⟩ := hw
  simp only [stateEngineEx, loop, wp_act, id, hsettled, Bool.false_eq_true, if_false, wp_ret]
  exact ⟨rfl, rfl⟩

/-- An event is pending: it is dispatched, and the engine goes on. -/
theorem stateEngineEx_pending (hpending : m.eventGenerated = true) (hw : w.Is m u)
    (hdispatch : (dispatchEx M self nested rows).wp (fun _ => World.Is m' u')
      (fun _ _ => False) w)
    (hrest : ∀ v : World σ δ, v.Is m' u' → (stateEngineEx M self nested rows n).wp Q E v) :
    (stateEngineEx M self nested rows (n + 1)).wp Q E w := by
  obtain ⟨rfl, rfl⟩ := hw
  simp only [stateEngineEx, loop, wp_act, id, hpending, if_true, wp_bind]
  exact wp_mono hdispatch (fun _ v hv => hrest v hv) fun _ _ => False.elim

/-- An external event for a state. -/
theorem externalEvent_bare (hself : M.RunsOn self.thread) (hmaps : M.maps = .flat none (some rows))
    {t : UInt8} {d : EventPtr δ} (hignored : t ≠ eventIgnored) (hcannot : t ≠ cannotHappen)
    (hsignals : M.signals = {}) (hrow : rows[t.toNat]? = some row) (hbare : row.IsBare act)
    (hcur : rows[m.currentState.toNat]? = some current) (hold : current.IsBare old)
    (hnew : t < M.maxStates)
    (hact : ∀ v : World σ δ, v.Is (.entering t) u →
      ((act (makeData d)).run self nested).wp (fun _ => World.Is m' u') (fun _ _ => False) v)
    (hw : w.Is m u) {m'' : Members δ} {u'' : σ}
    (hrest : ∀ v : World σ δ, v.Is m' u' →
      (stateEngineEx M self nested rows n).wp (fun _ => World.Is m'' u'') E v) :
    (externalEvent M self nested (n + 1) t d).wp (fun _ => World.Is m'' u'') E w := by
  rw [externalEvent, if_neg hignored, if_neg hcannot, isOn_of_runsOn hself, if_pos rfl]
  simp only [externalEventImpl, bind_eq, wp_bind, wp_record, wp_internalEvent]
  rw [stateEngine_ex M self nested (n + 1) hmaps]
  obtain ⟨rfl, rfl⟩ := hw
  let posted : Members δ :=
    { w.members with pEventData := makeData d, eventGenerated := true, newState := t }
  have hposted : ((w.note self .start).post self t d).Is posted w.user := ⟨rfl, rfl⟩
  exact stateEngineEx_pending rfl hposted
    (dispatchEx_bare (m := posted) hsignals hrow hbare hcur hold hnew hact hposted) hrest

end Bare

end ActiveFsm
