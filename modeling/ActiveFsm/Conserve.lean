import ActiveFsm.Range

/-!
# ActiveFsm.Conserve

A hierarchical machine without a hierarchy.  A class with an extended state
map can also be declared with `BEGIN_STATE_MAP_HSM`, giving every state
`NO_PARENT`.  The two engines then do the same, action by action: their runs
on the same external events are equal (`hsm_conserves_flat`).

The engines differ in what they keep in locals and what they read again from
the members, so user code that posts events inside a guard or a change of
state would tell them apart.
-/

namespace ActiveFsm

open Proc

variable {σ δ : Type}

/-! ## The two declarations -/

/-- What the derived class supplies: an extended state map of `maxStates` rows. -/
structure ExtendedClass (σ δ : Type) where
  maxStates : UInt8
  rows : List (StateMapRowEx σ δ)
  signals : Signals σ δ := {}
  thread : Option ThreadId := none
  rows_size : rows.length = maxStates.toNat

/-- `STATE_MAP_ENTRY_ALL_HSM` with `NO_PARENT`. -/
def StateMapRowEx.toHSM (row : StateMapRowEx σ δ) : StateMapRowHSM σ δ :=
  { row with parentState := noParent }

namespace ExtendedClass

variable (C : ExtendedClass σ δ)

/-- The class declared with `BEGIN_STATE_MAP_EX`. -/
def flat : Machine σ δ where
  maxStates := C.maxStates
  maps := .flat none (some C.rows)
  signals := C.signals
  thread := C.thread
  maps_size := ⟨by simp, by simp [C.rows_size]⟩

/-- The class declared with `BEGIN_STATE_MAP_HSM`. -/
def hsm : Machine σ δ where
  maxStates := C.maxStates
  maps := .hsm (some (C.rows.map StateMapRowEx.toHSM))
  signals := C.signals
  thread := C.thread
  maps_size := by simp [StateMaps.HasSize, C.rows_size]

/-- User code raises no external event, and posts internal ones only outside
guards and changes of state. -/
def EventFree : Prop := C.flat.Obeys Hook.IsAction fun _ => False

end ExtendedClass

/-! ## Walks that end at once -/

section Walks

variable {M : Machine σ δ} {self : Frame δ} {nested : Call δ → Fsm σ δ Unit}
  {rows : List (StateMapRowHSM σ δ)} {s lca : UInt8}

/-- A walk that is past the root ends. -/
theorem lcaInner_stop (hs : ¬s < M.maxStates) (a : UInt8) (left : Nat) :
    lcaInner M rows a left s = ret false := by
  unfold lcaInner
  rw [if_neg hs]

/-- So does the outer walk. -/
theorem lcaOuter_stop (hs : ¬s < M.maxStates) (b : UInt8) (left : Nat) :
    lcaOuter M rows b left s = ret noParent := by
  unfold lcaOuter
  rw [if_neg hs]

/-- No state is left past the root. -/
theorem exitWalk_stop (hs : ¬s < M.maxStates) (left : Nat) :
    exitWalk M self nested rows lca left s = ret () := by
  unfold exitWalk
  rw [if_neg fun h => hs h.1]

/-- None is entered there. -/
theorem collectEntryChain_stop (hs : ¬s < M.maxStates) (left : Nat) :
    collectEntryChain M rows lca left s = ret [] := by
  unfold collectEntryChain
  rw [if_neg fun h => hs h.1]

/-- Two different states without parents have no common ancestor. -/
theorem findLCA_top {a b : UInt8} {rowA rowB : StateMapRowHSM σ δ} (ha : a < M.maxStates)
    (hb : b < M.maxStates) (hne : b ≠ a) (hrowA : rows[a.toNat]? = some rowA)
    (hrowB : rows[b.toNat]? = some rowB) (hparentA : ¬rowA.parentState < M.maxStates)
    (hparentB : ¬rowB.parentState < M.maxStates) : findLCA M rows a b = ret noParent := by
  have hinner : lcaInner M rows a maxHsmDepth b = ret false := by
    have hdepth : maxHsmDepth = 31 + 1 := rfl
    rw [hdepth, lcaInner, if_pos hb]
    simp only [if_neg hne.symm, rowAt_eq hrowB, bind_eq, ret_bind, lcaInner_stop hparentB]
  have hdepth : maxHsmDepth = 31 + 1 := rfl
  rw [findLCA, hdepth, lcaOuter, if_pos ha]
  simp only [hinner, rowAt_eq hrowA, bind_eq, ret_bind, Bool.false_eq_true, if_false,
    lcaOuter_stop hparentA]

/-- Between two such states the change of state leaves one and enters the
other. -/
theorem changeStateHSM_top {c t : UInt8} {current row : StateMapRowHSM σ δ} {d : EventPtr δ}
    (hnone : ¬noParent < M.maxStates) (hc : c < M.maxStates) (ht : t < M.maxStates) (hne : t ≠ c)
    (hcurrent : rows[c.toNat]? = some current) (hrow : rows[t.toNat]? = some row)
    (hpc : ¬current.parentState < M.maxStates) (hpt : ¬row.parentState < M.maxStates) :
    changeStateHSM M self nested rows c t d =
      (runExit self nested c current.exit).bind fun _ => (onExit M self nested c).bind fun _ =>
        (setCurrentState self t).bind fun _ =>
          (runEntry self nested t row.entry d).bind fun _ => (onEntry M self nested t).bind fun _ =>
            isEventPending.bind fun pending => assertTrue .eventPending (!pending) := by
  have hdepth : maxHsmDepth = 31 + 1 := rfl
  have hcn : c ≠ noParent := fun h => hnone (h ▸ hc)
  have htn : t ≠ noParent := fun h => hnone (h ▸ ht)
  have hexit : exitWalk M self nested rows noParent maxHsmDepth c =
      (runExit self nested c current.exit).bind fun _ => onExit M self nested c := by
    rw [hdepth, exitWalk, if_pos ⟨hc, hcn⟩]
    simp only [rowAt_eq hcurrent, bind_eq, ret_bind, exitWalk_stop hpc]
    congr 1
    funext _
    exact bind_ret _
  have hchain : collectEntryChain M rows noParent maxHsmDepth t = ret [t] := by
    rw [hdepth, collectEntryChain, if_pos ⟨ht, htn⟩]
    simp only [rowAt_eq hrow, bind_eq, ret_bind, collectEntryChain_stop hpt]
  simp only [changeStateHSM, bind_eq, findLCA_top hc ht hne hcurrent hrow hpc hpt, ret_bind, hexit,
    hchain, List.reverse_singleton, each, enterState, rowAt_eq hrow, bind_assoc]

end Walks

/-! ## One dispatch -/

section Agree

variable {C : ExtendedClass σ δ} {self : Frame δ} {nested nested' : Call δ → Fsm σ δ Unit}
  {row current : StateMapRowEx σ δ} {c t : UInt8} {d : EventPtr δ} {w : World σ δ}

/-- The rows of a class without nested events. -/
theorem obeys_of_row (hC : C.EventFree) {s : UInt8} (h : C.rows[s.toNat]? = some row) :
    row.Obeys Hook.IsAction fun _ => False :=
  (hC.extended rfl).2 row (List.mem_of_getElem? h)

/-- The rows of the map, read as hierarchical ones. -/
theorem toHSM_row {s : UInt8} (h : C.rows[s.toNat]? = some row) :
    (C.rows.map StateMapRowEx.toHSM)[s.toNat]? = some row.toHSM := by
  rw [List.getElem?_map, h]
  rfl

/-- The change of state, where nothing is posted. -/
theorem changeState_agree (hC : C.EventFree) (hN : C.maxStates < propagateToParent)
    (hrow : C.rows[t.toNat]? = some row) (hcurrent : C.rows[c.toNat]? = some current)
    (hc : c < C.maxStates) (ht : t < C.maxStates) (hne : t ≠ c) (hcur : w.members.currentState = c)
    (hnew : w.members.newState = t) (hd : d.isSome = true) :
    (changeStateEx C.flat self nested t c current.exit row.entry d).run w =
      (changeStateHSM C.hsm self nested' (C.rows.map StateMapRowEx.toHSM) c t d).run w := by
  have hnone : ¬noParent < C.hsm.maxStates := fun h => absurd (UInt8.lt_trans h hN) (by decide)
  have hrowO := obeys_of_row hC hrow
  have hcurrentO := obeys_of_row hC hcurrent
  have hexit : runExit self nested' c current.toHSM.exit = runExit self nested c current.exit :=
    runExit_nested nested hcurrentO c
  have honExit : onExit C.hsm self nested' c = onExit C.flat self nested c :=
    onExit_nested nested hC c
  have hentry : runEntry self nested' t row.toHSM.entry d = runEntry self nested t row.entry d :=
    runEntry_nested nested hrowO t d
  have honEntry : onEntry C.hsm self nested' t = onEntry C.flat self nested t :=
    onEntry_nested nested hC t
  rw [changeStateHSM_top hnone hc ht hne (toHSM_row hcurrent) (toHSM_row hrow) hnone hnone, hexit,
    honExit, hentry, honEntry]
  simp only [changeStateEx, bind_eq]
  refine bind_run_congr (runExit_wp (fixed_survives id) hcurrentO.exit id rfl) fun _ w₁ hw₁ => ?_
  rw [run_getCurrentState, hw₁, hcur]
  refine bind_run_congr (onExit_wp (fixed_survives id) (hC.signals.onExit c) hw₁) fun _ w₂ hw₂ => ?_
  rw [run_getNewState, run_setCurrentState, run_setCurrentState, hw₂, hnew]
  refine bind_run_congr (runEntry_wp (fixed_survives id) (fun f hf => hrowO.entry f hf d) hd id rfl)
    fun _ w₃ hw₃ => ?_
  rw [run_getCurrentState, hw₃]
  rfl

/-- The whole transition. -/
theorem transition_agree (hC : C.EventFree) (hN : C.maxStates < propagateToParent)
    (hrow : C.rows[t.toNat]? = some row) (hcurrent : C.rows[c.toNat]? = some current)
    (hc : c < C.maxStates) (ht : t < C.maxStates) (hcur : w.members.currentState = c)
    (hnew : w.members.newState = t) (hd : d.isSome = true) :
    (transitionEx C.flat self nested t c row current.exit d).run w =
      (transitionHSM C.hsm self nested' (C.rows.map StateMapRowEx.toHSM) t row.toHSM d).run w := by
  have hmove : (moveEx C.flat self nested t c current.exit row.entry d).run w =
      (moveHSM C.hsm self nested' (C.rows.map StateMapRowEx.toHSM) c t d).run w := by
    rw [moveEx, moveHSM, bind_eq, run_getNewState, bind_eq, run_getCurrentState, hnew, hcur]
    by_cases hne : t ≠ c
    · rw [if_pos hne, if_pos hne]
      exact changeState_agree hC hN hrow hcurrent hc ht hne hcur hnew hd
    · rw [if_neg hne, if_neg hne]
  have hstate : runState self nested' t row.toHSM.state d = runState self nested t row.state d :=
    runState_nested nested (obeys_of_row hC hrow) t d
  have honTransition (s : UInt8) :
      onTransition C.hsm self nested' c s = onTransition C.flat self nested c s :=
    onTransition_nested nested hC c s
  simp only [transitionEx, transitionHSM, bind_eq, hstate]
  rw [run_getCurrentState, run_getCurrentState, hcur, run_bind, run_bind, hmove]
  simp only [honTransition]

/-- **One dispatch**: from a valid state, or where there is none, both engines
do the same. -/
theorem dispatch_agree (hC : C.EventFree) (hN : C.maxStates < propagateToParent)
    (hw : w.members.Settled C.maxStates) (hgen : w.members.eventGenerated = true) :
    (dispatchEx C.flat self nested C.rows).run w =
      (dispatchHSM C.hsm self nested' (C.rows.map StateMapRowEx.toHSM)).run w := by
  simp only [dispatchEx, dispatchHSM, bind_eq, run_getNewState]
  have hmax : C.hsm.maxStates = C.flat.maxStates := rfl
  by_cases hnew : w.members.newState < C.flat.maxStates
  · have hcur : w.members.currentState < C.maxStates := hw.current_lt hnew
    obtain ⟨row, hrow⟩ := row_exists C.rows_size hnew
    obtain ⟨current, hcurrent⟩ := row_exists C.rows_size hcur
    have hd : w.members.pEventData.isSome = true := hw.1.isSome hgen
    have hrowO := obeys_of_row hC hrow
    have hguard : evalGuard self nested' w.members.newState row.toHSM.guard w.members.pEventData =
        evalGuard self nested w.members.newState row.guard w.members.pEventData :=
      evalGuard_nested nested hrowO _ _
    simp only [hmax, assertTrue, hnew, decide_true, if_true, ret_bind, rowAt_eq hrow,
      rowAt_map _ hrow, run_getCurrentState, rowAt_eq hcurrent, run_consumeEvent, hguard]
    have hpure : (evalGuard self nested w.members.newState row.guard w.members.pEventData).wp
        (fun _ w' => w'.members = (w.consume self).members) (fun _ _ => True) (w.consume self) :=
      evalGuard_wp (fixed_survives id) (fun f hf => hrowO.guard f hf _) hd rfl (fun _ _ h => h) rfl
    refine bind_run_congr hpure fun g w' hw' => ?_
    cases g with
    | false => rfl
    | true =>
        have hcur' : w'.members.currentState = w.members.currentState := by rw [hw']; rfl
        have hnew' : w'.members.newState = w.members.newState := by rw [hw']; rfl
        exact transition_agree hC hN hrow hcurrent hcur hnew hcur' hnew' hd
  · simp only [hmax, assertTrue, hnew, decide_false, Bool.false_eq_true, if_false, halt_bind]

/-! ## Every run -/

/-- Its callbacks raise nothing. -/
theorem ExtendedClass.EventFree.obeys (hC : C.EventFree) :
    C.flat.Obeys (fun _ => True) fun _ => False :=
  Machine.Obeys.mono hC (fun _ _ => trivial) fun _ h => h

/-- The two engines do the same, turn by turn. -/
theorem stateEngine_agree (hC : C.EventFree) (hN : C.maxStates < propagateToParent) (n : Nat)
    (hw : w.members.Settled C.maxStates) :
    (stateEngine C.flat self nested n).run w = (stateEngine C.hsm self nested' n).run w := by
  have hmaps : C.flat.maps = .flat none (some C.rows) := rfl
  obtain ⟨hlen, hrows⟩ := hC.obeys.extended hmaps
  exact loop_run_congr
    (fun w hw hgen => dispatchEx_inRange hC.obeys hlen hrows hw hgen)
    (fun w hw hgen => dispatch_agree hC hN hw hgen) n w hw

/-- So do the two machines, given the same event. -/
theorem externalEvent_agree (hC : C.EventFree) (hN : C.maxStates < propagateToParent) (n : Nat)
    (hself : C.flat.RunsOn self.thread) (hw : w.members.Settled C.maxStates) :
    (externalEvent C.flat self nested n t d).run w =
      (externalEvent C.hsm self nested' n t d).run w := by
  have hon : isOnStateMachineThread C.flat self = true := isOn_of_runsOn hself
  have hon' : isOnStateMachineThread C.hsm self = true := hon
  have hcannot (s : UInt8) :
      onCannotHappen C.hsm self nested' s = onCannotHappen C.flat self nested s :=
    onCannotHappen_nested nested hC s
  unfold externalEvent
  rw [hon, hon']
  split
  · rfl
  · split
    · simp only [hcannot]
    · have hpost : ((w.note self .start).post self t d).members.Settled C.maxStates :=
        ⟨slotConsistent_post _ t d, hw.2⟩
      simp only [externalEventImpl, bind_eq, if_true]
      rw [run_record, run_record, run_internalEvent, run_internalEvent, run_bind, run_bind,
        stateEngine_agree hC hN n hpost]

end Agree

/-- **The hierarchical engine conserves the flat one**: on every sequence of
external events, from every valid initial state, a class whose user code posts
events from its state actions only runs the same with either declaration.
The outcome, the members, the user's data and every line of the log agree. -/
theorem hsm_conserves_flat (C : ExtendedClass σ δ) (hC : C.EventFree)
    (hN : C.maxStates < propagateToParent) {thread : ThreadId} (hself : C.flat.RunsOn thread)
    (n : Nat) (events : List (UInt8 × EventPtr δ)) {s : UInt8} (hs : s < C.maxStates) (u : σ) :
    (runCalls C.flat thread n (externalEvents events)).run (World.start { currentState := s } u) =
      (runCalls C.hsm thread n (externalEvents events)).run
        (World.start { currentState := s } u) := by
  have hstep (c : Call δ) (hc : c ∈ externalEvents events) (w : World σ δ)
      (hw : w.members.InRange C.flat) :
      (call C.flat ⟨thread, c⟩ n c).wp (fun _ w' => w'.members.InRange C.flat)
        (fun e _ => e.InRange) w := by
    obtain ⟨t, d, rfl⟩ := exists_of_mem_externalEvents hc
    exact call_inRange hC.obeys hself n t d hw
  refine each_run_congr _ hstep (fun c hc w hw => ?_) _ ⟨rfl, fun _ => .inl hs⟩
  obtain ⟨t, d, rfl⟩ := exists_of_mem_externalEvents hc
  cases n with
  | zero => rfl
  | succ n => exact externalEvent_agree hC hN n hself ⟨hw.1, hw.2 trivial⟩

/-- Three states with guard, entry and exit; the action of the second posts an
event that the guard of the third vetoes. -/
def chained : ExtendedClass Nat Nat where
  maxStates := 3
  rows := [{ state := some fun _ => .ret (), exit := some (.ret ()) },
    { state := some fun d => .internalEvent 2 d (.ret ()), entry := some fun _ => .ret () },
    { state := some fun _ => .ret (), guard := some fun _ => .ret false }]
  rows_size := rfl

/-- The example raises nothing. -/
theorem chained_eventFree : chained.EventFree where
  rows := by
    intro row hrow
    simp only [chained, ExtendedClass.flat, StateMaps.rows, Option.getD_none, Option.getD_some,
      List.map_nil, List.nil_append, List.mem_cons, List.not_mem_nil, or_false] at hrow
    obtain rfl | rfl | rfl := hrow <;> constructor <;> simp [Callback.Only, Hook.IsAction]
  signals := by constructor <;> simp [chained, ExtendedClass.flat, Callback.Only]

theorem hsm_conserves_flat_chained :
    let events := [(1, none), (1, some (.data 4)), (0, none), (9, none)]
    (runCalls chained.flat 0 5 (externalEvents events)).run (World.start { currentState := 0 } 0) =
      (runCalls chained.hsm 0 5 (externalEvents events)).run
        (World.start { currentState := 0 } 0) := by
  intro events
  have hself : chained.flat.RunsOn 0 := by simp [Machine.RunsOn, chained, ExtendedClass.flat]
  exact hsm_conserves_flat chained chained_eventFree (by decide) hself 5 events (by decide) 0

end ActiveFsm
