import ActiveFsm.Slot

/-!
# ActiveFsm.Range

The subscripts of the state map.  Dequeued targets are checked before they are
used, and the hierarchical engine checks every index it follows.  The extended
flat engine also reads the row of the current state, which nothing checks: it
relies on the current state being valid from construction on, and the
constructor does not look at its initial state.
-/

namespace ActiveFsm

open Proc

variable {σ δ : Type}

/-! ## The extended flat engine -/

/-- Where the engine looks for an event: the current state is valid, unless
there is no valid state at all. -/
def Members.Settled (maxStates : UInt8) (m : Members δ) : Prop :=
  m.SlotConsistent ∧ (m.currentState < maxStates ∨ maxStates = 0)

/-- From consuming the event to leaving the current state: no event posted
meanwhile means that the target is still the one that was checked. -/
def Members.Leaving (maxStates : UInt8) (m : Members δ) : Prop :=
  m.SlotConsistent ∧ m.currentState < maxStates ∧
    (m.eventGenerated = false → m.newState < maxStates)

/-- While the new state is entered: it is valid, or the assertion that ends
the phase fails. -/
def Members.Entering (maxStates : UInt8) (m : Members δ) : Prop :=
  m.SlotConsistent ∧ (m.eventGenerated = false → m.currentState < maxStates)

/-- A target that passes the check shows that there are states. -/
theorem Members.Settled.current_lt {maxStates : UInt8} {m : Members δ} (h : m.Settled maxStates)
    (hnew : m.newState < maxStates) : m.currentState < maxStates := by
  refine h.2.resolve_right fun hzero => ?_
  rw [hzero] at hnew
  exact absurd (UInt8.lt_iff_toNat_lt.mp hnew) (Nat.not_lt_zero _)

/-- No subscript is out of range. -/
def Stop.InRange (e : Stop) : Prop := ∀ i, e ≠ .outOfRange i

theorem inRange_fault (site : Site) : (Stop.fault site).InRange := by simp [Stop.InRange]

section Extended

variable {M : Machine σ δ} {self : Frame δ} {nested : Call δ → Fsm σ δ Unit} {w : World σ δ}

/-- A property of the members that posts keep is kept by every hook. -/
theorem hooks_of_members {P : Members δ → Prop}
    (hpost : ∀ (w : World σ δ) t d, P w.members → P (w.post self t d).members) :
    HookInvariant self nested (fun _ => True) (fun _ => False) (fun w => P w.members)
      (fun e _ => e.InRange) where
  survives _ := survives_of_members (fun _ _ => inRange_fault _) fun _ => hpost
  nullState _ _ := inRange_fault _
  note _ _ _ hw := hw

/-- User code between two turns. -/
theorem settled_hooks :
    HookInvariant self nested (fun _ => True) (fun _ => False)
      (fun w : World σ δ => w.members.Settled M.maxStates) (fun e _ => e.InRange) :=
  hooks_of_members fun w t d hw => ⟨slotConsistent_post w t d, hw.2⟩

/-- User code while a state is being left. -/
theorem leaving_hooks :
    HookInvariant self nested (fun _ => True) (fun _ => False)
      (fun w : World σ δ => w.members.Leaving M.maxStates) (fun e _ => e.InRange) :=
  hooks_of_members fun w t d hw => ⟨slotConsistent_post w t d, hw.2.1, by simp⟩

/-- User code while a state is being entered. -/
theorem entering_hooks :
    HookInvariant self nested (fun _ => True) (fun _ => False)
      (fun w : World σ δ => w.members.Entering M.maxStates) (fun e _ => e.InRange) :=
  hooks_of_members fun w t d _ => ⟨slotConsistent_post w t d, by simp⟩

/-- The exit and the entry of the extended engine. -/
theorem moveEx_inRange (hM : M.Obeys (fun _ => True) (fun _ => False))
    {row current : StateMapRowEx σ δ} (hrow : row.Obeys (fun _ => True) (fun _ => False))
    (hcur : current.Obeys (fun _ => True) (fun _ => False)) {t x : UInt8} {d : EventPtr δ}
    (hd : d.isSome = true) (hw : w.members.Leaving M.maxStates) :
    (moveEx M self nested t x current.exit row.entry d).wp
      (fun _ w' => w'.members.Settled M.maxStates) (fun e _ => e.InRange) w := by
  simp only [moveEx, bind_eq, wp_bind, wp_getNewState, wp_getCurrentState]
  split
  · simp only [changeStateEx, bind_eq, wp_bind, wp_getCurrentState, wp_getNewState,
      wp_setCurrentState, wp_isEventPending]
    refine wp_then (leaving_hooks.moves.runExit hcur hw) fun _ w₁ hw₁ => ?_
    refine wp_then (leaving_hooks.moves.onExit hM hw₁) fun _ w₂ hw₂ => ?_
    have hset : (w₂.setCurrentState self w₂.members.newState).members.Entering M.maxStates :=
      ⟨hw₂.1, hw₂.2.2⟩
    refine wp_then (entering_hooks.moves.runEntry hrow hd hset) fun _ w₃ hw₃ => ?_
    refine wp_then (entering_hooks.moves.onEntry hM hw₃) fun _ w₄ hw₄ => ?_
    refine wp_assertTrue (fun hquiet => ⟨hw₄.1, .inl (hw₄.2 ?_)⟩) fun _ => inRange_fault _
    simpa using hquiet
  · next hsame =>
      have heq : w.members.newState = w.members.currentState := Decidable.not_not.mp hsame
      refine ⟨hw.1, .inl ?_⟩
      rw [setCurrentState_members, heq]
      exact hw.2.1

/-- One iteration reads no row out of range and ends in a valid state. -/
theorem dispatchEx_inRange (hM : M.Obeys (fun _ => True) (fun _ => False))
    {rows : List (StateMapRowEx σ δ)} (hlen : rows.length = M.maxStates.toNat)
    (hrows : ∀ row ∈ rows, row.Obeys (fun _ => True) (fun _ => False))
    (hw : w.members.Settled M.maxStates) (hgen : w.members.eventGenerated = true) :
    (dispatchEx M self nested rows).wp (fun _ w' => w'.members.Settled M.maxStates)
      (fun e _ => e.InRange) w := by
  simp only [dispatchEx, bind_eq, wp_bind, wp_getNewState, wp_getCurrentState]
  refine wp_assertTrue (fun hcheck => ?_) fun _ => inRange_fault _
  have hnew : w.members.newState < M.maxStates := of_decide_eq_true hcheck
  have hcur : w.members.currentState < M.maxStates := hw.current_lt hnew
  have hd : w.members.pEventData.isSome = true := hw.1.isSome hgen
  refine wp_rowAt_of_lt (toNat_lt_length hlen hnew) fun row hrow _ => ?_
  refine wp_rowAt_of_lt (toNat_lt_length hlen hcur) fun current hcurrent _ => ?_
  rw [wp_consumeEvent]
  have hconsume : (w.consume self).members.Leaving M.maxStates := ⟨rfl, hcur, fun _ => hnew⟩
  refine wp_then (leaving_hooks.evalGuard (hrows row hrow) hd hconsume) fun g w₁ hw₁ => ?_
  cases g with
  | false => exact ⟨hw₁.1, .inl hw₁.2.1⟩
  | true =>
      simp only [transitionEx, bind_eq, wp_bind, wp_getCurrentState, if_true]
      refine wp_then (moveEx_inRange hM (hrows row hrow) (hrows current hcurrent) hd hw₁)
        fun _ w₂ hw₂ => ?_
      simpa only [wp_bind, wp_getCurrentState] using
        settled_hooks.finish hM (hrows row hrow) hd hw₂

end Extended

/-! ## Every run -/

section Runs

variable {M : Machine σ δ} {self : Frame δ} {nested : Call δ → Fsm σ δ Unit} {w : World σ δ}

/-- The plain and the hierarchical engine check every subscript themselves. -/
theorem checked_engine (hmaps : ¬M.maps.IsExtended) :
    EngineInvariant M self nested (fun _ => True) (fun _ => False)
      (fun w : World σ δ => w.members.SlotConsistent) (fun e _ => e.InRange) where
  survives _ := survives_of_members (fun _ _ => inRange_fault _) fun _ w t d _ =>
    slotConsistent_post w t d
  halts _ _ he _ := he.2.2
  range hext := absurd hext hmaps
  data _ hw := hw.isSome
  consume _ _ _ := rfl
  setCurrentState _ _ hw := hw
  note _ _ _ hw := hw

/-- The extended flat engine from a valid state. -/
theorem stateEngine_inRange (hM : M.Obeys (fun _ => True) (fun _ => False))
    (hmaps : M.maps.IsExtended) (n : Nat) (hw : w.members.Settled M.maxStates) :
    (stateEngine M self nested n).wp (fun _ w' => w'.members.Settled M.maxStates)
      (fun e _ => e.InRange) w := by
  obtain ⟨rows, hex⟩ := hmaps.rows
  obtain ⟨hlen, hrows⟩ := hM.extended hex
  rw [stateEngine_ex M self nested n hex]
  have hbody (w : World σ δ) (hw : w.members.Settled M.maxStates)
      (hgen : w.members.eventGenerated = true) :
      (dispatchEx M self nested rows).wp (fun _ w' => w'.members.Settled M.maxStates)
        (fun e _ => e.InRange) w :=
    dispatchEx_inRange hM hlen hrows hw hgen
  have hout (w : World σ δ) (_ : w.members.Settled M.maxStates) : Stop.outOfFuel.InRange := by
    simp [Stop.InRange]
  exact wp_then (loop_wp hbody hout n w hw) fun _ _ h => h.1

/-- The members between external events, as far as the subscripts go. -/
def Members.InRange (M : Machine σ δ) (m : Members δ) : Prop :=
  m.SlotConsistent ∧ (M.maps.IsExtended → m.currentState < M.maxStates ∨ M.maxStates = 0)

/-- An external event, and all that it leads to. -/
theorem externalEvent_inRange (hM : M.Obeys (fun _ => True) (fun _ => False))
    (hself : M.RunsOn self.thread) (n : Nat) (t : UInt8) (d : EventPtr δ)
    (hw : w.members.InRange M) :
    (externalEvent M self nested n t d).wp (fun _ w' => w'.members.InRange M)
      (fun e _ => e.InRange) w := by
  have hkeep : HookInvariant self nested (fun _ => True) (fun _ => False)
      (fun w : World σ δ => w.members.InRange M) (fun e _ => e.InRange) :=
    hooks_of_members fun w t d hw => ⟨slotConsistent_post w t d, hw.2⟩
  refine externalEvent_wp_of hself (fun _ => hw) ?_ fun _ _ => ?_
  · have hsub := hM.signals.onCannotHappen w.members.currentState
    exact wp_then (onCannotHappen_wp (hkeep.survives .onCannotHappen) hsub hw) fun _ _ _ =>
      inRange_fault _
  · by_cases hmaps : M.maps.IsExtended
    · have hpost : ((w.note self .start).post self t d).members.Settled M.maxStates :=
        ⟨slotConsistent_post _ t d, hw.2 hmaps⟩
      exact wp_then (stateEngine_inRange hM hmaps n hpost) fun _ _ h => ⟨h.1, fun _ => h.2⟩
    · have hpost : ((w.note self .start).post self t d).members.SlotConsistent :=
        slotConsistent_post _ t d
      exact wp_then (stateEngine_wp (checked_engine hmaps) hM n hpost) fun _ _ h =>
        ⟨h.1, fun hext => absurd hext hmaps⟩

/-- A call of `ExternalEvent`. -/
theorem call_inRange (hM : M.Obeys (fun _ => True) (fun _ => False))
    (hself : M.RunsOn self.thread) (n : Nat) (t : UInt8) (d : EventPtr δ)
    (hw : w.members.InRange M) :
    (call M self n (.externalEvent t d)).wp (fun _ w' => w'.members.InRange M)
      (fun e _ => e.InRange) w := by
  cases n with
  | zero => simp [call, Stop.InRange]
  | succ n => exact externalEvent_inRange hM hself n t d hw

/-- One call after another. -/
theorem runCalls_inRange {thread : ThreadId} (hM : M.Obeys (fun _ => True) (fun _ => False))
    (hself : M.RunsOn thread) (n : Nat) (events : List (UInt8 × EventPtr δ))
    (hw : w.members.InRange M) :
    (runCalls M thread n (externalEvents events)).wp (fun _ w' => w'.members.InRange M)
      (fun e _ => e.InRange) w := by
  refine each_wp _ (fun c hc w hw => ?_) w hw
  obtain ⟨t, d, rfl⟩ := exists_of_mem_externalEvents hc
  exact call_inRange hM hself n t d hw

/-- From a state that is none of the machine's, an iteration of the extended
flat engine reads a row that does not exist. -/
theorem dispatchEx_outOfRange {rows : List (StateMapRowEx σ δ)}
    (hlen : rows.length = M.maxStates.toNat) (hcur : ¬w.members.currentState < M.maxStates)
    (hnew : w.members.newState < M.maxStates) :
    (dispatchEx M self nested rows).wp (fun _ _ => False)
      (fun e _ => e = .outOfRange w.members.currentState) w := by
  simp only [dispatchEx, bind_eq, wp_bind, wp_getNewState, wp_getCurrentState]
  refine wp_assertTrue (fun _ => ?_) fun hcheck => ?_
  · refine wp_rowAt_of_lt (toNat_lt_length hlen hnew) fun row _ _ => ?_
    refine wp_rowAt (fun current hrow => ?_) fun _ => rfl
    obtain ⟨hlt, -⟩ := List.getElem?_eq_some_iff.mp hrow
    rw [hlen] at hlt
    exact absurd (UInt8.lt_iff_toNat_lt.mpr hlt) hcur
  · exact absurd hnew (of_decide_eq_false hcheck)

end Runs

/-- The first event of an extended flat machine that starts outside its states
is the one that goes wrong. -/
theorem first_access (M : Machine σ δ) {thread : ThreadId} (hself : M.RunsOn thread)
    (hmaps : M.maps.IsExtended) {s : UInt8} (hs : ¬s < M.maxStates) (hmax : M.maxStates ≠ 0)
    (u : σ) :
    ((runCalls M thread 2 (externalEvents [(0, none)])).run
      (World.start { currentState := s } u)).1 = .error (.outOfRange s) := by
  obtain ⟨rows, hex⟩ := hmaps.rows
  have hsize := M.maps_size
  rw [hex] at hsize
  have hon : isOnStateMachineThread M ⟨thread, .externalEvent 0 (none : EventPtr δ)⟩ = true :=
    isOn_of_runsOn hself
  have h₁ : (0 : UInt8) ≠ eventIgnored := by decide
  have h₂ : (0 : UInt8) ≠ cannotHappen := by decide
  have hrun : (runCalls M thread 2 (externalEvents [(0, none)])).wp (fun _ _ => False)
      (fun e _ => e = .outOfRange s) (World.start { currentState := s } u) := by
    simp only [runCalls, externalEvents, List.map, each, call, externalEvent, if_neg h₁, if_neg h₂,
      hon, if_true, externalEventImpl, stateEngine_ex M _ _ _ hex, stateEngineEx, loop, bind_eq,
      wp_bind, wp_record, wp_internalEvent, wp_act, id, post_members]
    exact wp_then (dispatchEx_outOfRange (hsize.2 rows rfl) hs (UInt8.pos_iff_ne_zero.mpr hmax))
      fun _ _ hfalse => hfalse.elim
  rcases hr : (runCalls M thread 2 (externalEvents [(0, none)])).run
    (World.start { currentState := s } u) with ⟨e | _, w'⟩
  · rw [wp_error (E := fun e _ => e = .outOfRange s) hrun hr]
  · exact (wp_ok hrun hr).elim

/-- **State-map accesses stay in range** in every run of an accepted machine
whose user code posts internal events at will, exactly if the machine does not
use the extended flat engine, or starts in one of its states, or has none. -/
theorem access_in_range (M : Machine σ δ) {thread : ThreadId} (hself : M.RunsOn thread)
    (hM : M.Obeys (fun _ => True) (fun _ => False)) {s : UInt8} {members : Members δ}
    (hconstruct : construct M s = .ok members) (u : σ) :
    (∀ n events i, ((runCalls M thread n (externalEvents events)).run
      (World.start members u)).1 ≠ .error (.outOfRange i)) ↔
    (M.maps.IsExtended → s < M.maxStates ∨ M.maxStates = 0) := by
  rw [construct_ok hconstruct]
  constructor
  · intro h hext
    by_cases hs : s < M.maxStates
    · exact .inl hs
    · by_cases hmax : M.maxStates = 0
      · exact .inr hmax
      · exact absurd (first_access M hself hext hs hmax u) (h 2 [(0, none)] s)
  · intro h n events i hrun
    have hstart : (World.start { currentState := s } u : World σ δ).members.InRange M := ⟨rfl, h⟩
    exact wp_error (runCalls_inRange hM hself n events hstart) (Prod.ext hrun rfl) i rfl

/-- Two extended states; the guard of the second posts an event for the first
before it refuses. -/
def refusing : Machine Nat Nat where
  maxStates := 2
  maps := .flat none (some [{ state := some fun _ => .ret () },
    { state := some fun _ => .ret (), guard := some fun d => .internalEvent 0 d (.ret false) }])
  maps_size := by simp [StateMaps.HasSize]

theorem refusing_obeys : refusing.Obeys (fun _ => True) (fun _ => False) where
  rows := by
    intro row hrow
    simp only [refusing, StateMaps.rows, Option.getD_none, Option.getD_some, List.map_nil,
      List.nil_append, List.mem_cons, List.not_mem_nil, or_false] at hrow
    obtain rfl | rfl := hrow
    · constructor <;> simp [Callback.Only]
    · constructor <;> simp [Callback.Only]
  signals := by constructor <;> simp [refusing, Callback.Only]

theorem access_in_range_refusing :
    construct refusing 1 = .ok { currentState := 1 } ∧
      ∀ n events i, ((runCalls refusing 0 n (externalEvents events)).run
        (World.start { currentState := 1 } 0)).1 ≠ .error (.outOfRange i) := by
  have hself : refusing.RunsOn 0 := by simp [Machine.RunsOn, refusing]
  have hconstruct : construct refusing 1 = .ok { currentState := 1 } := rfl
  have hrange : refusing.maps.IsExtended → (1 : UInt8) < refusing.maxStates ∨
      refusing.maxStates = 0 := fun _ => .inl (by decide)
  exact ⟨hconstruct, (access_in_range refusing hself refusing_obeys hconstruct 0).mpr hrange⟩

/-- The constructor accepts state 7 of a machine of two states; its first
event then reads row 7. -/
theorem access_out_of_range :
    refusing.RunsOn 0 ∧ refusing.Obeys (fun _ => True) (fun _ => False) ∧
      construct refusing 7 = .ok { currentState := 7 } ∧
      ((runCalls refusing 0 2 (externalEvents [(0, none)])).run
        (World.start { currentState := 7 } 0)).1 = .error (.outOfRange 7) :=
  ⟨by simp [Machine.RunsOn, refusing], refusing_obeys, rfl, rfl⟩

end ActiveFsm
