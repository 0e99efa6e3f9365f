import ActiveFsm.Propagate
import ActiveFsm.Service
import ActiveFsm.Slot

/-!
# ActiveFsm.Descent

When the engines end.  State functions post internal events, and `StateEngine`
does not return before none is pending; so a machine whose internal events lead
in a circle hangs its thread.  Where they lead down, from states of higher to
states of lower rank, it does not: not in a single call, and not in any
interleaving of threads that use the machine.
-/

namespace ActiveFsm

open Proc Forest

variable {σ δ : Type}

/-! ## Machines that lead down -/

/-- The callback posts internal events only for states in `ok`, and raises no
external one. -/
def Callback.PostsTo (ok : UInt8 → Prop) {ρ : Type} : Callback σ δ ρ → Prop
  | ret _ => True
  | fail => True
  | update _ k => ∀ s u, (k s u).PostsTo ok
  | internalEvent newState _ k => ok newState ∧ k.PostsTo ok
  | call _ _ => False

/-- The state function of `s`, in the map that the machine's engine uses. -/
def StateMaps.stateFunction (s : UInt8) :
    StateMaps σ δ → Option (EventPtr δ → Callback σ δ Unit)
  | flat (some rows) _ => rows[s.toNat]?.bind fun row => row.state
  | flat none (some rows) => rows[s.toNat]?.bind fun row => row.state
  | flat none none => none
  | hsm (some rows) => rows[s.toNat]?.bind fun row => row.state
  | hsm none => none

/-- Only state functions post internal events, and only for states of lower
rank; no callback raises an external event. -/
structure Machine.Descends (M : Machine σ δ) (rank : UInt8 → Nat) : Prop where
  quiet : M.Obeys (fun hook => hook = .state) fun _ => False
  state : ∀ s, ∀ f ∈ M.maps.stateFunction s, ∀ d, (f d).PostsTo fun t => rank t < rank s

/-! ## What is pending -/

/-- No event is pending. -/
def Members.Quiet (m : Members δ) : Prop := m.SlotConsistent ∧ m.eventGenerated = false

/-- If an event is pending, it is for a state of rank less than `k`. -/
def Members.Below (rank : UInt8 → Nat) (k : Nat) (m : Members δ) : Prop :=
  m.SlotConsistent ∧ (m.eventGenerated = true → rank m.newState < k)

/-- With no event pending any bound holds. -/
theorem Members.Quiet.below {m : Members δ} (h : m.Quiet) (rank : UInt8 → Nat) (k : Nat) :
    m.Below rank k := by
  refine ⟨h.1, fun hgen => ?_⟩
  rw [h.2] at hgen
  contradiction

/-- An event that is consumed is not pending. -/
theorem quiet_consume (self : Frame δ) (w : World σ δ) : (w.consume self).members.Quiet :=
  ⟨rfl, rfl⟩

/-- Hooks that post nothing leave a property of the members alone. -/
theorem survives_members {self : Frame δ} {nested : Call δ → Fsm σ δ Unit} (hook : Hook)
    (P : Members δ → Prop) (hhook : hook ≠ .state) :
    Survives self nested (hook = .state) False (fun w : World σ δ => P w.members)
      fun _ _ => True :=
  survives_of_members (fun _ _ => trivial) fun h => absurd h hhook

section Engines

variable {M : Machine σ δ} {self : Frame δ} {nested : Call δ → Fsm σ δ Unit} {rank : UInt8 → Nat}
  {k : Nat} {w : World σ δ}

/-- A state function leaves an event for a state of lower rank, or none. -/
theorem Callback.run_below {ρ : Type} {cb : Callback σ δ ρ}
    (hcb : cb.PostsTo fun t => rank t < k) (hw : w.members.Below rank k) :
    (cb.run self nested).wp (fun _ w' => w'.members.Below rank k) (fun _ _ => True) w := by
  induction cb generalizing w with
  | ret r => exact hw
  | fail => trivial
  | update f k ih => exact ih _ _ (hcb _ _) hw
  | internalEvent t d k ih =>
      exact ih hcb.2 ⟨slotConsistent_post w t d, fun _ => hcb.1⟩
  | call c k ih => exact hcb.elim

/-- The last two statements of a dispatch. -/
theorem finish_below (hM : M.Obeys (fun hook => hook = .state) fun _ => False) {s t : UInt8}
    {state : Option (EventPtr δ → Callback σ δ Unit)} {d : EventPtr δ}
    (hstate : ∀ f ∈ state, (f d).PostsTo fun t => rank t < k) (hw : w.members.Quiet) :
    (runState self nested t state d).wp
      (fun _ w' => (onTransition M self nested s w'.members.currentState).wp
        (fun _ w'' => w''.members.Below rank k) (fun _ _ => True) w') (fun _ _ => True) w := by
  cases state with
  | none => trivial
  | some f =>
      rw [runState, invokeStateAction, bind_eq, wp_bind, wp_record]
      have hnote : (w.note self (.action t d)).members.Below rank k := hw.below rank k
      refine wp_then (Callback.run_below (hstate f rfl) hnote) fun _ w' hw' => ?_
      exact onTransition_wp (survives_members .onTransition (fun m => m.Below rank k) (by decide))
        (hM.signals.onTransition s _) hw'

/-- No event is posted while the state changes. -/
theorem quiet_moves : MoveInvariant self nested (fun hook => hook = .state) (fun _ => False)
    (fun w : World σ δ => w.members.Quiet) fun _ _ => True where
  survives hook hmove := survives_members hook (fun m => m.Quiet) fun hstate => by
    rw [hstate] at hmove
    exact hmove
  note _ _ _ hw := hw
  halts _ _ _ _ := trivial
  setCurrentState _ _ hw := hw

/-- A guard that posts nothing. -/
theorem guard_quiet {row : StateMapRowEx σ δ}
    (hrow : row.Obeys (fun hook => hook = .state) fun _ => False) {s : UInt8} {d : EventPtr δ}
    (hd : d.isSome = true) (hw : w.members.Quiet) :
    (evalGuard self nested s row.guard d).wp (fun _ w' => w'.members.Quiet) (fun _ _ => True) w :=
  evalGuard_wp (I := fun w => w.members.Quiet)
    (survives_members .guard (fun m => m.Quiet) (by decide)) (fun f hf => hrow.guard f hf d) hd hw
    (fun _ _ hw' => hw') hw

/-! ## One event -/

/-- One turn of the plain engine leads down. -/
theorem dispatchPlain_below (hM : M.Descends rank) {rows : List (StateMapRow σ δ)}
    {rowsEx : Option (List (StateMapRowEx σ δ))} (hmaps : M.maps = .flat (some rows) rowsEx) :
    (dispatchPlain M self nested rows).wp
      (fun _ w' => w'.members.Below rank (rank w.members.newState)) (fun _ _ => True) w := by
  simp only [dispatchPlain, bind_eq, wp_bind, wp_getNewState]
  refine wp_assertTrue (fun _ => ?_) fun _ => trivial
  refine wp_rowAt (fun row hrow => ?_) fun _ => trivial
  have hstate := hM.state w.members.newState
  rw [hmaps, StateMaps.stateFunction, hrow, Option.bind_some] at hstate
  simp only [wp_consumeEvent, wp_getCurrentState, wp_setCurrentState, consume_members]
  exact finish_below hM.quiet (fun f hf => hstate f hf _) (quiet_consume self w)

/-- One turn of the extended engine leads down. -/
theorem dispatchEx_below (hM : M.Descends rank) {rows : List (StateMapRowEx σ δ)}
    (hmaps : M.maps = .flat none (some rows)) (hw : w.members.SlotConsistent)
    (hgen : w.members.eventGenerated = true) :
    (dispatchEx M self nested rows).wp
      (fun _ w' => w'.members.Below rank (rank w.members.newState)) (fun _ _ => True) w := by
  obtain ⟨-, hrows⟩ := hM.quiet.extended hmaps
  simp only [dispatchEx, bind_eq, wp_bind, wp_getNewState, wp_getCurrentState]
  refine wp_assertTrue (fun _ => ?_) fun _ => trivial
  refine wp_rowAt (fun row hrow => ?_) fun _ => trivial
  have hstate := hM.state w.members.newState
  rw [hmaps, StateMaps.stateFunction, hrow, Option.bind_some] at hstate
  refine wp_rowAt (fun current hcurrent => ?_) fun _ => trivial
  have hobeys := hrows row (List.mem_of_getElem? hrow)
  have hd : w.members.pEventData.isSome = true := hw.isSome hgen
  rw [wp_consumeEvent]
  refine wp_then (guard_quiet hobeys hd (quiet_consume self w)) fun g w₁ hw₁ => ?_
  cases g with
  | false => exact hw₁.below _ _
  | true =>
      simp only [transitionEx, bind_eq, wp_bind, wp_getCurrentState, if_true]
      have hcurrent' := hrows current (List.mem_of_getElem? hcurrent)
      refine wp_then (moveEx_wp quiet_moves hM.quiet hobeys hcurrent' hd hw₁) fun _ w₂ hw₂ => ?_
      exact finish_below hM.quiet (fun f hf => hstate f hf _) hw₂

/-- One turn of the hierarchical engine leads down. -/
theorem dispatchHSM_below (hM : M.Descends rank) {rows : List (StateMapRowHSM σ δ)}
    (hmaps : M.maps = .hsm (some rows)) (hw : w.members.SlotConsistent)
    (hgen : w.members.eventGenerated = true) :
    (dispatchHSM M self nested rows).wp
      (fun _ w' => w'.members.Below rank (rank w.members.newState)) (fun _ _ => True) w := by
  obtain ⟨hlen, hrows⟩ := hM.quiet.hierarchical hmaps
  simp only [dispatchHSM, bind_eq, wp_bind, wp_getNewState]
  refine wp_assertTrue (fun _ => ?_) fun _ => trivial
  refine wp_rowAt (fun row hrow => ?_) fun _ => trivial
  have hstate := hM.state w.members.newState
  rw [hmaps, StateMaps.stateFunction, hrow, Option.bind_some] at hstate
  have hobeys := hrows row (List.mem_of_getElem? hrow)
  have hd : w.members.pEventData.isSome = true := hw.isSome hgen
  rw [wp_consumeEvent]
  refine wp_then (guard_quiet hobeys hd (quiet_consume self w)) fun g w₁ hw₁ => ?_
  cases g with
  | false => exact hw₁.below _ _
  | true =>
      simp only [transitionHSM, bind_eq, wp_bind, wp_getCurrentState, if_true]
      refine wp_then (moveHSM_wp hlen quiet_moves hM.quiet hrows hd _ _ hw₁) fun _ w₂ hw₂ => ?_
      exact finish_below hM.quiet (fun f hf => hstate f hf _) hw₂

/-! ## The engines themselves

Inside a dispatch no fuel is used: whatever it halts with is something else. -/

theorem fault_ne_outOfFuel (site : Site) : Stop.fault site ≠ .outOfFuel := by simp

/-- An assertion does not run out of turns. -/
theorem avoids_assertTrue (site : Site) (c : Bool) :
    (assertTrue site c : Fsm σ δ Unit).Avoids .outOfFuel := by
  cases c with
  | true => trivial
  | false => exact fault_ne_outOfFuel site

/-- A subscript, and what is done with the row. -/
theorem avoids_rowAt {α β : Type} {rows : List α} {i : UInt8} {g : α → Fsm σ δ β}
    (hg : ∀ row ∈ rows, (g row).Avoids .outOfFuel) :
    ((rowAt rows i).bind g).Avoids .outOfFuel := by
  rw [rowAt, subscript_eq]
  cases hrow : rows[i.toNat]? with
  | some row => exact hg row (List.mem_of_getElem? hrow)
  | none => simp [orHalt, Avoids]

/-- Nor does a callback that raises nothing. -/
theorem Callback.run_avoids {ρ : Type} {posts : Prop} {cb : Callback σ δ ρ}
    (hcb : cb.Only posts False) : (cb.run self nested).Avoids .outOfFuel := by
  induction cb with
  | ret r => trivial
  | fail => exact fault_ne_outOfFuel .user
  | update f k ih => exact fun w => ih _ _ (hcb _ _)
  | internalEvent t d k ih => exact fun _ => ih hcb.2
  | call c k ih => exact hcb.1.elim

section Avoids

variable {posts : Hook → Prop} (hM : M.Obeys posts fun _ => False)

/-- A guard that raises nothing. -/
theorem evalGuard_avoids {row : StateMapRowEx σ δ} (hrow : row.Obeys posts fun _ => False)
    (s : UInt8) (d : EventPtr δ) :
    (evalGuard self nested s row.guard d).Avoids .outOfFuel := by
  cases hguard : row.guard with
  | none => trivial
  | some f =>
      exact fun _ => (avoids_assertTrue _ _).bind fun _ =>
        Callback.run_avoids (hrow.guard f hguard d)

/-- An entry action that raises nothing. -/
theorem runEntry_avoids {row : StateMapRowEx σ δ} (hrow : row.Obeys posts fun _ => False)
    (s : UInt8) (d : EventPtr δ) :
    (runEntry self nested s row.entry d).Avoids .outOfFuel := by
  cases hentry : row.entry with
  | none => trivial
  | some f =>
      exact fun _ => (avoids_assertTrue _ _).bind fun _ =>
        Callback.run_avoids (hrow.entry f hentry d)

/-- An exit action that raises nothing. -/
theorem runExit_avoids {row : StateMapRowEx σ δ} (hrow : row.Obeys posts fun _ => False)
    (s : UInt8) : (runExit self nested s row.exit).Avoids .outOfFuel := by
  cases hexit : row.exit with
  | none => trivial
  | some c => exact fun _ => Callback.run_avoids (hrow.exit c hexit)

/-- A state action that raises nothing. -/
theorem runState_avoids {row : StateMapRowEx σ δ} (hrow : row.Obeys posts fun _ => False)
    (s : UInt8) (d : EventPtr δ) :
    (runState self nested s row.state d).Avoids .outOfFuel := by
  cases hstate : row.state with
  | none => exact fault_ne_outOfFuel .nullState
  | some f => exact fun _ => Callback.run_avoids (hrow.state f hstate d)

include hM

theorem onTransition_avoids (s t : UInt8) : (onTransition M self nested s t).Avoids .outOfFuel :=
  fun _ => Callback.run_avoids (hM.signals.onTransition s t)

theorem onEntry_avoids (s : UInt8) : (onEntry M self nested s).Avoids .outOfFuel :=
  fun _ => Callback.run_avoids (hM.signals.onEntry s)

theorem onExit_avoids (s : UInt8) : (onExit M self nested s).Avoids .outOfFuel :=
  fun _ => Callback.run_avoids (hM.signals.onExit s)

/-- The end of a turn. -/
theorem finish_avoids {row : StateMapRowEx σ δ} (hrow : row.Obeys posts fun _ => False)
    (s t : UInt8) (d : EventPtr δ) :
    ((runState self nested t row.state d).bind fun _ =>
      getCurrentState.bind fun cur => onTransition M self nested s cur).Avoids .outOfFuel :=
  (runState_avoids hrow t d).bind fun _ _ => onTransition_avoids hM s _

/-- A turn of the plain engine. -/
theorem dispatchPlain_avoids {rows : List (StateMapRow σ δ)}
    (hrows : ∀ row ∈ rows, row.toEx.Obeys posts fun _ => False) :
    (dispatchPlain M self nested rows).Avoids .outOfFuel := by
  refine fun _ => (avoids_assertTrue _ _).bind fun _ => avoids_rowAt fun row hrow => ?_
  exact fun _ _ _ _ => finish_avoids hM (hrows row hrow) _ _ _

/-- The exit and the entry of the extended engine. -/
theorem moveEx_avoids {row current : StateMapRowEx σ δ} (hrow : row.Obeys posts fun _ => False)
    (hcur : current.Obeys posts fun _ => False) (t x : UInt8) (d : EventPtr δ) :
    (moveEx M self nested t x current.exit row.entry d).Avoids .outOfFuel := by
  intro v v'
  show Avoids _ (ite _ _ _)
  split
  · refine (runExit_avoids hcur x).bind fun _ _ => (onExit_avoids hM _).bind fun _ _ _ => ?_
    refine (runEntry_avoids hrow t d).bind fun _ _ => (onEntry_avoids hM _).bind fun _ _ => ?_
    exact avoids_assertTrue _ _
  · exact fun _ => trivial

/-- A turn of the extended engine. -/
theorem dispatchEx_avoids {rows : List (StateMapRowEx σ δ)}
    (hrows : ∀ row ∈ rows, row.Obeys posts fun _ => False) :
    (dispatchEx M self nested rows).Avoids .outOfFuel := by
  refine fun _ => (avoids_assertTrue _ _).bind fun _ => avoids_rowAt fun row hrow _ => ?_
  refine avoids_rowAt fun current hcur _ => (evalGuard_avoids (hrows row hrow) _ _).bind fun g => ?_
  cases g with
  | false => trivial
  | true =>
      exact fun _ => (moveEx_avoids hM (hrows row hrow) (hrows current hcur) _ _ _).bind fun _ =>
        finish_avoids hM (hrows row hrow) _ _ _

omit hM

variable {rows : List (StateMapRowHSM σ δ)}

/-- The walks have a fuel of their own, and assert at its end. -/
theorem lcaInner_avoids (a : UInt8) (left : Nat) (b : UInt8) :
    (lcaInner M rows a left b).Avoids .outOfFuel := by
  induction left generalizing b with
  | zero =>
      unfold lcaInner
      split
      · exact fault_ne_outOfFuel .lcaDepth
      · trivial
  | succ left ih =>
      unfold lcaInner
      split
      · dsimp only
        split
        · trivial
        · exact avoids_rowAt fun row _ => ih row.parentState
      · trivial

/-- The same of the outer walk. -/
theorem lcaOuter_avoids (b : UInt8) (left : Nat) (a : UInt8) :
    (lcaOuter M rows b left a).Avoids .outOfFuel := by
  induction left generalizing a with
  | zero =>
      unfold lcaOuter
      split
      · exact fault_ne_outOfFuel .lcaDepth
      · trivial
  | succ left ih =>
      unfold lcaOuter
      split
      · refine (lcaInner_avoids a maxHsmDepth b).bind fun found => ?_
        split
        · trivial
        · exact avoids_rowAt fun row _ => ih row.parentState
      · trivial

/-- The same of the entry chain. -/
theorem collectEntryChain_avoids (lca : UInt8) (left : Nat) (s : UInt8) :
    (collectEntryChain M rows lca left s).Avoids .outOfFuel := by
  induction left generalizing s with
  | zero =>
      unfold collectEntryChain
      split
      · exact fault_ne_outOfFuel .entryDepth
      · trivial
  | succ left ih =>
      unfold collectEntryChain
      split
      · exact avoids_rowAt fun row _ => (ih row.parentState).bind fun _ => trivial
      · trivial

include hM

variable (hrows : ∀ row ∈ rows, row.toStateMapRowEx.Obeys posts fun _ => False)

include hrows

/-- The same of the exits. -/
theorem exitWalk_avoids (lca : UInt8) (left : Nat) (s : UInt8) :
    (exitWalk M self nested rows lca left s).Avoids .outOfFuel := by
  induction left generalizing s with
  | zero =>
      unfold exitWalk
      split
      · exact fault_ne_outOfFuel .exitDepth
      · trivial
  | succ left ih =>
      unfold exitWalk
      split
      · refine avoids_rowAt fun row hrow => (runExit_avoids (hrows row hrow) s).bind fun _ => ?_
        exact (onExit_avoids hM s).bind fun _ => ih row.parentState
      · trivial

theorem each_enterState_avoids (d : EventPtr δ) (chain : List UInt8) :
    (each (enterState M self nested rows d) chain).Avoids .outOfFuel := by
  induction chain with
  | nil => trivial
  | cons s chain ih =>
      refine Avoids.bind ?_ fun _ => ih
      exact avoids_rowAt fun row hrow =>
        (runEntry_avoids (hrows row hrow) s d).bind fun _ => onEntry_avoids hM s

/-- The exit and the entry of the hierarchical engine. -/
theorem moveHSM_avoids (s t : UInt8) (d : EventPtr δ) :
    (moveHSM M self nested rows s t d).Avoids .outOfFuel := by
  unfold moveHSM
  split
  · refine (lcaOuter_avoids t maxHsmDepth s).bind fun lca => ?_
    refine (exitWalk_avoids hM hrows lca maxHsmDepth s).bind fun _ => ?_
    refine (collectEntryChain_avoids lca maxHsmDepth t).bind fun chain _ => ?_
    exact (each_enterState_avoids hM hrows d chain.reverse).bind fun _ _ => avoids_assertTrue _ _
  · exact fun _ => trivial

/-- A turn of the hierarchical engine. -/
theorem dispatchHSM_avoids : (dispatchHSM M self nested rows).Avoids .outOfFuel := by
  refine fun _ => (avoids_assertTrue _ _).bind fun _ => avoids_rowAt fun row hrow _ => ?_
  refine (evalGuard_avoids (hrows row hrow) _ _).bind fun g => ?_
  cases g with
  | false => trivial
  | true =>
      exact fun _ => (moveHSM_avoids hM hrows _ _ _).bind fun _ =>
        finish_avoids hM (hrows row hrow) _ _ _

end Avoids

/-! ## Every event that follows -/

/-- The engine returns, given fuel for the rank of the event it begins with. -/
theorem stateEngine_settles (hM : M.Descends rank) {n : Nat} (hw : w.members.SlotConsistent)
    (hn : rank w.members.newState < n) :
    (stateEngine M self nested (n + 1)).wp
      (fun _ w' => w'.members.SlotConsistent ∧ w'.members.eventGenerated = false)
      (fun e _ => e ≠ .outOfFuel) w := by
  have hloop (body : Fsm σ δ Unit) (havoids : body.Avoids .outOfFuel)
      (hbody : ∀ w : World σ δ, w.members.SlotConsistent → w.members.eventGenerated = true →
        body.wp (fun _ w' => w'.members.Below rank (rank w.members.newState))
          (fun _ _ => True) w) :
      (loop .outOfFuel (fun w => w.members.eventGenerated) body (n + 1)).wp
        (fun _ w' => w'.members.SlotConsistent ∧ w'.members.eventGenerated = false)
        (fun e _ => e ≠ .outOfFuel) w :=
    loop_wp_variant (fun w : World σ δ => rank w.members.newState)
      (fun w hw hgen => havoids.wp (hbody w hw hgen)) n w hw fun _ => hn
  unfold stateEngine
  split
  · next rows rowsEx hmaps =>
      obtain ⟨-, hrows⟩ := hM.quiet.plain hmaps
      exact hloop _ (dispatchPlain_avoids hM.quiet hrows) fun _ _ _ => dispatchPlain_below hM hmaps
  · next rows hmaps =>
      obtain ⟨-, hrows⟩ := hM.quiet.extended hmaps
      exact hloop _ (dispatchEx_avoids hM.quiet hrows) fun _ => dispatchEx_below hM hmaps
  · exact fault_ne_outOfFuel .stateMap
  · next rows hmaps =>
      obtain ⟨-, hrows⟩ := hM.quiet.hierarchical hmaps
      exact hloop _ (dispatchHSM_avoids hM.quiet hrows) fun _ => dispatchHSM_below hM hmaps
  · exact fault_ne_outOfFuel .stateMap

/-- An external event is dealt with in as many turns as its rank allows. -/
theorem externalEventImpl_settles (hM : M.Descends rank) {n : Nat} (t : UInt8) (d : EventPtr δ)
    (hn : rank t < n) (w : World σ δ) :
    (externalEventImpl M self nested (n + 1) t d).wp (fun _ w' => w'.members.Quiet)
      (fun e _ => e ≠ .outOfFuel) w := by
  rw [externalEventImpl, bind_eq, wp_bind, wp_record, bind_eq, wp_bind, wp_internalEvent, bind_eq,
    wp_bind]
  exact wp_then (stateEngine_settles hM (slotConsistent_post _ t d) hn) fun _ _ hw' => hw'

end Engines

/-! ## Calls -/

/-- The lookup of the call's target comes to an end. -/
def Call.Ends (M : Machine σ δ) (n : Nat) (c : Call δ) : Prop :=
  ∀ s, c.target M n s ≠ .error .outOfFuel

/-- Where a message is a call, its lookup does. -/
def Message.Ends (M : Machine σ δ) (n : Nat) (m : Message δ) : Prop :=
  ∀ f, m.delegate = .event f → (Call.event f).Ends M n

/-- In a hierarchical transition map, no states that leave the event to their
parents lie on a circle of parents. -/
def Call.Acyclic (M : Machine σ δ) (c : Call δ) : Prop :=
  ∀ f, c = .event f → f.hsm = true → ∀ a, ¬Relation.TransGen (Link (propagateLink M f)) a a

/-- No state is on the way up twice, and there are 256. -/
theorem path_length_le_size {next : UInt8 → Option UInt8} {s : UInt8} {l : List UInt8}
    (h : Path next s l) : l.length ≤ UInt8.size := by
  have hinjective : Function.Injective UInt8.toFin := fun _ _ => UInt8.toFin_inj.mp
  have hcard := ((List.nodup_map_iff hinjective).mpr h.nodup).length_le_card
  rwa [List.length_map, Fintype.card_fin] at hcard

/-- Then the lookup of the target ends, given fuel for the way up. -/
theorem Call.Acyclic.ends {M : Machine σ δ} {c : Call δ} (hc : c.Acyclic M) {n : Nat}
    (hn : UInt8.size < n) : c.Ends M n := by
  have hlookup (f : EventFunction δ) (heq : c = .event f) (s : UInt8) :
      lookupTransition M n f s ≠ .error .outOfFuel := by
    unfold lookupTransition
    cases hentry : f.transitions[s.toNat]? with
    | none => simp [subscript_eq, hentry, Bind.bind, Except.bind]
    | some entry =>
        rw [subscript_ok hentry, ok_bind]
        split
        · next hhsm =>
            have hfinite : Finite UInt8 :=
              Finite.of_injective UInt8.toFin fun _ _ => UInt8.toFin_inj.mp
            obtain ⟨l, hl⟩ := Path.exists_of_acyclic fun b (_ : Relation.ReflTransGen _ s b) =>
              hc f heq hhsm b
            exact resolve_ends hl hentry (Nat.lt_of_le_of_lt (path_length_le_size hl) hn)
        · simp
  have hmap (f : EventFunction δ) (heq : c = .event f) (s : UInt8) :
      f.mapTarget M n s ≠ .error .outOfFuel := by
    unfold EventFunction.mapTarget
    split
    · exact hlookup f heq s
    · simp
  intro s
  cases c with
  | externalEvent t d => simp [Call.target]
  | event f =>
      cases hparent : f.parentTransition with
      | none =>
          simp only [Call.target, hparent]
          exact hmap f rfl s
      | some p =>
          simp only [Call.target, hparent]
          split
          · simp
          · exact hmap f rfl s

/-- The transition map of a flat machine has no parents. -/
theorem acyclic_of_flat {M : Machine σ δ} {f : EventFunction δ} (hf : f.hsm = false) :
    (Call.event f).Acyclic M := by
  rintro g ⟨⟩ hg
  rw [hf] at hg
  contradiction

section Calls

variable {M : Machine σ δ} {thread : ThreadId} {rank : UInt8 → Nat} {n : Nat} {w : World σ δ}

/-- A message is served to its end. -/
theorem invoke_settles (hself : M.RunsOn thread) (hM : M.Descends rank) (hrank : ∀ s, rank s < n)
    {m : Message δ} (hm : m.Ends M (n + 1)) (hw : w.members.Quiet) :
    (invoke M thread (n + 2) m).wp (fun _ w' => w'.members.Quiet) (fun e _ => e ≠ .outOfFuel)
      w := by
  obtain ⟨sender, delegate⟩ := m
  cases delegate with
  | externalEventImpl t d => exact externalEventImpl_settles hM t d (hrank t) w
  | event f =>
      let self : Frame δ := ⟨thread, sender.call⟩
      refine call_wp_of hself (fun t _ => ?_) fun e he heq => hm f rfl _ (heq ▸ he)
      refine externalEvent_wp_of hself (fun _ => hw) ?_ fun _ _ => ?_
      · have hsub := hM.quiet.signals.onCannotHappen w.members.currentState
        have havoids : (onCannotHappen M self (call M self (n + 1))
            w.members.currentState).Avoids .outOfFuel := fun _ => Callback.run_avoids hsub
        refine wp_then (havoids.wp (Q := fun _ _ => True) ?_) fun _ _ _ =>
          fault_ne_outOfFuel .cannotHappen
        exact onCannotHappen_wp (survives_members .onCannotHappen (fun _ => True) (by decide)) hsub
          trivial
      · exact wp_then (stateEngine_settles hM (slotConsistent_post _ t _) (hrank t)) fun _ _ hw' =>
          hw'

/-- What a call queues is the call itself, or an event. -/
theorem ends_of_queues {c : Call δ} (hc : c.Ends M n) {sender : Frame δ} {d : Delegate δ}
    (hd : c.Queues d) : (⟨sender, d⟩ : Message δ).Ends M n := by
  intro g hg
  dsimp only at hg
  subst hg
  cases c with
  | externalEvent t d => exact hd.elim
  | event f =>
      have heq : g = f := hd
      rw [heq]
      exact hc

/-- **No message hangs the machine.**  Where the internal events of a machine
lead down, no callback raises an external event, and no transition map goes
round in a circle of parents, its thread gets through every message, in every
interleaving of any threads that use it and whatever its queue drops: it does
not go round in an engine forever, and when it waits for the next message no
event is pending.  An engine that begins with an event for a state of rank `r`
is out after at most `r + 1` events. -/
theorem active_settles (hM : M.thread = some thread) (hdown : M.Descends rank)
    (hrank : ∀ s, rank s < n) (hn : UInt8.size ≤ n) {start : World σ δ}
    (hnew : start.queue.IsNew) (hquiet : start.members.Quiet) {calls : ThreadId → List (Call δ)}
    (hown : calls thread = []) (hcalls : ∀ t, ∀ c ∈ calls t, c.IsPlain ∧ c.Acyclic M)
    {S : System σ δ}
    (h : Reaches M thread (n + 2) (fun _ _ => True) { world := start, pending := calls } S) :
    S.running thread ≠ Proc.halt .outOfFuel ∧
      (S.running thread = ret () → S.world.members.eventGenerated = false) ∧
      ∀ (self : Frame δ) (nested : Call δ → Fsm σ δ Unit) (w : World σ δ),
        w.members.SlotConsistent →
        (stateEngine M self nested (rank w.members.newState + 1 + 1)).wp
          (fun _ w' => w'.members.eventGenerated = false) (fun e _ => e ≠ .outOfFuel) w := by
  have hends : ∀ t, ∀ c ∈ calls t, c.Ends M (n + 1) := fun t c hc =>
    (hcalls t c hc).2.ends (by omega)
  have hserves : Serves M thread (n + 2) (Message.Ends M (n + 1))
      (fun _ w => w.members.Quiet) (fun _ e => e ≠ .outOfFuel) :=
    { serve := fun _ _ _ hm hw => invoke_settles (runsOn_of_thread hM) hdown hrank hm hw
      same := fun _ w w' hw hsame => by
        rw [← hsame.1]
        exact hw }
  have hinitial : System.Serving thread (Message.Ends M (n + 1)) (fun _ w => w.members.Quiet)
      (fun _ e => e ≠ .outOfFuel) { world := start, pending := calls } :=
    .initial hnew hown
      (fun t c hc => ⟨(hcalls t c hc).1, fun _ => ends_of_queues (hends t c hc)⟩) hquiet
  have hserving := h.serving hM hserves hinitial
  refine ⟨fun hfuel => hserving.halted hfuel rfl, fun hidle => (hserving.idle hidle).2, ?_⟩
  intro self nested w hw
  exact wp_then (stateEngine_settles hdown hw (Nat.lt_succ_self _)) fun _ _ h => h.2

end Calls

end ActiveFsm
