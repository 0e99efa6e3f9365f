import ActiveFsm.Event

/-!
# ActiveFsm.Invariant

Assertions that every action of an engine preserves.  Many properties of a
run do not depend on where in a dispatch the engine is: each callback and
each signal, the consumption of the event and the change of state preserve
them.  `EngineInvariant` lists these actions, and the rules below carry such
an assertion through the three engines and through nested external events.

What a piece of user code may do is stated by the kind of hook it is
attached to (`Machine.Obeys`).
-/

namespace ActiveFsm

open Proc

variable {σ δ : Type}

/-! ## Policies for user code -/

/-- The places where user code runs. -/
inductive Hook where
  | guard
  | exit
  | entry
  | state
  | onExit
  | onEntry
  | onTransition
  | onCannotHappen
  deriving DecidableEq, Repr

/-- The hooks outside the guard and the change of state. -/
def Hook.IsAction : Hook → Prop
  | .state | .onTransition | .onCannotHappen => True
  | _ => False

section Obeys

variable (posts raises : Hook → Prop)

/-- The code of a row posts internal events only from the hooks in `posts` and
raises external ones only from those in `raises`. -/
structure StateMapRowEx.Obeys (row : StateMapRowEx σ δ) : Prop where
  state : ∀ f ∈ row.state, ∀ d, (f d).Only (posts .state) (raises .state)
  guard : ∀ f ∈ row.guard, ∀ d, (f d).Only (posts .guard) (raises .guard)
  entry : ∀ f ∈ row.entry, ∀ d, (f d).Only (posts .entry) (raises .entry)
  exit : ∀ c ∈ row.exit, c.Only (posts .exit) (raises .exit)

structure Signals.Obeys (signals : Signals σ δ) : Prop where
  onTransition : ∀ s t, (signals.onTransition s t).Only (posts .onTransition) (raises .onTransition)
  onEntry : ∀ s, (signals.onEntry s).Only (posts .onEntry) (raises .onEntry)
  onExit : ∀ s, (signals.onExit s).Only (posts .onExit) (raises .onExit)
  onCannotHappen : ∀ s,
    (signals.onCannotHappen s).Only (posts .onCannotHappen) (raises .onCannotHappen)

/-- The plain row as an extended one: `STATE_MAP_ENTRY_EX` of its state. -/
def StateMapRow.toEx (row : StateMapRow σ δ) : StateMapRowEx σ δ := { state := row.state }

/-- All rows of a class, in their extended form. -/
def StateMaps.rows : StateMaps σ δ → List (StateMapRowEx σ δ)
  | flat rows rowsEx => (rows.getD []).map StateMapRow.toEx ++ rowsEx.getD []
  | hsm rows => (rows.getD []).map StateMapRowHSM.toStateMapRowEx

/-- All user code of the machine keeps to the policy. -/
structure Machine.Obeys (M : Machine σ δ) : Prop where
  rows : ∀ row ∈ M.maps.rows, row.Obeys posts raises
  signals : M.signals.Obeys posts raises

end Obeys

/-- A stricter policy is obeyed by obeying it. -/
theorem Machine.Obeys.mono {M : Machine σ δ} {posts posts' raises raises' : Hook → Prop}
    (h : M.Obeys posts raises) (hposts : ∀ hook, posts hook → posts' hook)
    (hraises : ∀ hook, raises hook → raises' hook) : M.Obeys posts' raises' where
  rows row hrow :=
    { state := fun f hf d => ((h.rows row hrow).state f hf d).mono (hposts _) (hraises _)
      guard := fun f hf d => ((h.rows row hrow).guard f hf d).mono (hposts _) (hraises _)
      entry := fun f hf d => ((h.rows row hrow).entry f hf d).mono (hposts _) (hraises _)
      exit := fun c hc => ((h.rows row hrow).exit c hc).mono (hposts _) (hraises _) }
  signals :=
    { onTransition := fun s t => (h.signals.onTransition s t).mono (hposts _) (hraises _)
      onEntry := fun s => (h.signals.onEntry s).mono (hposts _) (hraises _)
      onExit := fun s => (h.signals.onExit s).mono (hposts _) (hraises _)
      onCannotHappen := fun s => (h.signals.onCannotHappen s).mono (hposts _) (hraises _) }

/-- Every machine obeys the policy that allows everything. -/
theorem obeys_true (M : Machine σ δ) : M.Obeys (fun _ => True) (fun _ => True) where
  rows _ _ :=
    { state := fun _ _ _ => only_true _
      guard := fun _ _ _ => only_true _
      entry := fun _ _ _ => only_true _
      exit := fun _ _ => only_true _ }
  signals :=
    { onTransition := fun _ _ => only_true _
      onEntry := fun _ => only_true _
      onExit := fun _ => only_true _
      onCannotHappen := fun _ => only_true _ }

section Rows

variable {M : Machine σ δ} {posts raises : Hook → Prop} (hM : M.Obeys posts raises)

include hM

/-- The rows of a plain state map. -/
theorem Machine.Obeys.plain {rows : List (StateMapRow σ δ)}
    {rowsEx : Option (List (StateMapRowEx σ δ))} (hmaps : M.maps = .flat (some rows) rowsEx) :
    rows.length = M.maxStates.toNat ∧ ∀ row ∈ rows, row.toEx.Obeys posts raises := by
  have hsize := M.maps_size
  have hrows := hM.rows
  rw [hmaps] at hsize hrows
  refine ⟨hsize.1 rows rfl, fun row hrow => hrows _ ?_⟩
  exact List.mem_append_left _ (List.mem_map_of_mem hrow)

/-- The rows of an extended state map. -/
theorem Machine.Obeys.extended {rowsPlain : Option (List (StateMapRow σ δ))}
    {rows : List (StateMapRowEx σ δ)} (hmaps : M.maps = .flat rowsPlain (some rows)) :
    rows.length = M.maxStates.toNat ∧ ∀ row ∈ rows, row.Obeys posts raises := by
  have hsize := M.maps_size
  have hrows := hM.rows
  rw [hmaps] at hsize hrows
  exact ⟨hsize.2 rows rfl, fun row hrow => hrows row (List.mem_append_right _ hrow)⟩

/-- The rows of a hierarchical state map. -/
theorem Machine.Obeys.hierarchical {rows : List (StateMapRowHSM σ δ)}
    (hmaps : M.maps = .hsm (some rows)) :
    rows.length = M.maxStates.toNat ∧
      ∀ row ∈ rows, row.toStateMapRowEx.Obeys posts raises := by
  have hsize := M.maps_size
  have hrows := hM.rows
  rw [hmaps] at hsize hrows
  exact ⟨hsize rows rfl, fun row hrow => hrows _ (List.mem_map_of_mem hrow)⟩

end Rows

/-! ## The assertions -/

/-- The observations an engine makes between consuming an event and looking
for the next one; the data it hands to user code is never null. -/
def Obs.IsHook : Obs δ → Prop
  | .guard _ d | .entry _ d | .action _ d => d.isSome = true
  | .exit _ | .onExit _ | .onEntry _ | .onTransition _ _ => True
  | _ => False

/-- The observations of a change of state. -/
def Obs.IsMove : Obs δ → Prop
  | .entry _ d => d.isSome = true
  | .exit _ | .onExit _ | .onEntry _ => True
  | _ => False

/-- The hooks of a change of state. -/
def Hook.IsMove : Hook → Prop
  | .exit | .entry | .onExit | .onEntry => True
  | _ => False

/-- `I` is preserved by every hook of an engine. -/
structure HookInvariant (caller : Frame δ) (nested : Call δ → Fsm σ δ Unit)
    (posts raises : Hook → Prop) (I : World σ δ → Prop) (E : Stop → World σ δ → Prop) : Prop where
  survives : ∀ hook, Survives caller nested (posts hook) (raises hook) I E
  nullState : ∀ w, I w → E (.fault .nullState) w
  note : ∀ w o, o.IsHook → I w → I (w.note caller o)

/-- Does the machine run the extended flat engine? -/
def StateMaps.IsExtended : StateMaps σ δ → Prop
  | flat none (some _) => True
  | _ => False

/-- The rows of an extended map. -/
theorem StateMaps.IsExtended.rows {maps : StateMaps σ δ} (h : maps.IsExtended) :
    ∃ rows, maps = .flat none (some rows) := by
  unfold IsExtended at h
  split at h
  · next rows => exact ⟨rows, rfl⟩
  · exact h.elim

/-- A halt other than the ones an engine has to exclude one by one: the
assertions on the event data, and the subscripts. -/
def Stop.IsOther (e : Stop) : Prop :=
  e ≠ .fault .guardData ∧ e ≠ .fault .entryData ∧ ∀ i, e ≠ .outOfRange i

/-- `I` is preserved by every action of an engine, and implies what `E` asks
of the halts an engine can come to.  Of the subscripts only the one the
extended flat engine makes with the current state is not checked. -/
structure EngineInvariant (M : Machine σ δ) (caller : Frame δ) (nested : Call δ → Fsm σ δ Unit)
    (posts raises : Hook → Prop) (I : World σ δ → Prop) (E : Stop → World σ δ → Prop) : Prop where
  survives : ∀ hook, Survives caller nested (posts hook) (raises hook) I E
  halts : ∀ e w, e.IsOther → I w → E e w
  range : M.maps.IsExtended → ∀ w, I w →
    w.members.currentState < M.maxStates ∨ E (.outOfRange w.members.currentState) w
  data : ∀ w, I w → w.members.eventGenerated = true → w.members.pEventData.isSome = true
  consume : ∀ w, I w → w.members.eventGenerated = true → I (w.consume caller)
  setCurrentState : ∀ w s, I w → I (w.setCurrentState caller s)
  note : ∀ w o, o.IsHook → I w → I (w.note caller o)

/-- User code that raises no external event keeps what posts keep. -/
theorem survives_of_members {caller : Frame δ} {nested : Call δ → Fsm σ δ Unit} {posts : Prop}
    {P : Members δ → Prop} {E : Stop → World σ δ → Prop}
    (hfail : ∀ w, P w.members → E (.fault .user) w)
    (hpost : posts → ∀ (w : World σ δ) t d, P w.members → P (w.post caller t d).members) :
    Survives caller nested posts False (fun w => P w.members) E where
  user _ _ hw := hw
  fail := hfail
  post := hpost
  raise h := h.elim

/-- `I` is preserved by every hook of a change of state. -/
structure MoveHooks (caller : Frame δ) (nested : Call δ → Fsm σ δ Unit)
    (posts raises : Hook → Prop) (I : World σ δ → Prop) (E : Stop → World σ δ → Prop) : Prop where
  survives : ∀ hook, hook.IsMove → Survives caller nested (posts hook) (raises hook) I E
  note : ∀ w o, o.IsMove → I w → I (w.note caller o)

/-- `I` is preserved by every action of a change of state. -/
structure MoveInvariant (caller : Frame δ) (nested : Call δ → Fsm σ δ Unit)
    (posts raises : Hook → Prop) (I : World σ δ → Prop) (E : Stop → World σ δ → Prop) : Prop
    extends MoveHooks caller nested posts raises I E where
  halts : ∀ e w, e.IsOther → I w → E e w
  setCurrentState : ∀ w s, I w → I (w.setCurrentState caller s)

/-- User code that posts nothing leaves the members alone. -/
theorem fixed_survives {caller : Frame δ} {nested : Call δ → Fsm σ δ Unit} {m : Members δ}
    {posts : Prop} (hposts : ¬posts) :
    Survives caller nested posts False (fun w : World σ δ => w.members = m) fun _ _ => True :=
  survives_of_members (P := fun m' => m' = m) (fun _ _ => trivial) fun h => absurd h hposts

section Rules

variable {M : Machine σ δ} {self : Frame δ} {nested : Call δ → Fsm σ δ Unit}
  {posts raises : Hook → Prop} {I : World σ δ → Prop} {E : Stop → World σ δ → Prop}
  {w : World σ δ}

theorem isOther_outOfFuel : Stop.outOfFuel.IsOther := by simp [Stop.IsOther]

/-- A fault that is not about the data of a guard or an entry. -/
theorem isOther_fault {site : Site} (h₁ : site ≠ .guardData) (h₂ : site ≠ .entryData) :
    (Stop.fault site).IsOther := by simp [Stop.IsOther, h₁, h₂]

/-- An assertion other than those on the event data may fail. -/
theorem EngineInvariant.fault (h : EngineInvariant M self nested posts raises I E) (hw : I w)
    (site : Site) (h₁ : site ≠ .guardData) (h₂ : site ≠ .entryData) : E (.fault site) w :=
  h.halts _ w (isOther_fault h₁ h₂) hw

/-- Such a fault may come at any moment. -/
theorem MoveInvariant.fault (h : MoveInvariant self nested posts raises I E) (hw : I w)
    (site : Site) (h₁ : site ≠ .guardData) (h₂ : site ≠ .entryData) : E (.fault site) w :=
  h.halts _ w (isOther_fault h₁ h₂) hw

/-- The part of it that guards and actions need. -/
theorem EngineInvariant.hooks (h : EngineInvariant M self nested posts raises I E) :
    HookInvariant self nested posts raises I E where
  survives := h.survives
  nullState _ hw := h.fault hw .nullState (by simp) (by simp)
  note := h.note

/-- The part of it that exits and entries need. -/
theorem HookInvariant.moves (h : HookInvariant self nested posts raises I E) :
    MoveHooks self nested posts raises I E where
  survives hook _ := h.survives hook
  note w o ho hw := by
    cases o with
    | exit s => exact h.note w _ trivial hw
    | entry s d => exact h.note w _ ho hw
    | onExit s => exact h.note w _ trivial hw
    | onEntry s => exact h.note w _ trivial hw
    | _ => exact ho.elim

/-- The same, from the whole. -/
theorem EngineInvariant.moves (h : EngineInvariant M self nested posts raises I E) :
    MoveInvariant self nested posts raises I E where
  toMoveHooks := h.hooks.moves
  halts := h.halts
  setCurrentState := h.setCurrentState

/-! ## Hooks -/

section Hooks

variable (h : HookInvariant self nested posts raises I E)

include h

/-- The guard of a row keeps the invariant. -/
theorem HookInvariant.evalGuard {row : StateMapRowEx σ δ} (hrow : row.Obeys posts raises)
    {s : UInt8} {d : EventPtr δ} (hd : d.isSome = true) (hw : I w) :
    (evalGuard self nested s row.guard d).wp (fun _ => I) E w :=
  evalGuard_wp (h.survives .guard) (fun f hf => hrow.guard f hf d) hd hw (fun _ _ hw' => hw')
    (h.note w _ hd hw)

/-- So does the state action. -/
theorem HookInvariant.runState {row : StateMapRowEx σ δ} (hrow : row.Obeys posts raises)
    {s : UInt8} {d : EventPtr δ} (hd : d.isSome = true) (hw : I w) :
    (runState self nested s row.state d).wp (fun _ => I) E w :=
  runState_wp (h.survives .state) (fun f hf => hrow.state f hf d) (h.nullState w hw)
    (h.note w _ hd hw)

/-- So do the subscribers of `OnTransition`. -/
theorem HookInvariant.onTransition (hM : M.Obeys posts raises) {s t : UInt8} (hw : I w) :
    (onTransition M self nested s t).wp (fun _ => I) E w :=
  onTransition_wp (h.survives _) (hM.signals.onTransition s t) (h.note w _ trivial hw)

/-- The last two statements of every dispatch. -/
theorem HookInvariant.finish (hM : M.Obeys posts raises) {row : StateMapRowEx σ δ}
    (hrow : row.Obeys posts raises) {s t : UInt8} {d : EventPtr δ} (hd : d.isSome = true)
    (hw : I w) :
    ((ActiveFsm.runState self nested t row.state d).bind fun _ =>
      getCurrentState.bind fun cur => ActiveFsm.onTransition M self nested s cur).wp
        (fun _ => I) E w := by
  rw [wp_bind]
  refine wp_then (h.runState hrow hd hw) fun _ w' hw' => ?_
  rw [wp_bind, wp_getCurrentState]
  exact h.onTransition hM hw'

end Hooks

section Moves

variable (h : MoveHooks self nested posts raises I E)

include h

/-- So does the entry action. -/
theorem MoveHooks.runEntry {row : StateMapRowEx σ δ} (hrow : row.Obeys posts raises)
    {s : UInt8} {d : EventPtr δ} (hd : d.isSome = true) (hw : I w) :
    (runEntry self nested s row.entry d).wp (fun _ => I) E w :=
  runEntry_wp (h.survives .entry trivial) (fun f hf => hrow.entry f hf d) hd (h.note w _ hd) hw

/-- So does the exit action. -/
theorem MoveHooks.runExit {row : StateMapRowEx σ δ} (hrow : row.Obeys posts raises)
    {s : UInt8} (hw : I w) : (runExit self nested s row.exit).wp (fun _ => I) E w :=
  runExit_wp (h.survives .exit trivial) hrow.exit (h.note w _ trivial) hw

/-- So do the subscribers of `OnEntry`. -/
theorem MoveHooks.onEntry (hM : M.Obeys posts raises) {s : UInt8} (hw : I w) :
    (onEntry M self nested s).wp (fun _ => I) E w :=
  onEntry_wp (h.survives .onEntry trivial) (hM.signals.onEntry s) (h.note w _ trivial hw)

/-- So do the subscribers of `OnExit`. -/
theorem MoveHooks.onExit (hM : M.Obeys posts raises) {s : UInt8} (hw : I w) :
    (onExit M self nested s).wp (fun _ => I) E w :=
  onExit_wp (h.survives .onExit trivial) (hM.signals.onExit s) (h.note w _ trivial hw)

end Moves

/-! ## The flat engines -/

/-- A turn of the plain engine keeps it. -/
theorem dispatchPlain_wp (h : EngineInvariant M self nested posts raises I E)
    (hM : M.Obeys posts raises) {rows : List (StateMapRow σ δ)}
    (hlen : rows.length = M.maxStates.toNat)
    (hrows : ∀ row ∈ rows, row.toEx.Obeys posts raises) (hw : I w)
    (hgen : w.members.eventGenerated = true) :
    (dispatchPlain M self nested rows).wp (fun _ => I) E w := by
  simp only [dispatchPlain, bind_eq, wp_bind, wp_getNewState]
  refine wp_assertTrue (fun hnew => ?_) fun _ => h.fault hw _ (by simp) (by simp)
  have hlt : w.members.newState.toNat < rows.length := by
    rw [hlen]
    exact of_decide_eq_true hnew
  refine wp_rowAt_of_lt hlt fun row hrow _ => ?_
  have hd : w.members.pEventData.isSome = true := h.data w hw hgen
  have hset := h.setCurrentState _ w.members.newState (h.consume w hw hgen)
  have hfinish := h.hooks.finish hM (hrows row hrow) (s := w.members.currentState)
    (t := w.members.newState) hd hset
  simp only [wp_consumeEvent, wp_getCurrentState, wp_setCurrentState, consume_members]
  simpa only [wp_bind, wp_getCurrentState, StateMapRow.toEx] using hfinish

/-- A change of state that goes past its last assertion leaves no event
pending. -/
theorem changeStateEx_wp (h : MoveHooks self nested posts raises I E)
    (hset : ∀ w s, I w → I (w.setCurrentState self s))
    (hcheck : ∀ w, I w → E (.fault .eventPending) w)
    (hM : M.Obeys posts raises) {row current : StateMapRowEx σ δ} (hrow : row.Obeys posts raises)
    (hcur : current.Obeys posts raises) {t x : UInt8} {d : EventPtr δ} (hd : d.isSome = true)
    (hw : I w) :
    (changeStateEx M self nested t x current.exit row.entry d).wp
      (fun _ w' => I w' ∧ w'.members.eventGenerated = false) E w := by
  simp only [changeStateEx, bind_eq, wp_bind, wp_getCurrentState, wp_getNewState,
    wp_setCurrentState, wp_isEventPending]
  refine wp_then (h.runExit hcur hw) fun _ w₁ hw₁ => ?_
  refine wp_then (h.onExit hM hw₁) fun _ w₂ hw₂ => ?_
  refine wp_then (h.runEntry hrow hd (hset w₂ w₂.members.newState hw₂)) fun _ w₃ hw₃ => ?_
  refine wp_then (h.onEntry hM hw₃) fun _ w₄ hw₄ => ?_
  exact wp_assertTrue (fun hquiet => ⟨hw₄, by simpa using hquiet⟩) fun _ => hcheck w₄ hw₄

/-- The exit and the entry of the extended engine. -/
theorem moveEx_wp (h : MoveInvariant self nested posts raises I E)
    (hM : M.Obeys posts raises) {row current : StateMapRowEx σ δ} (hrow : row.Obeys posts raises)
    (hcur : current.Obeys posts raises) {t x : UInt8} {d : EventPtr δ} (hd : d.isSome = true)
    (hw : I w) : (moveEx M self nested t x current.exit row.entry d).wp (fun _ => I) E w := by
  simp only [moveEx, bind_eq, wp_bind, wp_getNewState, wp_getCurrentState]
  split
  · exact wp_then (changeStateEx_wp h.toMoveHooks h.setCurrentState
      (fun _ hw => h.fault hw _ (by simp) (by simp)) hM hrow hcur hd hw) fun _ _ hw' => hw'.1
  · exact h.setCurrentState w _ hw

/-- A turn of the extended engine keeps it. -/
theorem dispatchEx_wp (h : EngineInvariant M self nested posts raises I E)
    (hM : M.Obeys posts raises) (hmaps : M.maps.IsExtended) {rows : List (StateMapRowEx σ δ)}
    (hlen : rows.length = M.maxStates.toNat) (hrows : ∀ row ∈ rows, row.Obeys posts raises)
    (hw : I w) (hgen : w.members.eventGenerated = true) :
    (dispatchEx M self nested rows).wp (fun _ => I) E w := by
  simp only [dispatchEx, bind_eq, wp_bind, wp_getNewState, wp_getCurrentState]
  refine wp_assertTrue (fun hnew => ?_) fun _ => h.fault hw _ (by simp) (by simp)
  have hlt : w.members.newState.toNat < rows.length := by
    rw [hlen]
    exact of_decide_eq_true hnew
  refine wp_rowAt_of_lt hlt fun row hrow _ => ?_
  have hd : w.members.pEventData.isSome = true := h.data w hw hgen
  refine wp_rowAt (fun current hcur => ?_) fun hnone => ?_
  · have hcur' := hrows current (List.mem_of_getElem? hcur)
    rw [wp_consumeEvent]
    have hguard := h.hooks.evalGuard (hrows row hrow) (s := w.members.newState) hd
      (h.consume w hw hgen)
    refine wp_then hguard fun g w₁ hw₁ => ?_
    cases g with
    | false => exact hw₁
    | true =>
        simp only [transitionEx, bind_eq, wp_bind, wp_getCurrentState, if_true]
        refine wp_then (moveEx_wp h.moves hM (hrows row hrow) hcur' hd hw₁) fun _ w₂ hw₂ => ?_
        simpa only [wp_bind, wp_getCurrentState] using h.hooks.finish hM (hrows row hrow) hd hw₂
  · cases h.range hmaps w hw with
    | inl hlt =>
        have hge := List.getElem?_eq_none_iff.mp hnone
        rw [hlen] at hge
        exact absurd (UInt8.lt_iff_toNat_lt.mp hlt) (by omega)
    | inr hE => exact hE

/-! ## The hierarchical engine -/

section Walks

variable {rows : List (StateMapRowHSM σ δ)} (hlen : rows.length = M.maxStates.toNat)

include hlen

/-- The ancestor walks only read the map. -/
theorem lcaInner_wp (hhalts : ∀ e, e.IsOther → E e w) (a : UInt8) (left : Nat) (b : UInt8) :
    (lcaInner M rows a left b).wp (fun _ w' => w' = w) E w := by
  induction left generalizing b with
  | zero =>
      unfold lcaInner
      split
      · exact hhalts _ (isOther_fault (by simp) (by simp))
      · exact rfl
  | succ left ih =>
      unfold lcaInner
      split
      · next hb =>
          simp only [bind_eq]
          split
          · exact rfl
          · rw [wp_bind]
            exact wp_rowAt_of_lt (toNat_lt_length hlen hb) fun row _ _ => ih row.parentState
      · exact rfl

/-- `FindLCA` leaves the world as it is. -/
theorem lcaOuter_wp (hhalts : ∀ e, e.IsOther → E e w) (b : UInt8) (left : Nat) (a : UInt8) :
    (lcaOuter M rows b left a).wp (fun _ w' => w' = w) E w := by
  induction left generalizing a with
  | zero =>
      unfold lcaOuter
      split
      · exact hhalts _ (isOther_fault (by simp) (by simp))
      · exact rfl
  | succ left ih =>
      unfold lcaOuter
      split
      · next ha =>
          simp only [bind_eq, wp_bind]
          refine wp_then (lcaInner_wp hlen hhalts a maxHsmDepth b) fun found w' hw' => ?_
          rw [hw']
          cases found with
          | true => exact rfl
          | false =>
              simp only [Bool.false_eq_true, if_false, wp_bind]
              exact wp_rowAt_of_lt (toNat_lt_length hlen ha) fun row _ _ => ih row.parentState
      · exact rfl

/-- So does the entry chain, whose states exist. -/
theorem collectEntryChain_wp (hhalts : ∀ e, e.IsOther → E e w) (lca : UInt8) (left : Nat)
    (s : UInt8) :
    (collectEntryChain M rows lca left s).wp
      (fun chain w' => w' = w ∧ ∀ t ∈ chain, t < M.maxStates) E w := by
  induction left generalizing s with
  | zero =>
      unfold collectEntryChain
      split
      · exact hhalts _ (isOther_fault (by simp) (by simp))
      · exact ⟨rfl, by simp⟩
  | succ left ih =>
      unfold collectEntryChain
      split
      · next hs =>
          simp only [bind_eq, wp_bind]
          refine wp_rowAt_of_lt (toNat_lt_length hlen hs.1) fun row _ _ => ?_
          refine wp_then (ih row.parentState) fun chain w' hw' => ⟨hw'.1, fun t ht => ?_⟩
          cases List.mem_cons.mp ht with
          | inl heq =>
              rw [heq]
              exact hs.1
          | inr htail => exact hw'.2 t htail
      · exact ⟨rfl, by simp⟩

/-- The states that are left, one by one. -/
theorem exitWalk_wp (h : MoveInvariant self nested posts raises I E)
    (hM : M.Obeys posts raises) (hrows : ∀ row ∈ rows, row.toStateMapRowEx.Obeys posts raises)
    (lca : UInt8) (left : Nat) (s : UInt8) (hw : I w) :
    (exitWalk M self nested rows lca left s).wp (fun _ => I) E w := by
  induction left generalizing s w with
  | zero =>
      unfold exitWalk
      split
      · exact h.fault hw _ (by simp) (by simp)
      · exact hw
  | succ left ih =>
      unfold exitWalk
      split
      · next hs =>
          simp only [bind_eq, wp_bind]
          refine wp_rowAt_of_lt (toNat_lt_length hlen hs.1) fun row hrow _ => ?_
          refine wp_then (h.runExit (hrows row hrow) hw) fun _ w₁ hw₁ => ?_
          exact wp_then (h.onExit hM hw₁) fun _ w₂ hw₂ => ih row.parentState hw₂
      · exact hw

/-- The states that are entered, one by one. -/
theorem enterState_wp (h : MoveInvariant self nested posts raises I E)
    (hM : M.Obeys posts raises) (hrows : ∀ row ∈ rows, row.toStateMapRowEx.Obeys posts raises)
    {d : EventPtr δ} (hd : d.isSome = true) {s : UInt8} (hs : s < M.maxStates) (hw : I w) :
    (enterState M self nested rows d s).wp (fun _ => I) E w := by
  simp only [enterState, bind_eq, wp_bind]
  refine wp_rowAt_of_lt (toNat_lt_length hlen hs) fun row hrow _ => ?_
  exact wp_then (h.runEntry (hrows row hrow) hd hw) fun _ w₁ hw₁ =>
    h.onEntry hM hw₁

/-- From one state to another. -/
theorem changeStateHSM_wp (h : MoveInvariant self nested posts raises I E)
    (hM : M.Obeys posts raises) (hrows : ∀ row ∈ rows, row.toStateMapRowEx.Obeys posts raises)
    {d : EventPtr δ} (hd : d.isSome = true) (s t : UInt8) (hw : I w) :
    (changeStateHSM M self nested rows s t d).wp
      (fun _ w' => I w' ∧ w'.members.eventGenerated = false) E w := by
  simp only [changeStateHSM, bind_eq, wp_bind, wp_setCurrentState, wp_isEventPending]
  have hlca := lcaOuter_wp hlen (fun e he => h.halts e w he hw) t maxHsmDepth s
  refine wp_then hlca fun lca w₁ hw₁ => ?_
  rw [hw₁]
  refine wp_then (exitWalk_wp hlen h hM hrows lca maxHsmDepth s hw) fun _ w₂ hw₂ => ?_
  have hchain := collectEntryChain_wp hlen (fun e he => h.halts e w₂ he hw₂) lca maxHsmDepth t
  refine wp_then hchain fun chain w₃ ⟨hw₃, hmem⟩ => ?_
  rw [hw₃]
  have henter := each_wp chain.reverse
    (fun s hs w hw => enterState_wp hlen h hM hrows hd (hmem s (List.mem_reverse.mp hs)) hw)
    _ (h.setCurrentState w₂ t hw₂)
  refine wp_then henter fun _ w₄ hw₄ => ?_
  exact wp_assertTrue (fun hquiet => ⟨hw₄, by simpa using hquiet⟩) fun _ =>
    h.fault hw₄ _ (by simp) (by simp)

/-- The same, or nothing for a self-transition. -/
theorem moveHSM_wp (h : MoveInvariant self nested posts raises I E)
    (hM : M.Obeys posts raises) (hrows : ∀ row ∈ rows, row.toStateMapRowEx.Obeys posts raises)
    {d : EventPtr δ} (hd : d.isSome = true) (s t : UInt8) (hw : I w) :
    (moveHSM M self nested rows s t d).wp (fun _ => I) E w := by
  unfold moveHSM
  split
  · exact wp_then (changeStateHSM_wp hlen h hM hrows hd s t hw) fun _ _ hw' => hw'.1
  · exact h.setCurrentState w t hw

/-- A turn of the hierarchical engine keeps it. -/
theorem dispatchHSM_wp (h : EngineInvariant M self nested posts raises I E)
    (hM : M.Obeys posts raises) (hrows : ∀ row ∈ rows, row.toStateMapRowEx.Obeys posts raises)
    (hw : I w) (hgen : w.members.eventGenerated = true) :
    (dispatchHSM M self nested rows).wp (fun _ => I) E w := by
  simp only [dispatchHSM, bind_eq, wp_bind, wp_getNewState]
  refine wp_assertTrue (fun hnew => ?_) fun _ => h.fault hw _ (by simp) (by simp)
  refine wp_rowAt_of_lt (toNat_lt_length hlen (of_decide_eq_true hnew)) fun row hrow _ => ?_
  have hd : w.members.pEventData.isSome = true := h.data w hw hgen
  rw [wp_consumeEvent]
  have hguard := h.hooks.evalGuard (hrows row hrow) (s := w.members.newState) hd
    (h.consume w hw hgen)
  refine wp_then hguard fun g w₁ hw₁ => ?_
  cases g with
  | false => exact hw₁
  | true =>
      simp only [transitionHSM, bind_eq, wp_bind, wp_getCurrentState, if_true]
      refine wp_then (moveHSM_wp hlen h.moves hM hrows hd _ _ hw₁) fun _ w₂ hw₂ => ?_
      simpa only [wp_bind, wp_getCurrentState] using h.hooks.finish hM (hrows row hrow) hd hw₂

end Walks

/-! ## `StateEngine()` -/

/-- What one iteration of each engine preserves, the engine the machine runs
preserves; it returns with no event pending. -/
theorem stateEngine_wp_of (hM : M.Obeys posts raises) (hfuel : ∀ w, I w → E .outOfFuel w)
    (hmap : ∀ w, I w → E (.fault .stateMap) w)
    (hplain : ∀ rows, rows.length = M.maxStates.toNat →
      (∀ row ∈ rows, row.toEx.Obeys posts raises) → ∀ w, I w → w.members.eventGenerated = true →
      (dispatchPlain M self nested rows).wp (fun _ => I) E w)
    (hex : M.maps.IsExtended → ∀ rows, rows.length = M.maxStates.toNat →
      (∀ row ∈ rows, row.Obeys posts raises) → ∀ w, I w → w.members.eventGenerated = true →
      (dispatchEx M self nested rows).wp (fun _ => I) E w)
    (hhsm : ∀ rows, rows.length = M.maxStates.toNat →
      (∀ row ∈ rows, row.toStateMapRowEx.Obeys posts raises) →
      ∀ w, I w → w.members.eventGenerated = true →
      (dispatchHSM M self nested rows).wp (fun _ => I) E w) (n : Nat) (hw : I w) :
    (stateEngine M self nested n).wp (fun _ w' => I w' ∧ w'.members.eventGenerated = false)
      E w := by
  unfold stateEngine
  split
  · next rows _ hmaps =>
      obtain ⟨hlen, hrows⟩ := hM.plain hmaps
      exact loop_wp (hplain rows hlen hrows) hfuel n w hw
  · next rows hmaps =>
      obtain ⟨hlen, hrows⟩ := hM.extended hmaps
      have hext : M.maps.IsExtended := by
        rw [hmaps]
        trivial
      exact loop_wp (hex hext rows hlen hrows) hfuel n w hw
  · exact hmap w hw
  · next rows hmaps =>
      obtain ⟨hlen, hrows⟩ := hM.hierarchical hmaps
      exact loop_wp (hhsm rows hlen hrows) hfuel n w hw
  · exact hmap w hw

/-- Every engine preserves the assertion. -/
theorem stateEngine_wp (h : EngineInvariant M self nested posts raises I E)
    (hM : M.Obeys posts raises) (n : Nat) (hw : I w) :
    (stateEngine M self nested n).wp (fun _ w' => I w' ∧ w'.members.eventGenerated = false)
      E w := by
  refine stateEngine_wp_of hM (fun w hw => h.halts _ w isOther_outOfFuel hw)
    (fun w hw => h.fault hw _ (by simp) (by simp)) ?_ ?_ ?_ n hw
  · exact fun rows hlen hrows w hw => dispatchPlain_wp h hM hlen hrows hw
  · exact fun hext rows hlen hrows w hw => dispatchEx_wp h hM hext hlen hrows hw
  · exact fun rows hlen hrows w hw => dispatchHSM_wp hlen h hM hrows hw

/-! ## External events -/

/-- The observations made around the engine: the marks of an external event,
and the ones a `CANNOT_HAPPEN` or a nested call leaves. -/
def Obs.IsMark : Obs δ → Prop
  | .start | .finish | .raise _ | .onCannotHappen _ => True
  | _ => False

/-- `I` is preserved by every action of a run: those of the engines, posts,
and the marks of external events. -/
structure RunInvariant (caller : Frame δ) (I : World σ δ → Prop) (E : Stop → World σ δ → Prop) :
    Prop where
  user : ∀ w u, I w → I { w with user := u }
  halts : ∀ e w, e ≠ .fault .guardData → e ≠ .fault .entryData → I w → E e w
  data : ∀ w, I w → w.members.eventGenerated = true → w.members.pEventData.isSome = true
  consume : ∀ w, I w → w.members.eventGenerated = true → I (w.consume caller)
  setCurrentState : ∀ w s, I w → I (w.setCurrentState caller s)
  post : ∀ w t d, I w → I (w.post caller t d)
  note : ∀ w o, o.IsHook → I w → I (w.note caller o)
  mark : ∀ w o, o.IsMark → I w → I (w.note caller o)

/-- Such an assertion survives all user code, if nested external events
preserve it. -/
theorem RunInvariant.engine (M : Machine σ δ) (h : RunInvariant self I E)
    (hnested : ∀ c w, I w → (nested c).wp (fun _ => I) E w) :
    EngineInvariant M self nested (fun _ => True) (fun _ => True) I E where
  survives _ :=
    { user := h.user
      fail := fun w hw => h.halts _ w (by simp) (by simp) hw
      post := fun _ => h.post
      raise := fun _ w c hw => hnested c _ (h.mark w _ trivial hw) }
  halts e w he hw := h.halts e w he.1 he.2.1 hw
  range _ w hw := .inr (h.halts _ w (by simp) (by simp) hw)
  data := h.data
  consume := h.consume
  setCurrentState := h.setCurrentState
  note := h.note

/-- An external event on the machine's thread preserves the assertion; it
leaves no event pending, or whatever was pending before. -/
theorem externalEvent_wp (h : RunInvariant self I E) (hself : M.RunsOn self.thread)
    (hnested : ∀ c w, I w → (nested c).wp (fun _ => I) E w) (n : Nat) (t : UInt8) (d : EventPtr δ)
    (hw : I w) :
    (externalEvent M self nested n t d).wp
      (fun _ w' => I w' ∧ (w'.members.eventGenerated = true → w.members.eventGenerated = true))
      E w := by
  have hengine := h.engine M hnested
  refine externalEvent_wp_of hself (fun _ => ⟨hw, id⟩) ?_ fun _ _ => ?_
  · have hmark := h.mark w (.onCannotHappen w.members.currentState) trivial hw
    exact wp_then (onCannotHappen_wp (hengine.survives .onCannotHappen) (only_true _) hmark)
      fun _ w' hw' => h.halts _ w' (by simp) (by simp) hw'
  · have hpost := h.post _ t d (h.mark w .start trivial hw)
    refine wp_then (stateEngine_wp hengine (obeys_true M) n hpost) fun _ w' hw' => ?_
    refine ⟨h.mark w' .finish trivial hw'.1, fun hgen => ?_⟩
    rw [note_members, hw'.2] at hgen
    contradiction

/-- **Nested external events**: what every action preserves, calls preserve at
any depth of nesting. -/
theorem call_wp (h : RunInvariant self I E) (hself : M.RunsOn self.thread) (n : Nat) (c : Call δ)
    (hw : I w) :
    (call M self n c).wp
      (fun _ w' => I w' ∧ (w'.members.eventGenerated = true → w.members.eventGenerated = true))
      E w := by
  induction n generalizing c w with
  | zero => exact h.halts _ w (by simp) (by simp) hw
  | succ n ih =>
      have hnested (c : Call δ) (w : World σ δ) (hw : I w) :
          (call M self n c).wp (fun _ => I) E w := wp_then (ih c hw) fun _ _ hw' => hw'.1
      refine call_wp_of hself (fun t _ => ?_) fun e he => ?_
      · exact externalEvent_wp h hself hnested n t _ hw
      · exact h.halts e w (target_error he _ (by simp)) (target_error he _ (by simp)) hw

/-- A sequence of external events from a machine at rest leaves it at rest. -/
theorem runCalls_wp {thread : ThreadId} (hM : M.RunsOn thread)
    (h : ∀ c, RunInvariant ⟨thread, c⟩ I E) (n : Nat) (cs : List (Call δ)) (hw : I w)
    (hrest : w.members.eventGenerated = false) :
    (runCalls M thread n cs).wp (fun _ w' => I w' ∧ w'.members.eventGenerated = false) E w := by
  refine each_wp (I := fun w => I w ∧ w.members.eventGenerated = false) cs (fun c _ w hw => ?_) w
    ⟨hw, hrest⟩
  refine wp_then (call_wp (h c) hM n c hw.1) fun _ w' hw' => ⟨hw'.1, ?_⟩
  have hgen := mt hw'.2
  simp only [Bool.not_eq_true] at hgen
  exact hgen hw.2

end Rules

/-! ## Hooks that raise nothing -/

section Nested

variable {posts : Hook → Prop} {row : StateMapRowEx σ δ} {M : Machine σ δ} {self : Frame δ}
  {nested : Call δ → Fsm σ δ Unit} (nested' : Call δ → Fsm σ δ Unit)

/-- A guard that raises nothing is the same in whatever call. -/
theorem evalGuard_nested (hrow : row.Obeys posts fun _ => False) (s : UInt8) (d : EventPtr δ) :
    evalGuard self nested s row.guard d = evalGuard self nested' s row.guard d := by
  cases hg : row.guard with
  | none => rfl
  | some f =>
      simp only [evalGuard, invokeGuardCondition, Callback.run_nested nested' (hrow.guard f hg d)]

/-- So is an entry action. -/
theorem runEntry_nested (hrow : row.Obeys posts fun _ => False) (s : UInt8) (d : EventPtr δ) :
    runEntry self nested s row.entry d = runEntry self nested' s row.entry d := by
  cases he : row.entry with
  | none => rfl
  | some f =>
      simp only [runEntry, invokeEntryAction, Callback.run_nested nested' (hrow.entry f he d)]

/-- So is an exit action. -/
theorem runExit_nested (hrow : row.Obeys posts fun _ => False) (s : UInt8) :
    runExit self nested s row.exit = runExit self nested' s row.exit := by
  cases hx : row.exit with
  | none => rfl
  | some c => simp only [runExit, invokeExitAction, Callback.run_nested nested' (hrow.exit c hx)]

/-- So is a state action. -/
theorem runState_nested (hrow : row.Obeys posts fun _ => False) (s : UInt8) (d : EventPtr δ) :
    runState self nested s row.state d = runState self nested' s row.state d := by
  cases hs : row.state with
  | none => rfl
  | some f =>
      simp only [runState, invokeStateAction, Callback.run_nested nested' (hrow.state f hs d)]

/-- So are the subscribers of `OnTransition`. -/
theorem onTransition_nested (hM : M.Obeys posts fun _ => False) (s t : UInt8) :
    onTransition M self nested s t = onTransition M self nested' s t := by
  simp only [onTransition, Callback.run_nested nested' (hM.signals.onTransition s t)]

/-- So are the subscribers of `OnEntry`. -/
theorem onEntry_nested (hM : M.Obeys posts fun _ => False) (s : UInt8) :
    onEntry M self nested s = onEntry M self nested' s := by
  simp only [onEntry, Callback.run_nested nested' (hM.signals.onEntry s)]

/-- So are the subscribers of `OnExit`. -/
theorem onExit_nested (hM : M.Obeys posts fun _ => False) (s : UInt8) :
    onExit M self nested s = onExit M self nested' s := by
  simp only [onExit, Callback.run_nested nested' (hM.signals.onExit s)]

/-- So are the subscribers of `OnCannotHappen`. -/
theorem onCannotHappen_nested (hM : M.Obeys posts fun _ => False) (s : UInt8) :
    onCannotHappen M self nested s = onCannotHappen M self nested' s := by
  simp only [onCannotHappen, Callback.run_nested nested' (hM.signals.onCannotHappen s)]

end Nested

end ActiveFsm
