import ActiveFsm.Dispatch
import ActiveFsm.Script

/-!
# ActiveFsm.Asked

The state whose guard was asked is the state that is entered.  A guard may
post events of its own, into the slot that the event being dispatched came
from.  The hierarchical engine keeps the target it dequeued.  The extended
flat engine reads it again after the guard: if the guard of another state has
last posted an event for the current one, the engine takes the transition for
a self-transition, and runs the action of the state that was asked in the
state that was not left.  Whatever else a guard posts is caught by the check
that ends the change of state (`asked_is_entered`), as long as the machine is
in a state of its own.
-/

namespace ActiveFsm

open Proc

variable {σ δ : Type}

/-! ## What a guard answers -/

/-- What user code that raises no external event returns in state `s`, and
for which state it has last posted an event. -/
def Callback.answer {ρ : Type} (s : UInt8) :
    Callback σ δ ρ → σ → Option UInt8 → Option (ρ × Option UInt8)
  | ret r, _, last => some (r, last)
  | fail, _, _ => none
  | update f k, u, last => (k s u).answer s (f s u) last
  | internalEvent t _ k, u, _ => k.answer s u (some t)
  | call _ _, _, _ => none

section Answers

variable (M : Machine σ δ)

/-- What the guard of the pending event's target answers. -/
def Machine.answer (w : World σ δ) : Option (Bool × Option UInt8) :=
  (M.row w.members.newState).bind fun row =>
    match row.guard with
    | none => some (true, none)
    | some guard =>
        (guard w.members.pEventData).answer w.members.currentState w.user none

/-- The guard of the target returns `true`. -/
def Machine.Grants (w : World σ δ) : Prop := ∃ last, M.answer w = some (true, last)

/-- The extended flat engine reads the row of the current state without a
check: the machine has to be in a state of its own. -/
def Machine.Placed (w : World σ δ) : Prop :=
  M.maps.IsExtended → w.members.currentState < M.maxStates

/-- The guard of another state returns `true` after it has posted events, the
last of them for the current state.  The extended flat engine then runs the
action of that other state. -/
structure Machine.Deflects (w : World σ δ) : Prop where
  extended : M.maps.IsExtended
  other : w.members.newState ≠ w.members.currentState
  answer : M.answer w = some (true, some w.members.currentState)
  action : ((M.row w.members.newState).bind fun row => row.state).isSome = true

end Answers

/-- From `w` the engine faults before it runs a state action, or carries out
the transition to the target of the event with the data of the event, at least
up to the state action.  A subscript out of range is no fault: there the code
goes on with whatever it has read. -/
def Machine.Performs (M : Machine σ δ) (w : World σ δ) (r : Except Stop Unit × World σ δ) : Prop :=
  let a := w.members.currentState
  let t := w.members.newState
  let script := transitionScript M a t w.members.pEventData
  ∃ lines, r.2.seen = w.seen ++ lines ∧
    (((∃ site, r.1 = .error (.fault site)) ∧ ∀ l ∈ lines, l.1.isAction = false) ∨
      ((∃ site, r.1 = .error (.fault site)) ∧ lines = script) ∨
      lines = script ++ [(.onTransition a t, t)])

/-! ## The guard -/

/-- While the guard of `t` runs: the slot holds what it has last posted, or is
empty. -/
structure World.Asking (lines : Script δ) (s t : UInt8) (last : Option UInt8) (w : World σ δ) :
    Prop extends w.Sees lines s where
  newState : w.members.newState = last.getD t
  pending : w.members.eventGenerated = last.isSome

section Guard

variable {self : Frame δ} {nested : Call δ → Fsm σ δ Unit} {w : World σ δ} {s t : UInt8}
  {lines : Script δ} {last : Option UInt8}

/-- A callback returns what it answers, and leaves its last event in the
slot. -/
theorem Callback.run_answer (self : Frame δ) (nested : Call δ → Fsm σ δ Unit) {ρ : Type}
    {cb : Callback σ δ ρ} (hcb : cb.Only True False) (hw : w.Asking lines s t last) :
    (cb.run self nested).wp
      (fun r w' => ∃ last', cb.answer s w.user last = some (r, last') ∧
        w'.Asking lines s t last')
      (fun e w' => e = .fault .user ∧ cb.answer s w.user last = none ∧ w'.seen = lines) w := by
  induction cb generalizing w last with
  | ret r => exact ⟨last, rfl, hw⟩
  | fail => exact ⟨rfl, rfl, hw.seen⟩
  | update f k ih =>
      have hread : w.members.currentState = s := hw.current
      have hupdate : ({ w with user := f s w.user } : World σ δ).Asking lines s t last :=
        { hw with }
      simp only [Callback.run, wp_act, hread, Callback.answer]
      exact ih _ _ (hcb _ _) hupdate
  | internalEvent t' d k ih =>
      have hpost : (w.post self t' d).Asking lines s t (some t') :=
        { current := hw.current
          seen := (seen_post t' d).trans hw.seen
          newState := rfl
          pending := rfl }
      simp only [Callback.run, bind_eq, wp_bind, wp_internalEvent, Callback.answer]
      exact ih hcb.2 hpost
  | call c k => exact hcb.1.elim

end Guard

/-! ## The change of state -/

/-- In the middle of a change of state: no action has run, and as long as
nothing has been posted the change is at `lines`, in state `s`, and the slot
still names `t`.  `fresh` tells that nothing had been posted before. -/
structure World.Moving (fresh : Prop) (base lines : Script δ) (s t : UInt8) (w : World σ δ) :
    Prop where
  silent : w.Silent base
  course : w.members.eventGenerated = false →
    fresh ∧ w.members.newState = t ∧ w.Sees (base ++ lines) s

section Moves

variable {self : Frame δ} {nested : Call δ → Fsm σ δ Unit} {w w' : World σ δ} {s t x : UInt8}
  {fresh : Prop} {base lines : Script δ}

/-- A line of the script, while the state is being left or entered. -/
theorem World.Moving.note {o o' : Obs δ} (h : w.Moving fresh base lines s t)
    (hpost : o.isPost = false) (haction : o.isAction = false)
    (ho : w.members.eventGenerated = false → o = o') :
    (w.note self o).Moving fresh base (lines ++ [(o', s)]) s t where
  silent := h.silent.note hpost haction
  course hgen := by
    obtain ⟨hfresh, hnew, hsees⟩ := h.course hgen
    rw [← ho hgen, ← List.append_assoc]
    exact ⟨hfresh, hnew, hsees.note _ hpost⟩

/-- The line at which the state changes. -/
theorem World.Moving.setCurrentState (self : Frame δ) {v : UInt8}
    (h : w.Moving fresh base lines s t) (hv : w.members.eventGenerated = false → v = t) :
    (w.setCurrentState self v).Moving fresh base (lines ++ [(.setCurrentState t, t)]) t t where
  silent := h.silent.setCurrentState v
  course hgen := by
    obtain ⟨hfresh, hnew, hsees⟩ := h.course hgen
    rw [hv hgen, ← List.append_assoc]
    exact ⟨hfresh, hnew, hsees.setCurrentState _ t⟩

/-- User code may post, but then the flag is set for good. -/
theorem moving_survives :
    Survives self nested True False (World.Moving (σ := σ) fresh base lines s t) (Halted base) where
  user _ _ h := ⟨h.silent, fun hgen => ⟨(h.course hgen).1, (h.course hgen).2.1,
    (h.course hgen).2.2.current, (h.course hgen).2.2.seen⟩⟩
  fail _ h := ⟨⟨_, rfl⟩, h.silent⟩
  post _ _ t d h := ⟨h.silent.post t d, by simp⟩
  raise h := h.elim

variable {M : Machine σ δ} (hM : M.Obeys (fun _ => True) (fun _ => False))
  {row : StateMapRowEx σ δ} (hrow : row.Obeys (fun _ => True) (fun _ => False))

include hM hrow

omit hM in
/-- The exit action writes its line, if there is one. -/
theorem runExit_moving (hw : w.Moving fresh base lines s t) :
    (runExit self nested x row.exit).wp
      (fun _ => World.Moving fresh base (lines ++ row.exit.toList.map fun _ => (.exit x, s)) s t)
      (Halted base) w := by
  cases hexit : row.exit with
  | none => simpa [runExit] using hw
  | some exit =>
      rw [runExit, invokeExitAction, bind_eq, wp_bind, wp_record]
      exact Callback.run_wp moving_survives (hrow.exit exit hexit) (hw.note rfl rfl fun _ => rfl)

omit hM in
/-- The entry action writes its line, if there is one. -/
theorem runEntry_moving {d : EventPtr δ} (hd : d.isSome = true)
    (hw : w.Moving fresh base lines s t) :
    (runEntry self nested x row.entry d).wp
      (fun _ => World.Moving fresh base (lines ++ row.entry.toList.map fun _ => (.entry x d, s))
        s t) (Halted base) w := by
  cases hentry : row.entry with
  | none => simpa [runEntry] using hw
  | some entry =>
      rw [runEntry, invokeEntryAction, bind_eq, wp_bind, wp_record, bind_eq, wp_bind, hd]
      exact Callback.run_wp moving_survives (hrow.entry entry hentry d)
        (hw.note rfl rfl fun _ => rfl)

omit hrow in
/-- `OnExit` is emitted for the state that is left. -/
theorem onExit_moving {c : UInt8} (hw : w.Moving fresh base lines s t)
    (hc : w.members.eventGenerated = false → c = x) :
    (onExit M self nested c).wp
      (fun _ => World.Moving fresh base (lines ++ [(.onExit x, s)]) s t) (Halted base) w := by
  rw [onExit, bind_eq, wp_bind, wp_record]
  refine Callback.run_wp moving_survives (hM.signals.onExit c) (hw.note rfl rfl fun hgen => ?_)
  rw [hc hgen]

omit hrow in
/-- `OnEntry` is emitted for the state that is entered. -/
theorem onEntry_moving {c : UInt8} (hw : w.Moving fresh base lines s t)
    (hc : w.members.eventGenerated = false → c = x) :
    (onEntry M self nested c).wp
      (fun _ => World.Moving fresh base (lines ++ [(.onEntry x, s)]) s t) (Halted base) w := by
  rw [onEntry, bind_eq, wp_bind, wp_record]
  refine Callback.run_wp moving_survives (hM.signals.onEntry c) (hw.note rfl rfl fun hgen => ?_)
  rw [hc hgen]

omit hM hrow in
/-- The check at the end lets only those changes of state pass in which nothing
has been posted. -/
theorem assert_moving (hw : w.Moving fresh base lines s t) :
    (assertTrue .eventPending (!w.members.eventGenerated) : Fsm σ δ Unit).wp
      (fun _ w' => fresh ∧ w'.Sees (base ++ lines) s) (Halted base) w := by
  refine wp_assertTrue (fun hquiet => ?_) fun _ => ⟨⟨_, rfl⟩, hw.silent⟩
  obtain ⟨hfresh, -, hsees⟩ := hw.course (by simpa using hquiet)
  exact ⟨hfresh, hsees⟩

end Moves

section Extended

variable {M : Machine σ δ} {self : Frame δ} {nested : Call δ → Fsm σ δ Unit} {w : World σ δ}
  {rows : List (StateMapRowEx σ δ)} (hmaps : M.maps = .flat none (some rows))
variable (hM : M.Obeys (fun _ => True) (fun _ => False)) {a t : UInt8} {d : EventPtr δ}
  {base lines : Script δ} {current row : StateMapRowEx σ δ}

include hmaps hM

/-- The extended engine goes through its script from one state to another. -/
theorem changeStateEx_moving {fresh : Prop} (hcurrent : rows[a.toNat]? = some current)
    (hrow : rows[t.toNat]? = some row) (hd : d.isSome = true) (hne : fresh → a ≠ t)
    (hw : w.Moving fresh base lines a t) :
    (changeStateEx M self nested t a current.exit row.entry d).wp
      (fun _ w' => fresh ∧ w'.Sees (base ++ (lines ++ moveScript M a t d)) t) (Halted base) w := by
  obtain ⟨-, hrows⟩ := hM.extended hmaps
  have hobeysCurrent := hrows current (List.mem_of_getElem? hcurrent)
  have hobeys := hrows row (List.mem_of_getElem? hrow)
  simp only [changeStateEx, bind_eq, wp_bind, wp_getCurrentState, wp_getNewState,
    wp_setCurrentState, wp_isEventPending]
  refine wp_then (runExit_moving hobeysCurrent hw) fun _ w₁ hw₁ => ?_
  have hleave : w₁.members.eventGenerated = false → w₁.members.currentState = a :=
    fun hgen => (hw₁.course hgen).2.2.current
  refine wp_then (onExit_moving hM hw₁ hleave) fun _ w₂ hw₂ => ?_
  have htarget : w₂.members.eventGenerated = false → w₂.members.newState = t :=
    fun hgen => (hw₂.course hgen).2.1
  refine wp_then (runEntry_moving hobeys hd (hw₂.setCurrentState self htarget)) fun _ w₃ hw₃ => ?_
  have henter : w₃.members.eventGenerated = false → w₃.members.currentState = t :=
    fun hgen => (hw₃.course hgen).2.2.current
  refine wp_then (onEntry_moving hM hw₃ henter) fun _ w₄ hw₄ => ?_
  refine wp_then (assert_moving hw₄) fun _ w₅ hw₅ => ?_
  obtain ⟨hfresh, hsees⟩ := hw₅
  refine ⟨hfresh, ?_⟩
  rw [moveScript_ex hmaps (hne hfresh)]
  simpa [exitScript, entryScript, row_ex hmaps, hcurrent, hrow] using hsees

variable (self nested) in
/-- Unless the guard has deflected it, the event changes the state to the one
that was asked. -/
theorem moveEx_asked {last : Option UInt8} (hcurrent : rows[a.toNat]? = some current)
    (hrow : rows[t.toNat]? = some row) (hd : d.isSome = true)
    (hsilent : ∀ l ∈ lines, l.1.isAction = false) (hlast : last = some a → t = a)
    (hw : w.Asking (base ++ lines) a t last) :
    (moveEx M self nested t a current.exit row.entry d).wp
      (fun _ w' => w'.Sees (base ++ (lines ++ moveScript M a t d)) t) (Halted base) w := by
  simp only [moveEx, bind_eq, wp_bind, wp_getNewState, wp_getCurrentState, hw.current]
  have hfresh : w.members.eventGenerated = false → last = none := by
    intro hgen
    simpa [hw.pending] using hgen
  have hnew : last = none → w.members.newState = t := by
    intro hnone
    simp [hw.newState, hnone]
  split
  · next hne =>
      have hmoving : w.Moving (last = none) base lines a t :=
        { silent := ⟨lines, hw.seen, hsilent⟩
          course := fun hgen => ⟨hfresh hgen, hnew (hfresh hgen), hw.toSees⟩ }
      have hleaves : last = none → a ≠ t := by
        intro hnone hat
        exact hne ((hnew hnone).trans hat.symm)
      exact wp_then (changeStateEx_moving hmaps hM hcurrent hrow hd hleaves hmoving)
        fun _ _ h => h.2
  · next heq =>
      have hsame : w.members.newState = a := Decidable.not_not.mp heq
      have hat : t = a := by
        cases hposted : last with
        | none => rw [← hnew hposted, hsame]
        | some v =>
            have hv : v = a := by simpa [hw.newState, hposted] using hsame
            exact hlast (by rw [hposted, hv])
      subst hat
      rw [hsame]
      have hset := hw.toSees.setCurrentState self t
      simpa [moveScript, Machine.leaves, Machine.enters] using hset

end Extended

/-- Deflected, the event goes on as one for the current state. -/
theorem moveEx_deflected {M : Machine σ δ} {self : Frame δ} {nested : Call δ → Fsm σ δ Unit}
    {w : World σ δ} {a t : UInt8} {lines : Script δ} {exit : Option (Callback σ δ Unit)}
    {entry : Option (EventPtr δ → Callback σ δ Unit)} {d : EventPtr δ} {Q : Unit → World σ δ → Prop}
    {E : Stop → World σ δ → Prop} (hw : w.Asking lines a t (some a))
    (hQ : Q () (w.setCurrentState self a)) :
    (moveEx M self nested t a exit entry d).wp Q E w := by
  have hnew : w.members.newState = a := hw.newState
  simpa only [moveEx, bind_eq, wp_bind, wp_getNewState, wp_getCurrentState, hnew, hw.current,
    ne_eq, not_true_eq_false, if_false, wp_setCurrentState] using hQ

section Hierarchical

variable {M : Machine σ δ} {rows : List (StateMapRowHSM σ δ)} {a t : UInt8}
  (hmaps : M.maps = .hsm (some rows)) (hlen : rows.length = M.maxStates.toNat)
  {self : Frame δ} {nested : Call δ → Fsm σ δ Unit} {d : EventPtr δ}
variable (hM : M.Obeys (fun _ => True) (fun _ => False)) {w : World σ δ} {base lines : Script δ}
  {fresh : Prop}

include hmaps hlen hM

omit hlen in
/-- One state is left. -/
theorem exitState_moving {s : UInt8} {row : StateMapRowHSM σ δ} (hrow : rows[s.toNat]? = some row)
    (hw : w.Moving fresh base lines a t) :
    (exitState M self nested rows s).wp
      (fun _ => World.Moving fresh base (lines ++ exitScript M a s) a t) (Halted base) w := by
  have hobeys := (hM.hierarchical hmaps).2 row (List.mem_of_getElem? hrow)
  simp only [exitState, bind_eq, rowAt_eq hrow, ret_bind, wp_bind, exitScript, row_hsm hmaps, hrow,
    Option.map_some, Option.bind_some, ← List.append_assoc]
  exact wp_then (runExit_moving hobeys hw) fun _ _ h => onExit_moving hM h fun _ => rfl

omit hlen in
/-- One state is entered. -/
theorem enterState_moving {s : UInt8} {row : StateMapRowHSM σ δ} (hd : d.isSome = true)
    (hrow : rows[s.toNat]? = some row) (hw : w.Moving fresh base lines t t) :
    (enterState M self nested rows d s).wp
      (fun _ => World.Moving fresh base (lines ++ entryScript M t d s) t t) (Halted base) w := by
  have hobeys := (hM.hierarchical hmaps).2 row (List.mem_of_getElem? hrow)
  simp only [enterState, bind_eq, rowAt_eq hrow, ret_bind, wp_bind, entryScript, row_hsm hmaps,
    hrow, Option.map_some, Option.bind_some, ← List.append_assoc]
  exact wp_then (runEntry_moving hobeys hd hw) fun _ _ h => onEntry_moving hM h fun _ => rfl

/-- The hierarchical engine goes through its script. -/
theorem changeStateHSM_moving (hmax : M.maxStates < propagateToParent) (hd : d.isSome = true)
    (hne : a ≠ t) (hw : w.Moving fresh base lines a t) :
    (changeStateHSM M self nested rows a t d).wp
      (fun _ w' => fresh ∧ w'.Sees (base ++ (lines ++ moveScript M a t d)) t) (Halted base) w := by
  rcases changeStateHSM_cases hmaps hlen self nested hmax hne d with
    ⟨site, hhalt⟩ | hwalks
  · rw [hhalt]
    exact ⟨⟨site, rfl⟩, hw.silent⟩
  · rw [hwalks]
    simp only [wp_bind, wp_setCurrentState, wp_isEventPending]
    have hexit : ∀ s ∈ M.leaves a t, ∀ l w, World.Moving fresh base l a t w →
        (exitState M self nested rows s).wp
          (fun _ => World.Moving fresh base (l ++ exitScript M a s) a t) (Halted base) w := by
      intro s hs l w hw
      obtain ⟨row, hrow⟩ := row_of_leaves hmaps (.inl hs)
      exact exitState_moving hmaps hM hrow hw
    have henter : ∀ s ∈ M.enters a t, ∀ l w, World.Moving fresh base l t t w →
        (enterState M self nested rows d s).wp
          (fun _ => World.Moving fresh base (l ++ entryScript M t d s) t t) (Halted base) w := by
      intro s hs l w hw
      obtain ⟨row, hrow⟩ := row_of_leaves hmaps (.inr hs)
      exact enterState_moving hmaps hM hd hrow hw
    refine wp_then (each_wp_flatMap _ hexit _ _ hw) fun _ w₁ hw₁ => ?_
    have hset := hw₁.setCurrentState self fun _ => rfl
    refine wp_then (each_wp_flatMap _ henter _ _ hset) fun _ w₂ hw₂ => ?_
    simpa [moveScript] using assert_moving hw₂

variable (self nested) in
/-- Whatever the guard has posted, the event changes the state to the one that
was asked. -/
theorem moveHSM_asked {last : Option UInt8} (hmax : M.maxStates < propagateToParent)
    (hd : d.isSome = true) (hsilent : ∀ l ∈ lines, l.1.isAction = false)
    (hw : w.Asking (base ++ lines) a t last) :
    (moveHSM M self nested rows a t d).wp
      (fun _ w' => w'.Sees (base ++ (lines ++ moveScript M a t d)) t) (Halted base) w := by
  have hmoving : w.Moving (last = none) base lines a t :=
    { silent := ⟨lines, hw.seen, hsilent⟩
      course := fun hgen => by
        have hnone : last = none := by simpa [hw.pending] using hgen
        exact ⟨hnone, by simp [hw.newState, hnone], hw.toSees⟩ }
  unfold moveHSM
  split
  · next hne =>
      exact wp_then (changeStateHSM_moving hmaps hlen hM hmax hd (Ne.symm hne) hmoving)
        fun _ _ h => h.2
  · next heq =>
      have hat : t = a := Decidable.not_not.mp heq
      subst hat
      have hset := hw.toSees.setCurrentState self t
      simpa [moveScript, Machine.leaves, Machine.enters] using hset

end Hierarchical

/-! ## One dispatch -/

/-- A dispatch performs the transition it was asked for if the guard grants it,
and runs no action if not. -/
def Machine.Keeps (M : Machine σ δ) (w : World σ δ) (r : Except Stop Unit × World σ δ) : Prop :=
  (M.Grants w → M.Performs w r) ∧ (¬M.Grants w → r.2.Silent w.seen)

section Dispatch

variable {M : Machine σ δ} {self : Frame δ} {nested : Call δ → Fsm σ δ Unit} {w w' : World σ δ}
  {row : StateMapRowEx σ δ}

/-- A halt without an action leaves nothing to check. -/
theorem keeps_halted {e : Stop} (h : Halted w.seen e w') : M.Keeps w (.error e, w') := by
  refine ⟨fun _ => ?_, fun _ => h.2⟩
  obtain ⟨⟨site, he⟩, lines, hlines, hsilent⟩ := h
  exact ⟨lines, hlines, .inl ⟨⟨site, congrArg Except.error he⟩, hsilent⟩⟩

/-- Nothing has been written yet. -/
theorem silent_self (w : World σ δ) : w.Silent w.seen :=
  ⟨[], (List.append_nil _).symm, by simp⟩

/-- The guard gives its answer, and may post an event on the way. -/
theorem evalGuard_asked (hrow : M.row w.members.newState = some row)
    (hobeys : row.Obeys (fun _ => True) (fun _ => False))
    (hd : w.members.pEventData.isSome = true) :
    (evalGuard self nested w.members.newState row.guard w.members.pEventData).wp
      (fun g w' => ∃ last, M.answer w = some (g, last) ∧
        w'.Asking (w.seen ++ ((.consume w.members.newState w.members.pEventData,
          w.members.currentState) :: guardScript M w.members.currentState w.members.newState
            w.members.pEventData)) w.members.currentState w.members.newState last)
      (fun e w' => Halted w.seen e w' ∧ M.answer w = none) (w.consume self) := by
  have hconsume : (w.consume self).Asking (w.seen ++ [(.consume w.members.newState
      w.members.pEventData, w.members.currentState)]) w.members.currentState
      w.members.newState none :=
    { current := rfl
      seen := seen_consume
      newState := rfl
      pending := rfl }
  cases hguard : row.guard with
  | none =>
      have hanswer : M.answer w = some (true, none) := by
        simp [Machine.answer, hrow, hguard]
      refine ⟨none, hanswer, ?_⟩
      simpa [guardScript, hrow, hguard] using hconsume
  | some guard =>
      have hanswer : M.answer w = (guard w.members.pEventData).answer w.members.currentState
          w.user none := by
        simp [Machine.answer, hrow, hguard]
      have hasking := { hconsume.toSees.note self
          (o := .guard w.members.newState w.members.pEventData) rfl with
        newState := hconsume.newState
        pending := hconsume.pending : World.Asking _ _ _ _ _ }
      have hrun := Callback.run_answer self nested
        (hobeys.guard guard hguard w.members.pEventData) hasking
      rw [evalGuard, invokeGuardCondition, bind_eq, wp_bind, wp_record, bind_eq, wp_bind, hd]
      show wp (Callback.run self nested (guard w.members.pEventData)) _ _ _
      refine wp_mono hrun (fun g w' hw' => ?_) fun e w' hw' => ?_
      · obtain ⟨last, hlast, hw'⟩ := hw'
        refine ⟨last, hanswer.trans hlast, ?_⟩
        simpa [guardScript, hrow, hguard] using hw'
      · obtain ⟨he, hfail, hseen⟩ := hw'
        refine ⟨⟨⟨_, he⟩, _, hseen.trans (List.append_assoc ..), ?_⟩, hanswer.trans hfail⟩
        simp [Obs.isAction]

/-- After the change of state: the state action, and `OnTransition`. -/
theorem finish_performs (hM : M.Obeys (fun _ => True) (fun _ => False))
    (hobeys : row.Obeys (fun _ => True) (fun _ => False))
    (hw' : w'.Sees (w.seen ++ ((.consume w.members.newState w.members.pEventData,
        w.members.currentState) ::
      guardScript M w.members.currentState w.members.newState w.members.pEventData ++
      moveScript M w.members.currentState w.members.newState w.members.pEventData))
      w.members.newState) :
    ((runState self nested w.members.newState row.state w.members.pEventData).bind fun _ =>
      getCurrentState.bind fun c => onTransition M self nested w.members.currentState c).wp
      (fun _ v => M.Performs w (.ok (), v)) (fun e v => M.Performs w (.error e, v)) w' := by
  rw [wp_bind]
  cases hstate : row.state with
  | none =>
      refine ⟨_, hw'.seen, .inl ⟨⟨_, rfl⟩, ?_⟩⟩
      exact before_silent M _ _ _
  | some state =>
      rw [runState, invokeStateAction, bind_eq, wp_bind, wp_record]
      have haction := hw'.note self
        (o := .action w.members.newState w.members.pEventData) rfl
      rw [List.append_assoc] at haction
      refine wp_mono (Callback.run_wp sees_survives (hobeys.state state hstate _) haction)
        (fun _ w₁ hw₁ => ?_) fun e w₁ hw₁ => ?_
      · simp only [wp_bind, wp_getCurrentState, hw₁.current, onTransition, bind_eq, wp_record]
        have htransition := hw₁.note self
          (o := .onTransition w.members.currentState w.members.newState) rfl
        rw [List.append_assoc] at htransition
        refine wp_mono (Callback.run_wp sees_survives (hM.signals.onTransition _ _) htransition)
          (fun _ w₂ hw₂ => ⟨_, hw₂.seen, .inr (.inr rfl)⟩) fun e w₂ hw₂ => ?_
        exact ⟨_, hw₂.2, .inr (.inr rfl)⟩
      · exact ⟨_, hw₁.2, .inr (.inl ⟨⟨_, congrArg Except.error hw₁.1⟩, rfl⟩)⟩

/-- The only action that is run where a transition is performed is that of the
target, with the data of the event, and in the target. -/
theorem Machine.Performs.action {r : Except Stop Unit × World σ δ} (h : M.Performs w r)
    {lines : Script δ} (hseen : r.2.seen = w.seen ++ lines) {l : Obs δ × UInt8} (hl : l ∈ lines)
    (haction : l.1.isAction = true) :
    l = (.action w.members.newState w.members.pEventData, w.members.newState) := by
  obtain ⟨lines', hseen', h⟩ := h
  rw [hseen, List.append_cancel_left_eq] at hseen'
  subst hseen'
  have hscript (hmem : l ∈ transitionScript M w.members.currentState w.members.newState
      w.members.pEventData) :
      l = (.action w.members.newState w.members.pEventData, w.members.newState) := by
    cases List.mem_append.mp hmem with
    | inl hbefore => simp [before_silent M _ _ _ l hbefore] at haction
    | inr hlast => exact List.mem_singleton.mp hlast
  obtain ⟨-, hsilent⟩ | ⟨-, rfl⟩ | rfl := h
  · simp [hsilent l hl] at haction
  · exact hscript hl
  · cases List.mem_append.mp hl with
    | inl hmem => exact hscript hmem
    | inr hlast =>
        rw [List.mem_singleton.mp hlast] at haction
        contradiction

/-- What a guard that has answered leads to. -/
theorem keeps_answered {g : Bool} {last : Option UInt8} {r : Except Stop Unit × World σ δ}
    (hanswer : M.answer w = some (g, last)) (htrue : g = true → M.Performs w r)
    (hfalse : g = false → r.2.Silent w.seen) : M.Keeps w r := by
  constructor
  · rintro ⟨last', hlast'⟩
    rw [hanswer, Option.some.injEq, Prod.mk.injEq] at hlast'
    exact htrue hlast'.1
  · intro hnot
    cases g with
    | true => exact absurd ⟨last, hanswer⟩ hnot
    | false => exact hfalse rfl

variable (self nested) in
/-- The action of the state that the answer asks for. -/
theorem finish_keeps (hM : M.Obeys (fun _ => True) (fun _ => False))
    (hobeys : row.Obeys (fun _ => True) (fun _ => False)) {last : Option UInt8}
    (hanswer : M.answer w = some (true, last))
    (hw' : w'.Sees (w.seen ++ ((.consume w.members.newState w.members.pEventData,
        w.members.currentState) ::
      guardScript M w.members.currentState w.members.newState w.members.pEventData ++
      moveScript M w.members.currentState w.members.newState w.members.pEventData))
      w.members.newState) :
    ((runState self nested w.members.newState row.state w.members.pEventData).bind fun _ =>
      getCurrentState.bind fun c => onTransition M self nested w.members.currentState c).wp
      (fun _ v => M.Keeps w (.ok (), v)) (fun e v => M.Keeps w (.error e, v)) w' := by
  refine wp_mono (finish_performs hM hobeys hw') (fun _ v hv => ?_) fun e v hv => ?_
  · exact keeps_answered hanswer (fun _ => hv) (by simp)
  · exact keeps_answered hanswer (fun _ => hv) (by simp)

/-- Guards and moves write no action. -/
theorem World.Asking.silent {a t : UInt8} {d : EventPtr δ} {base : Script δ} {last : Option UInt8}
    (h : w'.Asking (base ++ ((.consume t d, a) :: guardScript M a t d)) a t last) :
    w'.Silent base := by
  refine ⟨_, h.seen, ?_⟩
  rw [List.forall_mem_cons]
  exact ⟨rfl, guardScript_silent M a t d⟩

/-- The extended flat engine, in a state of its own, keeps to the state it
asked, unless the guard deflects it. -/
theorem dispatchEx_keeps {rows : List (StateMapRowEx σ δ)} (hmaps : M.maps = .flat none (some rows))
    (hM : M.Obeys (fun _ => True) (fun _ => False)) (hslot : w.members.SlotConsistent)
    (hgen : w.members.eventGenerated = true) (hplaced : M.Placed w) (hnot : ¬M.Deflects w) :
    (dispatchEx M self nested rows).wp (fun _ v => M.Keeps w (.ok (), v))
      (fun e v => M.Keeps w (.error e, v)) w := by
  obtain ⟨hlen, hrows⟩ := hM.extended hmaps
  have hd : w.members.pEventData.isSome = true := hslot.isSome hgen
  obtain ⟨current, hcurrent⟩ := row_exists hlen (hplaced (by rw [hmaps]; trivial))
  simp only [dispatchEx, bind_eq, wp_bind, wp_getNewState, wp_getCurrentState, wp_consumeEvent]
  refine wp_assertTrue (fun hnew => ?_) fun _ => keeps_halted ⟨⟨_, rfl⟩, silent_self w⟩
  obtain ⟨row, hrow⟩ := row_exists hlen (of_decide_eq_true hnew)
  simp only [rowAt_eq hrow, wp_ret, rowAt_eq hcurrent]
  have hobeys := hrows row (List.mem_of_getElem? hrow)
  have hmrow : M.row w.members.newState = some row := (row_ex hmaps _).trans hrow
  refine wp_mono (evalGuard_asked hmrow hobeys hd) (fun g w₁ hw₁ => ?_)
    fun e w₁ hw₁ => keeps_halted hw₁.1
  obtain ⟨last, hanswer, hw₁⟩ := hw₁
  cases g with
  | false => exact keeps_answered hanswer (by simp) fun _ => hw₁.silent
  | true =>
      simp only [transitionEx, bind_eq, wp_bind, wp_getCurrentState, if_true]
      by_cases hlast : last = some w.members.currentState →
          w.members.newState = w.members.currentState
      · have hmove := moveEx_asked self nested hmaps hM hcurrent hrow hd
          (fun l hl => ?_) hlast hw₁
        · refine wp_mono hmove (fun _ w₂ hw₂ => ?_) fun e w₂ hw₂ => keeps_halted hw₂
          rw [hw₁.current]
          simpa only [wp_bind, wp_getCurrentState] using
            finish_keeps self nested hM hobeys hanswer hw₂
        · exact before_silent M _ _ _ l (List.mem_append_left _ hl)
      · -- deflected, but the state that was asked has no action to run
        obtain ⟨hposted, hne⟩ := Classical.not_imp.mp hlast
        have hstate : row.state = none := by
          by_contra hstate
          refine hnot ⟨by rw [hmaps]; trivial, hne, by rw [hanswer, hposted], ?_⟩
          simpa [hmrow] using Option.isSome_iff_ne_none.mpr hstate
        rw [hposted] at hw₁
        refine moveEx_deflected hw₁ ?_
        rw [hstate]
        exact keeps_halted ⟨⟨_, rfl⟩, hw₁.silent.setCurrentState _⟩

/-- The hierarchical engine always keeps to the state it asked. -/
theorem dispatchHSM_keeps {rows : List (StateMapRowHSM σ δ)} (hmaps : M.maps = .hsm (some rows))
    (hmax : M.maxStates < propagateToParent) (hM : M.Obeys (fun _ => True) (fun _ => False))
    (hslot : w.members.SlotConsistent) (hgen : w.members.eventGenerated = true) :
    (dispatchHSM M self nested rows).wp (fun _ v => M.Keeps w (.ok (), v))
      (fun e v => M.Keeps w (.error e, v)) w := by
  obtain ⟨hlen, hrows⟩ := hM.hierarchical hmaps
  have hd : w.members.pEventData.isSome = true := hslot.isSome hgen
  simp only [dispatchHSM, bind_eq, wp_bind, wp_getNewState, wp_consumeEvent]
  refine wp_assertTrue (fun hnew => ?_) fun _ => keeps_halted ⟨⟨_, rfl⟩, silent_self w⟩
  obtain ⟨row, hrow⟩ := row_exists hlen (of_decide_eq_true hnew)
  rw [rowAt_eq hrow, wp_ret]
  have hobeys := hrows row (List.mem_of_getElem? hrow)
  have hmrow : M.row w.members.newState = some row.toStateMapRowEx := by
    rw [row_hsm hmaps, hrow, Option.map_some]
  refine wp_mono (evalGuard_asked hmrow hobeys hd) (fun g w₁ hw₁ => ?_)
    fun e w₁ hw₁ => keeps_halted hw₁.1
  obtain ⟨last, hanswer, hw₁⟩ := hw₁
  cases g with
  | false => exact keeps_answered hanswer (by simp) fun _ => hw₁.silent
  | true =>
      simp only [transitionHSM, bind_eq, wp_bind, wp_getCurrentState, if_true, hw₁.current]
      have hmove := moveHSM_asked hmaps hlen self nested hM hmax hd
        (fun l hl => ?_) hw₁
      · refine wp_mono hmove (fun _ w₂ hw₂ => ?_) fun e w₂ hw₂ => keeps_halted hw₂
        simpa only [wp_bind, wp_getCurrentState] using
          finish_keeps self nested hM hobeys hanswer hw₂
      · exact before_silent M _ _ _ l (List.mem_append_left _ hl)

/-- Deflected, the extended flat engine runs the action of the state that was
asked in the state that was not left. -/
theorem dispatchEx_deflected {rows : List (StateMapRowEx σ δ)}
    (hmaps : M.maps = .flat none (some rows)) (hM : M.Obeys (fun _ => True) (fun _ => False))
    (hslot : w.members.SlotConsistent) (hgen : w.members.eventGenerated = true)
    (hplaced : M.Placed w) (hw : M.Deflects w) :
    (dispatchEx M self nested rows).wp (fun _ v => ¬M.Performs w (.ok (), v))
      (fun e v => ¬M.Performs w (.error e, v)) w := by
  obtain ⟨hlen, hrows⟩ := hM.extended hmaps
  have hd : w.members.pEventData.isSome = true := hslot.isSome hgen
  obtain ⟨current, hcurrent⟩ := row_exists hlen (hplaced hw.extended)
  obtain ⟨row, hrow, hstate⟩ : ∃ row, M.row w.members.newState = some row ∧
      row.state.isSome = true := by
    cases hrow : M.row w.members.newState with
    | none => simpa [hrow] using hw.action
    | some row => exact ⟨row, rfl, by simpa [hrow] using hw.action⟩
  obtain ⟨state, hstate⟩ := Option.isSome_iff_exists.mp hstate
  have hrow' : rows[w.members.newState.toNat]? = some row := (row_ex hmaps _).symm.trans hrow
  have hobeys := hrows row (List.mem_of_getElem? hrow')
  have hnew : w.members.newState < M.maxStates := by
    obtain ⟨hlt, -⟩ := List.getElem?_eq_some_iff.mp hrow'
    rw [hlen] at hlt
    exact UInt8.lt_iff_toNat_lt.mpr hlt
  have hran {r : Except Stop Unit × World σ δ} {before : Script δ}
      (hseen : w.seen ++ before ++ [(.action w.members.newState w.members.pEventData,
        w.members.currentState)] <+: r.2.seen) : ¬M.Performs w r := by
    intro h
    obtain ⟨after, hafter⟩ := hseen
    rw [List.append_assoc w.seen, List.append_assoc w.seen] at hafter
    have heq := h.action hafter.symm (List.mem_append_left _ (List.mem_append_right _
      List.mem_cons_self)) rfl
    rw [Prod.mk.injEq] at heq
    exact hw.other heq.2.symm
  simp only [dispatchEx, bind_eq, wp_bind, wp_getNewState, wp_getCurrentState, wp_consumeEvent,
    assertTrue, hnew, decide_true, if_true, wp_ret, rowAt_eq hrow', rowAt_eq hcurrent]
  refine wp_mono (evalGuard_asked hrow hobeys hd) (fun g w₁ hw₁ => ?_) fun e w₁ hw₁ => ?_
  · obtain ⟨last, hanswer, hw₁⟩ := hw₁
    rw [hw.answer, Option.some.injEq, Prod.mk.injEq] at hanswer
    obtain ⟨rfl, rfl⟩ := hanswer
    simp only [if_true, transitionEx, bind_eq, wp_bind, wp_getCurrentState, hw₁.current]
    refine moveEx_deflected hw₁ ?_
    rw [hstate, runState, invokeStateAction, bind_eq, wp_bind, wp_record]
    have haction := (hw₁.toSees.setCurrentState self w.members.currentState).note
      self (o := .action w.members.newState w.members.pEventData) rfl
    rw [List.append_assoc w.seen] at haction
    refine wp_mono (Callback.run_wp sees_survives (hobeys.state state hstate _) haction)
      (fun _ w₂ hw₂ => ?_) fun e w₂ hw₂ => hran ⟨[], (List.append_nil _).trans hw₂.2.symm⟩
    have htransition := hw₂.note self
      (o := .onTransition w.members.currentState w.members.currentState) rfl
    rw [hw₂.current, onTransition, bind_eq, wp_bind, wp_record]
    exact wp_mono (Callback.run_wp sees_survives (hM.signals.onTransition _ _) htransition)
      (fun _ w₃ hw₃ => hran ⟨_, hw₃.seen.symm⟩) fun e w₃ hw₃ => hran ⟨_, hw₃.2.symm⟩
  · rw [hw.answer] at hw₁
    exact absurd hw₁.2 (by simp)

/-- In a state that is none of its own, the extended flat engine reads past the
end of its map before it asks the guard. -/
theorem dispatchEx_misplaced {rows : List (StateMapRowEx σ δ)}
    (hmaps : M.maps = .flat none (some rows)) (hlen : rows.length = M.maxStates.toNat)
    (hgrants : M.Grants w) (hmisplaced : ¬w.members.currentState < M.maxStates) :
    ¬M.Performs w ((dispatchEx M self nested rows).run w) := by
  obtain ⟨last, hanswer⟩ := hgrants
  obtain ⟨row, hrow⟩ : ∃ row, M.row w.members.newState = some row := by
    cases hrow : M.row w.members.newState with
    | none => simp [Machine.answer, hrow] at hanswer
    | some row => exact ⟨row, rfl⟩
  have hrow' : rows[w.members.newState.toNat]? = some row := (row_ex hmaps _).symm.trans hrow
  have hnew : w.members.newState < M.maxStates := by
    obtain ⟨hlt, -⟩ := List.getElem?_eq_some_iff.mp hrow'
    rw [hlen] at hlt
    exact UInt8.lt_iff_toNat_lt.mpr hlt
  have hnone : rows[w.members.currentState.toNat]? = none := by
    refine List.getElem?_eq_none_iff.mpr ?_
    rw [hlen]
    exact Nat.le_of_not_lt fun h => hmisplaced (UInt8.lt_iff_toNat_lt.mpr h)
  have hread : (dispatchEx M self nested rows).wp (fun _ v => ¬M.Performs w (.ok (), v))
      (fun e v => ¬M.Performs w (.error e, v)) w := by
    simp only [dispatchEx, bind_eq, wp_bind, wp_getNewState, wp_getCurrentState, assertTrue, hnew,
      decide_true, if_true, wp_ret, rowAt_eq hrow']
    refine wp_rowAt (fun current hcurrent => ?_) fun _ => ?_
    · rw [hnone] at hcurrent
      contradiction
    · rintro ⟨lines, hlines, ⟨⟨site, he⟩, -⟩ | ⟨⟨site, he⟩, -⟩ | hall⟩
      · cases he
      · cases he
      · rw [hall, List.self_eq_append_right] at hlines
        simp at hlines
  exact wp_run (P := fun r => ¬M.Performs w r) hread

end Dispatch

/-! ## Every run -/

/-- Every state action has run in its own state. -/
def World.InPlace (w : World σ δ) : Prop :=
  ∀ e ∈ w.log, ∀ t d, e.obs = .action t d → e.members.currentState = t

section Runs

variable {M : Machine σ δ} {self : Frame δ} {nested : Call δ → Fsm σ δ Unit} {w w' : World σ δ}

/-- The same, line by line. -/
theorem inPlace_iff : w.InPlace ↔ ∀ l ∈ w.seen, ∀ t d, l.1 = .action t d → l.2 = t := by
  unfold World.InPlace World.seen
  rw [List.forall_mem_map]
  refine forall_congr' fun e => ?_
  rw [List.mem_filter]
  constructor
  · exact fun h he => h he.1
  · intro h he t d ht
    exact h ⟨he, by rw [ht]; rfl⟩ t d ht

/-- Lines that are in place themselves. -/
theorem World.InPlace.append {lines : Script δ} (h : w.InPlace)
    (hseen : w'.seen = w.seen ++ lines)
    (hlines : ∀ l ∈ lines, ∀ t d, l.1 = .action t d → l.2 = t) : w'.InPlace := by
  rw [inPlace_iff] at h ⊢
  rw [hseen, List.forall_mem_append]
  exact ⟨h, hlines⟩

/-- A line that is no action. -/
theorem World.InPlace.snoc {e : Entry δ} (h : w.InPlace) (hlog : w'.log = w.log ++ [e])
    (he : ∀ t d, e.obs ≠ .action t d) : w'.InPlace := by
  unfold World.InPlace
  rw [hlog, List.forall_mem_append, List.forall_mem_singleton]
  exact ⟨h, fun t d ht => absurd ht (he t d)⟩

/-- Where no action has been written. -/
theorem World.Silent.inPlace (h : w'.Silent w.seen) (hw : w.InPlace) : w'.InPlace := by
  obtain ⟨lines, hlines, hsilent⟩ := h
  refine hw.append hlines fun l hl t d ht => ?_
  have hnot := hsilent l hl
  rw [ht] at hnot
  contradiction

/-- An action in the state that was asked for is in place. -/
theorem Machine.Keeps.inPlace {r : Except Stop Unit × World σ δ} (h : M.Keeps w r)
    (hw : w.InPlace) : r.2.InPlace := by
  by_cases hgrants : M.Grants w
  · have hperforms := h.1 hgrants
    obtain ⟨lines, hlines, -⟩ := hperforms
    refine hw.append hlines fun l hl t d ht => ?_
    have heq := (h.1 hgrants).action hlines hl (by rw [ht]; rfl)
    subst heq
    cases ht
    rfl
  · exact (h.2 hgrants).inPlace hw

variable (hmaps : M.maps.IsExtended ∨ ∃ rows, M.maps = .hsm (some rows))
  (hmax : ∀ rows, M.maps = .hsm rows → M.maxStates < propagateToParent)
  (hM : M.Obeys (fun _ => True) (fun _ => False))

include hmaps hmax hM

variable (self nested) in
/-- A dispatch that is not deflected keeps to the state that was asked. -/
theorem dispatch_keeps (hslot : w.members.SlotConsistent)
    (hgen : w.members.eventGenerated = true) (hplaced : M.Placed w) (hnot : ¬M.Deflects w) :
    M.Keeps w ((dispatch M self nested).run w) := by
  cases hmaps with
  | inl hext =>
      obtain ⟨rows, hrows⟩ := hext.rows
      rw [dispatch_ex hrows]
      exact wp_run (P := M.Keeps w) (dispatchEx_keeps hrows hM hslot hgen hplaced hnot)
  | inr hhsm =>
      obtain ⟨rows, hrows⟩ := hhsm
      rw [dispatch_hsm hrows]
      exact wp_run (P := M.Keeps w) (dispatchHSM_keeps hrows (hmax _ hrows) hM hslot hgen)

/-- Where the guard grants the event, exactly the dispatches in a state of the
machine that are not deflected perform it. -/
theorem dispatch_performs_iff (hslot : w.members.SlotConsistent)
    (hgen : w.members.eventGenerated = true) (hgrants : M.Grants w) :
    M.Performs w ((dispatch M self nested).run w) ↔ M.Placed w ∧ ¬M.Deflects w := by
  constructor
  · intro hperforms
    have hplaced : M.Placed w := by
      intro hextended
      obtain ⟨rows, hrows⟩ := hextended.rows
      rw [dispatch_ex hrows] at hperforms
      by_contra hmisplaced
      exact dispatchEx_misplaced hrows (hM.extended hrows).1 hgrants hmisplaced hperforms
    refine ⟨hplaced, fun hdeflects => ?_⟩
    obtain ⟨rows, hrows⟩ := hdeflects.extended.rows
    rw [dispatch_ex hrows] at hperforms
    exact wp_run (P := fun r => ¬M.Performs w r)
      (dispatchEx_deflected hrows hM hslot hgen hplaced hdeflects) hperforms
  · rintro ⟨hplaced, hnot⟩
    exact (dispatch_keeps self nested hmaps hmax hM hslot hgen hplaced hnot).1 hgrants

variable (self) in
/-- A call each of whose dispatches is placed and not deflected. -/
theorem call_inPlace (hself : M.RunsOn self.thread) (n : Nat) (c : Call δ)
    (hnot : ∀ p ∈ callDispatches M self n c w, M.Placed p.1 ∧ ¬M.Deflects p.1)
    (hw : w.members.SlotConsistent ∧ w.InPlace) :
    (call M self n c).wp (fun _ w' => w'.members.SlotConsistent ∧ w'.InPlace)
      (fun _ w' => w'.InPlace) w := by
  cases n with
  | zero => exact hw.2
  | succ n =>
      have hsurvives : Survives self (call M self n) True False
          (fun w => w.members.SlotConsistent ∧ w.InPlace) fun _ (w : World σ δ) => w.InPlace :=
        { user := fun _ _ h => h
          fail := fun _ h => h.2
          post := fun _ w t d h =>
            ⟨slotConsistent_post w t d, h.2.snoc (post_log self w t d) (by simp)⟩
          raise := fun h => h.elim }
      refine call_wp_of hself (fun t ht => ?_) fun _ _ => hw.2
      refine externalEvent_wp_of hself (fun _ => hw) ?_ fun hignored hcannot => ?_
      · have hnote : (w.note self (.onCannotHappen w.members.currentState)).InPlace :=
          hw.2.snoc (note_log self w _) (by simp)
        exact wp_then (onCannotHappen_wp hsurvives (hM.signals.onCannotHappen _) ⟨hw.1, hnote⟩)
          fun _ _ h => h.2
      · have hstart : ((w.note self .start).post self t (c.eventData M
            w.members.currentState)).InPlace :=
          (hw.2.snoc (note_log self w _) (by simp)).snoc (post_log self _ _ _) (by simp)
        rw [stateEngine_loop hmaps]
        refine wp_then (Q := fun _ w' => (w'.members.SlotConsistent ∧ w'.InPlace) ∧
          w'.members.eventGenerated = false) ?_ fun _ w' hw' =>
            ⟨hw'.1.1, hw'.1.2.snoc (note_log self w' _) (by simp)⟩
        refine loop_wp_iterations n (fun v hv hI hgen => ?_) (fun _ h => h.2)
          ⟨slotConsistent_post _ _ _, hstart⟩
        have hmem : (v, (dispatch M self (call M self n)).run v) ∈
            callDispatches M self (n + 1) c w := by
          simp only [callDispatches, ht, hignored, hcannot, or_self, if_false]
          exact List.mem_map_of_mem hv
        have hkeeps := dispatch_keeps self (call M self n) hmaps hmax hM
          hI.1 hgen (hnot _ hmem).1 (hnot _ hmem).2
        exact wp_mono (wp_and_snd (dispatch_slot self hself n v hI.1 hgen) (hkeeps.inPlace hI.2))
          (fun _ _ h => h) fun _ _ h => h.2

end Runs

/-- **The state whose guard was asked is the state that is entered**, in every
run in which guards, actions and subscribers post internal events at will:
whenever the guard of a dequeued event returns `true` the engine faults before
a state action, or carries out the transition from the current state to the
target of the event, with the data of the event, exactly if the current state
is one of the machine's and the guard has not deflected the event.  In a run
whose dispatches all begin so, every state action runs in its own state. -/
theorem asked_is_entered (M : Machine σ δ) {thread : ThreadId} (hself : M.RunsOn thread)
    (hmaps : M.maps.IsExtended ∨ ∃ rows, M.maps = .hsm (some rows))
    (hM : M.Obeys (fun _ => True) (fun _ => False)) {s : UInt8} {members : Members δ}
    (hconstruct : construct M s = .ok members) (u : σ) (n : Nat) (cs : List (Call δ)) :
    (∀ p ∈ runDispatches M thread n cs (World.start members u),
      M.Grants p.1 → (M.Performs p.1 p.2 ↔ M.Placed p.1 ∧ ¬M.Deflects p.1)) ∧
    ((∀ p ∈ runDispatches M thread n cs (World.start members u),
        M.Placed p.1 ∧ ¬M.Deflects p.1) →
      ∀ e ∈ ((runCalls M thread n cs).run (World.start members u)).2.log,
        ∀ t d, e.obs = .action t d → e.members.currentState = t) := by
  have hmax (rows) (hrows : M.maps = .hsm rows) : M.maxStates < propagateToParent :=
    construct_hsm hconstruct hrows
  rw [construct_ok hconstruct]
  have hstart : (World.start { currentState := s } u : World σ δ).members.SlotConsistent := rfl
  constructor
  · intro p hp hgrants
    obtain ⟨hslot, hgen, self, nested, hr⟩ := mem_runDispatches hself hstart hp
    rw [hr]
    exact dispatch_performs_iff hmaps hmax hM hslot hgen hgrants
  · intro hnot
    have hrun : (runCalls M thread n cs).wp
        (fun _ w => w.members.SlotConsistent ∧ w.InPlace) (fun _ w => w.InPlace)
        (World.start { currentState := s } u) := by
      refine each_wp_visits (I := fun w : World σ δ => w.members.SlotConsistent ∧ w.InPlace) cs
        (fun p hp hI => ?_) ⟨hstart, by simp [World.InPlace, World.start]⟩
      have hcall (q) (hq : q ∈ callDispatches M ⟨thread, p.1⟩ n p.1 p.2) :
          M.Placed q.1 ∧ ¬M.Deflects q.1 :=
        hnot q (List.mem_flatMap.mpr ⟨p, hp, hq⟩)
      exact call_inPlace ⟨thread, p.1⟩ hmaps hmax hM hself n p.1 hcall hI
    exact wp_snd (P := World.InPlace) (wp_then hrun fun _ _ h => h.2)

/-- The guard of the second state recalls the first if the event has data, and
lets the event pass in any case. -/
def recalling : Machine Nat Nat where
  maxStates := 2
  maps := .flat none (some [{ state := some fun _ => .ret () },
    { state := some fun _ => .ret ()
      guard := some fun d => match d with
        | some (.data _) => .internalEvent 0 none (.ret true)
        | _ => .ret true }])
  maps_size := by simp [StateMaps.HasSize]

theorem recalling_obeys : recalling.Obeys (fun _ => True) (fun _ => False) where
  rows := by
    intro row hrow
    simp only [recalling, StateMaps.rows, Option.getD_none, Option.getD_some, List.map_nil,
      List.nil_append, List.mem_cons, List.not_mem_nil, or_false] at hrow
    obtain rfl | rfl := hrow
    · constructor <;> simp [Callback.Only]
    · constructor
      · simp [Callback.Only]
      · rintro f ⟨⟩ d
        cases d with
        | none => trivial
        | some d =>
            cases d with
            | noEventData => trivial
            | data _ => exact ⟨trivial, trivial⟩
      · simp
      · simp
  signals := by constructor <;> simp [recalling, Callback.Only]

/-- Events without data go to the second state and back. -/
theorem asked_is_entered_recalling :
    let cs : List (Call Nat) := [.externalEvent 1 none, .externalEvent 0 none]
    let r := (runCalls recalling 0 3 cs).run (World.start { currentState := 0 } 0)
    r.1 = .ok () ∧
      (runDispatches recalling 0 3 cs (World.start { currentState := 0 } 0)).length = 2 ∧
      (∀ p ∈ runDispatches recalling 0 3 cs (World.start { currentState := 0 } 0),
        recalling.Performs p.1 p.2) ∧
      ∀ e ∈ r.2.log, ∀ t d, e.obs = .action t d → e.members.currentState = t := by
  intro cs r
  have hself : recalling.RunsOn 0 := by simp [Machine.RunsOn, recalling]
  have hconstruct : construct recalling 0 = .ok { currentState := 0 } := rfl
  have hanswer : ∀ p ∈ runDispatches recalling 0 3 cs (World.start { currentState := 0 } 0),
      recalling.answer p.1 = some (true, none) := by decide
  have hplaced : ∀ p ∈ runDispatches recalling 0 3 cs (World.start { currentState := 0 } 0),
      p.1.members.currentState < recalling.maxStates := by decide
  have hnot : ∀ p ∈ runDispatches recalling 0 3 cs (World.start { currentState := 0 } 0),
      recalling.Placed p.1 ∧ ¬recalling.Deflects p.1 := by
    refine fun p hp => ⟨fun _ => hplaced p hp, fun h => ?_⟩
    have hanswered := h.answer
    rw [hanswer p hp] at hanswered
    simp at hanswered
  have hmain := asked_is_entered recalling hself (.inl trivial) recalling_obeys hconstruct 0 3 cs
  exact ⟨rfl, rfl, fun p hp => (hmain.1 p hp ⟨none, hanswer p hp⟩).mpr (hnot p hp), hmain.2 hnot⟩

/-- Asked in the first state, with data, the guard of the second lets the event
pass; the action of the second state then runs in the first. -/
theorem asked_not_entered :
    let r := (runCalls recalling 0 4 [.externalEvent 1 (some (.data 7))]).run
      (World.start { currentState := 0 } 0)
    recalling.RunsOn 0 ∧ recalling.Obeys (fun _ => True) (fun _ => False) ∧
      construct recalling 0 = .ok { currentState := 0 } ∧ r.1 = .ok () ∧
      r.2.log.map Entry.obs = [.start, .post 1 (some (.data 7)), .consume 1 (some (.data 7)),
        .guard 1 (some (.data 7)), .post 0 (some .noEventData), .setCurrentState 0,
        .action 1 (some (.data 7)), .onTransition 0 0, .consume 0 (some .noEventData),
        .setCurrentState 0, .action 0 (some .noEventData), .onTransition 0 0, .finish] ∧
      ∃ e ∈ r.2.log, e.obs = .action 1 (some (.data 7)) ∧ e.members.currentState = 0 :=
  ⟨by simp [Machine.RunsOn, recalling], recalling_obeys, rfl, rfl, rfl, by decide⟩

end ActiveFsm
