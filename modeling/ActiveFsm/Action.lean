import ActiveFsm.Machine

/-!
# ActiveFsm.Action

The actions the engines are made of: reads and writes of the members, the
event slot, assertions, subscripts, and the calls into user code.

`self` is what the executing thread is executing, and `nested` is how a call of
an external event function made by user code is executed; both are handed
down from the event function on the stack.
-/

namespace ActiveFsm

open Proc

variable {σ δ : Type}

/-! ## Members -/

/-- Append a line to the log. -/
def World.note (self : Frame δ) (o : Obs δ) (w : World σ δ) : World σ δ :=
  { w with log := w.log ++ [⟨self.thread, o, w.members⟩] }

/-- Record something that happens without changing a member. -/
def record (self : Frame δ) (o : Obs δ) : Fsm σ δ Unit := modify (World.note self o)

/-- `GetCurrentState()`. -/
def getCurrentState : Fsm σ δ UInt8 := act id fun w => ret w.members.currentState

/-- `GetNewState()`. -/
def getNewState : Fsm σ δ UInt8 := act id fun w => ret w.members.newState

/-- `IsEventPending()`. -/
def isEventPending : Fsm σ δ Bool := act id fun w => ret w.members.eventGenerated

/-- The write of `SetCurrentState`. -/
def World.setCurrentState (self : Frame δ) (s : UInt8) (w : World σ δ) : World σ δ :=
  { w with members := { w.members with currentState := s } }.note self (.setCurrentState s)

/-- `SetCurrentState(newState)`. -/
def setCurrentState (self : Frame δ) (s : UInt8) : Fsm σ δ Unit :=
  modify (World.setCurrentState self s)

/-- The data pointer `InternalEvent` stores: a null one becomes a new
`NoEventData`. -/
def makeData (pData : EventPtr δ) : EventPtr δ :=
  match pData with
  | none => some .noEventData
  | some d => some d

/-- The writes of `InternalEvent`. -/
def World.post (self : Frame δ) (newState : UInt8) (pData : EventPtr δ) (w : World σ δ) :
    World σ δ :=
  { w with members := { w.members with
      pEventData := makeData pData
      eventGenerated := true
      newState := newState } }.note self (.post newState (makeData pData))

/-- `InternalEvent(newState, pData)`. -/
def internalEvent (self : Frame δ) (newState : UInt8) (pData : EventPtr δ) : Fsm σ δ Unit :=
  modify (World.post self newState pData)

/-- The writes of `ConsumeEvent`. -/
def World.consume (self : Frame δ) (w : World σ δ) : World σ δ :=
  { w with members := { w.members with pEventData := none, eventGenerated := false } }.note self
    (.consume w.members.newState w.members.pEventData)

/-- `ConsumeEvent(pDataTemp)`.  The flat engines have the same three
statements inline. -/
def consumeEvent (self : Frame δ) : Fsm σ δ (EventPtr δ) :=
  act (World.consume self) fun w => ret w.members.pEventData

/-! ## Assertions and subscripts -/

/-- `DMQ_ASSERT_TRUE(condition)`. -/
def assertTrue (site : Site) (condition : Bool) : Fsm σ δ Unit :=
  if condition then ret () else halt (.fault site)

/-- The subscript `rows[i]`. -/
def subscript {α : Type} (rows : List α) (i : UInt8) : Except Stop α :=
  match rows[i.toNat]? with
  | some row => .ok row
  | none => .error (.outOfRange i)

/-- Go on with a value that was computed without looking at the world. -/
def orHalt {α : Type} : Except Stop α → Fsm σ δ α
  | .ok a => ret a
  | .error e => halt e

/-- The subscript `rows[i]` in the code of a machine. -/
def rowAt {α : Type} (rows : List α) (i : UInt8) : Fsm σ δ α := orHalt (subscript rows i)

/-! ## User code -/

/-- Execute a callback. -/
def Callback.run {ρ : Type} (self : Frame δ) (nested : Call δ → Fsm σ δ Unit) :
    Callback σ δ ρ → Fsm σ δ ρ
  | ret r => Proc.ret r
  | fail => halt (.fault .user)
  | update f k =>
      act (fun w => { w with user := f w.members.currentState w.user }) fun w =>
        (k w.members.currentState w.user).run self nested
  | internalEvent newState pData k => do
      ActiveFsm.internalEvent self newState pData
      k.run self nested
  | call c k => do
      record self (.raise c)
      nested c
      k.run self nested

section Hooks

variable (M : Machine σ δ) (self : Frame δ) (nested : Call δ → Fsm σ δ Unit)

/-- `GuardCondition::InvokeGuardCondition`. -/
def invokeGuardCondition (s : UInt8) (guard : EventPtr δ → Callback σ δ Bool)
    (data : EventPtr δ) : Fsm σ δ Bool := do
  record self (.guard s data)
  assertTrue .guardData data.isSome
  (guard data).run self nested

/-- `EntryAction::InvokeEntryAction`. -/
def invokeEntryAction (s : UInt8) (entry : EventPtr δ → Callback σ δ Unit)
    (data : EventPtr δ) : Fsm σ δ Unit := do
  record self (.entry s data)
  assertTrue .entryData data.isSome
  (entry data).run self nested

/-- `ExitAction::InvokeExitAction`. -/
def invokeExitAction (s : UInt8) (exit : Callback σ δ Unit) : Fsm σ δ Unit := do
  record self (.exit s)
  exit.run self nested

/-- `StateAction::InvokeStateAction`. -/
def invokeStateAction (s : UInt8) (state : EventPtr δ → Callback σ δ Unit)
    (data : EventPtr δ) : Fsm σ δ Unit := do
  record self (.action s data)
  (state data).run self nested

def onTransition (fromState toState : UInt8) : Fsm σ δ Unit := do
  record self (.onTransition fromState toState)
  (M.signals.onTransition fromState toState).run self nested

def onEntry (s : UInt8) : Fsm σ δ Unit := do
  record self (.onEntry s)
  (M.signals.onEntry s).run self nested

def onExit (s : UInt8) : Fsm σ δ Unit := do
  record self (.onExit s)
  (M.signals.onExit s).run self nested

def onCannotHappen (s : UInt8) : Fsm σ δ Unit := do
  record self (.onCannotHappen s)
  (M.signals.onCannotHappen s).run self nested

/-- `if (guard != nullptr) guardResult = guard->InvokeGuardCondition(...)`. -/
def evalGuard (s : UInt8) (guard : Option (EventPtr δ → Callback σ δ Bool)) (data : EventPtr δ) :
    Fsm σ δ Bool :=
  match guard with
  | none => ret true
  | some guard => invokeGuardCondition self nested s guard data

/-- `if (entry != nullptr) entry->InvokeEntryAction(...)`. -/
def runEntry (s : UInt8) (entry : Option (EventPtr δ → Callback σ δ Unit)) (data : EventPtr δ) :
    Fsm σ δ Unit :=
  match entry with
  | none => ret ()
  | some entry => invokeEntryAction self nested s entry data

/-- `if (exit != nullptr) exit->InvokeExitAction(this)`. -/
def runExit (s : UInt8) (exit : Option (Callback σ δ Unit)) : Fsm σ δ Unit :=
  match exit with
  | none => ret ()
  | some exit => invokeExitAction self nested s exit

/-- `DMQ_ASSERT_TRUE(state != nullptr); state->InvokeStateAction(...)`. -/
def runState (s : UInt8) (state : Option (EventPtr δ → Callback σ δ Unit)) (data : EventPtr δ) :
    Fsm σ δ Unit :=
  match state with
  | none => halt (.fault .nullState)
  | some state => invokeStateAction self nested s state data

end Hooks

/-! ## What the actions do to the world -/

section Members

variable (self : Frame δ) (w : World σ δ)

/-- What the actions do to the members, and what they log. -/
@[simp] theorem note_members (o : Obs δ) : (w.note self o).members = w.members := rfl

@[simp] theorem note_log (o : Obs δ) :
    (w.note self o).log = w.log ++ [⟨self.thread, o, w.members⟩] := rfl

@[simp] theorem setCurrentState_members (s : UInt8) :
    (w.setCurrentState self s).members = { w.members with currentState := s } := rfl

@[simp] theorem setCurrentState_log (s : UInt8) :
    (w.setCurrentState self s).log =
      w.log ++ [⟨self.thread, .setCurrentState s, { w.members with currentState := s }⟩] := rfl

@[simp] theorem post_members (t : UInt8) (d : EventPtr δ) :
    (w.post self t d).members =
      { w.members with pEventData := makeData d, eventGenerated := true, newState := t } := rfl

@[simp] theorem post_log (t : UInt8) (d : EventPtr δ) :
    (w.post self t d).log = w.log ++ [⟨self.thread, .post t (makeData d),
      { w.members with pEventData := makeData d, eventGenerated := true, newState := t }⟩] := rfl

@[simp] theorem consume_members :
    (w.consume self).members = { w.members with pEventData := none, eventGenerated := false } :=
  rfl

@[simp] theorem consume_log :
    (w.consume self).log = w.log ++
      [⟨self.thread, .consume w.members.newState w.members.pEventData,
        { w.members with pEventData := none, eventGenerated := false }⟩] := rfl

/-- `InternalEvent` never stores a null pointer. -/
@[simp] theorem isSome_makeData (d : EventPtr δ) : (makeData d).isSome = true := by
  cases d <;> rfl

end Members

section Wp

variable {self : Frame δ} {E : Stop → World σ δ → Prop} {w : World σ δ}

/-- What holds after a step, in terms of what held before. -/
@[simp] theorem wp_getCurrentState {Q : UInt8 → World σ δ → Prop} :
    getCurrentState.wp Q E = fun w => Q w.members.currentState w := rfl

@[simp] theorem wp_getNewState {Q : UInt8 → World σ δ → Prop} :
    getNewState.wp Q E = fun w => Q w.members.newState w := rfl

@[simp] theorem wp_isEventPending {Q : Bool → World σ δ → Prop} :
    isEventPending.wp Q E = fun w => Q w.members.eventGenerated w := rfl

@[simp] theorem wp_record {Q : Unit → World σ δ → Prop} (o : Obs δ) :
    (record self o).wp Q E = fun w => Q () (w.note self o) := rfl

@[simp] theorem wp_setCurrentState {Q : Unit → World σ δ → Prop} (s : UInt8) :
    (setCurrentState self s).wp Q E = fun w => Q () (w.setCurrentState self s) := rfl

@[simp] theorem wp_internalEvent {Q : Unit → World σ δ → Prop} (t : UInt8) (d : EventPtr δ) :
    (internalEvent self t d).wp Q E = fun w => Q () (w.post self t d) := rfl

@[simp] theorem wp_consumeEvent {Q : EventPtr δ → World σ δ → Prop} :
    (consumeEvent self).wp Q E = fun w => Q w.members.pEventData (w.consume self) := rfl

/-- `ASSERT_TRUE` goes on where the condition holds. -/
theorem wp_assertTrue {Q : Unit → World σ δ → Prop} {site : Site} {c : Bool}
    (hQ : c = true → Q () w) (hE : c = false → E (.fault site) w) :
    (assertTrue site c).wp Q E w := by
  cases c with
  | true => exact hQ rfl
  | false => exact hE rfl

/-- A computation that may stop the machine. -/
theorem wp_orHalt {α : Type} {x : Except Stop α} {Q : α → World σ δ → Prop}
    (hQ : ∀ a, x = .ok a → Q a w) (hE : ∀ e, x = .error e → E e w) : (orHalt x).wp Q E w := by
  cases x with
  | ok a => exact hQ a rfl
  | error e => exact hE e rfl

/-- A subscript in range is an element, any other one is undefined behaviour. -/
theorem subscript_eq {α : Type} (rows : List α) (i : UInt8) :
    subscript rows i = (rows[i.toNat]?).elim (.error (.outOfRange i)) .ok := by
  unfold subscript
  cases rows[i.toNat]? <;> rfl

/-- Reading a row of a map. -/
theorem wp_rowAt {α : Type} {rows : List α} {i : UInt8} {Q : α → World σ δ → Prop}
    (hQ : ∀ row, rows[i.toNat]? = some row → Q row w)
    (hE : rows[i.toNat]? = none → E (.outOfRange i) w) : (rowAt rows i).wp Q E w := by
  rw [rowAt, subscript_eq]
  cases h : rows[i.toNat]? with
  | some row => exact hQ row h
  | none => exact hE h

/-- Reading a row that exists. -/
theorem rowAt_eq {α : Type} {rows : List α} {i : UInt8} {row : α}
    (h : rows[i.toNat]? = some row) : (rowAt rows i : Fsm σ δ α) = ret row := by
  rw [rowAt, subscript_eq, h]
  rfl

/-- The same of a map that is seen as another one. -/
theorem rowAt_map {α β : Type} (f : α → β) {rows : List α} {i : UInt8} {row : α}
    (h : rows[i.toNat]? = some row) : (rowAt (rows.map f) i : Fsm σ δ β) = ret (f row) := by
  apply rowAt_eq
  rw [List.getElem?_map, h]
  rfl

/-- A map of `n` rows has one for every state below `n`. -/
theorem toNat_lt_length {α : Type} {rows : List α} {n s : UInt8} (hlen : rows.length = n.toNat)
    (hs : s < n) : s.toNat < rows.length := by
  rw [hlen]
  exact UInt8.lt_iff_toNat_lt.mp hs

/-- Each state of a machine has a row. -/
theorem row_exists {α : Type} {rows : List α} {n s : UInt8} (hlen : rows.length = n.toNat)
    (hs : s < n) : ∃ row, rows[s.toNat]? = some row :=
  ⟨_, List.getElem?_eq_getElem (toNat_lt_length hlen hs)⟩

/-- A subscript below the length of the array. -/
theorem wp_rowAt_of_lt {α : Type} {rows : List α} {i : UInt8} {Q : α → World σ δ → Prop}
    (hi : i.toNat < rows.length) (hQ : ∀ row ∈ rows, rows[i.toNat]? = some row → Q row w) :
    (rowAt rows i).wp Q E w := by
  refine wp_rowAt (fun row hrow => hQ row (List.mem_of_getElem? hrow) hrow) fun hnone => ?_
  have hlen := List.getElem?_eq_none_iff.mp hnone
  omega

end Wp

section Run

variable {α : Type} {self : Frame δ} (w : World σ δ)

/-- The same steps as equations between whole runs. -/
@[simp] theorem run_getCurrentState (g : UInt8 → Fsm σ δ α) :
    (getCurrentState.bind g).run w = (g w.members.currentState).run w := rfl

@[simp] theorem run_getNewState (g : UInt8 → Fsm σ δ α) :
    (getNewState.bind g).run w = (g w.members.newState).run w := rfl

@[simp] theorem run_consumeEvent (g : EventPtr δ → Fsm σ δ α) :
    ((consumeEvent self).bind g).run w = (g w.members.pEventData).run (w.consume self) := rfl

@[simp] theorem run_record (o : Obs δ) (g : Unit → Fsm σ δ α) :
    ((record self o).bind g).run w = (g ()).run (w.note self o) := rfl

@[simp] theorem run_internalEvent (t : UInt8) (d : EventPtr δ) (g : Unit → Fsm σ δ α) :
    ((internalEvent self t d).bind g).run w = (g ()).run (w.post self t d) := rfl

@[simp] theorem run_setCurrentState (s : UInt8) (g : Unit → Fsm σ δ α) :
    ((setCurrentState self s).bind g).run w = (g ()).run (w.setCurrentState self s) := rfl

end Run

/-! ## What user code can do to an assertion -/

/-- `I` outlives user code that posts internal events if `posts` and raises
external ones if `raises`: it depends neither on the user's own data nor, where
they are allowed, on posts and external events. -/
structure Survives (caller : Frame δ) (nested : Call δ → Fsm σ δ Unit) (posts raises : Prop)
    (I : World σ δ → Prop) (E : Stop → World σ δ → Prop) : Prop where
  user : ∀ w u, I w → I { w with user := u }
  fail : ∀ w, I w → E (.fault .user) w
  post : posts → ∀ w t d, I w → I (w.post caller t d)
  raise : raises → ∀ w c, I w → (nested c).wp (fun _ => I) E (w.note caller (.raise c))

section UserCode

variable {self : Frame δ} {nested : Call δ → Fsm σ δ Unit} {posts raises : Prop}
  {I : World σ δ → Prop} {E : Stop → World σ δ → Prop} {w : World σ δ} {ρ : Type}

/-- A callback keeps what survives user code. -/
theorem Callback.run_wp (h : Survives self nested posts raises I E) {cb : Callback σ δ ρ}
    (hcb : cb.Only posts raises) (hw : I w) : (cb.run self nested).wp (fun _ => I) E w := by
  induction cb generalizing w with
  | ret r => exact hw
  | fail => exact h.fail w hw
  | update f k ih => exact ih _ _ (hcb _ _) (h.user w _ hw)
  | internalEvent t d k ih => exact ih hcb.2 (h.post hcb.1 w t d hw)
  | call c k ih =>
      rw [Callback.run, bind_eq, wp_bind, wp_record, bind_eq, wp_bind]
      exact wp_then (h.raise hcb.1 w c hw) fun _ w' hw' => ih hcb.2 hw'

/-- A callback about which nothing is known. -/
theorem only_true (cb : Callback σ δ ρ) : cb.Only True True := by
  induction cb with
  | ret r => trivial
  | fail => trivial
  | update f k ih => exact ih
  | internalEvent t d k ih => exact ⟨trivial, ih⟩
  | call c k ih => exact ⟨trivial, ih⟩

/-- A callback that raises no external event runs the same whatever such an
event would do. -/
theorem Callback.run_nested (nested' : Call δ → Fsm σ δ Unit) {cb : Callback σ δ ρ}
    (hcb : cb.Only posts False) : cb.run self nested = cb.run self nested' := by
  induction cb with
  | ret r => rfl
  | fail => rfl
  | update f k ih =>
      simp only [Callback.run, act.injEq, true_and]
      funext w
      exact ih _ _ (hcb _ _)
  | internalEvent t d k ih => simp only [Callback.run, ih hcb.2]
  | call c k ih => exact hcb.1.elim

/-- A guard, called with its data. -/
theorem invokeGuardCondition_wp (h : Survives self nested posts raises I E) {s : UInt8}
    {guard : EventPtr δ → Callback σ δ Bool} {d : EventPtr δ} (hg : (guard d).Only posts raises)
    (hd : d.isSome = false → E (.fault .guardData) (w.note self (.guard s d)))
    (hw : I (w.note self (.guard s d))) :
    (invokeGuardCondition self nested s guard d).wp (fun _ => I) E w := by
  rw [invokeGuardCondition, bind_eq, wp_bind, wp_record, bind_eq, wp_bind]
  exact wp_assertTrue (fun _ => Callback.run_wp h hg hw) hd

/-- An entry action, called with its data. -/
theorem invokeEntryAction_wp (h : Survives self nested posts raises I E) {s : UInt8}
    {entry : EventPtr δ → Callback σ δ Unit} {d : EventPtr δ} (he : (entry d).Only posts raises)
    (hd : d.isSome = false → E (.fault .entryData) (w.note self (.entry s d)))
    (hw : I (w.note self (.entry s d))) :
    (invokeEntryAction self nested s entry d).wp (fun _ => I) E w := by
  rw [invokeEntryAction, bind_eq, wp_bind, wp_record, bind_eq, wp_bind]
  exact wp_assertTrue (fun _ => Callback.run_wp h he hw) hd

/-- An exit action, which has no data. -/
theorem invokeExitAction_wp (h : Survives self nested posts raises I E) {s : UInt8}
    {exit : Callback σ δ Unit} (hx : exit.Only posts raises) (hw : I (w.note self (.exit s))) :
    (invokeExitAction self nested s exit).wp (fun _ => I) E w := by
  rw [invokeExitAction, bind_eq, wp_bind, wp_record]
  exact Callback.run_wp h hx hw

/-- A state action, called with its data. -/
theorem invokeStateAction_wp (h : Survives self nested posts raises I E) {s : UInt8}
    {state : EventPtr δ → Callback σ δ Unit} {d : EventPtr δ} (hs : (state d).Only posts raises)
    (hw : I (w.note self (.action s d))) :
    (invokeStateAction self nested s state d).wp (fun _ => I) E w := by
  rw [invokeStateAction, bind_eq, wp_bind, wp_record]
  exact Callback.run_wp h hs hw

/-! ## What the hooks do -/

/-- The guard of a row, where there may be none. -/
theorem evalGuard_wp (h : Survives self nested posts raises I E) {s : UInt8}
    {guard : Option (EventPtr δ → Callback σ δ Bool)} {d : EventPtr δ}
    {Q : Bool → World σ δ → Prop} (hg : ∀ f ∈ guard, (f d).Only posts raises)
    (hd : d.isSome = true) (hnone : Q true w) (hsome : ∀ g w', I w' → Q g w')
    (hnote : I (w.note self (.guard s d))) : (evalGuard self nested s guard d).wp Q E w := by
  cases guard with
  | none => exact hnone
  | some guard =>
      have hdata (hn : d.isSome = false) : E (.fault .guardData) (w.note self (.guard s d)) := by
        rw [hd] at hn
        contradiction
      exact wp_then (invokeGuardCondition_wp h (hg guard rfl) hdata hnote) hsome

/-- The entry action of a row, where there may be none. -/
theorem runEntry_wp (h : Survives self nested posts raises I E) {s : UInt8}
    {entry : Option (EventPtr δ → Callback σ δ Unit)} {d : EventPtr δ}
    (he : ∀ f ∈ entry, (f d).Only posts raises) (hd : d.isSome = true)
    (hnote : I w → I (w.note self (.entry s d))) (hw : I w) :
    (runEntry self nested s entry d).wp (fun _ => I) E w := by
  cases entry with
  | none => exact hw
  | some entry =>
      have hdata (hn : d.isSome = false) : E (.fault .entryData) (w.note self (.entry s d)) := by
        rw [hd] at hn
        contradiction
      exact invokeEntryAction_wp h (he entry rfl) hdata (hnote hw)

/-- The exit action of a row, where there may be none. -/
theorem runExit_wp (h : Survives self nested posts raises I E) {s : UInt8}
    {exit : Option (Callback σ δ Unit)} (hx : ∀ c ∈ exit, c.Only posts raises)
    (hnote : I w → I (w.note self (.exit s))) (hw : I w) :
    (runExit self nested s exit).wp (fun _ => I) E w := by
  cases exit with
  | none => exact hw
  | some exit => exact invokeExitAction_wp h (hx exit rfl) (hnote hw)

/-- The state action of a row, which must not be null. -/
theorem runState_wp (h : Survives self nested posts raises I E) {s : UInt8}
    {state : Option (EventPtr δ → Callback σ δ Unit)} {d : EventPtr δ}
    (hs : ∀ f ∈ state, (f d).Only posts raises) (hnull : E (.fault .nullState) w)
    (hnote : I (w.note self (.action s d))) :
    (runState self nested s state d).wp (fun _ => I) E w := by
  cases state with
  | none => exact hnull
  | some state => exact invokeStateAction_wp h (hs state rfl) hnote

variable {M : Machine σ δ}

/-- The subscribers of `OnTransition`. -/
theorem onTransition_wp (h : Survives self nested posts raises I E) {s t : UInt8}
    (hsub : (M.signals.onTransition s t).Only posts raises)
    (hnote : I (w.note self (.onTransition s t))) :
    (onTransition M self nested s t).wp (fun _ => I) E w := by
  rw [onTransition, bind_eq, wp_bind, wp_record]
  exact Callback.run_wp h hsub hnote

/-- The subscribers of `OnEntry`. -/
theorem onEntry_wp (h : Survives self nested posts raises I E) {s : UInt8}
    (hsub : (M.signals.onEntry s).Only posts raises) (hnote : I (w.note self (.onEntry s))) :
    (onEntry M self nested s).wp (fun _ => I) E w := by
  rw [onEntry, bind_eq, wp_bind, wp_record]
  exact Callback.run_wp h hsub hnote

/-- The subscribers of `OnExit`. -/
theorem onExit_wp (h : Survives self nested posts raises I E) {s : UInt8}
    (hsub : (M.signals.onExit s).Only posts raises) (hnote : I (w.note self (.onExit s))) :
    (onExit M self nested s).wp (fun _ => I) E w := by
  rw [onExit, bind_eq, wp_bind, wp_record]
  exact Callback.run_wp h hsub hnote

/-- The subscribers of `OnCannotHappen`. -/
theorem onCannotHappen_wp (h : Survives self nested posts raises I E) {s : UInt8}
    (hsub : (M.signals.onCannotHappen s).Only posts raises)
    (hnote : I (w.note self (.onCannotHappen s))) :
    (onCannotHappen M self nested s).wp (fun _ => I) E w := by
  rw [onCannotHappen, bind_eq, wp_bind, wp_record]
  exact Callback.run_wp h hsub hnote

end UserCode

end ActiveFsm
