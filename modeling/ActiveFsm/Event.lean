import ActiveFsm.Flat
import ActiveFsm.Hierarchy

/-!
# ActiveFsm.Event

External events: `ExternalEvent`, the event functions the transition-map
macros expand to, and their marshalling to the machine's thread.

An external event raised by user code runs nested in the event being
processed, so the code below is a recursion through `nested`; `call` ties the
knot with a bound on the nesting (and on the iterations of each loop), which
`Stop.outOfFuel` reports when it is reached.
-/

namespace ActiveFsm

open Proc

variable {σ δ : Type} (M : Machine σ δ) (self : Frame δ)

/-! ## Marshalling -/

/-- `IsOnStateMachineThread()`. -/
def isOnStateMachineThread : Bool :=
  match M.thread with
  | none => true
  | some thread => thread = self.thread

/-- The machine is synchronous, or `thread` is the thread it was given. -/
def Machine.RunsOn (thread : ThreadId) : Prop := ∀ t ∈ M.thread, t = thread

/-- The check on the thread succeeds there. -/
theorem isOn_of_runsOn {M : Machine σ δ} {self : Frame δ} (h : M.RunsOn self.thread) :
    isOnStateMachineThread M self = true := by
  unfold isOnStateMachineThread
  cases ht : M.thread with
  | none => rfl
  | some thread => simpa using h thread ht

/-- The message `MakeDelegate(this, ..., *thread)(...)` queues. -/
def message (d : Delegate δ) : DelegateMsg (Message δ) := { body := ⟨self, d⟩ }

/-- Apply an operation of the queue. -/
def World.onQueue (f : ThreadQueue (Message δ) → ThreadQueue (Message δ)) (w : World σ δ) :
    World σ δ := { w with queue := f w.queue }

/-- `StdlibThread::DispatchDelegate(msg)`: the check before the mutex is
taken, the critical section, and under `FullPolicy::TIMEOUT` the wait for
space in its middle. -/
def dispatchDelegate (msg : DelegateMsg (Message δ)) : Fsm σ δ Bool :=
  act id fun w =>
    if w.queue.exit then ret false
    else act (World.onQueue fun q => q.tryPush msg) fun w =>
      if w.queue.full then
        match w.queue.fullPolicy with
        | .drop => ret false
        | .fault => halt (.fault .queueFull)
        | .timeout =>
            await (fun w => w.queue.mayProceed) (World.onQueue fun q => q.pushUnlessExit msg) fun
              | some w => ret !w.queue.exit
              | none => ret false
      else ret !w.queue.exit

/-- `MakeDelegate(this, ..., *thread)(...)` of an asynchronous delegate, whose
caller does not look at the outcome. -/
def marshal (d : Delegate δ) : Fsm σ δ Unit := do
  let _ ← dispatchDelegate (message self d)
  ret ()

/-! ## `ExternalEvent` -/

section External

variable (nested : Call δ → Fsm σ δ Unit) (n : Nat)

/-- The virtual `StateEngine()`. -/
def stateEngine : Fsm σ δ Unit :=
  match M.maps with
  | .flat (some rows) _ => stateEnginePlain M self nested rows n
  | .flat none (some rows) => stateEngineEx M self nested rows n
  | .flat none none => halt (.fault .stateMap)
  | .hsm (some rows) => stateEngineHSM M self nested rows n
  | .hsm none => halt (.fault .stateMap)

/-- The engine of a machine with an extended map. -/
theorem stateEngine_ex {rows : List (StateMapRowEx σ δ)} (h : M.maps = .flat none (some rows)) :
    stateEngine M self nested n = stateEngineEx M self nested rows n := by
  simp only [stateEngine, h]

/-- The engine of a machine with a hierarchical map. -/
theorem stateEngine_hsm {rows : List (StateMapRowHSM σ δ)} (h : M.maps = .hsm (some rows)) :
    stateEngine M self nested n = stateEngineHSM M self nested rows n := by
  simp only [stateEngine, h]

/-- `ExternalEventImpl(newState, pData)`. -/
def externalEventImpl (newState : UInt8) (pData : EventPtr δ) : Fsm σ δ Unit := do
  record self .start
  internalEvent self newState pData
  stateEngine M self nested n
  record self .finish

/-- `ExternalEvent(newState, pData)`. -/
def externalEvent (newState : UInt8) (pData : EventPtr δ) : Fsm σ δ Unit :=
  if newState = eventIgnored then ret ()
  else if newState = cannotHappen then do
    onCannotHappen M self nested (← getCurrentState)
    halt (.fault .cannotHappen)
  else if isOnStateMachineThread M self then externalEventImpl M self nested n newState pData
  else marshal self (.externalEventImpl newState pData)

/-! ## Event functions -/

/-- The rows `GetStateMapHSM()` points to, none where it is null. -/
def rowsHSM : List (StateMapRowHSM σ δ) :=
  match M.maps with
  | .hsm (some rows) => rows
  | _ => []

/-- The `while (_resolved == PROPAGATE_TO_PARENT)` loop of
`END_TRANSITION_MAP_HSM`. -/
def resolve (f : EventFunction δ) : Nat → UInt8 → UInt8 → Except Stop UInt8
  | left, state, resolved =>
    if resolved = propagateToParent then
      match left with
      | 0 => .error .outOfFuel
      | left + 1 => do
        let row ← subscript (rowsHSM M) state
        if f.transitions.length ≤ row.parentState.toNat then .ok eventIgnored
        else do
          let next ← subscript f.transitions row.parentState
          resolve f left row.parentState next
    else .ok resolved

/-- What `END_TRANSITION_MAP` or `END_TRANSITION_MAP_HSM` passes to
`ExternalEvent` when the current state is `state`. -/
def lookupTransition (f : EventFunction δ) (state : UInt8) : Except Stop UInt8 := do
  let entry ← subscript f.transitions state
  if f.hsm then resolve M f n state entry else .ok entry

/-- `END_TRANSITION_MAP(data)` or `END_TRANSITION_MAP_HSM(data)`. -/
def endTransitionMap (f : EventFunction δ) : Fsm σ δ Unit := do
  assertTrue .transitionMap (decide ((← getCurrentState).toNat < f.transitions.length))
  let target ← orHalt (lookupTransition M n f (← getCurrentState))
  externalEvent M self nested n target f.data

/-- `BEGIN_TRANSITION_MAP ... END_TRANSITION_MAP`: off the machine's thread
the function queues a call of itself. -/
def transitionMap (f : EventFunction δ) : Fsm σ δ Unit :=
  if isOnStateMachineThread M self then endTransitionMap M self nested n f
  else marshal self (.event f)

/-- `GetCurrentState() >= ST_MAX_STATES && GetCurrentState() < GetMaxStates()`
of `PARENT_TRANSITION`, two loads of the current state. -/
def inDerivedRange (f : EventFunction δ) : Fsm σ δ Bool := do
  let s ← getCurrentState
  if f.transitions.length ≤ s.toNat then do
    let s ← getCurrentState
    ret (decide (s < M.maxStates))
  else ret false

/-- The body of an event function. -/
def eventFunction (f : EventFunction δ) : Fsm σ δ Unit :=
  match f.parentTransition with
  | none => transitionMap M self nested n f
  | some state => do
      if ← inDerivedRange M f then externalEvent M self nested n state none
      else transitionMap M self nested n f

end External

/-! ## Calls -/

/-- Execute a call of an external event function; user code nests at most `n`
deep. -/
def call : Nat → Call δ → Fsm σ δ Unit
  | 0, _ => halt .outOfFuel
  | n + 1, .externalEvent newState pData => externalEvent M self (call n) n newState pData
  | n + 1, .event f => eventFunction M self (call n) n f

/-- Execute calls one after the other on one thread. -/
def runCalls (thread : ThreadId) (n : Nat) (cs : List (Call δ)) : Fsm σ δ Unit :=
  each (fun c => call M ⟨thread, c⟩ n c) cs

/-- Calls of `ExternalEvent` itself. -/
def externalEvents (events : List (UInt8 × EventPtr δ)) : List (Call δ) :=
  events.map fun event => .externalEvent event.1 event.2

/-- The calls of a list of events. -/
theorem exists_of_mem_externalEvents {events : List (UInt8 × EventPtr δ)} {c : Call δ}
    (hc : c ∈ externalEvents events) : ∃ t d, c = .externalEvent t d := by
  obtain ⟨event, -, rfl⟩ := List.mem_map.mp hc
  exact ⟨event.1, event.2, rfl⟩

/-- `Invoke` of a queued delegate, on the machine's thread. -/
def invoke (thread : ThreadId) : Nat → Message δ → Fsm σ δ Unit
  | 0, _ => halt .outOfFuel
  | n + 1, ⟨sender, .externalEventImpl newState pData⟩ =>
      let self : Frame δ := ⟨thread, sender.call⟩
      externalEventImpl M self (call M self n) n newState pData
  | n + 1, ⟨sender, .event f⟩ => call M ⟨thread, sender.call⟩ (n + 1) (.event f)

/-- The world of a machine that has just been constructed. -/
def World.start (members : Members δ) (user : σ) : World σ δ :=
  { members := members, user := user }

/-- The constructors only initialise the members. -/
theorem construct_ok {M : Machine σ δ} {s : UInt8} {members : Members δ}
    (h : construct M s = .ok members) : members = { currentState := s } := by
  unfold construct at h
  split at h
  · split at h
    · exact (Except.ok.inj h).symm
    · split at h
      · exact (Except.ok.inj h).symm
      · contradiction
  · contradiction

/-- The constructor of a hierarchical machine keeps the sentinels out of its
states. -/
theorem construct_hsm {M : Machine σ δ} {rows : Option (List (StateMapRowHSM σ δ))} {s : UInt8}
    {members : Members δ} (h : construct M s = .ok members) (hmaps : M.maps = .hsm rows) :
    M.maxStates < propagateToParent := by
  unfold construct at h
  rw [hmaps] at h
  refine Decidable.byContradiction fun hmax => ?_
  simp [hmax] at h

/-! ## The three outcomes of an external event -/

/-- The three ways of `ExternalEvent` on the machine's thread. -/
theorem externalEvent_wp_of {M : Machine σ δ} {self : Frame δ} {nested : Call δ → Fsm σ δ Unit}
    {n : Nat} {t : UInt8} {d : EventPtr δ} {w : World σ δ} {Q : Unit → World σ δ → Prop}
    {E : Stop → World σ δ → Prop} (hself : M.RunsOn self.thread)
    (hignored : t = eventIgnored → Q () w)
    (hcannot : (onCannotHappen M self nested w.members.currentState).wp
      (fun _ => E (.fault .cannotHappen)) E w)
    (himpl : t ≠ eventIgnored → t ≠ cannotHappen →
      (stateEngine M self nested n).wp (fun _ w' => Q () (w'.note self .finish)) E
        ((w.note self .start).post self t d)) :
    (externalEvent M self nested n t d).wp Q E w := by
  unfold externalEvent
  rw [isOn_of_runsOn hself]
  split
  · next h => exact hignored h
  · next hne =>
      split
      · simpa only [bind_eq, wp_bind, wp_getCurrentState, wp_halt] using hcannot
      · next hne' =>
          simp only [externalEventImpl, bind_eq, wp_bind, wp_record, wp_internalEvent, if_true]
          exact himpl hne hne'

/-! ## What a lookup can come to -/

section Lookup

variable {M : Machine σ δ} {f : EventFunction δ}

/-- A subscript out of range is no fault. -/
theorem subscript_error {α : Type} {rows : List α} {i : UInt8} {e : Stop}
    (h : subscript rows i = .error e) (site : Site) : e ≠ .fault site := by
  rw [subscript_eq] at h
  cases hrow : rows[i.toNat]? with
  | some row => simp [hrow] at h
  | none =>
      rw [hrow] at h
      cases h
      simp

/-- Either part of a sequence may be what failed. -/
theorem except_bind_error {α β : Type} {x : Except Stop α} {g : α → Except Stop β} {e : Stop}
    (h : x >>= g = .error e) : x = .error e ∨ ∃ a, x = .ok a ∧ g a = .error e := by
  cases x with
  | error e' => exact .inl (congrArg Except.error (Except.error.inj h))
  | ok a => exact .inr ⟨a, rfl, h⟩

/-- Nor does the resolution assert anything. -/
theorem resolve_error {left : Nat} {state resolved : UInt8} {e : Stop}
    (h : resolve M f left state resolved = .error e) (site : Site) : e ≠ .fault site := by
  induction left generalizing state resolved with
  | zero =>
      unfold resolve at h
      split at h
      · cases h
        simp
      · contradiction
  | succ left ih =>
      unfold resolve at h
      split at h
      · obtain hrow | ⟨row, -, h⟩ := except_bind_error h
        · exact subscript_error hrow site
        · split at h
          · contradiction
          · obtain hnext | ⟨next, -, h⟩ := except_bind_error h
            · exact subscript_error hnext site
            · exact ih h
      · contradiction

/-- A lookup fails no assertion: it indexes out of range, or does not end. -/
theorem lookupTransition_error {n : Nat} {state : UInt8} {e : Stop}
    (h : lookupTransition M n f state = .error e) (site : Site) : e ≠ .fault site := by
  obtain hentry | ⟨entry, -, h⟩ := except_bind_error h
  · exact subscript_error hentry site
  · split at h
    · exact resolve_error h site
    · contradiction

/-- More fuel does not change what a lookup has come to. -/
theorem resolve_mono {left n : Nat} (hle : left ≤ n) {state resolved : UInt8}
    (h : resolve M f left state resolved ≠ .error .outOfFuel) :
    resolve M f n state resolved = resolve M f left state resolved := by
  induction left generalizing n state resolved with
  | zero =>
      have hdone : resolved ≠ propagateToParent := by
        intro hpropagate
        exact h (by simp [resolve, hpropagate])
      unfold resolve
      rw [if_neg hdone, if_neg hdone]
  | succ left ih =>
      obtain ⟨n, rfl⟩ : ∃ m, n = m + 1 := ⟨n - 1, by omega⟩
      unfold resolve at h ⊢
      split
      · next hpropagate =>
          rw [if_pos hpropagate] at h
          cases hrow : subscript (rowsHSM M) state with
          | error e => rfl
          | ok row =>
              simp only [hrow, Bind.bind, Except.bind] at h ⊢
              split
              · rfl
              · next hinside =>
                  rw [if_neg hinside] at h
                  cases hnext : subscript f.transitions row.parentState with
                  | error e => rfl
                  | ok next =>
                      simp only [hnext] at h ⊢
                      exact ih (by omega) h
      · rfl

/-- More turns find the same target. -/
theorem lookupTransition_mono {left n : Nat} (hle : left ≤ n) {state : UInt8}
    (h : lookupTransition M left f state ≠ .error .outOfFuel) :
    lookupTransition M n f state = lookupTransition M left f state := by
  unfold lookupTransition at h ⊢
  cases hentry : subscript f.transitions state with
  | error e => rfl
  | ok entry =>
      simp only [hentry, Bind.bind, Except.bind] at h ⊢
      split
      · next hhsm =>
          rw [if_pos hhsm] at h
          exact resolve_mono hle h
      · rfl

end Lookup

/-! ## What a call on the machine's thread comes to -/

/-- `GetCurrentState() >= ST_MAX_STATES && GetCurrentState() < GetMaxStates()`
when the current state is `s`. -/
def EventFunction.InDerivedRange (f : EventFunction δ) (M : Machine σ δ) (s : UInt8) : Prop :=
  f.transitions.length ≤ s.toNat ∧ s < M.maxStates

instance (f : EventFunction δ) (M : Machine σ δ) (s : UInt8) : Decidable (f.InDerivedRange M s) :=
  inferInstanceAs (Decidable (_ ∧ _))

section Prescribed

variable (n : Nat)

/-- What the transition map of `f` passes to `ExternalEvent` in state `s`. -/
def EventFunction.mapTarget (f : EventFunction δ) (s : UInt8) : Except Stop UInt8 :=
  if s.toNat < f.transitions.length then lookupTransition M n f s
  else .error (.fault .transitionMap)

/-- The new state a call prescribes for a machine in state `s`, as the bodies
of the event functions compute it. -/
def Call.target (s : UInt8) : Call δ → Except Stop UInt8
  | .externalEvent newState _ => .ok newState
  | .event f =>
    match f.parentTransition with
    | none => f.mapTarget M n s
    | some state => if f.InDerivedRange M s then .ok state else f.mapTarget M n s

/-- The data the call attaches to its event in state `s`. -/
def Call.eventData (s : UInt8) : Call δ → EventPtr δ
  | .externalEvent _ pData => pData
  | .event f => if f.parentTransition.isSome ∧ f.InDerivedRange M s then none else f.data

end Prescribed

section Target

variable {M : Machine σ δ} {self : Frame δ} {n : Nat} {w : World σ δ}

/-- An event function raises what it looks up. -/
theorem endTransitionMap_run (nested : Call δ → Fsm σ δ Unit) (f : EventFunction δ) :
    (endTransitionMap M self nested n f).run w =
      ((orHalt (f.mapTarget M n w.members.currentState)).bind fun t =>
        externalEvent M self nested n t f.data).run w := by
  by_cases hs : w.members.currentState.toNat < f.transitions.length
  · simp [endTransitionMap, getCurrentState, EventFunction.mapTarget, assertTrue, run, hs]
  · simp [endTransitionMap, getCurrentState, EventFunction.mapTarget, assertTrue, orHalt, run, hs]

/-- **A call on the machine's thread** looks up its target in the current state
and raises the external event. -/
theorem call_run (hself : M.RunsOn self.thread) (c : Call δ) :
    (call M self (n + 1) c).run w =
      ((orHalt (c.target M n w.members.currentState)).bind fun t =>
        externalEvent M self (call M self n) n t (c.eventData M w.members.currentState)).run w := by
  cases c with
  | externalEvent t d => rfl
  | event f =>
      have hmap : (transitionMap M self (call M self n) n f).run w =
          ((orHalt (f.mapTarget M n w.members.currentState)).bind fun t =>
            externalEvent M self (call M self n) n t f.data).run w := by
        rw [transitionMap, isOn_of_runsOn hself, if_pos rfl, endTransitionMap_run]
      cases hp : f.parentTransition with
      | none =>
          rw [call, eventFunction]
          simp only [hp, hmap, Call.target, Call.eventData, Option.isSome_none, Bool.false_eq_true,
            false_and, if_false]
      | some p =>
          rw [call, eventFunction]
          by_cases hlen : f.transitions.length ≤ w.members.currentState.toNat
          · by_cases hmax : w.members.currentState < M.maxStates
            · simp [hp, inDerivedRange, getCurrentState, Call.target, Call.eventData,
                EventFunction.InDerivedRange, orHalt, run, hlen, hmax]
            · simp [hp, inDerivedRange, getCurrentState, Call.target, Call.eventData,
                EventFunction.InDerivedRange, run, hlen, hmax, hmap]
          · simp [hp, inDerivedRange, getCurrentState, Call.target, Call.eventData,
              EventFunction.InDerivedRange, run, hlen, hmap]

/-- A specification of a call is one of the event it raises. -/
theorem call_wp_of {Q : Unit → World σ δ → Prop} {E : Stop → World σ δ → Prop}
    (hself : M.RunsOn self.thread) {c : Call δ}
    (hQ : ∀ t, c.target M n w.members.currentState = .ok t →
      (externalEvent M self (call M self n) n t
        (c.eventData M w.members.currentState)).wp Q E w)
    (hE : ∀ e, c.target M n w.members.currentState = .error e → E e w) :
    (call M self (n + 1) c).wp Q E w := by
  rw [wp_congr (call_run hself c), wp_bind]
  exact wp_orHalt hQ hE

/-- More fuel does not change what a call has come to. -/
theorem target_mono {left n : Nat} (hle : left ≤ n) {c : Call δ} {s : UInt8}
    (h : c.target M left s ≠ .error .outOfFuel) : c.target M n s = c.target M left s := by
  have hmap (f : EventFunction δ) (h : f.mapTarget M left s ≠ .error .outOfFuel) :
      f.mapTarget M n s = f.mapTarget M left s := by
    unfold EventFunction.mapTarget at h ⊢
    split
    · next hs =>
        rw [if_pos hs] at h
        exact lookupTransition_mono hle h
    · rfl
  cases c with
  | externalEvent t d => rfl
  | event f =>
      cases hparent : f.parentTransition with
      | none =>
          simp only [Call.target, hparent] at h ⊢
          exact hmap f h
      | some state =>
          simp only [Call.target, hparent] at h ⊢
          split
          · rfl
          · next hrange =>
              rw [if_neg hrange] at h
              exact hmap f h

/-- A call that comes to nothing fails the assertion of its transition map,
indexes out of range, or does not end. -/
theorem target_error {c : Call δ} {s : UInt8} {e : Stop} (h : c.target M n s = .error e)
    (site : Site) (hsite : site ≠ .transitionMap) : e ≠ .fault site := by
  have hmap (f : EventFunction δ) (h : f.mapTarget M n s = .error e) : e ≠ .fault site := by
    unfold EventFunction.mapTarget at h
    split at h
    · exact lookupTransition_error h site
    · cases h
      simpa using hsite.symm
  cases c with
  | externalEvent t d => simp [Call.target] at h
  | event f =>
      simp only [Call.target] at h
      split at h
      · exact hmap f h
      · split at h
        · contradiction
        · exact hmap f h

end Target

end ActiveFsm
