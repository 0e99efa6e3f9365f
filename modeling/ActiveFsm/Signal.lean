import Mathlib.Logic.Function.Basic

/-!
# ActiveFsm.Signal

`Signal` and `ScopedConnection`: the blocks that hold the subscriber lists,
the connection handles, and the snapshots of the emissions in progress.

Everything is used by one thread.  A slot that is being called may do whatever
the program may do, an emission included, so the emissions in progress form a
stack: only the innermost one goes on.
-/

namespace ActiveFsm

/-- A `shared_ptr<DelegateBase>`, to the copy that `Connect` makes of its
argument: `address` tells the copies apart, `target` is what is called. -/
structure DelegatePtr (β : Type) where
  address : Nat
  target : β
  deriving DecidableEq, Repr

/-- `SignalState`. -/
structure SignalState (β : Type) where
  alive : Bool := true
  delegates : List (DelegatePtr β) := []

/-- `SignalSnapshot`. -/
structure SignalSnapshot (β : Type) where
  smallBuf : List (Option (DelegatePtr β))
  largeBuf : List (DelegatePtr β) := []
  count : Nat

/-- `Connection`: `ctx1` is the address of a `SignalState`, `ctx2` that of a
copy of a delegate, and `disconnectFn` whether `m_disconnect_fn` is set. -/
structure Connection where
  ctx1 : Option Nat := none
  ctx2 : Option Nat := none
  disconnectFn : Bool := false
  connected : Bool := false
  deriving DecidableEq, Repr

/-- A call of `operator()` that has not returned. -/
structure Emission (β : Type) where
  number : Nat
  snapshot : SignalSnapshot β
  index : Nat := 0

/-- Who uses signals, and how. -/
inductive SignalOp (β : Type) where
  | construct (signal : Nat)
  | destruct (signal : Nat)
  | connect (handle signal : Nat) (delegate : Option β)
  | emptyHandle (handle : Nat)
  | moveConstruct (handle other : Nat)
  | moveAssign (handle other : Nat)
  | disconnect (handle : Nat)
  | destroy (handle : Nat)
  | clear (signal : Nat)
  | emit (signal : Nat)
  | call
  | finish
  deriving DecidableEq, Repr

/-- The signals of a program, its `ScopedConnection` variables and its
emissions in progress, innermost first.  `calls` records which copy was called
by which emission. -/
structure SignalStore (β : Type) where
  states : Nat → SignalState β := fun _ => {}
  allocated : Nat := 0
  copies : Nat := 0
  signals : Nat → Option Nat := fun _ => none
  handles : Nat → Option Connection := fun _ => none
  emissions : List (Emission β) := []
  emitted : Nat := 0
  calls : List (Nat × DelegatePtr β) := []

variable {β : Type}

/-! ## Snapshots -/

namespace SignalSnapshot

/-- `small_buf[i++] = d` for every `d`. -/
def fill (buf : List (Option (DelegatePtr β))) (i : Nat) :
    List (DelegatePtr β) → List (Option (DelegatePtr β))
  | [] => buf
  | d :: ds => fill (buf.set i (some d)) (i + 1) ds

/-- `SignalGetSnapshot`, with `SIGNAL_SBO_COUNT`. -/
def get (sboCount : Nat) (state : SignalState β) : SignalSnapshot β :=
  if state.delegates.length ≤ sboCount then
    { smallBuf := fill (List.replicate sboCount none) 0 state.delegates
      count := state.delegates.length }
  else
    { smallBuf := List.replicate sboCount none
      largeBuf := state.delegates
      count := state.delegates.length }

/-- What `InvokeSnapshot` finds at an index: nothing at the end of its loop. -/
def visit (sboCount : Nat) (s : SignalSnapshot β) (i : Nat) : Option (Option (DelegatePtr β)) :=
  if s.count ≤ sboCount then
    if i < s.count then s.smallBuf[i]? else none
  else s.largeBuf[i]?.map some

/-- A snapshot holds the subscribers in their order. -/
theorem fill_getElem? (buf : List (Option (DelegatePtr β))) (i : Nat)
    (ds : List (DelegatePtr β)) (hroom : i + ds.length ≤ buf.length) (j : Nat) :
    (fill buf i ds)[j]? =
      if i ≤ j ∧ j < i + ds.length then ds[j - i]?.map some else buf[j]? := by
  induction ds generalizing buf i with
  | nil =>
      rw [fill, if_neg]
      intro hj
      simp only [List.length_nil] at hj
      omega
  | cons d ds ih =>
      simp only [List.length_cons] at hroom ⊢
      rw [fill, ih (buf.set i (some d)) (i + 1) (by rw [List.length_set]; omega)]
      by_cases hj : i = j
      · subst hj
        rw [if_neg (by omega), if_pos (by omega), Nat.sub_self, List.getElem?_set_self (by omega)]
        rfl
      · rw [List.getElem?_set_ne hj]
        by_cases hin : i + 1 ≤ j ∧ j < i + 1 + ds.length
        · rw [if_pos hin, if_pos (by omega), show j - i = j - (i + 1) + 1 by omega,
            List.getElem?_cons_succ]
        · rw [if_neg hin, if_neg (by omega)]

/-- Both kinds of buffer give the subscribers back, in their order. -/
theorem visit_get (sboCount : Nat) (state : SignalState β) (i : Nat) :
    visit sboCount (get sboCount state) i = state.delegates[i]?.map some := by
  unfold get
  split
  · next hsmall =>
    rw [visit, if_pos hsmall]
    by_cases hi : i < state.delegates.length
    · rw [if_pos hi, fill_getElem? _ _ _ (by rw [List.length_replicate]; omega),
        if_pos (by omega), Nat.sub_zero]
    · rw [if_neg hi, List.getElem?_eq_none (by omega)]
      rfl
  · next hlarge => rw [visit, if_neg hlarge]

end SignalSnapshot

/-! ## SignalStore and handles -/

namespace SignalStore

section Operations

variable (sboCount : Nat) (s : SignalStore β) (signal handle other : Nat)

/-- `xmake_shared<SignalState>()`; its address is `s.allocated`. -/
def makeState : SignalStore β :=
  { s with
    states := Function.update s.states s.allocated {}
    allocated := s.allocated + 1 }

/-- `alive = false`, and the list is cleared. -/
def kill (state : Nat) : SignalStore β :=
  { s with states := Function.update s.states state { alive := false, delegates := [] } }

def setHandle (conn : Option Connection) : SignalStore β :=
  { s with handles := Function.update s.handles handle conn }

/-- `Signal()`. -/
def construct : Option (SignalStore β) :=
  match s.signals signal with
  | none => some { s.makeState with
      signals := Function.update s.signals signal (some s.allocated) }
  | some _ => none

/-- `~Signal()`. -/
def destruct : Option (SignalStore β) :=
  match s.signals signal with
  | some state => some { s.kill state with signals := Function.update s.signals signal none }
  | none => none

/-- `Clear()`. -/
def clear : Option (SignalStore β) :=
  match s.signals signal with
  | some oldState => some (kill { s.makeState with
      signals := Function.update s.signals signal (some s.allocated) } oldState)
  | none => none

/-- `Size()`. -/
def size : Option Nat :=
  (s.signals signal).map fun state => (s.states state).delegates.length

/-- `ScopedConnection handle = signal.Connect(delegate)`, for a delegate or a
`UnicastDelegate`, which may be empty. -/
def connect (delegate : Option β) : Option (SignalStore β) :=
  match s.handles handle, s.signals signal with
  | none, some state =>
      match delegate with
      | some target =>
          let copy : DelegatePtr β := { address := s.copies, target := target }
          let before := s.states state
          some { s with
            states := Function.update s.states state
              { before with delegates := before.delegates ++ [copy] }
            copies := s.copies + 1
            handles := Function.update s.handles handle (some {
              ctx1 := some state
              ctx2 := some copy.address
              disconnectFn := true
              connected := true }) }
      | none => some (s.setHandle handle (some {}))
  | _, _ => none

/-- `ScopedConnection handle;`. -/
def emptyHandle : Option (SignalStore β) :=
  match s.handles handle with
  | none => some (s.setHandle handle (some {}))
  | some _ => none

/-- `SignalDisconnectImpl`; a null pointer must not be used. -/
def signalDisconnectImpl (stateVoid copyVoid : Option Nat) : Option (SignalStore β) :=
  match stateVoid with
  | some state =>
      let before := s.states state
      let left := before.delegates.filter fun d => some d.address ≠ copyVoid
      if before.alive then
        some { s with
          states := Function.update s.states state { before with delegates := left } }
      else some s
  | none => none

/-- `Connection::Disconnect`: the signals and the connection after it. -/
def disconnectConnection (conn : Connection) : Option (SignalStore β × Connection) :=
  if conn.connected then
    if conn.disconnectFn then
      (s.signalDisconnectImpl conn.ctx1 conn.ctx2).map fun s => (s, {})
    else some (s, {})
  else some (s, conn)

/-- `handle.Disconnect()`. -/
def disconnect : Option (SignalStore β) :=
  match s.handles handle with
  | some conn => (s.disconnectConnection conn).map fun r => r.1.setHandle handle (some r.2)
  | none => none

/-- `~ScopedConnection()`. -/
def destroy : Option (SignalStore β) :=
  match s.handles handle with
  | some conn => (s.disconnectConnection conn).map fun r => r.1.setHandle handle none
  | none => none

/-- `ScopedConnection handle(std::move(other))`: all that `other` keeps is
reset. -/
def moveConstruct : Option (SignalStore β) :=
  match s.handles handle, s.handles other with
  | none, some conn => some ((s.setHandle other (some {})).setHandle handle (some conn))
  | _, _ => none

/-- `Connection::operator=(Connection&&)` on the members of two handles. -/
def assignConnection : Option (SignalStore β) :=
  (s.disconnect handle).bind fun s =>
    (s.handles other).map fun conn =>
      (s.setHandle other (some {})).setHandle handle (some conn)

/-- `handle = std::move(other)`. -/
def moveAssign : Option (SignalStore β) :=
  match s.handles handle, s.handles other with
  | some _, some _ =>
      if handle = other then some s
      else (s.disconnect handle).bind fun s => s.assignConnection handle other
  | _, _ => none

/-- `signal()`, up to its first slot. -/
def emit : Option (SignalStore β) :=
  match s.signals signal with
  | some state => some { s with
      emissions :=
        { number := s.emitted, snapshot := .get sboCount (s.states state) } :: s.emissions
      emitted := s.emitted + 1 }
  | none => none

/-- The innermost emission goes on to its next slot: the slot it has called
last has returned. -/
def call : Option (SignalStore β) :=
  match s.emissions with
  | e :: rest =>
      (e.snapshot.visit sboCount e.index).map fun d => { s with
        emissions := { e with index := e.index + 1 } :: rest
        calls := s.calls ++ (d.map fun d => (e.number, d)).toList }
  | [] => none

/-- The innermost emission is at the end of its loop and returns. -/
def finish : Option (SignalStore β) :=
  match s.emissions with
  | e :: rest =>
      match e.snapshot.visit sboCount e.index with
      | none => some { s with emissions := rest }
      | some _ => none
  | [] => none

def step : SignalOp β → Option (SignalStore β)
  | .construct signal => s.construct signal
  | .destruct signal => s.destruct signal
  | .connect handle signal delegate => s.connect signal handle delegate
  | .emptyHandle handle => s.emptyHandle handle
  | .moveConstruct handle other => s.moveConstruct handle other
  | .moveAssign handle other => s.moveAssign handle other
  | .disconnect handle => s.disconnect handle
  | .destroy handle => s.destroy handle
  | .clear signal => s.clear signal
  | .emit signal => s.emit sboCount signal
  | .call => s.call sboCount
  | .finish => s.finish sboCount

end Operations

end SignalStore

end ActiveFsm
