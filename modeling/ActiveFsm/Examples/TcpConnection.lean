import ActiveFsm.Abstraction
import ActiveFsm.Bare
import Mathlib.Data.List.Induction

/-!
# ActiveFsm.Examples.TcpConnection

A connection after RFC 793, an active object.  `HandlePacket` looks at the
flags of a packet in a `switch` over the current state; `TIME_WAIT` leads to
`CLOSED` at once.
-/

namespace ActiveFsm

open Proc Transition

namespace TcpConnection

/-! ## The machine -/

/-- The flags of a packet. -/
structure TcpData where
  syn : Bool := false
  ack : Bool := false
  fin : Bool := false
  rst : Bool := false
  deriving DecidableEq, Repr

def stClosed : UInt8 := 0

def stListen : UInt8 := 1

def stSynSent : UInt8 := 2

def stSynRcvd : UInt8 := 3

def stEstablished : UInt8 := 4

def stFinWait1 : UInt8 := 5

def stFinWait2 : UInt8 := 6

def stCloseWait : UInt8 := 7

def stClosing : UInt8 := 8

def stLastAck : UInt8 := 9

def stTimeWait : UInt8 := 10

def stMaxStates : UInt8 := 11

/-- The state functions that print their name only. -/
def quiet (_ : EventPtr TcpData) : Callback Unit TcpData Unit := .ret ()

def timeWait (_ : EventPtr TcpData) : Callback Unit TcpData Unit :=
  .internalEvent stClosed none (.ret ())

/-- Ten rows of state functions that print their name, and the one of
`ST_TIME_WAIT`. -/
def stateMap : List (StateMapRowEx Unit TcpData) :=
  List.replicate 10 { state := some quiet } ++ [{ state := some timeWait }]

def tcpConnection (thread : Option ThreadId) : Machine Unit TcpData where
  maxStates := stMaxStates
  maps := .flat none (some stateMap)
  thread := thread
  maps_size := by simp [StateMaps.HasSize, stMaxStates, stateMap]

def activeOpen : Call TcpData :=
  .event { transitions := stSynSent :: List.replicate 10 eventIgnored }

def passiveOpen : Call TcpData :=
  .event { transitions := stListen :: List.replicate 10 eventIgnored }

def send : Call TcpData :=
  .event
    { transitions := [cannotHappen, stSynSent, eventIgnored, eventIgnored, eventIgnored,
        cannotHappen, cannotHappen, cannotHappen, cannotHappen, cannotHappen, cannotHappen] }

def close : Call TcpData :=
  .event
    { transitions := [eventIgnored, stClosed, stClosed, stFinWait1, stFinWait1, eventIgnored,
        eventIgnored, stLastAck, eventIgnored, eventIgnored, eventIgnored] }

/-- The `switch` of `HandlePacket`. -/
def nextState (data : TcpData) (state : UInt8) : UInt8 :=
  if state = stListen then if data.syn then stSynRcvd else eventIgnored
  else if state = stSynSent then
    if data.syn && data.ack then stEstablished
    else if data.syn then stSynRcvd
    else eventIgnored
  else if state = stSynRcvd then if data.ack then stEstablished else eventIgnored
  else if state = stEstablished then if data.fin then stCloseWait else eventIgnored
  else if state = stFinWait1 then
    if data.fin && data.ack then stTimeWait
    else if data.fin then stClosing
    else if data.ack then stFinWait2
    else eventIgnored
  else if state = stFinWait2 then if data.fin then stTimeWait else eventIgnored
  else if state = stClosing then if data.ack then stTimeWait else eventIgnored
  else if state = stLastAck then if data.ack then stClosed else eventIgnored
  else eventIgnored

/-- `HandlePacket` is marshalled as the event functions are and ends in the same
`ExternalEvent`; in each of the states its `switch` is a transition map. -/
def handlePacket (data : TcpData) : Call TcpData :=
  .event
    { transitions := [stClosed, stListen, stSynSent, stSynRcvd, stEstablished, stFinWait1,
        stFinWait2, stCloseWait, stClosing, stLastAck, stTimeWait].map (nextState data)
      data := some (.data data) }

/-! ## The connection at rest -/

/-- The operations. -/
inductive Op where
  | activeOpen
  | passiveOpen
  | send
  | close
  | packet (data : TcpData)
  deriving DecidableEq, Repr

def perform : Op → Call TcpData
  | .activeOpen => TcpConnection.activeOpen
  | .passiveOpen => TcpConnection.passiveOpen
  | .send => TcpConnection.send
  | .close => TcpConnection.close
  | .packet data => handlePacket data

/-- A connection between two operations; it never waits in `TIME_WAIT`. -/
inductive Rest where
  | closed
  | listen
  | synSent
  | synRcvd
  | established
  | finWait1
  | finWait2
  | closeWait
  | closing
  | lastAck
  deriving DecidableEq, Repr

def Rest.state : Rest → UInt8
  | closed => stClosed
  | listen => stListen
  | synSent => stSynSent
  | synRcvd => stSynRcvd
  | established => stEstablished
  | finWait1 => stFinWait1
  | finWait2 => stFinWait2
  | closeWait => stCloseWait
  | closing => stClosing
  | lastAck => stLastAck

/-- What a packet does. -/
def Rest.receive (data : TcpData) : Rest → Rest
  | closed => closed
  | listen => if data.syn then synRcvd else listen
  | synSent => if data.syn then if data.ack then established else synRcvd else synSent
  | synRcvd => if data.ack then established else synRcvd
  | established => if data.fin then closeWait else established
  | finWait1 =>
    if data.fin then if data.ack then closed else closing
    else if data.ack then finWait2 else finWait1
  | finWait2 => if data.fin then closed else finWait2
  | closeWait => closeWait
  | closing => if data.ack then closed else closing
  | lastAck => if data.ack then closed else lastAck

/-- What an operation does; there is no sending on a connection that is closed
or being closed. -/
def next : Rest → Op → Option Rest
  | r, .packet data => some (r.receive data)
  | .closed, .activeOpen => some .synSent
  | .closed, .passiveOpen => some .listen
  | .closed, .close => some .closed
  | .listen, .send => some .synSent
  | .listen, .close => some .closed
  | .synSent, .send => some .synSent
  | .synSent, .close => some .closed
  | .synRcvd, .send => some .synRcvd
  | .synRcvd, .close => some .finWait1
  | .established, .send => some .established
  | .established, .close => some .finWait1
  | .closeWait, .close => some .lastAck
  | _, .send => none
  | r, _ => some r

/-- The connection rests as `r` says. -/
def Rests (r : Rest) (w : World Unit TcpData) : Prop :=
  w.members.currentState = r.state ∧ w.members.eventGenerated = false

/-! ## One operation -/

/-- What an operation raises where the automaton goes on. -/
theorem target_of_next {r r' : Rest} {o : Op} (n : Nat) (h : next r o = some r') :
    ((perform o).target (tcpConnection none) n r.state = .ok eventIgnored ∧ r' = r) ∨
    (perform o).target (tcpConnection none) n r.state = .ok r'.state ∨
    ((perform o).target (tcpConnection none) n r.state = .ok stTimeWait ∧ r' = .closed) := by
  cases o with
  | packet data =>
      obtain ⟨syn, ack, fin, rst⟩ := data
      cases r <;> cases syn <;> cases ack <;> cases fin <;> cases h <;>
        first | exact .inl ⟨rfl, rfl⟩ | exact .inr (.inl rfl) | exact .inr (.inr ⟨rfl, rfl⟩)
  | activeOpen => cases r <;> cases h <;> first | exact .inl ⟨rfl, rfl⟩ | exact .inr (.inl rfl)
  | passiveOpen => cases r <;> cases h <;> first | exact .inl ⟨rfl, rfl⟩ | exact .inr (.inl rfl)
  | send => cases r <;> cases h <;> first | exact .inl ⟨rfl, rfl⟩ | exact .inr (.inl rfl)
  | close => cases r <;> cases h <;> first | exact .inl ⟨rfl, rfl⟩ | exact .inr (.inl rfl)

/-- What it raises where it does not. -/
theorem target_of_none {r : Rest} {o : Op} (n : Nat) (h : next r o = none) :
    (perform o).target (tcpConnection none) n r.state = .ok cannotHappen := by
  cases o with
  | packet data => contradiction
  | activeOpen => cases r <;> contradiction
  | passiveOpen => cases r <;> contradiction
  | send => cases r <;> first | contradiction | rfl
  | close => cases r <;> contradiction

theorem quiet_bare : StateMapRowEx.IsBare (σ := Unit) { state := some quiet } quiet :=
  ⟨rfl, rfl, rfl, rfl⟩

theorem timeWait_bare : StateMapRowEx.IsBare (σ := Unit) { state := some timeWait } timeWait :=
  ⟨rfl, rfl, rfl, rfl⟩

/-- The rows of the states a connection rests in. -/
theorem stateMap_rest (r : Rest) :
    stateMap[r.state.toNat]? = some { state := some quiet } := by
  cases r <;> rfl

theorem rest_lt (r : Rest) : r.state < stMaxStates := by cases r <;> decide

theorem runsOn_none (thread : ThreadId) : (tcpConnection none).RunsOn thread := by
  simp [Machine.RunsOn, tcpConnection]

/-- The connection rests where the engine has left it. -/
theorem rests_of_entering {r : Rest} {w : World Unit TcpData}
    (h : w.members = .entering r.state) : Rests r w := by
  unfold Rests
  rw [h]
  exact ⟨rfl, rfl⟩

section Raise

variable {self : Frame TcpData} {nested : Call TcpData → Fsm Unit TcpData Unit} {n : Nat}
  {r : Rest} {w : World Unit TcpData} (hw : Rests r w) (d : EventPtr TcpData)

include hw

/-- An event for a state in which the connection rests. -/
theorem raise_rest (r' : Rest) :
    (externalEvent (tcpConnection none) self nested (n + 2) r'.state d).wp (fun _ => Rests r')
      (fun _ _ => False) w := by
  have hcur : stateMap[w.members.currentState.toNat]? = some { state := some quiet } := by
    rw [hw.1]
    exact stateMap_rest r
  have hne : r'.state ≠ eventIgnored ∧ r'.state ≠ cannotHappen := by cases r' <;> decide
  have hrun : (externalEvent (tcpConnection none) self nested (n + 2) r'.state d).wp
      (fun _ => World.Is (.entering r'.state) w.user) (fun _ _ => False) w :=
    externalEvent_bare (runsOn_none _) rfl hne.1 hne.2 rfl (stateMap_rest r') quiet_bare hcur
      quiet_bare (rest_lt r') (fun _ hv => hv) ⟨rfl, rfl⟩ fun _ hv => stateEngineEx_settled rfl hv
  exact wp_then hrun fun _ w' hw' => rests_of_entering hw'.1

/-- `TIME_WAIT` raises `CLOSED` at once. -/
theorem raise_timeWait :
    (externalEvent (tcpConnection none) self nested (n + 3) stTimeWait d).wp
      (fun _ => Rests .closed) (fun _ _ => False) w := by
  have hcur : stateMap[w.members.currentState.toNat]? = some { state := some quiet } := by
    rw [hw.1]
    exact stateMap_rest r
  let posted : Members TcpData :=
    { currentState := stTimeWait, newState := stClosed, eventGenerated := true
      pEventData := makeData none }
  have hposts : ∀ v : World Unit TcpData, v.Is (.entering stTimeWait) w.user →
      ((timeWait (makeData d)).run self nested).wp (fun _ => World.Is posted w.user)
        (fun _ _ => False) v := by
    rintro v ⟨hmembers, huser⟩
    refine ⟨?_, huser⟩
    rw [post_members, hmembers]
    rfl
  have hrun : (externalEvent (tcpConnection none) self nested (n + 3) stTimeWait d).wp
      (fun _ => World.Is (.entering stClosed) w.user) (fun _ _ => False) w := by
    refine externalEvent_bare (runsOn_none _) rfl (by decide) (by decide) rfl rfl timeWait_bare hcur
      quiet_bare (by decide) hposts ⟨rfl, rfl⟩ fun v hv => ?_
    have hdispatch : (dispatchEx (tcpConnection none) self nested stateMap).wp
        (fun _ => World.Is (.entering stClosed) w.user) (fun _ _ => False) v :=
      dispatchEx_bare (m := posted) rfl rfl quiet_bare rfl timeWait_bare (by decide)
        (fun _ hv => hv) hv
    exact stateEngineEx_pending rfl hv hdispatch fun _ hv => stateEngineEx_settled rfl hv
  exact wp_then hrun fun _ w' hw' => rests_of_entering (r := .closed) hw'.1

end Raise

/-- The connection is the automaton, one operation after another. -/
theorem tcp_implements (thread : ThreadId) (n : Nat) :
    Implements (tcpConnection none) thread (n + 5) perform next Rests where
  goes r o r' w hw hnext := by
    refine call_wp_of (runsOn_none _) (fun t ht => ?_) fun e he => ?_
    · rw [hw.1] at ht
      obtain ⟨htarget, rfl⟩ | htarget | ⟨htarget, rfl⟩ := target_of_next (n + 4) hnext <;>
        rw [htarget, Except.ok.injEq] at ht <;> subst ht
      · rw [externalEvent, if_pos rfl]
        exact hw
      · exact raise_rest hw _ r'
      · exact raise_timeWait hw _
    · rw [hw.1] at he
      obtain ⟨htarget, -⟩ | htarget | ⟨htarget, -⟩ := target_of_next (n + 4) hnext <;>
        rw [htarget] at he <;> contradiction
  stops r o w hw hnext := by
    have htarget := target_of_none (n + 4) hnext
    refine call_wp_of (runsOn_none _) (fun t ht => ?_) fun e he => ?_
    · rw [hw.1, htarget, Except.ok.injEq] at ht
      subst ht
      exact trivial
    · trivial
  same r w w' hw hsame := by
    unfold Rests
    rw [← hsame.1]
    exact hw

/-! ## What a connection has gone through -/

/-- What must have happened since the connection was closed for it to be in
state `s`. -/
structure Handshake (ops : List Op) (s : UInt8) : Prop where
  opened : s ≠ stClosed → .activeOpen ∈ ops ∨ .passiveOpen ∈ ops
  syn : stSynRcvd ≤ s → ∃ data, .packet data ∈ ops ∧ data.syn = true
  ack : s ∈ [stEstablished, stFinWait2, stCloseWait, stLastAck] →
    ∃ data, .packet data ∈ ops ∧ data.ack = true
  close : s ∈ [stFinWait1, stFinWait2, stClosing, stLastAck] → .close ∈ ops
  fin : s ∈ [stCloseWait, stClosing, stLastAck] → ∃ data, .packet data ∈ ops ∧ data.fin = true

/-- What a packet leads to shows what the packet says. -/
theorem receive_evidence (r : Rest) (data : TcpData) :
    ((r.receive data).state ≠ stClosed → r.state ≠ stClosed) ∧
    (stSynRcvd ≤ (r.receive data).state → stSynRcvd ≤ r.state ∨ data.syn = true) ∧
    ((r.receive data).state ∈ [stEstablished, stFinWait2, stCloseWait, stLastAck] →
      r.state ∈ [stEstablished, stFinWait2, stCloseWait, stLastAck] ∨ data.ack = true) ∧
    ((r.receive data).state ∈ [stFinWait1, stFinWait2, stClosing, stLastAck] →
      r.state ∈ [stFinWait1, stFinWait2, stClosing, stLastAck]) ∧
    ((r.receive data).state ∈ [stCloseWait, stClosing, stLastAck] →
      r.state ∈ [stCloseWait, stClosing, stLastAck] ∨ data.fin = true) := by
  obtain ⟨syn, ack, fin, rst⟩ := data
  cases r <;> revert syn ack fin rst <;> decide

/-- What any other operation leads to shows which one it is. -/
theorem next_evidence {r r' : Rest} {o : Op} (ho : ∀ data, o ≠ .packet data)
    (h : next r o = some r') :
    (r'.state ≠ stClosed → r.state ≠ stClosed ∨ o = .activeOpen ∨ o = .passiveOpen) ∧
    (stSynRcvd ≤ r'.state → stSynRcvd ≤ r.state) ∧
    (r'.state ∈ [stEstablished, stFinWait2, stCloseWait, stLastAck] →
      r.state ∈ [stEstablished, stFinWait2, stCloseWait, stLastAck]) ∧
    (r'.state ∈ [stFinWait1, stFinWait2, stClosing, stLastAck] →
      r.state ∈ [stFinWait1, stFinWait2, stClosing, stLastAck] ∨ o = .close) ∧
    (r'.state ∈ [stCloseWait, stClosing, stLastAck] →
      r.state ∈ [stCloseWait, stClosing, stLastAck]) := by
  cases o with
  | packet data => exact absurd rfl (ho data)
  | activeOpen => cases r <;> cases h <;> decide
  | passiveOpen => cases r <;> cases h <;> decide
  | send => cases r <;> cases h <;> decide
  | close => cases r <;> cases h <;> decide

section Evidence

variable {ops ops' : List Op} {s : UInt8} {r r' : Rest} {o : Op}

/-- More operations explain as much. -/
theorem Handshake.mono (h : Handshake ops s) (hsub : ops ⊆ ops') : Handshake ops' s where
  opened hs := (h.opened hs).imp (fun ho => hsub ho) fun ho => hsub ho
  syn hs := (h.syn hs).imp fun _ hd => ⟨hsub hd.1, hd.2⟩
  ack hs := (h.ack hs).imp fun _ hd => ⟨hsub hd.1, hd.2⟩
  close hs := hsub (h.close hs)
  fin hs := (h.fin hs).imp fun _ hd => ⟨hsub hd.1, hd.2⟩

/-- One operation more. -/
theorem Handshake.snoc (h : Handshake ops r.state) (hnext : next r o = some r') :
    Handshake (ops ++ [o]) r'.state := by
  have hbefore : Handshake (ops ++ [o]) r.state := h.mono (List.subset_append_left ops [o])
  have hlast : o ∈ ops ++ [o] := List.mem_append_right _ List.mem_cons_self
  by_cases ho : ∃ data, o = .packet data
  · obtain ⟨data, rfl⟩ := ho
    cases hnext
    obtain ⟨hopened, hsyn, hack, hclose, hfin⟩ := receive_evidence r data
    exact {
      opened := fun hs => hbefore.opened (hopened hs)
      syn := fun hs => (hsyn hs).elim hbefore.syn fun hd => ⟨data, hlast, hd⟩
      ack := fun hs => (hack hs).elim hbefore.ack fun hd => ⟨data, hlast, hd⟩
      close := fun hs => hbefore.close (hclose hs)
      fin := fun hs => (hfin hs).elim hbefore.fin fun hd => ⟨data, hlast, hd⟩ }
  · obtain ⟨hopened, hsyn, hack, hclose, hfin⟩ :=
      next_evidence (fun data hdata => ho ⟨data, hdata⟩) hnext
    exact {
      opened := fun hs => by
        obtain hr | rfl | rfl := hopened hs
        · exact hbefore.opened hr
        · exact .inl hlast
        · exact .inr hlast
      syn := fun hs => hbefore.syn (hsyn hs)
      ack := fun hs => hbefore.ack (hack hs)
      close := fun hs => by
        obtain hr | rfl := hclose hs
        · exact hbefore.close hr
        · exact hlast
      fin := fun hs => hbefore.fin (hfin hs) }

/-- What the automaton has been through explains where it is. -/
theorem handshake_of_exec (h : exec next .closed ops = some r) : Handshake ops r.state := by
  induction ops using List.reverseRecOn generalizing r with
  | nil =>
      cases h
      constructor <;> intro hs <;> exact absurd hs (by decide)
  | append_singleton ops o ih =>
      rw [exec_append] at h
      obtain ⟨r', hbefore, hlast⟩ := Option.bind_eq_some_iff.mp h
      rw [exec_cons] at hlast
      obtain ⟨r'', hnext, hnil⟩ := Option.bind_eq_some_iff.mp hlast
      cases hnil
      exact (ih hbefore).snoc hnext

/-- Only `Send` can stop a connection, where it is closed or being closed. -/
theorem send_of_none (h : next r o = none) :
    o = .send ∧ (r.state = stClosed ∨ stFinWait1 ≤ r.state) := by
  cases o with
  | packet data => contradiction
  | activeOpen => cases r <;> contradiction
  | passiveOpen => cases r <;> contradiction
  | send => cases r <;> first | contradiction | exact ⟨rfl, by decide⟩
  | close => cases r <;> contradiction

end Evidence

/-! ## The active object -/

/-- The operations are event functions without a parent. -/
theorem plain_perform (o : Op) : ∃ f, perform o = .event f ∧ f.parentTransition = none := by
  cases o <;> exact ⟨_, rfl, rfl⟩

/-- So they are plain ones. -/
theorem isPlain_perform (o : Op) : (perform o).IsPlain := by
  obtain ⟨f, hf, hnone⟩ := plain_perform o
  exact ⟨f, hf, by simp [hnone]⟩

/-- Its thread serves what is queued. -/
theorem tcp_serves (thread : ThreadId) (n : Nat) (before : List (Call TcpData)) :
    Serves (tcpConnection (some thread)) thread (n + 5) (StandsFor perform)
      (Abides perform next Rests .closed before) (Breaks perform next .closed before) := by
  have himpl : Implements (tcpConnection (some thread)) thread (n + 4 + 1) perform next Rests :=
    .of_synchronous (runsOn_of_thread rfl) (tcp_implements thread n)
  exact himpl.serves (robust_of_maps plain_perform) isPlain_perform before

/-- The states tell the moments of rest apart. -/
theorem state_inj {r r' : Rest} (h : r.state = r'.state) : r = r' := by
  cases r <;> cases r' <;> first | rfl | exact absurd h (by decide)

/-- A connection that has just been constructed. -/
def tcpNew : World Unit TcpData := World.start { currentState := stClosed } ()

/-- Thread 1 opens the connection and hands it the answer. -/
def todoOpen (t : ThreadId) : List Op :=
  if t = 1 then [.activeOpen, .packet { syn := true, ack := true }] else []

/-- Both calls are taken, one after the other. -/
def opening : List ActiveFsm.Choice :=
  let one := [.call 1, .move 1 .go, .move 1 .go, .take] ++ List.replicate 23 (.move 0 .go)
  one ++ one

theorem tcpNew_isNew : tcpNew.queue.IsNew := rfl

end TcpConnection

end ActiveFsm
