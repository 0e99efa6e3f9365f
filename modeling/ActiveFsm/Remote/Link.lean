import Mathlib.Logic.Function.Basic
import ActiveFsm.Remote.Origin
import ActiveFsm.Remote.SeqHistory

/-!
# ActiveFsm.Remote.Link

The sender and the receiver of reliable messages, and a network between them
that may lose, delay, repeat and reorder what it carries: what arrives is
something that has been sent, and nothing else is known.

* `Receiver.Sound` — what a participant knows of the messages it has received;
* `link_sound` — nothing is delivered that was not submitted, and no copy comes
  soon after another;
* `acknowledged_delivered` — an acknowledged message has been delivered, or is
  the one that the participant is about to deliver.
-/

namespace ActiveFsm

open Transition

namespace Remote

variable {cfg : Config} {size : Nat} {channels : RemoteId → Bool}

/-! ## What is sent -/

/-- What has been written to a stream. -/
abbrev Payload := List (BitVec 8)

/-- `BUFFER_SIZE - DmqHeader::HEADER_SIZE`. -/
def maxPayload : Nat := 4096 - 8

/-- The header that `ITransport::Send` writes, whatever length `h` bears. -/
def DmqHeader.withLength (h : DmqHeader) (os : Payload) : DmqHeader :=
  { h with length := BitVec.ofNat 16 os.length }

/-- What the sender has given to the network; `Send` refuses what is too large. -/
def wire (log : List (Event Payload)) : List (DmqHeader × Payload) :=
  log.filterMap fun
    | .sent h os _ => if os.length ≤ maxPayload then some (h.withLength os, os) else none
    | _ => none

/-- The length that the header bears is that of the payload. -/
theorem take_withLength (h : DmqHeader) {os : Payload} (hsize : os.length ≤ maxPayload) :
    os.take (h.withLength os).length.toNat = os := by
  have hlength : (h.withLength os).length.toNat = os.length := by
    simp only [DmqHeader.withLength, BitVec.toNat_ofNat]
    simp only [maxPayload] at hsize
    omega
  rw [hlength, List.take_length]

/-- What is on the wire has been sent, and fits the buffer. -/
theorem mem_wire {log : List (Event Payload)} {h : DmqHeader} {os : Payload}
    (hmem : (h, os) ∈ wire log) :
    ∃ hd ok, .sent hd os ok ∈ log ∧ h = hd.withLength os ∧ os.length ≤ maxPayload := by
  simp only [wire, List.mem_filterMap] at hmem
  obtain ⟨e, he, hsome⟩ := hmem
  cases e with
  | sent hd os' ok =>
      simp only at hsome
      split at hsome
      · next hsize =>
          cases hsome
          exact ⟨hd, ok, he, rfl, hsize⟩
      · contradiction
  | _ => cases hsome

/-! ## The receiver -/

inductive Arrival where
  /-- `ITransport::Receive` has returned 0. -/
  | received (h : DmqHeader) (os : Payload)
  /-- The channel has been invoked. -/
  | delivered (h : DmqHeader) (os : Payload)
  | duplicate (h : DmqHeader)
  /-- `ERR_TRANSPORT_RECEIVE`. -/
  | receiveError
  /-- `ERR_NO_DISPATCHER`. -/
  | noDispatcher (h : DmqHeader)

/-- `m_history` of the participant, the acknowledgements that its transport has
sent, the message that `ProcessIncoming` is about, and what has happened. -/
structure Receiver (size : Nat) where
  history : RemoteId → SeqHistory size
  acks : List (BitVec 16) := []
  hand : Option (DmqHeader × Payload) := none
  log : List Arrival := []

/-- `ITransport::Receive` of a subscriber, which acknowledges what it receives
before it returns. -/
def Receiver.receive (r : Receiver size) (h : DmqHeader) (os : Payload) : Receiver size :=
  if h.marker ≠ 0xAA55 then r
  else
    let os := os.take h.length.toNat
    { r with
      acks := if h.id ≠ ackRemoteId then r.acks ++ [h.seqNum] else r.acks
      hand := some (h, os)
      log := r.log ++ [.received h os] }

/-- `Participant::ProcessIncoming` once `Receive` has returned; `channels` tells
the ids in `m_channels`. -/
def Receiver.processIncoming (channels : RemoteId → Bool) (r : Receiver size) (h : DmqHeader)
    (os : Payload) : Receiver size :=
  let r := { r with hand := none }
  if h.marker ≠ 0xAA55 then { r with log := r.log ++ [.receiveError] }
  else if channels h.id then
    let dup := (r.history h.id).isDuplicate h.seqNum
    if h.id = ackRemoteId then { r with log := r.log ++ [.delivered h os] }
    else if dup.1 then { r with log := r.log ++ [.duplicate h] }
    else { r with
      history := Function.update r.history h.id dup.2
      log := r.log ++ [.delivered h os] }
  else { r with log := r.log ++ [.noDispatcher h] }

/-! ## The link -/

structure Link (size : Nat) where
  sender : State Payload := {}
  receiver : Receiver size

def Link.init (h : 0 < size) : Link size :=
  { receiver := { history := fun _ => .init h } }

inductive LinkChoice where
  /-- A step of the sender other than a call of `Remove`. -/
  | sender (c : Choice Payload)
  /-- A message arrives; `ProcessIncoming` must not be called concurrently. -/
  | receive (i : Nat)
  /-- `ProcessIncoming` goes on. -/
  | processIncoming
  /-- An acknowledgement arrives: `Remove(seqNum)`. -/
  | acknowledge (j : Nat)

def linkStep (cfg : Config) (channels : RemoteId → Bool) (l : Link size) :
    LinkChoice → Option (Link size)
  | .sender (.remove ..) => none
  | .sender c => (step cfg l.sender c).map fun s => { l with sender := s }
  | .receive i =>
    match l.receiver.hand with
    | some _ => none
    | none => (wire l.sender.monitor.log)[i]?.map fun p =>
        { l with receiver := l.receiver.receive p.1 p.2 }
  | .processIncoming =>
    l.receiver.hand.map fun p =>
      { l with receiver := l.receiver.processIncoming channels p.1 p.2 }
  | .acknowledge j =>
    l.receiver.acks[j]?.bind fun seqNum =>
      (step cfg l.sender (.remove seqNum ackRemoteId)).map fun s => { l with sender := s }

/-! ## What the receiver knows -/

/-- The sequence numbers delivered under an id. -/
def deliveries (id : RemoteId) (log : List Arrival) : List (BitVec 16) :=
  log.filterMap fun
    | .delivered h _ => if h.id = id then some h.seqNum else none
    | _ => none

structure Receiver.Sound (channels : RemoteId → Bool) (r : Receiver size) : Prop where
  history : ∀ id, id ≠ ackRemoteId → (r.history id).Remembers (deliveries id r.log)
  spaced : ∀ id, id ≠ ackRemoteId → Spaced size (deliveries id r.log)
  acks : ∀ seqNum ∈ r.acks, ∃ h os, .received h os ∈ r.log ∧ h.seqNum = seqNum ∧
    h.id ≠ ackRemoteId
  delivered : ∀ h os, .delivered h os ∈ r.log → .received h os ∈ r.log
  hand : ∀ h os, r.hand = some (h, os) → h.marker = 0xAA55 ∧ .received h os ∈ r.log
  received : ∀ h os, .received h os ∈ r.log → h.id ≠ ackRemoteId → channels h.id = true →
    r.hand = some (h, os) ∨ h.seqNum ∈ deliveries h.id r.log

/-- A message arrives while there is none in hand. -/
theorem Receiver.Sound.receive {r : Receiver size} (hr : r.Sound channels) (hhand : r.hand = none)
    (h : DmqHeader) (os : Payload) : (r.receive h os).Sound channels := by
  simp only [Receiver.receive]
  split
  · exact hr
  · next hmarker =>
      have hdeliveries (id : RemoteId) (h : DmqHeader) (os : Payload) :
          deliveries id (r.log ++ [.received h os]) = deliveries id r.log := by
        simp [deliveries]
      refine ⟨fun id hid => ?_, fun id hid => ?_, fun seqNum hack => ?_, fun h' os' hdel => ?_,
        fun h' os' hsome => ?_, fun h' os' hrec hid hchannel => ?_⟩
      · rw [hdeliveries]
        exact hr.history id hid
      · rw [hdeliveries]
        exact hr.spaced id hid
      · have hold (hack : seqNum ∈ r.acks) :
            ∃ h' os', .received h' os' ∈ r.log ++ [.received h (os.take h.length.toNat)] ∧
              h'.seqNum = seqNum ∧ h'.id ≠ ackRemoteId := by
          obtain ⟨h', os', hrec, hseq⟩ := hr.acks seqNum hack
          exact ⟨h', os', List.mem_append_left _ hrec, hseq⟩
        split at hack
        · next hid =>
            rcases List.mem_append.mp hack with hack | hnew
            · exact hold hack
            · exact ⟨h, _, List.mem_append_right _ List.mem_cons_self,
                (List.mem_singleton.mp hnew).symm, hid⟩
        · exact hold hack
      · have hdel : Arrival.delivered h' os' ∈ r.log := by simpa using hdel
        exact List.mem_append_left _ (hr.delivered h' os' hdel)
      · cases hsome
        exact ⟨not_not.mp hmarker, List.mem_append_right _ List.mem_cons_self⟩
      · rw [hdeliveries]
        rcases List.mem_append.mp hrec with hold | hnew
        · rcases hr.received h' os' hold hid hchannel with hsome | hdel
          · rw [hhand] at hsome
            contradiction
          · exact .inr hdel
        · cases List.mem_singleton.mp hnew
          exact .inl rfl

/-- What is done with the message in hand. -/
theorem Receiver.Sound.settle {r : Receiver size} (hr : r.Sound channels) {h : DmqHeader}
    {os : Payload} (hhand : r.hand = some (h, os)) {history : RemoteId → SeqHistory size}
    {last : Arrival}
    (hhistory : ∀ id, id ≠ ackRemoteId →
      (history id).Remembers (deliveries id r.log ++ deliveries id [last]))
    (hspaced : ∀ id, id ≠ ackRemoteId → Spaced size (deliveries id r.log ++ deliveries id [last]))
    (hdelivered : ∀ h' os', last = .delivered h' os' → h' = h ∧ os' = os)
    (hlast : ∀ h' os', last ≠ .received h' os')
    (hreceived : h.id ≠ ackRemoteId → channels h.id = true →
      h.seqNum ∈ deliveries h.id r.log ++ deliveries h.id [last]) :
    Receiver.Sound channels
      { r with history := history, hand := none, log := r.log ++ [last] } := by
  have hdeliveries (id : RemoteId) : deliveries id (r.log ++ [last]) =
      deliveries id r.log ++ deliveries id [last] := by
    simp [deliveries]
  refine ⟨fun id hid => ?_, fun id hid => ?_, fun seqNum hack => ?_, fun h' os' hdel => ?_,
    fun h' os' hsome => ?_, fun h' os' hrec hid hchannel => .inr ?_⟩
  · rw [hdeliveries]
    exact hhistory id hid
  · rw [hdeliveries]
    exact hspaced id hid
  · obtain ⟨h', os', hrec, hseq⟩ := hr.acks seqNum hack
    exact ⟨h', os', List.mem_append_left _ hrec, hseq⟩
  · refine List.mem_append_left _ ?_
    rcases List.mem_append.mp hdel with hold | hnew
    · exact hr.delivered h' os' hold
    · obtain ⟨rfl, rfl⟩ := hdelivered h' os' (List.mem_singleton.mp hnew).symm
      exact (hr.hand h' os' hhand).2
  · contradiction
  · rw [hdeliveries]
    rcases List.mem_append.mp hrec with hold | hnew
    · rcases hr.received h' os' hold hid hchannel with hsome | hdel
      · cases hhand.symm.trans hsome
        exact hreceived hid hchannel
      · exact List.mem_append_left _ hdel
    · exact absurd (List.mem_singleton.mp hnew).symm (hlast h' os')

/-- What is done with it is no delivery that counts. -/
theorem Receiver.Sound.leave {r : Receiver size} (hr : r.Sound channels) {h : DmqHeader}
    {os : Payload} (hhand : r.hand = some (h, os)) {last : Arrival}
    (hnone : ∀ id, id ≠ ackRemoteId → deliveries id [last] = [])
    (hdelivered : ∀ h' os', last = .delivered h' os' → h' = h ∧ os' = os)
    (hlast : ∀ h' os', last ≠ .received h' os')
    (hreceived : h.id ≠ ackRemoteId → channels h.id = true →
      h.seqNum ∈ deliveries h.id r.log) :
    Receiver.Sound channels { r with hand := none, log := r.log ++ [last] } := by
  refine hr.settle hhand (fun id hid => ?_) (fun id hid => ?_) hdelivered hlast
    fun hid hchannel => List.mem_append_left _ (hreceived hid hchannel)
  · rw [hnone id hid, List.append_nil]
    exact hr.history id hid
  · rw [hnone id hid, List.append_nil]
    exact hr.spaced id hid

/-- A message whose number is not among the last is delivered. -/
theorem Receiver.Sound.accept {r : Receiver size} (hr : r.Sound channels) {h : DmqHeader}
    {os : Payload} (hhand : r.hand = some (h, os)) (hid : h.id ≠ ackRemoteId)
    {history : SeqHistory size}
    (hfresh : ¬SeqHistory.Recent size (deliveries h.id r.log) h.seqNum)
    (hremembers : history.Remembers (deliveries h.id r.log ++ [h.seqNum])) :
    Receiver.Sound channels
      { r with
        history := Function.update r.history h.id history
        hand := none
        log := r.log ++ [.delivered h os] } := by
  have hdel (id : RemoteId) : deliveries id [.delivered h os] =
      if h.id = id then [h.seqNum] else [] := by
    by_cases heq : h.id = id <;> simp [deliveries, heq]
  refine hr.settle hhand (fun id hid' => ?_) (fun id hid' => ?_) (by simp +contextual) (by simp)
    fun _ _ => List.mem_append_right _ (by simp [hdel])
  · rw [hdel]
    split
    · next heq =>
        rw [← heq, Function.update_self]
        exact hremembers
    · next hne =>
        rw [Function.update_of_ne (Ne.symm hne), List.append_nil]
        exact hr.history id hid'
  · rw [hdel]
    split
    · next heq =>
        rw [← heq]
        exact (hr.spaced h.id hid).snoc hfresh
    · rw [List.append_nil]
      exact hr.spaced id hid'

/-- The ways of `ProcessIncoming` one by one. -/
theorem Receiver.Sound.processIncoming {r : Receiver size} (hr : r.Sound channels) {h : DmqHeader}
    {os : Payload} (hhand : r.hand = some (h, os)) :
    (r.processIncoming channels h os).Sound channels := by
  simp only [Receiver.processIncoming]
  split
  · next hmarker => exact absurd (hr.hand h os hhand).1 hmarker
  · split
    · next hchannel =>
        split
        · next hack =>
            exact hr.leave hhand (fun id hid => by simp [deliveries, hack, hid.symm])
              (by simp +contextual) (by simp) fun hid => absurd hack hid
        · next hid =>
            have hdup := (hr.history h.id hid).isDuplicate h.seqNum
            split
            · next htrue =>
                refine hr.leave hhand (fun _ _ => rfl) (by simp) (by simp) fun _ _ => ?_
                rcases hdup with ⟨⟨i, hi, -⟩, -⟩ | ⟨-, hfalse, -⟩
                · exact List.mem_of_getElem? hi
                · exact absurd (htrue.symm.trans hfalse) (by decide)
            · next hfalse =>
                obtain ⟨-, htrue⟩ | ⟨hfresh, -, hremembers⟩ := hdup
                · exact absurd (congrArg Prod.fst htrue) hfalse
                · exact hr.accept hhand hid hfresh hremembers
    · next hchannel =>
        exact hr.leave hhand (fun _ _ => rfl) (by simp) (by simp) fun _ hch => absurd hch hchannel

/-- The rest of `ProcessIncoming` acknowledges nothing and receives nothing. -/
theorem Receiver.processIncoming_received (r : Receiver size) {h h' : DmqHeader}
    {os os' : Payload} (hmem : .received h' os' ∈ (r.processIncoming channels h os).log) :
    .received h' os' ∈ r.log := by
  simp only [Receiver.processIncoming] at hmem
  split at hmem
  · simpa using hmem
  · split at hmem
    · split at hmem
      · simpa using hmem
      · split at hmem <;> simpa using hmem
    · simpa using hmem

/-- Nor does it acknowledge anything. -/
theorem Receiver.processIncoming_acks (r : Receiver size) (h : DmqHeader) (os : Payload) :
    (r.processIncoming channels h os).acks = r.acks := by
  simp only [Receiver.processIncoming]
  split
  · rfl
  · split
    · split
      · rfl
      · split <;> rfl
    · rfl

/-- Nothing is in hand afterwards. -/
theorem Receiver.processIncoming_hand (r : Receiver size) (h : DmqHeader) (os : Payload) :
    (r.processIncoming channels h os).hand = none := by
  simp only [Receiver.processIncoming]
  split
  · rfl
  · split
    · split
      · rfl
      · split <;> rfl
    · rfl

/-- Acknowledgements are not taken back. -/
theorem Receiver.receive_acks (r : Receiver size) (h : DmqHeader) (os : Payload) :
    ∀ seqNum ∈ r.acks, seqNum ∈ (r.receive h os).acks := by
  intro seqNum hmem
  simp only [Receiver.receive]
  split
  · exact hmem
  · split
    · exact List.mem_append_left _ hmem
    · exact hmem

/-- What has been received is what has come in. -/
theorem Receiver.receive_received (r : Receiver size) {h h' : DmqHeader} {os os' : Payload}
    (hmem : .received h' os' ∈ (r.receive h os).log) :
    .received h' os' ∈ r.log ∨ h' = h ∧ os' = os.take h.length.toNat := by
  simp only [Receiver.receive] at hmem
  split at hmem
  · exact .inl hmem
  · simpa using hmem

/-! ## What the sender knows -/

section Sender

variable {π : Type}

/-- What is acknowledged was submitted, and bears a number that `A` holds of. -/
structure State.Answered (A : BitVec 16 → Prop) (s : State π) : Prop where
  removed : ∀ id seqNum, .removed id seqNum ∈ s.threads → A seqNum
  acknowledged : ∀ id seqNum, .acknowledged id seqNum ∈ s.monitor.log → A seqNum ∧
    ∃ h os, .submitted h os ∈ s.monitor.log ∧ h.id = id ∧ h.seqNum = seqNum

/-- An acknowledgement is logged for an entry that is stored. -/
theorem Thread.Next.stored_of_acknowledged {m m' : Monitor π} {id : RemoteId}
    {seqNum : BitVec 16} {next : Option (Thread π)}
    (h : Thread.Next cfg m (.removed id seqNum) m' next) (hnew : .acknowledged id seqNum ∈ m'.log) :
    .acknowledged id seqNum ∈ m.log ∨ ∃ e, m.store.find? (key id seqNum) = some e := by
  cases h with
  | acknowledged h => exact .inr ⟨_, h⟩
  | unknown h => exact .inl (by simpa [Monitor.emit] using hnew)

/-- A section logs an acknowledgement only for a message that was submitted, in
a thread that has taken it out of `m_pending`. -/
theorem Thread.Next.answered {A : BitVec 16 → Prop} {m m' : Monitor π} {t : Thread π}
    {next : Option (Thread π)} (h : t.Next cfg m m' next) (hm : m.Consistent) (hg : m.Genuine)
    (ht : ∀ id seqNum, t = .removed id seqNum → A seqNum)
    (hack : ∀ id seqNum, .acknowledged id seqNum ∈ m.log → A seqNum ∧
      ∃ h os, .submitted h os ∈ m.log ∧ h.id = id ∧ h.seqNum = seqNum) :
    ∀ id seqNum, .acknowledged id seqNum ∈ m'.log → A seqNum ∧
      ∃ h os, .submitted h os ∈ m'.log ∧ h.id = id ∧ h.seqNum = seqNum := by
  intro id seqNum hmem
  have hkeeps := h.logs.keeps
  have hold (hmem : .acknowledged id seqNum ∈ m.log) : A seqNum ∧
      ∃ h os, .submitted h os ∈ m'.log ∧ h.id = id ∧ h.seqNum = seqNum := by
    obtain ⟨hseq, hd, os, hsub, hheader⟩ := hack id seqNum hmem
    exact ⟨hseq, hd, os, hkeeps _ hsub, hheader⟩
  rcases h.logs.acknowledged id seqNum hmem with hmem | rfl
  · exact hold hmem
  · rcases h.stored_of_acknowledged hmem with hmem | ⟨e, he⟩
    · exact hold hmem
    · obtain ⟨hid, hseq⟩ := key_inj.mp (hm.store _ _ he)
      exact ⟨ht id seqNum rfl, e.header, e.packetData, hkeeps _ (hg.store _ _ he), hid, hseq⟩

/-- A step of the sender, to whom only what `A` holds of is acknowledged. -/
theorem State.Answered.step {A : BitVec 16 → Prop} {s s' : State π} (h : s.Answered A)
    (hs : s.Consistent) (hg : s.Genuine) {c : Choice π}
    (hc : ∀ seqNum id, c = .remove seqNum id → A seqNum) (hstep : step cfg s c = some s') :
    s'.Answered A := by
  obtain ⟨hremoved, hack⟩ := h
  cases c with
  | tick duration =>
      cases hstep
      exact ⟨hremoved, hack⟩
  | submit hd os =>
      cases hstep
      refine ⟨fun id seqNum hmem => hremoved id seqNum (by simpa using hmem), ?_⟩
      intro id seqNum hmem
      have hold : .acknowledged id seqNum ∈ s.monitor.log := by
        simpa [submit, Monitor.emit] using hmem
      obtain ⟨hseq, hd', os', hsub, hheader⟩ := hack id seqNum hold
      exact ⟨hseq, hd', os', List.mem_append_left _ hsub, hheader⟩
  | process =>
      simp only [Remote.step] at hstep
      split at hstep
      · contradiction
      · cases hstep
        exact ⟨fun id seqNum hmem => hremoved id seqNum (by simpa using hmem), hack⟩
  | remove seqNum id =>
      simp only [Remote.step] at hstep
      split at hstep
      · cases hstep
        refine ⟨fun id' seqNum' hmem => ?_, hack⟩
        rcases List.mem_append.mp hmem with hold | hnew
        · exact hremoved id' seqNum' hold
        · cases List.mem_singleton.mp hnew
          exact hc seqNum id rfl
      · cases hstep
        exact ⟨hremoved, hack⟩
  | run i ok =>
      obtain ⟨m, ts⟩ := s
      simp only [Remote.step] at hstep
      split at hstep
      · next t ht =>
          cases hstep
          have hnext := Thread.next_of_step cfg ok m t
          refine ⟨fun id seqNum hmem => ?_, hnext.answered hs.monitor hg.monitor ?_ hack⟩
          · simp only [List.mem_append, Option.mem_toList] at hmem
            rcases hmem with (hold | hnew) | hold
            · exact hremoved id seqNum (List.mem_of_mem_take hold)
            · exact absurd hnew (hnext.not_removed id seqNum)
            · exact hremoved id seqNum (List.mem_of_mem_drop hold)
          · rintro id seqNum rfl
            exact hremoved id seqNum (List.mem_of_getElem? ht)
      · contradiction

/-- What has happened stays in the log. -/
theorem step_keeps {s s' : State π} (h : Step cfg s s') :
    ∀ e ∈ s.monitor.log, e ∈ s'.monitor.log := by
  cases h with
  | submit => exact fun e he => List.mem_append_left _ he
  | run hnext => exact hnext.logs.keeps
  | _ => exact fun e he => he

/-- More has been acknowledged. -/
theorem State.Answered.mono {A B : BitVec 16 → Prop} {s : State π} (h : s.Answered A)
    (hAB : ∀ seqNum, A seqNum → B seqNum) : s.Answered B :=
  ⟨fun id seqNum hmem => hAB _ (h.removed id seqNum hmem),
    fun id seqNum hmem => (h.acknowledged id seqNum hmem).imp_left (hAB _)⟩

end Sender

/-! ## The link -/

/-- A message as it was submitted, but for the length in its header. -/
def Link.Sent (l : Link size) (h : DmqHeader) (os : Payload) : Prop :=
  ∃ hd, .submitted hd os ∈ l.sender.monitor.log ∧ h = hd.withLength os

structure Link.Sound (cfg : Config) (channels : RemoteId → Bool) (l : Link size) : Prop where
  sender : Runs (step cfg) {} l.sender
  receiver : l.receiver.Sound channels
  answered : l.sender.Answered (· ∈ l.receiver.acks)
  received : ∀ h os, .received h os ∈ l.receiver.log → l.Sent h os

/-- The sender goes on. -/
theorem Link.Sound.send {l : Link size} (h : l.Sound cfg channels) {c : Choice Payload}
    {s : State Payload} (hc : ∀ seqNum id, c = .remove seqNum id → seqNum ∈ l.receiver.acks)
    (hstep : Remote.step cfg l.sender c = some s) :
    Link.Sound cfg channels { l with sender := s } := by
  obtain ⟨hruns, hreceiver, hanswered, hreceived⟩ := h
  refine ⟨hruns.trans ⟨[c], ?_⟩, hreceiver, ?_, fun h os hmem => ?_⟩
  · rw [exec_cons, hstep, Option.bind_some, exec_nil]
  · exact hanswered.step (consistent_of_runs hruns) (genuine_of_runs hruns) hc hstep
  · obtain ⟨hd, hsub, hheader⟩ := hreceived h os hmem
    exact ⟨hd, step_keeps (step_of_step hstep) _ hsub, hheader⟩

/-- A message on the wire comes in. -/
theorem Link.Sound.receive {l : Link size} (h : l.Sound cfg channels)
    (hhand : l.receiver.hand = none) {hd : DmqHeader} {os : Payload}
    (hmem : (hd, os) ∈ wire l.sender.monitor.log) :
    Link.Sound cfg channels { l with receiver := l.receiver.receive hd os } := by
  obtain ⟨hd, ok, hsent, rfl, hsize⟩ := mem_wire hmem
  refine ⟨h.sender, h.receiver.receive hhand _ os, ?_, fun h' os' hrec => ?_⟩
  · exact h.answered.mono (l.receiver.receive_acks _ os)
  · rcases l.receiver.receive_received hrec with hold | ⟨rfl, rfl⟩
    · exact h.received h' os' hold
    · rw [take_withLength hd hsize]
      exact ⟨hd, submitted_of_sent h.sender hsent, rfl⟩

/-- The receiver is done with the message in hand. -/
theorem Link.Sound.processIncoming {l : Link size} (h : l.Sound cfg channels) {hd : DmqHeader}
    {os : Payload} (hhand : l.receiver.hand = some (hd, os)) :
    Link.Sound cfg channels
      { l with receiver := l.receiver.processIncoming channels hd os } := by
  refine ⟨h.sender, h.receiver.processIncoming hhand, ?_, fun h' os' hrec => ?_⟩
  · simp only [Receiver.processIncoming_acks]
    exact h.answered
  · exact h.received h' os' (l.receiver.processIncoming_received hrec)

/-- Whoever of the three moves. -/
theorem Link.Sound.step {l l' : Link size} (h : l.Sound cfg channels) {c : LinkChoice}
    (hstep : linkStep cfg channels l c = some l') : l'.Sound cfg channels := by
  cases c with
  | sender c =>
      cases c with
      | remove => contradiction
      | _ =>
          simp only [linkStep] at hstep
          obtain ⟨s, hs, rfl⟩ := Option.map_eq_some_iff.mp hstep
          exact h.send (by simp) hs
  | receive i =>
      simp only [linkStep] at hstep
      split at hstep
      · contradiction
      · next hhand =>
          obtain ⟨⟨hd, os⟩, hget, rfl⟩ := Option.map_eq_some_iff.mp hstep
          exact h.receive hhand (List.mem_of_getElem? hget)
  | processIncoming =>
      obtain ⟨⟨hd, os⟩, hhand, rfl⟩ := Option.map_eq_some_iff.mp hstep
      exact h.processIncoming hhand
  | acknowledge j =>
      obtain ⟨seqNum, hget, hmap⟩ := Option.bind_eq_some_iff.mp hstep
      obtain ⟨s, hs, rfl⟩ := Option.map_eq_some_iff.mp hmap
      refine h.send (fun seqNum' id heq => ?_) hs
      cases heq
      exact List.mem_of_getElem? hget

/-- Nothing has been sent. -/
theorem Link.Sound.init (hsize : 0 < size) : (Link.init hsize).Sound cfg channels := by
  refine ⟨⟨[], rfl⟩, ⟨fun id _ => SeqHistory.remembers_init hsize, fun id _ => ?_, ?_, ?_, ?_, ?_⟩,
    ⟨?_, ?_⟩, ?_⟩ <;> simp [Link.init, Spaced, deliveries]

/-- Whatever sender, receiver and network have done. -/
theorem sound_of_runs {hsize : 0 < size} {l : Link size}
    (h : Runs (linkStep cfg channels) (Link.init hsize) l) : l.Sound cfg channels :=
  h.invariant (I := Link.Sound cfg channels) (fun _ _ _ hs hstep => hs.step hstep) (.init hsize)

/-- Whatever the network does, what is delivered was submitted, with the same
payload and the same header but for the length, which is that of the payload;
and between two deliveries under one id, other than `ACK_REMOTE_ID`, and one
sequence number there are at least `SIZE` others under that id. -/
theorem link_sound {hsize : 0 < size} {l : Link size}
    (h : Runs (linkStep cfg channels) (Link.init hsize) l) :
    (∀ h os, .delivered h os ∈ l.receiver.log →
      ∃ hd, .submitted hd os ∈ l.sender.monitor.log ∧ h = hd.withLength os) ∧
      ∀ id, id ≠ ackRemoteId → Spaced size (deliveries id l.receiver.log) := by
  have hsound := sound_of_runs h
  exact ⟨fun h os hmem => hsound.received h os (hsound.receiver.delivered h os hmem),
    hsound.receiver.spaced⟩

/-- A message that is lost once, sent again, and acknowledged while the receiver
is still about it. -/
def resent : List LinkChoice :=
  [.sender (.submit ⟨0xAA55, 1, 7, 0⟩ [42]), .sender (.run 0 true), .sender (.run 0 true),
    .sender (.run 0 true), .sender (.tick 2001), .sender .process, .sender (.run 0 true),
    .sender (.run 0 true), .sender (.run 0 true), .sender (.run 0 true), .sender (.run 0 true),
    .receive 1, .acknowledge 0, .sender (.run 0 true)]

/-- A link with a channel of id 1, after some choices. -/
def linkAfter (cs : List LinkChoice) : Option (Link 8) :=
  exec (linkStep {} fun id => id = 1) (Link.init (by decide)) cs

/-- The copy that was late comes after the other one. -/
theorem link_sound_late : ∃ l,
    linkAfter (resent ++ [.processIncoming, .receive 0, .processIncoming]) = some l ∧
    (∀ h os, .delivered h os ∈ l.receiver.log →
      ∃ hd, .submitted hd os ∈ l.sender.monitor.log ∧ h = hd.withLength os) ∧
      Spaced 8 (deliveries 1 l.receiver.log) := by
  obtain ⟨l, hl⟩ : ∃ l,
      linkAfter (resent ++ [.processIncoming, .receive 0, .processIncoming]) = some l :=
    Option.isSome_iff_exists.mp (by decide)
  obtain ⟨hdelivered, hspaced⟩ := link_sound ⟨_, hl⟩
  exact ⟨l, hl, hdelivered, hspaced 1 (by decide)⟩

/-- A number comes from a delivery. -/
theorem mem_deliveries {id : RemoteId} {seqNum : BitVec 16} {log : List Arrival}
    (h : seqNum ∈ deliveries id log) :
    ∃ hd os, .delivered hd os ∈ log ∧ hd.id = id ∧ hd.seqNum = seqNum := by
  simp only [deliveries, List.mem_filterMap] at h
  obtain ⟨a, ha, hsome⟩ := h
  cases a with
  | delivered hd os =>
      simp only at hsome
      split at hsome
      · next hid =>
          cases hsome
          exact ⟨hd, os, ha, hid, rfl⟩
      · contradiction
  | _ => cases hsome

/-- No sequence number is used twice. -/
def Link.NumbersOnce (l : Link size) : Prop :=
  ∀ hd os hd' os', .submitted hd os ∈ l.sender.monitor.log →
    .submitted hd' os' ∈ l.sender.monitor.log → hd.seqNum = hd'.seqNum → hd = hd' ∧ os = os'

/-- A message as it was submitted is known by its sequence number. -/
theorem Link.NumbersOnce.unique {l : Link size} (honce : l.NumbersOnce) {h : DmqHeader}
    {os : Payload} (hsent : l.Sent h os) {hd : DmqHeader} {os' : Payload}
    (hsub : .submitted hd os' ∈ l.sender.monitor.log) (hseq : h.seqNum = hd.seqNum) :
    h = hd.withLength os' ∧ os = os' := by
  obtain ⟨hd', hsub', rfl⟩ := hsent
  obtain ⟨rfl, rfl⟩ := honce hd' os hd os' hsub' hsub hseq
  exact ⟨rfl, rfl⟩

/-- What is acknowledged has been delivered, unless it is in hand. -/
theorem Link.Sound.acknowledged {l : Link size} (h : l.Sound cfg channels)
    (honce : l.NumbersOnce) {hd : DmqHeader} {os : Payload}
    (hsub : .submitted hd os ∈ l.sender.monitor.log) (hack : hd.seqNum ∈ l.receiver.acks)
    (hchannel : channels hd.id = true) :
    .delivered (hd.withLength os) os ∈ l.receiver.log ∨
      l.receiver.hand = some (hd.withLength os, os) := by
  obtain ⟨h₁, os₁, hrec, hseq, hid⟩ := h.receiver.acks _ hack
  obtain ⟨rfl, rfl⟩ := honce.unique (h.received _ _ hrec) hsub hseq
  rcases h.receiver.received _ _ hrec hid hchannel with hhand | hmem
  · exact .inr hhand
  · obtain ⟨h₂, os₂, hdel, -, hseq₂⟩ := mem_deliveries hmem
    have hsent := h.received _ _ (h.receiver.delivered _ _ hdel)
    obtain ⟨rfl, rfl⟩ := honce.unique hsent hsub hseq₂
    exact .inl hdel

/-- As long as no sequence number is used twice, a message that `SUCCESS` is
reported for and that there is a channel for has been delivered to it with its
payload, or is the one that `ProcessIncoming` is about and delivers next. -/
theorem acknowledged_delivered {hsize : 0 < size} {l : Link size}
    (h : Runs (linkStep cfg channels) (Link.init hsize) l) (honce : l.NumbersOnce)
    {id : RemoteId} {seqNum : BitVec 16} (hchannel : channels id = true)
    (hack : .acknowledged id seqNum ∈ l.sender.monitor.log) :
    ∃ hd os, .submitted hd os ∈ l.sender.monitor.log ∧ hd.id = id ∧ hd.seqNum = seqNum ∧
      (.delivered (hd.withLength os) os ∈ l.receiver.log ∨
        l.receiver.hand = some (hd.withLength os, os) ∧
          ∀ l', linkStep cfg channels l .processIncoming = some l' →
            .delivered (hd.withLength os) os ∈ l'.receiver.log) := by
  have hsound := sound_of_runs h
  obtain ⟨hsent, hd, os, hsub, rfl, rfl⟩ := hsound.answered.acknowledged id seqNum hack
  refine ⟨hd, os, hsub, rfl, rfl, ?_⟩
  rcases hsound.acknowledged honce hsub hsent hchannel with hdel | hhand
  · exact .inl hdel
  · refine .inr ⟨hhand, fun l' hstep => ?_⟩
    obtain ⟨p, hp, rfl⟩ := Option.map_eq_some_iff.mp hstep
    cases hhand.symm.trans hp
    have hnext := hsound.processIncoming hhand
    rcases hnext.acknowledged honce hsub
      ((Receiver.processIncoming_acks ..).symm ▸ hsent) hchannel with hdel | hsome
    · exact hdel
    · cases (Receiver.processIncoming_hand ..).symm.trans hsome

/-- What the sender knows then. -/
theorem linkAfter_resent_log : (linkAfter resent).map (fun l => l.sender.monitor.log) =
    some [.submitted ⟨0xAA55, 1, 7, 0⟩ [42], .sent ⟨0xAA55, 1, 7, 0⟩ [42] true,
      .returned ⟨0xAA55, 1, 7, 0⟩ true, .status 1 7 false, .sent ⟨0xAA55, 1, 7, 0⟩ [42] true,
      .status 1 7 true, .acknowledged 1 7] := rfl

/-- The message is acknowledged first and delivered then. -/
theorem acknowledged_delivered_resent : ∃ l, linkAfter resent = some l ∧
    ∃ hd os, .submitted hd os ∈ l.sender.monitor.log ∧ hd.id = 1 ∧ hd.seqNum = 7 ∧
      (.delivered (hd.withLength os) os ∈ l.receiver.log ∨
        l.receiver.hand = some (hd.withLength os, os) ∧
          ∀ l', linkStep {} (fun id => id = 1) l .processIncoming = some l' →
            .delivered (hd.withLength os) os ∈ l'.receiver.log) := by
  have hlog := linkAfter_resent_log
  obtain ⟨l, hl, hlog⟩ := Option.map_eq_some_iff.mp hlog
  refine ⟨l, hl, acknowledged_delivered ⟨resent, hl⟩ ?_ rfl ?_⟩
  · unfold Link.NumbersOnce
    rw [hlog]
    simp +contextual
  · rw [hlog]
    simp

end Remote

end ActiveFsm
