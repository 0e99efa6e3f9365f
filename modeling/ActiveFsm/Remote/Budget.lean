import ActiveFsm.Remote.Accounted

/-!
# ActiveFsm.Remote.Budget

How often a message is sent.  Every call of `ITransport::Send` is paid for: by
the call of `SendWithRetry` that makes it, or by one of the attempts that the
entry of the message still has.
-/

namespace ActiveFsm

open Transition

namespace Remote

variable {π : Type} {cfg : Config}

/-! ## Counting -/

@[simp] def Event.isSent (k : Nat) : Event π → Bool
  | .sent h _ _ => h.key = k
  | _ => false

@[simp] def Event.isSubmitted (k : Nat) : Event π → Bool
  | .submitted h _ => h.key = k
  | _ => false

@[simp] def Event.isAcknowledged (k : Nat) : Event π → Bool
  | .acknowledged id seqNum => key id seqNum = k
  | _ => false

/-- How often `ITransport::Send` has been called for a key. -/
def transmissions (k : Nat) (log : List (Event π)) : Nat := log.countP (Event.isSent k)

/-- How often `SendWithRetry` has been called for it. -/
def submissions (k : Nat) (log : List (Event π)) : Nat := log.countP (Event.isSubmitted k)

/-- How often its entry has been erased on `SUCCESS`. -/
def acknowledgements (k : Nat) (log : List (Event π)) : Nat := log.countP (Event.isAcknowledged k)

/-- The next call of `Send` is still to come. -/
@[simp] def Stage.unsent : Stage → Bool
  | .add => true
  | .send => true
  | .mark => false
  | .cancel => false
  | .erase => false
  | .report => false

def Attempt.owes (k : Nat) (a : Attempt π) : Nat :=
  if a.header.key = k ∧ a.stage.unsent then 1 else 0

def Thread.owes (k : Nat) : Thread π → Nat
  | .sending a => a.owes k
  | .retry _ a _ => a.owes k
  | _ => 0

def State.owes (k : Nat) (ts : List (Thread π)) : Nat := (ts.map (Thread.owes k)).sum

/-- The attempts that an entry still has. -/
def attemptsLeft (k : Nat) (store : Store π) : Nat :=
  ((store.find? k).map fun e => e.attemptsRemaining.toNat).getD 0

def entries (k : Nat) (store : Store π) : Nat := ((store.find? k).map fun _ => 1).getD 0

/-- The attempts left for a key, after one entry has been stored. -/
theorem attemptsLeft_insert (store : Store π) (k j : Nat) (e : RetryEntry π) :
    attemptsLeft k (store.insert j e) =
      if k = j then e.attemptsRemaining.toNat else attemptsLeft k store := by
  simp only [attemptsLeft, OrderedMap.find?_insert]
  split <;> rfl

/-- Erasing an entry leaves no more attempts. -/
theorem attemptsLeft_erase_le (store : Store π) (k j : Nat) :
    attemptsLeft k (store.erase j) ≤ attemptsLeft k store := by
  simp only [attemptsLeft, OrderedMap.find?_erase]
  split
  · exact Nat.zero_le _
  · exact le_rfl

/-- Marking one leaves as many. -/
theorem attemptsLeft_markSent (m : Monitor π) (k j : Nat) :
    attemptsLeft k (markSent j m).store = attemptsLeft k m.store := by
  simp only [attemptsLeft, markSent_find?, Option.map_map]
  congr 2
  funext e
  simp only [Function.comp_apply]
  split <;> rfl

/-- Whether there is an entry, after one has been stored. -/
theorem entries_insert (store : Store π) (k j : Nat) (e : RetryEntry π) :
    entries k (store.insert j e) = if k = j then 1 else entries k store := by
  simp only [entries, OrderedMap.find?_insert]
  split <;> rfl

/-- And after one has been erased. -/
theorem entries_erase (store : Store π) (k j : Nat) :
    entries k (store.erase j) = if k = j then 0 else entries k store := by
  simp only [entries, OrderedMap.find?_erase]
  split <;> rfl

/-- Erasing an entry adds none. -/
theorem entries_erase_le (store : Store π) (k j : Nat) :
    entries k (store.erase j) ≤ entries k store := by
  rw [entries_erase]
  split
  · exact Nat.zero_le _
  · exact le_rfl

/-- Nor does marking one. -/
theorem entries_markSent (m : Monitor π) (k j : Nat) :
    entries k (markSent j m).store = entries k m.store := by
  simp only [entries, markSent_find?, Option.map_map]
  rfl

section Emit

variable (k : Nat) (m : Monitor π)

@[simp] theorem transmissions_emit (e : Event π) : transmissions k (m.emit e).log =
    transmissions k m.log + if e.isSent k then 1 else 0 := by
  simp [transmissions, Monitor.emit, List.countP_append, List.countP_singleton]

@[simp] theorem submissions_emit (e : Event π) : submissions k (m.emit e).log =
    submissions k m.log + if e.isSubmitted k then 1 else 0 := by
  simp [submissions, Monitor.emit, List.countP_append, List.countP_singleton]

@[simp] theorem acknowledgements_emit (e : Event π) : acknowledgements k (m.emit e).log =
    acknowledgements k m.log + if e.isAcknowledged k then 1 else 0 := by
  simp [acknowledgements, Monitor.emit, List.countP_append, List.countP_singleton]

end Emit

/-! ## One section -/

/-- What a section adds to the three counts of a key, where `owed` and `owed'`
are what its thread owes before and after. -/
structure Ledger (k : Nat) (m : Monitor π) (owed : Nat) (m' : Monitor π) (owed' : Nat) :
    Prop where
  submissions : submissions k m'.log = submissions k m.log
  transmissions : transmissions k m'.log + owed' + attemptsLeft k m'.store ≤
    transmissions k m.log + owed + attemptsLeft k m.store
  acknowledgements : acknowledgements k m'.log + entries k m'.store ≤
    acknowledgements k m.log + entries k m.store

/-- A section that logs nothing that counts and leaves the entries alone. -/
theorem Ledger.of_frame {k : Nat} {m m' : Monitor π} {owed owed' : Nat}
    (hsub : Remote.submissions k m'.log = Remote.submissions k m.log)
    (hsent : Remote.transmissions k m'.log = Remote.transmissions k m.log)
    (hack : Remote.acknowledgements k m'.log = Remote.acknowledgements k m.log)
    (hstore : m'.store = m.store) (howed : owed' ≤ owed) : Ledger k m owed m' owed' := by
  refine ⟨hsub, ?_, ?_⟩ <;> rw [hstore] <;> omega

/-- What an attempt owes at its next stage, if there is one. -/
def Attempt.owesNext (k : Nat) (a : Attempt π) (next : Option Stage) : Nat :=
  (next.map fun stage => Attempt.owes k { a with stage }).getD 0

/-- A section of an attempt pays for what it sends. -/
theorem Attempt.Next.ledger {id : RemoteId} {seqNum : BitVec 16} {m m' : Monitor π}
    {a : Attempt π} {next : Option Stage} (h : a.Next cfg id seqNum m m' next) (k : Nat) :
    Ledger k m (a.owes k) m' (a.owesNext k next) := by
  cases h with
  | added => exact .of_frame rfl rfl rfl rfl (by simp [Attempt.owes, Attempt.owesNext])
  | collision => exact .of_frame rfl rfl rfl rfl (by simp [Attempt.owes, Attempt.owesNext])
  | full =>
      refine .of_frame ?_ ?_ ?_ rfl ?_ <;> simp [Attempt.owes, Attempt.owesNext]
  | sent => exact ⟨by simp, by simp [Attempt.owes, Attempt.owesNext], by simp⟩
  | refused => exact ⟨by simp, by simp [Attempt.owes, Attempt.owesNext], by simp⟩
  | mark =>
      refine ⟨by simp, ?_, by simp [entries_markSent]⟩
      simp [attemptsLeft_markSent, Attempt.owesNext]
  | cancel => exact .of_frame rfl rfl rfl rfl (by simp [Attempt.owes, Attempt.owesNext])
  | erase =>
      refine ⟨rfl, ?_, Nat.add_le_add_left (entries_erase_le m.store k _) _⟩
      have hleft := attemptsLeft_erase_le m.store k (key id seqNum)
      simp [Attempt.owes, Attempt.owesNext, hleft]
  | report =>
      refine .of_frame ?_ ?_ ?_ rfl ?_ <;> simp [Attempt.owesNext]

/-- So does a section of any thread. -/
theorem Thread.Next.ledger {m m' : Monitor π} {t : Thread π} {next : Option (Thread π)}
    (h : t.Next cfg m m' next) (hm : m.Consistent) (k : Nat) :
    Ledger k m (t.owes k) m' (State.owes k next.toList) := by
  cases h with
  | sending h => exact h.ledger k
  | returned h =>
      obtain ⟨hsub, hsent, hack⟩ := h.ledger k
      refine ⟨by simpa using hsub, ?_, by simpa using hack⟩
      simp only [transmissions_emit, Event.isSent, emit_store]
      exact hsent
  | empty => exact .of_frame rfl rfl rfl rfl le_rfl
  | expire => exact .of_frame rfl rfl rfl rfl le_rfl
  | drained hm' hnext =>
      have howed : State.owes k next.toList ≤ 0 := by rcases hnext with rfl | rfl <;> exact le_rfl
      rcases hm' with rfl | rfl
      · exact .of_frame rfl rfl rfl rfl howed
      · exact .of_frame (by simp) (by simp) (by simp) rfl howed
  | forgotten => exact .of_frame (by simp) (by simp) (by simp) rfl le_rfl
  | @again d items count remaining e h hleft =>
      have hkey := hm.store _ _ h
      have howed : State.owes k [Thread.retry d ⟨e.header, e.packetData, .add⟩
          ⟨items, count, remaining⟩] = if k = d.key then 1 else 0 := by
        simp [State.owes, Thread.owes, Attempt.owes, hkey, eq_comm]
      refine ⟨by simp, ?_, ?_⟩
      · simp only [Option.toList_some, howed, attemptsLeft_insert]
        by_cases heq : k = d.key
        · have hsame : attemptsLeft k m.store = e.attemptsRemaining.toNat := by
            simp [attemptsLeft, heq, h]
          simp [heq] at hsame ⊢
          omega
        · simp [heq]
      · simp only [entries_insert]
        by_cases heq : k = d.key
        · simp [entries, heq, h]
        · simp [heq]
  | early => exact .of_frame (by simp) (by simp) (by simp) rfl le_rfl
  | exhaust =>
      refine ⟨by simp, ?_, ?_⟩
      · simp only [transmissions_emit, Event.isSent]
        exact Nat.add_le_add_left (attemptsLeft_erase_le _ _ _) _
      · simp only [acknowledgements_emit, Event.isAcknowledged]
        exact Nat.add_le_add_left (entries_erase_le _ _ _) _
  | retry h => exact h.ledger k
  | @retried d a b _ o h hnext =>
      obtain ⟨hsub, hsent, hack⟩ := h.ledger k
      have howed : a.owesNext k o = 0 := by
        rcases hnext with rfl | rfl <;> simp [Attempt.owesNext, Attempt.owes]
      rw [howed] at hsent
      exact ⟨hsub, hsent, hack⟩
  | reregistered => exact .of_frame rfl rfl rfl rfl le_rfl
  | registered => exact .of_frame rfl rfl rfl rfl le_rfl
  | unwatched => exact .of_frame (by simp) (by simp) (by simp) rfl le_rfl
  | exhausted => exact .of_frame (by simp) (by simp) (by simp) rfl le_rfl
  | @acknowledged id seqNum e h =>
      refine ⟨by simp, ?_, ?_⟩
      · simp only [transmissions_emit, Event.isSent]
        exact Nat.add_le_add_left (attemptsLeft_erase_le _ _ _) _
      · simp only [emit_store, entries_erase]
        by_cases heq : k = key id seqNum
        · simp [entries, heq, h]
        · simp [heq, Ne.symm heq]
  | unknown => exact .of_frame (by simp) (by simp) (by simp) rfl le_rfl

/-! ## Whole runs -/

/-- All calls of `Send` for a key, made and still to come, are paid for. -/
structure State.Paid (cfg : Config) (k : Nat) (s : State π) : Prop where
  transmissions : transmissions k s.monitor.log + State.owes k s.threads +
      attemptsLeft k s.monitor.store ≤
    submissions k s.monitor.log * (1 + cfg.maxRetries.toNat)
  acknowledgements : acknowledgements k s.monitor.log + entries k s.monitor.store ≤
    submissions k s.monitor.log

/-- What two groups of threads owe. -/
theorem owes_append (k : Nat) (ts us : List (Thread π)) :
    State.owes k (ts ++ us) = State.owes k ts + State.owes k us := by
  simp [State.owes]

/-- So does every step. -/
theorem State.Paid.step {s s' : State π} {k : Nat} (h : s.Paid cfg k) (hs : s.Consistent)
    (hstep : Step cfg s s') : s'.Paid cfg k := by
  obtain ⟨hsent, hack⟩ := h
  cases hstep with
  | tick => exact ⟨hsent, hack⟩
  | @submit m ts hd os =>
      by_cases hkey : hd.key = k
      · have hleft : 0 ≤ attemptsLeft k m.store := Nat.zero_le _
        constructor
        · simp [submit, attemptsLeft_insert, owes_append, hkey, Nat.add_mul] at hsent ⊢
          simp [State.owes, Thread.owes, Attempt.owes, hkey] at hsent ⊢
          omega
        · simp [submit, entries_insert, hkey] at hack ⊢
          omega
      · constructor
        · simpa [submit, attemptsLeft_insert, owes_append, hkey, Ne.symm hkey, State.owes,
            Thread.owes, Attempt.owes] using hsent
        · simpa [submit, entries_insert, hkey, Ne.symm hkey] using hack
  | process => exact ⟨by rw [owes_append]; exact hsent, hack⟩
  | remove => exact ⟨by rw [owes_append]; exact hsent, hack⟩
  | stay => exact ⟨hsent, hack⟩
  | @run m before t after m' next hnext =>
      obtain ⟨hsub, hsent', hack'⟩ := hnext.ledger hs.monitor k
      have hcons : State.owes k (t :: after) = t.owes k + State.owes k after := by
        simp [State.owes]
      simp only [owes_append, hcons] at hsent
      dsimp only at hack
      constructor
      · simp only [owes_append, hsub]
        omega
      · simp only [hsub]
        omega

/-- `ITransport::Send` is called at most once for each call of `SendWithRetry`
and `maxRetries` times more, and at most one acknowledgement counts.  Calls of
`Process` do not overlap. -/
theorem retry_budget {s : State π} (h : Runs (step cfg) {} s) (k : Nat) :
    transmissions k s.monitor.log ≤
        submissions k s.monitor.log * (1 + cfg.maxRetries.toNat) ∧
      acknowledgements k s.monitor.log ≤ submissions k s.monitor.log := by
  have hpaid : s.Consistent ∧ s.Paid cfg k := by
    refine h.invariant (I := fun s => s.Consistent ∧ s.Paid cfg k) ?_ ?_
    · rintro s c s' ⟨hs, hk⟩ hstep
      have hstep := step_of_step hstep
      exact ⟨hs.step hstep, hk.step hs hstep⟩
    · exact ⟨State.Consistent.init, by simp [transmissions, submissions, State.owes, attemptsLeft],
        by simp [acknowledgements, submissions, entries]⟩
  obtain ⟨-, hsent, hack⟩ := hpaid
  omega

/-- The budget is used up where nothing is acknowledged. -/
theorem retry_budget_unanswered :
    ∃ s : State Nat, exec (step { maxRetries := 1 }) {} unanswered = some s ∧
      transmissions (key 1 7) s.monitor.log = 2 ∧
        2 ≤ submissions (key 1 7) s.monitor.log * (1 + 1) := by
  obtain ⟨s, hs⟩ : ∃ s, exec (step { maxRetries := 1 }) ({} : State Nat) unanswered = some s :=
    Option.isSome_iff_exists.mp rfl
  have hsent : (exec (step { maxRetries := 1 }) ({} : State Nat) unanswered).map
      (fun s => transmissions (key 1 7) s.monitor.log) = some 2 := rfl
  rw [hs, Option.map_some, Option.some_inj] at hsent
  have hbudget := (retry_budget ⟨unanswered, hs⟩ (key 1 7)).1
  rw [hsent] at hbudget
  exact ⟨s, hs, hsent, hbudget⟩

end Remote

end ActiveFsm
