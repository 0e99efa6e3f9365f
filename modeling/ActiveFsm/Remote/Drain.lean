import ActiveFsm.Remote.RetryMonitor

/-!
# ActiveFsm.Remote.Drain

A call of `Process` drains the whole backlog and returns, however many messages
have expired and whatever other threads do in the meantime.  The measure is paid
by the backlog: every message taken out of it covers its own callback, and those
of a full batch also cover the pass that comes after it.
-/

namespace ActiveFsm

open Transition

namespace Remote

variable {π : Type} {cfg : Config}

/-! ## The backlog -/

/-- How many messages have waited for too long. -/
def backlog (cfg : Config) (m : Monitor π) : Nat :=
  m.pending.entries.countP fun e => cfg.expired m.now e.2

/-- A message that is registered has not expired. -/
theorem backlog_add_le {m : Monitor π} {seqNum : BitVec 16} {id : RemoteId} {r : AddResult}
    {p : Pending} (h : add cfg m.now seqNum id m.pending = (r, p)) :
    backlog cfg { m with pending := p } ≤ backlog cfg m := by
  simp only [add] at h
  split at h
  · cases h
    exact le_rfl
  · split at h
    · cases h
      exact le_rfl
    · cases h
      -- what is registered now has not expired
      exact OrderedMap.countP_insert_le m.pending (by simp [Config.expired])

/-- Nor does one that is removed. -/
theorem backlog_remove_le {m : Monitor π} {seqNum : BitVec 16} {id : RemoteId}
    {r : Option TimeoutData} {p : Pending} (h : remove seqNum id m.pending = (r, p)) :
    backlog cfg { m with pending := p } ≤ backlog cfg m := by
  simp only [remove] at h
  split at h
  · split at h
    · cases h
      exact List.filter_sublist.countP_le
    · cases h
      exact le_rfl
  · split at h
    · cases h
      exact List.filter_sublist.countP_le
    · cases h
      exact le_rfl

/-- So an attempt adds nothing to the backlog. -/
theorem Attempt.Next.backlog_le {id : RemoteId} {seqNum : BitVec 16} {m m' : Monitor π}
    {a : Attempt π} {next : Option Stage} (h : a.Next cfg id seqNum m m' next) :
    backlog cfg m' ≤ backlog cfg m := by
  cases h with
  | added hadd => exact backlog_add_le hadd
  | collision hadd => exact backlog_add_le hadd
  | full hadd => exact backlog_add_le hadd
  | sent => exact le_rfl
  | refused => exact le_rfl
  | mark =>
      rw [markSent]
      split <;> exact le_rfl
  | cancel => exact List.filter_sublist.countP_le
  | erase => exact le_rfl
  | report => exact le_rfl

/-! ## The work left -/

/-- The sections from a stage on, when a message is sent again. -/
@[simp] def Stage.weight : Stage → Nat
  | .add => 5
  | .send => 4
  | .mark => 1
  | .cancel => 3
  | .erase => 2
  | .report => 1

/-- An attempt comes nearer to its end. -/
theorem Attempt.Next.weight_lt {id : RemoteId} {seqNum : BitVec 16} {m m' : Monitor π}
    {a : Attempt π} {next : Option Stage} (h : a.Next cfg id seqNum m m' next) :
    (next.map Stage.weight).getD 0 < a.stage.weight := by
  cases h <;> simp

/-- A callback, at most five sections of sending again, and the end of the batch
or another pass. -/
def Batch.weight (cfg : Config) (b : Batch) : Nat :=
  6 * b.items.length + 1 + if b.expiredCount = cfg.maxExpired then 3 else 0

def Thread.weight (cfg : Config) : Thread π → Nat
  | .sending _ => 0
  | .pass => 3
  | .notify b => b.weight cfg
  | .retry _ a b => a.stage.weight + b.weight cfg
  | .reregister _ _ b => 1 + b.weight cfg
  | .exhausted _ b => 1 + b.weight cfg
  | .removed .. => 0

def weights (cfg : Config) (ts : List (Thread π)) : Nat := (ts.map (Thread.weight cfg)).sum

/-- `Process` goes on after the batch. -/
def Batch.Again (cfg : Config) (b : Batch) : Prop := b.expiredCount = cfg.maxExpired

/-- The thread has a pass before it. -/
def Thread.Again (cfg : Config) : Thread π → Prop
  | .sending _ => False
  | .pass => True
  | .notify b => b.Again cfg
  | .retry _ _ b => b.Again cfg
  | .reregister _ _ b => b.Again cfg
  | .exhausted _ b => b.Again cfg
  | .removed .. => False

/-- What a section does to the backlog, and to the work left for `Process`. -/
structure Thread.Drains (cfg : Config) (m : Monitor π) (t : Thread π) (m' : Monitor π)
    (next : Option (Thread π)) : Prop where
  backlog : backlog cfg m' ≤ backlog cfg m
  weight : 9 * Remote.backlog cfg m' + weights cfg next.toList + (if t.processing then 1 else 0) ≤
    9 * Remote.backlog cfg m + t.weight cfg
  again : t.Again cfg → (∃ t' ∈ next, t'.Again cfg) ∨ Remote.backlog cfg m' = 0

/-- A section after which `Process` is still at the same batch. -/
theorem Thread.Drains.of_batch {m m' : Monitor π} {t t' : Thread π}
    (hbacklog : Remote.backlog cfg m' ≤ Remote.backlog cfg m)
    (hweight : t'.weight cfg < t.weight cfg) (hagain : t.Again cfg → t'.Again cfg) :
    Thread.Drains cfg m t m' (some t') := by
  refine ⟨hbacklog, ?_, fun h => .inl ⟨t', rfl, hagain h⟩⟩
  have hone : (if t.processing then 1 else 0) ≤ 1 := by split <;> decide
  simp only [weights, Option.toList_some, List.map_cons, List.map_nil, List.sum_cons, List.sum_nil]
  omega

/-- A section of a thread that is not in `Process`. -/
theorem Thread.Drains.of_other {m m' : Monitor π} {t : Thread π} {next : Option (Thread π)}
    (hbacklog : Remote.backlog cfg m' ≤ Remote.backlog cfg m) (ht : t.processing = false)
    (hnext : weights cfg next.toList = 0) (hagain : ¬t.Again cfg) :
    Thread.Drains cfg m t m' next := by
  refine ⟨hbacklog, ?_, fun h => absurd h hagain⟩
  rw [ht, hnext]
  simp only [Bool.false_eq_true, if_false]
  omega

/-- The section of `Process`. -/
theorem drains_pass (hmax : 0 < cfg.maxExpired) (m : Monitor π) :
    Thread.Drains cfg m .pass (process cfg m).1 (process cfg m).2 := by
  simp only [process]
  split
  · next hempty =>
      have hnone : backlog cfg m = 0 := by
        rw [backlog, List.isEmpty_iff.mp hempty]
        rfl
      refine ⟨le_rfl, ?_, fun _ => .inr hnone⟩
      simp [weights, Thread.processing, Thread.weight]
  · have hcount :=
      OrderedMap.countP_extractFrom (cfg.expired m.now) cfg.maxExpired m.pending.entries
    have hrest := OrderedMap.countP_rest (cfg.expired m.now) cfg.maxExpired m.pending.entries
    generalize hr : OrderedMap.extractFrom (cfg.expired m.now) cfg.maxExpired m.pending.entries = r
      at hcount hrest
    have hleave : backlog cfg { m with
        pending := m.pending.leave (cfg.expired m.now) cfg.maxExpired } =
          r.rest.countP fun e => cfg.expired m.now e.2 := by
      rw [← hr]
      rfl
    have hbefore : backlog cfg m = m.pending.entries.countP fun e => cfg.expired m.now e.2 := rfl
    refine ⟨?_, ?_, fun _ => ?_⟩
    · rw [hleave, hbefore]
      omega
    · rw [hleave, hbefore]
      simp only [weights, Option.toList_some, List.map_cons, List.map_nil, List.sum_cons,
        List.sum_nil, Thread.weight, Batch.weight, List.length_map, Thread.processing,
        if_true]
      split <;> omega
    · by_cases hfull : r.taken.length = cfg.maxExpired
      · exact .inl ⟨_, rfl, hfull⟩
      · exact .inr (hleave.trans (hrest hfull))

/-- The end of a batch. -/
theorem drains_finish (ok : Bool) (m : Monitor π) (count remaining : Nat) :
    Thread.Drains cfg m (.notify ⟨[], count, remaining⟩)
      (Thread.step cfg ok m (.notify ⟨[], count, remaining⟩)).1
      (Thread.step cfg ok m (.notify ⟨[], count, remaining⟩)).2 := by
  simp only [Thread.step]
  have hsame : backlog cfg (if 0 < remaining then m.emit (.pendingExceeded remaining) else m) =
      backlog cfg m := by
    split <;> rfl
  refine ⟨hsame.le, ?_, fun hagain => ?_⟩
  · rw [hsame]
    by_cases hagain : count = cfg.maxExpired
    · simp [hagain, weights, Thread.weight, Batch.weight, Thread.processing]
    · simp [hagain, weights, Thread.weight, Batch.weight, Thread.processing]
  · have hcount : count = cfg.maxExpired := hagain
    rw [if_pos hcount]
    exact .inl ⟨.pass, rfl, trivial⟩

/-- `OnStatusChanged` at `TIMEOUT`. -/
theorem drains_onTimeout (m : Monitor π) (d : TimeoutData) (items : List TimeoutData)
    (count remaining : Nat) :
    Thread.Drains cfg m (.notify ⟨d :: items, count, remaining⟩)
      (onTimeout (m.emit (.status d.remoteId d.seqNum false)) d ⟨items, count, remaining⟩).1
      (some (onTimeout (m.emit (.status d.remoteId d.seqNum false)) d
        ⟨items, count, remaining⟩).2) := by
  have hlt (n : Nat) (hn : n < 6) : n + Batch.weight cfg ⟨items, count, remaining⟩ <
      Batch.weight cfg ⟨d :: items, count, remaining⟩ := by
    simp only [Batch.weight, List.length_cons]
    omega
  simp only [onTimeout]
  split
  · exact .of_batch le_rfl (by simpa [Thread.weight] using hlt 0) id
  · split
    · exact .of_batch le_rfl (hlt 5 (by decide)) id
    · split
      · exact .of_batch le_rfl (hlt 1 (by decide)) id
      · exact .of_batch le_rfl (hlt 1 (by decide)) id

/-- Each section of any thread, one by one. -/
theorem Thread.drains (hmax : 0 < cfg.maxExpired) (ok : Bool) (m : Monitor π) (t : Thread π) :
    Thread.Drains cfg m t (t.step cfg ok m).1 (t.step cfg ok m).2 := by
  cases t with
  | sending a =>
      have hle := (a.next_of_step cfg a.header.id a.header.seqNum ok m).backlog_le
      simp only [Thread.step]
      split <;> next heq =>
        rw [heq] at hle
        exact .of_other hle rfl rfl id
  | pass => exact drains_pass hmax m
  | notify b =>
      obtain ⟨items, count, remaining⟩ := b
      cases items with
      | nil => exact drains_finish ok m count remaining
      | cons d items => exact drains_onTimeout m d items count remaining
  | retry d a b =>
      have hnext := a.next_of_step cfg d.remoteId d.seqNum ok m
      have hle : backlog cfg _ ≤ backlog cfg m := hnext.backlog_le
      have hlt := hnext.weight_lt
      simp only [Thread.step]
      -- still trying, or back to the batch: both weigh less
      split <;> next heq =>
        rw [heq] at hle hlt
        exact .of_batch hle (by simp [Thread.weight] at hlt ⊢; omega) id
  | reregister d h b =>
      simp only [Thread.step]
      split
      · exact .of_batch le_rfl (by simp [Thread.weight]) id
      · next hadd => exact .of_batch (backlog_add_le hadd) (by simp [Thread.weight]) id
  | exhausted d b => exact .of_batch le_rfl (by simp [Thread.weight]) id
  | removed id seqNum =>
      refine .of_other ?_ rfl rfl fun h => h
      simp only [Thread.step, onSuccess]
      split <;> exact le_rfl

/-! ## Whole runs -/

/-- What is left for two groups of threads. -/
theorem weights_append (ts us : List (Thread π)) :
    weights cfg (ts ++ us) = weights cfg ts + weights cfg us := by
  simp [weights]

/-- A call of `Process` that comes back is still there. -/
theorem again_append {ts : List (Thread π)} (h : ∃ t ∈ ts, t.Again cfg) (us : List (Thread π)) :
    ∃ t ∈ ts ++ us, t.Again cfg := by
  obtain ⟨t, ht, hagain⟩ := h
  exact ⟨t, List.mem_append_left _ ht, hagain⟩

/-- Without a call of `Process` there is nothing to do. -/
theorem weights_eq_zero {ts : List (Thread π)} (h : ts.any Thread.processing = false) :
    weights cfg ts = 0 := by
  induction ts with
  | nil => rfl
  | cons t ts ih =>
      rw [List.any_cons, Bool.or_eq_false_iff] at h
      have ht : t.weight cfg = 0 := by
        obtain ⟨ht, -⟩ := h
        cases t <;> simp [Thread.processing, Thread.weight] at ht ⊢
      rw [weights, List.map_cons, List.sum_cons, ht, Nat.zero_add]
      exact ih h.2

@[simp] def Choice.isTick : Choice π → Bool
  | .tick _ => true
  | _ => false

@[simp] def Choice.isProcess : Choice π → Bool
  | .process => true
  | _ => false

/-- The choice lets the thread go on that is in `Process`. -/
def State.processes (s : State π) : Choice π → Bool
  | .run i _ => s.threads[i]?.any Thread.processing
  | _ => false

/-- The sections of `Process` in a run. -/
def processSteps (cfg : Config) : State π → List (Choice π) → Nat
  | _, [] => 0
  | s, c :: cs =>
    (if s.processes c then 1 else 0) + ((step cfg s c).map fun s' => processSteps cfg s' cs).getD 0

/-- All that a choice does, but for the time that passes. -/
structure State.Drains (cfg : Config) (s : State π) (c : Choice π) (s' : State π) : Prop where
  backlog : Remote.backlog cfg s'.monitor ≤ Remote.backlog cfg s.monitor
  weight : 9 * Remote.backlog cfg s'.monitor + weights cfg s'.threads +
      (if s.processes c then 1 else 0) ≤
    9 * Remote.backlog cfg s.monitor + weights cfg s.threads + if c.isProcess then 3 else 0
  again : (∃ t ∈ s.threads, t.Again cfg) →
    (∃ t ∈ s'.threads, t.Again cfg) ∨ Remote.backlog cfg s'.monitor = 0

/-- Every step while the clock stands still. -/
theorem State.drains (hmax : 0 < cfg.maxExpired) {s s' : State π} {c : Choice π}
    (h : step cfg s c = some s') (hstill : c.isTick = false) : s.Drains cfg c s' := by
  obtain ⟨m, ts⟩ := s
  cases c with
  | tick duration => contradiction
  | submit hd os =>
      cases h
      refine ⟨le_rfl, ?_, fun h => .inl (again_append h _)⟩
      rw [weights_append]
      exact le_rfl
  | process =>
      simp only [step] at h
      split at h
      · contradiction
      · cases h
        refine ⟨le_rfl, ?_, fun h => .inl (again_append h _)⟩
        rw [weights_append]
        exact le_rfl
  | remove seqNum id =>
      simp only [step] at h
      split at h
      · next hremove =>
          have hle : backlog cfg _ ≤ backlog cfg m := backlog_remove_le hremove
          cases h
          refine ⟨hle, ?_, fun h => .inl (again_append h _)⟩
          rw [weights_append]
          exact Nat.add_le_add_right (Nat.add_le_add_right (Nat.mul_le_mul_left 9 hle) _) _
      · cases h
        exact ⟨le_rfl, le_rfl, .inl⟩
  | run i ok =>
      simp only [step] at h
      split at h
      · next t ht =>
          cases h
          obtain ⟨hbacklog, hweight, hagain⟩ := Thread.drains hmax ok m t
          obtain ⟨hi, hget⟩ := List.getElem?_eq_some_iff.mp ht
          have hsplit : ts = ts.take i ++ t :: ts.drop (i + 1) := by simp [← hget]
          refine ⟨hbacklog, ?_, ?_⟩
          · have hbefore : weights cfg ts =
                weights cfg (ts.take i) + (t.weight cfg + weights cfg (ts.drop (i + 1))) := by
              conv_lhs => rw [hsplit, weights_append]
              simp [weights]
            simp only [State.processes, ht, Option.any_some, weights_append, hbefore,
              Choice.isProcess, Bool.false_eq_true, if_false]
            omega
          · rintro ⟨t', ht', hagain'⟩
            rw [hsplit] at ht'
            simp only [List.mem_append, List.mem_cons] at ht'
            rcases ht' with hold | rfl | hold
            · exact .inl ⟨t', by simp [hold], hagain'⟩
            · rcases hagain hagain' with ⟨next, hnext, hagain''⟩ | hnone
              · exact .inl ⟨next, by simp [Option.mem_def.mp hnext], hagain''⟩
              · exact .inr hnone
            · exact .inl ⟨t', by simp [hold], hagain'⟩
      · contradiction

/-- A whole run of them. -/
theorem drains_of_exec (hmax : 0 < cfg.maxExpired) {s s' : State π} {cs : List (Choice π)}
    (h : exec (step cfg) s cs = some s') (hstill : ∀ c ∈ cs, c.isTick = false) :
    processSteps cfg s cs + 9 * backlog cfg s'.monitor + weights cfg s'.threads ≤
        9 * backlog cfg s.monitor + weights cfg s.threads + 3 * cs.countP Choice.isProcess ∧
      ((∃ t ∈ s.threads, t.Again cfg) ∨ backlog cfg s.monitor = 0 →
        (∃ t ∈ s'.threads, t.Again cfg) ∨ backlog cfg s'.monitor = 0) := by
  induction cs generalizing s with
  | nil =>
      cases h
      exact ⟨by simp [processSteps], id⟩
  | cons c cs ih =>
      rw [exec_cons] at h
      obtain ⟨s₁, hstep, hrest⟩ := Option.bind_eq_some_iff.mp h
      rw [List.forall_mem_cons] at hstill
      obtain ⟨hbacklog, hweight, hagain⟩ := State.drains hmax hstep hstill.1
      obtain ⟨hweights, hagains⟩ := ih hrest hstill.2
      refine ⟨?_, fun hs => hagains ?_⟩
      · have hcalls : 3 * (c :: cs).countP Choice.isProcess =
            3 * cs.countP Choice.isProcess + if c.isProcess then 3 else 0 := by
          rw [List.countP_cons]
          split <;> omega
        rw [processSteps, hstep, Option.map_some, Option.getD_some, hcalls]
        omega
      · rcases hs with hs | hs
        · exact hagain hs
        · exact .inr (by omega)

/-- Such a thread is inside of `Process`. -/
theorem Thread.Again.processing {t : Thread π} (h : t.Again cfg) : t.processing = true := by
  cases t <;> first | rfl | exact h.elim

/-- A call of `Process`, from the moment it begins and for as long as the clock
stands still: however other threads come in between, it goes on for at most nine
sections for each expired message and three more, it can always go on, and when
it has returned no message that is waited for has expired. -/
theorem process_drains (hmax : 0 < cfg.maxExpired) {s s₁ s₂ : State π} {cs : List (Choice π)}
    (hcall : step cfg s .process = some s₁) (hrun : exec (step cfg) s₁ cs = some s₂)
    (hstill : ∀ c ∈ cs, c.isTick = false) :
    processSteps cfg s₁ cs ≤ 9 * backlog cfg s.monitor + 3 + 3 * cs.countP Choice.isProcess ∧
      (∀ i < s₂.threads.length, ∀ ok, (step cfg s₂ (.run i ok)).isSome) ∧
      (s₂.threads.any Thread.processing = false →
        ∀ k d, s₂.monitor.pending.find? k = some d → cfg.expired s₂.monitor.now d = false) := by
  simp only [step] at hcall
  split at hcall
  · contradiction
  · next hfree =>
      cases hcall
      obtain ⟨hweights, hagain⟩ := drains_of_exec hmax hrun hstill
      refine ⟨?_, fun i hi ok => ?_, fun hdone k d hfind => ?_⟩
      · have hbefore : weights cfg (s.threads ++ [.pass]) = 3 := by
          rw [weights_append, weights_eq_zero (by simpa using hfree)]
          rfl
        simp only [hbefore] at hweights
        omega
      · simp [step, hi]
      · have hnone : backlog cfg s₂.monitor = 0 := by
          rcases hagain (.inl ⟨.pass, by simp, trivial⟩) with ⟨t, ht, hagain⟩ | hnone
          · exact absurd hagain.processing (List.any_eq_false.mp hdone t ht)
          · exact hnone
        have hmem := OrderedMap.find?_eq_some.mp hfind
        simpa using List.countP_eq_zero.mp hnone (k, d) hmem

/-- A message has expired that nothing is known of any more. -/
def overdue : State Nat where
  monitor := { now := 2001, pending := OrderedMap.insert {} (key 1 7) ⟨1, 7, 0⟩ }

/-- A pass, a callback, and the end of the batch. -/
def drainOverdue : List (Choice Nat) := [.run 0 true, .run 0 true, .run 0 true]

theorem process_drains_overdue : ∃ s₁ s₂, step {} overdue .process = some s₁ ∧
    exec (step {}) s₁ drainOverdue = some s₂ ∧
      processSteps {} s₁ drainOverdue ≤ 9 * backlog {} overdue.monitor + 3 ∧
      ∀ k d, s₂.monitor.pending.find? k = some d → Config.expired {} s₂.monitor.now d = false := by
  obtain ⟨s₁, hcall⟩ : ∃ s₁, step {} overdue .process = some s₁ := ⟨_, rfl⟩
  obtain ⟨s₂, hrun, hfree⟩ : ∃ s₂, exec (step {}) s₁ drainOverdue = some s₂ ∧
      s₂.threads.any Thread.processing = false := by
    cases hcall
    exact ⟨_, rfl, rfl⟩
  obtain ⟨hsteps, -, hdone⟩ := process_drains (by decide) hcall hrun (by decide)
  exact ⟨s₁, s₂, hcall, hrun, hsteps, hdone hfree⟩

end Remote

end ActiveFsm
