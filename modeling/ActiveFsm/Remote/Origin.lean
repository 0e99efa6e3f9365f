import ActiveFsm.Remote.Accounted

/-!
# ActiveFsm.Remote.Origin

What is sent, for the first time or again, is what was given to `SendWithRetry`:
the same header and the same payload.
-/

namespace ActiveFsm

open Transition

namespace Remote

variable {π : Type} {cfg : Config}

def Monitor.Submitted (m : Monitor π) (h : DmqHeader) (os : π) : Prop := .submitted h os ∈ m.log

/-- The attempt that the thread is making. -/
def Thread.attempt? : Thread π → Option (Attempt π)
  | .sending a => some a
  | .retry _ a _ => some a
  | .pass => none
  | .notify _ => none
  | .reregister .. => none
  | .exhausted .. => none
  | .removed .. => none

/-- What is stored, and what has been sent, was submitted. -/
structure Monitor.Genuine (m : Monitor π) : Prop where
  store : ∀ k e, m.store.find? k = some e → m.Submitted e.header e.packetData
  sent : ∀ h os ok, .sent h os ok ∈ m.log → m.Submitted h os

def Thread.Genuine (m : Monitor π) (t : Thread π) : Prop :=
  ∀ a ∈ t.attempt?, m.Submitted a.header a.os

structure State.Genuine (s : State π) : Prop where
  monitor : s.monitor.Genuine
  threads : ∀ t ∈ s.threads, t.Genuine s.monitor

/-! ## What one section does -/

/-- What a section logs: no submission, only the attempt of its thread as sent,
and only what has been removed as acknowledged. -/
structure Thread.Logs (m : Monitor π) (t : Thread π) (m' : Monitor π) : Prop where
  keeps : ∀ e ∈ m.log, e ∈ m'.log
  sent : ∀ h os ok, .sent h os ok ∈ m'.log →
    .sent h os ok ∈ m.log ∨ ∃ a ∈ t.attempt?, a.header = h ∧ a.os = os
  acknowledged : ∀ id seqNum, .acknowledged id seqNum ∈ m'.log →
    .acknowledged id seqNum ∈ m.log ∨ t = .removed id seqNum

/-- The entries that a section leaves are those that were there, but for the
attempts that they have left and the flag. -/
def Monitor.Retains (m m' : Monitor π) : Prop :=
  ∀ k e, m'.store.find? k = some e → ∃ e', m.store.find? k = some e' ∧
    e'.header = e.header ∧ e'.packetData = e.packetData

/-- The same entries. -/
theorem Monitor.Retains.refl (m : Monitor π) : m.Retains m := fun _ e h => ⟨e, h, rfl, rfl⟩

/-- Fewer entries. -/
theorem retains_erase (m : Monitor π) (k : Nat) :
    m.Retains { m with store := m.store.erase k } := by
  intro j e hfind
  rw [OrderedMap.find?_erase] at hfind
  split at hfind
  · contradiction
  · exact ⟨e, hfind, rfl, rfl⟩

/-- The same entries, one of them marked. -/
theorem retains_markSent (m : Monitor π) (k : Nat) : m.Retains (markSent k m) := by
  intro j e hfind
  rw [markSent_find?] at hfind
  obtain ⟨e', hfind', rfl⟩ := Option.map_eq_some_iff.mp hfind
  refine ⟨e', hfind', ?_⟩
  split <;> exact ⟨rfl, rfl⟩

/-- An attempt makes no entries. -/
theorem Attempt.Next.retains {id : RemoteId} {seqNum : BitVec 16} {m m' : Monitor π}
    {a : Attempt π} {next : Option Stage} (h : a.Next cfg id seqNum m m' next) :
    m.Retains m' := by
  cases h with
  | mark => exact retains_markSent _ _
  | erase => exact retains_erase _ _
  | _ => exact .refl _

/-- Nor does any other section. -/
theorem Thread.Next.retains {m m' : Monitor π} {t : Thread π} {next : Option (Thread π)}
    (h : t.Next cfg m m' next) : m.Retains m' := by
  cases h with
  | sending h => exact h.retains
  | returned h => exact h.retains
  | retry h => exact h.retains
  | retried h => exact h.retains
  | drained hm => rcases hm with rfl | rfl <;> exact .refl _
  | again h =>
      intro j e' hfind
      rw [OrderedMap.find?_insert] at hfind
      split at hfind
      · next heq =>
          cases hfind
          rw [heq]
          exact ⟨_, h, rfl, rfl⟩
      · exact ⟨e', hfind, rfl, rfl⟩
  | exhaust => exact retains_erase _ _
  | acknowledged => exact retains_erase _ _
  | _ => exact .refl _

/-- A section that logs nothing. -/
theorem Thread.Logs.same {m m' : Monitor π} {t : Thread π} (h : m'.log = m.log) : t.Logs m m' :=
  ⟨fun _ he => h ▸ he, fun _ _ _ hmem => .inl (h ▸ hmem), fun _ _ hmem => .inl (h ▸ hmem)⟩

/-- A section that logs one event more. -/
theorem Thread.Logs.snoc {m m₁ m' : Monitor π} {t : Thread π} (h : t.Logs m m₁) {e : Event π}
    (hlog : m'.log = m₁.log ++ [e])
    (hsent : ∀ hd os ok, e = .sent hd os ok → ∃ a ∈ t.attempt?, a.header = hd ∧ a.os = os)
    (hack : ∀ id seqNum, e = .acknowledged id seqNum → t = .removed id seqNum) :
    t.Logs m m' := by
  refine ⟨fun e' he' => ?_, fun hd os ok hmem => ?_, fun id seqNum hmem => ?_⟩
  · rw [hlog]
    exact List.mem_append_left _ (h.keeps e' he')
  · rw [hlog] at hmem
    rcases List.mem_append.mp hmem with hold | hnew
    · exact h.sent hd os ok hold
    · exact .inr (hsent hd os ok (List.mem_singleton.mp hnew).symm)
  · rw [hlog] at hmem
    rcases List.mem_append.mp hmem with hold | hnew
    · exact h.acknowledged id seqNum hold
    · exact .inr (hack id seqNum (List.mem_singleton.mp hnew).symm)

/-- A thread logs what its attempt logs. -/
theorem Attempt.Next.logs {id : RemoteId} {seqNum : BitVec 16} {m m' : Monitor π}
    {a : Attempt π} {next : Option Stage} (h : a.Next cfg id seqNum m m' next) {t : Thread π}
    (ht : t.attempt? = some a) : t.Logs m m' := by
  cases h with
  | added => exact .same rfl
  | collision => exact .same rfl
  | full => exact (Thread.Logs.same rfl).snoc rfl (by simp) (by simp)
  | sent => exact (Thread.Logs.same rfl).snoc rfl (by simp [ht]) (by simp)
  | refused => exact (Thread.Logs.same rfl).snoc rfl (by simp [ht]) (by simp)
  | mark => exact .same (by simp)
  | cancel => exact .same rfl
  | erase => exact .same rfl
  | report => exact (Thread.Logs.same rfl).snoc rfl (by simp) (by simp)

/-- The sections one by one. -/
theorem Thread.Next.logs {m m' : Monitor π} {t : Thread π} {next : Option (Thread π)}
    (h : t.Next cfg m m' next) : t.Logs m m' := by
  have hsame : t.Logs m m := .same rfl
  cases h with
  | sending h => exact h.logs rfl
  | returned h => exact (h.logs rfl).snoc rfl (by simp) (by simp)
  | empty => exact hsame
  | expire => exact .same rfl
  | drained hm =>
      rcases hm with rfl | rfl
      · exact hsame
      · exact hsame.snoc rfl (by simp) (by simp)
  | forgotten => exact hsame.snoc rfl (by simp) (by simp)
  | again => exact hsame.snoc rfl (by simp) (by simp)
  | early => exact hsame.snoc rfl (by simp) (by simp)
  | exhaust => exact hsame.snoc rfl (by simp) (by simp)
  | retry h => exact h.logs rfl
  | retried h => exact h.logs rfl
  | reregistered => exact .same rfl
  | registered => exact .same rfl
  | @unwatched d _ _ _ n =>
      have hcap : Thread.Logs m _ (m.emit (.capExceeded n)) := hsame.snoc rfl (by simp) (by simp)
      exact hcap.snoc rfl (by simp) (by simp)
  | exhausted => exact hsame.snoc rfl (by simp) (by simp)
  | @acknowledged id seqNum =>
      have hstatus : Thread.Logs m _ (m.emit (.status id seqNum true)) :=
        hsame.snoc rfl (by simp) (by simp)
      exact hstatus.snoc rfl (by simp) (by simp)
  | unknown => exact hsame.snoc rfl (by simp) (by simp)

/-- The attempt of the thread afterwards is the one it was making, or one to
send a stored message again. -/
theorem Thread.Next.attempt {m m' : Monitor π} {t : Thread π} {next : Option (Thread π)}
    (h : t.Next cfg m m' next) : ∀ u ∈ next, ∀ a' ∈ u.attempt?,
      (∃ a ∈ t.attempt?, a.header = a'.header ∧ a.os = a'.os) ∨
        ∃ k e, m.store.find? k = some e ∧ e.header = a'.header ∧ e.packetData = a'.os := by
  intro u hu a' ha'
  cases h with
  | sending h =>
      cases hu
      cases ha'
      exact .inl ⟨_, rfl, rfl, rfl⟩
  | again h =>
      cases hu
      cases ha'
      exact .inr ⟨_, _, h, rfl, rfl⟩
  | retry h =>
      cases hu
      cases ha'
      exact .inl ⟨_, rfl, rfl, rfl⟩
  | drained hm hnext =>
      rcases hnext with rfl | rfl
      · cases hu
      · cases hu
        cases ha'
  | returned => cases hu
  | empty => cases hu
  | acknowledged => cases hu
  | unknown => cases hu
  | _ =>
      cases hu
      cases ha'

/-- No thread takes to removing, and one that removes comes to its end. -/
theorem Thread.Next.not_removed {m m' : Monitor π} {t : Thread π} {next : Option (Thread π)}
    (h : t.Next cfg m m' next) (id : RemoteId) (seqNum : BitVec 16) :
    .removed id seqNum ∉ next := by
  cases h with
  | drained hm hnext => rcases hnext with rfl | rfl <;> simp
  | _ => simp

/-! ## Whole runs -/

/-- Nothing is stored or sent at first. -/
theorem State.Genuine.init : State.Genuine ({} : State π) := ⟨⟨by simp, by simp⟩, by simp⟩

/-- A section stores and sends only what has been submitted. -/
theorem Monitor.Genuine.next {m m' : Monitor π} {t : Thread π} {next : Option (Thread π)}
    (hm : m.Genuine) (ht : t.Genuine m) (h : t.Next cfg m m' next) :
    m'.Genuine ∧ ∀ u ∈ next, u.Genuine m' := by
  obtain ⟨hkeeps, hsent, -⟩ := h.logs
  refine ⟨⟨fun k e hfind => ?_, fun hd os ok hmem => ?_⟩, fun u hu a' ha' => ?_⟩
  · obtain ⟨e', hfind', hheader, hdata⟩ := h.retains k e hfind
    exact hkeeps _ (hheader ▸ hdata ▸ hm.store k e' hfind')
  · rcases hsent hd os ok hmem with hold | ⟨a, ha, rfl, rfl⟩
    · exact hkeeps _ (hm.sent hd os ok hold)
    · exact hkeeps _ (ht a ha)
  · rcases h.attempt u hu a' ha' with ⟨a, ha, hheader, hos⟩ | ⟨k, e, hfind, hheader, hdata⟩
    · exact hkeeps _ (hheader ▸ hos ▸ ht a ha)
    · exact hkeeps _ (hheader ▸ hdata ▸ hm.store k e hfind)

/-- What has been submitted stays so. -/
theorem Thread.Genuine.mono {m m' : Monitor π} {t : Thread π} (h : t.Genuine m)
    (hkeeps : ∀ e ∈ m.log, e ∈ m'.log) : t.Genuine m' :=
  fun a ha => hkeeps _ (h a ha)

/-- So does every step. -/
theorem State.Genuine.step {s s' : State π} (h : s.Genuine) (hstep : Step cfg s s') :
    s'.Genuine := by
  obtain ⟨hm, hts⟩ := h
  cases hstep with
  | tick => exact ⟨⟨hm.store, hm.sent⟩, hts⟩
  | @submit m ts hd os =>
      have hkeeps : ∀ e ∈ m.log, e ∈ (submit cfg hd os m).log :=
        fun e he => List.mem_append_left _ he
      have hnew : (submit cfg hd os m).Submitted hd os :=
        List.mem_append_right _ (List.mem_singleton_self _)
      refine ⟨⟨fun k e hfind => ?_, fun hd' os' ok hmem => ?_⟩, ?_⟩
      · simp only [submit, emit_store, OrderedMap.find?_insert] at hfind
        split at hfind
        · cases hfind
          exact hnew
        · exact hkeeps _ (hm.store k e hfind)
      · rcases List.mem_append.mp hmem with hold | hsubmitted
        · exact hkeeps _ (hm.sent hd' os' ok hold)
        · simp at hsubmitted
      · refine List.forall_mem_append.mpr ⟨fun t ht => (hts t ht).mono hkeeps, ?_⟩
        simpa [Thread.Genuine, Thread.attempt?] using hnew
  | process =>
      exact ⟨hm, List.forall_mem_append.mpr ⟨hts, by simp [Thread.Genuine, Thread.attempt?]⟩⟩
  | remove =>
      exact ⟨⟨hm.store, hm.sent⟩,
        List.forall_mem_append.mpr ⟨hts, by simp [Thread.Genuine, Thread.attempt?]⟩⟩
  | stay => exact ⟨hm, hts⟩
  | run hnext =>
      simp only [List.forall_mem_append, List.forall_mem_cons] at hts
      obtain ⟨hbefore, ht, hafter⟩ := hts
      obtain ⟨hm', hu⟩ := hm.next ht hnext
      refine ⟨hm', ?_⟩
      simp only [List.forall_mem_append, Option.mem_toList]
      exact ⟨⟨fun u hmem => (hbefore u hmem).mono hnext.logs.keeps, hu⟩,
        fun u hmem => (hafter u hmem).mono hnext.logs.keeps⟩

/-- And so every run. -/
theorem genuine_of_runs {s : State π} (h : Runs (step cfg) {} s) : s.Genuine :=
  h.invariant (I := State.Genuine) (fun _ _ _ hs hstep => hs.step (step_of_step hstep)) .init

/-- Only what has been submitted is ever sent. -/
theorem submitted_of_sent {s : State π} (h : Runs (step cfg) {} s) {hd : DmqHeader} {os : π}
    {ok : Bool} (hsent : .sent hd os ok ∈ s.monitor.log) : .submitted hd os ∈ s.monitor.log :=
  (genuine_of_runs h).monitor.sent hd os ok hsent

end Remote

end ActiveFsm
