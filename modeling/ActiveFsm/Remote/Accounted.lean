import Mathlib.Data.List.Induction
import ActiveFsm.Remote.RetryMonitor

/-!
# ActiveFsm.Remote.Accounted

No message is lost without a word.  From the moment at which `SendWithRetry`
stores it, a message is waited for, or some thread is about to report that it
has failed, until it is acknowledged or reported.  The one exception is in the
log: `OnStatusChanged` does not look at what `Add` returns when it registers a
message again.
-/

namespace ActiveFsm

open Transition

namespace Remote

variable {π : Type} {cfg : Config}

/-! ## Keys -/

/-- What the monitors keep under a key bears that key. -/
structure Monitor.Consistent (m : Monitor π) : Prop where
  pending : Keyed m.pending
  store : ∀ k e, m.store.find? k = some e → e.header.key = k

/-- A message that is sent again is the one that has timed out. -/
def Thread.Consistent : Thread π → Prop
  | .retry d a _ => a.header.key = d.key
  | .reregister d h _ => h.key = d.key
  | _ => True

structure State.Consistent (s : State π) : Prop where
  monitor : s.monitor.Consistent
  threads : ∀ t ∈ s.threads, t.Consistent

/-- A message is stored under its own key. -/
theorem Monitor.Consistent.insert {m : Monitor π} (h : m.Consistent) {k : Nat} {e : RetryEntry π}
    (hkey : e.header.key = k) : Monitor.Consistent { m with store := m.store.insert k e } := by
  refine ⟨h.pending, fun j e' hfind => ?_⟩
  rw [OrderedMap.find?_insert] at hfind
  split at hfind
  · next heq =>
      cases hfind
      exact hkey.trans heq.symm
  · exact h.store j e' hfind

/-- Erasing one leaves the others under theirs. -/
theorem Monitor.Consistent.erase {m : Monitor π} (h : m.Consistent) (k : Nat) :
    Monitor.Consistent { m with store := m.store.erase k } := by
  refine ⟨h.pending, fun j e hfind => ?_⟩
  rw [OrderedMap.find?_erase] at hfind
  split at hfind
  · contradiction
  · exact h.store j e hfind

/-- `Add` registers a message under its own key. -/
theorem keyed_add {now : Nat} {seqNum : BitVec 16} {id : RemoteId} {m m' : Pending} {r : AddResult}
    (hkeyed : Keyed m) (h : add cfg now seqNum id m = (r, m')) : Keyed m' := by
  cases r with
  | added =>
      obtain ⟨-, rfl⟩ := add_added h
      exact hkeyed.insert (d := ⟨id, seqNum, now⟩)
  | collision => exact (add_collision h).1 ▸ hkeyed
  | full n => exact add_full h ▸ hkeyed

/-- Marking a message changes nothing else. -/
theorem markSent_find? (k j : Nat) (m : Monitor π) :
    (markSent k m).store.find? j =
      (m.store.find? j).map fun e => if j = k then { e with isSent := true } else e := by
  simp only [markSent]
  split
  · next e h =>
      rw [OrderedMap.find?_insert]
      split
      · next heq => rw [heq, h]; rfl
      · simp
  · next h =>
      split
      · next heq => rw [heq, h]; rfl
      · simp

@[simp] theorem markSent_pending (k : Nat) (m : Monitor π) :
    (markSent k m).pending = m.pending := by
  simp only [markSent]
  split <;> rfl

@[simp] theorem markSent_log (k : Nat) (m : Monitor π) : (markSent k m).log = m.log := by
  simp only [markSent]
  split <;> rfl

/-- A section of an attempt keeps the keys. -/
theorem Attempt.Next.consistent {id : RemoteId} {seqNum : BitVec 16} {m m' : Monitor π}
    {a : Attempt π} {next : Option Stage} (h : a.Next cfg id seqNum m m' next)
    (hm : m.Consistent) : m'.Consistent := by
  cases h with
  | added hadd => exact ⟨keyed_add hm.pending hadd, hm.store⟩
  | collision hadd => exact ⟨keyed_add hm.pending hadd, hm.store⟩
  | full hadd => exact ⟨keyed_add hm.pending hadd, hm.store⟩
  | sent => exact ⟨hm.pending, hm.store⟩
  | refused => exact ⟨hm.pending, hm.store⟩
  | mark =>
      refine ⟨by rw [markSent_pending]; exact hm.pending, fun k e hfind => ?_⟩
      rw [markSent_find?] at hfind
      obtain ⟨e', hfind', rfl⟩ := Option.map_eq_some_iff.mp hfind
      have hkey := hm.store k e' hfind'
      split <;> exact hkey
  | cancel => exact ⟨hm.pending.erase, hm.store⟩
  | erase => exact hm.erase _
  | report => exact ⟨hm.pending, hm.store⟩

/-- So does a section of any thread. -/
theorem Thread.Next.consistent {m m' : Monitor π} {t : Thread π} {next : Option (Thread π)}
    (h : t.Next cfg m m' next) (hm : m.Consistent) (ht : t.Consistent) :
    m'.Consistent ∧ ∀ u ∈ next, u.Consistent := by
  cases h with
  | sending h => exact ⟨h.consistent hm, by simp [Thread.Consistent]⟩
  | returned h =>
      have hm' := h.consistent hm
      exact ⟨⟨hm'.pending, hm'.store⟩, by simp⟩
  | empty => exact ⟨hm, by simp⟩
  | expire => exact ⟨⟨hm.pending.leave _ _, hm.store⟩, by simp [Thread.Consistent]⟩
  | drained hm' hnext =>
      constructor
      · rcases hm' with rfl | rfl
        · exact hm
        · exact ⟨hm.pending, hm.store⟩
      · rcases hnext with rfl | rfl <;> simp [Thread.Consistent]
  | forgotten => exact ⟨⟨hm.pending, hm.store⟩, by simp [Thread.Consistent]⟩
  | again h =>
      have hkey := hm.store _ _ h
      exact ⟨⟨hm.pending, (hm.insert (by exact hkey)).store⟩,
        by simpa [Thread.Consistent] using hkey⟩
  | early h => exact ⟨⟨hm.pending, hm.store⟩, by simpa [Thread.Consistent] using hm.store _ _ h⟩
  | exhaust => exact ⟨⟨hm.pending, (hm.erase _).store⟩, by simp [Thread.Consistent]⟩
  | retry h => exact ⟨h.consistent hm, by simpa [Thread.Consistent] using ht⟩
  | retried h => exact ⟨h.consistent hm, by simp [Thread.Consistent]⟩
  | reregistered hadd => exact ⟨⟨keyed_add hm.pending hadd, hm.store⟩, by simp [Thread.Consistent]⟩
  | registered hadd => exact ⟨⟨keyed_add hm.pending hadd, hm.store⟩, by simp [Thread.Consistent]⟩
  | unwatched => exact ⟨⟨hm.pending, hm.store⟩, by simp [Thread.Consistent]⟩
  | exhausted => exact ⟨⟨hm.pending, hm.store⟩, by simp [Thread.Consistent]⟩
  | acknowledged => exact ⟨⟨hm.pending, (hm.erase _).store⟩, by simp⟩
  | unknown => exact ⟨⟨hm.pending, hm.store⟩, by simp⟩

/-- Nothing is stored at first. -/
theorem State.Consistent.init : State.Consistent ({} : State π) :=
  ⟨⟨by simp [Keyed], by simp⟩, by simp⟩

/-- A step keeps the keys. -/
theorem State.Consistent.step {s s' : State π} (h : s.Consistent) (hstep : Step cfg s s') :
    s'.Consistent := by
  obtain ⟨hm, hts⟩ := h
  cases hstep with
  | tick => exact ⟨⟨hm.pending, hm.store⟩, hts⟩
  | submit hd os =>
      have hm' := hm.insert (k := hd.key) (e := ⟨os, hd, cfg.maxRetries, false⟩) rfl
      exact ⟨⟨hm'.pending, hm'.store⟩,
        List.forall_mem_append.mpr ⟨hts, by simp [Thread.Consistent]⟩⟩
  | process => exact ⟨hm, List.forall_mem_append.mpr ⟨hts, by simp [Thread.Consistent]⟩⟩
  | remove hremove =>
      obtain ⟨-, rfl, -⟩ := remove_some hm.pending hremove
      exact ⟨⟨hm.pending.erase, hm.store⟩,
        List.forall_mem_append.mpr ⟨hts, by simp [Thread.Consistent]⟩⟩
  | stay => exact ⟨hm, hts⟩
  | run hnext =>
      simp only [List.forall_mem_append, List.forall_mem_cons] at hts
      obtain ⟨hbefore, ht, hafter⟩ := hts
      obtain ⟨hm', hu⟩ := hnext.consistent hm ht
      refine ⟨hm', ?_⟩
      simp only [List.forall_mem_append, Option.mem_toList]
      exact ⟨⟨hbefore, hu⟩, hafter⟩

/-! ## What becomes of a message -/

/-- Whether there is nothing more to say about a key: what has happened since
the last message was stored under it. -/
def settledBy (k : Nat) (b : Bool) : Event π → Bool
  | .submitted h _ => if h.key = k then false else b
  | .acknowledged id seqNum => b || key id seqNum = k
  | .failed id seqNum => b || key id seqNum = k
  | .unwatched id seqNum => b || key id seqNum = k
  | .sent .. => b
  | .returned .. => b
  | .status .. => b
  | .capExceeded _ => b
  | .pendingExceeded _ => b

def settled (k : Nat) (log : List (Event π)) : Bool := log.foldl (settledBy k) true

@[simp] theorem settled_emit (k : Nat) (m : Monitor π) (e : Event π) :
    settled k (m.emit e).log = settledBy k (settled k m.log) e := by
  simp [settled, Monitor.emit]

/-- It is about to be reported. -/
@[simp] def Stage.failing : Stage → Bool
  | .add => false
  | .send => false
  | .mark => false
  | .cancel => true
  | .erase => true
  | .report => true

/-- The thread is about to report it. -/
def Thread.Failing (k : Nat) : Thread π → Prop
  | .sending a => a.header.key = k ∧ a.stage.failing = true
  | .retry d a _ => d.key = k ∧ a.stage.failing = true
  | .exhausted d _ => d.key = k
  | .pass => False
  | .notify _ => False
  | .reregister .. => False
  | .removed .. => False

def Batch.Holds (k : Nat) (b : Batch) : Prop := ∃ d ∈ b.items, d.key = k

/-- The thread has it in hand. -/
def Thread.Watching (k : Nat) : Thread π → Prop
  | .sending a => a.header.key = k ∧ a.stage = .add
  | .notify b => b.Holds k
  | .retry d a b => d.key = k ∧ a.stage = .add ∨ b.Holds k
  | .reregister d _ b => d.key = k ∨ b.Holds k
  | .exhausted _ b => b.Holds k
  | .removed id seqNum => key id seqNum = k
  | .pass => False

def Monitor.Stored (k : Nat) (m : Monitor π) : Prop := ∃ e, m.store.find? k = some e

def Monitor.Awaited (k : Nat) (m : Monitor π) : Prop := ∃ d, m.pending.find? k = some d

def State.Failing (k : Nat) (s : State π) : Prop := ∃ t ∈ s.threads, t.Failing k

def State.Watched (k : Nat) (s : State π) : Prop :=
  s.monitor.Awaited k ∨ ∃ t ∈ s.threads, t.Watching k

/-- Where a message stands. -/
def State.Accounted (k : Nat) (s : State π) : Prop :=
  settled k s.monitor.log = true ∨ s.Failing k ∨ s.monitor.Stored k ∧ s.Watched k

/-! ## One section -/

section Keys

variable {m : Monitor π} {k j : Nat}

/-- Storing a message forgets no other. -/
theorem Monitor.Stored.insert {e : RetryEntry π} (h : m.Stored k) :
    Monitor.Stored k { m with store := m.store.insert j e } := by
  obtain ⟨e', he⟩ := h
  simp only [Monitor.Stored, OrderedMap.find?_insert]
  split
  · exact ⟨e, rfl⟩
  · exact ⟨e', he⟩

/-- Nor does erasing one. -/
theorem Monitor.Stored.erase_of_ne (h : m.Stored k) (hne : k ≠ j) :
    Monitor.Stored k { m with store := m.store.erase j } := by
  obtain ⟨e, he⟩ := h
  exact ⟨e, (OrderedMap.find?_erase_of_ne hne).trans he⟩

/-- A message that `Add` registers, or finds registered, is waited for. -/
theorem awaited_of_add {seqNum : BitVec 16} {id : RemoteId} {r : AddResult} {p : Pending}
    (h : add cfg m.now seqNum id m.pending = (r, p)) :
    (m.Awaited k → ∃ d, p.find? k = some d) ∧
      (r = .added ∨ r = .collision → key id seqNum = k → ∃ d, p.find? k = some d) := by
  cases r with
  | added =>
      obtain ⟨-, rfl⟩ := add_added h
      constructor
      · rintro ⟨d, hd⟩
        rw [OrderedMap.find?_insert]
        split
        · exact ⟨_, rfl⟩
        · exact ⟨d, hd⟩
      · rintro - rfl
        exact ⟨_, OrderedMap.find?_insert_self⟩
  | collision =>
      obtain ⟨rfl, hfound⟩ := add_collision h
      exact ⟨fun hawaited => hawaited, fun _ heq => heq ▸ hfound⟩
  | full n =>
      rw [add_full h]
      exact ⟨fun hawaited => hawaited, by simp⟩

end Keys

/-- What a section of an attempt does to a key, where `mine` is the key that it
erases and reports. -/
structure Attempt.Keeps (k mine : Nat) (m : Monitor π) (a : Attempt π) (m' : Monitor π)
    (next : Option Stage) : Prop where
  log : settled k m.log = true → settled k m'.log = true
  failing : mine = k → a.stage.failing = true →
    settled k m'.log = true ∨ ∃ stage ∈ next, stage.failing = true
  stored : m.Stored k →
    settled k m'.log = true ∨ (mine = k ∧ ∃ stage ∈ next, stage.failing = true) ∨
      m'.Stored k ∧ (m.Awaited k ∨ mine = k ∧ a.stage = .add → m'.Awaited k)

/-- A message that is registered, or is so already. -/
theorem keeps_add {id : RemoteId} {seqNum : BitVec 16} {m : Monitor π} {hd : DmqHeader} {os : π}
    {r : AddResult} {p : Pending} {next : Option Stage}
    (hadd : add cfg m.now hd.seqNum hd.id m.pending = (r, p)) (hr : r = .added ∨ r = .collision)
    (hkey : hd.key = key id seqNum) (k : Nat) :
    Attempt.Keeps k (key id seqNum) m ⟨hd, os, .add⟩ { m with pending := p } next := by
  obtain ⟨hkept, hmine⟩ := awaited_of_add (k := k) hadd
  refine ⟨fun h => h, by simp, fun hstored => .inr (.inr ⟨hstored, ?_⟩)⟩
  rintro (hawaited | ⟨rfl, -⟩)
  · exact hkept hawaited
  · exact hmine hr hkey

/-- The sections of an attempt one by one. -/
theorem Attempt.Next.keeps {id : RemoteId} {seqNum : BitVec 16} {m m' : Monitor π}
    {a : Attempt π} {next : Option Stage} (h : a.Next cfg id seqNum m m' next)
    (hkey : a.header.key = key id seqNum) (k : Nat) :
    Attempt.Keeps k (key id seqNum) m a m' next := by
  cases h with
  | added hadd => exact keeps_add hadd (.inl rfl) hkey k
  | collision hadd => exact keeps_add hadd (.inr rfl) hkey k
  | full hadd =>
      obtain ⟨hkept, -⟩ := awaited_of_add (k := k) hadd
      refine ⟨by simp [settledBy], by simp, fun hstored => .inr ?_⟩
      by_cases hmine : key id seqNum = k
      · exact .inl ⟨hmine, .erase, rfl, rfl⟩
      · refine .inr ⟨hstored, ?_⟩
        rintro (hawaited | ⟨rfl, -⟩)
        · exact hkept hawaited
        · exact absurd rfl hmine
  | sent =>
      refine ⟨by simp [settledBy], by simp, fun hstored => .inr (.inr ⟨hstored, ?_⟩)⟩
      simp [Monitor.emit, Monitor.Awaited]
  | refused =>
      refine ⟨by simp [settledBy], by simp, fun hstored => .inr (.inr ⟨hstored, ?_⟩)⟩
      simp [Monitor.emit, Monitor.Awaited]
  | mark =>
      refine ⟨by simp, by simp, fun ⟨e, he⟩ => .inr (.inr ⟨?_, by simp [Monitor.Awaited]⟩)⟩
      simp [Monitor.Stored, markSent_find?, he]
  | cancel =>
      refine ⟨fun h => h, by simp, fun hstored => .inr ?_⟩
      by_cases hmine : key id seqNum = k
      · exact .inl ⟨hmine, .erase, rfl, rfl⟩
      · refine .inr ⟨hstored, ?_⟩
        rintro (⟨d, hd⟩ | ⟨rfl, -⟩)
        · have hne : k ≠ key _ _ := fun heq => hmine (hkey.symm.trans heq.symm)
          exact ⟨d, (OrderedMap.find?_erase_of_ne hne).trans hd⟩
        · exact absurd rfl hmine
  | erase =>
      refine ⟨fun h => h, by simp, fun hstored => .inr ?_⟩
      by_cases hmine : key id seqNum = k
      · exact .inl ⟨hmine, .report, rfl, rfl⟩
      · refine .inr ⟨Monitor.Stored.erase_of_ne hstored (Ne.symm hmine), ?_⟩
        simp [hmine, Monitor.Awaited]
  | report =>
      refine ⟨by simp +contextual [settledBy], by simp +contextual [settledBy],
        fun hstored => .inr (.inr ⟨hstored, ?_⟩)⟩
      simp [Monitor.emit, Monitor.Awaited]

/-- What a section of a thread does to a key. -/
structure Thread.Keeps (k : Nat) (m : Monitor π) (t : Thread π) (m' : Monitor π)
    (next : Option (Thread π)) : Prop where
  log : settled k m.log = true → settled k m'.log = true
  failing : t.Failing k → settled k m'.log = true ∨ ∃ u ∈ next, u.Failing k
  stored : m.Stored k → settled k m'.log = true ∨ (∃ u ∈ next, u.Failing k) ∨
    m'.Stored k ∧ (m.Awaited k ∨ t.Watching k → m'.Awaited k ∨ ∃ u ∈ next, u.Watching k)

/-- A section that leaves both maps as they are, and hands on what it has. -/
theorem Thread.Keeps.of_frame {k : Nat} {m m' : Monitor π} {t : Thread π}
    {next : Option (Thread π)} (hlog : settled k m.log = true → settled k m'.log = true)
    (hpending : m'.pending = m.pending) (hstore : m'.store = m.store)
    (hfailing : t.Failing k → settled k m'.log = true ∨ ∃ u ∈ next, u.Failing k)
    (hwatching : m.Stored k → t.Watching k →
      settled k m'.log = true ∨ ∃ u ∈ next, u.Failing k ∨ u.Watching k) :
    Thread.Keeps k m t m' next := by
  refine ⟨hlog, hfailing, fun hstored => ?_⟩
  have hstored' : m'.Stored k := by rwa [Monitor.Stored, hstore]
  by_cases hwatch : t.Watching k
  · rcases hwatching hstored hwatch with hsettled | ⟨u, hu, hfail | hwatch'⟩
    · exact .inl hsettled
    · exact .inr (.inl ⟨u, hu, hfail⟩)
    · exact .inr (.inr ⟨hstored', fun _ => .inr ⟨u, hu, hwatch'⟩⟩)
  · refine .inr (.inr ⟨hstored', ?_⟩)
    rintro (hawaited | hwatch')
    · exact .inl (by rwa [Monitor.Awaited, hpending])
    · exact absurd hwatch' hwatch

/-- A section of an attempt, seen as one of its thread. -/
theorem Attempt.Keeps.thread {k mine : Nat} {m m' : Monitor π} {a : Attempt π}
    {next : Option Stage} (h : Attempt.Keeps k mine m a m' next) {t : Thread π}
    {nextThread : Option (Thread π)} (hfailing : t.Failing k → mine = k ∧ a.stage.failing = true)
    (hnext : mine = k → (∃ stage ∈ next, stage.failing = true) → ∃ u ∈ nextThread, u.Failing k)
    (hwatching : t.Watching k →
      (mine = k ∧ a.stage = .add) ∨ ∃ u ∈ nextThread, u.Watching k) :
    Thread.Keeps k m t m' nextThread := by
  refine ⟨h.log, fun ht => ?_, fun hs => ?_⟩
  · obtain ⟨hmine, hstage⟩ := hfailing ht
    exact (h.failing hmine hstage).imp_right (hnext hmine)
  · rcases h.stored hs with hsettled | ⟨hmine, hstage⟩ | ⟨hs', hawaited⟩
    · exact .inl hsettled
    · exact .inr (.inl (hnext hmine hstage))
    · refine .inr (.inr ⟨hs', ?_⟩)
      rintro (hwait | hwatch)
      · exact .inl (hawaited (.inl hwait))
      · exact (hwatching hwatch).imp_left fun hmine => hawaited (.inr hmine)

/-- An event that settles nothing. -/
theorem Attempt.Keeps.emit {k mine : Nat} {m m' : Monitor π} {a : Attempt π}
    {next : Option Stage} (h : Attempt.Keeps k mine m a m' next) {e : Event π}
    (he : settled k (m'.emit e).log = settled k m'.log) :
    Attempt.Keeps k mine m a (m'.emit e) next := by
  refine ⟨fun hs => he.trans (h.log hs), fun hmine hstage => ?_, fun hs => ?_⟩
  · exact (h.failing hmine hstage).imp_left he.trans
  · exact (h.stored hs).imp_left he.trans

/-- A message that is registered again, or still is. -/
theorem keeps_reregister {m : Monitor π} {d : TimeoutData} {hd : DmqHeader} {b : Batch}
    {r : AddResult} {p : Pending} (hadd : add cfg m.now hd.seqNum hd.id m.pending = (r, p))
    (hr : r = .added ∨ r = .collision) (hkey : hd.key = d.key) (k : Nat) :
    Thread.Keeps k m (.reregister d hd b) { m with pending := p } (some (.notify b)) := by
  obtain ⟨hkept, hmine⟩ := awaited_of_add (k := k) hadd
  refine ⟨fun h => h, by simp [Thread.Failing], fun hs => .inr (.inr ⟨hs, ?_⟩)⟩
  rintro (hawaited | hmine' | hbatch)
  · exact .inl (hkept hawaited)
  · exact .inl (hmine hr (hkey.trans hmine'))
  · exact .inr ⟨_, rfl, hbatch⟩

/-! ### The sections of a thread one by one -/

section Sections

variable {m m' : Monitor π} {d : TimeoutData} {e : RetryEntry π} {items : List TimeoutData}
  {count remaining : Nat} {k : Nat}

/-- What `Process` has in hand, the first of it apart. -/
theorem Batch.holds_cons : Batch.Holds k ⟨d :: items, count, remaining⟩ ↔
    d.key = k ∨ Batch.Holds k ⟨items, count, remaining⟩ := by
  simp [Batch.Holds]

/-- An attempt of `SendWithRetry` that goes on. -/
theorem Attempt.Next.keeps_sending {a : Attempt π} {stage : Stage}
    (h : a.Next cfg a.header.id a.header.seqNum m m' (some stage)) (k : Nat) :
    Thread.Keeps k m (.sending a) m' (some (.sending { a with stage })) := by
  refine (h.keeps rfl k).thread id ?_ .inl
  rintro hkey ⟨stage, hmem, hstage⟩
  cases hmem
  exact ⟨_, rfl, hkey, hstage⟩

/-- An attempt of `SendWithRetry` that is over. -/
theorem Attempt.Next.keeps_returned {a : Attempt π}
    (h : a.Next cfg a.header.id a.header.seqNum m m' none) (ok : Bool) (k : Nat) :
    Thread.Keeps k m (.sending a) (m'.emit (.returned a.header ok)) none := by
  refine ((h.keeps rfl k).emit (by simp [settledBy])).thread id ?_ .inl
  rintro - ⟨stage, hnone, -⟩
  contradiction

/-- `Process` takes what has expired into its hands. -/
theorem keeps_expire (hm : m.Consistent) (k : Nat) : Thread.Keeps k m .pass
    { m with pending := m.pending.leave (cfg.expired m.now) cfg.maxExpired }
    (some (.notify ⟨(OrderedMap.extractFrom (cfg.expired m.now) cfg.maxExpired
      m.pending.entries).taken.map Prod.snd, count, remaining⟩)) := by
  refine ⟨fun h => h, by simp [Thread.Failing], fun hs => .inr (.inr ⟨hs, ?_⟩)⟩
  rintro (⟨d, hd⟩ | hwatch)
  · rcases OrderedMap.find?_extract (cfg.expired m.now) cfg.maxExpired hd with htaken | hleft
    · exact .inr ⟨_, rfl, d, List.mem_map_of_mem htaken, hm.pending k d hd⟩
    · exact .inl ⟨d, hleft⟩
  · exact hwatch.elim

/-- `Process` has dealt with what it took. -/
theorem keeps_drained {next : Option (Thread π)}
    (hm : m' = m ∨ m' = m.emit (.pendingExceeded remaining)) (k : Nat) :
    Thread.Keeps k m (.notify ⟨[], count, remaining⟩) m' next := by
  have hframe : m'.pending = m.pending ∧ m'.store = m.store := by
    rcases hm with rfl | rfl <;> exact ⟨rfl, rfl⟩
  refine .of_frame ?_ hframe.1 hframe.2 (by simp [Thread.Failing])
    (by simp [Thread.Watching, Batch.Holds])
  rcases hm with rfl | rfl
  · exact fun h => h
  · simp [settledBy]

/-- A timeout of a message that is not stored. -/
theorem keeps_forgotten (h : m.store.find? d.key = none) (k : Nat) :
    Thread.Keeps k m (.notify ⟨d :: items, count, remaining⟩)
      (m.emit (.status d.remoteId d.seqNum false)) (some (.notify ⟨items, count, remaining⟩)) := by
  refine .of_frame (by simp [settledBy]) rfl rfl (by simp [Thread.Failing]) ?_
  rintro ⟨e, he⟩ hholds
  rcases Batch.holds_cons.mp hholds with rfl | hrest
  · rw [h] at he
    contradiction
  · exact .inr ⟨_, rfl, .inr hrest⟩

/-- A timeout of a message that is sent once more. -/
theorem keeps_again (k : Nat) : Thread.Keeps k m (.notify ⟨d :: items, count, remaining⟩)
    { m.emit (.status d.remoteId d.seqNum false) with
      store := m.store.insert d.key { e with attemptsRemaining := e.attemptsRemaining - 1 } }
    (some (.retry d ⟨e.header, e.packetData, .add⟩ ⟨items, count, remaining⟩)) := by
  refine ⟨by simp [settledBy], by simp [Thread.Failing], fun hs =>
    .inr (.inr ⟨Monitor.Stored.insert hs, ?_⟩)⟩
  rintro (hawaited | hholds)
  · exact .inl hawaited
  · rcases Batch.holds_cons.mp hholds with hkey | hrest
    · exact .inr ⟨_, rfl, .inl ⟨hkey, rfl⟩⟩
    · exact .inr ⟨_, rfl, .inr hrest⟩

/-- A timeout of a message whose first attempt is not over. -/
theorem keeps_early (k : Nat) : Thread.Keeps k m (.notify ⟨d :: items, count, remaining⟩)
    (m.emit (.status d.remoteId d.seqNum false))
    (some (.reregister d e.header ⟨items, count, remaining⟩)) :=
  .of_frame (by simp [settledBy]) rfl rfl (by simp [Thread.Failing])
    fun _ hholds => .inr ⟨_, rfl, .inr (Batch.holds_cons.mp hholds)⟩

/-- A timeout of a message that has been sent often enough. -/
theorem keeps_exhaust (k : Nat) : Thread.Keeps k m (.notify ⟨d :: items, count, remaining⟩)
    { m.emit (.status d.remoteId d.seqNum false) with store := m.store.erase d.key }
    (some (.exhausted d ⟨items, count, remaining⟩)) := by
  refine ⟨by simp [settledBy], by simp [Thread.Failing], fun hs => .inr ?_⟩
  by_cases hkey : d.key = k
  · exact .inl ⟨_, rfl, hkey⟩
  · refine .inr ⟨Monitor.Stored.erase_of_ne hs (Ne.symm hkey), ?_⟩
    rintro (hawaited | hholds)
    · exact .inl hawaited
    · exact .inr ⟨_, rfl, (Batch.holds_cons.mp hholds).resolve_left hkey⟩

/-- A retry that goes on. -/
theorem Attempt.Next.keeps_retry {a : Attempt π} {b : Batch} {stage : Stage}
    (h : a.Next cfg d.remoteId d.seqNum m m' (some stage)) (ht : a.header.key = d.key) (k : Nat) :
    Thread.Keeps k m (.retry d a b) m' (some (.retry d { a with stage } b)) := by
  refine (h.keeps ht k).thread id ?_ ?_
  · rintro hkey ⟨stage, hmem, hstage⟩
    cases hmem
    exact ⟨_, rfl, hkey, hstage⟩
  · rintro (hmine | hbatch)
    · exact .inl hmine
    · exact .inr ⟨_, rfl, .inr hbatch⟩

/-- A retry that is over, or has been sent. -/
theorem Attempt.Next.keeps_retried {a : Attempt π} {b : Batch} {next : Option Stage}
    (h : a.Next cfg d.remoteId d.seqNum m m' next) (hnext : next = none ∨ next = some .mark)
    (ht : a.header.key = d.key) (k : Nat) :
    Thread.Keeps k m (.retry d a b) m' (some (.notify b)) := by
  have hnone : ¬∃ stage ∈ next, stage.failing = true := by
    rintro ⟨stage, hstage, hfail⟩
    rcases hnext with rfl | rfl
    · contradiction
    · cases hstage
      contradiction
  refine (h.keeps ht k).thread id (fun _ hfail => absurd hfail hnone) ?_
  rintro (hmine | hbatch)
  · exact .inl hmine
  · exact .inr ⟨_, rfl, hbatch⟩

/-- A message that `Add` refuses to register again. -/
theorem keeps_unwatched {hd : DmqHeader} {b : Batch} (n k : Nat) :
    Thread.Keeps k m (.reregister d hd b)
      ((m.emit (.capExceeded n)).emit (.unwatched d.remoteId d.seqNum)) (some (.notify b)) := by
  refine .of_frame (by simp +contextual [settledBy]) rfl rfl (by simp [Thread.Failing]) ?_
  rintro - (hkey | hbatch)
  · exact .inl (by simp [settledBy]; exact .inr hkey)
  · exact .inr ⟨_, rfl, .inr hbatch⟩

/-- A message that is acknowledged. -/
theorem keeps_acknowledged (id : RemoteId) (seqNum : BitVec 16) (k : Nat) :
    Thread.Keeps k m (.removed id seqNum)
      ({ m.emit (.status id seqNum true) with store := m.store.erase (key id seqNum) }.emit
        (.acknowledged id seqNum)) none := by
  refine ⟨by simp +contextual [settledBy], by simp [Thread.Failing], fun hs => ?_⟩
  by_cases hkey : key id seqNum = k
  · exact .inl (by simp [settledBy, hkey])
  · refine .inr (.inr ⟨Monitor.Stored.erase_of_ne hs (Ne.symm hkey), ?_⟩)
    rintro (hawaited | hmine)
    · exact .inl hawaited
    · exact absurd hmine hkey

end Sections

/-- Every section keeps an account of every key. -/
theorem Thread.Next.keeps {m m' : Monitor π} {t : Thread π} {next : Option (Thread π)}
    (h : t.Next cfg m m' next) (hm : m.Consistent) (ht : t.Consistent) (k : Nat) :
    Thread.Keeps k m t m' next := by
  cases h with
  | sending h => exact h.keeps_sending k
  | returned h => exact h.keeps_returned _ k
  | empty =>
      exact .of_frame (fun h => h) rfl rfl (fun hfail => hfail.elim) fun _ hwatch => hwatch.elim
  | expire => exact keeps_expire hm k
  | drained hm' => exact keeps_drained hm' k
  | forgotten h => exact keeps_forgotten h k
  | again => exact keeps_again k
  | early => exact keeps_early k
  | exhaust => exact keeps_exhaust k
  | retry h => exact h.keeps_retry ht k
  | retried h hnext => exact h.keeps_retried hnext ht k
  | reregistered hadd => exact keeps_reregister hadd (.inl rfl) ht k
  | registered hadd => exact keeps_reregister hadd (.inr rfl) ht k
  | unwatched => exact keeps_unwatched _ k
  | exhausted =>
      refine .of_frame (by simp +contextual [settledBy]) rfl rfl
        (fun hkey => .inl (by simp [settledBy]; exact .inr hkey)) ?_
      exact fun _ hbatch => .inr ⟨_, rfl, .inr hbatch⟩
  | acknowledged => exact keeps_acknowledged _ _ k
  | unknown h =>
      refine .of_frame (by simp [settledBy]) rfl rfl (by simp [Thread.Failing]) ?_
      rintro ⟨e, he⟩ rfl
      rw [h] at he
      contradiction

/-! ## Whole runs -/

/-- A thread is the one that has moved, or still there. -/
theorem eq_or_mem_of_mem_middle {α : Type} {before after new : List α} {t u : α}
    (h : u ∈ before ++ t :: after) : u = t ∨ u ∈ before ++ new ++ after := by
  rcases List.mem_append.mp h with hbefore | htail
  · exact .inr (List.mem_append_left _ (List.mem_append_left _ hbefore))
  · exact (List.mem_cons.mp htail).imp_right (List.mem_append_right _)

/-- So does every step. -/
theorem State.Accounted.step {s s' : State π} {k : Nat} (h : s.Accounted k) (hs : s.Consistent)
    (hstep : Step cfg s s') : s'.Accounted k := by
  cases hstep with
  | tick => exact h
  | @submit m ts hd os =>
      by_cases hkey : hd.key = k
      · refine .inr (.inr ⟨⟨⟨os, hd, cfg.maxRetries, false⟩, ?_⟩, .inr ⟨.sending ⟨hd, os, .add⟩,
          List.mem_append_right _ (List.mem_singleton_self _), hkey, rfl⟩⟩)
        rw [← hkey]
        exact OrderedMap.find?_insert_self
      · rcases h with hsettled | ⟨t, ht, hfail⟩ | ⟨hstored, hwatched⟩
        · exact .inl (by simpa [submit, settledBy, hkey] using hsettled)
        · exact .inr (.inl ⟨t, List.mem_append_left _ ht, hfail⟩)
        · refine .inr (.inr ⟨Monitor.Stored.insert hstored, ?_⟩)
          exact hwatched.imp_right fun ⟨t, ht, hwatch⟩ => ⟨t, List.mem_append_left _ ht, hwatch⟩
  | process =>
      refine h.imp_right (Or.imp ?_ fun ⟨hstored, hwatched⟩ => ⟨hstored, hwatched.imp_right ?_⟩)
      · exact fun ⟨t, ht, hfail⟩ => ⟨t, List.mem_append_left _ ht, hfail⟩
      · exact fun ⟨t, ht, hwatch⟩ => ⟨t, List.mem_append_left _ ht, hwatch⟩
  | @remove m ts seqNum id d p hremove =>
      obtain ⟨hfound, rfl, rfl⟩ := remove_some hs.monitor.pending hremove
      rcases h with hsettled | ⟨t, ht, hfail⟩ | ⟨hstored, hwatched⟩
      · exact .inl hsettled
      · exact .inr (.inl ⟨t, List.mem_append_left _ ht, hfail⟩)
      · refine .inr (.inr ⟨hstored, ?_⟩)
        by_cases hkey : k = d.key
        · exact .inr ⟨_, List.mem_append_right _ (List.mem_singleton_self _), hkey.symm⟩
        · rcases hwatched with ⟨d', hd'⟩ | ⟨t, ht, hwatch⟩
          · exact .inl ⟨d', (OrderedMap.find?_erase_of_ne hkey).trans hd'⟩
          · exact .inr ⟨t, List.mem_append_left _ ht, hwatch⟩
  | stay => exact h
  | @run m before t after m' next hnext =>
      have ht := hs.threads t (by simp)
      obtain ⟨hlog, hfailing, hstored⟩ := hnext.keeps hs.monitor ht k
      have hmem : ∀ u, u ∈ before ++ t :: after → u = t ∨ u ∈ before ++ next.toList ++ after :=
        fun u => eq_or_mem_of_mem_middle
      have hnew : ∀ u ∈ next, u ∈ before ++ next.toList ++ after := by
        intro u hu
        simp [Option.mem_toList.mpr hu]
      rcases h with hsettled | ⟨u, hu, hfail⟩ | ⟨hs', hwatched⟩
      · exact .inl (hlog hsettled)
      · rcases hmem u hu with rfl | hu'
        · exact (hfailing hfail).imp_right fun ⟨v, hv, hfail'⟩ => .inl ⟨v, hnew v hv, hfail'⟩
        · exact .inr (.inl ⟨u, hu', hfail⟩)
      · rcases hstored hs' with hsettled | ⟨v, hv, hfail⟩ | ⟨hstored', hkept⟩
        · exact .inl hsettled
        · exact .inr (.inl ⟨v, hnew v hv, hfail⟩)
        · refine .inr (.inr ⟨hstored', ?_⟩)
          have hmine (hwatch : m.Awaited k ∨ t.Watching k) :
              State.Watched k ⟨m', before ++ next.toList ++ after⟩ :=
            (hkept hwatch).imp_right fun ⟨v, hv, hwatch'⟩ => ⟨v, hnew v hv, hwatch'⟩
          rcases hwatched with hawaited | ⟨u, hu, hwatch⟩
          · exact hmine (.inl hawaited)
          · rcases hmem u hu with rfl | hu'
            · exact hmine (.inr hwatch)
            · exact .inr ⟨u, hu', hwatch⟩

/-- The keys are kept in every run. -/
theorem consistent_of_runs {s : State π} (h : Runs (step cfg) {} s) : s.Consistent :=
  h.invariant (I := State.Consistent) (fun _ _ _ hs hstep => hs.step (step_of_step hstep)) .init

/-- And so is the account. -/
theorem accounted_of_runs {s : State π} (h : Runs (step cfg) {} s) (k : Nat) : s.Accounted k := by
  have hboth : s.Consistent ∧ s.Accounted k := by
    refine h.invariant (I := fun s => s.Consistent ∧ s.Accounted k) ?_ ⟨.init, .inl rfl⟩
    rintro s c s' ⟨hs, hk⟩ hstep
    exact ⟨hs.step (step_of_step hstep), hk.step hs (step_of_step hstep)⟩
  exact hboth.2

/-- What can be said about a message in the end. -/
def Event.Settles (id : RemoteId) (seqNum : BitVec 16) (e : Event π) : Prop :=
  e = .acknowledged id seqNum ∨ e = .failed id seqNum ∨ e = .unwatched id seqNum

/-- A key is settled by what was logged after the last message under it. -/
theorem exists_settles {hd : DmqHeader} {os : π} {before after : List (Event π)}
    (hlast : ∀ hd' os', .submitted hd' os' ∈ after → hd'.key ≠ hd.key)
    (h : settled hd.key (before ++ .submitted hd os :: after) = true) :
    ∃ e ∈ after, e.Settles hd.id hd.seqNum := by
  induction after using List.reverseRecOn with
  | nil => simp [settled, settledBy] at h
  | append_singleton after e ih =>
      have hlast' : ∀ hd' os', .submitted hd' os' ∈ after → hd'.key ≠ hd.key :=
        fun hd' os' hmem => hlast hd' os' (List.mem_append_left _ hmem)
      have hrest (h : settled hd.key (before ++ .submitted hd os :: after) = true) :
          ∃ e' ∈ after ++ [e], e'.Settles hd.id hd.seqNum := by
        obtain ⟨e', he', hsettles⟩ := ih hlast' h
        exact ⟨e', List.mem_append_left _ he', hsettles⟩
      rw [← List.cons_append, ← List.append_assoc, settled, List.foldl_append] at h
      change settledBy hd.key (settled hd.key (before ++ .submitted hd os :: after)) e = true at h
      have hkey {id : RemoteId} {seqNum : BitVec 16}
          (heq : (settled hd.key (before ++ .submitted hd os :: after) ||
            decide (key id seqNum = hd.key)) = true) :
          settled hd.key (before ++ .submitted hd os :: after) = true ∨
            id = hd.id ∧ seqNum = hd.seqNum := by
        simpa [DmqHeader.key, key_inj] using heq
      cases e with
      | submitted hd' os' =>
          have hne := hlast hd' os' (List.mem_append_right _ (List.mem_singleton_self _))
          exact hrest (by simpa [settledBy, hne] using h)
      | acknowledged id seqNum =>
          rcases hkey h with h | ⟨rfl, rfl⟩
          · exact hrest h
          · exact ⟨_, List.mem_append_right _ (List.mem_singleton_self _), .inl rfl⟩
      | failed id seqNum =>
          rcases hkey h with h | ⟨rfl, rfl⟩
          · exact hrest h
          · exact ⟨_, List.mem_append_right _ (List.mem_singleton_self _), .inr (.inl rfl)⟩
      | unwatched id seqNum =>
          rcases hkey h with h | ⟨rfl, rfl⟩
          · exact hrest h
          · exact ⟨_, List.mem_append_right _ (List.mem_singleton_self _), .inr (.inr rfl)⟩
      | sent hd' os' ok => exact hrest h
      | returned hd' ok => exact hrest h
      | status id seqNum success => exact hrest h
      | capExceeded size => exact hrest h
      | pendingExceeded remaining => exact hrest h

/-- One message with one retry, which is never acknowledged. -/
def unanswered : List (Choice Nat) :=
  [.submit ⟨0xAA55, 1, 7, 0⟩ 0, .run 0 true, .run 0 true, .run 0 true, .tick 2001, .process,
    .run 0 true, .run 0 true, .run 0 true, .run 0 true, .run 0 true, .tick 2001, .process,
    .run 0 true, .run 0 true, .run 0 true, .run 0 true]

end Remote

end ActiveFsm
