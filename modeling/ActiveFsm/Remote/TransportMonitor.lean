import Mathlib.Algebra.Ring.Nat
import ActiveFsm.OrderedMap

/-!
# ActiveFsm.Remote.TransportMonitor

The monitor that waits for the acknowledgement of each message: `Add` when a
message is sent, `Remove` when its acknowledgement comes, `Process` from time to
time for those that have waited too long.  Each function here is a section of
the source under `m_lock`; the signals it leads to are left to its callers.
-/

namespace ActiveFsm

namespace Remote

/-! ## The header of a message -/

/-- `DelegateRemoteId`. -/
abbrev RemoteId := BitVec 16

/-- `ACK_REMOTE_ID`. -/
def ackRemoteId : RemoteId := 0

structure DmqHeader where
  marker : BitVec 16 := 0xAA55
  id : RemoteId := 0
  seqNum : BitVec 16 := 0
  length : BitVec 16 := 0
  deriving DecidableEq, Repr

/-- `(remoteId << 16) | seqNum` of 32 bits. -/
def key (remoteId : RemoteId) (seqNum : BitVec 16) : Nat :=
  remoteId.toNat <<< 16 ||| seqNum.toNat

/-- The id and the sequence number are the two halves of the key. -/
theorem key_eq (remoteId : RemoteId) (seqNum : BitVec 16) :
    key remoteId seqNum = remoteId.toNat * 2 ^ 16 + seqNum.toNat := by
  rw [key, ← Nat.shiftLeft_add_eq_or_of_lt seqNum.isLt, Nat.shiftLeft_eq]

/-- A key stands for one id and one sequence number. -/
theorem key_inj {id id' : RemoteId} {seqNum seqNum' : BitVec 16} :
    key id seqNum = key id' seqNum' ↔ id = id' ∧ seqNum = seqNum' := by
  rw [key_eq, key_eq, ← BitVec.toNat_inj, ← BitVec.toNat_inj]
  omega

def DmqHeader.key (h : DmqHeader) : Nat := Remote.key h.id h.seqNum

/-! ## The messages not acknowledged yet -/

structure TimeoutData where
  remoteId : RemoteId
  seqNum : BitVec 16
  timeStamp : Nat
  deriving DecidableEq, Repr

def TimeoutData.key (d : TimeoutData) : Nat := Remote.key d.remoteId d.seqNum

/-- `m_pending`. -/
abbrev Pending := OrderedMap Nat TimeoutData

/-- `MAX_TRANSPORT_MONITOR_PENDING`, `MAX_TIMER_EXPIRED`, `TRANSPORT_TIMEOUT`
and `m_maxRetries`. -/
structure Config where
  maxPending : Nat := 100
  maxExpired : Nat := 16
  timeout : Nat := 2000
  maxRetries : Int := 3

/-- What `Add` finds: `true` is `added`; `OnCapExceeded` is emitted at `full`. -/
inductive AddResult where
  | added
  | collision
  | full (size : Nat)
  deriving DecidableEq, Repr

def add (cfg : Config) (now : Nat) (seqNum : BitVec 16) (remoteId : RemoteId) (m : Pending) :
    AddResult × Pending :=
  if cfg.maxPending ≤ m.size then (.full m.size, m)
  else if m.contains (key remoteId seqNum) then (.collision, m)
  else (.added, m.insert (key remoteId seqNum) ⟨remoteId, seqNum, now⟩)

/-- `Remove`, which goes by the sequence number alone where `remoteId` is 0. -/
def remove (seqNum : BitVec 16) (remoteId : RemoteId) (m : Pending) :
    Option TimeoutData × Pending :=
  if remoteId ≠ 0 then
    match m.find? (key remoteId seqNum) with
    | some d => (some d, m.erase (key remoteId seqNum))
    | none => (none, m)
  else
    match m.entries.find? fun e => e.2.seqNum = seqNum with
    | some (k, d) => (some d, m.erase k)
    | none => (none, m)

def cancel (seqNum : BitVec 16) (remoteId : RemoteId) (m : Pending) : Pending :=
  m.erase (key remoteId seqNum)

def Config.expired (cfg : Config) (now : Nat) (d : TimeoutData) : Bool :=
  cfg.timeout < now - d.timeStamp

/-! ## What the sections do -/

/-- The data of an entry names its key. -/
def Keyed (m : Pending) : Prop := ∀ k d, m.find? k = some d → d.key = k

variable {cfg : Config} {now : Nat} {seqNum : BitVec 16} {id : RemoteId} {m m' : Pending}
  {d : TimeoutData} {k : Nat}

/-- `Add` inserts a message that was not there. -/
theorem add_added (h : add cfg now seqNum id m = (.added, m')) :
    m.find? (key id seqNum) = none ∧ m' = m.insert (key id seqNum) ⟨id, seqNum, now⟩ := by
  simp only [add] at h
  split at h
  · cases h
  · split at h
    · cases h
    · next hfresh =>
        cases h
        exact ⟨by simpa [OrderedMap.contains] using hfresh, rfl⟩

/-- It leaves one that was there. -/
theorem add_collision (h : add cfg now seqNum id m = (.collision, m')) :
    m' = m ∧ ∃ d, m.find? (key id seqNum) = some d := by
  simp only [add] at h
  split at h
  · cases h
  · split at h
    · next hfound =>
        cases h
        exact ⟨rfl, Option.isSome_iff_exists.mp hfound⟩
    · cases h

/-- It leaves a full map as it is. -/
theorem add_full {n : Nat} (h : add cfg now seqNum id m = (.full n, m')) : m' = m := by
  simp only [add] at h
  split at h
  · cases h
    rfl
  · split at h <;> cases h

/-- What `Remove` finds is the entry that it erases, and bears the number. -/
theorem remove_some (hkeyed : Keyed m) (h : remove seqNum id m = (some d, m')) :
    m.find? d.key = some d ∧ m' = m.erase d.key ∧ d.seqNum = seqNum := by
  simp only [remove] at h
  split at h
  · split at h
    · next d' hfind =>
        cases h
        have hkey := hkeyed _ _ hfind
        rw [hkey]
        exact ⟨hfind, rfl, (key_inj.mp hkey).2⟩
    · cases h
  · split at h
    · next k d' hfind =>
        cases h
        have hentry := OrderedMap.find?_eq_some.mpr (List.mem_of_find?_eq_some hfind)
        have hkey := hkeyed _ _ hentry
        rw [hkey]
        exact ⟨hentry, rfl, by simpa using List.find?_some hfind⟩
    · cases h

/-- An entry goes in under its own key. -/
theorem Keyed.insert (h : Keyed m) : Keyed (m.insert d.key d) := by
  intro k d' hfind
  rw [OrderedMap.find?_insert] at hfind
  split at hfind
  · next heq =>
      cases hfind
      exact heq.symm
  · exact h k d' hfind

/-- Erasing leaves the others under theirs. -/
theorem Keyed.erase (h : Keyed m) : Keyed (m.erase k) := by
  intro j d hfind
  rw [OrderedMap.find?_erase] at hfind
  split at hfind
  · contradiction
  · exact h j d hfind

/-- So does taking out what has expired. -/
theorem Keyed.leave (h : Keyed m) (sel : TimeoutData → Bool) (room : Nat) :
    Keyed (m.leave sel room) :=
  fun k d hfind => h k d (OrderedMap.find?_of_leave hfind)

end Remote

end ActiveFsm
