import Mathlib.Data.List.FinRange
import Mathlib.Data.Nat.ModEq

/-!
# ActiveFsm.Remote.SeqHistory

The last sequence numbers that a participant has accepted, in a buffer that is
written round and round.

* `Remembers.contains_iff` — the buffer holds the last `size` of them;
* `Remembers.isDuplicate` — a number that is let through is one of them from
  then on.
-/

namespace ActiveFsm

namespace Remote

/-- `SeqHistory`; what the buffer holds where it is not valid is of no account. -/
structure SeqHistory (size : Nat) where
  buffer : Vector (BitVec 16) size
  valid : Vector Bool size
  head : Fin size

namespace SeqHistory

variable {size : Nat}

def init (h : 0 < size) : SeqHistory size := ⟨.replicate size 0, .replicate size false, ⟨0, h⟩⟩

def contains (r : SeqHistory size) (seq : BitVec 16) : Bool :=
  (List.finRange size).any fun i => r.valid[i] && r.buffer[i] == seq

/-- `is_duplicate`. -/
def isDuplicate (r : SeqHistory size) (seq : BitVec 16) : Bool × SeqHistory size :=
  if r.contains seq then (true, r)
  else (false, ⟨r.buffer.set r.head seq, r.valid.set r.head true,
    ⟨(r.head + 1) % size, Nat.mod_lt _ r.head.pos⟩⟩)

/-- `l` are the numbers that have been let through, the first one first. -/
structure Remembers (r : SeqHistory size) (l : List (BitVec 16)) : Prop where
  head : r.head.val = l.length % size
  valid : ∀ p (hp : p < size), r.valid[p] = true ↔
    ∃ i, i < l.length ∧ l.length ≤ i + size ∧ i % size = p
  buffer : ∀ i x (hi : i % size < size), l[i]? = some x → l.length ≤ i + size →
    r.buffer[i % size] = x

/-- It is one of the last `size` numbers. -/
def Recent (size : Nat) (l : List (BitVec 16)) (seq : BitVec 16) : Prop :=
  ∃ i, l[i]? = some seq ∧ l.length ≤ i + size

variable {r : SeqHistory size} {l : List (BitVec 16)} {seq : BitVec 16}

/-- An empty buffer remembers nothing. -/
theorem remembers_init (h : 0 < size) : (init h).Remembers [] :=
  ⟨by simp [init], fun p hp => by simp [init], by simp⟩

/-- The search finds the last `size` numbers. -/
theorem Remembers.contains_iff (h : r.Remembers l) : r.contains seq = true ↔ Recent size l seq := by
  simp only [contains, List.any_eq_true, Bool.and_eq_true, beq_iff_eq, List.mem_finRange, true_and]
  constructor
  · rintro ⟨⟨p, hp⟩, hvalid, hbuffer⟩
    obtain ⟨i, hi, hrecent, rfl⟩ := (h.valid p hp).mp hvalid
    refine ⟨i, ?_, hrecent⟩
    have hget : l[i]? = some l[i] := List.getElem?_eq_getElem hi
    rw [hget, ← h.buffer i _ hp hget hrecent]
    exact congrArg some hbuffer
  · rintro ⟨i, hi, hrecent⟩
    have hlt : i < l.length := (List.getElem?_eq_some_iff.mp hi).1
    have hp : i % size < size := Nat.mod_lt _ r.head.pos
    exact ⟨⟨i % size, hp⟩, (h.valid _ hp).mpr ⟨i, hlt, hrecent, rfl⟩,
      h.buffer i seq hp hi hrecent⟩

/-- Of the last `size` places only the newest is in the slot of the next one. -/
theorem mod_ne_of_lt {i n : Nat} (hi : i < n) (hrecent : n < i + size) : i % size ≠ n % size := by
  intro heq
  have hdvd : size ∣ n - i := (Nat.modEq_iff_dvd' hi.le).mp heq
  have hle := Nat.le_of_dvd (by omega) hdvd
  omega

/-- A new number takes the place of the oldest. -/
theorem Remembers.push (h : r.Remembers l) (seq : BitVec 16) :
    Remembers ⟨r.buffer.set r.head seq, r.valid.set r.head true,
      ⟨(r.head + 1) % size, Nat.mod_lt _ r.head.pos⟩⟩ (l ++ [seq]) := by
  obtain ⟨hhead, hvalid, hbuffer⟩ := h
  have hpos := r.head.pos
  refine ⟨by simp [hhead], fun p hp => ?_, fun i x hi hget hrecent => ?_⟩
  · simp only [Vector.getElem_set, hhead, List.length_append, List.length_singleton]
    split
    · next heq => exact ⟨fun _ => ⟨l.length, by omega, by omega, heq⟩, fun _ => rfl⟩
    · next hne =>
        rw [hvalid p hp]
        constructor
        · rintro ⟨i, hi, hrecent, rfl⟩
          have hnewer : l.length ≠ i + size := fun heq => hne (by rw [heq, Nat.add_mod_right])
          exact ⟨i, by omega, by omega, rfl⟩
        · rintro ⟨i, hi, hrecent, rfl⟩
          have hold : l.length ≠ i := fun heq => hne (by rw [heq])
          exact ⟨i, by omega, by omega, rfl⟩
  · simp only [Vector.getElem_set, hhead, List.length_append, List.length_singleton] at hrecent ⊢
    rcases Nat.lt_trichotomy i l.length with hlt | rfl | hgt
    · rw [if_neg (mod_ne_of_lt hlt (by omega)).symm]
      rw [List.getElem?_append_left hlt] at hget
      exact hbuffer i x hi hget (by omega)
    · rw [if_pos rfl]
      simpa using hget
    · rw [List.getElem?_eq_none (by simp; omega)] at hget
      contradiction

/-- What `is_duplicate` answers, and what the buffer holds afterwards. -/
theorem Remembers.isDuplicate (h : r.Remembers l) (seq : BitVec 16) :
    (Recent size l seq ∧ r.isDuplicate seq = (true, r)) ∨
      (¬Recent size l seq ∧ (r.isDuplicate seq).1 = false ∧
        (r.isDuplicate seq).2.Remembers (l ++ [seq])) := by
  simp only [SeqHistory.isDuplicate]
  split
  · next hfound => exact .inl ⟨h.contains_iff.mp hfound, rfl⟩
  · next hfresh => exact .inr ⟨fun hrecent => hfresh (h.contains_iff.mpr hrecent), rfl, h.push seq⟩

end SeqHistory

/-! ## How far apart two copies are -/

/-- Between two equal numbers there are at least `size` others. -/
def Spaced (size : Nat) (l : List (BitVec 16)) : Prop :=
  ∀ i j x, i < j → l[i]? = some x → l[j]? = some x → i + size < j

/-- A number that is not among the last `size`. -/
theorem Spaced.snoc {size : Nat} {l : List (BitVec 16)} {seq : BitVec 16} (h : Spaced size l)
    (hfresh : ¬SeqHistory.Recent size l seq) : Spaced size (l ++ [seq]) := by
  intro i j x hij hi hj
  have hjlt : j < l.length + 1 := by simpa using (List.getElem?_eq_some_iff.mp hj).1
  rw [List.getElem?_append_left (by omega)] at hi
  rcases Nat.lt_or_ge j l.length with hlt | hge
  · rw [List.getElem?_append_left hlt] at hj
    exact h i j x hij hi hj
  · have heq : j = l.length := by omega
    rw [heq, List.getElem?_append_right le_rfl] at hj
    have hx : seq = x := by simpa using hj
    rw [heq]
    by_contra hclose
    exact hfresh ⟨i, hx ▸ hi, by omega⟩

end Remote

end ActiveFsm
