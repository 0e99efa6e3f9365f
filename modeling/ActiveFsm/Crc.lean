import Mathlib.Data.List.Basic
import Mathlib.Logic.Function.Iterate

/-!
# ActiveFsm.Crc

Cyclic redundancy checks of any width, a bit at a time: the remainder is shifted
up, and where a bit falls out at the top the generator is added.

* `bits_xor` — the check of a difference is the difference of the checks;
* `bits_injective` — no two remainders become one on the way;
* `bits_ne_of_burst` — no burst of errors is missed that is no longer than the
  remainder.

Nothing here depends on which generator it is, but that it is odd.
-/

namespace Crc

variable {w : Nat} (g : BitVec w)

/-- One place up, modulo the generator. -/
def shift (c : BitVec w) : BitVec w := if c.msb then (c <<< 1) ^^^ g else c <<< 1

/-- A bit in the top place. -/
def top (b : Bool) : BitVec w := if b then BitVec.intMin w else 0

def feed (c : BitVec w) (b : Bool) : BitVec w := shift g (c ^^^ top b)

/-- The remainder after some bits, the first one first. -/
def bits (c : BitVec w) (bs : List Bool) : BitVec w := bs.foldl (feed g) c

@[simp] theorem bits_nil (c : BitVec w) : bits g c [] = c := rfl

@[simp] theorem bits_cons (c : BitVec w) (b : Bool) (bs : List Bool) :
    bits g c (b :: bs) = bits g (feed g c b) bs := rfl

/-- The bits of one message after those of another. -/
theorem bits_append (c : BitVec w) (bs bs' : List Bool) :
    bits g c (bs ++ bs') = bits g (bits g c bs) bs' :=
  List.foldl_append

/-! ## Linearity -/

/-- A change of order. -/
theorem xor_xor_xor (a b c d : BitVec w) : a ^^^ b ^^^ (c ^^^ d) = a ^^^ c ^^^ (b ^^^ d) := by
  ac_rfl

/-- Shifting is linear. -/
theorem shift_xor (a b : BitVec w) : shift g (a ^^^ b) = shift g a ^^^ shift g b := by
  simp only [shift, BitVec.msb_xor, BitVec.shiftLeft_xor_distrib]
  cases a.msb <;> cases b.msb
  · rfl
  · exact BitVec.xor_assoc _ _ _
  · simp
    ac_rfl
  · simp [xor_xor_xor _ g _ g]

@[simp] theorem shift_zero : shift g 0 = 0 := by simp [shift]

/-- So is a top bit. -/
theorem top_xor (a b : Bool) : (top a ^^^ top b : BitVec w) = top (a ^^ b) := by
  cases a <;> cases b <;> simp [top]

/-- So is feeding a bit. -/
theorem feed_xor (c c' : BitVec w) (b b' : Bool) :
    feed g c b ^^^ feed g c' b' = feed g (c ^^^ c') (b ^^ b') := by
  rw [feed, feed, feed, ← shift_xor, xor_xor_xor, top_xor]

/-- So is the check: that of a difference is the difference of the checks. -/
theorem bits_xor {bs bs' : List Bool} (hlen : bs.length = bs'.length) (c c' : BitVec w) :
    bits g c bs ^^^ bits g c' bs' = bits g (c ^^^ c') (bs.zipWith xor bs') := by
  induction bs generalizing bs' c c' with
  | nil =>
      cases bs' with
      | nil => rfl
      | cons b' bs' => contradiction
  | cons b bs ih =>
      cases bs' with
      | nil => contradiction
      | cons b' bs' =>
          simp only [bits_cons, List.zipWith_cons_cons, ← feed_xor]
          exact ih (Nat.succ.inj hlen) _ _

/-! ## No two remainders become one -/

/-- The lowest bit tells whether the generator was added. -/
theorem shift_eq_zero {c : BitVec w} (hg : g.getLsbD 0 = true) (h : shift g c = 0) : c = 0 := by
  have hlow : (c <<< 1).getLsbD 0 = false := by simp
  simp only [shift] at h
  split at h
  · have hbit := congrArg (BitVec.getLsbD · 0) h
    simp [hg] at hbit
  · next hmsb =>
      apply BitVec.eq_of_getMsbD_eq
      intro i hi
      cases i with
      | zero => simpa [BitVec.msb_eq_getMsbD_zero] using hmsb
      | succ i =>
          have hbit := congrArg (BitVec.getMsbD · i) h
          simpa [Nat.add_comm] using hbit

/-- Where the polynomial is odd no two words shift to the same. -/
theorem shift_injective (hg : g.getLsbD 0 = true) {a b : BitVec w} (h : shift g a = shift g b) :
    a = b := by
  rw [← BitVec.xor_eq_zero_iff, ← shift_xor] at h
  exact BitVec.xor_eq_zero_iff.mp (shift_eq_zero g hg h)

/-- Nor do two remainders lead to the same check over the same bits. -/
theorem bits_injective (hg : g.getLsbD 0 = true) {a b : BitVec w} {bs : List Bool}
    (h : bits g a bs = bits g b bs) : a = b := by
  induction bs generalizing a b with
  | nil => exact h
  | cons x bs ih =>
      have hfeed := shift_injective g hg (ih h)
      rw [← BitVec.xor_eq_zero_iff, xor_xor_xor, BitVec.xor_self, BitVec.xor_zero] at hfeed
      exact BitVec.xor_eq_zero_iff.mp hfeed

/-! ## Bursts -/

/-- The bits as a remainder, the first one at the top. -/
def word : List Bool → BitVec w
  | [] => 0
  | b :: bs => top b ^^^ word bs >>> 1

/-- The bits of a word, from the top. -/
theorem getMsbD_word (bs : List Bool) {i : Nat} (hi : i < w) :
    (word bs : BitVec w).getMsbD i = bs.getD i false := by
  induction bs generalizing i with
  | nil => simp [word]
  | cons b bs ih =>
      have htop : (top b : BitVec w).getMsbD i = (b && decide (i = 0)) := by
        cases b
        · simp [top]
        · simp [top, BitVec.getMsbD_intMin]
          omega
      rw [word, BitVec.getMsbD_xor, htop, BitVec.getMsbD_ushiftRight]
      cases i with
      | zero => simp
      | succ i =>
          rw [ih (by omega)]
          simp [hi]

/-- Fewer bits than there is room for are only shifted. -/
theorem shift_word {bs : List Bool} (h : bs.length < w) :
    shift g (word bs >>> 1) = (word bs : BitVec w) := by
  have hmsb : ((word bs : BitVec w) >>> 1).msb = false := by simp
  rw [shift, hmsb, if_neg (by simp)]
  apply BitVec.eq_of_getMsbD_eq
  intro i hi
  rw [BitVec.getMsbD_shiftLeft, BitVec.getMsbD_ushiftRight, getMsbD_word bs hi]
  by_cases hlast : i + 1 < w
  · simp [hlast, getMsbD_word bs hi]
  · have hshort : bs.length ≤ i := by omega
    simp [hlast, List.getElem?_eq_none hshort]

/-- Shifting several times is linear. -/
theorem iterate_shift_xor (n : Nat) (a b : BitVec w) :
    (shift g)^[n] (a ^^^ b) = (shift g)^[n] a ^^^ (shift g)^[n] b := by
  induction n generalizing a b with
  | zero => rfl
  | succ n ih =>
      simp only [Function.iterate_succ_apply]
      rw [shift_xor, ih]

/-- The first remainder and the bits count apart. -/
theorem bits_eq_xor (c : BitVec w) (bs : List Bool) :
    bits g c bs = (shift g)^[bs.length] c ^^^ bits g 0 bs := by
  induction bs generalizing c with
  | nil => simp
  | cons b bs ih =>
      have hfeed : feed g c b = shift g c ^^^ feed g 0 b := by simp [feed, shift_xor]
      rw [bits_cons, bits_cons, ih (feed g c b), ih (feed g 0 b), ← BitVec.xor_assoc,
        List.length_cons, Function.iterate_succ_apply, ← iterate_shift_xor, ← hfeed]

/-- The check of a few bits is their word, shifted as far. -/
theorem bits_zero {bs : List Bool} (h : bs.length ≤ w) :
    bits g (0 : BitVec w) bs = (shift g)^[bs.length] (word bs) := by
  induction bs with
  | nil => rfl
  | cons b bs ih =>
      have hlen : bs.length < w := h
      rw [bits_cons, bits_eq_xor, ih (Nat.le_of_lt hlen), ← iterate_shift_xor, List.length_cons,
        Function.iterate_succ_apply, word, shift_xor, shift_word g hlen]
      simp [feed]

/-- A short list of bits is zero if its word is. -/
theorem word_eq_zero {bs : List Bool} (hlen : bs.length ≤ w) (h : (word bs : BitVec w) = 0) :
    ∀ b ∈ bs, b = false := by
  intro b hb
  obtain ⟨i, hi, rfl⟩ := List.mem_iff_getElem.mp hb
  have hbit := getMsbD_word (w := w) bs (i := i) (by omega)
  rw [h, List.getD_eq_getElem?_getD, List.getElem?_eq_getElem hi, Option.getD_some] at hbit
  exact hbit.symm.trans BitVec.getMsbD_zero

/-- Lists whose difference is zero are the same. -/
theorem eq_of_zipWith_xor {u v : List Bool} (hlen : u.length = v.length)
    (h : ∀ b ∈ u.zipWith xor v, b = false) : u = v := by
  induction u generalizing v with
  | nil =>
      cases v with
      | nil => rfl
      | cons y v => contradiction
  | cons x u ih =>
      cases v with
      | nil => contradiction
      | cons y v =>
          simp only [List.zipWith_cons_cons, List.forall_mem_cons] at h
          rw [ih (Nat.succ.inj hlen) h.2, show x = y by simpa using h.1]

/-- Where the polynomial is odd only zero shifts to zero. -/
theorem iterate_shift_eq_zero (hg : g.getLsbD 0 = true) {n : Nat} {c : BitVec w}
    (h : (shift g)^[n] c = 0) : c = 0 := by
  induction n generalizing c with
  | zero => exact h
  | succ n ih => exact shift_eq_zero g hg (ih h)

/-- Two sequences of bits that differ within a window no longer than the
remainder have different checks, whatever comes before and after it. -/
theorem bits_ne_of_burst (hg : g.getLsbD 0 = true) (c : BitVec w) (before after : List Bool)
    {u v : List Bool} (hlen : u.length = v.length) (hw : u.length ≤ w) (hne : u ≠ v) :
    bits g c (before ++ u ++ after) ≠ bits g c (before ++ v ++ after) := by
  intro heq
  simp only [bits_append] at heq
  have hburst := bits_injective g hg heq
  rw [← BitVec.xor_eq_zero_iff, bits_xor g hlen, BitVec.xor_self] at hburst
  have hzip : (u.zipWith xor v).length ≤ w := by simp [← hlen, hw]
  change bits g (0 : BitVec w) _ = 0 at hburst
  rw [bits_zero g hzip] at hburst
  have hword := iterate_shift_eq_zero g hg hburst
  exact hne (eq_of_zipWith_xor hlen (word_eq_zero hzip hword))

end Crc
