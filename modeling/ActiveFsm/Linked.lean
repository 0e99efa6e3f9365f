import Mathlib.Data.List.Nodup
import Mathlib.Logic.Function.Basic

/-!
# ActiveFsm.Linked

Intrusive singly linked lists: a head pointer, and in each node a pointer to
the next one.

* `Links.Holds` — the nodes that the pointers lead through, from the head to
  the null pointer;
* `each`, `unlink`, `sweep` — the loops over such a list, one fuel for each node
  they come to, with what they do to the nodes it holds (`each_eq`,
  `Holds.unlink`, `Holds.sweep`);
* `Holds.nodup` — a list holds no node twice.

Nothing here depends on what a node is.
-/

namespace Linked

variable {ν σ : Type}

/-- The head pointer, and the pointer in each node. -/
structure Links (ν : Type) where
  head : Option ν := none
  next : ν → Option ν := fun _ => none

/-- What a pointer to a pointer points to. -/
inductive Place (ν : Type) where
  | head
  | next (n : ν)
  deriving DecidableEq

/-- The nodes that the pointers lead through from `p` on. -/
def Chain (next : ν → Option ν) : Option ν → List ν → Prop
  | p, [] => p = none
  | p, n :: ns => p = some n ∧ Chain next (next n) ns

namespace Links

def read (l : Links ν) : Place ν → Option ν
  | .head => l.head
  | .next n => l.next n

/-- The list is finite, and these are its nodes. -/
def Holds (l : Links ν) (ns : List ν) : Prop := Chain l.next l.head ns

section Loops

variable [DecidableEq ν] (l : Links ν)

def write (pp : Place ν) (p : Option ν) : Links ν :=
  match pp with
  | .head => { l with head := p }
  | .next n => { l with next := Function.update l.next n p }

/-- `n->next = head; head = n;` -/
def pushFront (n : ν) : Links ν := (l.write (.next n) l.head).write .head (some n)

/-- `while (*pp) { if (*pp == x) { *pp = x->next; x->next = nullptr; break; }
pp = &(*pp)->next; }` -/
def unlink (x : ν) : Nat → Place ν → Links ν → Option (Links ν)
  | fuel, pp, l =>
    match l.read pp, fuel with
    | none, _ => some l
    | some _, 0 => none
    | some n, fuel + 1 =>
      if n = x then some ((l.write pp (l.next n)).write (.next n) none)
      else unlink x fuel (.next n) l

/-- The same loop for every node that `drop` tells, without the `break`. -/
def sweep (drop : ν → Bool) : Nat → Place ν → Links ν → Option (Links ν)
  | fuel, pp, l =>
    match l.read pp, fuel with
    | none, _ => some l
    | some _, 0 => none
    | some n, fuel + 1 =>
      if drop n then sweep drop fuel pp ((l.write (.next n) none).write pp (l.next n))
      else sweep drop fuel (.next n) l

end Loops

end Links

/-- `for (p = from; p; p = p->next) s = body(p, s);`; the body says whether the
loop goes on. -/
def each (next : ν → Option ν) (body : ν → σ → σ × Bool) : Nat → Option ν → σ → Option σ
  | _, none, s => some s
  | 0, some _, _ => none
  | fuel + 1, some n, s =>
    if (body n s).2 then each next body fuel (next n) (body n s).1 else some (body n s).1

/-- What `each` comes to over a list of nodes. -/
def visit (body : ν → σ → σ × Bool) : List ν → σ → σ
  | [], s => s
  | n :: ns, s => if (body n s).2 then visit body ns (body n s).1 else (body n s).1

/-! ## Chains -/

section Chains

variable {next next' : ν → Option ν} {p : Option ν} {n : ν} {ns ms : List ν}

/-- The pointers lead through one list of nodes only. -/
theorem Chain.unique (h : Chain next p ns) (h' : Chain next p ms) : ns = ms := by
  induction ns generalizing p ms with
  | nil =>
      cases ms with
      | nil => rfl
      | cons m ms =>
          obtain ⟨hp, -⟩ := h'
          rw [show p = none from h] at hp
          contradiction
  | cons n ns ih =>
      obtain ⟨rfl, hrest⟩ := h
      cases ms with
      | nil => exact absurd h' (by simp [Chain])
      | cons m ms =>
          obtain ⟨hm, hrest'⟩ := h'
          cases hm
          rw [ih hrest hrest']

/-- What comes after a part of a chain. -/
theorem Chain.suffix (h : Chain next p (ms ++ ns)) : ∃ q, Chain next q ns := by
  induction ms generalizing p with
  | nil => exact ⟨p, h⟩
  | cons m ms ih => exact ih h.2

/-- A chain that came back to a node would go on forever. -/
theorem Chain.nodup (h : Chain next p ns) : ns.Nodup := by
  induction ns generalizing p with
  | nil => exact List.nodup_nil
  | cons n ns ih =>
      refine List.nodup_cons.mpr ⟨fun hn => ?_, ih h.2⟩
      obtain ⟨before, after, rfl⟩ := List.append_of_mem hn
      obtain ⟨q, hq⟩ := Chain.suffix h.2
      have hback : Chain next (some n) (n :: after) := ⟨rfl, hq.2⟩
      have hhere : Chain next (some n) (n :: (before ++ n :: after)) := ⟨rfl, h.2⟩
      have hlen := congrArg List.length (hhere.unique hback)
      simp only [List.length_cons, List.length_append] at hlen
      omega

/-- Only the pointers of its nodes matter. -/
theorem Chain.congr (h : Chain next p ns) (hnext : ∀ n ∈ ns, next' n = next n) :
    Chain next' p ns := by
  induction ns generalizing p with
  | nil => exact h
  | cons n ns ih =>
      refine ⟨h.1, ?_⟩
      rw [hnext n List.mem_cons_self]
      exact ih h.2 fun m hm => hnext m (List.mem_cons_of_mem n hm)

/-- A loop over a list ends where the list does, or before. -/
theorem each_eq {body : ν → σ → σ × Bool} (h : Chain next p ns) {fuel : Nat}
    (hfuel : ns.length ≤ fuel) (s : σ) : each next body fuel p s = some (visit body ns s) := by
  induction ns generalizing p fuel s with
  | nil =>
      rw [show p = none from h]
      cases fuel <;> rfl
  | cons n ns ih =>
      obtain ⟨rfl, hrest⟩ := h
      cases fuel with
      | zero => simp at hfuel
      | succ fuel =>
          simp only [List.length_cons, Nat.add_le_add_iff_right] at hfuel
          simp only [each, visit]
          split
          · exact ih hrest hfuel _
          · rfl

/-- The rule for `visit`: `I` holds with the nodes still to come, `Q` in the end. -/
theorem visit_rule {body : ν → σ → σ × Bool} {I : List ν → σ → Prop} {Q : σ → Prop}
    (hgo : ∀ n ns s, I (n :: ns) s → (body n s).2 = true → I ns (body n s).1)
    (hleave : ∀ n ns s, I (n :: ns) s → (body n s).2 = false → Q (body n s).1)
    (hend : ∀ s, I [] s → Q s) {s : σ} (h : I ns s) : Q (visit body ns s) := by
  induction ns generalizing s with
  | nil => exact hend s h
  | cons n ns ih =>
      simp only [visit]
      split
      · next hon => exact ih (hgo n ns s h hon)
      · next hoff => exact hleave n ns s h (Bool.not_eq_true _ ▸ hoff)

/-- The loop that looks for a node. -/
theorem visit_find [DecidableEq ν] (x : ν) (ns : List ν) (found : Bool) :
    visit (fun n found => if n = x then (true, false) else (found, true)) ns found =
      (found || decide (x ∈ ns)) := by
  induction ns with
  | nil => simp [visit]
  | cons n ns ih =>
      by_cases hn : n = x
      · simp [visit, hn]
      · have hx : x ≠ n := fun h => hn h.symm
        simp [visit, hn, hx, ih]

end Chains

/-! ## Updates -/

namespace Links

variable {l : Links ν} {pp qq : Place ν} {p : Option ν} {n x : ν} {ns : List ν}

/-- A list holds no node twice. -/
theorem Holds.nodup (h : l.Holds ns) : ns.Nodup := Chain.nodup h

/-- An empty list has no nodes. -/
theorem holds_empty : Holds ({} : Links ν) [] := rfl

/-- The nodes the pointers lead through from a place on, which is not the link
of one of them. -/
def HoldsAt (l : Links ν) (pp : Place ν) (ns : List ν) : Prop :=
  Chain l.next (l.read pp) ns ∧ ∀ n ∈ ns, pp ≠ .next n

/-- The list behind its first node. -/
theorem HoldsAt.tail (h : l.HoldsAt pp (n :: ns)) : l.HoldsAt (.next n) ns := by
  refine ⟨h.1.2, ?_⟩
  rintro m hm ⟨⟩
  exact (List.nodup_cons.mp (Chain.nodup h.1)).1 hm

/-- A place may be made to point past the node it points to. -/
theorem HoldsAt.skip (h : l.HoldsAt pp (n :: ns)) {l' : Links ν} (hread : l'.read pp = l.next n)
    (hnext : ∀ m ∈ ns, l'.next m = l.next m) : l'.HoldsAt pp ns := by
  refine ⟨?_, fun m hm => h.2 m (List.mem_cons_of_mem n hm)⟩
  rw [hread]
  exact h.1.2.congr hnext

/-- From the head on it is the whole list. -/
theorem holdsAt_head : l.HoldsAt .head ns ↔ l.Holds ns :=
  ⟨fun h => h.1, fun h => ⟨h, fun _ _ => nofun⟩⟩

section Updates

variable [DecidableEq ν]

@[simp] theorem read_write (l : Links ν) (pp : Place ν) (p : Option ν) :
    (l.write pp p).read pp = p := by
  cases pp <;> simp [read, write]

@[simp] theorem read_write_of_ne (h : qq ≠ pp) : (l.write pp p).read qq = l.read qq := by
  cases pp <;> cases qq <;> simp_all [read, write]

/-- Writing a place changes one pointer. -/
theorem next_write (l : Links ν) (pp : Place ν) (p : Option ν) (n : ν) :
    (l.write pp p).next n = if pp = .next n then p else l.next n := by
  cases pp with
  | head => simp [write]
  | next m =>
      by_cases hm : m = n
      · simp [write, hm]
      · have hn : n ≠ m := fun h => hm h.symm
        simp [write, hm, hn]

/-- What is not in the list may have any link. -/
theorem Holds.write_next (h : l.Holds ns) (hx : x ∉ ns) (p : Option ν) :
    (l.write (.next x) p).Holds ns := by
  have hchain : Chain l.next l.head ns := h
  refine hchain.congr fun n hn => ?_
  rw [next_write, if_neg]
  rintro ⟨⟩
  exact hx hn

/-- A new node comes first. -/
theorem Holds.pushFront (h : l.Holds ns) (hx : x ∉ ns) : (l.pushFront x).Holds (x :: ns) := by
  refine ⟨rfl, ?_⟩
  have hnext : (l.pushFront x).next x = l.head := by simp [Links.pushFront, write]
  rw [hnext]
  exact (h.write_next hx l.head).congr fun n _ => rfl

/-- `unlink` takes a node out of the list, and touches nothing else. -/
theorem HoldsAt.unlink (h : l.HoldsAt pp ns) (x : ν) {fuel : Nat} (hfuel : ns.length ≤ fuel) :
    ∃ l', l.unlink x fuel pp = some l' ∧ l'.HoldsAt pp (ns.erase x) ∧
      ∀ qq, qq ≠ pp → (∀ n ∈ ns, qq ≠ .next n) → l'.read qq = l.read qq := by
  induction ns generalizing pp fuel with
  | nil =>
      have hread : l.read pp = none := h.1
      refine ⟨l, ?_, h, fun _ _ _ => rfl⟩
      unfold Links.unlink
      rw [hread]
  | cons n ns ih =>
      have hread : l.read pp = some n := h.1.1
      have hnn : n ∉ ns := (List.nodup_cons.mp (Chain.nodup h.1)).1
      cases fuel with
      | zero => simp at hfuel
      | succ fuel =>
          simp only [List.length_cons, Nat.add_le_add_iff_right] at hfuel
          unfold Links.unlink
          rw [hread]
          by_cases hn : n = x
          · subst hn
            have hpp : pp ≠ .next n := h.2 n List.mem_cons_self
            refine ⟨_, if_pos rfl, ?_, fun qq hq hqs => ?_⟩
            · rw [List.erase_cons_head]
              refine h.skip (by simp [hpp]) fun m hm => ?_
              have hm' : pp ≠ .next m := h.2 m (List.mem_cons_of_mem n hm)
              have hnm : n ≠ m := fun hnm => hnn (hnm ▸ hm)
              simp [next_write, hm', hnm]
            · have hqn : qq ≠ .next n := hqs n List.mem_cons_self
              simp [hq, hqn]
          · obtain ⟨l', hl', hholds, hframe⟩ := ih h.tail hfuel
            refine ⟨l', (if_neg hn).trans hl', ?_, fun qq _ hqs => ?_⟩
            · have hpp : l'.read pp = l.read pp :=
                hframe pp (h.2 n List.mem_cons_self)
                  fun m hm => h.2 m (List.mem_cons_of_mem n hm)
              rw [List.erase_cons_tail (by simpa using hn)]
              refine ⟨⟨hpp.trans hread, hholds.1⟩, fun m hm => ?_⟩
              obtain rfl | hm := List.mem_cons.mp hm
              · exact h.2 m List.mem_cons_self
              · exact h.2 m (List.mem_cons_of_mem n (List.mem_of_mem_erase hm))
            · exact hframe qq (hqs n List.mem_cons_self)
                fun m hm => hqs m (List.mem_cons_of_mem n hm)

/-- `sweep` takes the nodes out that `drop` tells, and touches nothing else. -/
theorem HoldsAt.sweep (drop : ν → Bool) (h : l.HoldsAt pp ns) {fuel : Nat}
    (hfuel : ns.length ≤ fuel) :
    ∃ l', l.sweep drop fuel pp = some l' ∧ l'.HoldsAt pp (ns.filter fun n => !drop n) ∧
      ∀ qq, qq ≠ pp → (∀ n ∈ ns, qq ≠ .next n) → l'.read qq = l.read qq := by
  induction ns generalizing pp fuel l with
  | nil =>
      have hread : l.read pp = none := h.1
      refine ⟨l, ?_, h, fun _ _ _ => rfl⟩
      unfold Links.sweep
      rw [hread]
  | cons n ns ih =>
      have hread : l.read pp = some n := h.1.1
      have hnn : n ∉ ns := (List.nodup_cons.mp (Chain.nodup h.1)).1
      cases fuel with
      | zero => simp at hfuel
      | succ fuel =>
          simp only [List.length_cons, Nat.add_le_add_iff_right] at hfuel
          unfold Links.sweep
          rw [hread]
          cases hdrop : drop n with
          | true =>
              have hskip : ((l.write (.next n) none).write pp (l.next n)).HoldsAt pp ns := by
                refine h.skip (by simp) fun m hm => ?_
                have hm' : pp ≠ .next m := h.2 m (List.mem_cons_of_mem n hm)
                have hnm : n ≠ m := fun hnm => hnn (hnm ▸ hm)
                simp [next_write, hm', hnm]
              obtain ⟨l', hl', hholds, hframe⟩ := ih hskip hfuel
              refine ⟨l', by simpa [hdrop] using hl', by simpa [hdrop] using hholds,
                fun qq hq hqs => ?_⟩
              have hqn : qq ≠ .next n := hqs n List.mem_cons_self
              rw [hframe qq hq fun m hm => hqs m (List.mem_cons_of_mem n hm)]
              simp [hq, hqn]
          | false =>
              obtain ⟨l', hl', hholds, hframe⟩ := ih h.tail hfuel
              refine ⟨l', by simpa [hdrop] using hl', ?_, fun qq _ hqs => ?_⟩
              · have hpp : l'.read pp = l.read pp :=
                  hframe pp (h.2 n List.mem_cons_self)
                    fun m hm => h.2 m (List.mem_cons_of_mem n hm)
                rw [List.filter_cons_of_pos (by simp [hdrop])]
                refine ⟨⟨hpp.trans hread, hholds.1⟩, fun m hm => ?_⟩
                obtain rfl | hm := List.mem_cons.mp hm
                · exact h.2 m List.mem_cons_self
                · exact h.2 m (List.mem_cons_of_mem n (List.mem_of_mem_filter hm))
              · exact hframe qq (hqs n List.mem_cons_self)
                  fun m hm => hqs m (List.mem_cons_of_mem n hm)

/-- Unlinking removes a node, and ends. -/
theorem Holds.unlink (h : l.Holds ns) (x : ν) {fuel : Nat} (hfuel : ns.length ≤ fuel) :
    ∃ l', l.unlink x fuel .head = some l' ∧ l'.Holds (ns.erase x) := by
  obtain ⟨l', hl', hholds, -⟩ := (holdsAt_head.mpr h).unlink x hfuel
  exact ⟨l', hl', holdsAt_head.mp hholds⟩

/-- Sweeping removes what is to be dropped, and ends. -/
theorem Holds.sweep (drop : ν → Bool) (h : l.Holds ns) {fuel : Nat} (hfuel : ns.length ≤ fuel) :
    ∃ l', l.sweep drop fuel .head = some l' ∧ l'.Holds (ns.filter fun n => !drop n) := by
  obtain ⟨l', hl', hholds, -⟩ := (holdsAt_head.mpr h).sweep drop hfuel
  exact ⟨l', hl', holdsAt_head.mp hholds⟩

end Updates

end Links

end Linked
