import Mathlib.Data.Fintype.EquivFin
import Mathlib.Data.List.Basic
import Mathlib.Data.List.Nodup
import Mathlib.Data.List.TakeWhile
import Mathlib.Logic.Relation

/-!
# ActiveFsm.Forest

Forests given by their parent links: `next a` is the parent of the node `a`,
`none` where `a` is not a node at all.  The path of a node is the node itself
followed by its ancestors, up to a root.

* `Path.nodup` — a path never comes back to a node;
* `Path.head_eq` — whoever comes right after a node on a path is its parent;
* `Path.dropWhile_eq` — two paths that share a node share all that follows it;
* `exists_path_iff` — where there are finitely many nodes, a node has a path
  unless a cycle is reached from it.

Nothing here depends on what a node is.
-/

namespace Forest

variable {α : Type} (next : α → Option α)

/-- `Path next a l`: `l` is `a` followed by its ancestors.  A path that starts
outside the forest is empty. -/
inductive Path : α → List α → Prop where
  | out {a : α} (h : next a = none) : Path a []
  | up {a b : α} {l : List α} (h : next a = some b) (hl : Path b l) : Path a (a :: l)

/-- The parent of a node; a root has none. -/
def parent (a : α) : Option α := (next a).filter fun b => (next b).isSome

/-- The path of a node, if it has at most `n` nodes. -/
def walk : Nat → α → List α
  | 0, _ => []
  | n + 1, a =>
    match next a with
    | none => []
    | some b => a :: walk n b

section Paths

variable {next} {a b : α} {l m : List α}

/-- With enough fuel a walk is the whole path. -/
theorem Path.walk_eq (h : Path next a l) {n : Nat} (hn : l.length ≤ n) : walk next n a = l := by
  induction h generalizing n with
  | @out a hnone => cases n <;> simp [walk, hnone]
  | @up a b l hsome _ ih =>
      cases n with
      | zero => simp at hn
      | succ n =>
          simp only [List.length_cons] at hn
          have hl : l.length ≤ n := by omega
          simp only [walk, hsome, ih hl]

/-- A walk begins with where it is. -/
theorem walk_succ (n : Nat) (h : next a = some b) : walk next (n + 1) a = a :: walk next n b := by
  simp only [walk, h]

theorem walk_out {n : Nat} (h : next a = none) : walk next n a = [] := by
  cases n <;> simp [walk, h]

/-- A walk is no longer than its fuel. -/
theorem length_walk_le (n : Nat) (a : α) : (walk next n a).length ≤ n := by
  induction n generalizing a with
  | zero => exact Nat.le_refl 0
  | succ n ih =>
      cases h : next a with
      | none => simp [walk_out h]
      | some b =>
          have hb := ih b
          rw [walk_succ n h, List.length_cons]
          omega

/-- What a walk meets are nodes. -/
theorem isSome_of_mem_walk {n : Nat} (h : b ∈ walk next n a) : (next b).isSome = true := by
  induction n generalizing a with
  | zero => contradiction
  | succ n ih =>
      cases ha : next a with
      | none =>
          rw [walk_out ha] at h
          contradiction
      | some c =>
          rw [walk_succ n ha] at h
          cases List.mem_cons.mp h with
          | inl heq => simp [heq, ha]
          | inr hmem => exact ih hmem

/-- A walk of a node comes to the end if that of its parent does. -/
theorem path_walk_succ (n : Nat) (h : next a = some b) :
    Path next a (walk next (n + 1) a) ↔ Path next b (walk next n b) := by
  rw [walk_succ n h]
  constructor
  · intro hpath
    cases hpath with
    | @up _ c _ hsome hl =>
        have hbc : b = c := Option.some.inj (h.symm.trans hsome)
        subst hbc
        exact hl
  · exact .up h

/-- There is one path from a node. -/
theorem Path.unique (h : Path next a l) (h' : Path next a m) : l = m := by
  induction h generalizing m with
  | @out a hnone =>
      cases h' with
      | out _ => rfl
      | up hsome _ => simp [hnone] at hsome
  | @up a b l hsome _ ih =>
      cases h' with
      | out hnone => simp [hsome] at hnone
      | @up _ b' m hsome' hm =>
          have hb : b = b' := by simpa [hsome] using hsome'
          subst hb
          rw [ih hm]

/-- From each node on, a path is the path of that node. -/
theorem Path.of_append (h : Path next a (l ++ b :: m)) : Path next b (b :: m) := by
  induction l generalizing a with
  | nil =>
      cases h with
      | up hsome hl => exact .up hsome hl
  | cons c l ih =>
      cases h with
      | up _ hl => exact ih hl

/-- The nodes of a path are nodes. -/
theorem Path.isSome (h : Path next a l) : ∀ b ∈ l, (next b).isSome = true := by
  induction h with
  | out _ => simp
  | @up a b l hsome _ ih =>
      intro c hc
      cases List.mem_cons.mp hc with
      | inl heq => simp [heq, hsome]
      | inr hmem => exact ih c hmem

/-- A path never comes back to a node. -/
theorem Path.nodup (h : Path next a l) : l.Nodup := by
  induction h with
  | out _ => exact List.nodup_nil
  | @up a b l hsome hl ih =>
      refine List.nodup_cons.mpr ⟨fun hmem => ?_, ih⟩
      obtain ⟨before, after, rfl⟩ := List.append_of_mem hmem
      -- the path of `a` would be a proper part of itself
      have hsame : a :: (before ++ a :: after) = a :: after :=
        (Path.up hsome hl).unique hl.of_append
      have hlen := congrArg List.length hsame
      simp only [List.length_cons, List.length_append] at hlen
      omega

/-- What comes right after a node on a path is its parent. -/
theorem Path.head_eq (h : Path next a (b :: m)) : m.head? = parent next b := by
  cases h with
  | @up _ c _ hsome hm =>
      rw [parent, hsome]
      cases hm with
      | out hnone => simp [Option.filter, hnone]
      | up hsome' _ => simp [Option.filter, hsome']

variable [DecidableEq α]

/-- From a node of a path on, the path is that of the node. -/
theorem Path.dropWhile (h : Path next a l) (hb : b ∈ l) :
    Path next b (l.dropWhile fun c => decide (c ≠ b)) := by
  induction h with
  | out _ => contradiction
  | @up a c l hsome hl ih =>
      by_cases hab : a = b
      · have hdrop : (a :: l).dropWhile (fun c => decide (c ≠ b)) = a :: l :=
          List.dropWhile_cons_of_neg (by simp [hab])
        rw [hdrop, ← hab]
        exact .up hsome hl
      · have hdrop : (a :: l).dropWhile (fun c => decide (c ≠ b)) =
            l.dropWhile fun c => decide (c ≠ b) := List.dropWhile_cons_of_pos (by simp [hab])
        rw [hdrop]
        exact ih ((List.mem_cons.mp hb).resolve_left (Ne.symm hab))

/-- Two paths share what follows a node they share, and nothing follows a node
on neither of them. -/
theorem Path.dropWhile_eq {c : α} (h : Path next a l) (h' : Path next b m) (hc : c ∈ l ↔ c ∈ m) :
    (l.dropWhile fun d => decide (d ≠ c)) = m.dropWhile fun d => decide (d ≠ c) := by
  by_cases hl : c ∈ l
  · exact (h.dropWhile hl).unique (h'.dropWhile (hc.mp hl))
  · have hnone (k : List α) (hk : c ∉ k) : (k.dropWhile fun d => decide (d ≠ c)) = [] := by
      rw [List.dropWhile_eq_nil_iff]
      intro d hd
      exact decide_eq_true fun heq => hk (heq ▸ hd)
    rw [hnone l hl, hnone m (mt hc.mpr hl)]

end Paths

/-! ## Cycles -/

section Cycles

/-- `b` is the parent link of `a`. -/
def Link (a b : α) : Prop := next a = some b

variable {next} {a b c : α} {l : List α}

/-- Whatever is above a node with a path is on no cycle. -/
theorem Path.acyclic (h : Path next a l) :
    ∀ b, Relation.ReflTransGen (Link next) a b → ¬Relation.TransGen (Link next) b b := by
  induction h with
  | @out a hnone =>
      intro b hb hcycle
      obtain rfl | ⟨c, hc, -⟩ := Relation.ReflTransGen.cases_head hb
      · obtain ⟨c, hc, -⟩ := Relation.TransGen.head'_iff.mp hcycle
        simp [Link, hnone] at hc
      · simp [Link, hnone] at hc
  | @up a p l hsome _ ih =>
      intro b hb hcycle
      obtain rfl | ⟨c, hc, hrest⟩ := Relation.ReflTransGen.cases_head hb
      · -- the parent of a node on a cycle is on it too
        obtain ⟨c, hc, hback⟩ := Relation.TransGen.head'_iff.mp hcycle
        have hpc : p = c := Option.some.inj (hsome.symm.trans hc)
        subst hpc
        exact ih p .refl (Relation.TransGen.tail' hback hc)
      · have hpc : p = c := Option.some.inj (hsome.symm.trans hc)
        subst hpc
        exact ih b hrest hcycle

/-- Where there are finitely many nodes and no cycle is reached, the chain of
parents ends. -/
theorem Path.exists_of_acyclic [Finite α]
    (h : ∀ b, Relation.ReflTransGen (Link next) a b → ¬Relation.TransGen (Link next) b b) :
    ∃ l, Path next a l := by
  -- on the nodes above `a`, being above is well-founded
  let above (x y : {b // Relation.ReflTransGen (Link next) a b}) : Prop :=
    Relation.TransGen (Link next) y.1 x.1
  have htrans : IsTrans _ above := ⟨fun _ _ _ hxy hyz => hyz.trans hxy⟩
  have hirrefl : Std.Irrefl above := ⟨fun x hx => h x.1 x.2 hx⟩
  have hwf : WellFounded above := Finite.wellFounded_of_trans_of_irrefl above
  have hpath (x : {b // Relation.ReflTransGen (Link next) a b}) : ∃ l, Path next x.1 l := by
    induction x using hwf.induction with
    | _ x ih =>
        cases hx : next x.1 with
        | none => exact ⟨[], .out hx⟩
        | some p =>
            obtain ⟨l, hl⟩ := ih ⟨p, x.2.tail hx⟩ (Relation.TransGen.single hx)
            exact ⟨x.1 :: l, .up hx hl⟩
  exact hpath ⟨a, .refl⟩

/-- A node has a path unless a cycle is reached from it. -/
theorem exists_path_iff [Finite α] :
    (∃ l, Path next a l) ↔
      ¬∃ b, Relation.ReflTransGen (Link next) a b ∧ Relation.TransGen (Link next) b b := by
  constructor
  · rintro ⟨l, hl⟩ ⟨b, hb, hcycle⟩
    exact hl.acyclic b hb hcycle
  · intro h
    exact Path.exists_of_acyclic fun b hb hcycle => h ⟨b, hb, hcycle⟩

end Cycles

end Forest
