import ActiveFsm.Configuration
import ActiveFsm.Malformed

/-!
# ActiveFsm.Propagate

The loop of `END_TRANSITION_MAP_HSM`: from the current state up, as long as
the entry found is `PROPAGATE_TO_PARENT`.

It ends exactly where no cycle of parent links with such entries is reached
(`propagation_ends_iff`).  Where the chains of parents end, it passes on the
entry of the nearest state that has another one, as a flat table could
(`propagation_resolves`).
-/

namespace ActiveFsm

open Proc Forest

variable {σ δ : Type}

/-! ## When the loop ends -/

section Ends

variable (M : Machine σ δ) (f : EventFunction δ)

/-- The state the loop goes on with after `s`. -/
def propagateLink (s : UInt8) : Option UInt8 :=
  if f.transitions[s.toNat]? = some propagateToParent then
    ((rowsHSM M)[s.toNat]?).bind fun row =>
      if row.parentState.toNat < f.transitions.length then some row.parentState else none
  else none

variable {M f}

/-- A subscript in range. -/
theorem subscript_ok {α : Type} {xs : List α} {i : UInt8} {x : α} (h : xs[i.toNat]? = some x) :
    subscript xs i = .ok x := by
  rw [subscript_eq, h]
  rfl

theorem ok_bind {α β : Type} (a : α) (g : α → Except Stop β) :
    (Except.ok a : Except Stop α) >>= g = g a := rfl

/-- One round of the loop: it ends at `s`, or goes on with the next state. -/
theorem resolve_step (hrows : f.transitions.length ≤ (rowsHSM M).length) {s entry : UInt8}
    (hentry : f.transitions[s.toNat]? = some entry) (left : Nat) :
    (propagateLink M f s = none ∧
      ∃ v, resolve M f (left + 1) s entry = .ok v ∧ v ≠ propagateToParent) ∨
    ∃ p next, propagateLink M f s = some p ∧ f.transitions[p.toNat]? = some next ∧
      resolve M f (left + 1) s entry = resolve M f left p next := by
  rw [resolve, propagateLink, hentry]
  by_cases hpropagate : entry = propagateToParent
  · obtain ⟨hs, -⟩ := List.getElem?_eq_some_iff.mp hentry
    obtain ⟨row, hrow⟩ : ∃ row, (rowsHSM M)[s.toNat]? = some row :=
      ⟨_, List.getElem?_eq_getElem (Nat.lt_of_lt_of_le hs hrows)⟩
    rw [if_pos hpropagate, if_pos (congrArg some hpropagate), hrow, subscript_ok hrow,
      Option.bind_some, ok_bind]
    by_cases hp : row.parentState.toNat < f.transitions.length
    · have hnext := List.getElem?_eq_getElem hp
      rw [if_pos hp, if_neg (Nat.not_le.mpr hp), subscript_ok hnext, ok_bind]
      exact .inr ⟨row.parentState, _, rfl, hnext, rfl⟩
    · rw [if_neg hp, if_pos (Nat.not_lt.mp hp)]
      exact .inl ⟨rfl, eventIgnored, rfl, by decide⟩
  · rw [if_neg hpropagate, if_neg fun h => hpropagate (Option.some.inj h)]
    exact .inl ⟨rfl, entry, rfl, hpropagate⟩

/-- Along the chain of such states the loop runs to its end. -/
theorem resolve_of_path (hrows : f.transitions.length ≤ (rowsHSM M).length) {s : UInt8}
    {l : List UInt8} (h : Path (propagateLink M f) s l) {entry : UInt8}
    (hentry : f.transitions[s.toNat]? = some entry) :
    ∃ v, resolve M f (l.length + 1) s entry = .ok v ∧ v ≠ propagateToParent := by
  induction h generalizing entry with
  | out hnone =>
      rcases resolve_step hrows hentry 0 with ⟨-, hv⟩ | ⟨p, next, hp, -, -⟩
      · exact hv
      · simp [hnone] at hp
  | @up s p l hsome _ ih =>
      rcases resolve_step hrows hentry (l.length + 1) with ⟨hnone, -⟩ | ⟨q, next, hq, hnext, hrun⟩
      · simp [hsome] at hnone
      · have hpq : p = q := Option.some.inj (hsome.symm.trans hq)
        subst hpq
        rw [List.length_cons, hrun]
        exact ih hnext

/-- Where there is such a chain, the loop is out before its fuel, also on a
state map that is too short. -/
theorem resolve_ends {s : UInt8} {l : List UInt8} (h : Path (propagateLink M f) s l)
    {entry : UInt8} (hentry : f.transitions[s.toNat]? = some entry) {left : Nat}
    (hleft : l.length < left) : resolve M f left s entry ≠ .error .outOfFuel := by
  induction h generalizing entry left with
  | out hnone =>
      obtain ⟨left, rfl⟩ : ∃ k, left = k + 1 := ⟨left - 1, by omega⟩
      rename_i a
      rw [propagateLink, hentry] at hnone
      rw [resolve]
      split
      · next hpropagate =>
          rw [if_pos (congrArg some hpropagate)] at hnone
          cases hrow : (rowsHSM M)[a.toNat]? with
          | none =>
              rw [subscript_eq, hrow]
              simp [Bind.bind, Except.bind]
          | some row =>
              rw [hrow, Option.bind_some] at hnone
              rw [subscript_ok hrow, ok_bind]
              split at hnone
              · contradiction
              · next hout =>
                  rw [if_pos (Nat.not_lt.mp hout)]
                  simp
      · simp
  | @up a p l hsome hl ih =>
      obtain ⟨left, rfl⟩ : ∃ k, left = k + 1 := ⟨left - 1, by omega⟩
      rw [propagateLink] at hsome
      split at hsome
      · next hpropagate =>
          obtain ⟨row, hrow, hparent⟩ := Option.bind_eq_some_iff.mp hsome
          split at hparent
          · next hin =>
              cases hparent
              rw [hentry] at hpropagate
              rw [resolve, if_pos (Option.some.inj hpropagate), subscript_ok hrow, ok_bind,
                if_neg (Nat.not_le.mpr hin), subscript_ok (List.getElem?_eq_getElem hin), ok_bind]
              exact ih (List.getElem?_eq_getElem hin) (by simpa using hleft)
          · contradiction
      · contradiction

/-- A run of the loop that ends has followed such a chain. -/
theorem path_of_resolve (hrows : f.transitions.length ≤ (rowsHSM M).length) {left : Nat}
    {s entry v : UInt8} (hentry : f.transitions[s.toNat]? = some entry)
    (h : resolve M f left s entry = .ok v) : ∃ l, Path (propagateLink M f) s l := by
  induction left generalizing s entry with
  | zero =>
      unfold resolve at h
      split at h
      · contradiction
      · next hne =>
        refine ⟨[], .out ?_⟩
        rw [propagateLink, hentry, if_neg fun heq => hne (Option.some.inj heq)]
  | succ left ih =>
      rcases resolve_step hrows hentry left with ⟨hnone, -⟩ | ⟨p, next, hp, hnext, hrun⟩
      · exact ⟨[], .out hnone⟩
      · rw [hrun] at h
        obtain ⟨l, hl⟩ := ih hnext h
        exact ⟨s :: l, .up hp hl⟩

/-- **The loop ends** unless a state is reached from the current one, up
`ParentState` links from states whose entry is `PROPAGATE_TO_PARENT`, that is
reached again from itself. -/
theorem propagation_ends_iff {rows : List (StateMapRowHSM σ δ)} (hmaps : M.maps = .hsm (some rows))
    (hf : f.hsm = true) (hlen : f.transitions.length ≤ M.maxStates.toNat) {s : UInt8}
    (hs : s.toNat < f.transitions.length) :
    (∃ n v, lookupTransition M n f s = .ok v ∧ v ≠ propagateToParent) ↔
      ¬∃ a, Relation.ReflTransGen (Link (propagateLink M f)) s a ∧
        Relation.TransGen (Link (propagateLink M f)) a a := by
  have hrows : f.transitions.length ≤ (rowsHSM M).length := by
    have hsize := M.maps_size
    rw [hmaps] at hsize
    rw [rowsHSM, hmaps, hsize rows rfl]
    exact hlen
  have hentry := List.getElem?_eq_getElem hs
  have hlookup (n : Nat) :
      lookupTransition M n f s = resolve M f n s f.transitions[s.toNat] := by
    rw [lookupTransition, subscript_eq, hentry, hf]
    rfl
  have hfinite : Finite UInt8 := Finite.of_injective UInt8.toFin fun _ _ h => UInt8.toFin_inj.mp h
  rw [← exists_path_iff]
  constructor
  · rintro ⟨n, v, hv, -⟩
    rw [hlookup] at hv
    exact path_of_resolve hrows hentry hv
  · rintro ⟨l, hl⟩
    obtain ⟨v, hv, hne⟩ := resolve_of_path hrows hl hentry
    exact ⟨l.length + 1, v, (hlookup _).trans hv, hne⟩

end Ends

/-- Both states propagate. -/
def hangingEvent : EventFunction Unit where
  transitions := [propagateToParent, propagateToParent]
  hsm := true

/-- From a state that is its own parent the loop never gets away: no number of
rounds is enough. -/
theorem propagation_hangs : ¬∃ n, lookupTransition loops n hangingEvent 0 ≠ .error .outOfFuel := by
  rintro ⟨n, hn⟩
  refine hn ?_
  show resolve loops hangingEvent n 0 propagateToParent = .error .outOfFuel
  clear hn
  induction n with
  | zero => rfl
  | succ n ih => exact ih

/-- Dim and bright leave the event to on. -/
def dimmedEvent : EventFunction Nat where
  transitions := [eventIgnored, 0, propagateToParent, propagateToParent]
  hsm := true

theorem propagation_ends_lamp :
    ¬∃ a, Relation.ReflTransGen (Link (propagateLink lamp dimmedEvent)) 2 a ∧
      Relation.TransGen (Link (propagateLink lamp dimmedEvent)) a a :=
  (propagation_ends_iff rfl rfl (by decide) (by decide)).mp ⟨1, 0, rfl, by decide⟩

/-! ## What the loop comes to -/

section Resolves

variable (M : Machine σ δ) (rows : List (StateMapRowHSM σ δ)) (f : EventFunction δ)

/-- A state and all its ancestors, of whatever depth. -/
def ancestors (s : UInt8) : List UInt8 := walk (parentLink M rows) M.maxStates.toNat s

/-- The entry of a state in the transition table. -/
def EventFunction.entry (s : UInt8) : UInt8 := f.transitions.getD s.toNat eventIgnored

/-- The first entry along a chain that is not `PROPAGATE_TO_PARENT`. -/
def EventFunction.nearest (chain : List UInt8) : UInt8 :=
  ((chain.map f.entry).find? fun entry => decide (entry ≠ propagateToParent)).getD eventIgnored

/-- The flat table, with every entry resolved beforehand. -/
def EventFunction.flatten : EventFunction δ :=
  { f with
    transitions := (List.range f.transitions.length).map fun i =>
      f.nearest (ancestors M rows (UInt8.ofNat i))
    hsm := false }

variable {M rows f} {s : UInt8} {l : List UInt8}

/-- The nearest entry is no propagation. -/
theorem EventFunction.nearest_ne (chain : List UInt8) : f.nearest chain ≠ propagateToParent := by
  unfold EventFunction.nearest
  cases h : (chain.map f.entry).find? fun entry => decide (entry ≠ propagateToParent) with
  | none => decide
  | some entry => simpa using List.find?_some h

/-- Where all of them propagate the event is ignored. -/
theorem EventFunction.nearest_of_propagates (h : ∀ a ∈ l, f.entry a = propagateToParent) :
    f.nearest l = eventIgnored := by
  have hnone : (l.map f.entry).find? (fun entry => decide (entry ≠ propagateToParent)) = none := by
    rw [List.find?_eq_none]
    intro entry hentry
    obtain ⟨a, ha, rfl⟩ := List.mem_map.mp hentry
    simp [h a ha]
  rw [EventFunction.nearest, hnone]
  rfl

/-- A chain that ends does not have more states than there are. -/
theorem path_length_le (h : Path (parentLink M rows) s l) : l.length ≤ M.maxStates.toNat := by
  have hnodup : (l.map UInt8.toNat).Nodup := h.nodup.map fun _ _ heq => UInt8.toNat_inj.mp heq
  have hsubset : l.map UInt8.toNat ⊆ List.range M.maxStates.toNat := by
    intro i hi
    obtain ⟨a, ha, rfl⟩ := List.mem_map.mp hi
    obtain ⟨p, hp⟩ := Option.isSome_iff_exists.mp (h.isSome a ha)
    rw [List.mem_range]
    exact UInt8.lt_iff_toNat_lt.mp (parentLink_some hp).1
  simpa using hnodup.length_le_of_subset hsubset

/-- The ancestors are the path of parents. -/
theorem path_ancestors
    (hacyclic : ∀ a, ¬Relation.TransGen (Link (parentLink M rows)) a a) (s : UInt8) :
    Path (parentLink M rows) s (ancestors M rows s) := by
  have hfinite : Finite UInt8 := Finite.of_injective UInt8.toFin fun _ _ h => UInt8.toFin_inj.mp h
  obtain ⟨l, hl⟩ := Path.exists_of_acyclic fun b (_ : Relation.ReflTransGen _ s b) => hacyclic b
  rw [ancestors, hl.walk_eq (path_length_le hl)]
  exact hl

/-- The table and its entries. -/
theorem EventFunction.entry_eq (hs : s.toNat < f.transitions.length) :
    f.transitions[s.toNat]? = some (f.entry s) := by
  rw [EventFunction.entry, List.getD_eq_getElem?_getD, List.getElem?_eq_getElem hs]
  rfl

/-- The nearest entry of a chain, from its first state on. -/
theorem EventFunction.nearest_cons (a : UInt8) (chain : List UInt8) :
    f.nearest (a :: chain) =
      if f.entry a = propagateToParent then f.nearest chain else f.entry a := by
  unfold EventFunction.nearest
  by_cases h : f.entry a = propagateToParent <;> simp [h]

/-- A map whose paths end has no cycle. -/
theorem Grounded.acyclic (h : Grounded M rows) (a : UInt8) :
    ¬Relation.TransGen (Link (parentLink M rows)) a a := by
  intro hcycle
  obtain ⟨b, hb, -⟩ := Relation.TransGen.head'_iff.mp hcycle
  obtain ⟨l, hl, -⟩ := h a (parentLink_some hb).1
  exact hl.acyclic a .refl hcycle

/-- Up a chain that ends the loop finds the nearest entry. -/
theorem resolve_eq (hmaps : M.maps = .hsm (some rows))
    (hlen : f.transitions.length = M.maxStates.toNat) (h : Path (parentLink M rows) s l)
    (hs : s < M.maxStates) {left : Nat} (hleft : l.length ≤ left) :
    resolve M f left s (f.entry s) = .ok (f.nearest l) := by
  have hrows : rowsHSM M = rows := by rw [rowsHSM, hmaps]
  have hvalid (p : UInt8) : f.transitions.length ≤ p.toNat ↔ ¬p < M.maxStates := by
    rw [hlen, UInt8.lt_iff_toNat_lt]
    omega
  induction h generalizing left with
  | out hnone =>
      have hsize := M.maps_size
      rw [hmaps] at hsize
      exact absurd hs (parentLink_none (hsize rows rfl) hnone)
  | @up s p l hsome hl ih =>
      obtain ⟨-, row, hrow, rfl⟩ := parentLink_some hsome
      rw [EventFunction.nearest_cons]
      unfold resolve
      by_cases hentry : f.entry s = propagateToParent
      · rw [if_pos hentry, if_pos hentry]
        cases left with
        | zero => simp at hleft
        | succ left =>
            have hrow' := subscript_ok (hrows ▸ hrow)
            show (subscript (rowsHSM M) s >>= _) = _
            rw [hrow', ok_bind]
            by_cases hp : row.parentState < M.maxStates
            · have hlt : row.parentState.toNat < f.transitions.length :=
                Nat.not_le.mp fun h => (hvalid _).mp h hp
              rw [if_neg (Nat.not_le.mpr hlt), subscript_ok (f.entry_eq hlt), ok_bind]
              exact ih hp (Nat.le_of_succ_le_succ hleft)
            · rw [if_pos ((hvalid _).mpr hp)]
              cases hl with
              | out _ => rfl
              | up hsome' _ => exact absurd (parentLink_some hsome').1 hp
      · rw [if_neg hentry, if_neg hentry]

/-- The lookup finds the nearest entry. -/
theorem lookupTransition_eq (hmaps : M.maps = .hsm (some rows))
    (hacyclic : ∀ a, ¬Relation.TransGen (Link (parentLink M rows)) a a) (hf : f.hsm = true)
    (hlen : f.transitions.length = M.maxStates.toNat) {n : Nat} (hn : M.maxStates.toNat ≤ n)
    (hs : s < M.maxStates) :
    lookupTransition M n f s = .ok (f.nearest (ancestors M rows s)) := by
  have hpath := path_ancestors hacyclic s
  have hentry := f.entry_eq (toNat_lt_length hlen hs)
  have hresolve := resolve_eq hmaps hlen hpath hs (Nat.le_trans (path_length_le hpath) hn)
  rw [lookupTransition, subscript_ok hentry, hf]
  exact hresolve

/-- The flattened table has it at once. -/
theorem lookupTransition_flatten (n : Nat) (hs : s.toNat < f.transitions.length) :
    lookupTransition M n (f.flatten M rows) s = .ok (f.nearest (ancestors M rows s)) := by
  have hentry : (f.flatten M rows).transitions[s.toNat]? =
      some (f.nearest (ancestors M rows s)) := by
    simp [EventFunction.flatten, hs]
  rw [lookupTransition, subscript_ok hentry]
  rfl

end Resolves

/-- **Propagation resolves to the nearest handling ancestor.**  What is passed
on is the entry of the nearest state, from the current one up, that has one
other than `PROPAGATE_TO_PARENT`; where there is none, or it is
`EVENT_IGNORED`, nothing happens; and a flat table would do as well. -/
theorem propagation_resolves {M : Machine σ δ} {rows : List (StateMapRowHSM σ δ)}
    {f : EventFunction δ} {self : Frame δ} {nested : Call δ → Fsm σ δ Unit} {n : Nat}
    {w : World σ δ} (hmaps : M.maps = .hsm (some rows))
    (hacyclic : ∀ a, ¬Relation.TransGen (Link (parentLink M rows)) a a) (hf : f.hsm = true)
    (hlen : f.transitions.length = M.maxStates.toNat) (hn : M.maxStates.toNat ≤ n)
    (hs : w.members.currentState < M.maxStates) :
    let chain := ancestors M rows w.members.currentState
    Path (parentLink M rows) w.members.currentState chain ∧
    f.nearest chain ≠ propagateToParent ∧
    (endTransitionMap M self nested n f).run w =
      (externalEvent M self nested n (f.nearest chain) f.data).run w ∧
    ((∀ a ∈ chain, f.entry a = propagateToParent) → f.nearest chain = eventIgnored) ∧
    (f.nearest chain = eventIgnored → (endTransitionMap M self nested n f).run w = (.ok (), w)) ∧
    (endTransitionMap M self nested n f).run w =
      (endTransitionMap M self nested n (f.flatten M rows)).run w := by
  intro chain
  have hlt : w.members.currentState.toNat < f.transitions.length := toNat_lt_length hlen hs
  have hrun : (endTransitionMap M self nested n f).run w =
      (externalEvent M self nested n (f.nearest chain) f.data).run w := by
    rw [endTransitionMap_run, EventFunction.mapTarget, if_pos hlt,
      lookupTransition_eq hmaps hacyclic hf hlen hn hs]
    rfl
  have hflat : (endTransitionMap M self nested n (f.flatten M rows)).run w =
      (externalEvent M self nested n (f.nearest chain) f.data).run w := by
    have hlt' : w.members.currentState.toNat < (f.flatten M rows).transitions.length := by
      simpa [EventFunction.flatten] using hlt
    rw [endTransitionMap_run, EventFunction.mapTarget, if_pos hlt',
      lookupTransition_flatten n hlt]
    rfl
  refine ⟨path_ancestors hacyclic _, EventFunction.nearest_ne chain, hrun,
    EventFunction.nearest_of_propagates, fun hignored => ?_, hrun.trans hflat.symm⟩
  rw [hrun, hignored]
  rfl

/-- From bright: the entry of on is found, and the transition starts at bright. -/
theorem propagation_resolves_lamp :
    (endTransitionMap lamp ⟨0, .event dimmedEvent⟩ (fun _ => ret ()) 4 dimmedEvent).run
        (World.start { currentState := 3 } 0) =
      (externalEvent lamp ⟨0, .event dimmedEvent⟩ (fun _ => ret ()) 4 0 none).run
        (World.start { currentState := 3 } 0) := by
  have hnearest : dimmedEvent.nearest (ancestors lamp lampRows 3) = 0 := rfl
  have hresolves := @propagation_resolves Nat Nat lamp lampRows dimmedEvent
    ⟨0, .event dimmedEvent⟩ (fun _ => ret ()) 4 (World.start { currentState := 3 } 0) rfl
    lamp_grounded.acyclic rfl rfl (by decide) (by decide)
  rw [hresolves.2.2.1]
  exact congrArg (fun t => (externalEvent lamp _ _ 4 t none).run _) hnearest

end ActiveFsm
