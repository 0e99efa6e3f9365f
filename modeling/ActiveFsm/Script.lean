import ActiveFsm.Configuration

/-!
# ActiveFsm.Script

What is seen of a run: callbacks, signals and changes of the current state,
each with the current state at that point.  The script of a transition is what
is to be seen of it: where `FindLCA` and the walks of the hierarchical engine
come to an end they follow it (`changeStateHSM_cases`).
-/

namespace ActiveFsm

open Proc

variable {σ δ : Type}

/-! ## What is seen of a run -/

/-- What happens, and the current state at that point. -/
abbrev Script (δ : Type) := List (Obs δ × UInt8)

def Obs.isPost : Obs δ → Bool
  | .post _ _ => true
  | _ => false

def Obs.isAction : Obs δ → Bool
  | .action _ _ => true
  | _ => false

/-- All that happens, but for the events posted. -/
def World.seen (w : World σ δ) : Script δ :=
  (w.log.filter fun e => !e.obs.isPost).map fun e => (e.obs, e.members.currentState)

section Scripts

variable (M : Machine σ δ)

/-- The row of a state. -/
def Machine.row (s : UInt8) : Option (StateMapRowEx σ δ) := M.maps.rows[s.toNat]?

/-- The innermost state that both `a` and `b` are in. -/
def commonState (rows : List (StateMapRowHSM σ δ)) (a b : UInt8) : Option UInt8 :=
  (activeStates M rows a).find? fun s => decide (s ∈ activeStates M rows b)

/-- The states that are left from `a` to `b`, in this order. -/
def Machine.leaves (a b : UInt8) : List UInt8 :=
  if a = b then []
  else
    match M.maps with
    | .hsm (some rows) =>
        (activeStates M rows a).takeWhile fun s => decide (commonState M rows a b ≠ some s)
    | _ => [a]

/-- The states that are entered from `a` to `b`, in this order. -/
def Machine.enters (a b : UInt8) : List UInt8 :=
  if a = b then []
  else
    match M.maps with
    | .hsm (some rows) =>
        ((activeStates M rows b).takeWhile fun s =>
          decide (commonState M rows a b ≠ some s)).reverse
    | _ => [b]

def guardScript (a t : UInt8) (d : EventPtr δ) : Script δ :=
  ((M.row t).bind fun row => row.guard).toList.map fun _ => (.guard t d, a)

def exitScript (a s : UInt8) : Script δ :=
  (((M.row s).bind fun row => row.exit).toList.map fun _ => (.exit s, a)) ++ [(.onExit s, a)]

def entryScript (t : UInt8) (d : EventPtr δ) (s : UInt8) : Script δ :=
  (((M.row s).bind fun row => row.entry).toList.map fun _ => (.entry s d, t)) ++ [(.onEntry s, t)]

/-- The change of state from `a` to `t`. -/
def moveScript (a t : UInt8) (d : EventPtr δ) : Script δ :=
  (M.leaves a t).flatMap (exitScript M a) ++ [(.setCurrentState t, t)] ++
    (M.enters a t).flatMap (entryScript M t d)

/-- The transition from `a` to `t` with data `d`, up to the state action. -/
def transitionScript (a t : UInt8) (d : EventPtr δ) : Script δ :=
  (.consume t d, a) :: guardScript M a t d ++ moveScript M a t d ++ [(.action t d, t)]

end Scripts

section Silent

variable (M : Machine σ δ) (a t : UInt8) (d : EventPtr δ)

/-- A guard is no action. -/
theorem guardScript_silent : ∀ l ∈ guardScript M a t d, l.1.isAction = false := by
  intro l hl
  obtain ⟨_, -, rfl⟩ := List.mem_map.mp hl
  rfl

/-- Nor is an exit. -/
theorem exitScript_silent (s : UInt8) : ∀ l ∈ exitScript M a s, l.1.isAction = false := by
  intro l hl
  cases List.mem_append.mp hl with
  | inl hexit =>
      obtain ⟨_, -, rfl⟩ := List.mem_map.mp hexit
      rfl
  | inr hsignal =>
      rw [List.mem_singleton.mp hsignal]
      rfl

/-- Nor is an entry. -/
theorem entryScript_silent (s : UInt8) : ∀ l ∈ entryScript M t d s, l.1.isAction = false := by
  intro l hl
  cases List.mem_append.mp hl with
  | inl hentry =>
      obtain ⟨_, -, rfl⟩ := List.mem_map.mp hentry
      rfl
  | inr hsignal =>
      rw [List.mem_singleton.mp hsignal]
      rfl

/-- Nor is a move as a whole. -/
theorem moveScript_silent : ∀ l ∈ moveScript M a t d, l.1.isAction = false := by
  intro l hl
  simp only [moveScript, List.mem_append, List.mem_flatMap, List.mem_singleton] at hl
  obtain (⟨s, -, hs⟩ | rfl) | ⟨s, -, hs⟩ := hl
  · exact exitScript_silent M a s l hs
  · rfl
  · exact entryScript_silent M t d s l hs

/-- What comes before the state action is not one. -/
theorem before_silent :
    ∀ l ∈ (Obs.consume t d, a) :: guardScript M a t d ++ moveScript M a t d,
      l.1.isAction = false := by
  rw [List.forall_mem_append, List.forall_mem_cons]
  exact ⟨⟨rfl, guardScript_silent M a t d⟩, moveScript_silent M a t d⟩

end Silent

/-! ## What the actions add -/

section Seen

variable {self : Frame δ} {w w' : World σ δ}

/-- Posts are not seen, everything else is. -/
theorem seen_snoc {e : Entry δ} (h : w'.log = w.log ++ [e]) :
    w'.seen = w.seen ++ if e.obs.isPost then [] else [(e.obs, e.members.currentState)] := by
  unfold World.seen
  rw [h, List.filter_append, List.map_append]
  cases hpost : e.obs.isPost <;> simp [hpost]

/-- A line that is seen. -/
theorem seen_note {o : Obs δ} (ho : o.isPost = false) :
    (w.note self o).seen = w.seen ++ [(o, w.members.currentState)] := by
  rw [seen_snoc (note_log self w o)]
  simp [ho]

theorem seen_post (t : UInt8) (d : EventPtr δ) : (w.post self t d).seen = w.seen := by
  rw [seen_snoc (post_log self w t d)]
  simp [Obs.isPost]

theorem seen_consume : (w.consume self).seen =
    w.seen ++ [(.consume w.members.newState w.members.pEventData, w.members.currentState)] := by
  rw [seen_snoc (consume_log self w)]
  simp [Obs.isPost]

theorem seen_setCurrentState (s : UInt8) :
    (w.setCurrentState self s).seen = w.seen ++ [(.setCurrentState s, s)] := by
  rw [seen_snoc (setCurrentState_log self w s)]
  simp [Obs.isPost]

end Seen

/-- `lines` have been seen, and the current state is `s`. -/
structure World.Sees (lines : Script δ) (s : UInt8) (w : World σ δ) : Prop where
  current : w.members.currentState = s
  seen : w.seen = lines

/-- No state action has run since `base` was seen. -/
def World.Silent (base : Script δ) (w : World σ δ) : Prop :=
  ∃ lines, w.seen = base ++ lines ∧ ∀ l ∈ lines, l.1.isAction = false

/-- The engine has faulted without running a state action. -/
def Halted (base : Script δ) (e : Stop) (w : World σ δ) : Prop :=
  (∃ site, e = .fault site) ∧ w.Silent base

section Steps

variable {self : Frame δ} {nested : Call δ → Fsm σ δ Unit} {w w' : World σ δ} {s t : UInt8}
  {base lines : Script δ}

/-- One line more is seen. -/
theorem World.Sees.note (self : Frame δ) {o : Obs δ} (h : w.Sees lines s)
    (ho : o.isPost = false) :
    (w.note self o).Sees (lines ++ [(o, s)]) s where
  current := h.current
  seen := by rw [seen_note ho, h.seen, h.current]

/-- The change of state is seen. -/
theorem World.Sees.setCurrentState (self : Frame δ) (h : w.Sees lines s) (t : UInt8) :
    (w.setCurrentState self t).Sees (lines ++ [(.setCurrentState t, t)]) t where
  current := rfl
  seen := by rw [seen_setCurrentState, h.seen]

/-- User code that posts, but raises nothing, is not seen. -/
theorem sees_survives :
    Survives self nested True False (World.Sees lines s)
      fun e (w : World σ δ) => e = .fault .user ∧ w.seen = lines where
  user _ _ h := ⟨h.current, h.seen⟩
  fail _ h := ⟨rfl, h.seen⟩
  post _ _ t d h := ⟨h.current, (seen_post t d).trans h.seen⟩
  raise h := h.elim

/-- Lines that are no actions. -/
theorem World.Silent.append {more : Script δ} (h : w.Silent base) (hseen : w'.seen = w.seen ++ more)
    (hmore : ∀ l ∈ more, l.1.isAction = false) : w'.Silent base := by
  obtain ⟨lines, hlines, hsilent⟩ := h
  refine ⟨lines ++ more, by rw [hseen, hlines, List.append_assoc], ?_⟩
  rw [List.forall_mem_append]
  exact ⟨hsilent, hmore⟩

/-- One such line. -/
theorem World.Silent.note {o : Obs δ} (h : w.Silent base) (hpost : o.isPost = false)
    (haction : o.isAction = false) : (w.note self o).Silent base :=
  h.append (seen_note hpost) (by simpa using haction)

/-- A post. -/
theorem World.Silent.post (h : w.Silent base) (t : UInt8) (d : EventPtr δ) :
    (w.post self t d).Silent base := by
  obtain ⟨lines, hlines, hsilent⟩ := h
  exact ⟨lines, (seen_post t d).trans hlines, hsilent⟩

/-- A change of state. -/
theorem World.Silent.setCurrentState (h : w.Silent base) (t : UInt8) :
    (w.setCurrentState self t).Silent base :=
  h.append (seen_setCurrentState t) (by simp [Obs.isAction])

end Steps

/-! ## The two engines -/

section Extended

variable {M : Machine σ δ} {self : Frame δ} {nested : Call δ → Fsm σ δ Unit} {w : World σ δ}
  {rows : List (StateMapRowEx σ δ)} (hmaps : M.maps = .flat none (some rows))

include hmaps

/-- The row of a state of an extended machine. -/
theorem row_ex (s : UInt8) : M.row s = rows[s.toNat]? := by
  simp [Machine.row, StateMaps.rows, hmaps]

/-- Its move, from one state to another. -/
theorem moveScript_ex {a t : UInt8} {d : EventPtr δ} (hne : a ≠ t) :
    moveScript M a t d = exitScript M a a ++ [(.setCurrentState t, t)] ++ entryScript M t d t := by
  simp [moveScript, Machine.leaves, Machine.enters, hne, hmaps]

end Extended

/-- The first common element of two lists. -/
theorem find?_common {α : Type} [DecidableEq α] {l m : List α} {c : α} (hl : c ∈ l) (hm : c ∈ m)
    (hfirst : ∀ x ∈ l.takeWhile fun x => decide (x ≠ c), x ∉ m) :
    (l.find? fun x => decide (x ∈ m)) = some c := by
  induction l with
  | nil => contradiction
  | cons x l ih =>
      by_cases hx : x = c
      · subst hx
        simp [hm]
      · simp only [List.takeWhile_cons, ne_eq, hx, not_false_eq_true, decide_true, if_true,
          List.forall_mem_cons] at hfirst
        rw [List.find?_cons_of_neg (by simpa using hfirst.1)]
        exact ih ((List.mem_cons.mp hl).resolve_left (Ne.symm hx)) hfirst.2

section Hierarchical

variable {M : Machine σ δ} {rows : List (StateMapRowHSM σ δ)} {a t : UInt8}

/-- The walks up to what `FindLCA` returns are the walks up to the innermost
common state. -/
theorem takeWhile_common {lca : UInt8}
    (hmem : lca ∈ activeStates M rows a ↔ lca ∈ activeStates M rows t)
    (hfirst : ∀ c ∈ (activeStates M rows a).takeWhile fun c => decide (c ≠ lca),
      c ∉ activeStates M rows t) {l : List UInt8}
    (hl : l = activeStates M rows a ∨ l = activeStates M rows t) :
    (l.takeWhile fun c => decide (c ≠ lca)) =
      l.takeWhile fun c => decide (commonState M rows a t ≠ some c) := by
  by_cases hlca : lca ∈ activeStates M rows a
  · have hcommon : commonState M rows a t = some lca :=
      find?_common hlca (hmem.mp hlca) hfirst
    simp only [hcommon, ne_eq, Option.some.injEq, eq_comm]
  · have hall (m : List UInt8) (hm : lca ∉ m) : (m.takeWhile fun c => decide (c ≠ lca)) = m := by
      rw [List.takeWhile_eq_self_iff]
      intro c hc
      exact decide_eq_true fun heq => hm (heq ▸ hc)
    have hcommon : commonState M rows a t = none := by
      rw [hall _ hlca] at hfirst
      rw [commonState, List.find?_eq_none]
      simpa using hfirst
    have hnot : lca ∉ l := by
      cases hl with
      | inl hl => rwa [hl]
      | inr hl => rwa [hl, ← hmem]
    rw [hall l hnot, hcommon, eq_comm, List.takeWhile_eq_self_iff]
    simp

variable (hmaps : M.maps = .hsm (some rows)) (hlen : rows.length = M.maxStates.toNat)
  {self : Frame δ} {nested : Call δ → Fsm σ δ Unit} {d : EventPtr δ}

include hlen

/-- The entry chain is cut short, or goes up to the LCA. -/
theorem collectEntryChain_cases (lca : UInt8) (left : Nat) (s : UInt8) :
    (collectEntryChain M rows lca left s = halt (.fault .entryDepth)) ∨
      collectEntryChain M rows lca left s =
        ret ((Forest.walk (parentLink M rows) left s).takeWhile fun c => decide (c ≠ lca)) := by
  induction left generalizing s with
  | zero =>
      unfold collectEntryChain
      split
      · exact .inl rfl
      · exact .inr rfl
  | succ left ih =>
      unfold collectEntryChain
      cases hs : parentLink M rows s with
      | none =>
          rw [if_neg fun h => parentLink_none hlen hs h.1, Forest.walk_out hs]
          exact .inr rfl
      | some p =>
          obtain ⟨hvalid, row, hrow, rfl⟩ := parentLink_some hs
          rw [Forest.walk_succ left hs]
          by_cases hlca : s = lca
          · simp [hlca]
          · cases ih row.parentState with
            | inl hcut => exact .inl (by simp [hlca, hvalid, rowAt_eq hrow, hcut])
            | inr hrest => exact .inr (by simp [hlca, hvalid, rowAt_eq hrow, hrest])

include hmaps

/-- The change of state, with the walks carried out. -/
theorem changeStateHSM_cases (self : Frame δ) (nested : Call δ → Fsm σ δ Unit)
    (hmax : M.maxStates < propagateToParent) (hne : a ≠ t) (d : EventPtr δ) :
    (∃ site, changeStateHSM M self nested rows a t d = halt (.fault site)) ∨
      changeStateHSM M self nested rows a t d =
        (each (exitState M self nested rows) (M.leaves a t)).bind fun _ =>
          (setCurrentState self t).bind fun _ =>
            (each (enterState M self nested rows d) (M.enters a t)).bind fun _ =>
              isEventPending.bind fun pending => assertTrue .eventPending (!pending) := by
  have hleaves : M.leaves a t = (activeStates M rows a).takeWhile fun s =>
      decide (commonState M rows a t ≠ some s) := by
    simp only [Machine.leaves, hne, if_false, hmaps]
  have henters : M.enters a t = ((activeStates M rows t).takeWhile fun s =>
      decide (commonState M rows a t ≠ some s)).reverse := by
    simp only [Machine.enters, hne, if_false, hmaps]
  rw [hleaves, henters]
  by_cases ha : a < M.maxStates
  · rcases findLCA_cases hlen self nested hmax ha t with ⟨-, hhalt⟩ |
      ⟨lca, hlca, hexit, hentry, hmem, hfirst⟩
    · exact .inl ⟨.lcaDepth, by simp [changeStateHSM, hhalt]⟩
    · rw [← takeWhile_common hmem hfirst (.inl rfl), ← takeWhile_common hmem hfirst (.inr rfl)]
      exact .inr (by simp only [changeStateHSM, bind_eq, hlca, ret_bind, hexit, hentry])
  · -- a current state that is none of the machine's is in no other state
    have hout : activeStates M rows a = [] := by
      apply Forest.walk_out
      simp [parentLink, ha]
    have hlca : findLCA M rows a t = ret noParent := by
      unfold findLCA lcaOuter
      rw [if_neg ha]
    have hexit : exitWalk M self nested rows noParent maxHsmDepth a = ret () := by
      unfold exitWalk
      rw [if_neg fun h => ha h.1]
    have hmem : noParent ∈ activeStates M rows a ↔ noParent ∈ activeStates M rows t := by
      simp [noParent_not_mem hmax]
    have hfirst : ∀ c ∈ (activeStates M rows a).takeWhile fun c => decide (c ≠ noParent),
        c ∉ activeStates M rows t := by
      simp [hout]
    rw [← takeWhile_common hmem hfirst (.inl rfl), ← takeWhile_common hmem hfirst (.inr rfl), hout]
    cases collectEntryChain_cases hlen noParent maxHsmDepth t with
    | inl hcut => exact .inl ⟨.entryDepth, by simp [changeStateHSM, hlca, hexit, hcut]⟩
    | inr hentry =>
        refine .inr ?_
        simp only [changeStateHSM, bind_eq, hlca, ret_bind, hexit, hentry]
        rfl

omit hlen in
/-- The row of a state of a hierarchical machine. -/
theorem row_hsm (s : UInt8) : M.row s = (rows[s.toNat]?).map StateMapRowHSM.toStateMapRowEx := by
  simp [Machine.row, StateMaps.rows, hmaps]

omit hlen in
/-- The states that are left and entered have rows. -/
theorem row_of_leaves {s : UInt8} (hs : s ∈ M.leaves a t ∨ s ∈ M.enters a t) :
    ∃ row, rows[s.toNat]? = some row := by
  have hwalk : ∃ c, s ∈ activeStates M rows c := by
    simp only [Machine.leaves, Machine.enters, hmaps] at hs
    split at hs
    · simp at hs
    · cases hs with
      | inl hs => exact ⟨a, (List.takeWhile_sublist _).subset hs⟩
      | inr hs => exact ⟨t, (List.takeWhile_sublist _).subset (List.mem_reverse.mp hs)⟩
  obtain ⟨c, hc⟩ := hwalk
  obtain ⟨p, hp⟩ := Option.isSome_iff_exists.mp (Forest.isSome_of_mem_walk hc)
  obtain ⟨-, row, hrow, -⟩ := parentLink_some hp
  exact ⟨row, hrow⟩

end Hierarchical

end ActiveFsm
