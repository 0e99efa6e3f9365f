import ActiveFsm.Configuration

/-!
# ActiveFsm.Malformed

State maps of any shape: `ParentState` chains that are cyclic, longer than
`MAX_HSM_DEPTH`, or lead anywhere.  A transition on such a map faults in
`FindLCA`, before anything has happened, or not at all
(`malformed_caught_first`).
-/

namespace ActiveFsm

open Proc Forest

variable {σ δ : Type} {M : Machine σ δ} {rows : List (StateMapRowHSM σ δ)} {self : Frame δ}
  {nested : Call δ → Fsm σ δ Unit}

/-- **Whatever the map**, a transition sets the current state again, or faults
in `FindLCA` and leaves everything as it was, or both walks and the entry chain
stay within the map and within `MAX_HSM_DEPTH`. -/
theorem malformed_caught_first (hmaps : M.maps = .hsm (some rows))
    (hmax : M.maxStates < propagateToParent) {newState : UInt8} {row : StateMapRowHSM σ δ}
    {pData : EventPtr δ} {w : World σ δ} (hcurrent : w.members.currentState < M.maxStates) :
    (newState = w.members.currentState ∧
      moveHSM M self nested rows w.members.currentState newState pData =
        setCurrentState self newState) ∨
    (newState ≠ w.members.currentState ∧
      findLCA M rows w.members.currentState newState = halt (.fault .lcaDepth) ∧
      (transitionHSM M self nested rows newState row pData).run w =
        (.error (.fault .lcaDepth), w)) ∨
    (newState ≠ w.members.currentState ∧ ∃ lca exits entries,
      findLCA M rows w.members.currentState newState = ret lca ∧
      exitWalk M self nested rows lca maxHsmDepth w.members.currentState =
        each (exitState M self nested rows) exits ∧
      collectEntryChain M rows lca maxHsmDepth newState = ret entries ∧
      exits.length ≤ maxHsmDepth ∧ entries.length ≤ maxHsmDepth ∧
      (∀ s ∈ exits ++ entries, s < M.maxStates) ∧
      moveHSM M self nested rows w.members.currentState newState pData =
        (each (exitState M self nested rows) exits).bind fun _ =>
          (setCurrentState self newState).bind fun _ =>
            (each (enterState M self nested rows pData) entries.reverse).bind fun _ =>
              isEventPending.bind fun pending => assertTrue .eventPending (!pending)) := by
  have hlen : rows.length = M.maxStates.toNat := by
    have hsize := M.maps_size
    rw [hmaps] at hsize
    exact hsize rows rfl
  have hvalid {a s lca : UInt8}
      (hs : s ∈ (activeStates M rows a).takeWhile fun c => decide (c ≠ lca)) : s < M.maxStates := by
    have hmem : s ∈ activeStates M rows a := (List.takeWhile_sublist _).subset hs
    obtain ⟨p, hp⟩ := Option.isSome_iff_exists.mp (isSome_of_mem_walk hmem)
    exact (parentLink_some hp).1
  have hshort (a lca : UInt8) :
      ((activeStates M rows a).takeWhile fun c => decide (c ≠ lca)).length ≤ maxHsmDepth :=
    Nat.le_trans (List.takeWhile_sublist _).length_le (length_walk_le maxHsmDepth a)
  by_cases hnew : newState = w.members.currentState
  · refine .inl ⟨hnew, ?_⟩
    rw [moveHSM, if_neg (not_not_intro hnew)]
  · refine .inr ?_
    rcases findLCA_cases hlen self nested hmax hcurrent newState with ⟨-, hhalt⟩ |
      ⟨lca, hlca, hexit, hentry, -, -⟩
    · refine .inl ⟨hnew, hhalt, ?_⟩
      simp only [transitionHSM, moveHSM, if_pos hnew, changeStateHSM, bind_eq, run_getCurrentState,
        hhalt, halt_bind]
      rfl
    · refine .inr ⟨hnew, lca, _, _, hlca, hexit, hentry, hshort _ lca, hshort _ lca, ?_, ?_⟩
      · intro s hs
        exact (List.mem_append.mp hs).elim hvalid hvalid
      · simp only [moveHSM, if_pos hnew, changeStateHSM, bind_eq, hlca, ret_bind, hexit, hentry]

/-- Two states, each its own parent. -/
def loopRows : List (StateMapRowHSM Unit Unit) :=
  [{ state := some fun _ => .ret (), exit := some (.ret ()), parentState := 0 },
    { state := some fun _ => .ret (), entry := some fun _ => .ret (), parentState := 1 }]

def loops : Machine Unit Unit where
  maxStates := 2
  maps := .hsm (some loopRows)
  maps_size := by simp [StateMaps.HasSize, loopRows]

/-- From one to the other: no exit action runs. -/
theorem malformed_caught_first_loops :
    (transitionHSM loops ⟨0, .externalEvent 1 none⟩ (fun _ => ret ()) loopRows 1 loopRows[1]
        (some .noEventData)).run (World.start { currentState := 0 } ()) =
      (.error (.fault .lcaDepth), World.start { currentState := 0 } ()) := by
  have hlca : findLCA loops loopRows 0 1 = halt (.fault .lcaDepth) := rfl
  rcases @malformed_caught_first Unit Unit loops loopRows ⟨0, .externalEvent 1 none⟩
    (fun _ => ret ()) rfl (by decide) 1 loopRows[1] (some .noEventData)
    (World.start { currentState := 0 } ()) (by decide) with
    ⟨hsame, -⟩ | ⟨-, -, hrun⟩ | ⟨-, lca, _, _, hret, -⟩
  · simp [World.start] at hsame
  · exact hrun
  · exact absurd (hlca.symm.trans hret) (by simp)

end ActiveFsm
