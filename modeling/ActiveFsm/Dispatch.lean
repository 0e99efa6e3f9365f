import ActiveFsm.Slot

/-!
# ActiveFsm.Dispatch

The dispatches of a run: the iterations of the engine's loop, over all the
external events of the run.  What holds of every dispatch holds of every event
that is dequeued.
-/

namespace ActiveFsm

open Proc

variable {σ δ : Type}

/-! ## The dispatches -/

section Dispatches

variable (M : Machine σ δ)

/-- One iteration of the engine that `StateEngine()` chooses. -/
def dispatch (self : Frame δ) (nested : Call δ → Fsm σ δ Unit) : Fsm σ δ Unit :=
  match M.maps with
  | .flat (some rows) _ => dispatchPlain M self nested rows
  | .flat none (some rows) => dispatchEx M self nested rows
  | .flat none none => halt (.fault .stateMap)
  | .hsm (some rows) => dispatchHSM M self nested rows
  | .hsm none => halt (.fault .stateMap)

/-- The dispatches of a call made in `w`: the world each starts from, and its
outcome. -/
def callDispatches (self : Frame δ) :
    Nat → Call δ → World σ δ → List (World σ δ × Except Stop Unit × World σ δ)
  | 0, _, _ => []
  | n + 1, c, w =>
    match c.target M n w.members.currentState with
    | .error _ => []
    | .ok t =>
      if t = eventIgnored ∨ t = cannotHappen then []
      else
        (iterations (fun w => w.members.eventGenerated) (dispatch M self (call M self n)) n
          ((w.note self .start).post self t (c.eventData M w.members.currentState))).map
          fun v => (v, (dispatch M self (call M self n)).run v)

/-- The dispatches of `runCalls`. -/
def runDispatches (thread : ThreadId) (n : Nat) (cs : List (Call δ)) (w : World σ δ) :
    List (World σ δ × Except Stop Unit × World σ δ) :=
  (visits (fun c => call M ⟨thread, c⟩ n c) cs w).flatMap fun p =>
    callDispatches M ⟨thread, p.1⟩ n p.1 p.2

end Dispatches

section Rules

variable {M : Machine σ δ} {self : Frame δ} {nested : Call δ → Fsm σ δ Unit}
  {posts raises : Hook → Prop} {I : World σ δ → Prop} {E : Stop → World σ δ → Prop}
  {w : World σ δ}

/-- The turn of a machine with an extended map. -/
theorem dispatch_ex {rows : List (StateMapRowEx σ δ)} (h : M.maps = .flat none (some rows)) :
    dispatch M self nested = dispatchEx M self nested rows := by
  simp only [dispatch, h]

/-- The turn of a machine with a hierarchical map. -/
theorem dispatch_hsm {rows : List (StateMapRowHSM σ δ)} (h : M.maps = .hsm (some rows)) :
    dispatch M self nested = dispatchHSM M self nested rows := by
  simp only [dispatch, h]

/-- What every action of an engine preserves, a dispatch preserves. -/
theorem dispatch_wp (h : EngineInvariant M self nested posts raises I E)
    (hM : M.Obeys posts raises) (hw : I w) (hgen : w.members.eventGenerated = true) :
    (dispatch M self nested).wp (fun _ => I) E w := by
  unfold dispatch
  split
  · next rows _ hmaps =>
      obtain ⟨hlen, hrows⟩ := hM.plain hmaps
      exact dispatchPlain_wp h hM hlen hrows hw hgen
  · next rows hmaps =>
      obtain ⟨hlen, hrows⟩ := hM.extended hmaps
      have hext : M.maps.IsExtended := by
        rw [hmaps]
        trivial
      exact dispatchEx_wp h hM hext hlen hrows hw hgen
  · exact h.fault hw _ (by simp) (by simp)
  · next rows hmaps =>
      obtain ⟨hlen, hrows⟩ := hM.hierarchical hmaps
      exact dispatchHSM_wp hlen h hM hrows hw hgen
  · exact h.fault hw _ (by simp) (by simp)

/-- Where there is a map, the engine dispatches as long as an event is
pending. -/
theorem stateEngine_loop (hmaps : M.maps.IsExtended ∨ ∃ rows, M.maps = .hsm (some rows)) (n : Nat) :
    stateEngine M self nested n =
      loop .outOfFuel (fun w => w.members.eventGenerated) (dispatch M self nested) n := by
  cases hmaps with
  | inl hext =>
      obtain ⟨rows, hrows⟩ := hext.rows
      rw [stateEngine_ex M self nested n hrows, dispatch_ex hrows]
      rfl
  | inr hhsm =>
      obtain ⟨rows, hrows⟩ := hhsm
      rw [stateEngine_hsm M self nested n hrows, dispatch_hsm hrows]
      rfl

/-- The flag and the data agree throughout a run. -/
theorem slot_invariant :
    RunInvariant self (fun w : World σ δ => w.members.SlotConsistent) fun _ _ => True where
  user _ _ h := h
  halts _ _ _ _ _ := trivial
  data _ h := h.isSome
  consume _ _ _ := rfl
  setCurrentState _ _ h := h
  post w t d _ := slotConsistent_post w t d
  note _ _ _ h := h
  mark _ _ _ h := h

/-- Whatever is called, the slot is consistent afterwards. -/
theorem call_slot (self : Frame δ) (hself : M.RunsOn self.thread) (n : Nat) (c : Call δ)
    (w : World σ δ) (hw : w.members.SlotConsistent) :
    (call M self n c).wp (fun _ w' => w'.members.SlotConsistent) (fun _ _ => True) w :=
  wp_then (call_wp slot_invariant hself n c hw) fun _ _ h => h.1

/-- So it is after each turn. -/
theorem dispatch_slot (self : Frame δ) (hself : M.RunsOn self.thread) (n : Nat) (w : World σ δ)
    (hw : w.members.SlotConsistent) (hgen : w.members.eventGenerated = true) :
    (dispatch M self (call M self n)).wp (fun _ w' => w'.members.SlotConsistent) (fun _ _ => True)
      w :=
  dispatch_wp (slot_invariant.engine M fun c w hw => call_slot self hself n c w hw) (obeys_true M)
    hw hgen

/-- **What a dispatch of a run is**: an iteration of the engine, from a world
with an event pending. -/
theorem mem_runDispatches {thread : ThreadId} (hself : M.RunsOn thread) {n : Nat}
    {cs : List (Call δ)} (hw : w.members.SlotConsistent)
    {p : World σ δ × Except Stop Unit × World σ δ} (hp : p ∈ runDispatches M thread n cs w) :
    p.1.members.SlotConsistent ∧ p.1.members.eventGenerated = true ∧
      ∃ self nested, p.2 = (dispatch M self nested).run p.1 := by
  obtain ⟨q, hq, hp⟩ := List.mem_flatMap.mp hp
  have hstart : q.2.members.SlotConsistent :=
    mem_visits (fun c w hw => call_slot ⟨thread, c⟩ hself n c w hw) cs hw hq
  cases n with
  | zero => simp [callDispatches] at hp
  | succ n =>
      rw [callDispatches] at hp
      split at hp
      · contradiction
      · next t _ =>
          split at hp
          · contradiction
          · obtain ⟨v, hv, rfl⟩ := List.mem_map.mp hp
            obtain ⟨hslot, hgen⟩ := mem_iterations
              (I := fun w : World σ δ => w.members.SlotConsistent)
              (dispatch_slot ⟨thread, q.1⟩ hself n) n
              (slotConsistent_post (q.2.note _ .start) t _) hv
            exact ⟨hslot, hgen, _, _, rfl⟩

end Rules

end ActiveFsm
