import ActiveFsm.Dispatch
import ActiveFsm.Script

/-!
# ActiveFsm.Detect

Events raised while a state is left and another entered.  The extended flat and
the hierarchical engine look at the pending flag once, after the last entry.
As long as every event of the phase was raised with `InternalEvent`, the last
of them is still pending then: the engine faults, and no engine has done
anything in the meantime but the phase itself (`raised_detected`).  An external
event that is raised in the phase and not ignored runs an engine of its own on
the spot, which dispatches all there is to dispatch and clears the flag.

The log of a run is the log of many engines, one nested in the other.
`levels` tells them apart.
-/

namespace ActiveFsm

open Proc

variable {σ δ : Type}

/-! ## The engines on the stack -/

/-- The two ways to raise an event on the machine's thread. -/
inductive Route where
  | internal
  | external
  deriving DecidableEq, Repr

/-- What is known of one engine: whether it is between leaving a state and
running the action of the next, and how the events of that phase were
raised. -/
structure Level where
  moving : Bool := false
  raised : List Route := []
  deriving DecidableEq, Repr

def Level.raise (route : Route) (l : Level) : Level :=
  if l.moving then { l with raised := l.raised ++ [route] } else l

/-- What a line tells about the engine that wrote it. -/
def Level.read (o : Obs δ) (l : Level) : Level :=
  match o with
  | .consume _ _ | .action _ _ => {}
  | .exit _ | .entry _ _ | .onExit _ | .onEntry _ => { l with moving := true }
  | .post _ _ => l.raise .internal
  | _ => l

/-- Events have been raised in the phase, all of them with `InternalEvent`. -/
structure Level.Alerted (l : Level) : Prop where
  moving : l.moving = true
  raised : l.raised ≠ []
  internal : .external ∉ l.raised

/-- In the phase, if there is one, an external event has been raised. -/
def Level.Sealed (l : Level) : Prop := l.moving = true → .external ∈ l.raised

/-- A call whose event is ignored when the current state is `s`. -/
def Call.isIgnored (M : Machine σ δ) (n : Nat) (s : UInt8) (c : Call δ) : Bool :=
  match c.target M n s with
  | .ok t => decide (t = eventIgnored)
  | .error _ => false

section Levels

variable (M : Machine σ δ) (n : Nat)

/-- The innermost engine comes first.  An external event that is not ignored
starts an engine of its own, if its lookup does not fail. -/
def readLevels (levels : List Level) (e : Entry δ) : List Level :=
  match e.obs with
  | .start => {} :: levels
  | .finish => levels.tail
  | .raise c =>
      if c.isIgnored M n e.members.currentState then levels
      else levels.modifyHead (Level.raise .external)
  | o => levels.modifyHead (Level.read o)

/-- The engines on the stack at the end of a log. -/
def levels (log : List (Entry δ)) : List Level := log.foldl (readLevels M n) []

/-- The innermost engine. -/
def innermost (log : List (Entry δ)) : Level := (levels M n log).headD {}

/-- The lines an engine writes outside of the exit and entry of states. -/
def Obs.IsOutside : Obs δ → Prop
  | .guard _ _ | .consume _ _ | .action _ _ | .onTransition _ _ | .finish => True
  | _ => False

/-- While a phase is alerted, no engine writes a line outside of its phase; and
a phase ends with a state action. -/
def Detected (log : List (Entry δ)) : Prop :=
  ∀ before e, before ++ [e] <+: log → e.obs.IsOutside →
    (∀ l ∈ levels M n before, ¬l.Alerted) ∧
      ((innermost M n before).moving = true → ∃ s d, e.obs = .action s d)

end Levels

section Levels

/-- A sealed phase does not ask for a halt. -/
theorem Level.Sealed.not_alerted {l : Level} (h : l.Sealed) : ¬l.Alerted := fun halerted =>
  halerted.internal (h halerted.moving)

/-- It stays sealed, whatever else is raised in it. -/
theorem Level.Sealed.raise {l : Level} (h : l.Sealed) (route : Route) : (l.raise route).Sealed := by
  unfold Level.raise
  split
  · exact fun hmoving => List.mem_append_left _ (h hmoving)
  · exact h

/-- An external event seals its phase. -/
theorem Level.sealed_raise (l : Level) : (l.raise .external).Sealed := by
  unfold Level.raise
  split
  · exact fun _ => List.mem_append_right _ List.mem_cons_self
  · next hstill => exact fun hmoving => absurd hmoving hstill

/-- Raising concerns the innermost phase only. -/
theorem Level.sealed_modifyHead {ls : List Level} (h : ∀ l ∈ ls, l.Sealed) (route : Route) :
    ∀ l ∈ ls.modifyHead (Level.raise route), l.Sealed := by
  cases ls with
  | nil => exact h
  | cons l ls =>
      rw [List.forall_mem_cons] at h
      rw [List.modifyHead_cons, List.forall_mem_cons]
      exact ⟨h.1.raise route, h.2⟩

theorem Level.sealed_empty : ({} : Level).Sealed := fun h => nomatch h

/-- Nothing is known of the events raised in an engine that is not moving. -/
theorem Level.raise_still {route : Route} {l : Level} (h : l.moving = false → l.raised = []) :
    (l.raise route).moving = false → (l.raise route).raised = [] := by
  unfold Level.raise
  split
  · next hmoving => simp [hmoving]
  · exact h

variable {M : Machine σ δ} {n : Nat} {log : List (Entry δ)} {e : Entry δ}

/-- The phases after one line more. -/
@[simp] theorem levels_snoc : levels M n (log ++ [e]) = readLevels M n (levels M n log) e := by
  simp [levels, List.foldl_append]

/-- A line before which no phase had asked for a halt. -/
theorem Detected.snoc (h : Detected M n log)
    (he : e.obs.IsOutside → (∀ l ∈ levels M n log, ¬l.Alerted) ∧
      ((innermost M n log).moving = true → ∃ s d, e.obs = .action s d)) :
    Detected M n (log ++ [e]) := by
  intro before e' hprefix hout
  rw [List.prefix_concat_iff] at hprefix
  cases hprefix with
  | inl heq =>
      obtain ⟨rfl, rfl⟩ := List.append_singleton_inj.mp heq
      exact he hout
  | inr hold => exact h before e' hold hout

/-- A raise that is not ignored counts for the engine that raised it. -/
theorem readLevels_raise {ls : List Level} {thread : ThreadId} {c : Call δ} {m : Members δ} :
    readLevels M n ls ⟨thread, .raise c, m⟩ =
      if c.isIgnored M n m.currentState then ls else ls.modifyHead (Level.raise .external) := rfl

end Levels

/-! ## Where an engine is -/

section Worlds

variable (M : Machine σ δ) (n : Nat)

/-- Every phase that is over was checked, and the engines that wait for a
nested one are not in an alerted phase. -/
structure World.Watched (w : World σ δ) : Prop where
  slot : w.members.SlotConsistent
  detected : Detected M n w.log
  outer : ∀ l ∈ (levels M n w.log).tail, l.Sealed

/-- The innermost engine is outside the exit and entry of states. -/
structure World.Outside (rest : List Level) (w : World σ δ) : Prop extends w.Watched M n where
  levels_eq : levels M n w.log = {} :: rest

/-- The innermost engine leaves and enters states.  In an alerted phase an event
is pending. -/
structure World.Inside (rest : List Level) (w : World σ δ) : Prop extends w.Watched M n where
  level : ∃ l, levels M n w.log = l :: rest ∧ (l.moving = false → l.raised = []) ∧
    (l.Alerted → w.members.eventGenerated = true)

/-- The state action of the target may run. -/
structure World.Ready (rest : List Level) (w : World σ δ) : Prop extends w.Watched M n where
  level : ∃ l, levels M n w.log = l :: rest ∧ ¬l.Alerted

/-- No engine is in an alerted phase, nor can it get there by raising more. -/
def World.AllSealed (w : World σ δ) : Prop := ∀ l ∈ levels M n w.log, l.Sealed

/-- The run has halted: in an alerted phase only where the engine detects the
events, user code fails an assertion of its own, or the model runs out of
fuel. -/
structure World.Stopped (e : Stop) (w : World σ δ) : Prop where
  detected : Detected M n w.log
  cause : (∃ l ∈ levels M n w.log, l.Alerted) →
    e = .fault .eventPending ∨ e = .fault .user ∨ e = .outOfFuel

/-- What a nested call comes to: the engines on the stack are as they were, and
so is the flag, unless the call was one that seals. -/
def Restored (before after : World σ δ) : Prop :=
  after.Watched M n ∧ levels M n after.log = levels M n before.log ∧
    (after.members.eventGenerated = before.members.eventGenerated ∨ before.AllSealed M n)

end Worlds

section Steps

variable {M : Machine σ δ} {n : Nat} {self : Frame δ} {w w' : World σ δ} {e : Entry δ}
  {rest : List Level}

/-- A line that belongs to the innermost phase. -/
theorem World.Watched.snoc (h : w.Watched M n) (hslot : w'.members.SlotConsistent)
    (hlog : w'.log = w.log ++ [e]) (he : ¬e.obs.IsOutside)
    (htail : (readLevels M n (levels M n w.log) e).tail = (levels M n w.log).tail) :
    w'.Watched M n where
  slot := hslot
  detected := by
    rw [hlog]
    exact h.detected.snoc fun hout => absurd hout he
  outer := by
    rw [hlog, levels_snoc, htail]
    exact h.outer

/-- An event that is posted. -/
theorem World.Watched.post (h : w.Watched M n) (t : UInt8) (d : EventPtr δ) :
    (w.post self t d).Watched M n :=
  h.snoc (slotConsistent_post w t d) (post_log self w t d) id (List.tail_modifyHead ..)

/-- A call that is raised. -/
theorem World.Watched.raise (h : w.Watched M n) (c : Call δ) :
    (w.note self (.raise c)).Watched M n := by
  refine h.snoc h.slot (note_log self w _) id ?_
  rw [readLevels_raise]
  split
  · rfl
  · exact List.tail_modifyHead ..

/-- Nothing in a world of sealed phases asks for a halt of its own. -/
theorem World.Stopped.of_not_alerted {e : Stop} (hdetected : Detected M n w.log)
    (h : ∀ l ∈ levels M n w.log, ¬l.Alerted) : w.Stopped M n e :=
  ⟨hdetected, fun ⟨l, hl, halerted⟩ => absurd halerted (h l hl)⟩

/-- Outside of a phase the others are sealed. -/
theorem World.Outside.allSealed (h : w.Outside M n rest) : w.AllSealed M n := by
  have houter := h.outer
  unfold World.AllSealed
  rw [h.levels_eq, List.forall_mem_cons] at *
  exact ⟨Level.sealed_empty, houter⟩

/-- So the machine may stop there. -/
theorem World.AllSealed.stopped {e : Stop} (h : w.AllSealed M n) (hw : w.Watched M n) :
    w.Stopped M n e := .of_not_alerted hw.detected fun l hl => (h l hl).not_alerted

/-- It may stop outside of a phase. -/
theorem World.Outside.stopped {e : Stop} (h : w.Outside M n rest) : w.Stopped M n e :=
  h.allSealed.stopped h.toWatched

/-- Where nothing has been raised yet. -/
theorem World.Outside.innermost_eq (h : w.Outside M n rest) : innermost M n w.log = {} := by
  rw [innermost, h.levels_eq]
  rfl

/-- Outside, only an exit or an entry changes where the engine is. -/
theorem World.Outside.snoc (h : w.Outside M n rest) (hslot : w'.members.SlotConsistent)
    (hlog : w'.log = w.log ++ [e]) (he : readLevels M n ({} :: rest) e = {} :: rest) :
    w'.Outside M n rest := by
  have hlevels : levels M n w'.log = levels M n w.log := by
    rw [hlog, levels_snoc, h.levels_eq, he]
  refine { slot := hslot, detected := ?_, outer := ?_, levels_eq := hlevels.trans h.levels_eq }
  · rw [hlog]
    refine h.detected.snoc fun _ => ⟨fun l hl => (h.allSealed l hl).not_alerted, fun hmoving => ?_⟩
    rw [h.innermost_eq] at hmoving
    contradiction
  · rw [hlevels]
    exact h.outer

/-- Before anything has been left or entered. -/
theorem World.Outside.inside (h : w.Outside M n rest) : w.Inside M n rest :=
  { h.toWatched with
    level := ⟨{}, h.levels_eq, fun _ => rfl, fun halerted => nomatch halerted.moving⟩ }

/-- A line inside of the phase. -/
theorem World.Inside.note {o : Obs δ} (h : w.Inside M n rest) (ho : o.IsMove) :
    (w.note self o).Inside M n rest := by
  obtain ⟨l, hlevels, hstill, hpending⟩ := h.level
  have hnot : ¬o.IsOutside := by
    cases o <;> simp_all [Obs.IsMove, Obs.IsOutside]
  have hread (l : Level) : readLevels M n (l :: rest) ⟨self.thread, o, w.members⟩ =
      { l with moving := true } :: rest := by
    cases o <;> simp_all [Obs.IsMove, readLevels, Level.read]
  have hwatched : (w.note self o).Watched M n := by
    refine h.toWatched.snoc h.slot (note_log self w o) hnot ?_
    rw [hlevels, hread]
    rfl
  refine { hwatched with level := ⟨{ l with moving := true }, ?_, by simp, fun halerted => ?_⟩ }
  · rw [note_log, levels_snoc, hlevels, hread]
  · -- what was raised was raised in this phase
    have hmoving : l.moving = true := by
      by_contra hnot
      exact halerted.raised (hstill (by simpa using hnot))
    exact hpending ⟨hmoving, halerted.raised, halerted.internal⟩

/-- An event that is posted inside of the phase. -/
theorem World.Inside.post (h : w.Inside M n rest) (t : UInt8) (d : EventPtr δ) :
    (w.post self t d).Inside M n rest := by
  obtain ⟨l, hlevels, hstill, -⟩ := h.level
  refine { h.toWatched.post t d with level := ?_ }
  refine ⟨l.raise .internal, ?_, Level.raise_still hstill, fun _ => rfl⟩
  rw [post_log, levels_snoc, hlevels]
  rfl

/-- The current state changes inside of the phase. -/
theorem World.Inside.setCurrentState (h : w.Inside M n rest) (s : UInt8) :
    (w.setCurrentState self s).Inside M n rest := by
  obtain ⟨l, hlevels, hstill, hpending⟩ := h.level
  have hwatched : (w.setCurrentState self s).Watched M n :=
    h.toWatched.snoc h.slot (setCurrentState_log self w s) id (List.tail_modifyHead ..)
  refine { hwatched with level := ⟨l, ?_, hstill, hpending⟩ }
  rw [setCurrentState_log, levels_snoc, hlevels]
  rfl

/-- The engine detects what has been raised. -/
theorem World.Inside.stopped (h : w.Inside M n rest) {e : Stop}
    (he : e = .fault .eventPending ∨ e = .fault .user ∨ e = .outOfFuel) : w.Stopped M n e :=
  ⟨h.detected, fun _ => he⟩

/-- The engine returns. -/
theorem World.Outside.finish (h : w.Outside M n rest) :
    (w.note self .finish).Watched M n ∧ levels M n (w.note self .finish).log = rest := by
  have hlevels : levels M n (w.note self .finish).log = rest := by
    rw [note_log, levels_snoc, h.levels_eq]
    rfl
  refine ⟨{ slot := h.slot, detected := ?_, outer := ?_ }, hlevels⟩
  · rw [note_log]
    refine h.detected.snoc fun _ => ⟨fun l hl => (h.allSealed l hl).not_alerted, fun hmoving => ?_⟩
    rw [h.innermost_eq] at hmoving
    contradiction
  · have houter := h.outer
    rw [h.levels_eq] at houter
    rw [hlevels]
    exact fun l hl => houter l (List.mem_of_mem_tail hl)

/-- The check has found nothing pending, so nothing asks for a halt. -/
theorem World.Inside.ready (h : w.Inside M n rest) (hgen : w.members.eventGenerated = false) :
    w.Ready M n rest := by
  obtain ⟨l, hlevels, -, hpending⟩ := h.level
  refine { h.toWatched with level := ⟨l, hlevels, fun halerted => ?_⟩ }
  rw [hpending halerted] at hgen
  contradiction

/-- A turn without a change of state has no phase. -/
theorem World.Outside.ready (h : w.Outside M n rest) : w.Ready M n rest :=
  { h.toWatched with level := ⟨{}, h.levels_eq, Level.sealed_empty.not_alerted⟩ }

/-- The current state changes without a phase. -/
theorem World.Outside.setCurrentState (h : w.Outside M n rest) (s : UInt8) :
    (w.setCurrentState self s).Outside M n rest :=
  h.snoc h.slot (setCurrentState_log self w s) rfl

/-- No phase asks for a halt before the action. -/
theorem World.Ready.not_alerted (h : w.Ready M n rest) : ∀ l ∈ levels M n w.log, ¬l.Alerted := by
  obtain ⟨l, hlevels, hl⟩ := h.level
  have houter := h.outer
  rw [hlevels] at houter ⊢
  rw [List.forall_mem_cons]
  exact ⟨hl, fun l' hl' => (houter l' hl').not_alerted⟩

/-- The action ends the phase. -/
theorem World.Ready.action (h : w.Ready M n rest) {s : UInt8} {d : EventPtr δ} :
    (w.note self (.action s d)).Outside M n rest := by
  obtain ⟨l, hlevels, -⟩ := h.level
  have hread : levels M n (w.note self (.action s d)).log = {} :: rest := by
    rw [note_log, levels_snoc, hlevels]
    rfl
  have houter := h.outer
  rw [hlevels] at houter
  refine { slot := h.slot, detected := ?_, outer := ?_, levels_eq := hread }
  · rw [note_log]
    exact h.detected.snoc fun _ => ⟨h.not_alerted, fun _ => ⟨s, d, rfl⟩⟩
  · rw [hread]
    exact houter

end Steps

/-! ## User code -/

/-- What a nested call is asked to keep: it is ignored, or all phases are
sealed. -/
def Restores (M : Machine σ δ) (n : Nat) (nested : Call δ → Fsm σ δ Unit) : Prop :=
  ∀ (c : Call δ) w, World.Watched M n w →
    (World.AllSealed M n w ∨ c.isIgnored M n w.members.currentState = true) →
    (nested c).wp (fun _ => Restored M n w) (World.Stopped M n) w

section UserCode

variable {M : Machine σ δ} {n : Nat} {self : Frame δ} {nested : Call δ → Fsm σ δ Unit}
  {rest : List Level} (hnested : Restores M n nested)

include hnested

/-- Where all phases are sealed they remain so. -/
theorem sealed_survives :
    Survives self nested True True (fun w => World.Watched M n w ∧ w.AllSealed M n)
      (World.Stopped M n) where
  user _ _ h := ⟨⟨h.1.slot, h.1.detected, h.1.outer⟩, h.2⟩
  fail _ h := h.2.stopped h.1
  post _ w t d h := by
    refine ⟨h.1.post t d, ?_⟩
    unfold World.AllSealed
    rw [post_log, levels_snoc]
    exact Level.sealed_modifyHead h.2 .internal
  raise _ w c h := by
    have hsealed : (w.note self (.raise c)).AllSealed M n := by
      unfold World.AllSealed
      rw [note_log, levels_snoc, readLevels_raise]
      split
      · exact h.2
      · exact Level.sealed_modifyHead h.2 .external
    refine wp_then (hnested c _ (h.1.raise c) (.inl hsealed)) fun _ w' ⟨hw', hlevels, _⟩ => ?_
    refine ⟨hw', ?_⟩
    unfold World.AllSealed
    rw [hlevels]
    exact hsealed

/-- User code outside of a phase. -/
theorem outside_survives :
    Survives self nested True True (World.Outside M n rest) (World.Stopped M n) where
  user _ _ h := { h with }
  fail _ h := h.stopped
  post _ w t d h := h.snoc (slotConsistent_post w t d) (post_log self w t d) rfl
  raise _ w c h := by
    have hraise : (w.note self (.raise c)).Outside M n rest := by
      refine h.snoc h.slot (note_log self w _) ?_
      rw [readLevels_raise]
      split <;> rfl
    refine wp_then (hnested c _ hraise.toWatched (.inl hraise.allSealed))
      fun _ w' ⟨hw', hlevels, _⟩ => ?_
    exact { hw' with levels_eq := hlevels.trans hraise.levels_eq }

/-- User code inside of a phase. -/
theorem inside_survives :
    Survives self nested True True (World.Inside M n rest) (World.Stopped M n) where
  user _ _ h := { h with }
  fail _ h := h.stopped (.inr (.inl rfl))
  post _ _ t d h := h.post t d
  raise _ w c h := by
    obtain ⟨l, hl, hstill, hpending⟩ := h.level
    have hraise : (w.note self (.raise c)).Watched M n := h.toWatched.raise c
    have hlevels : levels M n (w.note self (.raise c)).log =
        if c.isIgnored M n w.members.currentState then l :: rest
        else l.raise .external :: rest := by
      rw [note_log, levels_snoc, readLevels_raise, hl]
      rfl
    have hcurrent : (w.note self (.raise c)).members.currentState = w.members.currentState := rfl
    cases hignored : c.isIgnored M n w.members.currentState with
    | true =>
        simp only [hignored, if_true] at hlevels
        refine wp_then (hnested c _ hraise (.inr hignored)) fun _ w' ⟨hw', hsame, hgen⟩ => ?_
        refine { hw' with level := ⟨l, hsame.trans hlevels, hstill, fun halerted => ?_⟩ }
        cases hgen with
        | inl hgen => exact hgen.trans (hpending halerted)
        | inr hsealed =>
            exact absurd halerted
              (hsealed l (by rw [hlevels]; exact List.mem_cons_self)).not_alerted
    | false =>
        simp only [hignored, Bool.false_eq_true, if_false] at hlevels
        have hsealed : (w.note self (.raise c)).AllSealed M n := by
          have houter := h.outer
          rw [hl] at houter
          unfold World.AllSealed
          rw [hlevels, List.forall_mem_cons]
          exact ⟨Level.sealed_raise l, houter⟩
        refine wp_then (hnested c _ hraise (.inl hsealed)) fun _ w' ⟨hw', hsame, _⟩ => ?_
        exact { hw' with
          level := ⟨l.raise .external, hsame.trans hlevels, Level.raise_still hstill,
            fun halerted => absurd halerted (Level.sealed_raise l).not_alerted⟩ }

/-! ## One dispatch -/

/-- The exits, the entries and their subscribers. -/
theorem inside_moves :
    MoveHooks self nested (fun _ => True) (fun _ => True) (World.Inside M n rest)
      (World.Stopped M n) where
  survives _ _ := inside_survives hnested
  note _ _ ho h := h.note ho

variable {row : StateMapRowEx σ δ} {w : World σ δ}

/-- The guard comes before the phase. -/
theorem evalGuard_outside {t : UInt8} {d : EventPtr δ} (hd : d.isSome = true)
    (hw : w.Outside M n rest) :
    (evalGuard self nested t row.guard d).wp (fun _ => World.Outside M n rest)
      (World.Stopped M n) w :=
  evalGuard_wp (outside_survives hnested) (fun _ _ => only_true _) hd hw (fun _ _ h => h)
    (hw.snoc hw.slot (note_log self w _) rfl)

/-- The action and `OnTransition` come after it. -/
theorem finish_outside {s t : UInt8} {d : EventPtr δ} (hw : w.Ready M n rest) :
    ((runState self nested t row.state d).bind fun _ =>
      getCurrentState.bind fun c => onTransition M self nested s c).wp
      (fun _ => World.Outside M n rest) (World.Stopped M n) w := by
  rw [wp_bind]
  refine wp_then (runState_wp (outside_survives hnested) (fun _ _ => only_true _)
    (.of_not_alerted hw.detected hw.not_alerted) hw.action) fun _ w₁ hw₁ => ?_
  rw [wp_bind, wp_getCurrentState]
  exact onTransition_wp (outside_survives hnested) (only_true _)
    (hw₁.snoc hw₁.slot (note_log self w₁ _) rfl)

/-- A turn of the extended engine. -/
theorem dispatchEx_outside {rows : List (StateMapRowEx σ δ)}
    (hmaps : M.maps = .flat none (some rows)) (hgen : w.members.eventGenerated = true)
    (hw : w.Outside M n rest) :
    (dispatchEx M self nested rows).wp (fun _ => World.Outside M n rest) (World.Stopped M n) w := by
  obtain ⟨-, hrows⟩ := (obeys_true M).extended hmaps
  have hd : w.members.pEventData.isSome = true := hw.slot.isSome hgen
  have hconsume : (w.consume self).Outside M n rest := hw.snoc rfl (consume_log self w) rfl
  simp only [dispatchEx, bind_eq, wp_bind, wp_getNewState, wp_getCurrentState, wp_consumeEvent]
  refine wp_assertTrue (fun _ => ?_) fun _ => hw.stopped
  refine wp_rowAt (fun row hrow => ?_) fun _ => hw.stopped
  refine wp_rowAt (fun current hcurrent => ?_) fun _ => hw.stopped
  refine wp_then (evalGuard_outside hnested hd hconsume) fun g w₁ hw₁ => ?_
  cases g with
  | false => exact hw₁
  | true =>
      simp only [transitionEx, moveEx, bind_eq, wp_bind, wp_getNewState, wp_getCurrentState,
        if_true]
      refine wp_then (Q := fun _ => World.Ready M n rest) ?_ fun _ w₂ hw₂ => ?_
      · split
        · exact wp_then (changeStateEx_wp (inside_moves hnested) (fun _ s h => h.setCurrentState s)
            (fun _ h => h.stopped (.inl rfl)) (obeys_true M)
            (hrows row (List.mem_of_getElem? hrow)) (hrows current (List.mem_of_getElem? hcurrent))
            hd hw₁.inside) fun _ _ h => h.1.ready h.2
        · exact (hw₁.setCurrentState _).ready
      · simpa only [wp_bind, wp_getCurrentState] using finish_outside hnested hw₂

/-- The walks fault before anything has been left; then the states are left and
entered. -/
theorem changeStateHSM_inside {rows : List (StateMapRowHSM σ δ)}
    (hmaps : M.maps = .hsm (some rows)) (hmax : M.maxStates < propagateToParent) {a t : UInt8}
    (hne : a ≠ t) {d : EventPtr δ} (hd : d.isSome = true) (hw : w.Outside M n rest) :
    (changeStateHSM M self nested rows a t d).wp
      (fun _ w' => w'.Inside M n rest ∧ w'.members.eventGenerated = false)
      (World.Stopped M n) w := by
  obtain ⟨hlen, hrows⟩ := (obeys_true M).hierarchical hmaps
  have hmoves : MoveHooks self nested (fun _ => True) (fun _ => True) (World.Inside M n rest)
      (World.Stopped M n) := inside_moves hnested
  rcases changeStateHSM_cases hmaps hlen self nested hmax hne d with ⟨site, hhalt⟩ | hwalks
  · rw [hhalt]
    exact hw.stopped
  · rw [hwalks]
    simp only [wp_bind, wp_setCurrentState, wp_isEventPending]
    have hexit : ∀ s ∈ M.leaves a t, ∀ w, World.Inside M n rest w →
        (exitState M self nested rows s).wp (fun _ => World.Inside M n rest)
          (World.Stopped M n) w := by
      intro s hs w hw
      obtain ⟨row, hrow⟩ := row_of_leaves hmaps (.inl hs)
      simp only [exitState, bind_eq, rowAt_eq hrow, ret_bind, wp_bind]
      exact wp_then (hmoves.runExit (hrows row (List.mem_of_getElem? hrow)) hw)
        fun _ _ h => hmoves.onExit (obeys_true M) h
    have henter : ∀ s ∈ M.enters a t, ∀ w, World.Inside M n rest w →
        (enterState M self nested rows d s).wp (fun _ => World.Inside M n rest)
          (World.Stopped M n) w := by
      intro s hs w hw
      obtain ⟨row, hrow⟩ := row_of_leaves hmaps (.inr hs)
      simp only [enterState, bind_eq, rowAt_eq hrow, ret_bind, wp_bind]
      exact wp_then (hmoves.runEntry (hrows row (List.mem_of_getElem? hrow)) hd hw)
        fun _ _ h => hmoves.onEntry (obeys_true M) h
    refine wp_then (each_wp _ hexit _ hw.inside) fun _ w₁ hw₁ => ?_
    refine wp_then (each_wp _ henter _ (hw₁.setCurrentState t)) fun _ w₂ hw₂ => ?_
    exact wp_assertTrue (fun hquiet => ⟨hw₂, by simpa using hquiet⟩) fun _ => hw₂.stopped (.inl rfl)

/-- A turn of the hierarchical engine. -/
theorem dispatchHSM_outside {rows : List (StateMapRowHSM σ δ)}
    (hmaps : M.maps = .hsm (some rows)) (hmax : M.maxStates < propagateToParent)
    (hgen : w.members.eventGenerated = true) (hw : w.Outside M n rest) :
    (dispatchHSM M self nested rows).wp (fun _ => World.Outside M n rest)
      (World.Stopped M n) w := by
  have hd : w.members.pEventData.isSome = true := hw.slot.isSome hgen
  have hconsume : (w.consume self).Outside M n rest := hw.snoc rfl (consume_log self w) rfl
  simp only [dispatchHSM, bind_eq, wp_bind, wp_getNewState, wp_consumeEvent]
  refine wp_assertTrue (fun _ => ?_) fun _ => hw.stopped
  refine wp_rowAt (fun row _ => ?_) fun _ => hw.stopped
  refine wp_then (evalGuard_outside hnested hd hconsume) fun g w₁ hw₁ => ?_
  cases g with
  | false => exact hw₁
  | true =>
      simp only [transitionHSM, moveHSM, bind_eq, wp_bind, wp_getCurrentState, if_true]
      refine wp_then (Q := fun _ => World.Ready M n rest) ?_ fun _ w₂ hw₂ => ?_
      · split
        · next hne =>
            exact wp_then (changeStateHSM_inside hnested hmaps hmax (Ne.symm hne) hd hw₁)
              fun _ _ h => h.1.ready h.2
        · exact (hw₁.setCurrentState _).ready
      · simpa only [wp_bind, wp_getCurrentState] using finish_outside hnested hw₂

end UserCode

/-! ## Every run -/

section Runs

variable {M : Machine σ δ} {n : Nat} {rest : List Level}
  (hmaps : M.maps.IsExtended ∨ ∃ rows, M.maps = .hsm (some rows))
  (hmax : ∀ rows, M.maps = .hsm rows → M.maxStates < propagateToParent)

include hmaps hmax

/-- The engine, turn by turn. -/
theorem stateEngine_outside {self : Frame δ} {nested : Call δ → Fsm σ δ Unit}
    (hnested : Restores M n nested) (m : Nat) {w : World σ δ} (hw : w.Outside M n rest) :
    (stateEngine M self nested m).wp (fun _ w' => w'.Outside M n rest) (World.Stopped M n) w := by
  rw [stateEngine_loop hmaps]
  refine wp_then (loop_wp (fun w hw hgen => ?_) (fun _ h => h.stopped) m w hw) fun _ _ h => h.1
  cases hmaps with
  | inl hext =>
      obtain ⟨rows, hrows⟩ := hext.rows
      rw [dispatch_ex hrows]
      exact dispatchEx_outside hnested hrows hgen hw
  | inr hhsm =>
      obtain ⟨rows, hrows⟩ := hhsm
      rw [dispatch_hsm hrows]
      exact dispatchHSM_outside hnested hrows (hmax _ hrows) hgen hw

/-- A call leaves the engines on the stack as they are, whatever is nested in
it. -/
theorem call_restores (self : Frame δ) (hself : M.RunsOn self.thread) (m : Nat) (hm : m ≤ n) :
    Restores M n (call M self m) := by
  induction m with
  | zero => exact fun _ w hw _ => ⟨hw.detected, fun _ => .inr (.inr rfl)⟩
  | succ m ih =>
      intro c w hw hopen
      have ih := ih (by omega)
      -- only a call that is ignored leaves a phase unsealed
      have hsealed {r : Except Stop UInt8} (hr : c.target M m w.members.currentState = r)
          (hfuel : r ≠ .error .outOfFuel) (hnot : r ≠ .ok eventIgnored) : w.AllSealed M n := by
        refine hopen.resolve_right fun hignored => ?_
        subst hr
        have hmono := target_mono (show m ≤ n by omega) hfuel
        rw [← hmono] at hnot
        unfold Call.isIgnored at hignored
        split at hignored
        · next heq =>
            rw [heq, of_decide_eq_true hignored] at hnot
            exact hnot rfl
        · contradiction
      refine call_wp_of hself (fun t ht => ?_) fun e he => ?_
      · by_cases hignored : t = eventIgnored
        · rw [externalEvent, if_pos hignored]
          exact ⟨hw, rfl, .inl rfl⟩
        · have hall := hsealed ht (by simp) (by simpa using hignored)
          refine externalEvent_wp_of hself (fun h => absurd h hignored) ?_ fun _ _ => ?_
          · have hlevels : levels M n (w.note self (.onCannotHappen w.members.currentState)).log =
                levels M n w.log := by
              rw [note_log, levels_snoc]
              cases levels M n w.log <;> rfl
            have hmark : (w.note self (.onCannotHappen w.members.currentState)).Watched M n :=
              hw.snoc hw.slot (note_log self w _) id (List.tail_modifyHead ..)
            refine wp_then (onCannotHappen_wp (sealed_survives ih) (only_true _) ⟨hmark, ?_⟩)
              fun _ _ h => h.2.stopped h.1
            unfold World.AllSealed
            rw [hlevels]
            exact hall
          · have hstart : (w.note self .start).Outside M n (levels M n w.log) :=
              { slot := hw.slot
                detected := hw.detected.snoc fun hout => hout.elim
                outer := by
                  rw [note_log, levels_snoc]
                  exact hall
                levels_eq := by rw [note_log, levels_snoc]; rfl }
            have hpost := hstart.snoc (slotConsistent_post _ t (c.eventData M
              w.members.currentState)) (post_log self (w.note self .start) t _) rfl
            refine wp_then (stateEngine_outside hmaps hmax ih m hpost) fun _ w' hw' => ?_
            exact ⟨hw'.finish.1, hw'.finish.2, .inr hall⟩
      · by_cases hfuel : e = .outOfFuel
        · exact ⟨hw.detected, fun _ => .inr (.inr hfuel)⟩
        · exact (hsealed he (by simpa using hfuel) (by simp)).stopped hw

/-- Between external events no engine is on the stack. -/
theorem runCalls_watched {thread : ThreadId} (hself : M.RunsOn thread) (cs : List (Call δ))
    (w : World σ δ) (hw : w.Watched M n ∧ levels M n w.log = []) :
    (runCalls M thread n cs).wp (fun _ w' => w'.Watched M n ∧ levels M n w'.log = [])
      (World.Stopped M n) w := by
  refine each_wp (I := fun w : World σ δ => w.Watched M n ∧ levels M n w.log = []) cs
    (fun c _ w hw => ?_) w hw
  have hsealed : w.AllSealed M n := by
    unfold World.AllSealed
    rw [hw.2]
    exact List.forall_mem_nil _
  refine wp_then (call_restores hmaps hmax ⟨thread, c⟩ hself n le_rfl c w hw.1 (.inl hsealed))
    fun _ w' ⟨hw', hlevels, _⟩ => ⟨hw', hlevels.trans hw.2⟩

end Runs

/-- Three states; whoever enters the third posts an event. -/
def alerting : Machine Nat Nat where
  maxStates := 3
  maps := .flat none (some [{ state := some fun _ => .ret () }, { state := some fun _ => .ret () },
    { state := some fun _ => .ret (), entry := some fun _ => .internalEvent 0 none (.ret ()) }])
  maps_size := by simp [StateMaps.HasSize]

/-- Two states; whoever enters the second raises an external event for the
first. -/
def bouncingRows : List (StateMapRowEx Nat Nat) :=
  [{ state := some fun _ => .ret () },
    { state := some fun _ => .ret ()
      entry := some fun _ => .call (.externalEvent 0 none) (.ret ()) }]

def bouncing : Machine Nat Nat where
  maxStates := 2
  maps := .flat none (some bouncingRows)
  maps_size := by simp [StateMaps.HasSize, bouncingRows]

/-- The same as a hierarchical machine. -/
def bouncingHSM : Machine Nat Nat where
  maxStates := 2
  maps := .hsm (some (bouncingRows.map fun row => { row with parentState := noParent }))
  maps_size := by simp [StateMaps.HasSize, bouncingRows]

end ActiveFsm
