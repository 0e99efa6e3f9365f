import ActiveFsm.Invariant

/-!
# ActiveFsm.Slot

The pending-event slot: `m_eventGenerated` and `m_pEventData` are written by
`InternalEvent`, cleared where an engine consumes the event, and shared by
all engines that are nested in one another.

The flag and the pointer agree at every point of a run (`slot_consistent`), so
the engines never hand a null pointer to user code, and nothing is retained
once the outermost external event has returned.
-/

namespace ActiveFsm

open Proc

variable {σ δ : Type}

/-! ## The invariant -/

/-- The flag is set exactly when there is data. -/
def Members.SlotConsistent (m : Members δ) : Prop := m.eventGenerated = m.pEventData.isSome

/-- A guard, an entry action or a state action is given data. -/
def Obs.HasData : Obs δ → Prop
  | .guard _ d | .entry _ d | .action _ d => d.isSome = true
  | _ => True

/-- What the slot looked like when a line of the log was written. -/
structure Entry.SlotOk (e : Entry δ) : Prop where
  slot : e.members.SlotConsistent
  data : e.obs.HasData

/-- The slot is consistent, and has been so at every line of the log. -/
structure World.SlotOk (w : World σ δ) : Prop where
  slot : w.members.SlotConsistent
  log : ∀ e ∈ w.log, e.SlotOk

/-- A halt that is neither of the two assertions on the event data. -/
def Stop.NotNullData (e : Stop) : Prop := e ≠ .fault .guardData ∧ e ≠ .fault .entryData

/-! ## Every action keeps it -/

section Actions

variable {self : Frame δ} {w : World σ δ}

/-- What is posted has data. -/
theorem slotConsistent_post (w : World σ δ) (t : UInt8) (d : EventPtr δ) :
    (w.post self t d).members.SlotConsistent := by simp [Members.SlotConsistent]

/-- A pending event has data. -/
theorem Members.SlotConsistent.isSome {m : Members δ} (h : m.SlotConsistent)
    (hgen : m.eventGenerated = true) : m.pEventData.isSome = true := by
  unfold Members.SlotConsistent at h
  rw [← h]
  exact hgen

/-- One more line, written with the members as they are now. -/
theorem slotOk_append {w' : World σ δ} {t : ThreadId} {o : Obs δ} (h : w.SlotOk)
    (hm : w'.members.SlotConsistent) (hlog : w'.log = w.log ++ [⟨t, o, w'.members⟩])
    (ho : o.HasData) : w'.SlotOk := by
  refine ⟨hm, fun e he => ?_⟩
  rw [hlog, List.mem_append] at he
  cases he with
  | inl hold => exact h.log e hold
  | inr hnew =>
      rw [List.mem_singleton] at hnew
      rw [hnew]
      exact ⟨hm, ho⟩

/-- A line whose data is there. -/
theorem slotOk_note {o : Obs δ} (h : w.SlotOk) (ho : o.HasData) : (w.note self o).SlotOk :=
  slotOk_append h h.slot rfl ho

/-- User code is given its data. -/
theorem hasData_of_isHook {o : Obs δ} (ho : o.IsHook) : o.HasData := by
  cases o with
  | guard s d => exact ho
  | entry s d => exact ho
  | action s d => exact ho
  | _ => trivial

/-- The other lines have none to be given. -/
theorem hasData_of_isMark {o : Obs δ} (ho : o.IsMark) : o.HasData := by
  cases o with
  | guard s d => exact ho.elim
  | entry s d => exact ho.elim
  | action s d => exact ho.elim
  | _ => trivial

/-- The consistency of the slot is preserved by every action of a run. -/
theorem slotOk_invariant (self : Frame δ) :
    RunInvariant (σ := σ) self World.SlotOk fun e w => e.NotNullData ∧ w.SlotOk where
  user _ _ h := ⟨h.slot, h.log⟩
  halts _ _ h₁ h₂ h := ⟨⟨h₁, h₂⟩, h⟩
  data _ h := h.slot.isSome
  consume _ h _ := slotOk_append h rfl rfl trivial
  setCurrentState _ _ h := slotOk_append h h.slot rfl trivial
  post w t d h := slotOk_append h (slotConsistent_post w t d) rfl trivial
  note _ _ ho h := slotOk_note h (hasData_of_isHook ho)
  mark _ _ ho h := slotOk_note h (hasData_of_isMark ho)

end Actions

/-! ## The log only grows -/

section Growth

variable {M : Machine σ δ} {self : Frame δ}

/-- No action takes a line of the log back. -/
theorem grows_invariant (log : List (Entry δ)) :
    RunInvariant (σ := σ) self (fun w => w.members.SlotConsistent ∧ log <+: w.log)
      fun _ w => log <+: w.log where
  user _ _ h := h
  halts _ _ _ _ h := h.2
  data _ h := h.1.isSome
  consume _ h _ := ⟨rfl, h.2.trans (List.prefix_append _ _)⟩
  setCurrentState _ _ h := ⟨h.1, h.2.trans (List.prefix_append _ _)⟩
  post w t d h := ⟨slotConsistent_post w t d, h.2.trans (List.prefix_append _ _)⟩
  note _ _ _ h := ⟨h.1, h.2.trans (List.prefix_append _ _)⟩
  mark _ _ _ h := ⟨h.1, h.2.trans (List.prefix_append _ _)⟩

/-- Calls add to the log. -/
theorem call_grows (hself : M.RunsOn self.thread) (n : Nat) (c : Call δ) {w : World σ δ}
    (hw : w.members.SlotConsistent) :
    (call M self n c).wp (fun _ w' => w'.members.SlotConsistent ∧ w.log <+: w'.log)
      (fun _ w' => w.log <+: w'.log) w :=
  wp_then (call_wp (grows_invariant w.log) hself n c ⟨hw, List.prefix_rfl⟩) fun _ _ h => h.1

end Growth

/-! ## The slot of a whole run -/

/-- Nothing has been posted or logged. -/
theorem slotOk_start (s : UInt8) (u : σ) :
    (World.start { currentState := s } u : World σ δ).SlotOk where
  slot := rfl
  log _ he := by simp [World.start] at he

/-- **The slot is consistent and empty at rest.**  Whatever guards, actions and
subscribers post and whatever external events they raise, to any depth: at
every line of the log the flag is set exactly when there is data, and user
code that is given data is given some; the assertions on the data never fail;
and a sequence of external events that returns leaves nothing pending. -/
theorem slot_consistent (M : Machine σ δ) {thread : ThreadId} (hM : M.RunsOn thread) (n : Nat)
    (cs : List (Call δ)) (s : UInt8) (u : σ) :
    let r := (runCalls M thread n cs).run (World.start { currentState := s } u)
    (∀ e ∈ r.2.log, e.members.eventGenerated = e.members.pEventData.isSome ∧ e.obs.HasData) ∧
    (∀ e, r.1 = .error e → e ≠ .fault .guardData ∧ e ≠ .fault .entryData) ∧
    (r.1 = .ok () → r.2.members.eventGenerated = false ∧ r.2.members.pEventData = none) := by
  intro r
  have hrun := runCalls_wp hM (fun c => slotOk_invariant (σ := σ) ⟨thread, c⟩) n cs
    (slotOk_start s u) rfl
  have hslot : r.2.SlotOk := wp_snd (wp_mono hrun (fun _ _ h => h.1) fun _ _ h => h.2)
  refine ⟨fun e he => ⟨(hslot.log e he).slot, (hslot.log e he).data⟩, fun e he => ?_, fun hok => ?_⟩
  · exact (wp_error hrun (Prod.ext he rfl)).1
  · have hrest : r.2.members.eventGenerated = false := (wp_ok hrun (Prod.ext hok rfl)).2
    have hnone := hslot.slot
    unfold Members.SlotConsistent at hnone
    rw [hrest] at hnone
    exact ⟨hrest, Option.not_isSome_iff_eq_none.mp (by simp [← hnone])⟩

/-- A machine whose first state hands the data of its event over to the second. -/
def relay : Machine Nat Nat where
  maxStates := 2
  maps := .flat (some [⟨some fun d => .internalEvent 1 d (.ret ())⟩,
    ⟨some fun _ => .update (fun _ n => n + 1) fun _ _ => .ret ()⟩]) none
  maps_size := by simp [StateMaps.HasSize]

theorem slot_consistent_relay :
    let r := (runCalls relay 0 4 [.externalEvent 0 (some (.data 7)), .externalEvent 0 none]).run
      (World.start { currentState := 1 } 0)
    r.1 = .ok () ∧ r.2.user = 2 ∧ r.2.members.eventGenerated = false ∧
      r.2.members.pEventData = none := by
  intro r
  have hM : relay.RunsOn 0 := by simp [Machine.RunsOn, relay]
  have hok : r.1 = .ok () := rfl
  exact ⟨hok, by decide, (slot_consistent relay hM 4 _ 1 0).2.2 hok⟩

end ActiveFsm
