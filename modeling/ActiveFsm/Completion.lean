import ActiveFsm.Monitor
import ActiveFsm.Slot
import Mathlib.Data.List.Induction

/-!
# ActiveFsm.Completion

Run to completion: once an external event is being processed, no step of
another one happens until it has finished.

The engines do not enforce it.  An external event that user code raises on
the machine's own thread is processed on the spot, in the middle of the event
that raised it.  The law holds of the runs in which every such event is
ignored (`run_to_completion`).
-/

namespace ActiveFsm

open Proc

variable {σ δ : Type}

/-! ## The law -/

/-- Where a thread is in the processing of external events. -/
inductive Phase where
  | idle
  | busy
  | failing
  deriving DecidableEq, Repr

/-- Accepts one external event after the other.  An event that cannot happen
is not processed; nothing but its subscribers follows. -/
def completion : Monitor Phase (Entry δ) := fun phase e =>
  match phase, e.obs with
  | .idle, .start => some .busy
  | .idle, .onCannotHappen _ => some .failing
  | .idle, _ => none
  | _, .start => none
  | _, .onCannotHappen _ => none
  | .busy, .finish => some .idle
  | .failing, .finish => none
  | phase, _ => some phase

/-- What belongs to the inside of a trace. -/
def Obs.IsInner : Obs δ → Prop
  | .start | .finish | .onCannotHappen _ => False
  | _ => True

/-- What has been done of an event that is being processed. -/
def OpenTrace (trace : List (Entry δ)) : Prop :=
  ∃ first body, trace = first :: body ∧ first.obs = .start ∧ ∀ e ∈ body, e.obs.IsInner

/-- The trace of one external event, from beginning to end. -/
def CompleteTrace (trace : List (Entry δ)) : Prop :=
  ∃ before last, trace = before ++ [last] ∧ OpenTrace before ∧ last.obs = .finish

/-- Inside of a phase nothing changes it. -/
theorem completion_inner {phase : Phase} {e : Entry δ} (hphase : phase ≠ .idle)
    (he : e.obs.IsInner) : completion phase e = some phase := by
  cases phase with
  | idle => contradiction
  | busy =>
      unfold completion
      cases ho : e.obs <;> simp_all [Obs.IsInner]
  | failing =>
      unfold completion
      cases ho : e.obs <;> simp_all [Obs.IsInner]

/-- The lines that take a monitor that has not failed on to another such
phase: an event starts, something of it happens, or it finishes. -/
theorem completion_cases {before phase : Phase} {e : Entry δ} (h : completion before e = some phase)
    (hphase : phase ≠ .failing) :
    (before = .idle ∧ phase = .busy ∧ e.obs = .start) ∨
    (before = .busy ∧ phase = .busy ∧ e.obs.IsInner) ∨
    (before = .busy ∧ phase = .idle ∧ e.obs = .finish) := by
  unfold completion at h
  cases before <;> cases ho : e.obs <;> simp_all [Obs.IsInner]

/-- A trace goes on while its phase is open. -/
theorem OpenTrace.snoc {trace : List (Entry δ)} {e : Entry δ} (h : OpenTrace trace)
    (he : e.obs.IsInner) : OpenTrace (trace ++ [e]) := by
  obtain ⟨first, body, rfl, hfirst, hbody⟩ := h
  refine ⟨first, body ++ [e], rfl, hfirst, ?_⟩
  rw [List.forall_mem_append]
  exact ⟨hbody, List.forall_mem_singleton.mpr he⟩

/-- An accepted log is a sequence of complete traces, followed by the event in
progress if there is one. -/
theorem traces_of_scan {log : List (Entry δ)} {phase : Phase}
    (h : completion.scan .idle log = some phase) (hphase : phase ≠ .failing) :
    ∃ (traces : List (List (Entry δ))) (rest : List (Entry δ)), log = traces.flatten ++ rest ∧
      (∀ t ∈ traces, CompleteTrace t) ∧ (phase = .idle → rest = []) ∧
      (phase = .busy → OpenTrace rest) := by
  induction log using List.reverseRecOn generalizing phase with
  | nil =>
      cases h
      exact ⟨[], [], rfl, by simp, fun _ => rfl, by simp⟩
  | append_singleton log e ih =>
      rw [Monitor.scan_snoc] at h
      obtain ⟨before, hbefore, he⟩ := Option.bind_eq_some_iff.mp h
      obtain ⟨rfl, rfl, ho⟩ | ⟨rfl, rfl, ho⟩ | ⟨rfl, rfl, ho⟩ := completion_cases he hphase
      · obtain ⟨traces, rest, rfl, htraces, hrest, -⟩ := ih hbefore (by simp)
        rw [hrest rfl, List.append_nil]
        exact ⟨traces, [e], rfl, htraces, by simp, fun _ => ⟨e, [], rfl, ho, by simp⟩⟩
      · obtain ⟨traces, rest, rfl, htraces, -, hrest⟩ := ih hbefore (by simp)
        refine ⟨traces, rest ++ [e], List.append_assoc .., htraces, by simp, fun _ => ?_⟩
        exact (hrest rfl).snoc ho
      · obtain ⟨traces, rest, rfl, htraces, -, hrest⟩ := ih hbefore (by simp)
        have hdone : CompleteTrace (rest ++ [e]) := ⟨rest, e, rfl, hrest rfl, ho⟩
        refine ⟨traces ++ [rest ++ [e]], [], by simp, ?_, fun _ => rfl, by simp⟩
        rw [List.forall_mem_append]
        exact ⟨htraces, List.forall_mem_singleton.mpr hdone⟩

/-! ## External events raised by user code -/

/-- In state `s` the call raises nothing but an ignored event. -/
def Call.Ignored (M : Machine σ δ) (s : UInt8) (c : Call δ) : Prop :=
  ∀ n t, c.target M n s = .ok t → t = eventIgnored

/-- User code has raised an external event that was not ignored. -/
def World.Reentered (M : Machine σ δ) (w : World σ δ) : Prop :=
  ∃ e ∈ w.log, ∃ c, e.obs = .raise c ∧ ¬c.Ignored M e.members.currentState

/-- The law holds up to now, and the thread is in `phase`; or user code broke
it. -/
def World.InPhase (M : Machine σ δ) (phase : Phase) (w : World σ δ) : Prop :=
  w.Reentered M ∨ completion.scan .idle w.log = some phase

/-- The law holds up to now, or user code broke it. -/
def World.Serial (M : Machine σ δ) (w : World σ δ) : Prop :=
  w.Reentered M ∨ (completion.scan .idle w.log).isSome = true

section Phases

variable {M : Machine σ δ} {self : Frame δ} {phase : Phase} {w w' : World σ δ}

/-- A nested event stays in the log. -/
theorem World.Reentered.mono (h : w.Reentered M) (hlog : w.log <+: w'.log) : w'.Reentered M := by
  obtain ⟨e, he, c, hc⟩ := h
  exact ⟨e, hlog.subset he, c, hc⟩

/-- A world in a phase is serial so far. -/
theorem World.InPhase.serial (h : w.InPhase M phase) : w.Serial M := by
  cases h with
  | inl hre => exact .inl hre
  | inr hscan => exact .inr (by simp [hscan])

/-- One more line that the monitor accepts. -/
theorem World.InPhase.snoc {next : Phase} {e : Entry δ} (h : w.InPhase M phase)
    (hlog : w'.log = w.log ++ [e]) (he : completion phase e = some next) : w'.InPhase M next := by
  cases h with
  | inl hre =>
      have hprefix : w.log <+: w'.log := by
        rw [hlog]
        exact List.prefix_append _ _
      exact .inl (hre.mono hprefix)
  | inr hscan =>
      refine .inr ?_
      rw [hlog, Monitor.scan_snoc, hscan]
      exact he

/-- An ignored event does nothing. -/
theorem call_ignored (hself : M.RunsOn self.thread) {c : Call δ}
    (hc : c.Ignored M w.members.currentState) (n : Nat) :
    (call M self n c).wp (fun _ w' => w' = w) (fun _ w' => w' = w) w := by
  cases n with
  | zero => exact rfl
  | succ n =>
      refine call_wp_of hself (fun t ht => ?_) fun _ _ => rfl
      rw [hc n t ht, externalEvent, if_pos rfl]
      exact rfl

/-- An event raised by user code is ignored, or it breaks the law. -/
theorem raise_inPhase (hself : M.RunsOn self.thread) (hphase : phase ≠ .idle) (n : Nat) (c : Call δ)
    (hslot : w.members.SlotConsistent) (hw : w.InPhase M phase) :
    (call M self n c).wp (fun _ w' => w'.members.SlotConsistent ∧ w'.InPhase M phase)
      (fun _ w' => w'.Serial M) (w.note self (.raise c)) := by
  have hraise : (w.note self (.raise c)).InPhase M phase :=
    hw.snoc rfl (completion_inner hphase trivial)
  by_cases hc : c.Ignored M w.members.currentState
  · have hsame := call_ignored (w := w.note self (.raise c)) hself hc n
    refine wp_mono hsame (fun _ w' hw' => ?_) fun _ w' hw' => ?_
    · rw [hw']
      exact ⟨hslot, hraise⟩
    · rw [hw']
      exact hraise.serial
  · have hre : (w.note self (.raise c)).Reentered M :=
      ⟨⟨self.thread, .raise c, w.members⟩, by simp, c, rfl, hc⟩
    have hgrows := call_grows (w := w.note self (.raise c)) hself n c hslot
    refine wp_mono hgrows (fun _ w' hw' => ?_) fun _ w' hw' => ?_
    · exact ⟨hw'.1, .inl (hre.mono hw'.2)⟩
    · exact .inl (hre.mono hw')

/-- User code runs inside of a phase. -/
theorem isInner_of_isHook {o : Obs δ} (ho : o.IsHook) : o.IsInner := by
  cases o <;> trivial

/-- Nothing an engine does starts or finishes an external event. -/
theorem inPhase_invariant (hself : M.RunsOn self.thread) (hphase : phase ≠ .idle) (n : Nat) :
    EngineInvariant M self (call M self n) (fun _ => True) (fun _ => True)
      (fun w => w.members.SlotConsistent ∧ w.InPhase M phase) (fun _ w => w.Serial M) where
  survives _ :=
    { user := fun _ _ h => h
      fail := fun _ h => h.2.serial
      post := fun _ w t d h =>
        ⟨slotConsistent_post w t d, h.2.snoc rfl (completion_inner hphase trivial)⟩
      raise := fun _ _ c h => raise_inPhase hself hphase n c h.1 h.2 }
  halts _ _ _ h := h.2.serial
  range _ _ h := .inr h.2.serial
  data _ h := h.1.isSome
  consume _ h _ := ⟨rfl, h.2.snoc rfl (completion_inner hphase trivial)⟩
  setCurrentState _ _ h := ⟨h.1, h.2.snoc rfl (completion_inner hphase trivial)⟩
  note _ _ ho h := ⟨h.1, h.2.snoc rfl (completion_inner hphase (isInner_of_isHook ho))⟩

/-! ## One external event -/

/-- From one idle moment to the next. -/
theorem externalEvent_serial (hself : M.RunsOn self.thread) (n k : Nat) (t : UInt8) (d : EventPtr δ)
    (hslot : w.members.SlotConsistent) (hw : w.InPhase M .idle) :
    (externalEvent M self (call M self n) k t d).wp
      (fun _ w' => w'.members.SlotConsistent ∧ w'.InPhase M .idle) (fun _ w' => w'.Serial M) w := by
  refine externalEvent_wp_of hself (fun _ => ⟨hslot, hw⟩) ?_ fun _ _ => ?_
  · -- the event cannot happen: its subscribers run, and the assertion fails
    have hnote : (w.note self (.onCannotHappen w.members.currentState)).InPhase M .failing :=
      hw.snoc rfl rfl
    have hphase : Phase.failing ≠ .idle := by simp
    have hfail := (inPhase_invariant hself hphase n).survives .onCannotHappen
    exact wp_then (onCannotHappen_wp hfail (only_true _) ⟨hslot, hnote⟩) fun _ w' hw' =>
      hw'.2.serial
  · have hstart : (w.note self .start).InPhase M .busy := hw.snoc rfl rfl
    have hpost : ((w.note self .start).post self t d).InPhase M .busy :=
      hstart.snoc rfl (completion_inner (by simp) trivial)
    have hphase : Phase.busy ≠ .idle := by simp
    have hengine := stateEngine_wp (inPhase_invariant hself hphase n) (obeys_true M) k
      ⟨slotConsistent_post (w.note self .start) t d, hpost⟩
    exact wp_then hengine fun _ w' hw' => ⟨hw'.1.1, hw'.1.2.snoc rfl rfl⟩

/-- A call begins and ends between two phases. -/
theorem call_serial (hself : M.RunsOn self.thread) (n : Nat) (c : Call δ)
    (hslot : w.members.SlotConsistent) (hw : w.InPhase M .idle) :
    (call M self n c).wp (fun _ w' => w'.members.SlotConsistent ∧ w'.InPhase M .idle)
      (fun _ w' => w'.Serial M) w := by
  cases n with
  | zero => exact hw.serial
  | succ n =>
      exact call_wp_of hself (fun t _ => externalEvent_serial hself n n t _ hslot hw)
        fun _ _ => hw.serial

end Phases

/-! ## Every run -/

/-- **Run to completion**: in every run in which the external events raised by
user code on the machine's own thread are all ignored, the trace is one
complete trace after the other, followed by the beginning of the last one if
the run halted in it. -/
theorem run_to_completion (M : Machine σ δ) {thread : ThreadId} (hM : M.RunsOn thread) (n : Nat)
    (cs : List (Call δ)) (s : UInt8) (u : σ) :
    let r := (runCalls M thread n cs).run (World.start { currentState := s } u)
    (∀ e ∈ r.2.log, ∀ c, e.obs = .raise c → c.Ignored M e.members.currentState) →
      (completion.scan .idle r.2.log).isSome = true ∧
      (r.1 = .ok () → ∃ traces : List (List (Entry δ)), r.2.log = traces.flatten ∧
        ∀ t ∈ traces, CompleteTrace t) := by
  intro r hignored
  have hstart : (World.start { currentState := s } u : World σ δ).InPhase M .idle := .inr rfl
  have hrun : (runCalls M thread n cs).wp
      (fun _ w' => w'.members.SlotConsistent ∧ w'.InPhase M .idle) (fun _ w' => w'.Serial M)
      (World.start { currentState := s } u) :=
    each_wp (I := fun w : World σ δ => w.members.SlotConsistent ∧ w.InPhase M .idle) cs
      (fun c _ w hw => call_serial hM n c hw.1 hw.2) _ ⟨rfl, hstart⟩
  have hnot : ¬r.2.Reentered M := fun ⟨e, he, c, hc, hn⟩ => hn (hignored e he c hc)
  have hserial : r.2.Serial M := wp_snd (wp_mono hrun (fun _ _ h => h.2.serial) fun _ _ h => h)
  refine ⟨hserial.resolve_left hnot, fun hok => ?_⟩
  have hidle := (wp_ok hrun (Prod.ext hok rfl)).2.resolve_left hnot
  obtain ⟨traces, rest, hlog, htraces, hrest, -⟩ := traces_of_scan hidle (by simp)
  rw [hrest rfl, List.append_nil] at hlog
  exact ⟨traces, hlog, htraces⟩

/-- A machine whose first state raises the external event `c` from its action. -/
def raising (c : Call Nat) : Machine Nat Nat where
  maxStates := 2
  maps := .flat (some [⟨some fun _ => .call c (.ret ())⟩,
    ⟨some fun _ => .update (fun _ n => n + 1) fun _ _ => .ret ()⟩]) none
  maps_size := by simp [StateMaps.HasSize]

/-- An event function that state 0 ignores. -/
def ignoredByFirst : Call Nat := .event ⟨none, [eventIgnored, 1], false, none⟩

/-- An action may raise an event that its state ignores. -/
theorem run_to_completion_ignored :
    let r := (runCalls (raising ignoredByFirst) 0 4
      [.externalEvent 0 none, .externalEvent 1 none]).run (World.start { currentState := 1 } 0)
    r.1 = .ok () ∧ (∃ e ∈ r.2.log, e.obs = .raise ignoredByFirst) ∧
      ∃ traces : List (List (Entry Nat)), r.2.log = traces.flatten ∧
        ∀ t ∈ traces, CompleteTrace t := by
  intro r
  have hraise : ∀ e ∈ r.2.log, (match e.obs with
      | .raise c => decide (c = ignoredByFirst ∧ e.members.currentState = 0)
      | _ => true) = true := by decide
  have hM : (raising ignoredByFirst).RunsOn 0 := by simp [Machine.RunsOn, raising]
  have hok : r.1 = .ok () := rfl
  refine ⟨hok, by decide, (run_to_completion _ hM 4 _ 1 0 fun e he c hc => ?_).2 hok⟩
  have hc' := hraise e he
  rw [hc, decide_eq_true_eq] at hc'
  obtain ⟨rfl, hs⟩ := hc'
  intro n t ht
  rw [hs] at ht
  exact (Except.ok.inj ht).symm

/-- An action that raises an event of another state interrupts its own: the
machine reports the end of the inner transition first. -/
theorem completion_interrupted :
    let r := (runCalls (raising (.externalEvent 1 none)) 0 4 [.externalEvent 0 none]).run
      (World.start { currentState := 0 } 0)
    (raising (.externalEvent 1 none)).RunsOn 0 ∧ r.1 = .ok () ∧
      r.2.log.filterMap (fun e => match e.obs with
        | .action s _ => some (s, s)
        | .onTransition s t => some (s, t)
        | _ => none) = [(0, 0), (1, 1), (0, 1), (0, 1)] ∧
      completion.scan .idle r.2.log = none := by
  refine ⟨by simp [Machine.RunsOn, raising], rfl, by decide, by decide⟩

end ActiveFsm
