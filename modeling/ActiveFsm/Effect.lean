import ActiveFsm.Configuration

/-!
# ActiveFsm.Effect

The exact effect of one iteration of the hierarchical engine, line by line
(`dispatchHSM_effect`): which callbacks run, in which order, with which data,
and what `GetCurrentState()` is while they do.

`Writes m m' x ls` says that `x` takes the members from `m` to `m'` and writes
the lines `ls` to the log, or only the first of them where user code fails an
assertion of its own; the rules below put such statements together.
-/

namespace ActiveFsm

open Proc Forest

variable {σ δ : Type}

/-! ## What a process writes -/

section Writes

/-- From members `m`, `x` writes `ls` and leaves the members at `m'`. -/
def Writes {α : Type} (m m' : Members δ) (x : Fsm σ δ α) (ls : List (Entry δ)) : Prop :=
  ∀ w : World σ δ, w.members = m →
    x.wp (fun _ w' => w'.members = m' ∧ w'.log = w.log ++ ls)
      (fun e w' => e = .fault .user ∧ ∃ k, k <+: ls ∧ w'.log = w.log ++ k) w

variable {α β : Type} {m m' m'' : Members δ} {x : Fsm σ δ α} {ls ls' : List (Entry δ)}

/-- Nothing happens. -/
theorem writes_ret (a : α) : Writes m m (ret a : Fsm σ δ α) [] :=
  fun w hw => ⟨hw, (List.append_nil w.log).symm⟩

/-- One thing after the other. -/
theorem Writes.bind {g : α → Fsm σ δ β} (hx : Writes m m' x ls)
    (hg : ∀ a, Writes m' m'' (g a) ls') : Writes m m'' (x.bind g) (ls ++ ls') := by
  intro w hw
  rw [wp_bind]
  refine wp_mono (hx w hw) (fun a w₁ h₁ => ?_) fun e w₁ h₁ => ?_
  · refine wp_mono (hg a w₁ h₁.1) (fun _ w₂ h₂ => ⟨h₂.1, ?_⟩) fun e w₂ h₂ => ?_
    · rw [h₂.2, h₁.2, List.append_assoc]
    · obtain ⟨he, k, hk, hlog⟩ := h₂
      refine ⟨he, ls ++ k, (List.prefix_append_right_inj ls).mpr hk, ?_⟩
      rw [hlog, h₁.2, List.append_assoc]
  · obtain ⟨he, k, hk, hlog⟩ := h₁
    exact ⟨he, k, hk.trans (List.prefix_append ls ls'), hlog⟩

/-- The same thing for each of a list. -/
theorem Writes.each {f : β → Fsm σ δ Unit} {lines : β → List (Entry δ)} {bs : List β}
    (hf : ∀ b ∈ bs, Writes m m (f b) (lines b)) : Writes m m (each f bs) (bs.flatMap lines) := by
  induction bs with
  | nil => exact writes_ret ()
  | cons b bs ih =>
      rw [List.flatMap_cons]
      exact (hf b List.mem_cons_self).bind fun _ => ih fun b' hb' =>
        hf b' (List.mem_cons_of_mem b hb')

/-- The two ways a run can end. -/
theorem Writes.run {w : World σ δ} (h : Writes m m' x ls) (hw : w.members = m) :
    (∃ a w', x.run w = (.ok a, w') ∧ w'.members = m' ∧ w'.log = w.log ++ ls) ∨
      ∃ w' k, x.run w = (.error (.fault .user), w') ∧ k <+: ls ∧ w'.log = w.log ++ k := by
  have hwp := h w hw
  unfold wp at hwp
  rcases hr : x.run w with ⟨e | a, w'⟩
  · rw [hr] at hwp
    obtain ⟨rfl, k, hk, hlog⟩ := hwp
    exact .inr ⟨w', k, rfl, hk, hlog⟩
  · rw [hr] at hwp
    exact .inl ⟨a, w', rfl, hwp⟩

end Writes

section Hooks

variable {self : Frame δ} {nested : Call δ → Fsm σ δ Unit} {m : Members δ} {ρ : Type}

/-- User code that raises nothing writes nothing. -/
theorem writes_callback {cb : Callback σ δ ρ} (hcb : cb.Only False False) :
    Writes m m (cb.run self nested) [] := by
  intro w hw
  have hsurvives : Survives self nested False False
      (fun w' : World σ δ => w'.members = m ∧ w'.log = w.log)
      (fun e w' => e = .fault .user ∧ w'.log = w.log) :=
    { user := fun _ _ h => h
      fail := fun _ h => ⟨rfl, h.2⟩
      post := fun h => h.elim
      raise := fun h => h.elim }
  refine wp_mono (Callback.run_wp hsurvives hcb ⟨hw, rfl⟩) (fun _ w' h => ?_) fun e w' h => ?_
  · rw [List.append_nil]
    exact h
  · refine ⟨h.1, [], List.prefix_rfl, ?_⟩
    rw [List.append_nil]
    exact h.2

/-- A line of the log. -/
def line (self : Frame δ) (m : Members δ) (o : Obs δ) : Entry δ := ⟨self.thread, o, m⟩

/-- A line is written. -/
theorem writes_record (o : Obs δ) : Writes m m (record self o : Fsm σ δ Unit) [line self m o] := by
  intro w hw
  rw [wp_record]
  refine ⟨hw, ?_⟩
  rw [note_log, hw]
  rfl

/-- User code that does nothing to the machine. -/
theorem writes_hook {cb : Callback σ δ ρ} (o : Obs δ) (hcb : cb.Only False False) :
    Writes m m ((record self o).bind fun _ => cb.run self nested) [line self m o] :=
  (writes_record o).bind fun _ => writes_callback hcb

variable (self) in
/-- The lines of one exit. -/
def exitLines (rows : List (StateMapRowHSM σ δ)) (m : Members δ) (s : UInt8) : List (Entry δ) :=
  (match (rows[s.toNat]?).bind fun row => row.exit with
    | none => []
    | some _ => [line self m (.exit s)]) ++ [line self m (.onExit s)]

variable (self) in
/-- The lines of one entry. -/
def entryLines (rows : List (StateMapRowHSM σ δ)) (d : EventPtr δ) (m : Members δ) (s : UInt8) :
    List (Entry δ) :=
  (match (rows[s.toNat]?).bind fun row => row.entry with
    | none => []
    | some _ => [line self m (.entry s d)]) ++ [line self m (.onEntry s)]

variable (self) in
/-- The line of the guard. -/
def guardLines (row : StateMapRowHSM σ δ) (d : EventPtr δ) (m : Members δ) (s : UInt8) :
    List (Entry δ) :=
  match row.guard with
  | none => []
  | some _ => [line self m (.guard s d)]

section Sets

variable (M : Machine σ δ) (rows : List (StateMapRowHSM σ δ)) (a b : UInt8)

/-- The states that are left from `a` to `b`, innermost first. -/
def exited : List UInt8 :=
  (activeStates M rows a).filter fun s => decide (s ∉ activeStates M rows b)

/-- The states that are entered from `a` to `b`, outermost first. -/
def entered : List UInt8 :=
  ((activeStates M rows b).filter fun s => decide (s ∉ activeStates M rows a)).reverse

variable (self) in
/-- The lines of a change of state; `m` are the members before it. -/
def moveLines (d : EventPtr δ) (m : Members δ) : List (Entry δ) :=
  (exited M rows a b).flatMap (exitLines self rows m) ++
    ([line self { m with currentState := b } (.setCurrentState b)] ++
      (entered M rows a b).flatMap (entryLines self rows d { m with currentState := b }))

variable {M rows a b} {exits entries common : List UInt8}

/-- The states left are those below the common ancestor. -/
theorem exited_eq (ha : activeStates M rows a = exits ++ common)
    (hb : activeStates M rows b = entries ++ common)
    (hexits : ∀ c ∈ exits, c ∉ activeStates M rows b) : exited M rows a b = exits := by
  have hkept : exits.filter (fun s => decide (s ∉ activeStates M rows b)) = exits := by
    rw [List.filter_eq_self]
    exact fun c hc => decide_eq_true (hexits c hc)
  have hgone : common.filter (fun s => decide (s ∉ activeStates M rows b)) = [] := by
    rw [List.filter_eq_nil_iff]
    intro c hc
    simp [hb, hc]
  rw [exited, ha, List.filter_append, hkept, hgone, List.append_nil]

/-- The states entered are those below it on the other side. -/
theorem entered_eq (ha : activeStates M rows a = exits ++ common)
    (hb : activeStates M rows b = entries ++ common) (hnodup : (activeStates M rows b).Nodup)
    (hexits : ∀ c ∈ exits, c ∉ activeStates M rows b) :
    entered M rows a b = entries.reverse := by
  have hentries (c : UInt8) (hc : c ∈ entries) : c ∉ activeStates M rows a := by
    rw [ha]
    intro hmem
    rcases List.mem_append.mp hmem with hmem | hmem
    · exact hexits c hmem (by rw [hb]; exact List.mem_append_left _ hc)
    · rw [hb, List.nodup_append] at hnodup
      exact hnodup.2.2 c hc c hmem rfl
  have hkept : entries.filter (fun s => decide (s ∉ activeStates M rows a)) = entries := by
    rw [List.filter_eq_self]
    exact fun c hc => decide_eq_true (hentries c hc)
  have hgone : common.filter (fun s => decide (s ∉ activeStates M rows a)) = [] := by
    rw [List.filter_eq_nil_iff]
    intro c hc
    simp [ha, hc]
  rw [entered, hb, List.filter_append, hkept, hgone, List.append_nil]

/-- Nothing is left or entered from a state to itself. -/
theorem exited_self (a : UInt8) : exited M rows a a = [] := by
  rw [exited, List.filter_eq_nil_iff]
  intro c hc
  simp [hc]

/-- A self-transition enters nothing. -/
theorem entered_self (a : UInt8) : entered M rows a a = [] :=
  congrArg List.reverse (@exited_self σ δ M rows a)

end Sets

variable {M : Machine σ δ} {rows : List (StateMapRowHSM σ δ)}
  (hM : M.Obeys Hook.IsAction Hook.IsAction)
  (hrows : ∀ row ∈ rows, row.toStateMapRowEx.Obeys Hook.IsAction Hook.IsAction)

include hM hrows

/-- Leaving a state. -/
theorem writes_exitState {s : UInt8} {row : StateMapRowHSM σ δ} (hrow : rows[s.toNat]? = some row) :
    Writes m m (exitState M self nested rows s) (exitLines self rows m s) := by
  have hobeys := hrows row (List.mem_of_getElem? hrow)
  simp only [exitState, bind_eq, rowAt_eq hrow, ret_bind, exitLines, hrow, Option.bind_some]
  refine Writes.bind ?_ fun _ => writes_hook _ (hM.signals.onExit s)
  cases hexit : row.exit with
  | none => exact writes_ret ()
  | some exit => exact writes_hook _ (hobeys.exit exit hexit)

/-- Entering a state. -/
theorem writes_enterState {s : UInt8} {row : StateMapRowHSM σ δ} {d : EventPtr δ}
    (hd : d.isSome = true) (hrow : rows[s.toNat]? = some row) :
    Writes m m (enterState M self nested rows d s) (entryLines self rows d m s) := by
  have hobeys := hrows row (List.mem_of_getElem? hrow)
  simp only [enterState, bind_eq, rowAt_eq hrow, ret_bind, entryLines, hrow, Option.bind_some]
  refine Writes.bind ?_ fun _ => writes_hook _ (hM.signals.onEntry s)
  cases hentry : row.entry with
  | none => exact writes_ret ()
  | some entry =>
      have hassert : (assertTrue .entryData d.isSome : Fsm σ δ Unit) = ret () := by
        rw [hd]
        rfl
      simp only [runEntry, invokeEntryAction, bind_eq, hassert, ret_bind]
      exact writes_hook _ (hobeys.entry entry hentry d)

omit hM in
/-- Asking a guard. -/
theorem writes_evalGuard {s : UInt8} {row : StateMapRowHSM σ δ} {d : EventPtr δ}
    (hd : d.isSome = true) (hrow : rows[s.toNat]? = some row) :
    Writes m m (evalGuard self nested s row.guard d) (guardLines self row d m s) := by
  have hobeys := hrows row (List.mem_of_getElem? hrow)
  unfold guardLines
  cases hguard : row.guard with
  | none => exact writes_ret true
  | some guard =>
      have hassert : (assertTrue .guardData d.isSome : Fsm σ δ Unit) = ret () := by
        rw [hd]
        rfl
      simp only [evalGuard, invokeGuardCondition, bind_eq, hassert, ret_bind]
      exact writes_hook _ (hobeys.guard guard hguard d)

omit hM hrows in
/-- Changing the current state. -/
theorem writes_setCurrentState (s : UInt8) :
    Writes m { m with currentState := s } (setCurrentState self s : Fsm σ δ Unit)
      [line self { m with currentState := s } (.setCurrentState s)] := by
  intro w hw
  subst hw
  exact ⟨rfl, rfl⟩

omit hM hrows in
/-- The check for a pending event, which finds none. -/
theorem writes_assert_noPending (hm : m.eventGenerated = false) :
    Writes m m (isEventPending.bind fun pending =>
      (assertTrue .eventPending (!pending) : Fsm σ δ Unit)) [] := by
  intro w hw
  subst hw
  rw [wp_bind, wp_isEventPending]
  show wp (assertTrue .eventPending (!w.members.eventGenerated)) _ _ w
  rw [hm]
  exact writes_ret () w rfl

/-! ## The change of state -/

/-- All the exits, then all the entries. -/
theorem writes_moveHSM (hlen : rows.length = M.maxStates.toNat)
    (hmax : M.maxStates < propagateToParent) (hground : Grounded M rows) {a b : UInt8}
    (ha : a < M.maxStates) (hb : b < M.maxStates) {d : EventPtr δ} (hd : d.isSome = true)
    (hm : m.eventGenerated = false) :
    Writes m { m with currentState := b } (moveHSM M self nested rows a b d)
      (moveLines self M rows a b d m) := by
  unfold moveHSM moveLines
  by_cases hne : b ≠ a
  · rw [if_pos hne]
    obtain ⟨hpa, -⟩ := hground.path ha
    obtain ⟨hpb, -⟩ := hground.path hb
    obtain ⟨exits, entries, common, hexits, hentries, hfirst, heq⟩ :=
      changeStateHSM_eq hlen self nested hmax hground ha hb d
    have hrow {c s : UInt8} (hs : s ∈ activeStates M rows c) :
        ∃ row, rows[s.toNat]? = some row := by
      obtain ⟨p, hp⟩ := Option.isSome_iff_exists.mp (isSome_of_mem_walk hs)
      exact row_exists hlen (parentLink_some hp).1
    rw [heq, exited_eq hexits hentries hfirst, entered_eq hexits hentries hpb.nodup hfirst]
    refine Writes.bind (Writes.each fun s hs => ?_) fun _ =>
      Writes.bind (writes_setCurrentState b) fun _ => ?_
    · obtain ⟨row, hrow⟩ : ∃ row, rows[s.toNat]? = some row :=
        hrow (by rw [hexits]; exact List.mem_append_left _ hs)
      exact writes_exitState hM hrows hrow
    · have hpending : Writes { m with currentState := b } { m with currentState := b }
          (isEventPending.bind fun pending =>
            (assertTrue .eventPending (!pending) : Fsm σ δ Unit)) [] := writes_assert_noPending hm
      have hentering : Writes { m with currentState := b } { m with currentState := b }
          (each (enterState M self nested rows d) entries.reverse)
          (entries.reverse.flatMap (entryLines self rows d { m with currentState := b })) := by
        refine Writes.each fun s hs => ?_
        obtain ⟨row, hrow⟩ : ∃ row, rows[s.toNat]? = some row :=
          hrow (by rw [hentries]; exact List.mem_append_left _ (List.mem_reverse.mp hs))
        exact writes_enterState hM hrows hd hrow
      have hboth := hentering.bind fun _ => hpending
      rw [List.append_nil] at hboth
      exact hboth
  · have hsame : b = a := Decidable.not_not.mp hne
    subst hsame
    rw [if_neg hne, exited_self, entered_self]
    exact writes_setCurrentState b

end Hooks

/-! ## One iteration -/

/-- A state action that raises no external event leaves the current state as
it is. -/
theorem stays {M : Machine σ δ} {self : Frame δ} {nested : Call δ → Fsm σ δ Unit} {w : World σ δ}
    {a b s : UInt8} {state : Option (EventPtr δ → Callback σ δ Unit)} {d : EventPtr δ}
    (hraise : ∀ f ∈ state, (f d).Only True False) (hw : w.members.currentState = b) :
    ((runState self nested s state d).bind fun _ =>
      getCurrentState.bind fun c => onTransition M self nested a c).run w =
    ((runState self nested s state d).bind fun _ => onTransition M self nested a b).run w := by
  have hsurvives : Survives self nested True False
      (fun w : World σ δ => w.members.currentState = b) fun _ _ => True :=
    survives_of_members (P := fun m => m.currentState = b) (fun _ _ => trivial) fun _ _ _ _ h => h
  refine bind_run_congr (runState_wp hsurvives hraise trivial hw) fun _ w' hw' => ?_
  rw [run_getCurrentState, hw']

/-- **The exact effect of one dispatch.**  After consuming the event the engine
evaluates the guard of the target, with the event data.  If it returns `false`
nothing else happens.  Otherwise the states of the current path that are not on
the target's path are left, innermost first, while the current state is still
the old one; then the target is made current; then the states of its path that
are not on the old one are entered, outermost first; then the state action of
the target runs, and `OnTransition` is emitted, with the target where its
action raises no external event on the machine's own thread.  User code that
fails an assertion of its own cuts this short. -/
theorem dispatchHSM_effect {M : Machine σ δ} {rows : List (StateMapRowHSM σ δ)}
    (hmaps : M.maps = .hsm (some rows)) (hM : M.Obeys Hook.IsAction Hook.IsAction)
    (hground : Grounded M rows) (hmax : M.maxStates < propagateToParent) {self : Frame δ}
    {nested : Call δ → Fsm σ δ Unit} {w : World σ δ} {d : EventData δ} {row : StateMapRowHSM σ δ}
    (hcurrent : w.members.currentState < M.maxStates) (hnew : w.members.newState < M.maxStates)
    (hrow : rows[w.members.newState.toNat]? = some row) (hdata : w.members.pEventData = some d) :
    let a := w.members.currentState
    let b := w.members.newState
    let m : Members δ := { w.members with pEventData := none, eventGenerated := false }
    let r := (dispatchHSM M self nested rows).run w
    ∃ g w₁, (evalGuard self nested b row.guard (some d)).run (w.consume self) = (g, w₁) ∧
      match g with
      | .error e => r = (.error e, w₁) ∧ e = .fault .user ∧
          ∃ k, k <+: guardLines self row (some d) m b ∧ w₁.log = (w.consume self).log ++ k
      | .ok false => r = (.ok (), w₁) ∧ w₁.members = m ∧
          w₁.log = (w.consume self).log ++ guardLines self row (some d) m b
      | .ok true => w₁.members = m ∧
          w₁.log = (w.consume self).log ++ guardLines self row (some d) m b ∧
          ((∃ w₂ k, r = (.error (.fault .user), w₂) ∧
              k <+: moveLines self M rows a b (some d) m ∧ w₂.log = w₁.log ++ k) ∨
            ∃ w₂, w₂.members = { m with currentState := b } ∧
              w₂.log = w₁.log ++ moveLines self M rows a b (some d) m ∧
              r = ((runState self nested b row.state (some d)).bind fun _ =>
                getCurrentState.bind fun s => onTransition M self nested a s).run w₂ ∧
              ((∀ f ∈ row.state, (f (some d)).Only True False) →
                r = ((runState self nested b row.state (some d)).bind fun _ =>
                  onTransition M self nested a b).run w₂)) := by
  intro a b m r
  obtain ⟨hlen, hrows⟩ := hM.hierarchical hmaps
  have hconsumed : (w.consume self).members = m := rfl
  have hr : r = ((evalGuard self nested b row.guard (some d)).bind fun g =>
      if g then transitionHSM M self nested rows b row (some d) else ret ()).run
        (w.consume self) := by
    show (dispatchHSM M self nested rows).run w = _
    have hassert : (assertTrue .newState (decide (w.members.newState < M.maxStates)) :
        Fsm σ δ Unit) = ret () := by
      rw [decide_eq_true hnew]
      rfl
    simp only [dispatchHSM, bind_eq, run_getNewState, hassert, ret_bind, rowAt_eq hrow,
      run_consumeEvent, hdata]
    rfl
  rw [run_bind] at hr
  have hguard : Writes m m (evalGuard self nested b row.guard (some d))
      (guardLines self row (some d) m b) := writes_evalGuard hrows rfl hrow
  rcases hguard.run hconsumed with ⟨g, w₁, hg, hm, hlog⟩ | ⟨w₁, k, hg, hk, hlog⟩
  · refine ⟨.ok g, w₁, hg, ?_⟩
    rw [hg] at hr
    cases g with
    | false => exact ⟨hr, hm, hlog⟩
    | true =>
        refine ⟨hm, hlog, ?_⟩
        have hr : r = (transitionHSM M self nested rows b row (some d)).run w₁ := hr
        simp only [transitionHSM, bind_eq, run_getCurrentState, hm] at hr
        rw [run_bind] at hr
        have hmoves : Writes m { m with currentState := b }
            (moveHSM M self nested rows a b (some d)) (moveLines self M rows a b (some d) m) :=
          writes_moveHSM hM hrows hlen hmax hground hcurrent hnew rfl rfl
        rcases hmoves.run hm with ⟨_, w₂, hmove, hm₂, hlog₂⟩ | ⟨w₂, k, hmove, hk, hlog₂⟩
        · rw [hmove] at hr
          exact .inr ⟨w₂, hm₂, hlog₂, hr, fun hraise => hr.trans (stays hraise (by rw [hm₂]))⟩
        · rw [hmove] at hr
          exact .inl ⟨w₂, k, hr, hk, hlog₂⟩
  · refine ⟨.error (.fault .user), w₁, hg, ?_⟩
    rw [hg] at hr
    exact ⟨hr, rfl, k, hk, hlog⟩

theorem lamp_acts : lamp.Obeys Hook.IsAction Hook.IsAction where
  rows := by
    intro row hrow
    simp only [lamp, lampRows, StateMaps.rows, Option.getD_some, List.map_cons, List.map_nil,
      List.mem_cons, List.not_mem_nil, or_false] at hrow
    obtain rfl | rfl | rfl | rfl := hrow
    all_goals constructor <;> simp [Callback.Only, Hook.IsAction]
  signals := by constructor <;> simp [lamp, Callback.Only]

/-- From off to dim: off is left, then on and dim are entered. -/
theorem dispatchHSM_effect_lamp :
    let self : Frame Nat := ⟨0, .externalEvent 2 none⟩
    let w : World Nat Nat := World.start
      { currentState := 0, newState := 2, eventGenerated := true, pEventData := some (.data 7) } 0
    exited lamp lampRows 0 2 = [0] ∧ entered lamp lampRows 0 2 = [1, 2] ∧
      ∃ w₂, w₂.members = { currentState := 2, newState := 2 } ∧
        w₂.log = (w.consume self).log ++
          moveLines self lamp lampRows 0 2 (some (.data 7)) { currentState := 0, newState := 2 } ∧
        (dispatchHSM lamp self (fun _ => ret ()) lampRows).run w =
          ((runState self (fun _ => ret ()) 2 lampRows[2].state (some (.data 7))).bind fun _ =>
            onTransition lamp self (fun _ => ret ()) 0 2).run w₂ := by
  intro self w
  obtain ⟨g, w₁, hg, heffect⟩ := @dispatchHSM_effect Nat Nat lamp lampRows rfl lamp_acts
    lamp_grounded (by decide) self (fun _ => ret ()) w (.data 7) lampRows[2] (by decide)
    (by decide) rfl rfl
  cases hg
  obtain ⟨-, -, hfailed | ⟨w₂, hm, hlog, -, hr⟩⟩ := heffect
  · obtain ⟨w₂, k, hr, -⟩ := hfailed
    have hok : ((dispatchHSM lamp self (fun _ => ret ()) lampRows).run w).1 = .ok () := rfl
    rw [hr] at hok
    contradiction
  · refine ⟨rfl, rfl, w₂, hm, hlog, hr fun f hf => ?_⟩
    cases hf
    simp [Callback.Only]

/-- Two states side by side, whose actions do nothing. -/
def hopRows : List (StateMapRowHSM Unit Unit) :=
  [{ state := some fun _ => .ret (), parentState := noParent },
    { state := some fun _ => .ret (), parentState := noParent }]

/-- A subscriber posts an event whenever a state is left. -/
def postingHop : Machine Unit Unit where
  maxStates := 2
  maps := .hsm (some hopRows)
  maps_size := by simp [StateMaps.HasSize, hopRows]
  signals := { onExit := fun _ => .internalEvent 0 none (.ret ()) }

/-- No guard, entry or exit action raises an event, but a subscriber of
`OnExit` does: the engine faults after the entries, and neither the action of
the second state nor `OnTransition` follows. -/
theorem effect_of_others :
    let r := (call postingHop ⟨0, .externalEvent 1 none⟩ 4 (.externalEvent 1 none)).run
      (World.start { currentState := 0 } ())
    r.1 = .error (.fault .eventPending) ∧
      r.2.log.map Entry.obs =
        [.start, .post 1 (some .noEventData), .consume 1 (some .noEventData), .onExit 0,
          .post 0 (some .noEventData), .setCurrentState 1, .onEntry 1] :=
  ⟨rfl, rfl⟩

end ActiveFsm
