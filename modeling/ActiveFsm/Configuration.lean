import ActiveFsm.Forest
import ActiveFsm.Monitor
import ActiveFsm.Slot

/-!
# ActiveFsm.Configuration

The active configuration of a hierarchical machine: the current state on top
of its ancestors.  An observer that keeps a stack, pops it at every `OnExit`
and pushes on it at every `OnEntry`, holds the configuration whenever a state
action runs and whenever the engine returns (`active_configuration`).

`FindLCA`, the exit walk and the entry chain are related to the paths of the
two states first; the run is then followed action by action.
-/

namespace ActiveFsm

open Proc Forest

variable {σ δ : Type}

/-! ## The hierarchy -/

section Hierarchy

variable (M : Machine σ δ) (rows : List (StateMapRowHSM σ δ))

/-- The `ParentState` of a valid state. -/
def parentLink (s : UInt8) : Option UInt8 :=
  if s < M.maxStates then (rows[s.toNat]?).map StateMapRowHSM.parentState else none

/-- A state on top of its ancestors. -/
def activeStates (s : UInt8) : List UInt8 := walk (parentLink M rows) maxHsmDepth s

/-- Every chain of `ParentState`s leaves the valid range after at most
`MAX_HSM_DEPTH` states. -/
def Grounded : Prop :=
  ∀ s < M.maxStates, ∃ l, Path (parentLink M rows) s l ∧ l.length ≤ maxHsmDepth

variable {M rows}

/-- The active states of a state lead up to a root. -/
theorem Grounded.path (h : Grounded M rows) {s : UInt8} (hs : s < M.maxStates) :
    Path (parentLink M rows) s (activeStates M rows s) ∧
      (activeStates M rows s).length ≤ maxHsmDepth := by
  obtain ⟨l, hl, hlen⟩ := h s hs
  rw [activeStates, hl.walk_eq hlen]
  exact ⟨hl, hlen⟩

/-- A link belongs to a row of the map. -/
theorem parentLink_some {s p : UInt8} (h : parentLink M rows s = some p) :
    s < M.maxStates ∧ ∃ row, rows[s.toNat]? = some row ∧ row.parentState = p := by
  unfold parentLink at h
  split at h
  · next hs => exact ⟨hs, by simpa using h⟩
  · contradiction

variable (hlen : rows.length = M.maxStates.toNat)

include hlen

/-- Only a root has none. -/
theorem parentLink_none {s : UInt8} (h : parentLink M rows s = none) : ¬s < M.maxStates := by
  intro hs
  have hlt : s.toNat < rows.length := toNat_lt_length hlen hs
  simp [parentLink, hs, List.getElem?_eq_getElem hlt] at h

/-! ## The walks -/

variable {self : Frame δ} {nested : Call δ → Fsm σ δ Unit} {a b : UInt8}

/-- The inner loop finds `a` among the states it may look at, comes to the end
of the chain without, or has to go on. -/
theorem lcaInner_cases (a : UInt8) (left : Nat) (b : UInt8) :
    (a ∈ walk (parentLink M rows) left b ∧ lcaInner M rows a left b = ret true) ∨
      (a ∉ walk (parentLink M rows) left b ∧
        ((Path (parentLink M rows) b (walk (parentLink M rows) left b) ∧
            lcaInner M rows a left b = ret false) ∨
          (¬Path (parentLink M rows) b (walk (parentLink M rows) left b) ∧
            lcaInner M rows a left b = halt (.fault .lcaDepth)))) := by
  induction left generalizing b with
  | zero =>
      unfold lcaInner
      cases hb : parentLink M rows b with
      | none =>
          rw [if_neg (parentLink_none hlen hb), walk_out hb]
          exact .inr ⟨List.not_mem_nil, .inl ⟨.out hb, rfl⟩⟩
      | some p =>
          rw [if_pos (parentLink_some hb).1]
          refine .inr ⟨List.not_mem_nil, .inr ⟨fun hpath => ?_, rfl⟩⟩
          cases hpath with
          | out hnone => simp [hb] at hnone
  | succ left ih =>
      unfold lcaInner
      cases hb : parentLink M rows b with
      | none =>
          rw [if_neg (parentLink_none hlen hb), walk_out hb]
          exact .inr ⟨List.not_mem_nil, .inl ⟨.out hb, rfl⟩⟩
      | some p =>
          obtain ⟨hvalid, row, hrow, rfl⟩ := parentLink_some hb
          rw [if_pos hvalid, path_walk_succ left hb, walk_succ left hb]
          by_cases hab : a = b
          · exact .inl ⟨by simp [hab], by simp [hab]⟩
          · simpa [hab, rowAt_eq hrow] using ih row.parentState

/-- The outer loop finds the first state of its chain that is on the other
chain too, comes to the end of both without, or has to go on. -/
theorem lcaOuter_cases (b : UInt8) (left : Nat) (a : UInt8) :
    (¬(Path (parentLink M rows) a (walk (parentLink M rows) left a) ∧
        Path (parentLink M rows) b (activeStates M rows b)) ∧
      lcaOuter M rows b left a = halt (.fault .lcaDepth)) ∨
    ∃ lca, lcaOuter M rows b left a = ret lca ∧
      ((lca ∈ walk (parentLink M rows) left a ∧ lca ∈ activeStates M rows b) ∨
        (lca = noParent ∧ Path (parentLink M rows) a (walk (parentLink M rows) left a) ∧
          (walk (parentLink M rows) left a = [] ∨
            Path (parentLink M rows) b (activeStates M rows b)))) ∧
      ∀ c ∈ (walk (parentLink M rows) left a).takeWhile fun c => decide (c ≠ lca),
        c ∉ activeStates M rows b := by
  induction left generalizing a with
  | zero =>
      unfold lcaOuter
      cases ha : parentLink M rows a with
      | none =>
          rw [if_neg (parentLink_none hlen ha), walk_out ha]
          exact .inr ⟨noParent, rfl, .inr ⟨rfl, .out ha, .inl rfl⟩, by simp⟩
      | some p =>
          rw [if_pos (parentLink_some ha).1]
          refine .inl ⟨fun hpath => ?_, rfl⟩
          cases hpath.1 with
          | out hnone => simp [ha] at hnone
  | succ left ih =>
      unfold lcaOuter
      cases ha : parentLink M rows a with
      | none =>
          rw [if_neg (parentLink_none hlen ha), walk_out ha]
          exact .inr ⟨noParent, rfl, .inr ⟨rfl, .out ha, .inl rfl⟩, by simp⟩
      | some p =>
          obtain ⟨hvalid, row, hrow, rfl⟩ := parentLink_some ha
          rw [if_pos hvalid, path_walk_succ left ha, walk_succ left ha]
          rcases lcaInner_cases hlen a maxHsmDepth b with ⟨hmem, hinner⟩ |
            ⟨hmem, ⟨hpath, hinner⟩ | ⟨hpath, hinner⟩⟩
          · refine .inr ⟨a, by simp [hinner], .inl ⟨List.mem_cons_self, hmem⟩, ?_⟩
            simp
          · have hstep : lcaOuter M rows b left row.parentState =
                (lcaInner M rows a maxHsmDepth b).bind fun found =>
                  if found then ret a else (rowAt rows a).bind fun row =>
                    lcaOuter M rows b left row.parentState := by
              simp [hinner, rowAt_eq hrow]
            simp only [bind_eq, ← hstep]
            rcases ih row.parentState with hhalt | ⟨lca, hret, hlca, hfirst⟩
            · exact .inl hhalt
            · refine .inr ⟨lca, hret, ?_, fun c hc => ?_⟩
              · rcases hlca with ⟨hwalk, hb⟩ | ⟨hno, hend, -⟩
                · exact .inl ⟨List.mem_cons_of_mem a hwalk, hb⟩
                · exact .inr ⟨hno, hend, .inr hpath⟩
              · rw [List.takeWhile_cons] at hc
                split at hc
                · rcases List.mem_cons.mp hc with rfl | hc
                  · exact hmem
                  · exact hfirst c hc
                · contradiction
          · refine .inl ⟨fun h => hpath h.2, ?_⟩
            simp [hinner]

/-- Run the exit action of one state and announce the exit. -/
def exitState (M : Machine σ δ) (self : Frame δ) (nested : Call δ → Fsm σ δ Unit)
    (rows : List (StateMapRowHSM σ δ)) (s : UInt8) : Fsm σ δ Unit := do
  let row ← rowAt rows s
  runExit self nested s row.exit
  onExit M self nested s

/-- A walk that meets the LCA, or comes to the end of the chain, is not cut
short. -/
theorem exitWalk_eq {lca : UInt8} {left : Nat} (h : lca ∈ walk (parentLink M rows) left a ∨
      Path (parentLink M rows) a (walk (parentLink M rows) left a)) :
    exitWalk M self nested rows lca left a = each (exitState M self nested rows)
      ((walk (parentLink M rows) left a).takeWhile fun c => decide (c ≠ lca)) := by
  induction left generalizing a with
  | zero =>
      unfold exitWalk
      cases h.resolve_left List.not_mem_nil with
      | out hnone =>
          rw [if_neg fun h => parentLink_none hlen hnone h.1]
          rfl
  | succ left ih =>
      unfold exitWalk
      cases ha : parentLink M rows a with
      | none =>
          rw [if_neg fun h => parentLink_none hlen ha h.1, walk_out ha]
          rfl
      | some p =>
          obtain ⟨hvalid, row, hrow, rfl⟩ := parentLink_some ha
          rw [path_walk_succ left ha, walk_succ left ha] at h
          rw [walk_succ left ha]
          by_cases hlca : a = lca
          · simp [hlca, each]
          · have hrest := ih (h.imp_left fun hmem =>
              (List.mem_cons.mp hmem).resolve_left (Ne.symm hlca))
            simp [hlca, hvalid, each, exitState, rowAt_eq hrow, hrest, bind_assoc]

/-- The entry chain is the path up to the common ancestor. -/
theorem collectEntryChain_eq {lca : UInt8} {left : Nat}
    (h : lca ∈ walk (parentLink M rows) left a ∨
      Path (parentLink M rows) a (walk (parentLink M rows) left a)) :
    collectEntryChain M rows lca left a =
      ret ((walk (parentLink M rows) left a).takeWhile fun c => decide (c ≠ lca)) := by
  induction left generalizing a with
  | zero =>
      unfold collectEntryChain
      cases h.resolve_left List.not_mem_nil with
      | out hnone =>
          rw [if_neg fun h => parentLink_none hlen hnone h.1]
          rfl
  | succ left ih =>
      unfold collectEntryChain
      cases ha : parentLink M rows a with
      | none =>
          rw [if_neg fun h => parentLink_none hlen ha h.1, walk_out ha]
          rfl
      | some p =>
          obtain ⟨hvalid, row, hrow, rfl⟩ := parentLink_some ha
          rw [path_walk_succ left ha, walk_succ left ha] at h
          rw [walk_succ left ha]
          by_cases hlca : a = lca
          · simp [hlca]
          · have hrest := ih (h.imp_left fun hmem =>
              (List.mem_cons.mp hmem).resolve_left (Ne.symm hlca))
            simp [hlca, hvalid, rowAt_eq hrow, hrest]

omit hlen in
/-- The sentinel is not a state. -/
theorem noParent_not_mem (hmax : M.maxStates < propagateToParent) (a : UInt8) :
    noParent ∉ activeStates M rows a := by
  intro hmem
  obtain ⟨p, hp⟩ := Option.isSome_iff_exists.mp (isSome_of_mem_walk hmem)
  exact absurd (UInt8.lt_trans (parentLink_some hp).1 hmax) (by decide)

variable (self nested) in
/-- Either `FindLCA` faults, because a chain is longer than `MAX_HSM_DEPTH`, or
it finds the first state of the one chain that is on the other; then the walks
that follow go up to there. -/
theorem findLCA_cases (hmax : M.maxStates < propagateToParent) (ha : a < M.maxStates) (b : UInt8) :
    (¬(Path (parentLink M rows) a (activeStates M rows a) ∧
        Path (parentLink M rows) b (activeStates M rows b)) ∧
      findLCA M rows a b = halt (.fault .lcaDepth)) ∨
    ∃ lca, findLCA M rows a b = ret lca ∧
      exitWalk M self nested rows lca maxHsmDepth a = each (exitState M self nested rows)
        ((activeStates M rows a).takeWhile fun c => decide (c ≠ lca)) ∧
      collectEntryChain M rows lca maxHsmDepth b =
        ret ((activeStates M rows b).takeWhile fun c => decide (c ≠ lca)) ∧
      (lca ∈ activeStates M rows a ↔ lca ∈ activeStates M rows b) ∧
      ∀ c ∈ (activeStates M rows a).takeWhile fun c => decide (c ≠ lca),
        c ∉ activeStates M rows b := by
  rcases lcaOuter_cases hlen b maxHsmDepth a with hhalt | ⟨lca, hret, hlca, hfirst⟩
  · exact .inl hhalt
  · refine .inr ⟨lca, hret, ?_⟩
    rcases hlca with ⟨hla, hlb⟩ | ⟨rfl, hpa, hpb⟩
    · exact ⟨exitWalk_eq hlen (.inl hla), collectEntryChain_eq hlen (.inl hlb),
        iff_of_true hla hlb, hfirst⟩
    · obtain ⟨row, hrow⟩ := row_exists hlen ha
      have hlink : parentLink M rows a = some row.parentState := by
        simp [parentLink, ha, hrow]
      have hne : walk (parentLink M rows) maxHsmDepth a ≠ [] := by
        rw [maxHsmDepth, walk_succ _ hlink]
        simp
      have hpb := hpb.resolve_left hne
      exact ⟨exitWalk_eq hlen (.inr hpa), collectEntryChain_eq hlen (.inr hpb),
        iff_of_false (noParent_not_mem hmax a) (noParent_not_mem hmax b), hfirst⟩

variable (self nested) in
/-- The change of state, with the walks carried out: the states `exits` are
left, leaf first, and the states `entries` are entered, root first; what is
above them is common to both paths. -/
theorem changeStateHSM_eq (hmax : M.maxStates < propagateToParent) (hground : Grounded M rows)
    (ha : a < M.maxStates) (hb : b < M.maxStates) (d : EventPtr δ) :
    ∃ exits entries common, activeStates M rows a = exits ++ common ∧
      activeStates M rows b = entries ++ common ∧
      (∀ c ∈ exits, c ∉ activeStates M rows b) ∧
      changeStateHSM M self nested rows a b d =
        (each (exitState M self nested rows) exits).bind fun _ =>
          (setCurrentState self b).bind fun _ =>
            (each (enterState M self nested rows d) entries.reverse).bind fun _ =>
              isEventPending.bind fun pending => assertTrue .eventPending (!pending) := by
  obtain ⟨hpa, -⟩ := hground.path ha
  obtain ⟨hpb, -⟩ := hground.path hb
  rcases findLCA_cases hlen self nested hmax ha b with ⟨hlong, -⟩ |
    ⟨lca, hlca, hexit, hentry, hmem, hfirst⟩
  · exact absurd ⟨hpa, hpb⟩ hlong
  · refine ⟨_, (activeStates M rows b).takeWhile fun c => decide (c ≠ lca), _,
      List.takeWhile_append_dropWhile.symm, ?_, hfirst, ?_⟩
    · rw [hpa.dropWhile_eq hpb hmem, List.takeWhile_append_dropWhile]
    · simp only [changeStateHSM, bind_eq, hlca, ret_bind, hexit, hentry]

end Hierarchy

/-! ## The observer -/

/-- What an observer of the signals remembers: the states it takes for active,
and where the last transition went. -/
structure Observer where
  stack : List UInt8
  last : UInt8
  deriving DecidableEq, Repr

section Observing

variable (M : Machine σ δ) (rows : List (StateMapRowHSM σ δ))

/-- The observer of a machine in state `s`. -/
def Observer.initial (s : UInt8) : Observer := { stack := activeStates M rows s, last := s }

/-- An exit must be that of the state on top of the stack; an entry that of a
state not on it whose parent is on top; when a state action runs and when the
engine returns the stack must be the active configuration; a transition must
begin where the last one ended. -/
def configuration : Monitor Observer (Entry δ) := fun c e =>
  match e.obs with
  | .onExit s =>
    match c.stack with
    | [] => none
    | top :: rest => if top = s then some { c with stack := rest } else none
  | .onEntry s =>
    if s ∉ c.stack ∧ c.stack.head? = parent (parentLink M rows) s then
      some { c with stack := s :: c.stack }
    else none
  | .action _ _ | .finish =>
    if c.stack = activeStates M rows e.members.currentState then some c else none
  | .onTransition fromState toState =>
    if fromState = c.last then some { c with last := toState } else none
  | _ => some c

variable (start : Observer)

/-- The observer is at `c`, and the machine in state `s`. -/
def World.Shows (c : Observer) (s : UInt8) (w : World σ δ) : Prop :=
  w.members.SlotConsistent ∧ w.members.currentState = s ∧
    (configuration M rows).scan start w.log = some c

/-- The observer has accepted everything so far. -/
def World.Accepted (w : World σ δ) : Prop :=
  ((configuration M rows).scan start w.log).isSome = true

end Observing

section Steps

variable {M : Machine σ δ} {rows : List (StateMapRowHSM σ δ)} {start c c' : Observer}
  {self : Frame δ} {nested : Call δ → Fsm σ δ Unit} {s s' : UInt8} {w w' : World σ δ}

/-- What shows a configuration has been accepted. -/
theorem World.Shows.accepted (h : w.Shows M rows start c s) : w.Accepted M rows start := by
  rw [World.Accepted, h.2.2]
  rfl

/-- The monitor reads one line more. -/
theorem World.Shows.snoc {e : Entry δ} (h : w.Shows M rows start c s)
    (hslot : w'.members.SlotConsistent) (hs : w'.members.currentState = s')
    (hlog : w'.log = w.log ++ [e]) (he : configuration M rows c e = some c') :
    w'.Shows M rows start c' s' := by
  refine ⟨hslot, hs, ?_⟩
  rw [hlog, Monitor.scan_snoc, h.2.2]
  exact he

/-- A line that does not change a member. -/
theorem World.Shows.note {o : Obs δ} (h : w.Shows M rows start c s)
    (he : configuration M rows c ⟨self.thread, o, w.members⟩ = some c') :
    (w.note self o).Shows M rows start c' s := h.snoc h.1 h.2.1 (note_log self w o) he

/-- User code that raises nothing leaves the configuration alone. -/
theorem shows_survives :
    Survives self nested True False (World.Shows M rows start c s)
      fun _ (w : World σ δ) => w.Accepted M rows start where
  user _ _ h := h
  fail _ h := h.accepted
  post _ w t d h := h.snoc (slotConsistent_post w t d) h.2.1 (post_log self w t d) rfl
  raise h := h.elim

/-! ## One action at a time -/

section Dispatch

variable (hlen : rows.length = M.maxStates.toNat)
  (hM : M.Obeys (fun _ => True) (fun _ => False))
  (hrows : ∀ row ∈ rows, row.toStateMapRowEx.Obeys (fun _ => True) (fun _ => False))

include hlen hM hrows

/-- A state that is left goes from the top of the stack. -/
theorem exitState_shows {rest : List UInt8} {last : UInt8} (hvalid : s' < M.maxStates)
    (hw : w.Shows M rows start ⟨s' :: rest, last⟩ s) :
    (exitState M self nested rows s').wp (fun _ => World.Shows M rows start ⟨rest, last⟩ s)
      (fun _ w' => w'.Accepted M rows start) w := by
  simp only [exitState, bind_eq, wp_bind]
  refine wp_rowAt_of_lt (toNat_lt_length hlen hvalid) fun row hrow _ => ?_
  refine wp_then (runExit_wp shows_survives (hrows row hrow).exit (fun h => h.note rfl) hw)
    fun _ w₁ hw₁ => ?_
  have hpop : (w₁.note self (.onExit s')).Shows M rows start ⟨rest, last⟩ s :=
    hw₁.note (by simp [configuration])
  exact onExit_wp shows_survives (hM.signals.onExit s') hpop

/-- The states that are left go one after the other. -/
theorem exits_show {common : List UInt8} {last : UInt8} (exits : List UInt8)
    (hvalid : ∀ t ∈ exits, t < M.maxStates)
    (hw : w.Shows M rows start ⟨exits ++ common, last⟩ s) :
    (each (exitState M self nested rows) exits).wp
      (fun _ => World.Shows M rows start ⟨common, last⟩ s)
      (fun _ w' => w'.Accepted M rows start) w := by
  have hstep := each_wp_rest (f := exitState M self nested rows)
    (J := fun rest w => (∀ t ∈ rest, t < M.maxStates) ∧
      World.Shows M rows start ⟨rest ++ common, last⟩ s w)
    (E := fun _ w => World.Accepted M rows start w)
    (fun t rest w hw => ?_) exits w ⟨hvalid, hw⟩
  · exact wp_then hstep fun _ _ h => h.2
  · refine wp_then (exitState_shows hlen hM hrows (hw.1 t List.mem_cons_self) hw.2)
      fun _ w' hw' => ?_
    exact ⟨fun t' ht' => hw.1 t' (List.mem_cons_of_mem t ht'), hw'⟩

/-- A state that is entered comes on top of the stack. -/
theorem enterState_shows {stack : List UInt8} {last : UInt8} {d : EventPtr δ} (hd : d.isSome = true)
    (hpath : Path (parentLink M rows) s' (s' :: stack))
    (hw : w.Shows M rows start ⟨stack, last⟩ s) :
    (enterState M self nested rows d s').wp
      (fun _ => World.Shows M rows start ⟨s' :: stack, last⟩ s)
      (fun _ w' => w'.Accepted M rows start) w := by
  obtain ⟨p, hp⟩ := Option.isSome_iff_exists.mp (hpath.isSome s' List.mem_cons_self)
  have hvalid : s' < M.maxStates := (parentLink_some hp).1
  have hnew : s' ∉ stack := (List.nodup_cons.mp hpath.nodup).1
  simp only [enterState, bind_eq, wp_bind]
  refine wp_rowAt_of_lt (toNat_lt_length hlen hvalid) fun row hrow _ => ?_
  refine wp_then (runEntry_wp shows_survives (fun f hf => (hrows row hrow).entry f hf d) hd
    (fun h => h.note rfl) hw) fun _ w₁ hw₁ => ?_
  have hpush : (w₁.note self (.onEntry s')).Shows M rows start ⟨s' :: stack, last⟩ s :=
    hw₁.note (by simp [configuration, hnew, hpath.head_eq])
  exact onEntry_wp shows_survives (hM.signals.onEntry s') hpush

/-- The states that are entered come one after the other. -/
theorem entries_show {common : List UInt8} {last t : UInt8} {d : EventPtr δ} (hd : d.isSome = true)
    (entries : List UInt8) (hpath : Path (parentLink M rows) t (entries ++ common))
    (hw : w.Shows M rows start ⟨common, last⟩ s) :
    (each (enterState M self nested rows d) entries.reverse).wp
      (fun _ => World.Shows M rows start ⟨entries ++ common, last⟩ s)
      (fun _ w' => w'.Accepted M rows start) w := by
  have hstep := each_wp_rest (f := enterState M self nested rows d)
    (J := fun rest w => ∃ stack, rest.reverse ++ stack = entries ++ common ∧
      World.Shows M rows start ⟨stack, last⟩ s w)
    (E := fun _ w => World.Accepted M rows start w)
    (fun t rest w hw => ?_) entries.reverse w ⟨common, by simp, hw⟩
  · refine wp_then hstep fun _ w' hw' => ?_
    obtain ⟨stack, hstack, hshow⟩ := hw'
    rw [← hstack]
    exact hshow
  · obtain ⟨stack, hstack, hshow⟩ := hw
    rw [List.reverse_cons, List.append_assoc, List.singleton_append] at hstack
    rw [← hstack] at hpath
    refine wp_then (enterState_shows hlen hM hrows hd hpath.of_append hshow) fun _ w' hw' => ?_
    exact ⟨t :: stack, hstack, hw'⟩

/-- The change of state, from the path of one state to that of the other. -/
theorem moveHSM_shows {a b : UInt8} {d : EventPtr δ} (hmax : M.maxStates < propagateToParent)
    (hground : Grounded M rows) (ha : a < M.maxStates) (hb : b < M.maxStates)
    (hd : d.isSome = true) (hw : w.Shows M rows start (.initial M rows a) a) :
    (moveHSM M self nested rows a b d).wp
      (fun _ => World.Shows M rows start ⟨activeStates M rows b, a⟩ b)
      (fun _ w' => w'.Accepted M rows start) w := by
  have hset {c : Observer} {s : UInt8} {w : World σ δ} (h : w.Shows M rows start c s) :
      (w.setCurrentState self b).Shows M rows start c b :=
    h.snoc h.1 rfl (setCurrentState_log self w b) rfl
  unfold moveHSM
  by_cases hne : b ≠ a
  · rw [if_pos hne]
    obtain ⟨hpa, -⟩ := hground.path ha
    obtain ⟨hpb, -⟩ := hground.path hb
    obtain ⟨exits, entries, common, hexits, hentries, -, heq⟩ :=
      changeStateHSM_eq hlen self nested hmax hground ha hb d
    have hvalid (t : UInt8) (ht : t ∈ exits) : t < M.maxStates := by
      have hmem : t ∈ activeStates M rows a := by
        rw [hexits]
        exact List.mem_append_left _ ht
      obtain ⟨p, hp⟩ := Option.isSome_iff_exists.mp (hpa.isSome t hmem)
      exact (parentLink_some hp).1
    have hstart : w.Shows M rows start ⟨exits ++ common, a⟩ a := by
      rw [← hexits]
      exact hw
    rw [hentries] at hpb ⊢
    rw [heq]
    simp only [wp_bind, wp_setCurrentState, wp_isEventPending]
    refine wp_then (exits_show hlen hM hrows exits hvalid hstart) fun _ w₁ hw₁ => ?_
    refine wp_then (entries_show hlen hM hrows hd entries hpb (hset hw₁)) fun _ w₂ hw₂ => ?_
    exact wp_assertTrue (fun _ => hw₂) fun _ => hw₂.accepted
  · have hsame : b = a := Decidable.not_not.mp hne
    rw [if_neg hne]
    subst hsame
    exact hset hw

/-- Between dispatches the observer holds the configuration of a valid state. -/
def World.Steady (M : Machine σ δ) (rows : List (StateMapRowHSM σ δ)) (start : Observer)
    (w : World σ δ) : Prop :=
  ∃ s < M.maxStates, w.Shows M rows start (.initial M rows s) s

omit hlen hM hrows in
/-- A world at rest has been accepted. -/
theorem World.Steady.accepted (h : w.Steady M rows start) : w.Accepted M rows start := by
  obtain ⟨s, -, hs⟩ := h
  exact hs.accepted

/-- One turn of the engine goes from a configuration to another. -/
theorem dispatchHSM_steady (hmax : M.maxStates < propagateToParent) (hground : Grounded M rows)
    (hw : w.Steady M rows start) (hgen : w.members.eventGenerated = true) :
    (dispatchHSM M self nested rows).wp (fun _ => World.Steady M rows start)
      (fun _ w' => w'.Accepted M rows start) w := by
  obtain ⟨a, ha, hw⟩ := hw
  simp only [dispatchHSM, bind_eq, wp_bind, wp_getNewState]
  refine wp_assertTrue (fun hnew => ?_) fun _ => hw.accepted
  have hb : w.members.newState < M.maxStates := of_decide_eq_true hnew
  refine wp_rowAt_of_lt (toNat_lt_length hlen hb) fun row hrow _ => ?_
  have hd : w.members.pEventData.isSome = true := hw.1.isSome hgen
  have hobeys := hrows row hrow
  have hconsume : (w.consume self).Shows M rows start (.initial M rows a) a :=
    hw.snoc rfl hw.2.1 (consume_log self w) rfl
  rw [wp_consumeEvent]
  refine wp_then (evalGuard_wp shows_survives (fun f hf => hobeys.guard f hf _) hd hconsume
    (fun _ _ h => h) (hconsume.note rfl)) fun g w₁ hw₁ => ?_
  cases g with
  | false => exact ⟨a, ha, hw₁⟩
  | true =>
      simp only [transitionHSM, bind_eq, wp_bind, wp_getCurrentState, if_true, hw₁.2.1]
      refine wp_then (moveHSM_shows hlen hM hrows hmax hground ha hb hd hw₁) fun _ w₂ hw₂ => ?_
      have haction : (w₂.note self (.action w.members.newState w.members.pEventData)).Shows M rows
          start ⟨activeStates M rows w.members.newState, a⟩ w.members.newState :=
        hw₂.note (by simp [configuration, hw₂.2.1])
      refine wp_then (runState_wp shows_survives (fun f hf => hobeys.state f hf _) hw₂.accepted
        haction) fun _ w₃ hw₃ => ?_
      rw [hw₃.2.1]
      have hlast : (w₃.note self (.onTransition a w.members.newState)).Shows M rows start
          (.initial M rows w.members.newState) w.members.newState :=
        hw₃.note (by simp [configuration, Observer.initial])
      exact wp_then (onTransition_wp shows_survives (hM.signals.onTransition _ _) hlast)
        fun _ w₄ hw₄ => ⟨w.members.newState, hb, hw₄⟩

end Dispatch

/-! ## Every run -/

/-- So does an external event, with all that it leads to. -/
theorem externalEvent_steady (hself : M.RunsOn self.thread) (hmaps : M.maps = .hsm (some rows))
    (hM : M.Obeys (fun _ => True) (fun _ => False)) (hmax : M.maxStates < propagateToParent)
    (hground : Grounded M rows) (n : Nat) (t : UInt8) (d : EventPtr δ)
    (hw : w.Steady M rows start) :
    (externalEvent M self nested n t d).wp (fun _ => World.Steady M rows start)
      (fun _ w' => w'.Accepted M rows start) w := by
  obtain ⟨hlen, hrows⟩ := hM.hierarchical hmaps
  have hsteady := hw
  obtain ⟨s, hs, hw⟩ := hw
  refine externalEvent_wp_of hself (fun _ => hsteady) ?_ fun _ _ => ?_
  · exact wp_then (onCannotHappen_wp shows_survives (hM.signals.onCannotHappen _) (hw.note rfl))
      fun _ _ h => h.accepted
  · rw [stateEngine_hsm M self nested n hmaps, stateEngineHSM]
    have hstart : (w.note self .start).Shows M rows start (.initial M rows s) s := hw.note rfl
    have hpost : ((w.note self .start).post self t d).Steady M rows start :=
      ⟨s, hs, hstart.snoc (slotConsistent_post _ t d) hstart.2.1 (post_log self _ t d) rfl⟩
    refine wp_then (loop_wp (fun w hw hgen => dispatchHSM_steady hlen hM hrows hmax hground hw
      hgen) (fun w hw => hw.accepted) n _ hpost) fun _ w' hw' => ?_
    obtain ⟨⟨s', hs', hw'⟩, -⟩ := hw'
    exact ⟨s', hs', hw'.note (by simp [configuration, Observer.initial, hw'.2.1])⟩

end Steps

/-- **The active configuration**: on every sequence of external events, from
every valid initial state of a machine whose `ParentState` chains leave the
valid range in time, the observer accepts every exit, entry, state action and
transition of the run, up to the halt if there is one.  When the run returns,
the observer holds the current state on top of its ancestors, and the last
transition went to the current state. -/
theorem active_configuration (M : Machine σ δ) {rows : List (StateMapRowHSM σ δ)}
    (hmaps : M.maps = .hsm (some rows)) (hM : M.Obeys (fun _ => True) (fun _ => False))
    (hground : Grounded M rows) {thread : ThreadId} (hself : M.RunsOn thread) {s : UInt8}
    {members : Members δ} (hconstruct : construct M s = .ok members) (hs : s < M.maxStates)
    (n : Nat) (cs : List (Call δ)) (u : σ) :
    let r := (runCalls M thread n cs).run (World.start members u)
    ((configuration M rows).scan (.initial M rows s) r.2.log).isSome = true ∧
      (r.1 = .ok () → (configuration M rows).scan (.initial M rows s) r.2.log =
        some (.initial M rows r.2.members.currentState)) := by
  intro r
  have hmax : M.maxStates < propagateToParent := construct_hsm hconstruct hmaps
  have hstart : (World.start members u).Steady M rows (.initial M rows s) := by
    rw [construct_ok hconstruct]
    exact ⟨s, hs, rfl, rfl, rfl⟩
  have hrun : (runCalls M thread n cs).wp (fun _ => World.Steady M rows (.initial M rows s))
      (fun _ w' => w'.Accepted M rows (.initial M rows s)) (World.start members u) := by
    refine each_wp cs (fun c _ w hw => ?_) _ hstart
    cases n with
    | zero => exact hw.accepted
    | succ n =>
        exact call_wp_of hself
          (fun t _ => externalEvent_steady hself hmaps hM hmax hground n t _ hw)
          fun _ _ => hw.accepted
  refine ⟨wp_snd (P := World.Accepted M rows (.initial M rows s))
    (wp_then hrun fun _ _ h => h.accepted), fun hok => ?_⟩
  obtain ⟨t, -, -, ht, hscan⟩ := wp_ok hrun (Prod.ext hok rfl)
  rw [ht]
  exact hscan

/-- Off (0) and on (1); dim (2) and bright (3) are substates of on.  The action
of dim posts an event for bright. -/
def lampRows : List (StateMapRowHSM Nat Nat) :=
  [{ state := some fun _ => .ret (), parentState := noParent },
    { state := some fun _ => .ret (), entry := some fun _ => .ret (), parentState := noParent },
    { state := some fun d => .internalEvent 3 d (.ret ()), parentState := 1 },
    { state := some fun _ => .ret (), exit := some (.ret ()), parentState := 1 }]

def lamp : Machine Nat Nat where
  maxStates := 4
  maps := .hsm (some lampRows)
  maps_size := by simp [StateMaps.HasSize, lampRows]

theorem lamp_obeys : lamp.Obeys (fun _ => True) (fun _ => False) where
  rows := by
    intro row hrow
    simp only [lamp, lampRows, StateMaps.rows, Option.getD_some, List.map_cons, List.map_nil,
      List.mem_cons, List.not_mem_nil, or_false] at hrow
    obtain rfl | rfl | rfl | rfl := hrow
    all_goals constructor <;> simp [Callback.Only]
  signals := by constructor <;> simp [lamp, Callback.Only]

theorem lamp_grounded : Grounded lamp lampRows := by
  intro s hs
  have hlt : s.toNat < 4 := UInt8.lt_iff_toNat_lt.mp hs
  have hcases : s = 0 ∨ s = 1 ∨ s = 2 ∨ s = 3 := by
    simp only [← UInt8.toNat_inj]
    have h0 : (0 : UInt8).toNat = 0 := rfl
    have h1 : (1 : UInt8).toNat = 1 := rfl
    have h2 : (2 : UInt8).toNat = 2 := rfl
    have h3 : (3 : UInt8).toNat = 3 := rfl
    omega
  obtain rfl | rfl | rfl | rfl := hcases
  · exact ⟨[0], .up rfl (.out rfl), by decide⟩
  · exact ⟨[1], .up rfl (.out rfl), by decide⟩
  · exact ⟨[2, 1], .up rfl (.up rfl (.out rfl)), by decide⟩
  · exact ⟨[3, 1], .up rfl (.up rfl (.out rfl)), by decide⟩

/-- From off to dim, from there to bright by an internal event, then back to
the ancestor they share. -/
theorem active_configuration_lamp :
    let r := (runCalls lamp 0 4 [.externalEvent 2 none, .externalEvent 1 none]).run
      (World.start { currentState := 0 } 0)
    r.1 = .ok () ∧ r.2.members.currentState = 1 ∧
      (r.2.log.filterMap fun e => match e.obs with
        | .onExit s => some (false, s)
        | .onEntry s => some (true, s)
        | _ => none) = [(false, 0), (true, 1), (true, 2), (false, 2), (true, 3), (false, 3)] ∧
      (configuration lamp lampRows).scan ⟨[0], 0⟩ r.2.log = some ⟨[1], 1⟩ := by
  intro r
  have hself : lamp.RunsOn 0 := by simp [Machine.RunsOn, lamp]
  have hconstruct : construct lamp 0 = .ok { currentState := 0 } := rfl
  have hok : r.1 = .ok () := rfl
  refine ⟨hok, rfl, by decide, ?_⟩
  exact (active_configuration lamp rfl lamp_obeys lamp_grounded hself hconstruct (by decide) 4 _
    0).2 hok

end ActiveFsm
