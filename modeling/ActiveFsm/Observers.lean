import ActiveFsm.Signal
import ActiveFsm.Transition
import Mathlib.Data.List.Forall2

/-!
# ActiveFsm.Observers

What signals are for, without blocks, pointers and snapshots: every signal has
a list of live connections, every handle stands for one connection at most,
and an emission has to call those that were live when it began.

`SignalStore` does exactly this (`signal_observers`).
-/

namespace ActiveFsm

open Transition

/-- The connections of a program.  `live` lists those of each signal in
connection order; `owner` is the signal and the number of the connection a
handle stands for.  `running` has, for every emission in progress, what it has
still to call, and `begun` what was live when an emission began. -/
structure Observers (β : Type) where
  live : Nat → Option (List (DelegatePtr β)) := fun _ => none
  owner : Nat → Option (Option (Nat × Nat)) := fun _ => none
  connections : Nat := 0
  running : List (Nat × List (DelegatePtr β)) := []
  begun : List (List (DelegatePtr β)) := []
  calls : List (Nat × DelegatePtr β) := []

variable {β : Type}

namespace Observers

section Operations

variable (t : Observers β) (signal handle other : Nat)

def setLive (l : Option (List (DelegatePtr β))) : Observers β :=
  { t with live := Function.update t.live signal l }

def setOwner (o : Option (Option (Nat × Nat))) : Observers β :=
  { t with owner := Function.update t.owner handle o }

/-- One connection less. -/
def remove : Option (Nat × Nat) → Observers β
  | some (signal, connection) =>
      t.setLive signal ((t.live signal).map fun l => l.filter fun d => d.address ≠ connection)
  | none => t

/-- The handle gives up its connection. -/
def release : Option (Observers β) :=
  (t.owner handle).map fun o => (t.remove o).setOwner handle (some none)

/-- The handle takes over the connection of the other. -/
def transfer : Option (Observers β) :=
  (t.owner other).map fun o => (t.setOwner other (some none)).setOwner handle (some o)

def step : SignalOp β → Option (Observers β)
  | .construct signal => if t.live signal = none then some (t.setLive signal (some [])) else none
  | .destruct signal => (t.live signal).map fun _ => t.setLive signal none
  | .clear signal => (t.live signal).map fun _ => t.setLive signal (some [])
  | .connect handle signal delegate =>
      match t.owner handle, t.live signal with
      | none, some l =>
          match delegate with
          | some target => some { t with
              live := Function.update t.live signal (some (l ++ [⟨t.connections, target⟩]))
              connections := t.connections + 1
              owner := Function.update t.owner handle (some (some (signal, t.connections))) }
          | none => some (t.setOwner handle (some none))
      | _, _ => none
  | .emptyHandle handle =>
      if t.owner handle = none then some (t.setOwner handle (some none)) else none
  | .moveConstruct handle other => if t.owner handle = none then t.transfer handle other else none
  | .moveAssign handle other =>
      match t.owner handle, t.owner other with
      | some _, some _ =>
          if handle = other then some t
          else (t.release handle).bind fun t => t.transfer handle other
      | _, _ => none
  | .disconnect handle => t.release handle
  | .destroy handle => (t.owner handle).map fun o => (t.remove o).setOwner handle none
  | .emit signal => (t.live signal).map fun l => { t with
      running := (t.begun.length, l) :: t.running
      begun := t.begun ++ [l] }
  | .call =>
      match t.running with
      | (n, d :: ds) :: rest => some { t with
          running := (n, ds) :: rest
          calls := t.calls ++ [(n, d)] }
      | _ => none
  | .finish =>
      match t.running with
      | (_, []) :: rest => some { t with running := rest }
      | _ => none

end Operations

section Lemmas

/-- What is found after an update was put there, or was there before. -/
theorem update_eq_some {γ : Type} {f : Nat → Option γ} {i j : Nat} {x : Option γ} {v : γ}
    (h : Function.update f i x j = some v) : (j = i ∧ x = some v) ∨ (j ≠ i ∧ f j = some v) := by
  by_cases hj : j = i
  · subst hj
    rw [Function.update_self] at h
    exact Or.inl ⟨rfl, h⟩
  · rw [Function.update_of_ne hj] at h
    exact Or.inr ⟨hj, h⟩

variable (t : Observers β) (l : Option (List (DelegatePtr β))) (o : Option (Option (Nat × Nat)))
  {i k : Nat}

@[simp] theorem setLive_self : (t.setLive i l).live i = l := Function.update_self ..

theorem setLive_ne {signal : Nat} (h : i ≠ signal) : (t.setLive signal l).live i = t.live i :=
  Function.update_of_ne h ..

@[simp] theorem setOwner_self : (t.setOwner k o).owner k = o := Function.update_self ..

theorem setOwner_ne {handle : Nat} (h : k ≠ handle) : (t.setOwner handle o).owner k = t.owner k :=
  Function.update_of_ne h ..

end Lemmas

/-! ## What holds of the connections -/

section Sound

variable (t : Observers β)

/-- What an emission has called. -/
def calledBy (n : Nat) : List (DelegatePtr β) :=
  (t.calls.filter fun p => p.1 = n).map Prod.snd

/-- What an emission has still to call. -/
def pending (n : Nat) : List (DelegatePtr β) :=
  (t.running.filter fun p => p.1 = n).flatMap Prod.snd

/-- Live connections are in connection order and each has its handle, a
connection has at most one, and an emission calls what was live when it began. -/
structure Sound : Prop where
  ordered : ∀ i l, t.live i = some l → (l.map DelegatePtr.address).Pairwise (· < ·)
  numbered : ∀ i l, t.live i = some l → ∀ d ∈ l, d.address < t.connections
  owned : ∀ i l, t.live i = some l → ∀ d ∈ l, ∃ h, t.owner h = some (some (i, d.address))
  given : ∀ h i c, t.owner h = some (some (i, c)) → c < t.connections
  single : ∀ h h' i i' c, t.owner h = some (some (i, c)) → t.owner h' = some (some (i', c)) → h = h'
  called : ∀ p ∈ t.calls, p.1 < t.begun.length
  running : ∀ p ∈ t.running, p.1 < t.begun.length
  exact : ∀ n l, t.begun[n]? = some l → t.calledBy n ++ t.pending n = l

variable {t} {t' : Observers β} {signal handle other : Nat}

/-- No connection is represented. -/
def Vacant (o : Option (Option (Nat × Nat))) : Prop := ∀ ic, o ≠ some (some ic)

/-- A handle that does not exist connects nothing. -/
theorem vacant_none : Vacant none := by
  intro ic
  simp

/-- Nor does one that is empty. -/
theorem vacant_some_none : Vacant (some none) := by
  intro ic
  simp

/-- A handle that connects nothing before and after. -/
theorem Sound.setOwner (h : t.Sound) {o : Option (Option (Nat × Nat))}
    (hbefore : Vacant (t.owner handle)) (hafter : Vacant o) : (t.setOwner handle o).Sound := by
  have howner (k : Nat) (ic : Nat × Nat) :
      (t.setOwner handle o).owner k = some (some ic) ↔ t.owner k = some (some ic) := by
    by_cases hk : k = handle
    · subst hk
      rw [setOwner_self]
      exact iff_of_false (hafter ic) (hbefore ic)
    · rw [setOwner_ne t o hk]
  exact { h with
    owned := fun i l hl d hd => by
      obtain ⟨k, hk⟩ := h.owned i l hl d hd
      exact ⟨k, (howner k _).mpr hk⟩
    given := fun k i c hk => h.given k i c ((howner k _).mp hk)
    single := fun k k' i i' c hk hk' =>
      h.single k k' i i' c ((howner k _).mp hk) ((howner k' _).mp hk') }

/-- A signal without subscribers. -/
theorem Sound.setLive_nil (h : t.Sound) {l' : Option (List (DelegatePtr β))}
    (hl' : ∀ l, l' = some l → l = []) : (t.setLive signal l').Sound := by
  have hlive {i : Nat} {l : List (DelegatePtr β)} (hl : (t.setLive signal l').live i = some l) :
      l = [] ∨ t.live i = some l := by
    rcases update_eq_some hl with ⟨-, hl⟩ | ⟨-, hl⟩
    · exact Or.inl (hl' l hl)
    · exact Or.inr hl
  exact { h with
    ordered := fun i l hl => by
      rcases hlive hl with rfl | hl
      · exact List.Pairwise.nil
      · exact h.ordered i l hl
    numbered := fun i l hl d hd => by
      rcases hlive hl with rfl | hl
      · contradiction
      · exact h.numbered i l hl d hd
    owned := fun i l hl d hd => by
      rcases hlive hl with rfl | hl
      · contradiction
      · exact h.owned i l hl d hd }

/-- A handle and its connection go. -/
theorem Sound.drop (h : t.Sound) {o : Option (Nat × Nat)} {o' : Option (Option (Nat × Nat))}
    (howner : t.owner handle = some o) (hafter : Vacant o') :
    ((t.remove o).setOwner handle o').Sound := by
  cases o with
  | none => exact h.setOwner (by rw [howner]; exact vacant_some_none) hafter
  | some ic =>
      obtain ⟨i₀, c₀⟩ := ic
      have hlive {i : Nat} {l : List (DelegatePtr β)}
          (hl : (t.remove (some (i₀, c₀))).live i = some l) :
          ∃ l₀, t.live i = some l₀ ∧ l.Sublist l₀ ∧ (i = i₀ → ∀ d ∈ l, d.address ≠ c₀) := by
        rcases update_eq_some hl with ⟨rfl, hl⟩ | ⟨hi, hl⟩
        · obtain ⟨l₀, hl₀, rfl⟩ := Option.map_eq_some_iff.mp hl
          refine ⟨l₀, hl₀, List.filter_sublist, fun _ d hd => ?_⟩
          simpa using (List.mem_filter.mp hd).2
        · exact ⟨l, hl, List.Sublist.refl l, fun heq => absurd heq hi⟩
      have hkept {k i c : Nat} (hk : ((t.remove (some (i₀, c₀))).setOwner handle o').owner k =
          some (some (i, c))) : t.owner k = some (some (i, c)) := by
        rcases update_eq_some hk with ⟨-, hk⟩ | ⟨-, hk⟩
        · exact absurd hk (hafter (i, c))
        · exact hk
      exact { h with
        ordered := fun i l hl => by
          obtain ⟨l₀, hl₀, hsub, -⟩ := hlive hl
          exact (h.ordered i l₀ hl₀).sublist (hsub.map _)
        numbered := fun i l hl d hd => by
          obtain ⟨l₀, hl₀, hsub, -⟩ := hlive hl
          exact h.numbered i l₀ hl₀ d (hsub.subset hd)
        owned := fun i l hl d hd => by
          obtain ⟨l₀, hl₀, hsub, hne⟩ := hlive hl
          obtain ⟨k, hk⟩ := h.owned i l₀ hl₀ d (hsub.subset hd)
          refine ⟨k, ?_⟩
          have hother : k ≠ handle := by
            rintro rfl
            rw [howner] at hk
            cases hk
            exact hne rfl d hd rfl
          exact (setOwner_ne _ _ hother).trans hk
        given := fun k i c hk => h.given k i c (hkept hk)
        single := fun k k' i i' c hk hk' => h.single k k' i i' c (hkept hk) (hkept hk') }

/-- A connection gets another handle. -/
theorem Sound.transfer (h : t.Sound) (hvacant : Vacant (t.owner handle)) (hne : handle ≠ other)
    (hstep : t.transfer handle other = some t') : t'.Sound := by
  obtain ⟨o, ho, rfl⟩ := Option.map_eq_some_iff.mp hstep
  have howner {k : Nat} (hk : k ≠ handle) (hk' : k ≠ other) :
      ((t.setOwner other (some none)).setOwner handle (some o)).owner k = t.owner k := by
    rw [setOwner_ne _ _ hk, setOwner_ne _ _ hk']
  have hold {k : Nat} {ic : Nat × Nat}
      (hk : ((t.setOwner other (some none)).setOwner handle (some o)).owner k = some (some ic)) :
      (k = handle ∧ t.owner other = some (some ic)) ∨
        (k ≠ handle ∧ k ≠ other ∧ t.owner k = some (some ic)) := by
    rcases update_eq_some hk with ⟨hkh, hk⟩ | ⟨hkh, hk⟩
    · exact Or.inl ⟨hkh, ho.trans hk⟩
    · rcases update_eq_some hk with ⟨-, hk⟩ | ⟨hko, hk⟩
      · exact absurd hk (vacant_some_none ic)
      · exact Or.inr ⟨hkh, hko, hk⟩
  exact { h with
    owned := fun i l hl d hd => by
      obtain ⟨k, hk⟩ := h.owned i l hl d hd
      by_cases hko : k = other
      · subst hko
        rw [hk] at ho
        exact ⟨handle, by rw [setOwner_self, ← ho]⟩
      · have hkh : k ≠ handle := by
          rintro rfl
          exact hvacant _ hk
        exact ⟨k, by rw [howner hkh hko, hk]⟩
    given := fun k i c hk => by
      rcases hold hk with ⟨-, hk⟩ | ⟨-, -, hk⟩
      · exact h.given other i c hk
      · exact h.given k i c hk
    single := fun k k' i i' c hk hk' => by
      rcases hold hk with ⟨hkh, hold₁⟩ | ⟨-, hko, hold₁⟩ <;>
        rcases hold hk' with ⟨hkh', hold₂⟩ | ⟨-, hko', hold₂⟩
      · exact hkh.trans hkh'.symm
      · exact absurd (h.single _ _ i i' c hold₁ hold₂).symm hko'
      · exact absurd (h.single _ _ i i' c hold₁ hold₂) hko
      · exact h.single _ _ i i' c hold₁ hold₂ }

/-- A new connection is the last in its list, under a number of its own. -/
theorem Sound.connect (h : t.Sound) {l : List (DelegatePtr β)} (hvacant : Vacant (t.owner handle))
    (hl : t.live signal = some l) (target : β) :
    Sound { t with
      live := Function.update t.live signal (some (l ++ [⟨t.connections, target⟩]))
      connections := t.connections + 1
      owner := Function.update t.owner handle (some (some (signal, t.connections))) } := by
  have hlive {i : Nat} {l' : List (DelegatePtr β)}
      (hl' : Function.update t.live signal (some (l ++ [⟨t.connections, target⟩])) i = some l') :
      (i = signal ∧ l' = l ++ [⟨t.connections, target⟩]) ∨ t.live i = some l' := by
    rcases update_eq_some hl' with ⟨hi, hl'⟩ | ⟨-, hl'⟩
    · exact Or.inl ⟨hi, (Option.some.inj hl').symm⟩
    · exact Or.inr hl'
  have howner {k : Nat} {ic : Nat × Nat} (hk : Function.update t.owner handle
      (some (some (signal, t.connections))) k = some (some ic)) :
      (k = handle ∧ ic = (signal, t.connections)) ∨ t.owner k = some (some ic) := by
    rcases update_eq_some hk with ⟨hkh, hk⟩ | ⟨-, hk⟩
    · exact Or.inl ⟨hkh, (Option.some.inj (Option.some.inj hk)).symm⟩
    · exact Or.inr hk
  have hkept {i : Nat} {d : DelegatePtr β} (hd : ∃ k, t.owner k = some (some (i, d.address))) :
      ∃ k, Function.update t.owner handle (some (some (signal, t.connections))) k =
        some (some (i, d.address)) := by
    obtain ⟨k, hk⟩ := hd
    have hkh : k ≠ handle := by
      rintro rfl
      exact hvacant _ hk
    exact ⟨k, by rw [Function.update_of_ne hkh, hk]⟩
  exact { h with
    ordered := fun i l' hl' => by
      rcases hlive hl' with ⟨rfl, rfl⟩ | hl'
      · rw [List.map_append, List.pairwise_append]
        refine ⟨h.ordered i l hl, List.pairwise_singleton .., fun a ha b hb => ?_⟩
        obtain ⟨d, hd, rfl⟩ := List.mem_map.mp ha
        rw [List.mem_singleton.mp hb]
        exact h.numbered i l hl d hd
      · exact h.ordered i l' hl'
    numbered := fun i l' hl' d hd => by
      rcases hlive hl' with ⟨rfl, rfl⟩ | hl'
      · rcases List.mem_append.mp hd with hd | hd
        · exact Nat.lt_succ_of_lt (h.numbered i l hl d hd)
        · rw [List.mem_singleton.mp hd]
          exact Nat.lt_succ_self _
      · exact Nat.lt_succ_of_lt (h.numbered i l' hl' d hd)
    owned := fun i l' hl' d hd => by
      rcases hlive hl' with ⟨rfl, rfl⟩ | hl'
      · rcases List.mem_append.mp hd with hd | hd
        · exact hkept (h.owned i l hl d hd)
        · rw [List.mem_singleton.mp hd]
          exact ⟨handle, Function.update_self ..⟩
      · exact hkept (h.owned i l' hl' d hd)
    given := fun k i c hk => by
      rcases howner hk with ⟨-, hic⟩ | hk
      · cases hic
        exact Nat.lt_succ_self _
      · exact Nat.lt_succ_of_lt (h.given k i c hk)
    single := fun k k' i i' c hk hk' => by
      rcases howner hk with ⟨hkh, hic⟩ | hold <;> rcases howner hk' with ⟨hkh', hic'⟩ | hold'
      · exact hkh.trans hkh'.symm
      · cases hic
        exact absurd (h.given _ _ _ hold') (Nat.lt_irrefl _)
      · cases hic'
        exact absurd (h.given _ _ _ hold) (Nat.lt_irrefl _)
      · exact h.single k k' i i' c hold hold' }

/-! ### Emissions -/

/-- A number that has not been given yet. -/
theorem filter_eq_nil_of_lt {γ : Type} {ps : List (Nat × γ)} {n : Nat} (h : ∀ p ∈ ps, p.1 < n) :
    (ps.filter fun p => p.1 = n) = [] := by
  rw [List.filter_eq_nil_iff]
  intro p hp
  have hlt := h p hp
  simp only [decide_eq_true_eq]
  omega

/-- An emission begins with a copy of the list. -/
theorem Sound.emit (h : t.Sound) (l : List (DelegatePtr β)) :
    Sound { t with running := (t.begun.length, l) :: t.running, begun := t.begun ++ [l] } := by
  have hlength : (t.begun ++ [l]).length = t.begun.length + 1 := by
    rw [List.length_append, List.length_singleton]
  exact { h with
    called := fun p hp => by
      rw [hlength]
      exact Nat.lt_succ_of_lt (h.called p hp)
    running := fun p hp => by
      rw [hlength]
      rcases List.mem_cons.mp hp with rfl | hp
      · exact Nat.lt_succ_self _
      · exact Nat.lt_succ_of_lt (h.running p hp)
    exact := fun n l' hl' => by
      by_cases hn : n = t.begun.length
      · -- the new one: nothing is called, everything is pending
        subst hn
        rw [List.getElem?_concat_length] at hl'
        cases hl'
        simp [calledBy, pending, filter_eq_nil_of_lt h.called, filter_eq_nil_of_lt h.running]
      · have hold : t.begun[n]? = some l' := by
          rw [List.getElem?_append] at hl'
          split at hl'
          · exact hl'
          · rw [List.getElem?_singleton] at hl'
            split at hl'
            · omega
            · contradiction
        have hpending : pending { t with
            running := (t.begun.length, l) :: t.running
            begun := t.begun ++ [l] } n = t.pending n := by
          simp [pending, Ne.symm hn]
        rw [hpending]
        exact h.exact n l' hold }

/-- It calls the first of those that it has left. -/
theorem Sound.call (h : t.Sound) {n : Nat} {d : DelegatePtr β} {ds : List (DelegatePtr β)}
    {rest : List (Nat × List (DelegatePtr β))} (hrunning : t.running = (n, d :: ds) :: rest) :
    Sound { t with running := (n, ds) :: rest, calls := t.calls ++ [(n, d)] } := by
  have hn : n < t.begun.length := h.running (n, d :: ds) (by simp [hrunning])
  exact { h with
    called := fun p hp => by
      rcases List.mem_append.mp hp with hp | hp
      · exact h.called p hp
      · rw [List.mem_singleton.mp hp]
        exact hn
    running := fun p hp => by
      rcases List.mem_cons.mp hp with rfl | hp
      · exact hn
      · exact h.running p (by rw [hrunning]; exact List.mem_cons_of_mem _ hp)
    exact := fun m l hl => by
      rw [← h.exact m l hl]
      by_cases hm : n = m
      · simp [calledBy, pending, hrunning, hm]
      · simp [calledBy, pending, hrunning, hm] }

/-- It is over when it has none left. -/
theorem Sound.finish (h : t.Sound) {n : Nat} {rest : List (Nat × List (DelegatePtr β))}
    (hrunning : t.running = (n, []) :: rest) : Sound { t with running := rest } := by
  exact { h with
    running := fun p hp => h.running p (by rw [hrunning]; exact List.mem_cons_of_mem _ hp)
    exact := fun m l hl => by
      rw [← h.exact m l hl]
      by_cases hm : n = m
      · simp [calledBy, pending, hrunning, hm]
      · simp [calledBy, pending, hrunning, hm] }

/-- No signals, no handles, no emissions. -/
theorem sound_start : Sound ({} : Observers β) where
  ordered i l hl := by contradiction
  numbered i l hl := by contradiction
  owned i l hl := by contradiction
  given k i c hk := by contradiction
  single k k' i i' c hk := by contradiction
  called p hp := by contradiction
  running p hp := by contradiction
  exact n l hl := by simp at hl

/-- One operation, in whatever emissions it is made. -/
theorem Sound.step (h : t.Sound) {op : SignalOp β} (hstep : t.step op = some t') : t'.Sound := by
  cases op with
  | construct signal =>
      simp only [Observers.step] at hstep
      split at hstep
      · cases hstep
        exact h.setLive_nil (by simp)
      · contradiction
  | destruct signal =>
      obtain ⟨l, -, rfl⟩ := Option.map_eq_some_iff.mp hstep
      exact h.setLive_nil (by simp)
  | connect handle signal delegate =>
      simp only [Observers.step] at hstep
      split at hstep
      · next l howner hl =>
        have hvacant : Vacant (t.owner handle) := by
          rw [howner]
          exact vacant_none
        split at hstep
        · cases hstep
          exact h.connect hvacant hl _
        · cases hstep
          exact h.setOwner hvacant vacant_some_none
      · contradiction
  | emptyHandle handle =>
      simp only [Observers.step] at hstep
      split at hstep
      · next howner =>
        cases hstep
        exact h.setOwner (by rw [howner]; exact vacant_none) vacant_some_none
      · contradiction
  | moveConstruct handle other =>
      simp only [Observers.step] at hstep
      split at hstep
      · next howner =>
        refine h.transfer (by rw [howner]; exact vacant_none) ?_ hstep
        rintro rfl
        simp [Observers.transfer, howner] at hstep
      · contradiction
  | moveAssign handle other =>
      simp only [Observers.step] at hstep
      split at hstep
      · next o _ howner _ =>
        split at hstep
        · cases hstep
          exact h
        · next hne =>
          have hreleased := h.drop howner vacant_some_none
          simp only [release, howner, Option.map_some, Option.bind_some] at hstep
          exact hreleased.transfer (by rw [setOwner_self]; exact vacant_some_none) hne hstep
      · contradiction
  | disconnect handle =>
      obtain ⟨o, howner, rfl⟩ := Option.map_eq_some_iff.mp hstep
      exact h.drop howner vacant_some_none
  | destroy handle =>
      obtain ⟨o, howner, rfl⟩ := Option.map_eq_some_iff.mp hstep
      exact h.drop howner vacant_none
  | clear signal =>
      obtain ⟨l, -, rfl⟩ := Option.map_eq_some_iff.mp hstep
      exact h.setLive_nil (by simp)
  | emit signal =>
      obtain ⟨l, -, rfl⟩ := Option.map_eq_some_iff.mp hstep
      exact h.emit l
  | call =>
      simp only [Observers.step] at hstep
      split at hstep
      · next hrunning =>
        cases hstep
        exact h.call hrunning
      · contradiction
  | finish =>
      simp only [Observers.step] at hstep
      split at hstep
      · next hrunning =>
        cases hstep
        exact h.finish hrunning
      · contradiction

end Sound

end Observers

/-! ## The signals and their connections -/

section Matches

variable (sboCount : Nat) (s : SignalStore β) (t : Observers β)

/-- A connection that is set up. -/
def Connection.of (state copy : Nat) : Connection where
  ctx1 := some state
  ctx2 := some copy
  disconnectFn := true
  connected := true

/-- What a handle stands for.  Its block is that of the signal, or it is dead
and the connection is not live any more. -/
inductive Stands : Option Connection → Option (Option (Nat × Nat)) → Prop
  | absent : Stands none none
  | empty : Stands (some {}) (some none)
  | current {signal state copy : Nat} (hstate : s.signals signal = some state)
      (hcopy : copy < t.connections) :
      Stands (some (.of state copy)) (some (some (signal, copy)))
  | stale {signal state copy : Nat} (hstate : state < s.allocated)
      (hdead : (s.states state).alive = false)
      (hgone : ∀ l, t.live signal = some l → ∀ d ∈ l, d.address ≠ copy)
      (hcopy : copy < t.connections) :
      Stands (some (.of state copy)) (some (some (signal, copy)))

/-- An emission and what it has still to call. -/
def Goes (e : Emission β) (r : Nat × List (DelegatePtr β)) : Prop :=
  e.number = r.1 ∧ ∃ all : List (DelegatePtr β),
    (∀ i, e.snapshot.visit sboCount i = all[i]?.map some) ∧ r.2 = all.drop e.index

structure Matches : Prop where
  live : ∀ i, t.live i = (s.signals i).map fun state => (s.states state).delegates
  states : ∀ i state, s.signals i = some state →
    state < s.allocated ∧ (s.states state).alive = true
  apart : ∀ i j state, s.signals i = some state → s.signals j = some state → i = j
  handles : ∀ k, Stands s t (s.handles k) (t.owner k)
  copies : s.copies = t.connections
  emissions : List.Forall₂ (Goes sboCount) s.emissions t.running
  emitted : s.emitted = t.begun.length
  calls : s.calls = t.calls

end Matches

section Simulation

open Observers

variable {sboCount : Nat} {s s' : SignalStore β} {t t' : Observers β} {signal handle other : Nat}

/-- What a handle stands for does not change when the signals change like
this. -/
theorem Stands.mono {conn : Option Connection} {o : Option (Option (Nat × Nat))}
    (h : Stands s t conn o)
    (hcurrent : ∀ i state c, s.signals i = some state → c < t.connections →
      s'.signals i = some state ∨ (state < s'.allocated ∧ (s'.states state).alive = false ∧
        ∀ l, t'.live i = some l → ∀ d ∈ l, d.address ≠ c))
    (hstale : ∀ i state c, state < s.allocated → (s.states state).alive = false →
      c < t.connections → (∀ l, t.live i = some l → ∀ d ∈ l, d.address ≠ c) →
      state < s'.allocated ∧ (s'.states state).alive = false ∧
        ∀ l, t'.live i = some l → ∀ d ∈ l, d.address ≠ c)
    (hconnections : t.connections ≤ t'.connections) : Stands s' t' conn o := by
  cases h with
  | absent => exact .absent
  | empty => exact .empty
  | @current i state c hstate hcopy =>
      rcases hcurrent i state c hstate hcopy with hstate' | ⟨hlt, hdead, hgone⟩
      · exact .current hstate' (Nat.lt_of_lt_of_le hcopy hconnections)
      · exact .stale hlt hdead hgone (Nat.lt_of_lt_of_le hcopy hconnections)
  | @stale i state c hstate hdead hgone hcopy =>
      obtain ⟨hlt, hdead', hgone'⟩ := hstale i state c hstate hdead hcopy hgone
      exact .stale hlt hdead' hgone' (Nat.lt_of_lt_of_le hcopy hconnections)

/-- A signal gets a new block, or none, and its old one is dead. -/
structure Replaces (s : SignalStore β) (signal : Nat) (x : Option Nat) (allocated : Nat)
    (blocks : Nat → SignalState β) : Prop where
  new : ∀ state, x = some state → state = s.allocated ∧ state < allocated ∧ blocks state = {}
  grows : s.allocated ≤ allocated
  old : ∀ state, s.signals signal = some state → (blocks state).alive = false
  other : ∀ state, state < s.allocated → s.signals signal ≠ some state →
    blocks state = s.states state

section Replaces

variable {x : Option Nat} {allocated : Nat} {blocks : Nat → SignalState β}

/-- The blocks of the other signals stay as they are. -/
theorem Replaces.same (hr : Replaces s signal x allocated blocks) (h : Matches sboCount s t)
    {i state : Nat} (hi : i ≠ signal) (hstate : s.signals i = some state) :
    blocks state = s.states state :=
  hr.other state (h.states i state hstate).1 fun hs => hi (h.apart i signal state hstate hs)

/-- A new block has no subscribers. -/
theorem Replaces.live (hr : Replaces s signal x allocated blocks) (h : Matches sboCount s t)
    (i : Nat) : (t.setLive signal (x.map fun _ => [])).live i =
      (Function.update s.signals signal x i).map fun state => (blocks state).delegates := by
  by_cases hi : i = signal
  · subst hi
    rw [setLive_self, Function.update_self]
    cases hx : x with
    | none => rfl
    | some state => simp [(hr.new state hx).2.2]
  · rw [setLive_ne t _ hi, h.live i, Function.update_of_ne hi]
    cases hs : s.signals i with
    | none => rfl
    | some state => simp [hr.same h hi hs]

/-- The blocks in use are live ones. -/
theorem Replaces.states (hr : Replaces s signal x allocated blocks) (h : Matches sboCount s t)
    {i state : Nat} (hstate : Function.update s.signals signal x i = some state) :
    state < allocated ∧ (blocks state).alive = true := by
  rcases update_eq_some hstate with ⟨-, hs⟩ | ⟨hi, hs⟩
  · obtain ⟨-, hlt, hnew⟩ := hr.new state hs
    exact ⟨hlt, by rw [hnew]⟩
  · obtain ⟨hlt, halive⟩ := h.states i state hs
    exact ⟨Nat.lt_of_lt_of_le hlt hr.grows, by rw [hr.same h hi hs, halive]⟩

/-- No two signals share a block: one that was in use is not the new one. -/
theorem Replaces.apart (hr : Replaces s signal x allocated blocks) (h : Matches sboCount s t)
    {i j state : Nat} (hstate : Function.update s.signals signal x i = some state)
    (hstate' : Function.update s.signals signal x j = some state) : i = j := by
  have hused {k : Nat} (hs : s.signals k = some state) : x ≠ some state := by
    intro hx
    have hlt := (h.states k state hs).1
    rw [(hr.new state hx).1] at hlt
    exact Nat.lt_irrefl _ hlt
  rcases update_eq_some hstate with ⟨hi, hs⟩ | ⟨-, hs⟩ <;>
    rcases update_eq_some hstate' with ⟨hj, hs'⟩ | ⟨-, hs'⟩
  · exact hi.trans hj.symm
  · exact absurd hs (hused hs')
  · exact absurd hs' (hused hs)
  · exact h.apart i j state hs hs'

/-- No connection comes to life. -/
theorem gone_setLive {i c : Nat} (hgone : ∀ l, t.live i = some l → ∀ d ∈ l, d.address ≠ c) :
    ∀ l, (t.setLive signal (x.map fun _ => [])).live i = some l → ∀ d ∈ l, d.address ≠ c := by
  intro l hl
  rcases update_eq_some hl with ⟨-, hl⟩ | ⟨-, hl⟩
  · obtain ⟨_, -, rfl⟩ := Option.map_eq_some_iff.mp hl
    intro d hd
    contradiction
  · exact hgone l hl

/-- The connections to the old block are stale. -/
theorem Replaces.stands (hr : Replaces s signal x allocated blocks) (h : Matches sboCount s t)
    (k : Nat) :
    Stands
      { s with
        states := blocks
        allocated := allocated
        signals := Function.update s.signals signal x }
      (t.setLive signal (x.map fun _ => [])) (s.handles k) (t.owner k) := by
  refine (h.handles k).mono ?_ ?_ (Nat.le_refl _)
  · intro i state c hstate hc
    by_cases hi : i = signal
    · subst hi
      refine Or.inr ⟨Nat.lt_of_lt_of_le (h.states i state hstate).1 hr.grows,
        hr.old state hstate, fun l hl => ?_⟩
      rw [setLive_self] at hl
      obtain ⟨_, -, rfl⟩ := Option.map_eq_some_iff.mp hl
      intro d hd
      contradiction
    · exact Or.inl ((Function.update_of_ne hi ..).trans hstate)
  · intro i state c hlt hdead hc hgone
    refine ⟨Nat.lt_of_lt_of_le hlt hr.grows, ?_, gone_setLive hgone⟩
    by_cases hs : s.signals signal = some state
    · exact hr.old state hs
    · show (blocks state).alive = false
      rw [hr.other state hlt hs, hdead]

/-- The store and the observers agree about the new block. -/
theorem Matches.replace (h : Matches sboCount s t) (hr : Replaces s signal x allocated blocks) :
    Matches sboCount
      { s with
        states := blocks
        allocated := allocated
        signals := Function.update s.signals signal x }
      (t.setLive signal (x.map fun _ => [])) :=
  { h with
    live := hr.live h
    states := fun _ _ hstate => hr.states h hstate
    apart := fun _ _ _ hstate hstate' => hr.apart h hstate hstate'
    handles := hr.stands h }

end Replaces

/-- The subscriber list of a signal changes. -/
theorem Matches.edit (h : Matches sboCount s t) {state copies : Nat}
    {ds : List (DelegatePtr β)} (hstate : s.signals signal = some state)
    (hcopies : t.connections ≤ copies)
    (hds : ∀ d ∈ ds, d ∈ (s.states state).delegates ∨ t.connections ≤ d.address) :
    Matches sboCount
      { s with
        states := Function.update s.states state { s.states state with delegates := ds }
        copies := copies }
      { t with
        live := Function.update t.live signal (some ds)
        connections := copies } := by
  have hlive : t.live signal = some (s.states state).delegates := by
    rw [h.live signal, hstate]
    rfl
  have halive (r : Nat) : (Function.update s.states state
      { s.states state with delegates := ds } r).alive = (s.states r).alive := by
    by_cases hr : r = state
    · rw [hr, Function.update_self]
    · rw [Function.update_of_ne hr]
  exact { h with
    live := fun i => by
      by_cases hi : i = signal
      · subst hi
        simp [hstate]
      · have hother : ∀ r, s.signals i = some r → r ≠ state := by
          rintro r hr rfl
          exact hi (h.apart i signal r hr hstate)
        show Function.update t.live signal (some ds) i = _
        rw [Function.update_of_ne hi, h.live i]
        cases hs : s.signals i with
        | none => rfl
        | some r => simp [Function.update_of_ne (hother r hs)]
    states := fun i r hr => by
      obtain ⟨hlt, hr'⟩ := h.states i r hr
      exact ⟨hlt, (halive r).trans hr'⟩
    handles := fun k => by
      refine (h.handles k).mono (fun i r c hr _ => Or.inl hr) ?_ hcopies
      intro i r c hlt hdead hc hgone
      refine ⟨hlt, (halive r).trans hdead, fun l hl d hd => ?_⟩
      rcases update_eq_some hl with ⟨hi, hlds⟩ | ⟨-, hold⟩
      · rw [← Option.some.inj hlds] at hd
        rcases hds d hd with hd | hd
        · exact hgone _ (hi ▸ hlive) d hd
        · omega
      · exact hgone l hold d hd
    copies := rfl }

/-- It depends on nothing else. -/
theorem Stands.congr {conn : Option Connection} {o : Option (Option (Nat × Nat))}
    (h : Stands s t conn o) (hsignals : s'.signals = s.signals) (hstates : s'.states = s.states)
    (hallocated : s'.allocated = s.allocated) (hlive : t'.live = t.live)
    (hconnections : t'.connections = t.connections) : Stands s' t' conn o := by
  refine h.mono (fun i state c hstate _ => ?_) (fun i state c hlt hdead _ hgone => ?_)
    (Nat.le_of_eq hconnections.symm)
  · rw [hsignals]
    exact Or.inl hstate
  · rw [hallocated, hstates, hlive]
    exact ⟨hlt, hdead, hgone⟩

/-- The other handles stand for what they stood for. -/
theorem Stands.setHandle {conn conn' : Option Connection} {o o' : Option (Option (Nat × Nat))}
    (h : Stands s t conn o) : Stands (s.setHandle handle conn') (t.setOwner handle o') conn o :=
  h.congr rfl rfl rfl rfl rfl

/-- A handle is given a new meaning on both sides. -/
theorem Matches.setHandle (h : Matches sboCount s t) {conn : Option Connection}
    {o : Option (Option (Nat × Nat))} (hstands : Stands s t conn o) :
    Matches sboCount (s.setHandle handle conn) (t.setOwner handle o) := by
  exact { h with
    handles := fun k => by
      show Stands _ _ (Function.update s.handles handle conn k) _
      by_cases hk : k = handle
      · subst hk
        rw [setOwner_self, Function.update_self]
        exact hstands.setHandle
      · rw [setOwner_ne _ _ hk, Function.update_of_ne hk]
        exact (h.handles k).setHandle }

/-- A handle is there in both or in neither. -/
theorem Matches.handle_cases (h : Matches sboCount s t) (handle : Nat) :
    (s.handles handle = none ∧ t.owner handle = none) ∨
      ∃ conn o, s.handles handle = some conn ∧ t.owner handle = some o ∧
        Stands s t (some conn) (some o) := by
  have hstands := h.handles handle
  cases hconn : s.handles handle with
  | none =>
      rw [hconn] at hstands
      cases ho : t.owner handle with
      | none => exact Or.inl ⟨rfl, rfl⟩
      | some o =>
          rw [ho] at hstands
          cases hstands
  | some conn =>
      rw [hconn] at hstands
      cases ho : t.owner handle with
      | none =>
          rw [ho] at hstands
          cases hstands
      | some o =>
          rw [ho] at hstands
          exact Or.inr ⟨conn, o, rfl, rfl, hstands⟩

/-- A signal is constructed. -/
theorem Matches.construct (h : Matches sboCount s t) :
    Option.Rel (Matches sboCount) (s.construct signal) (t.step (.construct signal)) := by
  have hlive := h.live signal
  cases hs : s.signals signal with
  | some state =>
      rw [hs] at hlive
      simp only [SignalStore.construct, Observers.step, hs, hlive]
      exact .none
  | none =>
      rw [hs] at hlive
      simp only [SignalStore.construct, Observers.step, hs, hlive]
      refine .some (h.replace (x := some s.allocated) ⟨fun state hstate => ?_, Nat.le_succ _,
        fun state hstate => ?_, fun state hlt _ => Function.update_of_ne (Nat.ne_of_lt hlt) ..⟩)
      · cases hstate
        exact ⟨rfl, Nat.lt_succ_self _, Function.update_self ..⟩
      · rw [hs] at hstate
        contradiction

/-- A signal is destroyed; its block is dead from then on. -/
theorem Matches.destruct (h : Matches sboCount s t) :
    Option.Rel (Matches sboCount) (s.destruct signal) (t.step (.destruct signal)) := by
  have hlive := h.live signal
  cases hs : s.signals signal with
  | none =>
      rw [hs] at hlive
      simp only [SignalStore.destruct, Observers.step, hs, hlive]
      exact .none
  | some old =>
      rw [hs] at hlive
      simp only [SignalStore.destruct, Observers.step, hs, hlive]
      refine .some (h.replace (x := none) ⟨by simp, Nat.le_refl _, fun state hstate => ?_,
        fun state _ hne => Function.update_of_ne ?_ ..⟩)
      · rw [hs] at hstate
        cases hstate
        show (Function.update s.states old _ old).alive = false
        rw [Function.update_self]
      · rintro rfl
        exact hne hs

/-- `Clear` gives the signal a new block. -/
theorem Matches.clear (h : Matches sboCount s t) :
    Option.Rel (Matches sboCount) (s.clear signal) (t.step (.clear signal)) := by
  have hlive := h.live signal
  cases hs : s.signals signal with
  | none =>
      rw [hs] at hlive
      simp only [SignalStore.clear, Observers.step, hs, hlive]
      exact .none
  | some old =>
      rw [hs] at hlive
      simp only [SignalStore.clear, Observers.step, hs, hlive]
      have hold : old < s.allocated := (h.states signal old hs).1
      refine .some (h.replace (x := some s.allocated) ⟨fun state hstate => ?_, Nat.le_succ _,
        fun state hstate => ?_, fun state hlt hne => ?_⟩)
      · cases hstate
        refine ⟨rfl, Nat.lt_succ_self _, ?_⟩
        show Function.update (Function.update s.states s.allocated {}) old _ s.allocated = {}
        rw [Function.update_of_ne (Nat.ne_of_gt hold), Function.update_self]
      · rw [hs] at hstate
        cases hstate
        simp
      · have hstate : state ≠ old := by
          rintro rfl
          exact hne hs
        show Function.update (Function.update s.states s.allocated {}) old _ state = s.states state
        rw [Function.update_of_ne hstate, Function.update_of_ne (Nat.ne_of_lt hlt)]

/-- `Connect` adds to the list, and its handle knows block and copy. -/
theorem Matches.connect (h : Matches sboCount s t) {delegate : Option β} :
    Option.Rel (Matches sboCount) (s.connect signal handle delegate)
      (t.step (.connect handle signal delegate)) := by
  have hlive := h.live signal
  simp only [SignalStore.connect, Observers.step]
  rcases h.handle_cases handle with ⟨hconn, howner⟩ | ⟨conn, o, hconn, howner, -⟩
  · rw [hconn, howner]
    cases hs : s.signals signal with
    | none =>
        rw [hs] at hlive
        rw [hlive]
        exact .none
    | some state =>
        rw [hs] at hlive
        rw [hlive]
        cases delegate with
        | none => exact .some (h.setHandle .empty)
        | some target =>
            have hds : ∀ d ∈ (s.states state).delegates ++ [⟨t.connections, target⟩],
                d ∈ (s.states state).delegates ∨ t.connections ≤ d.address := by
              intro d hd
              rcases List.mem_append.mp hd with hd | hd
              · exact Or.inl hd
              · rw [List.mem_singleton.mp hd]
                exact Or.inr (Nat.le_refl _)
            have hadded := h.edit hs (Nat.le_succ _) hds
            rw [h.copies]
            exact .some (hadded.setHandle (.current hs (Nat.lt_succ_self _)))
  · rw [hconn, howner]
    exact .none

/-- A default-constructed handle. -/
theorem Matches.emptyHandle (h : Matches sboCount s t) :
    Option.Rel (Matches sboCount) (s.emptyHandle handle) (t.step (.emptyHandle handle)) := by
  simp only [SignalStore.emptyHandle, Observers.step]
  rcases h.handle_cases handle with ⟨hconn, howner⟩ | ⟨conn, o, hconn, howner, -⟩
  · rw [hconn, if_pos howner]
    exact .some (h.setHandle .empty)
  · rw [hconn, if_neg (by simp [howner])]
    exact .none

/-- `Disconnect` removes what the handle stands for, and only that. -/
theorem Matches.disconnectConnection (h : Matches sboCount s t) {conn : Connection}
    {o : Option (Nat × Nat)} (hstands : Stands s t (some conn) (some o)) :
    ∃ s', s.disconnectConnection conn = some (s', {}) ∧ Matches sboCount s' (t.remove o) := by
  cases hstands with
  | empty => exact ⟨s, rfl, h⟩
  | @current i state c hstate hcopy =>
      have hlive : t.live i = some (s.states state).delegates := by
        rw [h.live i, hstate]
        rfl
      have hleft : ∀ d ∈ (s.states state).delegates.filter (fun d => some d.address ≠ some c),
          d ∈ (s.states state).delegates ∨ t.connections ≤ d.address :=
        fun d hd => Or.inl (List.mem_filter.mp hd).1
      have hedited := h.edit hstate (Nat.le_refl _) hleft
      have hremove : t.remove (some (i, c)) = { t with
          live := Function.update t.live i (some ((s.states state).delegates.filter
            fun d => some d.address ≠ some c)) } := by
        simp [Observers.remove, Observers.setLive, hlive]
      rw [hremove]
      refine ⟨_, ?_, hedited⟩
      show (s.signalDisconnectImpl (some state) (some c)).map _ = _
      rw [SignalStore.signalDisconnectImpl]
      simp only [(h.states i state hstate).2, h.copies]
      rfl
  | @stale i state c hstate hdead hgone hcopy =>
      refine ⟨s, ?_, ?_⟩
      · show (s.signalDisconnectImpl (some state) (some c)).map _ = _
        rw [SignalStore.signalDisconnectImpl]
        simp only [hdead]
        rfl
      · have hremove : t.remove (some (i, c)) = t := by
          have hsame : (t.live i).map (fun l => l.filter fun d => d.address ≠ c) = t.live i := by
            cases hl : t.live i with
            | none => rfl
            | some l =>
                rw [Option.map_some, List.filter_eq_self.mpr]
                intro d hd
                simpa using hgone l hl d hd
          rw [Observers.remove, hsame, Observers.setLive, Function.update_eq_self]
        rw [hremove]
        exact h

/-- What `Disconnect` and the destructor have in common: `o'` is what is left
of the handle. -/
theorem Matches.giveUp (h : Matches sboCount s t) {conn : Connection} {o : Option (Nat × Nat)}
    (hstands : Stands s t (some conn) (some o)) (conn' : Connection → Option Connection)
    {o' : Option (Option (Nat × Nat))}
    (hleft : ∀ (s' : SignalStore β) (t' : Observers β), Stands s' t' (conn' {}) o') :
    Option.Rel (Matches sboCount)
      ((s.disconnectConnection conn).map fun r => r.1.setHandle handle (conn' r.2))
      (some ((t.remove o).setOwner handle o')) := by
  obtain ⟨s', hs', hmatches⟩ := h.disconnectConnection hstands
  rw [hs', Option.map_some]
  exact .some (hmatches.setHandle (hleft s' _))

/-- `Disconnect` finds the block, or finds that it is dead. -/
theorem Matches.disconnect (h : Matches sboCount s t) (handle : Nat) :
    Option.Rel (Matches sboCount) (s.disconnect handle) (t.release handle) := by
  simp only [SignalStore.disconnect, Observers.release]
  rcases h.handle_cases handle with ⟨hconn, howner⟩ | ⟨conn, o, hconn, howner, hstands⟩
  · rw [hconn, howner]
    exact .none
  · rw [hconn, howner]
    exact h.giveUp hstands some fun _ _ => .empty

/-- A handle that goes out of scope disconnects first. -/
theorem Matches.destroy (h : Matches sboCount s t) :
    Option.Rel (Matches sboCount) (s.destroy handle) (t.step (.destroy handle)) := by
  simp only [SignalStore.destroy, Observers.step]
  rcases h.handle_cases handle with ⟨hconn, howner⟩ | ⟨conn, o, hconn, howner, hstands⟩
  · rw [hconn, howner]
    exact .none
  · rw [hconn, howner]
    exact h.giveUp hstands (fun _ => none) fun _ _ => .absent

/-- A connection goes from one handle to another. -/
theorem Matches.transfer (h : Matches sboCount s t) (handle other : Nat) :
    Option.Rel (Matches sboCount)
      ((s.handles other).map fun conn =>
        (s.setHandle other (some {})).setHandle handle (some conn))
      (t.transfer handle other) := by
  simp only [Observers.transfer]
  rcases h.handle_cases other with ⟨hconn, howner⟩ | ⟨conn, o, hconn, howner, hstands⟩
  · rw [hconn, howner]
    exact .none
  · rw [hconn, howner]
    exact .some ((h.setHandle .empty).setHandle hstands.setHandle)

/-- The move constructor. -/
theorem Matches.moveConstruct (h : Matches sboCount s t) :
    Option.Rel (Matches sboCount) (s.moveConstruct handle other)
      (t.step (.moveConstruct handle other)) := by
  have hmoved := h.transfer handle other
  simp only [SignalStore.moveConstruct, Observers.step]
  rcases h.handle_cases handle with ⟨hconn, howner⟩ | ⟨conn, o, hconn, howner, -⟩
  · rw [hconn, if_pos howner]
    cases hother : s.handles other with
    | none =>
        rw [hother] at hmoved
        exact hmoved
    | some conn =>
        rw [hother] at hmoved
        exact hmoved
  · rw [hconn, if_neg (by simp [howner])]
    exact .none

/-- The `Disconnect` in `Connection::operator=` has nothing left to do. -/
theorem Matches.disconnect_again (h : Matches sboCount s t) (howner : t.owner handle = some none) :
    ∃ s', s.disconnect handle = some s' ∧ Matches sboCount s' t := by
  have hstands := h.handles handle
  rw [howner] at hstands
  have hsame : t.setOwner handle (some none) = t := by
    rw [← howner, Observers.setOwner, Function.update_eq_self]
  cases hconn : s.handles handle with
  | none =>
      rw [hconn] at hstands
      cases hstands
  | some conn =>
      rw [hconn] at hstands
      cases hstands
      refine ⟨s.setHandle handle (some {}), ?_, ?_⟩
      · rw [SignalStore.disconnect, hconn]
        rfl
      · have hkept : Matches sboCount (s.setHandle handle (some {}))
            (t.setOwner handle (some none)) := h.setHandle .empty
        rw [hsame] at hkept
        exact hkept

/-- The move assignment disconnects first, and is nothing to itself. -/
theorem Matches.moveAssign (h : Matches sboCount s t) :
    Option.Rel (Matches sboCount) (s.moveAssign handle other)
      (t.step (.moveAssign handle other)) := by
  simp only [SignalStore.moveAssign, Observers.step]
  rcases h.handle_cases handle with ⟨hconn, howner⟩ | ⟨conn, o, hconn, howner, hstands⟩
  · rw [hconn, howner]
    exact .none
  rcases h.handle_cases other with ⟨hconn', howner'⟩ | ⟨conn', o', hconn', howner', -⟩
  · rw [hconn, hconn', howner, howner']
    exact .none
  rw [hconn, hconn', howner, howner']
  by_cases heq : handle = other
  · simp only [if_pos heq]
    exact .some h
  · simp only [if_neg heq]
    have hreleased := h.disconnect handle
    simp only [Observers.release, howner, Option.map_some] at hreleased ⊢
    cases hs : s.disconnect handle with
    | none =>
        rw [hs] at hreleased
        cases hreleased
    | some s₁ =>
        rw [hs] at hreleased
        cases hreleased with
        | some h₁ =>
            obtain ⟨s₂, hs₂, h₂⟩ := h₁.disconnect_again (setOwner_self ..)
            simp only [Option.bind_some, SignalStore.assignConnection, hs₂]
            exact h₂.transfer handle other

/-- `operator()` takes its snapshot. -/
theorem Matches.emit (h : Matches sboCount s t) :
    Option.Rel (Matches sboCount) (s.emit sboCount signal) (t.step (.emit signal)) := by
  have hlive := h.live signal
  simp only [SignalStore.emit, Observers.step]
  cases hs : s.signals signal with
  | none =>
      rw [hs] at hlive
      rw [hlive]
      exact .none
  | some state =>
      rw [hs] at hlive
      rw [hlive]
      exact .some { h with
        handles := fun k => (h.handles k).congr rfl rfl rfl rfl rfl
        emissions := .cons
          ⟨h.emitted, _, SignalSnapshot.visit_get sboCount (s.states state), rfl⟩ h.emissions
        emitted := by simp [h.emitted] }

/-- The innermost emission is at the same point. -/
theorem Goes.visit {e : Emission β} {n : Nat} {rest : List (DelegatePtr β)}
    (h : Goes sboCount e (n, rest)) :
    e.snapshot.visit sboCount e.index = rest.head?.map some ∧
      Goes sboCount { e with index := e.index + 1 } (n, rest.tail) := by
  obtain ⟨hnumber, all, hvisit, hrest⟩ := h
  have hrest : rest = all.drop e.index := hrest
  refine ⟨?_, hnumber, all, hvisit, ?_⟩
  · rw [hvisit, hrest, List.head?_drop]
  · show rest.tail = all.drop (e.index + 1)
    rw [hrest, List.tail_drop]

/-- The next subscriber of the innermost emission is called. -/
theorem Matches.call (h : Matches sboCount s t) :
    Option.Rel (Matches sboCount) (s.call sboCount) (t.step .call) := by
  have hemissions := h.emissions
  simp only [SignalStore.call, Observers.step]
  cases he : s.emissions with
  | nil =>
      rw [he, List.forall₂_nil_left_iff] at hemissions
      rw [hemissions]
      exact .none
  | cons e es =>
      rw [he, List.forall₂_cons_left_iff] at hemissions
      obtain ⟨⟨n, rest⟩, rs, hgoes, hes, hrunning⟩ := hemissions
      rw [hrunning]
      obtain ⟨hvisit, hnext⟩ := hgoes.visit
      cases rest with
      | nil =>
          simp only [hvisit]
          exact .none
      | cons d ds =>
          simp only [hvisit]
          have hnumber : e.number = n := hgoes.1
          exact .some { h with
            handles := fun k => (h.handles k).congr rfl rfl rfl rfl rfl
            emissions := .cons hnext hes
            calls := by rw [h.calls, hnumber]; rfl }

/-- The innermost emission is over. -/
theorem Matches.finish (h : Matches sboCount s t) :
    Option.Rel (Matches sboCount) (s.finish sboCount) (t.step .finish) := by
  have hemissions := h.emissions
  simp only [SignalStore.finish, Observers.step]
  cases he : s.emissions with
  | nil =>
      rw [he, List.forall₂_nil_left_iff] at hemissions
      rw [hemissions]
      exact .none
  | cons e es =>
      rw [he, List.forall₂_cons_left_iff] at hemissions
      obtain ⟨⟨n, rest⟩, rs, hgoes, hes, hrunning⟩ := hemissions
      rw [hrunning]
      obtain ⟨hvisit, -⟩ := hgoes.visit
      cases rest with
      | nil =>
          simp only [hvisit]
          exact .some { h with
            handles := fun k => (h.handles k).congr rfl rfl rfl rfl rfl
            emissions := hes }
      | cons d ds =>
          simp only [hvisit]
          exact .none

/-- Both sides begin with nothing. -/
theorem matches_start : Matches sboCount ({} : SignalStore β) {} where
  live _ := rfl
  states i state hstate := by contradiction
  apart i j state hstate := by contradiction
  handles _ := .absent
  copies := rfl
  emissions := .nil
  emitted := rfl
  calls := rfl

/-- One operation on both sides. -/
theorem Matches.step (h : Matches sboCount s t) (op : SignalOp β) :
    Option.Rel (Matches sboCount) (s.step sboCount op) (t.step op) := by
  cases op with
  | construct signal => exact h.construct
  | destruct signal => exact h.destruct
  | connect handle signal delegate => exact h.connect
  | emptyHandle handle => exact h.emptyHandle
  | moveConstruct handle other => exact h.moveConstruct
  | moveAssign handle other => exact h.moveAssign
  | disconnect handle => exact h.disconnect handle
  | destroy handle => exact h.destroy
  | clear signal => exact h.clear
  | emit signal => exact h.emit
  | call => exact h.call
  | finish => exact h.finish

end Simulation

/-! ## Signals notify exactly their live observers -/

section Main

variable (s : SignalStore β) (t : Observers β)

/-- What can be seen of the signals is what the connections say. -/
structure Notifies : Prop where
  size : ∀ i, s.size i = (t.live i).map List.length
  calls : s.calls = t.calls
  inProgress : s.emissions.map (fun e => e.number) = t.running.map Prod.fst
  sound : t.Sound
  prefixes : ∀ n l, t.begun[n]? = some l → t.calledBy n <+: l
  whole : ∀ n l, t.begun[n]? = some l → n ∉ t.running.map Prod.fst → t.calledBy n = l

variable {s t} {sboCount : Nat}

/-- What the pointers are for. -/
theorem Matches.notifies (h : Matches sboCount s t) (hsound : t.Sound) : Notifies s t where
  size i := by
    rw [SignalStore.size, h.live i, Option.map_map]
    rfl
  calls := h.calls
  inProgress := by
    have hemissions := h.emissions
    generalize s.emissions = es at hemissions
    generalize t.running = rs at hemissions
    induction hemissions with
    | nil => rfl
    | cons hgoes _ ih => rw [List.map_cons, List.map_cons, ih, hgoes.1]
  sound := hsound
  prefixes n l hl := ⟨_, hsound.exact n l hl⟩
  whole n l hl hdone := by
    have hpending : t.pending n = [] := by
      rw [Observers.pending, List.filter_eq_nil_iff.mpr]
      · rfl
      · intro p hp hpn
        exact hdone (List.mem_map.mpr ⟨p, hp, of_decide_eq_true hpn⟩)
    rw [← hsound.exact n l hl, hpending, List.append_nil]

/-- Whatever is done with the signals of a program, in whatever order, by
slots in the middle of an emission included, it has the effect it has on the
connections. -/
theorem signal_observers (sboCount : Nat) (ops : List (SignalOp β)) :
    Option.Rel Notifies (exec (SignalStore.step sboCount) {} ops) (exec Observers.step {} ops) := by
  have hstep (s : SignalStore β) (t : Observers β) (op : SignalOp β)
      (h : Matches sboCount s t ∧ t.Sound) :
      Option.Rel (fun s t => Matches sboCount s t ∧ t.Sound) (s.step sboCount op) (t.step op) :=
    rel_mono (h.1.step op) fun _ _ _ ht hmatches => ⟨hmatches, h.2.step ht⟩
  have hstart : Matches sboCount ({} : SignalStore β) {} ∧ Observers.Sound ({} : Observers β) :=
    ⟨matches_start, Observers.sound_start⟩
  exact rel_mono (exec_rel hstep hstart ops) fun _ _ _ _ h => h.1.notifies h.2

end Main

end ActiveFsm
