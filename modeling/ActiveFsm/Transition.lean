/-!
# ActiveFsm.Transition

Deterministic labelled transition systems: `step s c` is the state that the
choice `c` leads to from `s`, `none` where `c` is not possible.

* `Runs.invariant` — what every step preserves holds in every state reached;
* `exec_rel` — two systems that match each other step by step match each
  other over whole runs.

Nothing here depends on what a state or a choice is.
-/

namespace Transition

variable {S T C : Type}

/-- Make the given choices one after the other. -/
def exec (step : S → C → Option S) (s : S) (cs : List C) : Option S := cs.foldlM step s

/-- `s'` is reached from `s`. -/
def Runs (step : S → C → Option S) (s s' : S) : Prop := ∃ cs, exec step s cs = some s'

variable {step : S → C → Option S} {s s' s'' : S}

@[simp] theorem exec_nil (s : S) : exec step s [] = some s := rfl

/-- The first choice, then the others. -/
theorem exec_cons (s : S) (c : C) (cs : List C) :
    exec step s (c :: cs) = (step s c).bind fun s' => exec step s' cs := by
  simp only [exec, List.foldlM_cons]
  rfl

/-- Some choices, then the others. -/
theorem exec_append (s : S) (cs cs' : List C) :
    exec step s (cs ++ cs') = (exec step s cs).bind fun s' => exec step s' cs' := by
  simp only [exec, List.foldlM_append]
  rfl

/-- One choice more. -/
theorem exec_snoc {cs : List C} (h : exec step s cs = some s') (c : C) :
    exec step s (cs ++ [c]) = step s' c := by
  rw [exec_append, h, Option.bind_some, exec_cons]
  exact Option.bind_fun_some _

/-- One run after another. -/
theorem Runs.trans (h : Runs step s s') (h' : Runs step s' s'') : Runs step s s'' := by
  obtain ⟨cs, hcs⟩ := h
  obtain ⟨cs', hcs'⟩ := h'
  refine ⟨cs ++ cs', ?_⟩
  rw [exec_append, hcs, Option.bind_some, hcs']

/-- The invariant rule. -/
theorem Runs.invariant {I : S → Prop} (h : Runs step s s')
    (hstep : ∀ s c s', I s → step s c = some s' → I s') (hs : I s) : I s' := by
  obtain ⟨cs, hcs⟩ := h
  induction cs generalizing s with
  | nil =>
      cases hcs
      exact hs
  | cons c cs ih =>
      rw [exec_cons] at hcs
      obtain ⟨s₁, hs₁, hrest⟩ := Option.bind_eq_some_iff.mp hcs
      exact ih (hstep s c s₁ hs hs₁) hrest

/-- The simulation rule, in both directions at once: from related states either
both systems can make a choice, and the states it leads to are related, or
neither can. -/
theorem exec_rel {step' : T → C → Option T} {R : S → T → Prop}
    (hstep : ∀ s t c, R s t → Option.Rel R (step s c) (step' t c)) {s : S} {t : T} (h : R s t)
    (cs : List C) : Option.Rel R (exec step s cs) (exec step' t cs) := by
  induction cs generalizing s t with
  | nil => exact .some h
  | cons c cs ih =>
      rw [exec_cons, exec_cons]
      have hfirst := hstep s t c h
      cases hs : step s c with
      | none =>
          rw [hs] at hfirst
          cases ht : step' t c with
          | none => exact .none
          | some t' =>
              rw [ht] at hfirst
              cases hfirst
      | some s' =>
          rw [hs] at hfirst
          cases ht : step' t c with
          | none =>
              rw [ht] at hfirst
              cases hfirst
          | some t' =>
              rw [ht] at hfirst
              cases hfirst with
              | some hR => exact ih hR

/-- What related results say more than `R` may use that they are the results. -/
theorem rel_mono {R R' : S → T → Prop} {x : Option S} {y : Option T} (h : Option.Rel R x y)
    (himp : ∀ s t, x = some s → y = some t → R s t → R' s t) : Option.Rel R' x y := by
  cases h with
  | none => exact .none
  | some hR => exact .some (himp _ _ rfl rfl hR)

end Transition
