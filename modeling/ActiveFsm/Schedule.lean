import ActiveFsm.Proc

/-!
# ActiveFsm.Schedule

Processes one action at a time, as a scheduler interleaves them.

* `step` — the next action of a process;
* `Within B A` — every action of the process belongs to `A`, up to a point
  where the process satisfies `B`;
* `Local A R` — every action belongs to `A`, none waits, and none tells apart
  two worlds related by `R`.

Nothing here depends on what the world is.
-/

namespace Proc

variable {ε W α β : Type}

/-! ## Steps -/

/-- What a scheduler may let a process do next: its action, the waking of an
`await` whose condition holds, or the end of that wait. -/
inductive Move where
  | go
  | giveUp
  deriving DecidableEq, Repr

/-- The next action of a process; `none` when it has none to make. -/
def step : Proc ε W α → Move → W → Option (Proc ε W α × W)
  | act f k, .go, w => some (k w, f w)
  | await p f k, .go, w => if p w then some (k (some w), f w) else none
  | await _ _ k, .giveUp, w => some (k none, w)
  | _, _, _ => none

/-- A step of a process: its action, or a wait that is given up. -/
theorem step_cases {x x' : Proc ε W α} {m : Move} {w w' : W} (h : x.step m w = some (x', w')) :
    (∃ f k, x = act f k ∧ m = .go ∧ x' = k w ∧ w' = f w) ∨
    (∃ p f k, x = await p f k ∧ m = .go ∧ p w = true ∧ x' = k (some w) ∧ w' = f w) ∨
    (∃ p f k, x = await p f k ∧ m = .giveUp ∧ x' = k none ∧ w' = w) := by
  cases x with
  | ret a => cases m <;> simp [step] at h
  | halt e => cases m <;> simp [step] at h
  | act f k =>
      cases m with
      | go =>
          simp only [step, Option.some.injEq, Prod.mk.injEq] at h
          exact .inl ⟨f, k, rfl, rfl, h.1.symm, h.2.symm⟩
      | giveUp => simp [step] at h
  | await p f k =>
      cases m with
      | go =>
          simp only [step] at h
          split at h
          · next hp =>
              simp only [Option.some.injEq, Prod.mk.injEq] at h
              exact .inr (.inl ⟨p, f, k, rfl, rfl, hp, h.1.symm, h.2.symm⟩)
          · contradiction
      | giveUp =>
          simp only [step, Option.some.injEq, Prod.mk.injEq] at h
          exact .inr (.inr ⟨p, f, k, rfl, rfl, h.1.symm, h.2.symm⟩)

/-- A process runs alone as it runs step by step. -/
theorem run_step {x x' : Proc ε W α} {w w' : W} (h : x.step .go w = some (x', w')) :
    x.run w = x'.run w' := by
  obtain ⟨f, k, rfl, -, rfl, rfl⟩ | ⟨p, f, k, rfl, -, hp, rfl, rfl⟩ | ⟨p, f, k, -, hgo, -⟩ :=
    step_cases h
  · rfl
  · simp [run, hp]
  · contradiction

/-! ## What actions a process makes -/

/-- Every action of the process, on any path, changes the world by a function
in `A`, unless the process satisfies `B` before it. -/
def Within (B : Proc ε W α → Prop) (A : (W → W) → Prop) : Proc ε W α → Prop
  | ret _ => True
  | halt _ => True
  | act f k => B (act f k) ∨ A f ∧ ∀ w, (k w).Within B A
  | await p f k => B (await p f k) ∨ A f ∧ ∀ o, (k o).Within B A

section Within

variable {A : (W → W) → Prop} {B : Proc ε W β → Prop}

/-- One thing after the other, the first of which blocks on nothing. -/
theorem within_bind {x : Proc ε W α} {g : α → Proc ε W β} (hx : x.Within (fun _ => False) A)
    (hg : ∀ a, (g a).Within B A) : (x.bind g).Within B A := by
  induction x with
  | ret a => exact hg a
  | halt e => trivial
  | act f k ih =>
      obtain ⟨hf, hk⟩ := hx.resolve_left id
      exact .inr ⟨hf, fun w => ih w (hk w)⟩
  | await p f k ih =>
      obtain ⟨hf, hk⟩ := hx.resolve_left id
      exact .inr ⟨hf, fun o => ih o (hk o)⟩

/-- A process that satisfies `B` at once. -/
theorem within_of {x : Proc ε W β} (hx : B x) : x.Within B A := by
  cases x with
  | ret a => trivial
  | halt e => trivial
  | act f k => exact .inl hx
  | await p f k => exact .inl hx

/-- A step of such a process changes the world by a function in `A`, or not
at all, and leaves such a process. -/
theorem Within.step {x x' : Proc ε W β} {m : Move} {w w' : W} (hx : x.Within B A) (hB : ¬B x)
    (h : x.step m w = some (x', w')) : x'.Within B A ∧ (w' = w ∨ ∃ f, A f ∧ w' = f w) := by
  obtain ⟨f, k, rfl, -, rfl, rfl⟩ | ⟨p, f, k, rfl, -, -, rfl, rfl⟩ | ⟨p, f, k, rfl, -, rfl, rfl⟩ :=
    step_cases h
  · obtain ⟨hf, hk⟩ := hx.resolve_left hB
    exact ⟨hk w, .inr ⟨f, hf, rfl⟩⟩
  · obtain ⟨hf, hk⟩ := hx.resolve_left hB
    exact ⟨hk (some w), .inr ⟨f, hf, rfl⟩⟩
  · obtain ⟨-, hk⟩ := hx.resolve_left hB
    exact ⟨hk none, .inl rfl⟩

end Within

/-! ## What a process can see -/

/-- The process makes actions in `A` only, does not wait, and does not tell
apart two worlds related by `R`. -/
def Local (A : (W → W) → Prop) (R : W → W → Prop) : Proc ε W α → Prop
  | ret _ => True
  | halt _ => True
  | act f k => A f ∧ (∀ w w', R w w' → R (f w) (f w') ∧ k w = k w') ∧ ∀ w, (k w).Local A R
  | await _ _ _ => False

section Local

variable {A : (W → W) → Prop} {R : W → W → Prop}

/-- One thing after the other. -/
theorem local_bind {x : Proc ε W α} {g : α → Proc ε W β} (hx : x.Local A R)
    (hg : ∀ a, (g a).Local A R) : (x.bind g).Local A R := by
  induction x with
  | ret a => exact hg a
  | halt e => trivial
  | act f k ih =>
      obtain ⟨hA, hR, hk⟩ := hx
      refine ⟨hA, fun w w' hw => ⟨(hR w w' hw).1, ?_⟩, fun w => ih w (hk w)⟩
      show (k w).bind g = (k w').bind g
      rw [(hR w w' hw).2]
  | await p f k _ => exact hx.elim

/-- Either of two. -/
theorem local_ite {p : Prop} [Decidable p] {x y : Proc ε W α} (hx : x.Local A R)
    (hy : y.Local A R) : (if p then x else y).Local A R := by
  split
  · exact hx
  · exact hy

/-- A loop whose condition the relation does not change. -/
theorem local_loop {out : ε} {cond : W → Bool} {body : Proc ε W Unit} (hA : A id)
    (hcond : ∀ w w', R w w' → cond w = cond w') (hbody : body.Local A R) (n : Nat) :
    (loop out cond body n).Local A R := by
  induction n with
  | zero => trivial
  | succ n ih =>
      refine ⟨hA, fun w w' hw => ⟨hw, ?_⟩, fun w => ?_⟩
      · simp only [hcond w w' hw]
      · exact local_ite (local_bind hbody fun _ => ih) trivial

/-- The same for each of a list. -/
theorem local_each {f : β → Proc ε W Unit} (hf : ∀ b, (f b).Local A R) (bs : List β) :
    (each f bs).Local A R := by
  induction bs with
  | nil => trivial
  | cons b bs ih => exact local_bind (hf b) fun _ => ih

/-- From related worlds such a process comes to the same outcome, in related
worlds. -/
theorem Local.run {x : Proc ε W α} (hx : x.Local A R) {w w' : W} (hw : R w w') :
    (x.run w).1 = (x.run w').1 ∧ R (x.run w).2 (x.run w').2 := by
  induction x generalizing w w' with
  | ret a => exact ⟨rfl, hw⟩
  | halt e => exact ⟨rfl, hw⟩
  | act f k ih =>
      obtain ⟨-, hR, hk⟩ := hx
      obtain ⟨hf, heq⟩ := hR w w' hw
      simp only [Proc.run, ← heq]
      exact ih w (hk w) hf
  | await p f k _ => exact hx.elim

/-- What every action preserves holds when the process has run. -/
theorem Local.preserves {P : W → Prop} {x : Proc ε W α} (hx : x.Local A R)
    (hP : ∀ f, A f → ∀ w, P w → P (f w)) {w : W} (hw : P w) : P (x.run w).2 := by
  induction x generalizing w with
  | ret a => exact hw
  | halt e => exact hw
  | act f k ih =>
      obtain ⟨hA, -, hk⟩ := hx
      exact ih w (hk w) (hP f hA w hw)
  | await p f k _ => exact hx.elim

/-- A step of such a process is an action in `A`. -/
theorem Local.step {x x' : Proc ε W α} {m : Move} {w w' : W} (hx : x.Local A R)
    (h : x.step m w = some (x', w')) : m = .go ∧ x'.Local A R ∧ ∃ f, A f ∧ w' = f w := by
  obtain ⟨f, k, rfl, hm, rfl, rfl⟩ | ⟨p, f, k, rfl, -⟩ | ⟨p, f, k, rfl, -⟩ := step_cases h
  · exact ⟨hm, hx.2.2 w, f, hx.1, rfl⟩
  · exact hx.elim
  · exact hx.elim

end Local

end Proc
