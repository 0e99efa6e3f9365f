/-!
# ActiveFsm.Proc

Processes of atomic actions over a shared world, the language in which
sequential and interleaved code is written once:

* `ret` / `halt` — the process has returned a value, or stopped for good;
* `act f k` — one atomic step replaces the world `w` by `f w` and goes on
  with `k w` (the continuation sees the world *before* the step, so a
  read-modify-write is a single action);
* `await p f k` — a timed conditional region: atomically `f` once `p` holds
  (`k (some w)`), or giving up (`k none`).

`run` executes a process alone, to its end; `ActiveFsm.Schedule` executes one
action at a time, which is what a scheduler interleaves.  The weakest
precondition `wp` and the rules of this module are about `run`.

Nothing here depends on what the world is.
-/

/-- A process over worlds `W` that returns an `α` or halts with an `ε`. -/
inductive Proc (ε W α : Type) : Type where
  | ret (a : α)
  | halt (e : ε)
  | act (f : W → W) (k : W → Proc ε W α)
  | await (p : W → Bool) (f : W → W) (k : Option W → Proc ε W α)

namespace Proc

variable {ε W α β : Type}

/-! ## Sequencing -/

/-- Sequential composition. -/
def bind : Proc ε W α → (α → Proc ε W β) → Proc ε W β
  | ret a, g => g a
  | halt e, _ => halt e
  | act f k, g => act f fun w => (k w).bind g
  | await p f k, g => await p f fun o => (k o).bind g

instance : Monad (Proc ε W) where
  pure := ret
  bind := bind

/-- The process has returned. -/
def isRet : Proc ε W α → Bool
  | ret _ => true
  | _ => false

/-- A process without a result that has returned is done. -/
theorem eq_ret_of_isRet {x : Proc ε W Unit} (h : x.isRet = true) : x = ret () := by
  cases x with
  | ret _ => rfl
  | halt _ => contradiction
  | act _ _ => contradiction
  | await _ _ _ => contradiction

/-- Change the world in one action. -/
def modify (f : W → W) : Proc ε W Unit := act f fun _ => ret ()

@[simp] theorem bind_eq (x : Proc ε W α) (g : α → Proc ε W β) : x >>= g = x.bind g := rfl

@[simp] theorem ret_bind (a : α) (g : α → Proc ε W β) : (ret a).bind g = g a := rfl

@[simp] theorem halt_bind (e : ε) (g : α → Proc ε W β) : (halt e).bind g = halt e := rfl

@[simp] theorem act_bind (f : W → W) (k : W → Proc ε W α) (g : α → Proc ε W β) :
    (act f k).bind g = act f fun w => (k w).bind g := rfl

@[simp] theorem await_bind (p : W → Bool) (f : W → W) (k : Option W → Proc ε W α)
    (g : α → Proc ε W β) : (await p f k).bind g = await p f fun o => (k o).bind g := rfl

/-- Binding `ret` does nothing. -/
theorem bind_ret (x : Proc ε W α) : x.bind ret = x := by
  induction x with
  | ret a => rfl
  | halt e => rfl
  | act f k ih =>
      rw [act_bind]
      congr 1
      funext w
      exact ih w
  | await p f k ih =>
      rw [await_bind]
      congr 1
      funext o
      exact ih o

/-- Binding is associative. -/
theorem bind_assoc {γ : Type} (x : Proc ε W α) (g : α → Proc ε W β) (h : β → Proc ε W γ) :
    (x.bind g).bind h = x.bind fun a => (g a).bind h := by
  induction x with
  | ret a => rfl
  | halt e => rfl
  | act f k ih =>
      simp only [act_bind]
      congr 1
      funext w
      exact ih w
  | await p f k ih =>
      simp only [await_bind]
      congr 1
      funext o
      exact ih o

/-! ## Running alone -/

/-- Run a process alone.  Nobody else can make an `await` true, so one whose
condition does not hold gives up. -/
def run : Proc ε W α → W → Except ε α × W
  | ret a, w => (.ok a, w)
  | halt e, w => (.error e, w)
  | act f k, w => (k w).run (f w)
  | await p f k, w => if p w then (k (some w)).run (f w) else (k none).run w

/-- Hand the outcome of a run to the rest of the program. -/
def andThen (g : α → Proc ε W β) : Except ε α × W → Except ε β × W
  | (.ok a, w) => (g a).run w
  | (.error e, w) => (.error e, w)

/-- A run goes through both parts. -/
theorem run_bind (x : Proc ε W α) (g : α → Proc ε W β) (w : W) :
    (x.bind g).run w = andThen g (x.run w) := by
  induction x generalizing w with
  | ret a => rfl
  | halt e => rfl
  | act f k ih => exact ih w (f w)
  | await p f k ih =>
      simp only [await_bind, run]
      split
      · exact ih (some w) (f w)
      · exact ih none w

/-! ## Weakest preconditions -/

/-- What must hold of `w` for the run of `x` from it to return into `Q` or
halt into `E`. -/
def wp (x : Proc ε W α) (Q : α → W → Prop) (E : ε → W → Prop) (w : W) : Prop :=
  match x.run w with
  | (.ok a, w') => Q a w'
  | (.error e, w') => E e w'

section Rules

variable {Q Q' : α → W → Prop} {E E' : ε → W → Prop} {w : W}

@[simp] theorem wp_ret (a : α) : (ret a : Proc ε W α).wp Q E = Q a := rfl

@[simp] theorem wp_halt (e : ε) : (halt e : Proc ε W α).wp Q E = E e := rfl

@[simp] theorem wp_act (f : W → W) (k : W → Proc ε W α) :
    (act f k).wp Q E = fun w => (k w).wp Q E (f w) := rfl

/-- What holds after both parts. -/
@[simp] theorem wp_bind {R : β → W → Prop} (x : Proc ε W α) (g : α → Proc ε W β) :
    (x.bind g).wp R E = x.wp (fun a => (g a).wp R E) E := by
  funext w
  unfold wp
  rw [run_bind]
  rcases x.run w with ⟨_ | _, _⟩ <;> rfl

/-- Processes that run alike have the same specifications. -/
theorem wp_congr {x y : Proc ε W α} (h : x.run w = y.run w) : x.wp Q E w ↔ y.wp Q E w := by
  unfold wp
  rw [h]

/-- Consequence for the one run that there is. -/
theorem wp_mono_run {x : Proc ε W α} (h : x.wp Q E w)
    (hQ : ∀ a w', x.run w = (.ok a, w') → Q a w' → Q' a w')
    (hE : ∀ e w', x.run w = (.error e, w') → E e w' → E' e w') : x.wp Q' E' w := by
  unfold wp at h ⊢
  rcases hr : x.run w with ⟨_ | _, w'⟩
  · rw [hr] at h
    exact hE _ _ hr h
  · rw [hr] at h
    exact hQ _ _ hr h

/-- Consequence: postconditions may be weakened. -/
theorem wp_mono {x : Proc ε W α} (h : x.wp Q E w) (hQ : ∀ a w', Q a w' → Q' a w')
    (hE : ∀ e w', E e w' → E' e w') : x.wp Q' E' w :=
  wp_mono_run h (fun a w' _ => hQ a w') fun e w' _ => hE e w'

/-- Consequence for runs that return. -/
theorem wp_then {x : Proc ε W α} (h : x.wp Q E w) (hQ : ∀ a w', Q a w' → Q' a w') :
    x.wp Q' E w := wp_mono h hQ fun _ _ hE => hE

/-- A run that returns returns into the postcondition. -/
theorem wp_ok {x : Proc ε W α} {a : α} {w' : W} (h : x.wp Q E w) (hr : x.run w = (.ok a, w')) :
    Q a w' := by
  unfold wp at h
  rwa [hr] at h

/-- A run that halts halts into the exceptional postcondition. -/
theorem wp_error {x : Proc ε W α} {e : ε} {w' : W} (h : x.wp Q E w)
    (hr : x.run w = (.error e, w')) : E e w' := by
  unfold wp at h
  rwa [hr] at h

/-- A run that is known is specified by where it ends. -/
theorem wp_of_ok {x : Proc ε W α} {a : α} {w' : W} (hr : x.run w = (.ok a, w')) (hQ : Q a w') :
    x.wp Q E w := by
  unfold wp
  rwa [hr]

/-- Two continuations may be exchanged where the postcondition makes them run
alike. -/
theorem bind_run_congr {x : Proc ε W α} {g g' : α → Proc ε W β} (h : x.wp Q E w)
    (hg : ∀ a w', Q a w' → (g a).run w' = (g' a).run w') :
    (x.bind g).run w = (x.bind g').run w := by
  rw [run_bind, run_bind]
  rcases hr : x.run w with ⟨_ | a, w'⟩
  · rfl
  · exact hg a w' (wp_ok h hr)

/-- A specification is a property of the outcome. -/
theorem wp_run {x : Proc ε W α} {P : Except ε α × W → Prop}
    (h : x.wp (fun a w' => P (.ok a, w')) (fun e w' => P (.error e, w')) w) : P (x.run w) := by
  unfold wp at h
  rcases hr : x.run w with ⟨_ | _, _⟩ <;> simpa [hr] using h

/-- A specification that does not look at how the run ended. -/
theorem wp_snd {x : Proc ε W α} {P : W → Prop} (h : x.wp (fun _ => P) (fun _ => P) w) :
    P (x.run w).2 := wp_run (P := fun r => P r.2) h

/-- What is known of the world a run ends in can be added to a specification. -/
theorem wp_and_snd {x : Proc ε W α} {P : W → Prop} (h : x.wp Q E w) (hP : P (x.run w).2) :
    x.wp (fun a w' => Q a w' ∧ P w') (fun e w' => E e w' ∧ P w') w := by
  refine wp_mono_run h (fun a w' hr hQ => ?_) fun e w' hr hE => ?_
  · rw [hr] at hP
    exact ⟨hQ, hP⟩
  · rw [hr] at hP
    exact ⟨hE, hP⟩

end Rules

/-! ## Halts that do not happen -/

/-- The process does not halt with `e`, on any path. -/
def Avoids (e : ε) : Proc ε W α → Prop
  | ret _ => True
  | halt e' => e' ≠ e
  | act _ k => ∀ w, (k w).Avoids e
  | await _ _ k => ∀ o, (k o).Avoids e

section Avoids

variable {e : ε} {x : Proc ε W α}

/-- A halt that neither part comes to. -/
theorem Avoids.bind {g : α → Proc ε W β} (hx : x.Avoids e) (hg : ∀ a, (g a).Avoids e) :
    (x.bind g).Avoids e := by
  induction x with
  | ret a => exact hg a
  | halt e' => exact hx
  | act f k ih => exact fun w => ih w (hx w)
  | await p f k ih => exact fun o => ih o (hx o)

/-- A run does not come to it. -/
theorem Avoids.run_ne (hx : x.Avoids e) (w : W) : (x.run w).1 ≠ .error e := by
  induction x generalizing w with
  | ret a => nofun
  | halt e' => exact fun h => hx (Except.error.inj h)
  | act f k ih => exact ih w (hx w) (f w)
  | await p f k ih =>
      rw [run]
      split
      · exact ih (some w) (hx _) (f w)
      · exact ih none (hx _) w

/-- What a process does not halt with need not be specified. -/
theorem Avoids.wp (hx : x.Avoids e) {Q : α → W → Prop} {w : W}
    (h : x.wp Q (fun _ _ => True) w) : x.wp Q (fun e' _ => e' ≠ e) w := by
  refine wp_mono_run h (fun _ _ _ hQ => hQ) fun e' w' hr _ heq => ?_
  have hne := hx.run_ne w
  rw [hr, heq] at hne
  exact hne rfl

end Avoids

/-! ## Iteration -/

/-- `while (cond) body`, at most `n` tests of the condition; `out` reports
that they did not suffice. -/
def loop (out : ε) (cond : W → Bool) (body : Proc ε W Unit) : Nat → Proc ε W Unit
  | 0 => halt out
  | n + 1 => act id fun w => if cond w then body.bind fun _ => loop out cond body n else ret ()

/-- Run a process for every element of a list, in order. -/
def each (f : β → Proc ε W Unit) : List β → Proc ε W Unit
  | [] => ret ()
  | b :: bs => (f b).bind fun _ => each f bs

/-- The worlds in which the iterations of `loop` start. -/
def iterations (cond : W → Bool) (body : Proc ε W Unit) : Nat → W → List W
  | 0, _ => []
  | n + 1, w =>
    if cond w then
      w :: match body.run w with
        | (.ok _, w') => iterations cond body n w'
        | (.error _, _) => []
    else []

/-- The elements that `each f` comes to, with the world in which it does. -/
def visits (f : β → Proc ε W Unit) : List β → W → List (β × W)
  | [], _ => []
  | b :: bs, w =>
    (b, w) :: match (f b).run w with
      | (.ok _, w') => visits f bs w'
      | (.error _, _) => []

section Loops

variable {out : ε} {cond : W → Bool} {body body' : Proc ε W Unit} {I : W → Prop}
  {E : ε → W → Prop}

/-- The invariant rule, asked only about the iterations that there are. -/
theorem loop_wp_iterations {w : W} (n : Nat)
    (hbody : ∀ v ∈ iterations cond body n w, I v → cond v = true → body.wp (fun _ => I) E v)
    (hout : ∀ w, I w → E out w) (hw : I w) :
    (loop out cond body n).wp (fun _ w' => I w' ∧ cond w' = false) E w := by
  induction n generalizing w with
  | zero => exact hout w hw
  | succ n ih =>
      simp only [loop, wp_act]
      cases hc : cond w with
      | false => exact ⟨hw, hc⟩
      | true =>
          rw [if_pos rfl, wp_bind]
          simp only [iterations, hc, if_true] at hbody
          have hfirst := hbody w List.mem_cons_self hw hc
          refine wp_mono_run hfirst (fun _ w' hr hw' => ?_) fun _ _ _ hE => hE
          rw [id] at hr
          rw [hr] at hbody
          exact ih (fun v hv => hbody v (List.mem_cons_of_mem w hv)) hw'

/-- The invariant rule: what the body preserves holds when the loop returns,
together with the negated condition. -/
theorem loop_wp (hbody : ∀ w, I w → cond w = true → body.wp (fun _ => I) E w)
    (hout : ∀ w, I w → E out w) (n : Nat) (w : W) (hw : I w) :
    (loop out cond body n).wp (fun _ w' => I w' ∧ cond w' = false) E w :=
  loop_wp_iterations n (fun v _ => hbody v) hout hw

/-- The variant rule: a loop whose body brings a measure down returns, given
fuel for it. -/
theorem loop_wp_variant (measure : W → Nat)
    (hbody : ∀ w, I w → cond w = true →
      body.wp (fun _ w' => I w' ∧ (cond w' = true → measure w' < measure w)) E w) (n : Nat) (w : W)
    (hw : I w) (hn : cond w = true → measure w < n) :
    (loop out cond body (n + 1)).wp (fun _ w' => I w' ∧ cond w' = false) E w := by
  induction n generalizing w with
  | zero =>
      cases hc : cond w with
      | true => exact absurd (hn hc) (Nat.not_lt_zero _)
      | false =>
          simp only [loop, wp_act, id, hc, Bool.false_eq_true, if_false]
          exact ⟨hw, hc⟩
  | succ n ih =>
      rw [loop]
      simp only [wp_act, id]
      cases hc : cond w with
      | false => exact ⟨hw, hc⟩
      | true =>
          rw [if_pos rfl, wp_bind]
          refine wp_then (hbody w hw hc) fun _ w' ⟨hw', hless⟩ => ih w' hw' fun hc' => ?_
          exact Nat.lt_of_lt_of_le (hless hc') (Nat.le_of_lt_succ (hn hc))

/-- The invariant holds whenever the loop begins again. -/
theorem mem_iterations {w v : W} (hbody : ∀ w, I w → cond w = true → body.wp (fun _ => I) E w)
    (n : Nat) (hw : I w) (hv : v ∈ iterations cond body n w) : I v ∧ cond v = true := by
  induction n generalizing w with
  | zero => simp [iterations] at hv
  | succ n ih =>
      rw [iterations] at hv
      split at hv
      · next hc =>
          cases List.mem_cons.mp hv with
          | inl hfirst =>
              rw [hfirst]
              exact ⟨hw, hc⟩
          | inr hrest =>
              rcases hr : body.run w with ⟨e | _, w'⟩
              · simp [hr] at hrest
              · rw [hr] at hrest
                exact ih (wp_ok (hbody w hw hc) hr) hrest
      · simp at hv

/-- Two loops run alike when their bodies do wherever the invariant holds. -/
theorem loop_run_congr (hbody : ∀ w, I w → cond w = true → body.wp (fun _ => I) E w)
    (heq : ∀ w, I w → cond w = true → body.run w = body'.run w) (n : Nat) (w : W) (hw : I w) :
    (loop out cond body n).run w = (loop out cond body' n).run w := by
  induction n generalizing w with
  | zero => rfl
  | succ n ih =>
      simp only [loop, run]
      cases hc : cond w with
      | false => rfl
      | true =>
          simp only [if_pos, run_bind, id, ← heq w hw hc]
          rcases hr : body.run w with ⟨_ | _, w'⟩
          · rfl
          · exact ih w' (wp_ok (hbody w hw hc) hr)

/-- The rule for each element of a list. -/
theorem each_wp {f : β → Proc ε W Unit} (bs : List β)
    (hf : ∀ b ∈ bs, ∀ w, I w → (f b).wp (fun _ => I) E w) (w : W) (hw : I w) :
    (each f bs).wp (fun _ => I) E w := by
  induction bs generalizing w with
  | nil => exact hw
  | cons b bs ih =>
      rw [each, wp_bind]
      have hrest (b' : β) (hb' : b' ∈ bs) := hf b' (List.mem_cons_of_mem b hb')
      exact wp_then (hf b List.mem_cons_self w hw) fun _ w' hw' => ih hrest w' hw'

/-- The same for an assertion `J` about the elements that remain. -/
theorem each_wp_rest {J : List β → W → Prop} {f : β → Proc ε W Unit}
    (hf : ∀ b bs w, J (b :: bs) w → (f b).wp (fun _ => J bs) E w) (bs : List β) (w : W)
    (hw : J bs w) : (each f bs).wp (fun _ => J []) E w := by
  induction bs generalizing w with
  | nil => exact hw
  | cons b bs ih =>
      rw [each, wp_bind]
      exact wp_then (hf b bs w hw) fun _ w' hw' => ih w' hw'

/-- The same for an assertion `J` about a list to which every element adds. -/
theorem each_wp_flatMap {γ : Type} {J : List γ → W → Prop} {f : β → Proc ε W Unit}
    {g : β → List γ} (bs : List β)
    (hf : ∀ b ∈ bs, ∀ l w, J l w → (f b).wp (fun _ => J (l ++ g b)) E w) (l : List γ) (w : W)
    (hw : J l w) : (each f bs).wp (fun _ => J (l ++ bs.flatMap g)) E w := by
  induction bs generalizing l w with
  | nil => simpa [each] using hw
  | cons b bs ih =>
      rw [each, wp_bind, List.flatMap_cons, ← List.append_assoc]
      have hrest (b' : β) (hb' : b' ∈ bs) := hf b' (List.mem_cons_of_mem b hb')
      exact wp_then (hf b List.mem_cons_self l w hw) fun _ w' hw' => ih hrest _ w' hw'

/-- The same for `I`, asked only about the elements that it comes to. -/
theorem each_wp_visits {w : W} {f : β → Proc ε W Unit} (bs : List β)
    (hf : ∀ p ∈ visits f bs w, I p.2 → (f p.1).wp (fun _ => I) E p.2) (hw : I w) :
    (each f bs).wp (fun _ => I) E w := by
  induction bs generalizing w with
  | nil => exact hw
  | cons b bs ih =>
      rw [each, wp_bind]
      have hfirst := hf (b, w) List.mem_cons_self hw
      refine wp_mono_run hfirst (fun _ w' hr hw' => ?_) fun _ _ _ hE => hE
      simp only [visits, hr] at hf
      exact ih (fun p hp => hf p (List.mem_cons_of_mem _ hp)) hw'

/-- The invariant holds at every visit. -/
theorem mem_visits {w : W} {f : β → Proc ε W Unit} (hf : ∀ b w, I w → (f b).wp (fun _ => I) E w)
    (bs : List β) (hw : I w) {p : β × W} (hp : p ∈ visits f bs w) : I p.2 := by
  induction bs generalizing w with
  | nil => simp [visits] at hp
  | cons b bs ih =>
      rw [visits] at hp
      cases List.mem_cons.mp hp with
      | inl hfirst =>
          rw [hfirst]
          exact hw
      | inr hrest =>
          rcases hr : (f b).run w with ⟨e | _, w'⟩
          · simp [hr] at hrest
          · rw [hr] at hrest
            exact ih (wp_ok (hf b w hw) hr) hrest

/-- Two iterations run alike when their steps do wherever the invariant holds. -/
theorem each_run_congr {f f' : β → Proc ε W Unit} (bs : List β)
    (hf : ∀ b ∈ bs, ∀ w, I w → (f b).wp (fun _ => I) E w)
    (heq : ∀ b ∈ bs, ∀ w, I w → (f b).run w = (f' b).run w) (w : W) (hw : I w) :
    (each f bs).run w = (each f' bs).run w := by
  induction bs generalizing w with
  | nil => rfl
  | cons b bs ih =>
      have hrest (b' : β) (hb' : b' ∈ bs) := hf b' (List.mem_cons_of_mem b hb')
      have heqrest (b' : β) (hb' : b' ∈ bs) := heq b' (List.mem_cons_of_mem b hb')
      have hstep := hf b List.mem_cons_self w hw
      simp only [each, run_bind, ← heq b List.mem_cons_self w hw]
      rcases hr : (f b).run w with ⟨_ | _, w'⟩
      · rfl
      · exact ih hrest heqrest w' (wp_ok hstep hr)

/-- First the one list, then the other. -/
theorem each_append (f : β → Proc ε W Unit) (bs cs : List β) (w : W) :
    (each f (bs ++ cs)).run w = andThen (fun _ => each f cs) ((each f bs).run w) := by
  induction bs generalizing w with
  | nil => rfl
  | cons b bs ih =>
      simp only [List.cons_append, each, run_bind]
      rcases (f b).run w with ⟨_ | _, w'⟩
      · rfl
      · exact ih w'

end Loops

end Proc
