import ActiveFsm.Proc

/-!
# ActiveFsm.Agreement

Two processes that agree up to a point.  Started in the same world they run
alike until the first reaches `B`; from there on they differ, the first staying
in `B` and the second in `D`.

* `AgreesUntil.bind`, `agreesUntil_loop`, `agreesUntil_each` — the rules for
  sequences and iterations.

Nothing here depends on what the world is.
-/

namespace Proc

variable {ε W α β : Type}

/-- The two processes run alike from `w` without reaching `B`; or they part,
and the first run ends in `B` and the second in `D`. -/
def AgreesUntil (B D : W → Prop) (x y : Proc ε W α) (w : W) : Prop :=
  (x.run w = y.run w ∧ ¬B (x.run w).2) ∨ (B (x.run w).2 ∧ D (y.run w).2)

section Agreement

variable {B D I : W → Prop} {E : ε → W → Prop} {x y : Proc ε W α} {w : W}

/-- Everything agrees with itself. -/
theorem agreesUntil_refl (h : ¬B (x.run w).2) : AgreesUntil B D x x w := .inl ⟨rfl, h⟩

/-- Sequencing: after an agreement the rest has to agree, after parting it has
to stay where it is. -/
theorem AgreesUntil.bind {g g' : α → Proc ε W β} (h : AgreesUntil B D x y w)
    (hy : y.wp (fun _ => I) E w)
    (hg : ∀ a w', I w' → ¬B w' → AgreesUntil B D (g a) (g' a) w')
    (hB : ∀ a w', B w' → (g a).wp (fun _ => B) (fun _ => B) w')
    (hD : ∀ a w', D w' → (g' a).wp (fun _ => D) (fun _ => D) w') :
    AgreesUntil B D (x.bind g) (y.bind g') w := by
  unfold AgreesUntil
  rw [run_bind, run_bind]
  cases h with
  | inl hsame =>
      obtain ⟨heq, hnot⟩ := hsame
      rw [heq] at hnot ⊢
      rcases hr : y.run w with ⟨e | a, w'⟩
      · rw [hr] at hnot
        exact .inl ⟨rfl, hnot⟩
      · rw [hr] at hnot
        exact hg a w' (wp_ok hy hr) hnot
  | inr hpart =>
      refine .inr ⟨?_, ?_⟩
      · rcases hr : x.run w with ⟨e | a, w'⟩
        · rw [hr] at hpart
          exact hpart.1
        · rw [hr] at hpart
          exact wp_snd (hB a w' hpart.1)
      · rcases hr : y.run w with ⟨e | a, w'⟩
        · rw [hr] at hpart
          exact hpart.2
        · rw [hr] at hpart
          exact wp_snd (hD a w' hpart.2)

theorem agreesUntil_loop {out : ε} {cond : W → Bool} {body body' : Proc ε W Unit}
    (hI : ∀ w, I w → cond w = true → body'.wp (fun _ => I) E w)
    (hbody : ∀ w, I w → ¬B w → cond w = true → AgreesUntil B D body body' w)
    (hB : ∀ w, B w → cond w = true → body.wp (fun _ => B) (fun _ => B) w)
    (hD : ∀ w, D w → cond w = true → body'.wp (fun _ => D) (fun _ => D) w) (n : Nat) (w : W)
    (hw : I w) (hnot : ¬B w) :
    AgreesUntil B D (loop out cond body n) (loop out cond body' n) w := by
  induction n generalizing w with
  | zero => exact .inl ⟨rfl, hnot⟩
  | succ n ih =>
      cases hc : cond w with
      | false =>
          unfold AgreesUntil
          simp only [loop, run, hc]
          exact .inl ⟨rfl, hnot⟩
      | true =>
          have hloopB (w' : W) (hw' : B w') :
              (loop out cond body n).wp (fun _ => B) (fun _ => B) w' :=
            wp_then (loop_wp hB (fun _ h => h) n w' hw') fun _ _ h => h.1
          have hloopD (w' : W) (hw' : D w') :
              (loop out cond body' n).wp (fun _ => D) (fun _ => D) w' :=
            wp_then (loop_wp hD (fun _ h => h) n w' hw') fun _ _ h => h.1
          have hstep := (hbody w hw hnot hc).bind (hI w hw hc) (fun _ => ih) (fun _ => hloopB)
            fun _ => hloopD
          unfold AgreesUntil at hstep ⊢
          simpa only [loop, run, hc, if_true, id] using hstep

theorem agreesUntil_each {f f' : β → Proc ε W Unit} (bs : List β)
    (hI : ∀ b ∈ bs, ∀ w, I w → (f' b).wp (fun _ => I) E w)
    (hf : ∀ b ∈ bs, ∀ w, I w → ¬B w → AgreesUntil B D (f b) (f' b) w)
    (hB : ∀ b ∈ bs, ∀ w, B w → (f b).wp (fun _ => B) (fun _ => B) w)
    (hD : ∀ b ∈ bs, ∀ w, D w → (f' b).wp (fun _ => D) (fun _ => D) w) (w : W) (hw : I w)
    (hnot : ¬B w) : AgreesUntil B D (each f bs) (each f' bs) w := by
  induction bs generalizing w with
  | nil => exact .inl ⟨rfl, hnot⟩
  | cons b bs ih =>
      have hmem {b' : β} (hb' : b' ∈ bs) : b' ∈ b :: bs := List.mem_cons_of_mem b hb'
      have hrest := ih (fun b' hb' => hI b' (hmem hb')) (fun b' hb' => hf b' (hmem hb'))
        (fun b' hb' => hB b' (hmem hb')) fun b' hb' => hD b' (hmem hb')
      exact (hf b List.mem_cons_self w hw hnot).bind (hI b List.mem_cons_self w hw)
        (fun _ => hrest) (fun _ => each_wp bs fun b' hb' => hB b' (hmem hb'))
        fun _ => each_wp bs fun b' hb' => hD b' (hmem hb')

end Agreement

end Proc
