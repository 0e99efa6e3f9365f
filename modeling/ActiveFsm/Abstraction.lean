import ActiveFsm.Service
import ActiveFsm.Transition

/-!
# ActiveFsm.Abstraction

Machines seen at rest.  An automaton says what each operation makes of what can
be told of the machine between two calls, and which operations it does not
survive; a machine implements it when the call of every operation does that.
Whole runs follow, and so do the interleavings of an active object: it behaves
as if the automaton made the operations one at a time, those that its thread
takes from the queue.
-/

namespace ActiveFsm

open Proc Transition

variable {σ δ A O : Type}

/-! ## Data of a derived class -/

/-- `std::static_pointer_cast` to the event data of a derived class, and a read
of its members; what the source does is undefined where the data is not of
that class. -/
def Callback.withData {ρ : Type} (pData : EventPtr δ) (k : δ → Callback σ δ ρ) :
    Callback σ δ ρ :=
  match pData with
  | some (.data d) => k d
  | _ => .fail

/-! ## Automata -/

/-- Where `R a` holds of a machine at rest, the call that performs an operation
leads to where `R` holds of the next state of the automaton, or stops the
machine if there is none. -/
structure Implements (M : Machine σ δ) (thread : ThreadId) (n : Nat) (perform : O → Call δ)
    (next : A → O → Option A) (R : A → World σ δ → Prop) : Prop where
  goes : ∀ a o a' w, R a w → next a o = some a' →
    (call M ⟨thread, perform o⟩ n (perform o)).wp (fun _ => R a') (fun _ _ => False) w
  stops : ∀ a o w, R a w → next a o = none →
    (call M ⟨thread, perform o⟩ n (perform o)).wp (fun _ _ => False) (fun _ _ => True) w
  /-- The automaton does not see the queue. -/
  same : ∀ a w w', R a w → w.SameMachine w' → R a w'

section Runs

variable {M : Machine σ δ} {thread : ThreadId} {n : Nat} {perform : O → Call δ}
  {next : A → O → Option A} {R : A → World σ δ → Prop} {a a' : A} {w : World σ δ}

/-- It is enough to look at the machine without its thread. -/
theorem Implements.of_synchronous (hM : M.RunsOn thread)
    (h : Implements M.synchronous thread n perform next R) :
    Implements M thread n perform next R where
  goes a o a' w hR hnext := by
    have hself : M.RunsOn (⟨thread, perform o⟩ : Frame δ).thread := hM
    rw [← call_synchronous hself]
    exact h.goes a o a' w hR hnext
  stops a o w hR hnext := by
    have hself : M.RunsOn (⟨thread, perform o⟩ : Frame δ).thread := hM
    rw [← call_synchronous hself]
    exact h.stops a o w hR hnext
  same := h.same

/-- A sequence of operations that the automaton survives. -/
theorem Implements.runCalls_goes (h : Implements M thread n perform next R) (hR : R a w)
    {ops : List O} (hexec : exec next a ops = some a') :
    (runCalls M thread n (ops.map perform)).wp (fun _ => R a') (fun _ _ => False) w := by
  induction ops generalizing a w with
  | nil =>
      cases hexec
      exact hR
  | cons o ops ih =>
      rw [exec_cons] at hexec
      obtain ⟨a₁, hnext, hrest⟩ := Option.bind_eq_some_iff.mp hexec
      rw [List.map_cons, runCalls, each, wp_bind]
      exact wp_then (h.goes a o a₁ w hR hnext) fun _ w₁ hw₁ => ih hw₁ hrest

/-- A sequence of operations that it does not. -/
theorem Implements.runCalls_stops (h : Implements M thread n perform next R) (hR : R a w)
    {ops : List O} (hexec : exec next a ops = none) :
    (runCalls M thread n (ops.map perform)).wp (fun _ _ => False) (fun _ _ => True) w := by
  induction ops generalizing a w with
  | nil => contradiction
  | cons o ops ih =>
      rw [List.map_cons, runCalls, each, wp_bind]
      cases hnext : next a o with
      | none => exact wp_mono (h.stops a o w hR hnext) (fun _ _ => False.elim) fun _ _ => id
      | some a₁ =>
          rw [exec_cons, hnext, Option.bind_some] at hexec
          exact wp_mono (h.goes a o a₁ w hR hnext) (fun _ w₁ hw₁ => ih hw₁ hexec)
            fun _ _ => False.elim

/-- The reference is the machine itself. -/
theorem reference_eq (hM : M.RunsOn thread) (start : World σ δ) (cs : List (Call δ)) :
    reference M thread n start cs = (runCalls M thread n cs).run start := by
  unfold reference runCalls
  congr 2
  funext c
  exact call_synchronous hM n c

end Runs

/-! ## Active objects -/

/-- Where `PARENT_TRANSITION` has decided for an operation, raising that event
is the operation for the automaton, even if the decision is out of date. -/
def Robust (M : Machine σ δ) (thread : ThreadId) (n : Nat) (perform : O → Call δ)
    (next : A → O → Option A) (R : A → World σ δ → Prop) : Prop :=
  ∀ a o w (sender : Frame δ) f p, R a w → sender.call = perform o → perform o = .event f →
    f.parentTransition = some p →
    (invoke M thread n ⟨sender, .externalEventImpl p none⟩).wp
      (fun _ w' => ∃ a', next a o = some a' ∧ R a' w') (fun _ _ => next a o = none) w

section Always

variable {M : Machine σ δ} {thread : ThreadId} {n : Nat} {perform : O → Call δ}
  {next : A → O → Option A} {R : A → World σ δ → Prop} {a : A}

/-- Operations without a `PARENT_TRANSITION` need nothing more. -/
theorem robust_of_maps (hops : ∀ o, ∃ f, perform o = .event f ∧ f.parentTransition = none) :
    Robust M thread n perform next R := by
  intro a o w sender f p _ _ hf hp
  obtain ⟨g, hg, hnone⟩ := hops o
  rw [hf] at hg
  cases hg
  rw [hnone] at hp
  contradiction

/-- A message stands for an operation. -/
def StandsFor (perform : O → Call δ) (m : Message δ) : Prop :=
  ∃ o, m.sender.call = perform o ∧ (perform o).Queues m.delegate

/-- Both outcomes of an operation. -/
theorem Implements.both (himpl : Implements M thread n perform next R) {o : O} {w : World σ δ}
    (hR : R a w) :
    (call M ⟨thread, perform o⟩ n (perform o)).wp (fun _ w' => ∃ a', next a o = some a' ∧ R a' w')
      (fun _ _ => next a o = none) w := by
  cases hnext : next a o with
  | none => exact wp_mono (himpl.stops a o w hR hnext) (fun _ _ => False.elim) fun _ _ _ => rfl
  | some a' =>
      exact wp_mono (himpl.goes a o a' w hR hnext) (fun _ w' hw' => ⟨a', rfl, hw'⟩)
        fun _ _ => False.elim

section Served

variable (perform : O → Call δ) (next : A → O → Option A) (R : A → World σ δ → Prop) (a : A)
  (before : List (Call δ))

/-- After the calls in `before` the automaton, in state `a`, has made the
operations that the messages taken since stand for. -/
def Abides (taken : List (Message δ)) (w : World σ δ) : Prop :=
  ∃ ops a', callsOf taken = before ++ ops.map perform ∧
    Transition.exec next a ops = some a' ∧ R a' w

/-- The automaton has stopped at the last of them. -/
def Breaks (taken : List (Message δ)) (_ : Stop) : Prop :=
  ∃ ops o a', callsOf taken = before ++ (ops ++ [o]).map perform ∧
    Transition.exec next a ops = some a' ∧ next a' o = none

end Served

/-- What the machine's thread serves, the automaton makes. -/
theorem Implements.serves (himpl : Implements M thread (n + 1) perform next R)
    (hrobust : Robust M thread (n + 1) perform next R) (hops : ∀ o, (perform o).IsPlain)
    (before : List (Call δ)) :
    Serves M thread (n + 1) (StandsFor perform) (Abides perform next R a before)
      (Breaks perform next a before) where
  serve := by
    rintro taken ⟨sender, delegate⟩ w ⟨o, hsender, hqueues⟩ ⟨ops, a', hops', hexec, hR⟩
    have hinvoke : (invoke M thread (n + 1) ⟨sender, delegate⟩).wp
        (fun _ w' => ∃ a'', next a' o = some a'' ∧ R a'' w') (fun _ _ => next a' o = none) w := by
      obtain ⟨f, hf, -⟩ := hops o
      rw [hf] at hqueues
      cases delegate with
      | event g =>
          have hg : g = f := hqueues
          have hboth := himpl.both (o := o) hR
          rw [hg, invoke, hsender, ← hf]
          exact hboth
      | externalEventImpl p d =>
          obtain ⟨hp, rfl⟩ : f.parentTransition = some p ∧ d = none := hqueues
          exact hrobust a' o w sender f p hR hsender hf hp
    have hcalls : callsOf (taken ++ [⟨sender, delegate⟩]) = before ++ (ops ++ [o]).map perform := by
      rw [callsOf_append, hops', List.map_append, List.map_singleton, List.append_assoc, ← hsender]
      rfl
    refine wp_mono hinvoke ?_ ?_
    · rintro u w' ⟨a'', hnext, hR'⟩
      exact ⟨ops ++ [o], a'', hcalls, (exec_snoc hexec o).trans hnext, hR'⟩
    · intro e w' hnone
      exact ⟨ops, o, a', hcalls, hexec, hnone⟩
  same := by
    rintro taken w w' ⟨ops, a', hops', hexec, hR⟩ hsame
    exact ⟨ops, a', hops', hexec, himpl.same a' w w' hR hsame⟩

/-- Where a program of threads that make operations begins. -/
theorem serving_initial {start : World σ δ} (hnew : start.queue.IsNew) (hR : R a start)
    {todo : ThreadId → List O} (hown : todo thread = []) (hops : ∀ o, (perform o).IsPlain) :
    System.Serving thread (StandsFor perform) (Abides perform next R a [])
      (Breaks perform next a []) { world := start, pending := fun t => (todo t).map perform } := by
  refine .initial hnew (by rw [hown, List.map_nil]) (fun t c hc => ?_) ⟨[], a, rfl, rfl, hR⟩
  obtain ⟨o, -, rfl⟩ := List.mem_map.mp hc
  exact ⟨hops o, fun d hd => ⟨o, rfl, hd⟩⟩

end Always

/-- The machine behaves as if an automaton in state `a` had performed `ops` one
after the other: those its thread has taken off the queue so far. -/
structure System.Linear (S : System σ δ) (thread : ThreadId) (perform : O → Call δ)
    (next : A → O → Option A) (R : A → World σ δ → Prop) (a : A) (todo : ThreadId → List O)
    (ops : List O) : Prop where
  taken : callsOf S.taken = ops.map perform
  /-- The messages are taken in the order in which they were queued. -/
  order : S.accepted = S.taken ++ S.queued
  /-- Every thread's operations take effect in the order in which it calls them. -/
  sent : ∀ t, callsOf (sentBy t S.taken) <+: (todo t).map perform
  /-- Between two calls the machine is as the automaton says. -/
  idle : S.running thread = ret () →
    ∃ a', Transition.exec next a ops = some a' ∧ R a' S.world
  /-- It has stopped only where the automaton has. -/
  halted : ∀ e, S.running thread = halt e → Transition.exec next a ops = none
  /-- When nothing is left to do, every operation has taken effect. -/
  complete : (∀ t, S.running t = ret () ∧ S.pending t = []) → S.queued = [] →
    ∀ t, callsOf (sentBy t S.taken) = (todo t).map perform

section Active

variable {M : Machine σ δ} {thread : ThreadId} {n : Nat} {start : World σ δ}
  {calls : ThreadId → List (Call δ)} {S : System σ δ} {perform : O → Call δ}
  {next : A → O → Option A} {R : A → World σ δ → Prop} {a : A} {todo : ThreadId → List O}

/-- What the machine's thread has taken is to be made by some thread. -/
theorem System.Tracks.taken_eq (hS : S.Tracks M thread n start fun t => (todo t).map perform) :
    ∃ ops : List O, callsOf S.taken = ops.map perform := by
  have hmem : ∀ c ∈ callsOf S.taken, ∃ o, perform o = c := by
    intro c hc
    obtain ⟨m, hm, rfl⟩ := List.mem_map.mp hc
    have haccepted : m ∈ S.accepted := by
      rw [hS.order]
      exact List.mem_append_left _ hm
    obtain ⟨o, -, ho⟩ := List.mem_map.mp (hS.messages m haccepted).2.1
    exact ⟨o, ho⟩
  generalize callsOf S.taken = cs at hmem
  induction cs with
  | nil => exact ⟨[], rfl⟩
  | cons c cs ih =>
      obtain ⟨o, ho⟩ := hmem c List.mem_cons_self
      obtain ⟨ops, hops⟩ := ih fun d hd => hmem d (List.mem_cons_of_mem c hd)
      exact ⟨o :: ops, by rw [List.map_cons, ho, hops]⟩

/-- What the program has done, in terms of the automaton. -/
theorem System.Tracks.linear (hM : M.RunsOn thread)
    (hplain : ∀ t, ∀ o ∈ todo t, (perform o).IsPlain) (hown : todo thread = [])
    (himpl : Implements M thread (n + 1) perform next R) (hR : R a start)
    (hS : S.Tracks M thread (n + 1) start fun t => (todo t).map perform) :
    ∃ ops, S.Linear thread perform next R a todo ops := by
  have hplain' : ∀ t, ∀ c ∈ (todo t).map perform, c.IsPlain := by
    intro t c hc
    obtain ⟨o, ho, rfl⟩ := List.mem_map.mp hc
    exact hplain t o ho
  have hrefines := hS.refines hM hplain' (by rw [hown, List.map_nil])
  have hout := hS.outcome
  obtain ⟨ops, hops⟩ := hS.taken_eq
  refine ⟨ops, ?_⟩
  constructor
  case taken => exact hops
  case order => exact hS.order
  case sent =>
    intro t
    refine List.IsPrefix.trans ?_ (hS.sent_prefix t)
    rw [hS.order, sentBy_append, callsOf_append]
    exact List.prefix_append _ _
  case idle =>
    intro hidle
    obtain ⟨hok, hsame⟩ := hrefines.idle hidle
    rw [reference_eq hM, hops] at hok hsame
    rcases hr : (runCalls M thread (n + 1) (ops.map perform)).run start with ⟨e | u, w⟩
    · rw [hr] at hok
      contradiction
    · rw [hr] at hsame
      cases hexec : Transition.exec next a ops with
      | none => exact (wp_ok (himpl.runCalls_stops hR hexec) hr).elim
      | some a' =>
          have hw := wp_ok (himpl.runCalls_goes hR hexec) hr
          exact ⟨a', rfl, himpl.same a' w S.world hw ⟨hsame.1.symm, hsame.2.1.symm, hsame.2.2.symm⟩⟩
  case halted =>
    intro e he
    rw [he, reference_eq hM, hops] at hout
    cases hexec : Transition.exec next a ops with
    | none => rfl
    | some a' =>
        rcases hr : (runCalls M thread (n + 1) (ops.map perform)).run start with ⟨e' | u, w⟩
        · exact (wp_error (himpl.runCalls_goes hR hexec) hr).elim
        · rw [hr] at hout
          exact absurd hout.1 (by simp [run])
  case complete => exact hrefines.complete

/-- What a program that goes on while its queue has room and its decisions are
up to date comes to. -/
theorem Reaches.tracks (hM : M.thread = some thread) (hnew : start.queue.IsNew)
    (hown : calls thread = []) (hplain : ∀ t, ∀ c ∈ calls t, c.IsPlain)
    (h : Reaches M thread (n + 1) (fun S ch => S.world.queue.full = false ∧ TakesFresh M n S ch)
      { world := start, pending := calls } S) : S.Tracks M thread (n + 1) start calls :=
  h.invariant (fun _ _ _ hS hok hstep => hS.step hM hplain hok.1 hok.2 hstep)
    (System.Tracks.initial hnew hown)

/-- **An active object is linearizable**: whatever automaton the machine
implements when its calls are made one after the other, it implements in every
interleaving of any number of threads in which the queue does not fill up and
what is taken from it is up to date.  The operations are event functions, and a
`PARENT_TRANSITION` among them names a state; they take effect in the order in
which their messages are queued. -/
theorem active_linearizable (hM : M.thread = some thread) (hnew : start.queue.IsNew)
    (hown : todo thread = []) (hplain : ∀ t, ∀ o ∈ todo t, (perform o).IsPlain)
    (himpl : Implements M thread (n + 1) perform next R) (hR : R a start)
    (h : Reaches M thread (n + 1) (fun S ch => S.world.queue.full = false ∧ TakesFresh M n S ch)
      { world := start, pending := fun t => (todo t).map perform } S) :
    ∃ ops, S.Linear thread perform next R a todo ops := by
  have hplain' : ∀ t, ∀ c ∈ (todo t).map perform, c.IsPlain := by
    intro t c hc
    obtain ⟨o, ho, rfl⟩ := List.mem_map.mp hc
    exact hplain t o ho
  have hS := Reaches.tracks hM hnew (by rw [hown, List.map_nil]) hplain' h
  exact hS.linear (runsOn_of_thread hM) hplain hown himpl hR

end Active

end ActiveFsm
