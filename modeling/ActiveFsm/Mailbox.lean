/-!
# ActiveFsm.Mailbox

A mailbox with room for one message: a message that is put into it replaces
the one that waits there.  Its consumer takes a message, may ask about it
first, and then acts on it, or drops it after asking.

`Steps` are the histories such a mailbox allows.  Along each of them the
messages delivered to the consumer are the messages put in that were not
overwritten, in the order in which they were put in (`delivered_eq`).

Nothing here depends on what a message is.
-/

namespace Mailbox

variable {α : Type}

/-- What can happen to a message. -/
inductive Op (α : Type) where
  | put (a : α)
  | take (a : α)
  | ask (a : α)
  | act (a : α)

/-! ## What a history delivers -/

/-- Another message is put in before the next one is taken. -/
def overwritten : List (Op α) → Bool
  | [] => false
  | .put _ :: _ => true
  | .take _ :: _ => false
  | _ :: ops => overwritten ops

/-- The messages put in and not overwritten, in the order in which they were
put in. -/
def survivors : List (Op α) → List α
  | [] => []
  | .put a :: ops => if overwritten ops then survivors ops else a :: survivors ops
  | _ :: ops => survivors ops

/-- The message asked about or acted on first, before another one is taken. -/
def firstUse : List (Op α) → Option α
  | [] => none
  | .take _ :: _ => none
  | .ask a :: _ => some a
  | .act a :: _ => some a
  | .put _ :: ops => firstUse ops

/-- What is delivered each time a message is taken. -/
def delivered : List (Op α) → List α
  | [] => []
  | .take _ :: ops => (firstUse ops).toList ++ delivered ops
  | _ :: ops => delivered ops

/-- Every message put in. -/
def posted : List (Op α) → List α
  | [] => []
  | .put a :: ops => a :: posted ops
  | _ :: ops => posted ops

/-! ## What a mailbox allows -/

/-- How far the consumer is with the message it took last. -/
inductive Stage (α : Type) where
  | idle
  | taken (a : α)
  | asked (a : α)

/-- The consumer may take another message. -/
def Stage.Settled : Stage α → Prop
  | taken _ => False
  | _ => True

/-- The message taken and not yet delivered. -/
def Stage.held : Stage α → List α
  | taken a => [a]
  | _ => []

structure State (α : Type) where
  slot : Option α := none
  stage : Stage α := .idle

inductive Step : State α → Op α → State α → Prop where
  | put (s : State α) (a : α) : Step s (.put a) { s with slot := some a }
  | take (stage : Stage α) (a : α) (h : stage.Settled) :
      Step ⟨some a, stage⟩ (.take a) ⟨none, .taken a⟩
  | ask (slot : Option α) (a : α) : Step ⟨slot, .taken a⟩ (.ask a) ⟨slot, .asked a⟩
  | act (slot : Option α) (a : α) : Step ⟨slot, .taken a⟩ (.act a) ⟨slot, .idle⟩
  | actAsked (slot : Option α) (a : α) : Step ⟨slot, .asked a⟩ (.act a) ⟨slot, .idle⟩

inductive Steps : State α → List (Op α) → State α → Prop where
  | nil (s : State α) : Steps s [] s
  | cons {s t u : State α} {op : Op α} {ops : List (Op α)} :
      Step s op t → Steps t ops u → Steps s (op :: ops) u

/-- One operation more, at the end. -/
theorem Steps.snoc {s t u : State α} {op : Op α} {ops : List (Op α)} (h : Steps s ops t)
    (hstep : Step t op u) : Steps s (ops ++ [op]) u := by
  induction h with
  | nil s => exact .cons hstep (.nil u)
  | cons hfirst _ ih => exact .cons hfirst (ih hstep)

/-! ## What is delivered -/

/-- The message that waits in the slot, unless it is overwritten. -/
def waiting (slot : Option α) (ops : List (Op α)) : List α :=
  if overwritten ops then [] else slot.toList

/-- What is delivered of the message that was taken before. -/
def pending (stage : Stage α) (ops : List (Op α)) : List α :=
  match stage with
  | .taken _ => (firstUse ops).toList
  | _ => []

@[simp] theorem held_idle : (Stage.idle : Stage α).held = [] := rfl

@[simp] theorem held_taken (a : α) : (Stage.taken a).held = [a] := rfl

@[simp] theorem held_asked (a : α) : (Stage.asked a).held = [] := rfl

/-- A stage that is settled holds nothing. -/
theorem held_of_settled {stage : Stage α} (h : stage.Settled) : stage.held = [] := by
  cases stage with
  | idle => rfl
  | taken a => exact h.elim
  | asked a => rfl

@[simp] theorem pending_nil (stage : Stage α) : pending stage [] = [] := by cases stage <;> rfl

@[simp] theorem pending_idle (ops : List (Op α)) : pending .idle ops = [] := rfl

@[simp] theorem pending_taken (a : α) (ops : List (Op α)) :
    pending (.taken a) ops = (firstUse ops).toList := rfl

@[simp] theorem pending_asked (a : α) (ops : List (Op α)) : pending (.asked a) ops = [] := rfl

@[simp] theorem pending_put (stage : Stage α) (a : α) (ops : List (Op α)) :
    pending stage (.put a :: ops) = pending stage ops := by cases stage <;> rfl

@[simp] theorem pending_take (stage : Stage α) (a : α) (ops : List (Op α)) :
    pending stage (.take a :: ops) = [] := by cases stage <;> rfl

@[simp] theorem waiting_none (ops : List (Op α)) : waiting none ops = [] := by
  unfold waiting
  split <;> rfl

/-- What is put survives if nothing is put over it. -/
theorem survivors_put (a : α) (ops : List (Op α)) :
    survivors (.put a :: ops) = waiting (some a) ops ++ survivors ops := by
  unfold waiting
  rw [survivors]
  split <;> rfl

/-- From any state on, what is held, waits or is put in is what is delivered
and what is left in the end. -/
theorem delivered_from {s t : State α} {ops : List (Op α)} (h : Steps s ops t) :
    pending s.stage ops ++ delivered ops ++ (t.stage.held ++ t.slot.toList) =
      s.stage.held ++ waiting s.slot ops ++ survivors ops := by
  induction h with
  | nil s => simp [delivered, survivors, waiting, overwritten]
  | @cons s t u op ops hstep _ ih =>
      cases hstep with
      | put s a =>
          have hwaiting : waiting s.slot (.put a :: ops) = [] := rfl
          have hdelivered : delivered (.put a :: ops) = delivered ops := rfl
          rw [pending_put, hdelivered, ih, hwaiting, survivors_put]
          simp
      | take stage a hstage =>
          have hwaiting : waiting (some a) (.take a :: ops) = [a] := rfl
          have hdelivered : delivered (.take a :: ops) = (firstUse ops).toList ++ delivered ops :=
            rfl
          have hsurvivors : survivors (.take a :: ops) = survivors ops := rfl
          rw [hdelivered, hwaiting, hsurvivors, held_of_settled hstage]
          simpa using ih
      | ask slot a =>
          have hwaiting : waiting slot (.ask a :: ops) = waiting slot ops := rfl
          have hdelivered : delivered (.ask a :: ops) = delivered ops := rfl
          have hsurvivors : survivors (.ask a :: ops) = survivors ops := rfl
          rw [hdelivered, hwaiting, hsurvivors]
          simpa [firstUse] using ih
      | act slot a =>
          have hwaiting : waiting slot (.act a :: ops) = waiting slot ops := rfl
          have hdelivered : delivered (.act a :: ops) = delivered ops := rfl
          have hsurvivors : survivors (.act a :: ops) = survivors ops := rfl
          rw [hdelivered, hwaiting, hsurvivors]
          simpa [firstUse] using ih
      | actAsked slot a => exact ih

/-- **What is delivered** along a history of an empty mailbox are the messages
that were not overwritten, each once and in order, but for those still on
their way. -/
theorem delivered_eq {t : State α} {ops : List (Op α)} (h : Steps {} ops t) :
    delivered ops ++ (t.stage.held ++ t.slot.toList) = survivors ops := by
  simpa using delivered_from h

end Mailbox
