/-!
# ActiveFsm.Thread

The message queues of `StdlibThread`: two lanes, one for each message
priority, behind one mutex.  Every function here is the body of one critical
section, so it is atomic for every thread of the program.

`accepted` is not a member of the class.  It records the messages pushed so
far, in the order in which they were pushed, for statements about order.
-/

namespace ActiveFsm

/-- Threads are told apart by their id (`std::thread::id`). -/
abbrev ThreadId := Nat

/-- `dmq::Priority`. -/
inductive Priority where
  | normal
  | high
  deriving DecidableEq, Repr

/-- `dmq::FullPolicy`: what `DispatchDelegate` does when the queue is full. -/
inductive FullPolicy where
  | drop
  | fault
  | timeout
  deriving DecidableEq, Repr

/-- `DelegateMsg`: what is to be invoked, and in which lane it waits. -/
structure DelegateMsg (β : Type) where
  body : β
  priority : Priority := .normal

/-- The members of `StdlibThread` that `DispatchDelegate` and the worker loop
`Process` read and write under `m_mutex`. -/
structure ThreadQueue (β : Type) where
  highQueue : List (DelegateMsg β) := []
  normalQueue : List (DelegateMsg β) := []
  maxQueueSize : Nat
  fullPolicy : FullPolicy := .fault
  exit : Bool := false
  accepted : List (DelegateMsg β) := []

namespace ThreadQueue

variable {β : Type}

/-- `GetQueueSize()`. -/
def size (q : ThreadQueue β) : Nat := q.highQueue.length + q.normalQueue.length

/-- The test that guards the back-pressure policies. -/
def full (q : ThreadQueue β) : Bool := decide (0 < q.maxQueueSize ∧ q.maxQueueSize ≤ q.size)

/-- `push_back` into the lane of the message's priority. -/
def pushBack (q : ThreadQueue β) (msg : DelegateMsg β) : ThreadQueue β :=
  match msg.priority with
  | .high => { q with highQueue := q.highQueue ++ [msg], accepted := q.accepted ++ [msg] }
  | .normal => { q with normalQueue := q.normalQueue ++ [msg], accepted := q.accepted ++ [msg] }

/-- The end of `DispatchDelegate`: push unless the thread is exiting. -/
def pushUnlessExit (q : ThreadQueue β) (msg : DelegateMsg β) : ThreadQueue β :=
  if q.exit then q else q.pushBack msg

/-- `DispatchDelegate` from taking the mutex to releasing it, when it neither
waits nor faults: a full queue is left alone. -/
def tryPush (q : ThreadQueue β) (msg : DelegateMsg β) : ThreadQueue β :=
  if q.full then q else q.pushUnlessExit msg

/-- What a producer blocked on `m_cvNotFull` waits for. -/
def mayProceed (q : ThreadQueue β) : Bool := decide (q.size < q.maxQueueSize) || q.exit

/-- The worker takes the message of highest priority that waits longest. -/
def takeNext (q : ThreadQueue β) : Option (DelegateMsg β × ThreadQueue β) :=
  match q.highQueue, q.normalQueue with
  | msg :: rest, _ => some (msg, { q with highQueue := rest })
  | [], msg :: rest => some (msg, { q with normalQueue := rest })
  | [], [] => none

end ThreadQueue

end ActiveFsm
