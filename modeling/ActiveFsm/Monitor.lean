import Mathlib.Data.List.Basic

/-!
# ActiveFsm.Monitor

Monitors: deterministic automata that read a log line by line and stop at the
first line they do not expect.  A property of finite traces is stated as a
monitor that accepts them; that it holds of every run is then an invariant of
the log, preserved by each line appended (`scan_snoc`).

Nothing here depends on what a line is.
-/

/-- One step of a monitor; `none` rejects the line. -/
abbrev Monitor (S L : Type) := S → L → Option S

namespace Monitor

variable {S L : Type} (m : Monitor S L)

/-- Read a whole log. -/
def scan (s : S) (log : List L) : Option S := log.foldlM m s

/-- A log in two parts. -/
theorem scan_append (s : S) (log log' : List L) :
    m.scan s (log ++ log') = (m.scan s log).bind fun t => m.scan t log' := by
  simp only [scan, List.foldlM_append]
  rfl

@[simp] theorem scan_snoc (s : S) (log : List L) (line : L) :
    m.scan s (log ++ [line]) = (m.scan s log).bind fun t => m t line := by
  rw [scan_append]
  congr 1
  funext t
  simp [scan]

end Monitor
