import CallTrace.Trace

/-! # The store

A `Store` keeps traces in the order in which they were saved.  What a landscape owns is told from
the traces themselves, so each landscape has a log of its own (`Store.getAll`): saving appends to
the log of the trace's landscape (`Store.getAll_save`), and deleting a landscape empties its log and
no other (`Store.getAll_deleteLandscape`). -/

namespace CallTrace

structure Store where
  traces : Array Trace := #[]
deriving DecidableEq, Repr

namespace Store

def size (s : Store) : Nat := s.traces.size

def isEmpty (s : Store) : Bool := s.size = 0

def save (t : Trace) (s : Store) : Store := ⟨s.traces.push t⟩

def deleteLandscape (token : String) (s : Store) : Store :=
  ⟨s.traces.filter fun t => t.landscapeToken ≠ token⟩

/-- The log of a landscape. -/
def getAll (token : String) (s : Store) : List Trace :=
  s.traces.toList.filter fun t => t.landscapeToken = token

def getByTraceId (token traceId : String) (s : Store) : List Trace :=
  (s.getAll token).filter fun t => t.traceId = traceId

/-- The traces that start between two times, both included. -/
def getByTime (token : String) (first last : Timestamp) (s : Store) : List Trace :=
  (s.getAll token).filter fun t => first ≤ t.startTime ∧ t.startTime ≤ last

/-! ### Logs after a change -/

@[simp] theorem size_save (t : Trace) (s : Store) : (s.save t).size = s.size + 1 := by
  simp [save, size]

theorem getAll_save (t : Trace) (token : String) (s : Store) :
    (s.save t).getAll token
      = if t.landscapeToken = token then s.getAll token ++ [t] else s.getAll token := by
  by_cases h : t.landscapeToken = token <;> simp [getAll, save, h]

theorem getAll_deleteLandscape (deleted token : String) (s : Store) :
    (s.deleteLandscape deleted).getAll token
      = if token = deleted then [] else s.getAll token := by
  by_cases h : token = deleted
  · subst h
    simp [getAll, deleteLandscape]
  · simp only [getAll, deleteLandscape, Array.toList_filter, List.filter_filter, h, if_false]
    refine List.filter_congr fun t _ => ?_
    by_cases ht : t.landscapeToken = token
    · have : t.landscapeToken ≠ deleted := fun e => h (ht.symm.trans e)
      simp [ht, h]
    · simp [ht]

end Store
end CallTrace
