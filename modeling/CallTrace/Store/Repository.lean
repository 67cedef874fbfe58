import CallTrace.Error
import CallTrace.Log
import CallTrace.Store.Basic

/-! # Repositories

A `Repository` is whatever keeps traces for a pipeline.  Its operations may fail, and a save may
even break down together with its caller (`StoreFault`).  The plain `Store` is a repository without
faults; a `FaultyStore` follows a plan of which saves fail, and can be taken offline.

`Repository.cloneAll` copies a landscape by means of the other operations.  The log that is copied
is read once, before the first copy is saved, and the first failing save ends the copying. -/

namespace CallTrace

inductive StoreFault where
  /-- The operation failed and said why. -/
  | refused (e : StoreError)
  /-- The operation broke down, and its caller with it. -/
  | crashed
deriving DecidableEq, Repr

class Repository (σ : Type) where
  save : Trace → σ → Except StoreFault Unit × σ
  deleteLandscape : String → σ → Except StoreFault Unit × σ
  getAll : String → σ → Except StoreFault (List Trace)
  getByTraceId : String → String → σ → Except StoreFault (List Trace)
  getByTime : String → Timestamp → Timestamp → σ → Except StoreFault (List Trace)

instance : Repository Store where
  save t s := (.ok (), s.save t)
  deleteLandscape token s := (.ok (), s.deleteLandscape token)
  getAll token s := .ok (s.getAll token)
  getByTraceId token traceId s := .ok (s.getByTraceId token traceId)
  getByTime token first last s := .ok (s.getByTime token first last)

/-! ### Cloning a landscape -/

/-- What an operation on a repository leaves behind. -/
structure StoreOutcome (σ α : Type) where
  result : Except StoreFault α
  store : σ
  log : List LogLine := []

namespace Repository
variable {σ : Type} [Repository σ]

/-- Saves copies of traces under a landscape until one cannot be saved. -/
def saveCopies (target : String) : List Trace → σ → StoreOutcome σ Unit
  | [], s => { result := .ok (), store := s }
  | t :: traces, s =>
    let line : LogLine := ⟨.trace, "Cloned trace " ++ t.traceId ++ " into " ++ target⟩
    match save (t.relabel target) s with
    | (.error fault, s) => { result := .error fault, store := s, log := [line] }
    | (.ok (), s) =>
      let rest := saveCopies target traces s
      { rest with log := line :: rest.log }

/-- Copies the traces of one landscape into another, and counts them. -/
def cloneAll (target source : String) (s : σ) : StoreOutcome σ Nat :=
  match getAll source s with
  | .error fault => { result := .error fault, store := s }
  | .ok traces =>
    let copied := saveCopies target traces s
    { copied with result := copied.result.map fun () => traces.length }

end Repository

/-! ### Stores with faults -/

/-- The fault of the next save, by how many saves were tried and how many succeeded so far. -/
abbrev FaultPlan := (attempts saved : Nat) → Trace → Option StoreFault

structure FaultyStore where
  store : Store := {}
  plan : FaultPlan
  offline : Bool := false
  attempts : Nat := 0
  saved : Nat := 0

namespace FaultyStore

/-- Saves of some trace ids crash, those of some others are rejected, and after `capacity`
successes the store is full. -/
def planOf (crashing rejected : List String) (capacity : Option Nat) : FaultPlan :=
  fun _ saved t =>
    if crashing.contains t.traceId then some .crashed
    else if rejected.contains t.traceId then some (.refused (.rejected t.traceId))
    else if capacity.any (· ≤ saved) then some (.refused (.unavailable "full"))
    else none

/-- Every operation of a store that is offline fails. -/
def online? (s : FaultyStore) : Except StoreFault Unit :=
  if s.offline then .error (.refused (.unavailable "offline")) else .ok ()

def save (t : Trace) (s : FaultyStore) : Except StoreFault Unit × FaultyStore :=
  let tried := { s with attempts := s.attempts + 1 }
  match s.online? with
  | .error fault => (.error fault, tried)
  | .ok () =>
    match s.plan s.attempts s.saved t with
    | some fault => (.error fault, tried)
    | none => (.ok (), { tried with store := s.store.save t, saved := s.saved + 1 })

def deleteLandscape (token : String) (s : FaultyStore) : Except StoreFault Unit × FaultyStore :=
  match s.online? with
  | .error fault => (.error fault, s)
  | .ok () => (.ok (), { s with store := s.store.deleteLandscape token })

instance : Repository FaultyStore where
  save := save
  deleteLandscape := deleteLandscape
  getAll token s := s.online?.map fun () => s.store.getAll token
  getByTraceId token traceId s := s.online?.map fun () => s.store.getByTraceId token traceId
  getByTime token first last s := s.online?.map fun () => s.store.getByTime token first last

end FaultyStore
end CallTrace
