/-! # Counters

What the program keeps count of.  A `Counters` value has one cell of 64 bits for each `Counter`;
cells wrap around and do not touch each other.  `Counters.take` reads all cells and leaves zeros
behind, so what a later `take` reads was added after it. -/

namespace CallTrace

inductive Counter where
  | receivedSpans
  | lateSpans
  | oversizedRecords
  | reconstructedTraces
  | reducedTraces
  | reductionFallbacks
  | persistedTraces
  | failedPersists
  | discardedWindows
deriving DecidableEq, Repr

/-- All counters, in the order in which they are shown. -/
def Counter.all : List Counter :=
  [.receivedSpans, .lateSpans, .oversizedRecords, .reconstructedTraces, .reducedTraces,
    .reductionFallbacks, .persistedTraces, .failedPersists, .discardedWindows]

structure Counters where
  receivedSpans : UInt64 := 0
  lateSpans : UInt64 := 0
  oversizedRecords : UInt64 := 0
  reconstructedTraces : UInt64 := 0
  reducedTraces : UInt64 := 0
  reductionFallbacks : UInt64 := 0
  persistedTraces : UInt64 := 0
  failedPersists : UInt64 := 0
  discardedWindows : UInt64 := 0
deriving DecidableEq, Repr

namespace Counters

def get (c : Counters) : Counter → UInt64
  | .receivedSpans => c.receivedSpans
  | .lateSpans => c.lateSpans
  | .oversizedRecords => c.oversizedRecords
  | .reconstructedTraces => c.reconstructedTraces
  | .reducedTraces => c.reducedTraces
  | .reductionFallbacks => c.reductionFallbacks
  | .persistedTraces => c.persistedTraces
  | .failedPersists => c.failedPersists
  | .discardedWindows => c.discardedWindows

def set (c : Counters) (counter : Counter) (n : UInt64) : Counters :=
  match counter with
  | .receivedSpans => { c with receivedSpans := n }
  | .lateSpans => { c with lateSpans := n }
  | .oversizedRecords => { c with oversizedRecords := n }
  | .reconstructedTraces => { c with reconstructedTraces := n }
  | .reducedTraces => { c with reducedTraces := n }
  | .reductionFallbacks => { c with reductionFallbacks := n }
  | .persistedTraces => { c with persistedTraces := n }
  | .failedPersists => { c with failedPersists := n }
  | .discardedWindows => { c with discardedWindows := n }

def add (c : Counters) (counter : Counter) (n : UInt64) : Counters :=
  c.set counter (c.get counter + n)

def incr (c : Counters) (counter : Counter) : Counters := c.add counter 1

/-- The cells in the order of `Counter.all`. -/
def row (c : Counters) : List UInt64 := Counter.all.map c.get

/-- Reads one cell and leaves zero in it. -/
def swap (c : Counters) (counter : Counter) : UInt64 × Counters :=
  (c.get counter, c.set counter 0)

/-- Reads all cells and leaves zeros in them. -/
def take (c : Counters) : Counters × Counters := (c, {})

@[simp] theorem get_set (c : Counters) (i j : Counter) (n : UInt64) :
    (c.set i n).get j = if i = j then n else c.get j := by
  cases i <;> cases j <;> rfl

theorem get_add (c : Counters) (i j : Counter) (n : UInt64) :
    (c.add i n).get j = if i = j then c.get i + n else c.get j := get_set ..

end Counters
end CallTrace
