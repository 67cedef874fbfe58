/-! # Lines of a byte stream

A line ends at a line feed, and a carriage return right before that belongs to the end.  The bytes
after the last line feed are a line too, unless there are none; a carriage return is theirs.  A
stream is taken apart line by line (`lines_terminated`, `lines_unterminated`). -/

namespace CallTrace.Ingress

abbrev Bytes := List UInt8

def lineFeed : UInt8 := 0x0a

def carriageReturn : UInt8 := 0x0d

/-- Drops a carriage return from a line that is given from its end. -/
def dropReturn : Bytes → Bytes
  | [] => []
  | b :: line => if b = carriageReturn then line else b :: line

/-- The lines of a stream; `begun` holds what the first one has so far, the last byte first. -/
def linesFrom (begun : Bytes) : Bytes → List Bytes
  | [] => if begun.isEmpty then [] else [begun.reverse]
  | b :: rest =>
    if b = lineFeed then (dropReturn begun).reverse :: linesFrom [] rest
    else linesFrom (b :: begun) rest

def lines (bytes : Bytes) : List Bytes := linesFrom [] bytes

theorem linesFrom_append {line : Bytes} (h : lineFeed ∉ line) (begun rest : Bytes) :
    linesFrom begun (line ++ rest) = linesFrom (line.reverse ++ begun) rest := by
  induction line generalizing begun with
  | nil => rfl
  | cons b line ih =>
    have hb : b ≠ lineFeed := fun e => h (e ▸ List.mem_cons_self)
    have hl : lineFeed ∉ line := fun m => h (List.mem_cons_of_mem _ m)
    simp [linesFrom, hb, ih hl]

theorem lines_terminated {line : Bytes} (h : lineFeed ∉ line) (rest : Bytes) :
    lines (line ++ lineFeed :: rest) = (dropReturn line.reverse).reverse :: lines rest := by
  unfold lines
  rw [linesFrom_append h]
  simp [linesFrom]

theorem lines_unterminated {line : Bytes} (h : lineFeed ∉ line) :
    lines line = if line.isEmpty then [] else [line] := by
  have := linesFrom_append h [] []
  simp only [List.append_nil] at this
  simp [lines, this, linesFrom]

end CallTrace.Ingress
