/-! # SHA3-256

The digest of FIPS 202 with 256 bits.  The state of the sponge is a square of five by five lanes
of 64 bits, lane `(x, y)` standing at `x + 5 * y`.  A message is padded to whole blocks of
136 bytes; each block is added to the first lanes, little-endian, and the state is stirred by the
24 rounds of the permutation (`Sha3.permute`). -/

namespace CallTrace.Sha3

abbrev Lanes := Array UInt64

def roundConstants : List UInt64 :=
  [0x0000000000000001, 0x0000000000008082, 0x800000000000808a, 0x8000000080008000,
    0x000000000000808b, 0x0000000080000001, 0x8000000080008081, 0x8000000000008009,
    0x000000000000008a, 0x0000000000000088, 0x0000000080008009, 0x000000008000000a,
    0x000000008000808b, 0x800000000000008b, 0x8000000000008089, 0x8000000000008003,
    0x8000000000008002, 0x8000000000000080, 0x000000000000800a, 0x800000008000000a,
    0x8000000080008081, 0x8000000000008080, 0x0000000080000001, 0x8000000080008008]

/-- How far each lane is turned. -/
def offsets : Array UInt64 :=
  #[0, 1, 62, 28, 27, 36, 44, 6, 55, 20, 3, 10, 43, 25, 39, 41, 45, 15, 21, 8, 18, 2, 61, 56, 14]

def rotateLeft (x n : UInt64) : UInt64 := (x <<< n) ||| (x >>> (64 - n))

def lane (s : Lanes) (x y : Nat) : UInt64 := s.getD (x % 5 + 5 * (y % 5)) 0

/-- The square whose lane `(x, y)` is `f x y`. -/
def square (f : Nat → Nat → UInt64) : Lanes :=
  (Array.range 25).map fun i => f (i % 5) (i / 5)

/-- Adds to every lane the parities of two neighbouring columns. -/
def theta (s : Lanes) : Lanes :=
  let parity := (Array.range 5).map fun x =>
    lane s x 0 ^^^ lane s x 1 ^^^ lane s x 2 ^^^ lane s x 3 ^^^ lane s x 4
  square fun x y =>
    lane s x y ^^^ parity.getD ((x + 4) % 5) 0 ^^^ rotateLeft (parity.getD ((x + 1) % 5) 0) 1

/-- Turns the lanes and moves them around. -/
def rhoPi (s : Lanes) : Lanes :=
  square fun x y =>
    rotateLeft (lane s (x + 3 * y) x) (offsets.getD ((x + 3 * y) % 5 + 5 * x) 0)

def chi (s : Lanes) : Lanes :=
  square fun x y => lane s x y ^^^ (~~~lane s (x + 1) y &&& lane s (x + 2) y)

def round (s : Lanes) (constant : UInt64) : Lanes :=
  (chi (rhoPi (theta s))).modify 0 (· ^^^ constant)

def permute (s : Lanes) : Lanes := roundConstants.foldl round s

/-- The message with the suffix bits and the first and last bit of the padding. -/
def pad (message : Array UInt8) : Array UInt8 :=
  let room := 136 - message.size % 136
  if room = 1 then message.push 0x86
  else
    let tail : List UInt8 := 0x06 :: List.replicate (room - 2) 0 ++ [0x80]
    message ++ tail

/-- The lane that begins at a byte. -/
def laneAt (bytes : Array UInt8) (i : Nat) : UInt64 :=
  (List.range 8).foldr (fun j n => n <<< 8 ||| (bytes.getD (i + j) 0).toUInt64) 0

/-- Adds the block that begins at a byte, and stirs. -/
def absorb (bytes : Array UInt8) (s : Lanes) (start : Nat) : Lanes :=
  permute (s.mapIdx fun i l => if i < 17 then l ^^^ laneAt bytes (start + 8 * i) else l)

def digest (message : Array UInt8) : List UInt8 :=
  let padded := pad message
  let s := (List.range (padded.size / 136)).foldl
    (fun s i => absorb padded s (136 * i)) (Array.replicate 25 0)
  (s.toList.take 4).flatMap fun l =>
    (List.range 8).map fun j => (l >>> (8 * j).toUInt64).toUInt8

end CallTrace.Sha3
