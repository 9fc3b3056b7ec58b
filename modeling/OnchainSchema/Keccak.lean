/-!
Keccak-256 on 25 lanes of 64 bits. The padding begins with `0x01`, not with `0x06` as in SHA3-256.
-/
namespace OnchainSchema.Keccak

/-- Lane `x, y` is word `x + 5 y`. -/
abbrev State := Vector UInt64 25

abbrev Hash := Vector UInt8 32

def State.lane (s : State) (x y : Fin 5) : UInt64 := s.get ⟨x.val + 5 * y.val, by omega⟩

def State.build (f : Fin 5 → Fin 5 → UInt64) : State :=
  Vector.ofFn fun i => f ⟨i.val % 5, by omega⟩ ⟨i.val / 5, by omega⟩

def rotate (w : UInt64) (n : UInt64) : UInt64 :=
  if n = 0 then w else (w <<< n) ||| (w >>> (64 - n))

/-- Rotation of each lane. -/
def offsets : State := #v[
  0, 1, 62, 28, 27,
  36, 44, 6, 55, 20,
  3, 10, 43, 25, 39,
  41, 45, 15, 21, 8,
  18, 2, 61, 56, 14]

def roundConstants : List UInt64 := [
  0x0000000000000001, 0x0000000000008082, 0x800000000000808A, 0x8000000080008000,
  0x000000000000808B, 0x0000000080000001, 0x8000000080008081, 0x8000000000008009,
  0x000000000000008A, 0x0000000000000088, 0x0000000080008009, 0x000000008000000A,
  0x000000008000808B, 0x800000000000008B, 0x8000000000008089, 0x8000000000008003,
  0x8000000000008002, 0x8000000000000080, 0x000000000000800A, 0x800000008000000A,
  0x8000000080008081, 0x8000000000008080, 0x0000000080000001, 0x8000000080008008]

/-- Adds to each lane the parity of the columns beside it. -/
def theta (s : State) : State :=
  let parity : Vector UInt64 5 := Vector.ofFn fun x =>
    s.lane x 0 ^^^ s.lane x 1 ^^^ s.lane x 2 ^^^ s.lane x 3 ^^^ s.lane x 4
  .build fun x y => s.lane x y ^^^ parity.get (x + 4) ^^^ rotate (parity.get (x + 1)) 1

/-- Rotates the lanes and moves lane `x, y` to `y, 2 x + 3 y`. -/
def rhoPi (s : State) : State :=
  .build fun x y => rotate (s.lane (x + 3 * y) x) (offsets.lane (x + 3 * y) x)

def chi (s : State) : State :=
  .build fun x y => s.lane x y ^^^ (~~~(s.lane (x + 1) y) &&& s.lane (x + 2) y)

def iota (constant : UInt64) (s : State) : State := s.set 0 (s.lane 0 0 ^^^ constant)

def permute (s : State) : State :=
  roundConstants.foldl (fun s constant => iota constant (chi (rhoPi (theta s)))) s

/-- Bytes of a block. -/
def rate : Nat := 136

def pad (bytes : List UInt8) : List UInt8 :=
  let missing := rate - bytes.length % rate
  if missing = 1 then bytes ++ [0x81]
  else bytes ++ 0x01 :: List.replicate (missing - 2) 0 ++ [0x80]

/-- The word of eight bytes, lowest first. -/
def word (bytes : List UInt8) : UInt64 :=
  (bytes.take 8).foldr (fun b w => (w <<< 8) ||| b.toUInt64) 0

def addBlock (s : State) (block : List UInt8) : State :=
  Vector.ofFn fun i => s.get i ^^^ word (block.drop (8 * i.val))

def absorb (s : State) (bytes : List UInt8) : State :=
  if bytes.length < rate then s
  else absorb (permute (addBlock s (bytes.take rate))) (bytes.drop rate)
termination_by bytes.length
decreasing_by simp only [List.length_drop, rate] at *; omega

def hash (bytes : List UInt8) : Hash :=
  let s := absorb (Vector.replicate 25 0) (pad bytes)
  Vector.ofFn fun i => (s.get ⟨i.val / 8, by omega⟩ >>> (8 * (i.val % 8)).toUInt64).toUInt8

end OnchainSchema.Keccak
