/-! Hexadecimal text of bytes: written in lower case, read in either case. -/
namespace OnchainSchema.Hex

def digits : List Char :=
  ['0', '1', '2', '3', '4', '5', '6', '7', '8', '9', 'a', 'b', 'c', 'd', 'e', 'f']

def digit (n : Nat) : Char := digits.getD n '0'

def value? (c : Char) : Option Nat := digits.findIdx? (· == c.toLower)

def encode : List UInt8 → List Char
  | [] => []
  | b :: bs => digit (b.toNat / 16) :: digit (b.toNat % 16) :: encode bs

/-- Refuses an odd count and anything but digits. -/
def decode? : List Char → Option (List UInt8)
  | [] => some []
  | [_] => none
  | c :: d :: cs =>
    match value? c, value? d, decode? cs with
    | some high, some low, some bs => some (UInt8.ofNat (high * 16 + low) :: bs)
    | _, _, _ => none

theorem value?_digit {n : Nat} (h : n < 16) : value? (digit n) = some n :=
  (by decide : ∀ n ∈ List.range 16, value? (digit n) = some n) n (List.mem_range.mpr h)

theorem lt_of_value? {c : Char} {n : Nat} (h : value? c = some n) : n < 16 := by
  simpa [digits] using (List.findIdx?_eq_some_iff_findIdx_eq.mp h).1

@[simp] theorem decode?_encode (bs : List UInt8) : decode? (encode bs) = some bs := by
  induction bs with
  | nil => rfl
  | cons b bs ih =>
    have hb : b.toNat < 256 := b.toNat_lt_size
    simp only [encode, decode?, value?_digit (show b.toNat / 16 < 16 by omega),
      value?_digit (show b.toNat % 16 < 16 by omega), ih,
      show b.toNat / 16 * 16 + b.toNat % 16 = b.toNat by omega, UInt8.ofNat_toNat]

theorem length_of_decode? {cs : List Char} {bs : List UInt8} (h : decode? cs = some bs) :
    cs.length = 2 * bs.length := by
  fun_induction decode? cs generalizing bs with
  | case1 => simp_all
  | case2 => simp at h
  | case3 c d cs high low bs' h3 _ _ ih =>
    obtain rfl := Option.some.inj h
    simp only [List.length_cons, ih h3]
    omega
  | case4 => simp at h

end OnchainSchema.Hex
