import Mathlib.Data.Nat.ModEq
import Mathlib.Tactic.Ring

/-! Numbers as bytes with the most significant byte first. -/
namespace BigEndian

/-- The lowest `n` bytes of a number. -/
def encode (n v : Nat) : List UInt8 :=
  (List.range n).reverse.map fun i => UInt8.ofNat (v >>> (8 * i))

def decode (bytes : List UInt8) : Nat :=
  bytes.foldl (fun acc b => 256 * acc + b.toNat) 0

@[simp] theorem length_encode (n v : Nat) : (encode n v).length = n := by simp [encode]

theorem encode_succ (n v : Nat) : encode (n + 1) v = UInt8.ofNat (v >>> (8 * n)) :: encode n v := by
  simp [encode, List.range_succ]

private theorem foldl_decode (acc : Nat) (bytes : List UInt8) :
    bytes.foldl (fun acc b => 256 * acc + b.toNat) acc = acc * 256 ^ bytes.length + decode bytes := by
  induction bytes generalizing acc with
  | nil => simp [decode]
  | cons b bytes ih =>
    simp only [decode, List.foldl_cons, List.length_cons]
    rw [ih, ih]
    ring

theorem decode_cons (b : UInt8) (bytes : List UInt8) :
    decode (b :: bytes) = b.toNat * 256 ^ bytes.length + decode bytes := by
  rw [decode, List.foldl_cons, foldl_decode]
  simp

/-- Decoding gives the number back up to the width. -/
theorem decode_encode (n v : Nat) : decode (encode n v) = v % 256 ^ n := by
  induction n with
  | zero => simp [encode, decode, Nat.mod_one]
  | succ n ih =>
    have hbyte : (UInt8.ofNat (v >>> (8 * n))).toNat = v / 256 ^ n % 256 := by
      rw [UInt8.toNat_ofNat', Nat.shiftRight_eq_div_pow, pow_mul]
      norm_num
    rw [encode_succ, decode_cons, hbyte, length_encode, ih, Nat.mod_pow_succ]
    ring

end BigEndian
