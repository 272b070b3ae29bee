/-
Numbers as bytes of a fixed width, the most significant first.
-/
import Mathlib

namespace BigEndian

/-- The lowest `width` bytes of a number. -/
def toBytes : Nat → Nat → List UInt8
  | 0, _ => []
  | width + 1, value => toBytes width (value / 256) ++ [UInt8.ofNat value]

def ofBytes (bytes : List UInt8) : Nat :=
  bytes.foldl (fun value byte => value * 256 + byte.toNat) 0

@[simp] theorem length_toBytes (width value : Nat) :
    (toBytes width value).length = width := by
  induction width generalizing value with
  | zero => rfl
  | succ width ih => rw [toBytes, List.length_append, ih, List.length_singleton]

theorem ofBytes_concat (bytes : List UInt8) (last : UInt8) :
    ofBytes (bytes ++ [last]) = ofBytes bytes * 256 + last.toNat := by
  rw [ofBytes, List.foldl_append]
  rfl

theorem ofBytes_lt (bytes : List UInt8) :
    ofBytes bytes < 256 ^ bytes.length := by
  induction bytes using List.reverseRecOn with
  | nil => decide
  | append_singleton bytes last ih =>
      have hlast : last.toNat < 256 := last.toNat_lt
      rw [ofBytes_concat, List.length_append, List.length_singleton, pow_succ]
      omega

/-- Only what the width holds comes back. -/
theorem ofBytes_toBytes (width value : Nat) :
    ofBytes (toBytes width value) = value % 256 ^ width := by
  induction width generalizing value with
  | zero => rw [pow_zero, Nat.mod_one, toBytes, ofBytes, List.foldl_nil]
  | succ width ih =>
      have hlast : (UInt8.ofNat value).toNat = value % 256 := by simp
      rw [toBytes, ofBytes_concat, ih, hlast, pow_succ',
        Nat.mod_mul (a := 256), Nat.mul_comm, Nat.add_comm]

theorem ofBytes_toBytes_of_lt {width value : Nat} (h : value < 256 ^ width) :
    ofBytes (toBytes width value) = value := by
  rw [ofBytes_toBytes, Nat.mod_eq_of_lt h]

theorem toBytes_ofBytes (bytes : List UInt8) :
    toBytes bytes.length (ofBytes bytes) = bytes := by
  induction bytes using List.reverseRecOn with
  | nil => rfl
  | append_singleton bytes last ih =>
      have hlast : last.toNat < 256 := last.toNat_lt
      have hdiv : (ofBytes bytes * 256 + last.toNat) / 256 = ofBytes bytes := by
        omega
      have hmod : UInt8.ofNat (ofBytes bytes * 256 + last.toNat) = last := by
        rw [← UInt8.toNat_inj]
        simp
      rw [List.length_append, List.length_singleton, toBytes, ofBytes_concat,
        hdiv, ih, hmod]

end BigEndian
