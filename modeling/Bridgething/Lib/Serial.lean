/-
Serial numbers of eight bits: counters that wrap, told apart while they are close.
-/
import Mathlib

namespace Serial

/-- The number of the one that comes so many after the base. -/
def nth (base : UInt8) (count : Nat) : UInt8 :=
  base + UInt8.ofNat count

/-- How far ahead of another a number is, all the way around if need be. -/
def ahead (number other : UInt8) : Nat :=
  (number - other).toNat

theorem nth_zero (base : UInt8) : nth base 0 = base := by
  rw [nth]
  exact UInt8.add_zero base

theorem nth_succ (base : UInt8) (count : Nat) :
    nth base count + 1 = nth base (count + 1) := by
  rw [nth, nth, UInt8.add_assoc, UInt8.ofNat_add]
  rfl

theorem nth_nth (base : UInt8) (left right : Nat) :
    nth (nth base left) right = nth base (left + right) := by
  rw [nth, nth, nth, UInt8.ofNat_add, UInt8.add_assoc]

theorem ahead_nth (base : UInt8) (left right : Nat) :
    ahead (nth base left) (nth base right) =
      (left + (256 - right % 256)) % 256 := by
  have hleft : (UInt8.ofNat left).toNat = left % 256 := UInt8.toNat_ofNat'
  have hright : (UInt8.ofNat right).toNat = right % 256 := UInt8.toNat_ofNat'
  have hbase : base.toNat < 256 := UInt8.toNat_lt base
  rw [ahead, nth, nth, UInt8.toNat_sub, UInt8.toNat_add, UInt8.toNat_add,
    hleft, hright]
  omega

/-- A number that is at most half way ahead reads as that far ahead. -/
theorem ahead_of_le {base : UInt8} {left right : Nat} (h : right ≤ left)
    (hclose : left < right + 256) :
    ahead (nth base left) (nth base right) = left - right := by
  rw [ahead_nth]
  omega

theorem ahead_self (number : UInt8) : ahead number number = 0 := by
  rw [ahead, UInt8.sub_self]
  rfl

theorem ahead_lt (number other : UInt8) : ahead number other < 256 :=
  UInt8.toNat_lt _

/-- A number is the one that far ahead. -/
theorem nth_ahead (number other : UInt8) :
    nth other (ahead number other) = number := by
  rw [nth, ahead, UInt8.ofNat_toNat, UInt8.add_comm, UInt8.sub_add_cancel]

theorem ahead_nth_self (base : UInt8) {count : Nat} (h : count < 256) :
    ahead (nth base count) base = count := by
  have hzero : ahead (nth base count) (nth base 0) = count - 0 :=
    ahead_of_le (Nat.zero_le count) (by omega)
  rwa [nth_zero] at hzero

theorem ahead_succ {number other : UInt8} (h : 1 ≤ ahead number other) :
    ahead number (other + 1) = ahead number other - 1 := by
  have hlt := ahead_lt number other
  have hnumber := nth_ahead number other
  have hnext : other + 1 = nth other 1 := rfl
  rw [← hnumber, hnext, ahead_of_le h (by omega), hnumber]

theorem ahead_eq_one {number other : UInt8} (h : ahead number other = 1) :
    number = other + 1 := by
  rw [← nth_ahead number other, h]
  rfl

/-- Two numbers that are less than one turn apart are equal only if they come at
the same count. -/
theorem nth_inj {base : UInt8} {left right : Nat} (hleft : left < right + 256)
    (hright : right < left + 256) (h : nth base left = nth base right) :
    left = right := by
  have hzero := ahead_nth base left right
  rw [h, ahead_self] at hzero
  omega

end Serial
