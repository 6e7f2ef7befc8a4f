/-!
# Scriptlet.Number.Power

Powers of two and of ten. They are written by `Nat.pow`, so that they are the same terms whatever
instance of `^` is in scope.
-/

namespace Scriptlet

def pow2 (n : Nat) : Nat := Nat.pow 2 n

def pow5 (n : Nat) : Nat := Nat.pow 5 n

def pow10 (n : Nat) : Nat := Nat.pow 10 n

@[simp] theorem pow10_zero : pow10 0 = 1 := rfl

theorem pow10_succ (n : Nat) : pow10 (n + 1) = pow10 n * 10 := rfl

theorem pow10_add (m n : Nat) : pow10 (m + n) = pow10 m * pow10 n := Nat.pow_add 10 m n

theorem pow10_pos (n : Nat) : 0 < pow10 n := Nat.pow_pos (by decide)

@[simp] theorem pow2_zero : pow2 0 = 1 := rfl

theorem pow2_succ (n : Nat) : pow2 (n + 1) = pow2 n * 2 := rfl

theorem pow2_add (m n : Nat) : pow2 (m + n) = pow2 m * pow2 n := Nat.pow_add 2 m n

theorem pow2_pos (n : Nat) : 0 < pow2 n := Nat.two_pow_pos n

theorem pow2_le {m n : Nat} (h : m ≤ n) : pow2 m ≤ pow2 n := Nat.pow_le_pow_right (by decide) h

theorem pow10_eq (n : Nat) : pow10 n = pow2 n * pow5 n := Nat.mul_pow 2 5 n

end Scriptlet
