import Mathlib.Tactic.Common
import Mathlib.Data.List.Basic
import Mathlib.Data.Nat.Basic
import Mathlib.Tactic.Ring

/-!
# Fixed-width numbers as bytes

`leBytes n v` is the `n` least significant bytes of `v`, least significant first, and `ofLe` reads
such a list back.  Both are plain base-256 arithmetic, so every width and both byte orders are
covered by two lemmas: reading back what was written (`ofLe_leBytes`), and writing back what was
read (`leBytes_ofLe`).
-/

namespace NandroidFS

/-- The `n` least significant bytes of `v`, least significant first. -/
def leBytes : ℕ → ℕ → List UInt8
  | 0, _ => []
  | n + 1, v => UInt8.ofNat v :: leBytes n (v / 256)

/-- The number with the given bytes, least significant first. -/
def ofLe : List UInt8 → ℕ
  | [] => 0
  | b :: bs => b.toNat + 256 * ofLe bs

@[simp] theorem length_leBytes (n v : ℕ) : (leBytes n v).length = n := by
  induction n generalizing v with
  | zero => rfl
  | succ n ih => rw [leBytes, List.length_cons, ih]

theorem ofLe_lt (bs : List UInt8) : ofLe bs < 256 ^ bs.length := by
  induction bs with
  | nil => simp [ofLe]
  | cons b bs ih =>
    have hb := b.toNat_lt
    rw [ofLe, List.length_cons, pow_succ]
    omega

/-- **Reading back what was written.** -/
theorem ofLe_leBytes (n v : ℕ) : ofLe (leBytes n v) = v % 256 ^ n := by
  induction n generalizing v with
  | zero => simp [leBytes, ofLe, Nat.mod_one]
  | succ n ih =>
    have hmod : v % 256 ^ (n + 1) = v % 256 + 256 * (v / 256 % 256 ^ n) := by
      rw [pow_succ, mul_comm, Nat.mod_mul]
    rw [leBytes, ofLe, ih, UInt8.toNat_ofNat', hmod]

theorem ofLe_leBytes_of_lt {n v : ℕ} (h : v < 256 ^ n) : ofLe (leBytes n v) = v := by
  rw [ofLe_leBytes, Nat.mod_eq_of_lt h]

/-- **Writing back what was read.** -/
theorem leBytes_ofLe (bs : List UInt8) : leBytes bs.length (ofLe bs) = bs := by
  induction bs with
  | nil => rfl
  | cons b bs ih =>
    have hb := b.toNat_lt
    have hdiv : (b.toNat + 256 * ofLe bs) / 256 = ofLe bs := by omega
    have hmod : UInt8.ofNat (b.toNat + 256 * ofLe bs) = b := by
      apply UInt8.toNat_inj.mp
      rw [UInt8.toNat_ofNat']
      omega
    rw [List.length_cons, ofLe, leBytes, hdiv, hmod, ih]

theorem leBytes_ofLe_of_length {n : ℕ} {bs : List UInt8} (h : bs.length = n) :
    leBytes n (ofLe bs) = bs := by
  rw [← h, leBytes_ofLe]

/-- A number in two halves is the bytes of its low half followed by those of its high half. -/
theorem leBytes_add (m n lo hi : ℕ) (h : lo < 256 ^ m) :
    leBytes (m + n) (lo + 256 ^ m * hi) = leBytes m lo ++ leBytes n hi := by
  induction m generalizing lo with
  | zero =>
    have : lo = 0 := by simpa using h
    simp [this, leBytes]
  | succ m ih =>
    have hpow : 256 ^ (m + 1) * hi = 256 * (256 ^ m * hi) := by ring
    have hlt : lo / 256 < 256 ^ m := by
      rw [pow_succ] at h
      omega
    have hdiv : (lo + 256 ^ (m + 1) * hi) / 256 = lo / 256 + 256 ^ m * hi := by
      rw [hpow]
      omega
    have hhead : UInt8.ofNat (lo + 256 ^ (m + 1) * hi) = UInt8.ofNat lo := by
      apply UInt8.toNat_inj.mp
      rw [UInt8.toNat_ofNat', UInt8.toNat_ofNat', hpow]
      omega
    rw [Nat.succ_add, leBytes, leBytes, hdiv, hhead, ih _ hlt, List.cons_append]

end NandroidFS
