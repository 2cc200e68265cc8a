import Mathlib.Tactic.Common
import Mathlib.Data.List.Basic

/-!
# A file as an array of bytes

What a file is, for someone who only reads, writes and truncates it: a finite array of bytes.  A
write past the end fills the gap with zeros, a read stops at the end, and a change of the length
cuts or fills with zeros.

`writeAt_append` and `readAt_add` say that each operation may be done in pieces, which is all that
a loop around short counts needs.
-/

namespace NandroidFS

namespace ByteFile

/-- Replace the bytes from position `o` on by `d`.  Between the old end and `o` the file is filled
with zeros; a write of nothing changes nothing. -/
def writeAt (f : List UInt8) (o : ℕ) (d : List UInt8) : List UInt8 :=
  if d = [] then f
  else f.take o ++ List.replicate (o - f.length) 0 ++ d ++ f.drop (o + d.length)

/-- The `n` bytes from position `o` on, or as many as there are. -/
def readAt (f : List UInt8) (o n : ℕ) : List UInt8 :=
  (f.drop o).take n

/-- Cut the file to `n` bytes, or fill it up to `n` bytes with zeros. -/
def setLen (f : List UInt8) (n : ℕ) : List UInt8 :=
  f.take n ++ List.replicate (n - f.length) 0

variable (f : List UInt8) (o : ℕ)

@[simp] theorem writeAt_nil : writeAt f o [] = f :=
  if_pos rfl

/-- **What a write leaves at each position**: the old bytes before it, zeros in the gap, the new
bytes, and the old bytes after them. -/
theorem getElem?_writeAt {d : List UInt8} (hd : d ≠ []) (i : ℕ) :
    (writeAt f o d)[i]? =
      if i < o then some (f[i]?.getD 0) else if i < o + d.length then d[i - o]? else f[i]? := by
  unfold writeAt
  rw [if_neg hd]
  have hpad : (f.take o ++ List.replicate (o - f.length) 0).length = o := by
    rw [List.length_append, List.length_take, List.length_replicate]
    omega
  by_cases hi : i < o
  · rw [if_pos hi, List.append_assoc, List.getElem?_append_left (by rwa [hpad])]
    by_cases hf : i < f.length
    · rw [List.getElem?_append_left (by rw [List.length_take]; omega), List.getElem?_take,
        if_pos hi, List.getElem?_eq_getElem hf]
      rfl
    · have hlen : (f.take o).length = f.length := by
        rw [List.length_take]
        omega
      rw [List.getElem?_append_right (by omega), hlen, List.getElem?_replicate,
        if_pos (by omega), List.getElem?_eq_none (Nat.le_of_not_lt hf)]
      rfl
  · rw [if_neg hi, List.append_assoc, List.getElem?_append_right (by omega), hpad]
    by_cases hid : i < o + d.length
    · rw [if_pos hid, List.getElem?_append_left (by omega)]
    · rw [if_neg hid, List.getElem?_append_right (by omega), List.getElem?_drop]
      congr 1
      omega

/-- **A write may be done in pieces.** -/
theorem writeAt_append (a b : List UInt8) :
    writeAt (writeAt f o a) (o + a.length) b = writeAt f o (a ++ b) := by
  by_cases ha : a = []
  · rw [ha, writeAt_nil, List.length_nil, Nat.add_zero, List.nil_append]
  by_cases hb : b = []
  · rw [hb, writeAt_nil, List.append_nil]
  have hab : a ++ b ≠ [] := by simp [ha]
  have hpos : 0 < a.length := List.length_pos_iff.mpr ha
  refine List.ext_getElem? fun i => ?_
  rw [getElem?_writeAt _ _ hb, getElem?_writeAt _ _ ha, getElem?_writeAt _ _ hab,
    List.length_append]
  by_cases hi : i < o
  · rw [if_pos (by omega), if_pos hi, if_pos hi]
    rfl
  · rw [if_neg hi, if_neg hi]
    by_cases hia : i < o + a.length
    · rw [if_pos hia, if_pos hia, if_pos (by omega), List.getElem?_append_left (by omega),
        List.getElem?_eq_getElem (by omega)]
      rfl
    · rw [if_neg hia, if_neg hia, List.getElem?_append_right (by omega)]
      by_cases hiab : i < o + a.length + b.length
      · rw [if_pos hiab, if_pos (by omega)]
        congr 1
        omega
      · rw [if_neg hiab, if_neg (by omega)]

/-- **A read may be done in pieces.** -/
theorem readAt_add (m n : ℕ) : readAt f o (m + n) = readAt f o m ++ readAt f (o + m) n := by
  rw [readAt, readAt, readAt, List.take_add, List.drop_drop]

/-- What was read is what there is to read of that length. -/
theorem readAt_length (n : ℕ) : readAt f o n = readAt f o (readAt f o n).length := by
  rw [readAt, readAt, List.length_take, ← List.take_take, List.take_length]

/-- Past the end there is nothing to read. -/
theorem readAt_of_length_le (h : f.length ≤ o) (n : ℕ) : readAt f o n = [] := by
  rw [readAt, List.drop_eq_nil_of_le h, List.take_nil]

/-! ## Against the bytes that a file is to have -/

@[simp] theorem length_setLen (n : ℕ) : (setLen f n).length = n := by
  simp only [setLen, List.length_append, List.length_take, List.length_replicate]
  omega

/-- A change of the length leaves the bytes that stay. -/
theorem getElem?_setLen {n i : ℕ} (hi : i < n) (hf : i < f.length) :
    (setLen f n)[i]? = f[i]? := by
  have htake : i < (f.take n).length := by
    rw [List.length_take]
    omega
  rw [setLen, List.getElem?_append_left htake, List.getElem?_take, if_pos hi]

variable {f o} {D : List UInt8}

/-- **A write of bytes that `D` has there puts them there**, and leaves every byte that was right
as it was, even in the gap that it fills. -/
theorem getElem?_writeAt_of_prefix {d : List UInt8} (hd : d <+: D.drop o) {i : ℕ}
    (hi : i < D.length) (h : f[i]? = D[i]? ∨ o ≤ i ∧ i < o + d.length) :
    (writeAt f o d)[i]? = D[i]? := by
  by_cases hnil : d = []
  · rw [hnil] at h ⊢
    rw [writeAt_nil]
    refine h.resolve_right fun hin => ?_
    exact absurd (Nat.lt_of_le_of_lt hin.1 hin.2) (Nat.lt_irrefl o)
  · rw [getElem?_writeAt f o hnil]
    by_cases hio : i < o
    · have hright : f[i]? = D[i]? := h.resolve_right fun hin => Nat.not_lt.mpr hin.1 hio
      rw [if_pos hio, hright, List.getElem?_eq_getElem hi]
      rfl
    · rw [if_neg hio]
      by_cases hid : i < o + d.length
      · have hpos : i - o < d.length := by omega
        have hread := List.prefix_iff_getElem?.mp hd (i - o) hpos
        rw [List.getElem?_drop, Nat.add_sub_cancel' (Nat.not_lt.mp hio)] at hread
        rw [if_pos hid, hread]
        exact List.getElem?_eq_getElem hpos
      · rw [if_neg hid]
        exact h.resolve_right fun hin => hid hin.2

/-- Such a write makes the file no longer than `D`. -/
theorem length_writeAt_le_of_prefix {d : List UInt8} (hd : d <+: D.drop o)
    (hf : f.length ≤ D.length) : (writeAt f o d).length ≤ D.length := by
  by_cases hnil : d = []
  · rw [hnil, writeAt_nil]
    exact hf
  · have hle := hd.length_le
    have hpos := List.length_pos_iff.mpr hnil
    rw [List.length_drop] at hle
    rw [writeAt, if_neg hnil]
    simp only [List.length_append, List.length_take, List.length_replicate, List.length_drop]
    omega

/-- A read where all the bytes are right reads what `D` has there. -/
theorem readAt_eq_of_getElem?_eq {n : ℕ} (hlen : f.length ≤ D.length)
    (h : ∀ i, o ≤ i → i < o + n → i < D.length → f[i]? = D[i]?) : readAt f o n = readAt D o n := by
  refine List.ext_getElem? fun i => ?_
  rw [readAt, readAt, List.getElem?_take, List.getElem?_take]
  by_cases hi : i < n
  · rw [if_pos hi, if_pos hi, List.getElem?_drop, List.getElem?_drop]
    by_cases hD : o + i < D.length
    · exact h (o + i) (Nat.le_add_right o i) (by omega) hD
    · have hend := Nat.not_lt.mp hD
      rw [List.getElem?_eq_none hend, List.getElem?_eq_none (Nat.le_trans hlen hend)]
  · rw [if_neg hi, if_neg hi]

example : writeAt [1, 2, 3] 5 [9] = [1, 2, 3, 0, 0, 9] := by decide

example : readAt [1, 2, 3] 1 7 = [2, 3] := by decide

end ByteFile

end NandroidFS
