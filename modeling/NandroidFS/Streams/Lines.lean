import Mathlib.Data.List.Basic
import Mathlib.Tactic.Common

/-!
# Lines

A sequence with a separator in it is a number of lines, each ended by the separator, and a line that
has not been ended yet.

* `recLines`: induction over the lines of a sequence.
* `ended_append`, `unfinished_append`: what arrives later continues the unfinished line, so the
  lines of a sequence do not depend on how it is cut.
-/

namespace NandroidFS

namespace Lines

variable {α : Type*} [DecidableEq α] {sep : α}

/-- The lines that the separator has ended, without it. -/
def ended (sep : α) (l : List α) : List (List α) :=
  (l.splitOn sep).dropLast

/-- What follows the last separator. -/
def unfinished (sep : α) (l : List α) : List α :=
  (l.splitOn sep).getLast (List.splitOn_ne_nil _ _)

/-- The sequence that has these lines, and then `rest`. -/
def join (sep : α) (lines : List (List α)) (rest : List α) : List α :=
  lines.flatMap (· ++ [sep]) ++ rest

omit [DecidableEq α] in
theorem join_cons (line : List α) (lines : List (List α)) (rest : List α) :
    join sep (line :: lines) rest = line ++ sep :: join sep lines rest := by
  simp [join]

theorem ended_of_notMem {l : List α} (h : sep ∉ l) : ended sep l = [] := by
  rw [ended, List.splitOn_eq_singleton h]
  rfl

theorem unfinished_of_notMem {l : List α} (h : sep ∉ l) : unfinished sep l = l := by
  simp only [unfinished, List.splitOn_eq_singleton h, List.getLast_singleton]

theorem ended_append_cons {p : List α} (hp : sep ∉ p) (q : List α) :
    ended sep (p ++ sep :: q) = p :: ended sep q := by
  rw [ended, List.splitOn_append_cons_self_of_not_mem hp,
    List.dropLast_cons_of_ne_nil (List.splitOn_ne_nil _ _)]
  rfl

theorem unfinished_append_cons (p q : List α) :
    unfinished sep (p ++ sep :: q) = unfinished sep q := by
  simp only [unfinished, List.splitOn_append_cons_self]
  rw [List.getLast_append_of_ne_nil _ (List.splitOn_ne_nil _ _)]

/-- **Induction over lines**: a sequence has no separator, or it is a line, a separator and a
sequence. -/
theorem recLines (sep : α) {P : List α → Prop} (hopen : ∀ l, sep ∉ l → P l)
    (hline : ∀ p q, sep ∉ p → P q → P (p ++ sep :: q)) (l : List α) : P l := by
  induction hn : l.length using Nat.strongRecOn generalizing l with
  | _ n ih =>
    by_cases hmem : sep ∈ l
    · obtain ⟨p, q, rfl, hp⟩ := List.eq_append_cons_of_mem hmem
      refine hline p q hp (ih q.length ?_ q rfl)
      rw [← hn, List.length_append, List.length_cons]
      omega
    · exact hopen l hmem

theorem notMem_unfinished (l : List α) : sep ∉ unfinished sep l := by
  induction l using recLines sep with
  | hopen l h => rwa [unfinished_of_notMem h]
  | hline p q hp ih => rwa [unfinished_append_cons]

theorem notMem_of_mem_ended {l line : List α} (h : line ∈ ended sep l) : sep ∉ line := by
  induction l using recLines sep with
  | hopen l hl =>
    rw [ended_of_notMem hl] at h
    cases h
  | hline p q hp ih =>
    rw [ended_append_cons hp] at h
    rcases List.mem_cons.mp h with rfl | h
    · exact hp
    · exact ih h

/-- A sequence is its lines and what follows them. -/
theorem join_ended (l : List α) : join sep (ended sep l) (unfinished sep l) = l := by
  induction l using recLines sep with
  | hopen l hl =>
    rw [ended_of_notMem hl, unfinished_of_notMem hl]
    rfl
  | hline p q hp ih => rw [ended_append_cons hp, unfinished_append_cons, join_cons, ih]

theorem length_ended_le (l : List α) : (ended sep l).length ≤ l.length := by
  induction l using recLines sep with
  | hopen l hl => simp [ended_of_notMem hl]
  | hline p q hp ih =>
    rw [ended_append_cons hp, List.length_append, List.length_cons, List.length_cons]
    omega

/-- **What arrives later continues the unfinished line.** -/
theorem ended_append (x y : List α) :
    ended sep (x ++ y) = ended sep x ++ ended sep (unfinished sep x ++ y) := by
  induction x using recLines sep with
  | hopen x h => rw [ended_of_notMem h, unfinished_of_notMem h, List.nil_append]
  | hline p q hp ih =>
    rw [List.append_assoc, List.cons_append, ended_append_cons hp, ended_append_cons hp,
      unfinished_append_cons, ih, List.cons_append]

theorem ended_mono {x y : List α} (h : x <+: y) : ended sep x <+: ended sep y := by
  obtain ⟨z, rfl⟩ := h
  rw [ended_append]
  exact List.prefix_append _ _

theorem unfinished_append (x y : List α) :
    unfinished sep (x ++ y) = unfinished sep (unfinished sep x ++ y) := by
  induction x using recLines sep with
  | hopen x h => rw [unfinished_of_notMem h]
  | hline p q hp ih =>
    rw [List.append_assoc, List.cons_append, unfinished_append_cons, unfinished_append_cons, ih]

example : ended 10 [97, 10, 10, 98] = [[97], []] := by decide

end Lines

end NandroidFS
