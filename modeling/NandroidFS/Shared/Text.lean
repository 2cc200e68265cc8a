import NandroidFS.Shared.Primitives
import NandroidFS.Streams.Lines

/-!
# Searching in text

The members of `std::string` that the client uses to take the output of other programs apart.

* `findFrom_of_drop`, `findFrom_of_notMem`: what a search gives, by what follows its position.
-/

namespace NandroidFS

def newline : UInt8 := 10

def carriageReturn : UInt8 := 13

/-- `std::string::find` for one character. -/
def findFrom (c : UInt8) (s : ByteString) (pos : ℕ) : Option ℕ :=
  ((s.drop pos).findIdx? (· == c)).map (pos + ·)

/-- `std::string::substr`. -/
def substr (s : ByteString) (pos count : ℕ) : ByteString :=
  (s.drop pos).take count

/-- `if (s.ends_with(c)) s.pop_back();`. -/
def popIfLast (c : UInt8) (s : ByteString) : ByteString :=
  if s.getLast? = some c then s.dropLast else s

variable {c : UInt8} {s line rest : ByteString} {pos : ℕ}

theorem findIdx?_of_notMem (h : c ∉ s) : s.findIdx? (· == c) = none := by
  rw [List.findIdx?_eq_none_iff]
  intro b hb
  rw [beq_eq_false_iff_ne]
  rintro rfl
  exact h hb

theorem findFrom_of_drop (hline : c ∉ line) (h : s.drop pos = line ++ c :: rest) :
    findFrom c s pos = some (pos + line.length) := by
  have hidx : (line ++ c :: rest).findIdx? (· == c) = some line.length := by
    rw [List.findIdx?_append, findIdx?_of_notMem hline, List.findIdx?_cons]
    simp
  rw [findFrom, h, hidx]
  rfl

theorem findFrom_of_notMem (h : c ∉ s.drop pos) : findFrom c s pos = none := by
  rw [findFrom, findIdx?_of_notMem h]
  rfl

/-- Where the next line begins. -/
theorem drop_of_drop_eq_join {sep : UInt8} {lines : List ByteString}
    (h : s.drop pos = Lines.join sep (line :: lines) rest) :
    s.drop (pos + line.length + 1) = Lines.join sep lines rest := by
  rw [Nat.add_assoc, ← List.drop_drop, h, Lines.join_cons, ← List.drop_drop, List.drop_left]
  rfl

end NandroidFS
