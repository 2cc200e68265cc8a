import Mathlib.Logic.Function.Basic
import NandroidFS.Daemon.Serve
import NandroidFS.Files.ByteFile

/-!
# What POSIX says of files

`PosixFiles` is what the handlers for reading, writing and truncating rely on: a kernel state has
the bytes of every file and, for every descriptor, an open file with a position of its own; a seek
sets the position; a read or a write moves some bytes, at least one where there is one to move, and
advances the position by as many; any of them may fail.  How many bytes a call moves is left open.

The specifications of `readAll` and `writeAll` follow from it by the composition rules of
`ByteFile`, whatever the counts are.
-/

namespace NandroidFS

open ByteFile

/-- An open file: which file, and at what position. -/
structure OpenFile where
  inode : ℕ
  offset : ℕ
  deriving DecidableEq

/-- What can be seen of the files in a state of the kernel. -/
structure FileView (K : Type) where
  contents : K → ℕ → List UInt8
  opened : K → Int32 → Option OpenFile

namespace FileView

variable {K : Type} (px : FileView K)

/-- Between the two states the file `inode` has got the contents `bytes` and the descriptor `fd` the
position `offset`, and nothing else has changed. -/
structure After (k k' : K) (fd : Int32) (inode : ℕ) (bytes : List UInt8) (offset : ℕ) : Prop where
  contents : px.contents k' = Function.update (px.contents k) inode bytes
  opened : px.opened k' = Function.update (px.opened k) fd (some ⟨inode, offset⟩)

variable {px} {k k' k'' : K} {fd : Int32} {inode : ℕ} {bytes bytes' : List UInt8}
  {offset offset' : ℕ}

theorem After.refl {f : OpenFile} (h : px.opened k fd = some f) :
    px.After k k fd f.inode (px.contents k f.inode) f.offset where
  contents := (Function.update_eq_self _ _).symm
  opened := by
    rw [← h]
    exact (Function.update_eq_self _ _).symm

theorem After.trans (h : px.After k k' fd inode bytes offset)
    (h' : px.After k' k'' fd inode bytes' offset') : px.After k k'' fd inode bytes' offset' where
  contents := by rw [h'.contents, h.contents, Function.update_idem]
  opened := by rw [h'.opened, h.opened, Function.update_idem]

theorem After.opened_self (h : px.After k k' fd inode bytes offset) :
    px.opened k' fd = some ⟨inode, offset⟩ := by
  rw [h.opened, Function.update_self]

theorem After.contents_self (h : px.After k k' fd inode bytes offset) :
    px.contents k' inode = bytes := by
  rw [h.contents, Function.update_self]

/-- Descriptors keep the file they were opened on. -/
theorem After.inode_eq {f : OpenFile} (hf : px.opened k fd = some f)
    (h : px.After k k' fd f.inode bytes offset) (fd' : Int32) :
    (px.opened k' fd').map OpenFile.inode = (px.opened k fd').map OpenFile.inode := by
  rw [h.opened]
  by_cases hfd : fd' = fd
  · rw [hfd, Function.update_self, hf]
    rfl
  · rw [Function.update_of_ne hfd]

end FileView

/-- **The file calls of a POSIX kernel.**  Nothing is said of the other calls.  That `lseek`
succeeds for every offset below `2 ^ 63` is the rule of POSIX for a file without a largest size; a
file system has one, some terabytes on ext4, and refuses to seek beyond it. -/
structure PosixFiles {K : Type} (call : Kernel K) extends FileView K where
  lseek : ∀ {k fd f} {offset : Int64}, opened k fd = some f → 0 ≤ offset.toInt →
    (call (.lseek fd offset) k).1 = .ok () ∧
      toFileView.After k (call (.lseek fd offset) k).2 fd f.inode (contents k f.inode)
        offset.toInt.toNat
  read_ok : ∀ {k fd f count bs}, opened k fd = some f → (call (.read fd count) k).1 = .ok bs →
    bs.1 = readAt (contents k f.inode) f.offset bs.1.length ∧
      (bs.1 = [] → count = 0 ∨ (contents k f.inode).length ≤ f.offset) ∧
      toFileView.After k (call (.read fd count) k).2 fd f.inode (contents k f.inode)
        (f.offset + bs.1.length)
  read_error : ∀ {k fd f count e}, opened k fd = some f → (call (.read fd count) k).1 = .error e →
    toFileView.After k (call (.read fd count) k).2 fd f.inode (contents k f.inode) f.offset
  write_ok : ∀ {k fd f buf n}, opened k fd = some f → (call (.write fd buf) k).1 = .ok n →
    toFileView.After k (call (.write fd buf) k).2 fd f.inode
      (writeAt (contents k f.inode) f.offset (buf.take n.1)) (f.offset + n.1)
  write_error : ∀ {k fd f buf e}, opened k fd = some f → (call (.write fd buf) k).1 = .error e →
    toFileView.After k (call (.write fd buf) k).2 fd f.inode (contents k f.inode) f.offset
  ftruncate_ok : ∀ {k fd f} {length : Int64}, opened k fd = some f → 0 ≤ length.toInt →
    (call (.ftruncate fd length) k).1 = .ok () →
      toFileView.After k (call (.ftruncate fd length) k).2 fd f.inode
        (setLen (contents k f.inode) length.toInt.toNat) f.offset
  ftruncate_error : ∀ {k fd f} {length : Int64} {e}, opened k fd = some f →
    (call (.ftruncate fd length) k).1 = .error e →
      toFileView.After k (call (.ftruncate fd length) k).2 fd f.inode (contents k f.inode) f.offset

namespace PosixFiles

variable {K : Type} {call : Kernel K} (px : PosixFiles call)

/-- **The loop of a write.**  It writes all of the data, however the kernel cuts it, or fails
having written some of it. -/
theorem writeAll_spec {fd : Int32} {data : List UInt8} {rounds : ℕ} (hr : data.length ≤ rounds)
    {k : K} {f : OpenFile} (hf : px.opened k fd = some f) :
    ((writeAll call fd rounds data k).1 = .ok () ∧
        px.After k (writeAll call fd rounds data k).2 fd f.inode
          (writeAt (px.contents k f.inode) f.offset data) (f.offset + data.length)) ∨
      ∃ e j, (writeAll call fd rounds data k).1 = .error e ∧
        px.After k (writeAll call fd rounds data k).2 fd f.inode
          (writeAt (px.contents k f.inode) f.offset (data.take j))
          (f.offset + (data.take j).length) := by
  induction rounds generalizing data k f with
  | zero =>
    obtain rfl : data = [] := List.length_eq_zero_iff.mp (Nat.le_zero.mp hr)
    refine Or.inl ⟨rfl, ?_⟩
    rw [writeAt_nil, List.length_nil, Nat.add_zero]
    exact FileView.After.refl hf
  | succ rounds ih =>
    rw [writeAll]
    by_cases hdata : data = []
    · rw [if_pos hdata, hdata]
      refine Or.inl ⟨rfl, ?_⟩
      rw [writeAt_nil, List.length_nil, Nat.add_zero]
      exact FileView.After.refl hf
    · rw [if_neg hdata]
      simp only
      rcases hw : (call (.write fd data) k).1 with e | n
      · -- nothing was written by the call that failed
        refine Or.inr ⟨e, 0, rfl, ?_⟩
        rw [List.take_zero, writeAt_nil]
        exact px.write_error hf hw
      · have hstep := px.write_ok hf hw
        have hpos : 0 < n.1 := n.2.2 hdata
        have hlen : (data.take n.1).length = n.1 := by
          rw [List.length_take]
          exact Nat.min_eq_left n.2.1
        have hrest : (data.drop n.1).length ≤ rounds := by
          rw [List.length_drop]
          omega
        have hjoin (bytes : List UInt8) :
            writeAt (px.contents (call (.write fd data) k).2 f.inode) (f.offset + n.1) bytes =
              writeAt (px.contents k f.inode) f.offset (data.take n.1 ++ bytes) := by
          rw [hstep.contents_self, ← writeAt_append, hlen]
        simp only
        rcases ih hrest hstep.opened_self with ⟨hok, hafter⟩ | ⟨e, j, herr, hafter⟩
        · refine Or.inl ⟨hok, ?_⟩
          rw [hjoin, List.take_append_drop, List.length_drop] at hafter
          have hoff : f.offset + n.1 + (data.length - n.1) = f.offset + data.length := by
            have := n.2.1
            omega
          rw [hoff] at hafter
          exact hstep.trans hafter
        · refine Or.inr ⟨e, n.1 + j, herr, ?_⟩
          rw [hjoin] at hafter
          rw [List.take_add, List.length_append, hlen, ← Nat.add_assoc]
          exact hstep.trans hafter

/-- **The loop of a read.**  It returns all that is there, up to the length asked for, however the
kernel cuts it, and changes no file. -/
theorem readAll_spec {fd : Int32} {left rounds : ℕ} (hr : left < rounds) {k : K} {f : OpenFile}
    (hf : px.opened k fd = some f) :
    (∃ offset, px.After k (readAll call fd rounds left k).2 fd f.inode (px.contents k f.inode)
        offset) ∧
      ∀ bs, (readAll call fd rounds left k).1 = .ok bs →
        bs = readAt (px.contents k f.inode) f.offset left := by
  induction rounds generalizing left k f with
  | zero => omega
  | succ rounds ih =>
    rw [readAll]
    by_cases hleft : left = 0
    · rw [if_pos hleft]
      refine ⟨⟨_, FileView.After.refl hf⟩, fun bs hbs => ?_⟩
      rw [← Except.ok.inj hbs, hleft]
      rfl
    · rw [if_neg hleft]
      simp only
      rcases hread : (call (.read fd left) k).1 with e | chunk
      · refine ⟨⟨_, px.read_error hf hread⟩, ?_⟩
        intro bs hbs
        cases hbs
      · obtain ⟨hchunk, heof, hstep⟩ := px.read_ok hf hread
        simp only
        by_cases hempty : chunk.1.length = 0
        · -- the end of the file
          rw [if_pos hempty]
          refine ⟨⟨_, hstep⟩, fun bs hbs => ?_⟩
          have hend := (heof (List.length_eq_zero_iff.mp hempty)).resolve_left hleft
          rw [← Except.ok.inj hbs, readAt_of_length_le _ _ hend]
        · rw [if_neg hempty]
          have hlt : left - chunk.1.length < rounds := by omega
          obtain ⟨⟨offset, hafter⟩, hrest⟩ := ih hlt hstep.opened_self
          rw [hstep.contents_self] at hafter hrest
          refine ⟨⟨offset, hstep.trans hafter⟩, fun bs hbs => ?_⟩
          rcases hmore : (readAll call fd rounds (left - chunk.1.length)
            (call (.read fd left) k).2).1 with e | more
          · rw [hmore] at hbs
            cases hbs
          · rw [hmore] at hbs
            have hbs' : chunk.1 ++ more = bs := Except.ok.inj hbs
            have hsplit := readAt_add (px.contents k f.inode) f.offset chunk.1.length
              (left - chunk.1.length)
            rw [Nat.add_sub_cancel' chunk.2, ← hchunk] at hsplit
            rw [← hbs', hrest more hmore, hsplit]

end PosixFiles

end NandroidFS
