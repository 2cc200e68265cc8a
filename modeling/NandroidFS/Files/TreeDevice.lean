import NandroidFS.Daemon.Syscall
import NandroidFS.Files.TreeCalls

/-!
# A device with a tree

The calls on a tree, as a kernel that can be run: what is assumed of a kernel elsewhere holds of
this one, so the assumptions are consistent, and the handlers can be tried out on trees.

A new node gets the next number that was not used.  The calls on open files are not among those that
it knows, and fail.
-/

namespace NandroidFS

namespace Tree

variable (t : Tree) (path : List UInt8)

instance : Decidable (t.CanAccess path) :=
  decidable_of_iff
    ((match t.resolve true path with
      | some (.node i) => t.allows i fun rights => rights.read && rights.write && rights.exec
      | _ => false) = true) <| by
    rw [CanAccess]
    rcases t.resolve true path with _ | i | ⟨d, name⟩ <;> simp

instance : Decidable (t.CanUnlink path) :=
  decidable_of_iff (ProperName (lastName path) ∧
    (match t.holder path with
      | none => false
      | some d => t.allows d Rights.write &&
          match t.lookup d (lastName path) with
          | some (.node i) => (t.entries? i).isNone
          | _ => false) = true) <| by
    refine and_congr_right fun _ => ?_
    rcases hd : t.holder path with _ | d
    · simp
    · rcases hl : t.lookup d (lastName path) with _ | i | ⟨d', name⟩ <;> simp [hl]

instance : Decidable (t.CanRmdir path) :=
  decidable_of_iff (ProperName (lastName (trimSlashes path)) ∧
    (match t.holder (trimSlashes path) with
      | none => false
      | some d => t.allows d Rights.write &&
          match t.lookup d (lastName (trimSlashes path)) with
          | some (.node i) => (t.entries? i).any fun entries => Vacant entries
          | _ => false) = true) <| by
    refine and_congr_right fun _ => ?_
    rcases hd : t.holder (trimSlashes path) with _ | d
    · simp
    · rcases hl : t.lookup d (lastName (trimSlashes path)) with _ | i | ⟨d', name⟩
      · simp [hl]
      · rcases he : t.entries? i with _ | entries <;> simp [hl, he]
      · simp [hl]

/-- The tree without an entry.  Its node stays, out of reach. -/
def removeEntry (path : List UInt8) : Tree :=
  match t.holder path with
  | none => t
  | some d =>
      { t with nodes := fun j =>
          if j = d then
            match t.nodes d with
            | some (.dir parent rights entries) =>
                some (.dir parent rights (entries.filter (·.1 ≠ lastName path)))
            | other => other
          else t.nodes j }

end Tree

/-- A tree, the number of the next node, and how many descriptors have been handed out. -/
structure TreeDevice where
  tree : Tree
  next : ℕ
  descriptors : ℕ

namespace TreeDevice

variable (s : TreeDevice)

/-- The rights of a new node. -/
def newRights : Rights := ⟨true, true, true⟩

def entryName? (name : Name) : Option EntryName :=
  if h : name.length ≤ 255 ∧ 0 ∉ name then some ⟨name, h⟩ else none

def stat (path : ByteString) : Except Errno PosixStat :=
  match s.tree.resolve true path with
  | some (.node i) =>
      match s.tree.nodes i with
      | some (.dir _ _ _) => .ok ⟨0x41FF, 0, 0, 0⟩
      | some (.file _ bytes) => .ok ⟨0x81FF, Int64.ofNat bytes.length, 0, 0⟩
      | _ => .error .enoent
  | _ => .error .enoent

def opendir (path : ByteString) : Except Errno (List EntryName) :=
  match s.tree.resolve true path with
  | some (.node i) =>
      match s.tree.entries? i with
      | some entries =>
          if s.tree.allows i Rights.read then
            match (entries.filter fun e => ProperName e.1).mapM fun e => entryName? e.1 with
            | some names => .ok (⟨dot, by decide⟩ :: ⟨dotdot, by decide⟩ :: names)
            | none => .error (.other 5)
          else .error .eacces
      | none => .error .enotdir
  | _ => .error .enoent

def remove (allowed : Bool) (path : ByteString) : Except Errno Unit × TreeDevice :=
  if allowed then (.ok (), { s with tree := s.tree.removeEntry path }) else (.error .enotdir, s)

/-- A new node in the directory `d`, if there is a number for it. -/
def create (d : ℕ) (name : Name) (node : Node) : Option TreeDevice :=
  if s.tree.allows d Rights.write ∧ s.tree.nodes s.next = none then
    some { s with tree := s.tree.addEntry d name s.next node, next := s.next + 1 }
  else none

def mkdir (path : ByteString) : Except Errno Unit × TreeDevice :=
  match s.tree.resolve false (trimSlashes path) with
  | some (.missing d name) =>
      match s.create d name (.dir d newRights []) with
      | some s' => (.ok (), s')
      | none => (.error .eacces, s)
  | some (.node _) => (.error .eexist, s)
  | none => (.error .enoent, s)

/-- The state after `open`, if it succeeds. -/
def opens (path : ByteString) (how : Tree.OpenHow) : Except Errno TreeDevice :=
  match s.tree.resolve (!(how.creat && how.excl)) path with
  | none => .error .enoent
  | some (.missing d name) =>
      if how.creat then
        match s.create d name (.file newRights []) with
        | some s' => .ok s'
        | none => .error .eacces
      else .error .enoent
  | some (.node i) =>
      if how.creat && how.excl then .error .eexist
      else
        match s.tree.nodes i with
        | some (.file rights _) =>
            if how.permits rights then
              .ok { s with tree := if how.trunc then s.tree.setContents i [] else s.tree }
            else .error .eacces
        | some (.dir _ rights _) =>
            if !how.creat && !how.trunc && !how.write && rights.read then .ok s
            else .error .eisdir
        | _ => .error .enoent

def fd? (n : ℕ) : Option Fd :=
  if h : 0 ≤ Int32.ofNat n then some ⟨Int32.ofNat n, h⟩ else none

def openFile (path : ByteString) (how : Tree.OpenHow) : Except Errno Fd × TreeDevice :=
  match fd? (s.descriptors + 3), s.opens path how with
  | some fd, .ok s' => (.ok fd, { s' with descriptors := s'.descriptors + 1 })
  | none, _ => (.error (.other 24), s)
  | _, .error e => (.error e, s)

end TreeDevice

/-- The flags of `open`, in the terms of the tree. -/
def OpenFlags.how (flags : OpenFlags) : Tree.OpenHow where
  read := flags.access = .rdonly || flags.access = .rdwr
  write := flags.access = .wronly || flags.access = .rdwr
  creat := flags.creat
  excl := flags.excl
  trunc := flags.trunc

/-- The kernel of the device. -/
def TreeDevice.kernel : Kernel TreeDevice := fun e s =>
  match e with
  | .stat path => (s.stat path, s)
  | .opendir path => (s.opendir path, s)
  | .access path => (if s.tree.CanAccess path then .ok () else .error .eacces, s)
  | .unlink path => s.remove (s.tree.CanUnlink path) path
  | .rmdir path => s.remove (s.tree.CanRmdir path) (trimSlashes path)
  | .mkdir path _ => s.mkdir path
  | .openFile path flags _ => s.openFile path flags.how
  | .rename _ _ => (.error (.other 5), s)
  | .close _ => (.error (.other 5), s)
  | .lseek _ _ => (.error (.other 5), s)
  | .read _ _ => (.error (.other 5), s)
  | .write _ _ => (.error (.other 5), s)
  | .ftruncate _ _ => (.error (.other 5), s)
  | .utimensat _ _ _ => (.error (.other 5), s)
  | .statvfs _ => (.error (.other 5), s)

/-- A device whose root has a directory `a`, and in it an empty directory `e` and a link `l` that
leads to `e`.  Everything is allowed. -/
def TreeDevice.linked : TreeDevice where
  tree :=
    { nodes := fun
        | 0 => some (.dir 0 newRights [([97], 1)])
        | 1 => some (.dir 0 newRights [([101], 2), ([108], 3)])
        | 2 => some (.dir 1 newRights [])
        | 3 => some (.link [101])
        | _ => none
      root := 0
      cwd := 0 }
  next := 4
  descriptors := 0

end NandroidFS
