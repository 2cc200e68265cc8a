import NandroidFS.Dokan.OnDevice
import NandroidFS.Files.Refinement

/-!
# The allocation size of a file

To Windows, the allocation size of a file is the space set aside for it.  It may be larger than the
file and says nothing of its length; a file that is longer is cut.  `set_allocation_size` hands the
number on to `set_end_of_file`, which makes it the length.

`Means` is what Windows expects of the three callbacks that change a file.  `run_means_iff`: in a
run of them, every one does what is expected exactly if no allocation that the device grants is
larger than the file.
-/

namespace NandroidFS

open ByteFile

/-- The callbacks that change an open file. -/
inductive SizeOp where
  | writeFile (data : Payload) (offset : UInt64)
  | setEndOfFile (byteOffset : UInt64)
  | setAllocationSize (byteOffset : UInt64)
  deriving DecidableEq

namespace SizeOp

def program (info : FileInfo) : SizeOp → OpM NtStatus
  | .writeFile data offset => do return (← Operations.writeFile data offset info).1
  | .setEndOfFile byteOffset => Operations.setEndOfFile byteOffset info
  | .setAllocationSize byteOffset => Operations.setAllocationSize byteOffset info

/-- The request that the callback makes. -/
def request : SizeOp → FileOp
  | .writeFile data offset => .write offset data
  | .setEndOfFile byteOffset => .setLen byteOffset
  | .setAllocationSize byteOffset => .setLen byteOffset

/-- The numbers of Windows are not negative, and a write is short enough for the connection. -/
def InRange : SizeOp → Prop
  | .writeFile data offset => data.1.length < 2 ^ 31 ∧ offset.toNat < 2 ^ 63
  | .setEndOfFile byteOffset => byteOffset.toNat < 2 ^ 63
  | .setAllocationSize byteOffset => byteOffset.toNat < 2 ^ 63

theorem InRange.positioned {op : SizeOp} (h : op.InRange) : op.request.Positioned := by
  cases op with
  | writeFile data offset => exact h.2
  | setEndOfFile byteOffset => exact h
  | setAllocationSize byteOffset => exact h

/-- **What Windows expects** of a callback that returns a given status on given bytes. -/
inductive Means : SizeOp → List UInt8 → NtStatus → List UInt8 → Prop
  | written (data : Payload) (offset : UInt64) (f : List UInt8) :
      Means (.writeFile data offset) f .success (writeAt f offset.toNat data.1)
  | notWritten (data : Payload) (offset : UInt64) (f : List UInt8) {status : NtStatus}
      (hs : status ≠ .success) (taken : ℕ) :
      Means (.writeFile data offset) f status (writeAt f offset.toNat (data.1.take taken))
  | ended (byteOffset : UInt64) (f : List UInt8) :
      Means (.setEndOfFile byteOffset) f .success (setLen f byteOffset.toNat)
  | notEnded (byteOffset : UInt64) (f : List UInt8) {status : NtStatus} (hs : status ≠ .success) :
      Means (.setEndOfFile byteOffset) f status f
  /-- The file is cut, and never made longer. -/
  | allocated (byteOffset : UInt64) (f : List UInt8) :
      Means (.setAllocationSize byteOffset) f .success (f.take byteOffset.toNat)
  | notAllocated (byteOffset : UInt64) (f : List UInt8) {status : NtStatus}
      (hs : status ≠ .success) : Means (.setAllocationSize byteOffset) f status f

section OneCallback

variable {K : Type} (call : Kernel K) {info : FileInfo}

theorem ntstatusFromRespstatus_eq_success {s : ResponseStatus} :
    ntstatusFromRespstatus s = .success ↔ s = .success := by
  cases s <;> simp [ntstatusFromRespstatus]

/-- A callback on a file that is open for writing is its request. -/
theorem onDevice_program (hw : info.context.writeAccess = true)
    (hh : info.context.handle ≠ NO_HANDLE) (op : SizeOp) (k : K) :
    Operations.onDevice call (op.program info) k =
      (ntstatusFromRespstatus
          (serve call (op.request.call info.context.handle).request k).1.reply.code,
        (serve call (op.request.call info.context.handle).request k).2) := by
  cases op with
  | writeFile data offset =>
    have hguard : (!info.context.writeAccess || info.context.handle == NO_HANDLE) = false := by
      simp [hw, hh]
    have hprog : (SizeOp.writeFile data offset).program info =
        Operations.request (.writeToFile info.context.handle offset data) >>= fun reply =>
          if reply.code = .success then return .success
          else return ntstatusFromRespstatus reply.code := by
      simp only [program, Operations.writeFile, hguard]
      show (Operations.request _ >>= fun _ => _) = _
      refine congrArg _ (funext fun reply => ?_)
      by_cases hok : reply.code = .success <;> simp [hok, Prog.bind]
    rw [hprog, Operations.onDevice_request_bind, Call.answer_of_asked rfl]
    simp only [request, FileOp.call]
    split
    · next hok =>
      rw [hok]
      rfl
    · rfl
  | setEndOfFile byteOffset =>
    simp only [program, Operations.setEndOfFile, if_pos hw]
    rfl
  | setAllocationSize byteOffset =>
    simp only [program, Operations.setAllocationSize, Operations.setEndOfFile, if_pos hw]
    rfl

end OneCallback

/-- The context has a handle on the file `inode`, with leave to write. -/
structure Writable {K : Type} {call : Kernel K} (px : PosixFiles call) (info : FileInfo)
    (inode : ℕ) (k : K) : Prop where
  writeAccess : info.context.writeAccess = true
  handle : info.context.handle ≠ NO_HANDLE
  opened : ∃ offset, px.opened k info.context.handle.toInt32 = some ⟨inode, offset⟩

section Callbacks

variable {K : Type} {call : Kernel K} (px : PosixFiles call) {info : FileInfo} {inode : ℕ} {k : K}

/-- The device carries out the truncation that the callback asks for. -/
def Granted (call : Kernel K) (info : FileInfo) (byteOffset : UInt64) (k : K) : Prop :=
  (call (.ftruncate info.context.handle.toInt32 byteOffset.toInt64) k).1 = .ok ()

/-- **One callback** does what its request does, and the file stays open. -/
theorem onDevice_effect (hopen : Writable px info inode k) {op : SizeOp}
    (hop : op.InRange) :
    Writable px info inode (Operations.onDevice call (op.program info) k).2 ∧
      ∃ reply, (Operations.onDevice call (op.program info) k).1 =
          ntstatusFromRespstatus reply.code ∧
        reply = (serve call (op.request.call info.context.handle).request k).1.reply ∧
        op.request.Effect (px.contents k inode) reply
          (px.contents (Operations.onDevice call (op.program info) k).2 inode) := by
  obtain ⟨offset, hf⟩ := hopen.opened
  obtain ⟨bytes, offset', heffect, hafter⟩ := serve_effect_of_positioned px hf hop.positioned
  rw [onDevice_program call hopen.writeAccess hopen.handle]
  refine ⟨⟨hopen.writeAccess, hopen.handle, offset', hafter.opened_self⟩, _, rfl, rfl, ?_⟩
  simp only
  rw [hafter.contents_self]
  exact heffect

theorem setLen_eq_take_iff (f : List UInt8) (n : ℕ) : setLen f n = f.take n ↔ n ≤ f.length := by
  rw [setLen, List.append_right_eq_self, List.replicate_eq_nil_iff]
  omega

/-- A truncation succeeds if it is granted. -/
theorem granted_iff (byteOffset : UInt64) :
    (serve call (.truncateHandle ⟨info.context.handle, byteOffset⟩) k).1.reply.code = .success ↔
      Granted call info byteOffset k := by
  simp only [serve, report, Response.reply, Reply.code, Granted]
  rcases (call (.ftruncate info.context.handle.toInt32 byteOffset.toInt64) k).1 with e | ⟨⟩
  · simp [statusOf, getStatusFromErrno_ne_success]
  · simp [statusOf]

/-- What the callback does to the file. -/
def Does (px : PosixFiles call) (info : FileInfo) (inode : ℕ) (op : SizeOp) (k : K) : Prop :=
  op.Means (px.contents k inode) (Operations.onDevice call (op.program info) k).1
    (px.contents (Operations.onDevice call (op.program info) k).2 inode)

/-- The two callbacks that are not about allocation do what is expected of them. -/
theorem does_of_not_allocation (hopen : Writable px info inode k) {op : SizeOp}
    (hop : op.InRange) (hne : ∀ n, op ≠ .setAllocationSize n) :
    Does px info inode op k := by
  obtain ⟨-, reply, hstatus, -, heffect⟩ := onDevice_effect px hopen hop
  rw [Does, hstatus]
  generalize px.contents (Operations.onDevice call (op.program info) k).2 inode = f' at heffect ⊢
  generalize px.contents k inode = f at heffect ⊢
  cases op with
  | writeFile data offset =>
    cases heffect with
    | written => exact .written data offset f
    | notWritten _ _ _ status hs taken =>
      exact .notWritten data offset f (mt ntstatusFromRespstatus_eq_success.mp hs) taken
  | setEndOfFile byteOffset =>
    cases heffect with
    | resized => exact .ended byteOffset f
    | notResized _ _ status hs =>
      exact .notEnded byteOffset _ (mt ntstatusFromRespstatus_eq_success.mp hs)
  | setAllocationSize byteOffset => exact (hne byteOffset rfl).elim

/-- **An allocation does what is expected** if it is refused or not larger than the file. -/
theorem does_allocation_iff (hopen : Writable px info inode k) {byteOffset : UInt64}
    (hop : (SizeOp.setAllocationSize byteOffset).InRange) :
    Does px info inode (.setAllocationSize byteOffset) k ↔
      (Granted call info byteOffset k → byteOffset.toNat ≤ (px.contents k inode).length) := by
  obtain ⟨-, reply, hstatus, hreply, heffect⟩ := onDevice_effect px hopen hop
  have hgranted : reply.code = .success ↔ Granted call info byteOffset k := by
    rw [hreply]
    exact granted_iff byteOffset
  rw [Does, hstatus, ← hgranted]
  generalize px.contents (Operations.onDevice call
    ((SizeOp.setAllocationSize byteOffset).program info) k).2 inode = f' at heffect ⊢
  generalize px.contents k inode = f at heffect ⊢
  clear hreply hgranted hstatus
  cases heffect with
  | resized =>
    rw [← setLen_eq_take_iff]
    constructor
    · intro hmeans _
      generalize setLen f byteOffset.toNat = f' at hmeans ⊢
      cases hmeans with
      | allocated => rfl
      | notAllocated _ _ hs => exact (hs rfl).elim
    · intro heq
      rw [heq rfl]
      exact .allocated byteOffset f
  | notResized _ _ status hs =>
    refine iff_of_true (.notAllocated byteOffset _ (mt ntstatusFromRespstatus_eq_success.mp hs)) ?_
    intro h
    exact (hs h).elim

/-! ## Runs -/

/-- The state after these callbacks. -/
def after (call : Kernel K) (info : FileInfo) (ops : List SizeOp) (k : K) : K :=
  ops.foldl (fun k op => (Operations.onDevice call (op.program info) k).2) k

theorem after_append (ops : List SizeOp) (op : SizeOp) :
    after call info (ops ++ [op]) k =
      (Operations.onDevice call (op.program info) (after call info ops k)).2 := by
  simp [after]

/-- The file stays open through a run. -/
theorem writable_after (hopen : Writable px info inode k) {ops : List SizeOp}
    (hrange : ∀ op ∈ ops, op.InRange) : Writable px info inode (after call info ops k) := by
  induction ops using List.reverseRecOn with
  | nil => exact hopen
  | append_singleton ops op ih =>
    rw [List.forall_mem_append] at hrange
    rw [after_append]
    exact (onDevice_effect px (ih hrange.1) (hrange.2 op List.mem_cons_self)).1

/-- **A run does what is expected** of its callbacks exactly if no allocation that the device grants
is larger than the file is at that moment. -/
theorem run_means_iff (hopen : Writable px info inode k) {ops : List SizeOp}
    (hrange : ∀ op ∈ ops, op.InRange) :
    (∀ before op, before ++ [op] <+: ops →
      op.Means (px.contents (after call info before k) inode)
        (Operations.onDevice call (op.program info) (after call info before k)).1
        (px.contents (after call info (before ++ [op]) k) inode)) ↔
    ∀ before n, before ++ [.setAllocationSize n] <+: ops →
      Granted call info n (after call info before k) →
        n.toNat ≤ (px.contents (after call info before k) inode).length := by
  have hat {before : List SizeOp} {op : SizeOp} (h : before ++ [op] <+: ops) :
      Writable px info inode (after call info before k) ∧ op.InRange := by
    refine ⟨writable_after px hopen fun op' hop' => ?_, ?_⟩
    · exact hrange op' (h.subset (List.mem_append_left _ hop'))
    · exact hrange op (h.subset (List.mem_append_right _ List.mem_cons_self))
  constructor
  · intro hmeans before n hp
    have hdoes := hmeans before _ hp
    rw [after_append] at hdoes
    obtain ⟨hwritable, hop⟩ := hat hp
    exact (does_allocation_iff px hwritable hop).mp hdoes
  · intro hsmall before op hp
    obtain ⟨hwritable, hop⟩ := hat hp
    rw [after_append]
    cases op with
    | setAllocationSize n => exact (does_allocation_iff px hwritable hop).mpr (hsmall before n hp)
    | writeFile data offset =>
      exact does_of_not_allocation px hwritable hop fun n h => by cases h
    | setEndOfFile n => exact does_of_not_allocation px hwritable hop fun n h => by cases h

end Callbacks

/-! ## A file of three bytes -/

/-- A context for the descriptor `3`. -/
def threeBytesInfo : FileInfo := ⟨false, false, ⟨3, true, true⟩⟩

theorem writable_threeBytes : Writable Disk.posix threeBytesInfo 0 Disk.setup.kernel₀ :=
  ⟨rfl, by decide, 0, rfl⟩

/-- A byte is written after them, and then the file is cut to two. -/
def writeAndCut : List SizeOp := [.writeFile ⟨[9], by decide⟩ 3, .setAllocationSize 2]

/-- Both callbacks do what is expected. -/
theorem run_means_write_and_cut :
    (∀ op ∈ writeAndCut, op.InRange) ∧ ∀ before op, before ++ [op] <+: writeAndCut →
      op.Means ((after Disk.kernel threeBytesInfo before Disk.setup.kernel₀).contents 0)
        (Operations.onDevice Disk.kernel (op.program threeBytesInfo)
          (after Disk.kernel threeBytesInfo before Disk.setup.kernel₀)).1
        ((after Disk.kernel threeBytesInfo (before ++ [op]) Disk.setup.kernel₀).contents 0) := by
  have hrange : ∀ op ∈ writeAndCut, op.InRange := by
    intro op hop
    rcases List.mem_cons.mp hop with rfl | hop
    · exact ⟨by decide, by decide⟩
    · rcases List.mem_singleton.mp hop with rfl
      exact (by decide : (2 : UInt64).toNat < 2 ^ 63)
  refine ⟨hrange, ?_⟩
  refine (run_means_iff Disk.posix writable_threeBytes hrange).mpr fun before n hp _ => ?_
  rcases before with - | ⟨first, - | ⟨second, before⟩⟩
  · simp [writeAndCut] at hp
  · obtain ⟨rfl, rfl⟩ : first = .writeFile ⟨[9], by decide⟩ 3 ∧ n = 2 := by
      simpa [writeAndCut] using hp
    decide
  · simp [writeAndCut] at hp

/-- Five bytes are set aside for the file, and it has grown. -/
theorem not_means_reservation :
    ¬ SizeOp.Means (.setAllocationSize 5) [1, 2, 3]
      (Operations.onDevice Disk.kernel ((SizeOp.setAllocationSize 5).program threeBytesInfo)
        Disk.setup.kernel₀).1
      ((after Disk.kernel threeBytesInfo [.setAllocationSize 5]
        Disk.setup.kernel₀).contents 0) := by
  have hbytes : (after Disk.kernel threeBytesInfo [.setAllocationSize 5]
      Disk.setup.kernel₀).contents 0 = [1, 2, 3, 0, 0] := rfl
  rw [hbytes]
  intro h
  cases h

end SizeOp

end NandroidFS
