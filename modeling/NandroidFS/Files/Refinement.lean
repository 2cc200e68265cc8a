import Mathlib.Data.List.Forall2
import Mathlib.Data.List.Induction
import NandroidFS.Protocol.Session
import NandroidFS.Files.Posix

/-!
# Files through the connection

Reading, writing and truncating through handles, as the client sees it, against the reference in
which a file is an array of bytes.  `FileOp.Effect` is the reference: a request that succeeds does
what its name says, to the byte; a request that fails reads and cuts nothing, and writes some
initial part of its data.

`serve_effect` is one request on the daemon, from any position of any descriptor.  `refines` is a
whole session: any threads, any interleaving, any number of handles on the same or on different
files, through both pairs of buffers and the sockets between them.
-/

namespace NandroidFS

open ByteFile

/-- The requests on an open file. -/
inductive FileOp where
  | write (offset : UInt64) (data : Payload)
  | read (offset : UInt64) (length : UInt32)
  | setLen (length : UInt64)
  deriving DecidableEq

namespace FileOp

/-- The client's method for a request. -/
def call (handle : FileHandle) : FileOp → Call
  | .write offset data => .writeToFile handle offset data
  | .read offset length => .readFromFile handle offset length
  | .setLen length => .setFileLen handle length

/-- Lengths are below `2 ^ 31`, positions below `2 ^ 63`. -/
def InRange : FileOp → Prop
  | .write offset data => data.1.length < 2 ^ 31 ∧ offset.toNat + data.1.length < 2 ^ 63
  | .read offset length => length.toNat < 2 ^ 31 ∧ offset.toNat + length.toNat < 2 ^ 63
  | .setLen length => length.toNat < 2 ^ 63

/-- Positions and lengths of files are numbers that are not negative as an `off_t`. -/
def Positioned : FileOp → Prop
  | .write offset _ => offset.toNat < 2 ^ 63
  | .read offset _ => offset.toNat < 2 ^ 63
  | .setLen length => length.toNat < 2 ^ 63

theorem InRange.positioned {op : FileOp} (h : op.InRange) : op.Positioned := by
  cases op with
  | write offset data => exact Nat.lt_of_le_of_lt (Nat.le_add_right _ _) h.2
  | read offset length => exact Nat.lt_of_le_of_lt (Nat.le_add_right _ _) h.2
  | setLen length => exact h

/-- **The reference**: what a request may answer on a file with given bytes, and the bytes it
leaves. -/
inductive Effect : FileOp → List UInt8 → Reply → List UInt8 → Prop
  | written (offset : UInt64) (data : Payload) (f : List UInt8) :
      Effect (.write offset data) f (.status .success) (writeAt f offset.toNat data.1)
  | notWritten (offset : UInt64) (data : Payload) (f : List UInt8) (status : ResponseStatus)
      (hs : status ≠ .success) (taken : ℕ) :
      Effect (.write offset data) f (.status status) (writeAt f offset.toNat (data.1.take taken))
  | read (offset : UInt64) (length : UInt32) (f : List UInt8) :
      Effect (.read offset length) f (.data (readAt f offset.toNat length.toNat)) f
  | notRead (offset : UInt64) (length : UInt32) (f : List UInt8) (status : ResponseStatus)
      (hs : status ≠ .success) : Effect (.read offset length) f (.status status) f
  | resized (length : UInt64) (f : List UInt8) :
      Effect (.setLen length) f (.status .success) (ByteFile.setLen f length.toNat)
  | notResized (length : UInt64) (f : List UInt8) (status : ResponseStatus)
      (hs : status ≠ .success) : Effect (.setLen length) f (.status status) f

/-- A run of requests on the reference.  `inode` says which file a handle is open on. -/
inductive Run (inode : FileHandle → Option ℕ) (files : ℕ → List UInt8) :
    List (FileHandle × FileOp × Reply) → (ℕ → List UInt8) → Prop
  | nil : Run inode files [] files
  | snoc {ops : List (FileHandle × FileOp × Reply)} {files' : ℕ → List UInt8}
      {handle : FileHandle} {i : ℕ} {op : FileOp} {reply : Reply} {bytes : List UInt8}
      (hops : Run inode files ops files') (hi : inode handle = some i)
      (hop : op.Effect (files' i) reply bytes) :
      Run inode files (ops ++ [(handle, op, reply)]) (Function.update files' i bytes)

end FileOp

section Serve

variable {K : Type} {call : Kernel K} (px : PosixFiles call)

theorem toInt_toInt64_of_lt {v : UInt64} (hv : v.toNat < 2 ^ 63) : v.toInt64.toInt = v.toNat := by
  show BitVec.toInt v.toBitVec = _
  refine BitVec.toInt_eq_toNat_of_lt ?_
  show 2 * v.toNat < 2 ^ 64
  omega

/-- A seek to a position that is a positive `off_t` succeeds. -/
theorem PosixFiles.seek {k : K} {fd : Int32} {f : OpenFile} (hf : px.opened k fd = some f)
    {offset : UInt64} (hoff : offset.toNat < 2 ^ 63) :
    (call (.lseek fd offset.toInt64) k).1 = .ok () ∧
      px.After k (call (.lseek fd offset.toInt64) k).2 fd f.inode (px.contents k f.inode)
        offset.toNat := by
  have hint := toInt_toInt64_of_lt hoff
  have hseek := px.lseek hf (show 0 ≤ offset.toInt64.toInt by omega)
  rwa [hint, Int.toNat_natCast] at hseek

/-- **One request on an open file does what the reference says**, whatever the position of the
descriptor and however the kernel cuts the data. -/
theorem serve_effect_of_positioned {k : K} {handle : FileHandle} {f : OpenFile}
    (hf : px.opened k handle.toInt32 = some f) {op : FileOp} (hop : op.Positioned) :
    ∃ bytes offset, op.Effect (px.contents k f.inode)
        (serve call (op.call handle).request k).1.reply bytes ∧
      px.After k (serve call (op.call handle).request k).2 handle.toInt32 f.inode bytes offset := by
  cases op with
  | write offset data =>
    obtain ⟨hseek, hsought⟩ := px.seek hf hop
    simp only [FileOp.call, Call.request, serve, hseek]
    have hloop := px.writeAll_spec (le_refl data.1.length) hsought.opened_self
    rw [hsought.contents_self] at hloop
    rcases hloop with ⟨hok, hafter⟩ | ⟨e, taken, herr, hafter⟩
    · refine ⟨_, _, ?_, hsought.trans hafter⟩
      rw [report, hok]
      exact .written offset data _
    · refine ⟨_, _, ?_, hsought.trans hafter⟩
      rw [report, herr]
      exact .notWritten offset data _ _ (getStatusFromErrno_ne_success e) taken
  | read offset length =>
    obtain ⟨hseek, hsought⟩ := px.seek hf hop
    simp only [FileOp.call, Call.request, serve, hseek]
    obtain ⟨⟨position, hafter⟩, hbytes⟩ :=
      px.readAll_spec (Nat.lt_succ_self length.toNat) hsought.opened_self
    rw [hsought.contents_self] at hafter hbytes
    refine ⟨_, position, ?_, hsought.trans hafter⟩
    rcases hread : (readAll call handle.toInt32 (length.toNat + 1) length.toNat
      (call (.lseek handle.toInt32 offset.toInt64) k).2).1 with e | bs
    · exact .notRead offset length _ _ (getStatusFromErrno_ne_success e)
    · rw [hbytes bs hread]
      exact .read offset length _
  | setLen length =>
    have hint := toInt_toInt64_of_lt hop
    simp only [FileOp.call, Call.request, serve, report]
    rcases htrunc : (call (.ftruncate handle.toInt32 length.toInt64) k).1 with e | ⟨⟩
    · refine ⟨_, _, ?_, px.ftruncate_error hf htrunc⟩
      exact .notResized length _ _ (getStatusFromErrno_ne_success e)
    · have hafter := px.ftruncate_ok hf (show 0 ≤ length.toInt64.toInt by omega) htrunc
      rw [hint, Int.toNat_natCast] at hafter
      exact ⟨_, _, .resized length _, hafter⟩

theorem serve_effect {k : K} {handle : FileHandle} {f : OpenFile}
    (hf : px.opened k handle.toInt32 = some f) {op : FileOp} (hop : op.InRange) :
    ∃ bytes offset, op.Effect (px.contents k f.inode)
        (serve call (op.call handle).request k).1.reply bytes ∧
      px.After k (serve call (op.call handle).request k).2 handle.toInt32 f.inode bytes offset :=
  serve_effect_of_positioned px hf hop.positioned

end Serve

/-! ## A session of file requests -/

namespace Session

variable {K W : Type} {P : Setup K W} (px : PosixFiles P.call)

/-- A request in range on a handle that is open. -/
def OnOpenFile (P : Setup K W) (px : PosixFiles P.call) (history : List (Completed W)) (c : Call)
    (_w : W) (_rounds : ℕ) : Prop :=
  ∃ (handle : FileHandle) (op : FileOp), c = op.call handle ∧ op.InRange ∧
    (px.opened (kernelAfter P history) handle.toInt32).isSome

/-- The entry of the history is that request with that reply. -/
def Records (e : Completed W) (x : FileHandle × FileOp × Reply) : Prop :=
  e.call = x.2.1.call x.1 ∧ e.result = .ok x.2.2

/-- Which file a handle is open on. -/
def inodeOf (P : Setup K W) (px : PosixFiles P.call) (handle : FileHandle) : Option ℕ :=
  (px.opened P.kernel₀ handle.toInt32).map OpenFile.inode

theorem not_quiet_fileOp (handle : FileHandle) (op : FileOp) (w : W) :
    ¬(op.call handle).Quiet P.world w := by
  cases op <;> exact id

theorem OnOpenFile.admissible {history : List (Completed W)} {c : Call} {w : W} {rounds : ℕ}
    (h : OnOpenFile P px history c w rounds) : Admissible P history c w rounds := by
  obtain ⟨handle, op, rfl, hop, hopen⟩ := h
  obtain ⟨f, hf⟩ := Option.isSome_iff_exists.mp hopen
  right
  have hleg : (serve P.call (op.call handle).request (kernelAfter P history)).1.Legible rounds := by
    refine Response.legible_of_answers (fun path heq => ?_) (serve_answers _ _ _) _
    cases op <;> cases heq
  cases op with
  | write offset data =>
    obtain ⟨hlen, hend⟩ := hop
    have hoff : offset.toNat < 2 ^ 63 := by omega
    exact ⟨fun s hs => (List.not_mem_nil hs).elim, hlen, Or.inl (px.seek hf hoff).1, hleg⟩
  | read offset length => exact ⟨fun s hs => (List.not_mem_nil hs).elim, hop.1, trivial, hleg⟩
  | setLen length => exact ⟨fun s hs => (List.not_mem_nil hs).elim, trivial, trivial, hleg⟩

/-- **The files after a history are those of the reference.** -/
theorem exists_run {history : List (Completed W)}
    (hmade : ∀ before e after, history = before ++ e :: after →
      ∃ rounds, OnOpenFile P px before e.call e.start rounds)
    (hfaith : Faithful P history) :
    ∃ ops, List.Forall₂ Records history ops ∧
      FileOp.Run (inodeOf P px) (px.contents P.kernel₀) ops
        (px.contents (kernelAfter P history)) ∧
      ∀ fd, (px.opened (kernelAfter P history) fd).map OpenFile.inode =
        (px.opened P.kernel₀ fd).map OpenFile.inode := by
  induction history using List.reverseRecOn with
  | nil => exact ⟨[], .nil, .nil, fun fd => rfl⟩
  | append_singleton history e ih =>
    have hmade' : ∀ before e' after, history = before ++ e' :: after →
        ∃ rounds, OnOpenFile P px before e'.call e'.start rounds := by
      intro before e' after heq
      refine hmade before e' (after ++ [e]) ?_
      rw [heq, List.append_assoc, List.cons_append]
    have hfaith' : Faithful P history := by
      intro before e' after heq
      refine hfaith before e' (after ++ [e]) ?_
      rw [heq, List.append_assoc, List.cons_append]
    obtain ⟨ops, hrec, hrun, hinode⟩ := ih hmade' hfaith'
    obtain ⟨rounds, handle, op, hcall, hop, hopen⟩ := hmade history e [] rfl
    obtain ⟨f, hf⟩ := Option.isSome_iff_exists.mp hopen
    have hquiet : ¬e.call.Quiet P.world e.start := by
      rw [hcall]
      exact not_quiet_fileOp handle op e.start
    have hresult := hfaith history e [] rfl hquiet
    obtain ⟨bytes, offset, heffect, hafter⟩ := serve_effect px hf hop
    rw [← hcall] at heffect hafter
    have hi : inodeOf P px handle = some f.inode := by
      rw [inodeOf, ← hinode, hf]
      rfl
    rw [kernelAfter_append, kernelNext_of_not_quiet hquiet, hafter.contents]
    refine ⟨ops ++ [(handle, op, _)], List.rel_append hrec (.cons ⟨hcall, hresult⟩ .nil),
      hrun.snoc hi heffect, fun fd => ?_⟩
    exact (hafter.inode_eq hf fd).trans (hinode fd)

/-- **The connection refines the array of bytes.**  In every session of requests on open files, by
any threads in any order, over any number of handles, the completed requests and their replies are
a run of the reference, and the files of the device are those the reference has after it.  Between
two requests the daemon is ready with just these files, and every request comes to its end. -/
theorem refines {s₀ s : Session K W} (h₀ : Fresh P s₀)
    (hrun : Relation.ReflTransGen (Step P (OnOpenFile P px)) s₀ s) :
    (∃ ops, List.Forall₂ Records s.history ops ∧
      FileOp.Run (inodeOf P px) (px.contents P.kernel₀) ops
        (px.contents (kernelAfter P s.history))) ∧
    (∀ endpoint, s.holder = .free endpoint →
      ∃ loops, Ready P loops s.daemon s.kernel (kernelAfter P s.history)) ∧
    Acc (fun y x => Work P x y) s ∧
    (∀ t c w p, s.holder = .held t c w p → ∃ s', Work P s s') := by
  have hinv := Inv.of_reachable (fun _ _ _ _ h => OnOpenFile.admissible px h) h₀ hrun
  obtain ⟨loops, hstage⟩ := hinv.stage
  obtain ⟨ops, hrec, hops, -⟩ :=
    exists_run px (Made.of_reachable h₀ hrun).completed hinv.faithful
  refine ⟨⟨ops, hrec, hops⟩, fun endpoint hs => ?_, hstage.acc,
    fun t c w p hs => hstage.progress hs⟩
  obtain ⟨-, -, -, hready⟩ := hstage.free_inv hs
  exact hready

end Session

/-! ## A device that moves one byte at a time -/

/-- Files and descriptors. -/
structure Disk where
  contents : ℕ → List UInt8
  opened : Int32 → Option OpenFile

namespace Disk

/-- The descriptor has been moved. -/
def moveTo (k : Disk) (fd : Int32) (f : OpenFile) (offset : ℕ) : Disk :=
  { k with opened := Function.update k.opened fd (some ⟨f.inode, offset⟩) }

/-- The file has got other contents. -/
def put (k : Disk) (inode : ℕ) (bytes : List UInt8) : Disk :=
  { k with contents := Function.update k.contents inode bytes }

/-- The shortest counts that are allowed. -/
def kernel : Kernel Disk := fun e k =>
  match e with
  | .lseek fd offset =>
      match k.opened fd with
      | none => (.error (.other 9), k)
      | some f =>
          if 0 ≤ offset.toInt then (.ok (), k.moveTo fd f offset.toInt.toNat)
          else (.error (.other 22), k)
  | .read fd count =>
      match k.opened fd with
      | none => (.error (.other 9), k)
      | some f =>
          (.ok ⟨readAt (k.contents f.inode) f.offset (min count 1), by
              rw [readAt, List.length_take]; omega⟩,
            k.moveTo fd f (f.offset + (readAt (k.contents f.inode) f.offset (min count 1)).length))
  | .write fd buf =>
      match k.opened fd with
      | none => (.error (.other 9), k)
      | some f =>
          (.ok ⟨min buf.length 1, by omega, fun h => by have := List.length_pos_iff.mpr h; omega⟩,
            (k.put f.inode (writeAt (k.contents f.inode) f.offset
              (buf.take (min buf.length 1)))).moveTo fd f (f.offset + min buf.length 1))
  | .ftruncate fd length =>
      match k.opened fd with
      | none => (.error (.other 9), k)
      | some f =>
          if 0 ≤ length.toInt then
            (.ok (), (k.put f.inode (setLen (k.contents f.inode) length.toInt.toNat)).moveTo fd f
              f.offset)
          else (.error (.other 22), k)
  | e => ((Kernel.failing .enoent e ()).1, k)

/-- What can be seen of the files is all there is. -/
def view : FileView Disk where
  contents := contents
  opened := opened

variable {k : Disk} {fd : Int32} {f : OpenFile}

theorem after_moveTo (offset : ℕ) :
    view.After k (k.moveTo fd f offset) fd f.inode (k.contents f.inode) offset where
  contents := (Function.update_eq_self _ _).symm
  opened := rfl

theorem after_put (bytes : List UInt8) (offset : ℕ) :
    view.After k ((k.put f.inode bytes).moveTo fd f offset) fd f.inode bytes offset where
  contents := rfl
  opened := rfl

/-- It is a POSIX kernel. -/
def posix : PosixFiles kernel where
  toFileView := view
  lseek := by
    intro k fd f offset hf hoff
    have hf' : k.opened fd = some f := hf
    simp only [kernel, hf', if_pos hoff]
    exact ⟨trivial, after_moveTo _⟩
  read_ok := by
    intro k fd f count bs hf hread
    have hf' : k.opened fd = some f := hf
    simp only [kernel, hf'] at hread ⊢
    obtain rfl := Except.ok.inj hread
    refine ⟨?_, fun hnil => ?_, after_moveTo _⟩
    · exact readAt_length _ _ _
    · have hlen := congrArg List.length hnil
      show count = 0 ∨ (k.contents f.inode).length ≤ f.offset
      simp only [readAt, List.length_take, List.length_drop, List.length_nil] at hlen
      omega
  read_error := by
    intro k fd f count e hf hread
    have hf' : k.opened fd = some f := hf
    simp only [kernel, hf'] at hread
    cases hread
  write_ok := by
    intro k fd f buf n hf hwrite
    have hf' : k.opened fd = some f := hf
    simp only [kernel, hf'] at hwrite ⊢
    obtain rfl := Except.ok.inj hwrite
    exact after_put _ _
  write_error := by
    intro k fd f buf e hf hwrite
    have hf' : k.opened fd = some f := hf
    simp only [kernel, hf'] at hwrite
    cases hwrite
  ftruncate_ok := by
    intro k fd f length hf hlen _
    have hf' : k.opened fd = some f := hf
    simp only [kernel, hf', if_pos hlen]
    exact after_put _ _
  ftruncate_error := by
    intro k fd f length e hf htrunc
    have hf' : k.opened fd = some f := hf
    simp only [kernel, hf'] at htrunc ⊢
    split at htrunc
    · cases htrunc
    · next hneg =>
      rw [if_neg hneg]
      exact FileView.After.refl hf

/-- Descriptor `3` is open on a file of three bytes. -/
def setup : Setup Disk Unit where
  clientHost := .windows
  daemonHost := .unix .little
  call := kernel
  kernel₀ := ⟨fun _ => [1, 2, 3], fun fd => if fd = 3 then some ⟨0, 0⟩ else none⟩
  world := uncached

/-- Two bytes are written past the end of the file, one at a time, and the gap is filled. -/
theorem refines_disk : ∃ s : Session Disk Unit,
    s.history = [⟨0, .writeToFile 3 5 ⟨[8, 9], by decide⟩, (), .ok (.status .success)⟩] ∧
      ∃ ops files, List.Forall₂ Session.Records s.history ops ∧
        FileOp.Run (Session.inodeOf setup posix) (fun _ => [1, 2, 3]) ops files ∧
        files 0 = [1, 2, 3, 0, 0, 8, 9] := by
  let op : FileOp := .write 5 ⟨[8, 9], by decide⟩
  have hc : Session.OnOpenFile setup posix [] (op.call 3) () 0 :=
    ⟨3, op, rfl, ⟨by decide, by decide⟩, by decide⟩
  have hstep : Session.Step setup (Session.OnOpenFile setup posix) (Session.start setup ()) _ :=
    .acquire rfl 0 (op.call 3) () 0 hc
  have hinv := Session.Inv.of_reachable (fun _ _ _ _ h => Session.OnOpenFile.admissible posix h)
    (Session.fresh_start setup ()) (.single hstep)
  obtain ⟨s, result, -, hwork, -, hhistory⟩ := hinv.completes rfl
  have hrun : Relation.ReflTransGen (Session.Step setup (Session.OnOpenFile setup posix))
      (Session.start setup ()) s :=
    (Session.reachable_of_work hwork).head hstep
  obtain ⟨⟨ops, hrec, hops⟩, -⟩ := Session.refines posix (Session.fresh_start setup ()) hrun
  have hhistory' : s.history = [⟨0, op.call 3, (), result⟩] := hhistory
  have hresult : result = .ok (.status .success) :=
    (Session.Inv.of_reachable (fun _ _ _ _ h => Session.OnOpenFile.admissible posix h)
      (Session.fresh_start setup ()) hrun).faithful [] _ [] hhistory' id
  rw [hresult] at hhistory'
  refine ⟨s, hhistory', ops, _, hrec, hops, ?_⟩
  rw [hhistory']
  decide

end Disk

end NandroidFS
