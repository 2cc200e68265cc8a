import Mathlib.Data.List.Nodup
import Mathlib.Data.Set.Function
import Mathlib.Logic.Function.Basic
import NandroidFS.Daemon.Serve
import NandroidFS.Dokan.Operations

/-!
# Descriptors and contexts

A `Drive` is what the callbacks leave behind between two requests: the contexts that exist, the
callbacks that are under way, each with what is left of its program, and the calls that have been
answered.  Callbacks run in any number of threads and take turns in any order.  The mutex of
`Connection` lets one method exchange at a time, so a call and its answer are one step here; what
the daemon answers is left open, except that `open` returns a descriptor that is not negative and
not open.  A run in which the connection gets out of step is not among these: when a write cannot
seek, to the offset `-1` say, the daemon takes its payload for requests and answers to those, so
that later calls get the answers to others.

What Dokan promises is in the guards of `Step`: a context is handed to other callbacks once its
`create_file` has been accepted, `close_file` is called once for it, when nothing else runs on it,
and it is gone afterwards.  The flags of `DOKAN_FILE_INFO` are Dokan's own and may be anything.

Which descriptors are open, and for which context each was opened, is read off the answered calls.
-/

namespace NandroidFS

open Operations

/-! ## The callbacks as threads -/

/-- How a callback ends. -/
inductive Ending where
  /-- `create_file` was accepted. -/
  | opened (context : FileContext)
  /-- `create_file` was not; Dokan forgets the context, and nobody deletes it. -/
  | refused
  | returned
  /-- `close_file`, which deletes the context. -/
  | closed

/-- The results of `create_file` after which Dokan goes on to use the context. -/
def accepts (disposition : Disposition) : NtStatus → Bool
  | .success => true
  | .objectNameCollision => disposition = .openAlways || disposition = .createAlways
  | _ => false

def createProgram (args : CreateArgs) : OpM Ending := do
  let (status, info) ← createFile args
  return if accepts args.disposition status then .opened info.context else .refused

def closeProgram (info : FileInfo) : OpM Ending := do
  closeFile info
  return .closed

/-- The callbacks between `create_file` and `close_file` that make requests. -/
inductive Callback where
  | cleanUp
  | readFile (bufferLen : UInt32) (offset : UInt64)
  | writeFile (data : Payload) (offset : UInt64)
  | setEndOfFile (byteOffset : UInt64)
  | setAllocationSize (byteOffset : UInt64)
  | getFileInformation
  | findFiles
  | setFileAttributes (fileAttributes : UInt32)
  | setFileTime (lastAccessTime lastWriteTime : UInt64)
  | deleteFile
  | deleteDirectory
  | moveFile (newFileName : WString) (replaceIfExisting : Bool)
  | getDiskFreeSpace

/-- A program whose result only Dokan sees. -/
def ending {α : Type} (p : OpM α) : OpM Ending := do
  let _ ← p
  return .returned

def Callback.program (fileName : WString) (info : FileInfo) : Callback → OpM Ending
  | .cleanUp => ending (Operations.cleanUp fileName info)
  | .readFile bufferLen offset => ending (Operations.readFile bufferLen offset info)
  | .writeFile data offset => ending (Operations.writeFile data offset info)
  | .setEndOfFile byteOffset => ending (Operations.setEndOfFile byteOffset info)
  | .setAllocationSize byteOffset => ending (Operations.setAllocationSize byteOffset info)
  | .getFileInformation => ending (Operations.getFileInformation fileName info)
  | .findFiles => ending (Operations.findFiles fileName)
  | .setFileAttributes fileAttributes =>
      ending (Operations.setFileAttributes fileName fileAttributes)
  | .setFileTime lastAccessTime lastWriteTime =>
      ending (Operations.setFileTime fileName lastAccessTime lastWriteTime)
  | .deleteFile => ending (Operations.deleteFile fileName)
  | .deleteDirectory => ending (Operations.deleteDirectory fileName)
  | .moveFile newFileName replaceIfExisting =>
      ending (Operations.moveFile fileName newFileName replaceIfExisting)
  | .getDiskFreeSpace => ending Operations.getDiskFreeSpace

/-! ## The descriptors that the daemon has open -/

/-- The handle that a call names. -/
def Call.handle? : Call → Option FileHandle
  | .closeFile handle => some handle
  | .writeToFile handle _ _ => some handle
  | .readFromFile handle _ _ => some handle
  | .setFileLen handle _ => some handle
  | _ => none

/-- The descriptor that a call has opened. -/
def Call.opened? : Call → Reply → Option FileHandle
  | .openFile _ _ _ _, .opened fd => some fd
  | _, _ => none

/-- The descriptor that a call closes. -/
def Call.closes? : Call → Option FileHandle
  | .closeFile handle => some handle
  | _ => none

namespace Drive

/-- A call that was answered, and the context on which it was made. -/
structure Event where
  context : ℕ
  call : Call
  reply : Reply

/-- The open descriptors, each with the context for which it was opened, after the calls of the log.
The last call stands first. -/
def descriptors : List Event → List (FileHandle × ℕ)
  | [] => []
  | e :: log =>
      match e.call.opened? e.reply, e.call.closes? with
      | some fd, _ => (fd, e.context) :: descriptors log
      | none, some handle => (descriptors log).filter (·.1 ≠ handle)
      | none, none => descriptors log

inductive Phase where
  | creating
  | live
  | closing
  deriving DecidableEq

structure Entry where
  context : FileContext
  phase : Phase

/-- A callback under way. -/
structure Running where
  context : ℕ
  program : OpM Ending

end Drive

open Drive in
structure Drive where
  contexts : ℕ → Option Entry
  running : ℕ → Option Running
  log : List Drive.Event

namespace Drive

def new : Drive where
  contexts _ := none
  running _ := none
  log := []

def setContext (s : Drive) (id : ℕ) (entry : Option Entry) : Drive :=
  { s with contexts := Function.update s.contexts id entry }

def setRunning (s : Drive) (t : ℕ) (r : Option Running) : Drive :=
  { s with running := Function.update s.running t r }

theorem setRunning_cases {s : Drive} {t t' : ℕ} {o : Option Running} {r : Running}
    (h : (s.setRunning t o).running t' = some r) :
    t' = t ∧ o = some r ∨ t' ≠ t ∧ s.running t' = some r := by
  replace h : Function.update s.running t o t' = some r := h
  by_cases ht : t' = t
  · rw [ht, Function.update_self] at h
    exact Or.inl ⟨ht, h⟩
  · rw [Function.update_of_ne ht] at h
    exact Or.inr ⟨ht, h⟩

/-- A callback on the context `id` ends. -/
def finish (s : Drive) (id : ℕ) : Ending → Drive
  | .opened context => s.setContext id (some ⟨context, .live⟩)
  | .refused => s.setContext id none
  | .returned => s
  | .closed => s.setContext id none

/-- The thread runs to its next call, or to its end. -/
def proceed (s : Drive) (t id : ℕ) : OpM Ending → Drive
  | .ret e => (s.setRunning t none).finish id e
  | .fail e => e.elim
  | .act c k => s.setRunning t (some ⟨id, .act c k⟩)

def record (s : Drive) (e : Event) : Drive :=
  { s with log := e :: s.log }

/-- What may happen next. -/
inductive Action where
  | create (t id : ℕ) (args : CreateArgs)
  | callback (t id : ℕ) (fileName : WString) (isDirectory deleteOnClose : Bool)
      (callback : Callback)
  | close (t id : ℕ) (isDirectory deleteOnClose : Bool)
  | answer (t : ℕ) (reply : Reply)

/-- **The steps of the drive.** -/
inductive Step (s : Drive) : Action → Drive → Prop
  | create {t i : ℕ} (args : CreateArgs) (ht : s.running t = none) (hid : s.contexts i = none) :
      Step s (.create t i args)
        ((s.setContext i (some ⟨(CreateArgs.info args).context, .creating⟩)).proceed t i
          (createProgram args))
  | callback {t i : ℕ} {context : FileContext} (fileName : WString)
      (isDirectory deleteOnClose : Bool) (callback : Callback) (ht : s.running t = none)
      (hid : s.contexts i = some ⟨context, .live⟩) :
      Step s (.callback t i fileName isDirectory deleteOnClose callback)
        (s.proceed t i (callback.program fileName ⟨isDirectory, deleteOnClose, context⟩))
  | close {t i : ℕ} {context : FileContext} (isDirectory deleteOnClose : Bool)
      (ht : s.running t = none) (hid : s.contexts i = some ⟨context, .live⟩)
      (hlast : ∀ t' r, s.running t' = some r → r.context ≠ i) :
      Step s (.close t i isDirectory deleteOnClose)
        ((s.setContext i (some ⟨context, .closing⟩)).proceed t i
          (closeProgram ⟨isDirectory, deleteOnClose, context⟩))
  | answer {t i : ℕ} {c : Call} {k : Reply → OpM Ending} (reply : Reply)
      (ht : s.running t = some ⟨i, .act c k⟩)
      (hopen : ∀ fd, c.opened? reply = some fd →
        fd.toNat < 2 ^ 31 ∧ fd ∉ (descriptors s.log).map Prod.fst) :
      Step s (.answer t reply) ((s.record ⟨i, c, reply⟩).proceed t i (k reply))

/-- The states reached by steps that satisfy `P`. -/
inductive Reachable (P : Drive → Action → Prop) : Drive → Prop
  | new : Reachable P Drive.new
  | step {s s' : Drive} {a : Action} (hs : Reachable P s) (hstep : Step s a s') (ha : P s a) :
      Reachable P s'

/-- What the daemon answers is among the answers of the drive, if the kernel does not hand out a
descriptor twice. -/
theorem step_serve {K : Type} (call : Kernel K) (k : K) {s : Drive} {t i : ℕ} {c : Call}
    {next : Reply → OpM Ending} (ht : s.running t = some ⟨i, .act c next⟩)
    (hfresh : ∀ fd, c.opened? (serve call c.request k).1.reply = some fd →
      fd ∉ (descriptors s.log).map Prod.fst) :
    Step s (.answer t (serve call c.request k).1.reply)
      ((s.record ⟨i, c, (serve call c.request k).1.reply⟩).proceed t i
        (next (serve call c.request k).1.reply)) := by
  refine Step.answer _ ht fun fd hfd => ⟨?_, hfresh fd hfd⟩
  cases c with
  | openFile path mode readAccess writeAccess =>
    simp only [Call.request, serve] at hfd
    split at hfd
    · cases hfd
    · simp only at hfd
      split at hfd
      · cases hfd
      · next fd' _ =>
        obtain rfl : fd'.1.toUInt32 = fd := Option.some.inj hfd
        exact Fd.toNat_lt fd'
  | _ => cases hfd

/-! ## What the programs do with handles -/

end Drive

/-- A call of a callback on a context with the given handle: nothing is opened or closed, and no
other handle is named. -/
def Call.Uses (handle : FileHandle) : Call → Prop
  | .openFile _ _ _ _ => False
  | .closeFile _ => False
  | .writeToFile handle' _ _ => handle' = handle
  | .readFromFile handle' _ _ => handle' = handle
  | .setFileLen handle' _ => handle' = handle
  | _ => True

theorem Call.Uses.opened?_eq {handle : FileHandle} {c : Call} (h : c.Uses handle) (reply : Reply) :
    c.opened? reply = none := by
  cases c with
  | openFile _ _ _ _ => exact h.elim
  | _ => rfl

theorem Call.Uses.closes?_eq {handle : FileHandle} {c : Call} (h : c.Uses handle) :
    c.closes? = none := by
  cases c with
  | closeFile _ => exact h.elim
  | _ => rfl

/-- **The discipline of `create_file`**: it names no handle, and once a descriptor has been opened
for it, it returns at once.  It ends in `Holds fd` if the descriptor `fd` was opened, and in `Idle`
if none was. -/
def Creates {α : Type} (Idle : α → Prop) (Holds : FileHandle → α → Prop) : OpM α → Prop
  | .ret a => Idle a
  | .fail _ => True
  | .act c k => c.handle? = none ∧ ∀ reply,
      (∀ fd, c.opened? reply = some fd → ∃ a, k reply = .ret a ∧ Holds fd a) ∧
      (c.opened? reply = none → Creates Idle Holds (k reply))

/-- The discipline of the callbacks on a live context. -/
def Keeps (handle : FileHandle) (p : OpM Ending) : Prop :=
  p.All (Call.Uses handle) ∧ p.Returns (· = .returned)

section Programs

variable {α β : Type} {Idle : α → Prop} {Holds : FileHandle → α → Prop} {Idle' : β → Prop}
  {Holds' : FileHandle → β → Prop}

theorem Creates.bind_ret {p : OpM α} (hp : Creates Idle Holds p) {f : α → β}
    (hidle : ∀ a, Idle a → Idle' (f a)) (hholds : ∀ fd a, Holds fd a → Holds' fd (f a)) :
    Creates Idle' Holds' (p >>= fun a => Prog.ret (f a)) := by
  induction p with
  | ret a => exact hidle a hp
  | fail e => exact e.elim
  | act c k ih =>
    refine ⟨hp.1, fun reply => ⟨fun fd hfd => ?_, fun hnone => ih reply ((hp.2 reply).2 hnone)⟩⟩
    obtain ⟨a, ha, hfd⟩ := (hp.2 reply).1 fd hfd
    refine ⟨f a, ?_, hholds fd a hfd⟩
    show (k reply >>= fun a => Prog.ret (f a)) = _
    rw [ha]
    rfl

theorem creates_request_bind {c : Call} {f : Reply → OpM α} (hc : c.handle? = none)
    (hopened : ∀ reply fd, c.opened? reply = some fd → ∃ a, f reply = .ret a ∧ Holds fd a)
    (hnone : ∀ reply, c.opened? reply = none → Creates Idle Holds (f reply)) :
    Creates Idle Holds (request c >>= f) :=
  ⟨hc, fun reply => ⟨hopened reply, hnone reply⟩⟩

/-- `create_file` has returned without a descriptor. -/
def Unopened (r : NtStatus × FileContext) : Prop :=
  r.2.handle = NO_HANDLE

/-- `create_file` has returned with the descriptor `fd`, and is accepted. -/
def Opened (disposition : Disposition) (fd : FileHandle) (r : NtStatus × FileContext) : Prop :=
  accepts disposition r.1 ∧ r.2.handle = fd

theorem handle_forOpening (ctx : FileContext) :
    (FileContext.forOpening ctx).handle = ctx.handle := by
  rw [FileContext.forOpening]
  split <;> rfl

/-- An open that succeeds is accepted, whether the file was thought to exist or not. -/
theorem creates_openOnDevice (path : WString) (disposition : Disposition) (fileExists : Bool)
    (mode : OpenMode) {ctx : FileContext} (hctx : ctx.handle = NO_HANDLE) :
    Creates Unopened (Opened disposition)
      (openOnDevice path disposition fileExists mode ctx) := by
  refine creates_request_bind rfl (fun reply fd hfd => ?_) fun reply hnone => ?_
  · cases reply with
    | opened handle =>
      obtain rfl : handle = fd := Option.some.inj hfd
      simp only
      split
      · next hc =>
        refine ⟨_, rfl, ?_, rfl⟩
        exact (Bool.and_eq_true_iff.mp hc).2
      · exact ⟨_, rfl, rfl, rfl⟩
    | _ => cases hfd
  · cases reply with
    | opened handle => cases hnone
    | _ => exact (handle_forOpening ctx).trans hctx

theorem creates_handleCreateFile (path : WString) (disposition : Disposition) (fileExists : Bool)
    {ctx : FileContext} (hctx : ctx.handle = NO_HANDLE) :
    Creates Unopened (Opened disposition) (handleCreateFile path disposition fileExists ctx) := by
  have hopen := fun mode => creates_openOnDevice path disposition fileExists mode hctx
  cases disposition with
  | createAlways => exact hopen _
  | createNew => exact hopen _
  | openAlways =>
    simp only [handleCreateFile]
    split
    · exact hctx
    · exact hopen _
  | openExisting =>
    simp only [handleCreateFile]
    split
    · exact hctx
    · split
      · exact hctx
      · exact hopen _
  | truncateExisting => exact hopen _
  | unknown code => exact hctx

theorem creates_handleCreateDirectory (path : WString) (disposition : Disposition)
    (entryExists entryIsDirectory : Bool) :
    Creates (fun _ => True) (fun _ _ => False)
      (handleCreateDirectory path disposition entryExists entryIsDirectory) := by
  rw [handleCreateDirectory]
  split
  · refine creates_request_bind rfl (fun reply fd hfd => ?_) fun reply _ => trivial
    cases reply <;> cases hfd
  · repeat' split
    all_goals trivial

/-- What `create_file` has to end in, in terms of the whole `FileInfo`. -/
abbrev CreatesInfo (disposition : Disposition) : OpM (NtStatus × FileInfo) → Prop :=
  Creates (fun r => Unopened (r.1, r.2.context))
    (fun fd r => Opened disposition fd (r.1, r.2.context))

theorem createsInfo_createEntry (args : CreateArgs) (info : FileInfo)
    (entryExists entryIsDirectory : Bool) (hctx : info.context.handle = NO_HANDLE) :
    CreatesInfo args.disposition (createEntry args info entryExists entryIsDirectory) := by
  rw [createEntry]
  split
  · exact hctx
  · -- whether or not the directory was noticed, the context is the same
    generalize hinfo : (if entryExists && entryIsDirectory then { info with isDirectory := true }
      else info) = info'
    have hctx' : info'.context.handle = NO_HANDLE := by
      rw [← hinfo]
      split <;> exact hctx
    simp only
    split
    · exact (creates_handleCreateDirectory _ _ _ _).bind_ret (fun _ _ => hctx')
        fun _ _ => False.elim
    · exact (creates_handleCreateFile _ _ _ hctx').bind_ret (fun _ => id) fun _ _ => id

theorem createsInfo_createFile (args : CreateArgs) :
    CreatesInfo args.disposition (createFile args) := by
  refine creates_request_bind rfl (fun reply fd hfd => ?_) fun reply _ => ?_
  · cases reply <;> cases hfd
  · split
    · exact createsInfo_createEntry args _ _ _ rfl
    · split
      · exact createsInfo_createEntry args _ _ _ rfl
      · exact rfl

end Programs

/-- How a `create_file` that opened nothing ends. -/
def Ending.Idle : Ending → Prop
  | .opened context => context.handle = NO_HANDLE
  | .refused => True
  | _ => False

/-- How a `create_file` ends that opened the descriptor `fd`. -/
def Ending.Holds (fd : FileHandle) (e : Ending) : Prop :=
  ∃ context, e = .opened context ∧ context.handle = fd

theorem creates_createProgram (args : CreateArgs) :
    Creates Ending.Idle Ending.Holds (createProgram args) := by
  refine (createsInfo_createFile args).bind_ret (fun r hr => ?_) fun fd r hr => ?_
  · split
    · exact hr
    · trivial
  · rw [if_pos hr.1]
    exact ⟨_, rfl, hr.2⟩

theorem closeProgram_of_handle {info : FileInfo} (h : info.context.handle ≠ NO_HANDLE) :
    closeProgram info = .act (.closeFile info.context.handle) fun _ => .ret .closed := by
  rw [closeProgram, closeFile, if_pos h]
  rfl

theorem closeProgram_of_noHandle {info : FileInfo} (h : info.context.handle = NO_HANDLE) :
    closeProgram info = .ret .closed := by
  rw [closeProgram, closeFile, if_neg (not_not_intro h)]
  rfl

/-- The calls of a callback, whatever it hands back. -/
theorem all_ending {α : Type} {P : Call → Prop} {p : OpM α} (hp : p.All P) : (ending p).All P :=
  hp.bind fun _ => trivial

/-- A callback that makes one call and looks at the reply. -/
theorem all_request_bind {α : Type} {P : Call → Prop} {c : Call} {f : Reply → OpM α} (hc : P c)
    (hf : ∀ reply, (f reply).All P) : (request c >>= f).All P :=
  ⟨hc, hf⟩

/-- The two callbacks that cut a file do not look whether their context has a handle. -/
def Callback.CutsNothing (context : FileContext) : Callback → Prop
  | .setEndOfFile _ => context.writeAccess ∧ context.handle = NO_HANDLE
  | .setAllocationSize _ => context.writeAccess ∧ context.handle = NO_HANDLE
  | _ => False

/-- The calls of a callback: they use its own handle, and only where nothing is cut do they use one
that is not there. -/
theorem Callback.all_program (callback : Callback) (fileName : WString) (info : FileInfo) :
    (callback.program fileName info).All fun c => c.Uses info.context.handle ∧
      (c.handle? = some NO_HANDLE → callback.CutsNothing info.context) := by
  -- a call that names no handle and opens nothing
  have path {c : Call} (hc : c.Uses info.context.handle) (hnone : c.handle? = none) :
      c.Uses info.context.handle ∧
        (c.handle? = some NO_HANDLE → callback.CutsNothing info.context) := by
    refine ⟨hc, fun h => ?_⟩
    rw [hnone] at h
    cases h
  -- a call on the handle of the context, once it has been looked at
  have checked {c : Call} {access : Bool} (hc : c.Uses info.context.handle)
      (hguard : ¬(!access || info.context.handle == NO_HANDLE) = true)
      (hhandle : c.handle? = some info.context.handle) :
      c.Uses info.context.handle ∧
        (c.handle? = some NO_HANDLE → callback.CutsNothing info.context) := by
    refine ⟨hc, fun h => (hguard ?_).elim⟩
    rw [hhandle] at h
    rw [Option.some.inj h]
    simp
  cases callback with
  | cleanUp =>
    refine all_ending ?_
    rw [Operations.cleanUp]
    split
    · split <;> exact all_request_bind (path trivial rfl) fun _ => trivial
    · trivial
  | readFile bufferLen offset =>
    refine all_ending ?_
    rw [Operations.readFile]
    split
    · trivial
    · next hguard =>
      refine all_request_bind (checked rfl hguard rfl) fun reply => ?_
      cases reply <;> trivial
  | writeFile data offset =>
    refine all_ending ?_
    rw [Operations.writeFile]
    split
    · trivial
    · next hguard =>
      refine all_request_bind (checked rfl hguard rfl) fun reply => ?_
      split <;> trivial
  | setEndOfFile byteOffset =>
    refine all_ending ?_
    rw [Operations.setEndOfFile]
    split
    · next hw =>
      exact all_request_bind ⟨rfl, fun h => ⟨hw, Option.some.inj h⟩⟩ fun _ => trivial
    · trivial
  | setAllocationSize byteOffset =>
    refine all_ending ?_
    rw [Operations.setAllocationSize, Operations.setEndOfFile]
    split
    · next hw =>
      exact all_request_bind ⟨rfl, fun h => ⟨hw, Option.some.inj h⟩⟩ fun _ => trivial
    · trivial
  | getFileInformation =>
    refine all_ending (all_request_bind (path trivial rfl) fun reply => ?_)
    cases reply with
    | stat stat =>
      simp only
      split <;> trivial
    | _ => trivial
  | findFiles =>
    refine all_ending (all_request_bind (path trivial rfl) fun reply => ?_)
    cases reply <;> trivial
  | setFileAttributes fileAttributes =>
    refine all_ending (all_request_bind (path trivial rfl) fun reply => ?_)
    cases reply with
    | stat stat =>
      simp only
      repeat' split
      all_goals trivial
    | _ => trivial
  | setFileTime lastAccessTime lastWriteTime =>
    exact all_ending (all_request_bind (path trivial rfl) fun _ => trivial)
  | deleteFile => exact all_ending (all_request_bind (path trivial rfl) fun _ => trivial)
  | deleteDirectory => exact all_ending (all_request_bind (path trivial rfl) fun _ => trivial)
  | moveFile newFileName replaceIfExisting =>
    exact all_ending (all_request_bind (path trivial rfl) fun _ => trivial)
  | getDiskFreeSpace =>
    refine all_ending (all_request_bind (path trivial rfl) fun reply => ?_)
    cases reply <;> trivial

theorem Callback.keeps_program (callback : Callback) (fileName : WString) (info : FileInfo) :
    Keeps info.context.handle (callback.program fileName info) := by
  refine ⟨(callback.all_program fileName info).mono fun _ => And.left, ?_⟩
  have returned {α : Type} (p : OpM α) : (ending p).Returns (· = .returned) :=
    p.returns_true.bind fun _ _ => rfl
  cases callback <;> exact returned _

/-! ## The invariant -/

namespace Drive

/-- What is left of a callback fits the phase of its context. -/
def Entry.Fits (entry : Entry) (p : OpM Ending) : Prop :=
  match entry.phase with
  | .creating => entry.context.handle = NO_HANDLE ∧ Creates Ending.Idle Ending.Holds p
  | .live => Keeps entry.context.handle p
  | .closing => entry.context.handle ≠ NO_HANDLE ∧
      p = .act (.closeFile entry.context.handle) fun _ => .ret .closed

/-- The context exists and has the handle. -/
def HasHandle (contexts : ℕ → Option Entry) (id : ℕ) (handle : FileHandle) : Prop :=
  ∃ entry, contexts id = some entry ∧ entry.context.handle = handle ∧ handle ≠ NO_HANDLE

/-- **The invariant.**  The open descriptors are those of the contexts, each opened for its own; and
while a context is being made or closed, one callback runs on it. -/
structure Inv (s : Drive) : Prop where
  range : ∀ d ∈ descriptors s.log, d.1.toNat < 2 ^ 31
  nodup : ((descriptors s.log).map Prod.fst).Nodup
  paired : ∀ handle id, (handle, id) ∈ descriptors s.log ↔ HasHandle s.contexts id handle
  threads : ∀ t r, s.running t = some r →
    ∃ entry, s.contexts r.context = some entry ∧ entry.Fits r.program
  alone : ∀ t t' r r', s.running t = some r → s.running t' = some r' →
    r.context = r'.context → ∀ entry, s.contexts r.context = some entry → entry.phase ≠ .live →
    t = t'

theorem inv_new : Inv new where
  range d hd := (List.not_mem_nil hd).elim
  nodup := List.nodup_nil
  paired handle id := by
    refine ⟨fun h => (List.not_mem_nil h).elim, ?_⟩
    rintro ⟨entry, hentry, -⟩
    cases hentry
  threads t r ht := by cases ht
  alone t t' r r' ht := by cases ht

variable {s : Drive} {t id : ℕ}

/-- A descriptor is never the value that stands for none. -/
theorem ne_noHandle_of_lt {fd : FileHandle} (h : fd.toNat < 2 ^ 31) : fd ≠ NO_HANDLE := by
  rintro rfl
  exact absurd h (by decide)

/-- No callback runs on the context. -/
def Idle (s : Drive) (id : ℕ) : Prop :=
  ∀ t r, s.running t = some r → r.context ≠ id

/-- **A context on which nothing runs is replaced**, together with its descriptor. -/
theorem Inv.replace (hs : Inv s) (hidle : s.Idle id) {entry : Option Entry} {log : List Event}
    (hrange : ∀ d ∈ descriptors log, d.1.toNat < 2 ^ 31)
    (hnodup : ((descriptors log).map Prod.fst).Nodup)
    (hself : ∀ handle, (handle, id) ∈ descriptors log ↔
      ∃ e, entry = some e ∧ e.context.handle = handle ∧ handle ≠ NO_HANDLE)
    (hothers : ∀ handle id', id' ≠ id →
      ((handle, id') ∈ descriptors log ↔ (handle, id') ∈ descriptors s.log)) :
    Inv { s.setContext id entry with log := log } where
  range := hrange
  nodup := hnodup
  paired handle id' := by
    by_cases hid : id' = id
    · rw [hid, hself, HasHandle]
      simp only [setContext, Function.update_self]
    · rw [hothers handle id' hid, hs.paired, HasHandle, HasHandle]
      simp only [setContext, Function.update_of_ne hid]
  threads t r ht := by
    obtain ⟨e, he, hfits⟩ := hs.threads t r ht
    exact ⟨e, (Function.update_of_ne (hidle t r ht) _ _).trans he, hfits⟩
  alone t t' r r' ht ht' hsame e he hphase := by
    refine hs.alone t t' r r' ht ht' hsame e ?_ hphase
    exact (Function.update_of_ne (hidle t r ht) _ _).symm.trans he

/-- A context with the same handle takes the place of another. -/
theorem Inv.setContext (hs : Inv s) (hidle : s.Idle id) {entry : Option Entry}
    (hself : ∀ handle, HasHandle s.contexts id handle ↔
      ∃ e, entry = some e ∧ e.context.handle = handle ∧ handle ≠ NO_HANDLE) :
    Inv (s.setContext id entry) :=
  hs.replace hidle hs.range hs.nodup (fun handle => (hs.paired handle id).trans (hself handle))
    fun _ _ _ => Iff.rfl

theorem Inv.clear (hs : Inv s) : Inv (s.setRunning t none) where
  range := hs.range
  nodup := hs.nodup
  paired := hs.paired
  threads t' r ht' := by
    obtain ⟨-, hnone⟩ | ⟨-, ht'⟩ := setRunning_cases ht'
    · cases hnone
    · exact hs.threads t' r ht'
  alone t₁ t₂ r₁ r₂ h₁ h₂ := by
    obtain ⟨-, hnone⟩ | ⟨-, h₁⟩ := setRunning_cases h₁
    · cases hnone
    · obtain ⟨-, hnone⟩ | ⟨-, h₂⟩ := setRunning_cases h₂
      · cases hnone
      · exact hs.alone t₁ t₂ r₁ r₂ h₁ h₂

/-- A callback starts, or goes on. -/
theorem Inv.setRunning (hs : Inv s) {entry : Entry} (hid : s.contexts id = some entry)
    {p : OpM Ending} (hfits : entry.Fits p)
    (halone : entry.phase ≠ .live → ∀ t' r, s.running t' = some r → r.context = id → t' = t) :
    Inv (s.setRunning t (some ⟨id, p⟩)) where
  range := hs.range
  nodup := hs.nodup
  paired := hs.paired
  threads t' r ht' := by
    obtain ⟨-, hr⟩ | ⟨-, ht'⟩ := setRunning_cases ht'
    · obtain rfl := Option.some.inj hr
      exact ⟨entry, hid, hfits⟩
    · exact hs.threads t' r ht'
  alone t₁ t₂ r₁ r₂ h₁ h₂ hsame e he hphase := by
    obtain ⟨ht₁, hr₁⟩ | ⟨-, h₁⟩ := setRunning_cases h₁ <;>
      obtain ⟨ht₂, hr₂⟩ | ⟨-, h₂⟩ := setRunning_cases h₂
    · exact ht₁.trans ht₂.symm
    · obtain rfl := Option.some.inj hr₁
      obtain rfl : entry = e := Option.some.inj (hid.symm.trans he)
      exact ht₁.trans (halone hphase t₂ r₂ h₂ hsame.symm).symm
    · obtain rfl := Option.some.inj hr₂
      rw [hsame] at he
      obtain rfl : entry = e := Option.some.inj (hid.symm.trans he)
      exact (halone hphase t₁ r₁ h₁ hsame).trans ht₂.symm
    · exact hs.alone t₁ t₂ r₁ r₂ h₁ h₂ hsame e he hphase

theorem Inv.record (hs : Inv s) {e : Event} (hd : descriptors (e :: s.log) = descriptors s.log) :
    Inv (s.record e) where
  range := by
    show ∀ d ∈ descriptors (e :: s.log), _
    rw [hd]
    exact hs.range
  nodup := by
    show ((descriptors (e :: s.log)).map Prod.fst).Nodup
    rw [hd]
    exact hs.nodup
  paired := by
    show ∀ handle id, (handle, id) ∈ descriptors (e :: s.log) ↔ HasHandle s.contexts id handle
    rw [hd]
    exact hs.paired
  threads := hs.threads
  alone := hs.alone

/-! ### One lemma for each phase -/

/-- Nothing but `t` runs on the context. -/
def Only (s : Drive) (t id : ℕ) : Prop :=
  ∀ t' r, s.running t' = some r → r.context = id → t' = t

theorem Only.idle (h : s.Only t id) : (s.setRunning t none).Idle id := by
  intro t' r ht' hr
  obtain ⟨-, hnone⟩ | ⟨hne, ht'⟩ := setRunning_cases ht'
  · cases hnone
  · exact hne (h t' r ht' hr)

/-- A context that has no handle, or that is not there. -/
theorem not_hasHandle {contexts : ℕ → Option Entry}
    (h : ∀ entry, contexts id = some entry → entry.context.handle = NO_HANDLE)
    (handle : FileHandle) : ¬HasHandle contexts id handle := by
  rintro ⟨entry, hentry, rfl, hne⟩
  exact hne (h entry hentry)

theorem Inv.proceed_creating (hs : Inv s) {context : FileContext}
    (hid : s.contexts id = some ⟨context, .creating⟩) (hctx : context.handle = NO_HANDLE)
    {p : OpM Ending} (hp : Creates Ending.Idle Ending.Holds p) (honly : s.Only t id) :
    Inv (s.proceed t id p) := by
  have hnot : ∀ handle, ¬HasHandle s.contexts id handle := by
    refine not_hasHandle fun entry hentry => ?_
    obtain rfl := Option.some.inj (hid.symm.trans hentry)
    exact hctx
  cases p with
  | ret e =>
    cases e with
    | opened context' =>
      refine hs.clear.setContext honly.idle fun handle => ⟨fun h => (hnot handle h).elim, ?_⟩
      rintro ⟨e, he, rfl, hne⟩
      obtain rfl := Option.some.inj he
      exact (hne hp).elim
    | refused =>
      refine hs.clear.setContext honly.idle fun handle => ⟨fun h => (hnot handle h).elim, ?_⟩
      rintro ⟨e, he, -⟩
      cases he
    | returned => exact hp.elim
    | closed => exact hp.elim
  | fail e => exact e.elim
  | act c k => exact hs.setRunning hid ⟨hctx, hp⟩ fun _ => honly

theorem Inv.proceed_live (hs : Inv s) {context : FileContext}
    (hid : s.contexts id = some ⟨context, .live⟩) {p : OpM Ending} (hp : Keeps context.handle p) :
    Inv (s.proceed t id p) := by
  cases p with
  | ret e =>
    obtain rfl : e = .returned := hp.2
    exact hs.clear
  | fail e => exact e.elim
  | act c k => exact hs.setRunning hid hp fun hphase => (hphase rfl).elim

/-- The context is deleted, and its descriptor is closed if it has one. -/
theorem Inv.closed (hs : Inv s) (hidle : s.Idle id) {handle : FileHandle}
    (hself : HasHandle s.contexts id handle) {e : Event} (hopened : e.call.opened? e.reply = none)
    (hcloses : e.call.closes? = some handle) :
    Inv { s.setContext id none with log := e :: s.log } := by
  have hd : descriptors (e :: s.log) = (descriptors s.log).filter (·.1 ≠ handle) := by
    rw [descriptors, hopened, hcloses]
  have hmem := (hs.paired handle id).mpr hself
  refine hs.replace hidle ?_ ?_ (fun handle' => ⟨fun h => ?_, ?_⟩) fun handle' id' hne => ?_
  · rw [hd]
    exact fun d hmem => hs.range d (List.mem_of_mem_filter hmem)
  · rw [hd]
    exact hs.nodup.sublist (List.filter_sublist.map _)
  · rw [hd, List.mem_filter] at h
    obtain ⟨entry, hentry, hh, -⟩ := (hs.paired handle' id).mp h.1
    obtain ⟨entry', hentry', hh', -⟩ := hself
    obtain rfl := Option.some.inj (hentry.symm.trans hentry')
    exact absurd (hh.symm.trans hh') (of_decide_eq_true h.2)
  · rintro ⟨entry, hentry, -⟩
    cases hentry
  · rw [hd, List.mem_filter]
    refine ⟨And.left, fun h => ⟨h, decide_eq_true ?_⟩⟩
    -- one descriptor is not opened for two contexts
    rintro rfl
    have := List.inj_on_of_nodup_map hs.nodup hmem h rfl
    exact hne (congrArg Prod.snd this).symm

/-- A descriptor is opened for a context that is being made. -/
theorem Inv.opened (hs : Inv s) (hidle : s.Idle id)
    (hnot : ∀ handle, ¬HasHandle s.contexts id handle) {fd : FileHandle} (hlt : fd.toNat < 2 ^ 31)
    (hfresh : fd ∉ (descriptors s.log).map Prod.fst) {context : FileContext}
    (hfd : context.handle = fd) {e : Event} (hid : e.context = id)
    (hopened : e.call.opened? e.reply = some fd) :
    Inv { s.setContext id (some ⟨context, .live⟩) with log := e :: s.log } := by
  have hd : descriptors (e :: s.log) = (fd, id) :: descriptors s.log := by
    rw [descriptors, hopened, hid]
  refine hs.replace hidle ?_ ?_ (fun handle => ⟨fun h => ?_, ?_⟩) fun handle id' hne => ?_
  · rw [hd]
    exact List.forall_mem_cons.mpr ⟨hlt, hs.range⟩
  · rw [hd]
    exact List.nodup_cons.mpr ⟨hfresh, hs.nodup⟩
  · rw [hd, List.mem_cons] at h
    obtain h | h := h
    · obtain rfl : handle = fd := congrArg Prod.fst h
      exact ⟨_, rfl, hfd, ne_noHandle_of_lt hlt⟩
    · exact (hnot handle ((hs.paired handle id).mp h)).elim
  · rintro ⟨entry, hentry, rfl, -⟩
    obtain rfl := Option.some.inj hentry
    rw [hd, hfd]
    exact List.mem_cons_self
  · rw [hd, List.mem_cons]
    refine ⟨fun h => h.resolve_left fun heq => hne (congrArg Prod.snd heq), Or.inr⟩

theorem Inv.only_of_phase (hs : Inv s) {r : Running} (ht : s.running t = some r) {entry : Entry}
    (hentry : s.contexts r.context = some entry) (hphase : entry.phase ≠ .live) :
    s.Only t r.context :=
  fun t' r' ht' hsame => hs.alone t' t r' r ht' ht hsame entry (hsame ▸ hentry) hphase

/-- An answered call neither opens nor closes a descriptor. -/
theorem descriptors_cons_of_none {e : Event} {log : List Event}
    (hopened : e.call.opened? e.reply = none) (hcloses : e.call.closes? = none) :
    descriptors (e :: log) = descriptors log := by
  rw [descriptors, hopened, hcloses]

theorem Inv.answer (hs : Inv s) {c : Call} {k : Reply → OpM Ending} {reply : Reply}
    (ht : s.running t = some ⟨id, .act c k⟩)
    (hopen : ∀ fd, c.opened? reply = some fd →
      fd.toNat < 2 ^ 31 ∧ fd ∉ (descriptors s.log).map Prod.fst) :
    Inv ((s.record ⟨id, c, reply⟩).proceed t id (k reply)) := by
  obtain ⟨⟨context, phase⟩, hentry, hfits⟩ := hs.threads t _ ht
  cases phase with
  | creating =>
    obtain ⟨hctx, hhandle, hk⟩ := hfits
    have honly : s.Only t id := hs.only_of_phase ht hentry Phase.noConfusion
    cases hop : c.opened? reply with
    | some fd =>
      obtain ⟨hlt, hfresh⟩ := hopen fd hop
      obtain ⟨e, he, context', rfl, hfd⟩ := (hk reply).1 fd hop
      rw [he]
      refine hs.clear.opened honly.idle (not_hasHandle fun entry h => ?_) hlt hfresh hfd rfl hop
      obtain rfl := Option.some.inj (hentry.symm.trans h)
      exact hctx
    | none =>
      have hcloses : c.closes? = none := by
        cases c with
        | closeFile _ => cases hhandle
        | _ => rfl
      exact (hs.record (descriptors_cons_of_none hop hcloses)).proceed_creating hentry hctx
        ((hk reply).2 hop) honly
  | live =>
    have huses : c.Uses context.handle := hfits.1.1
    have hd : descriptors (⟨id, c, reply⟩ :: s.log) = descriptors s.log :=
      descriptors_cons_of_none (huses.opened?_eq reply) huses.closes?_eq
    exact (hs.record hd).proceed_live hentry ⟨hfits.1.2 reply, hfits.2 reply⟩
  | closing =>
    obtain ⟨hctx, hp⟩ := hfits
    have honly : s.Only t id := hs.only_of_phase ht hentry Phase.noConfusion
    injection hp with hc hk
    subst hc hk
    exact hs.clear.closed honly.idle ⟨_, hentry, rfl, hctx⟩ rfl rfl

/-- **Every step keeps the invariant.** -/
theorem Inv.step (hs : Inv s) {a : Action} {s' : Drive} (hstep : Step s a s') : Inv s' := by
  cases hstep with
  | @create t id args ht hid =>
    have hidle : s.Idle id := by
      intro t' r ht' hr
      obtain ⟨entry, hentry, -⟩ := hs.threads t' r ht'
      rw [hr, hid] at hentry
      cases hentry
    have hs' : Inv (s.setContext id (some ⟨(CreateArgs.info args).context, .creating⟩)) := by
      refine hs.setContext hidle fun handle => ⟨fun h => ?_, ?_⟩
      · obtain ⟨entry, hentry, -⟩ := h
        rw [hid] at hentry
        cases hentry
      · rintro ⟨entry, hentry, rfl, hne⟩
        obtain rfl := Option.some.inj hentry
        exact (hne rfl).elim
    exact hs'.proceed_creating (Function.update_self _ _ _) rfl (creates_createProgram args)
      fun t' r ht' hr => (hidle t' r ht' hr).elim
  | @callback t id context fileName isDirectory deleteOnClose callback ht hid =>
    exact hs.proceed_live hid
      (callback.keeps_program fileName ⟨isDirectory, deleteOnClose, context⟩)
  | @close t id context isDirectory deleteOnClose ht hid hlast =>
    have hs' : Inv (s.setContext id (some ⟨context, .closing⟩)) := by
      refine hs.setContext hlast fun handle => ?_
      rw [HasHandle, hid]
      simp
    have hentry : (s.setContext id (some ⟨context, .closing⟩)).contexts id =
        some ⟨context, .closing⟩ := Function.update_self _ _ _
    have honly : (s.setContext id (some ⟨context, .closing⟩)).Only t id :=
      fun t' r ht' hr => (hlast t' r ht' hr).elim
    by_cases hctx : context.handle = NO_HANDLE
    · -- there is no descriptor to close
      rw [closeProgram_of_noHandle hctx]
      refine hs'.clear.setContext honly.idle fun handle => ⟨fun h => ?_, ?_⟩
      · refine (not_hasHandle (fun entry hentry' => ?_) handle h).elim
        obtain rfl := Option.some.inj (hentry.symm.trans hentry')
        exact hctx
      · rintro ⟨entry, hentry, -⟩
        cases hentry
    · rw [closeProgram_of_handle hctx]
      exact hs'.setRunning hentry ⟨hctx, rfl⟩ fun _ => honly
  | answer reply ht hopen => exact hs.answer ht hopen

theorem Reachable.inv {P : Drive → Action → Prop} (hs : Reachable P s) : Inv s := by
  induction hs with
  | new => exact inv_new
  | step _ hstep _ ih => exact ih.step hstep

/-! ## Which handles are named -/

/-- No file is cut on a context that may write and has no handle. -/
def Careful (s : Drive) : Action → Prop
  | .callback _ id _ _ _ callback =>
      ∀ entry, s.contexts id = some entry → ¬callback.CutsNothing entry.context
  | _ => True

/-- What is left of a callback does not name the value that stands for no handle. -/
def Wary (p : OpM Ending) : Prop :=
  p.All fun c => c.handle? ≠ some NO_HANDLE

theorem wary_of_creates {p : OpM Ending} (hp : Creates Ending.Idle Ending.Holds p) : Wary p := by
  induction p with
  | ret e => trivial
  | fail e => trivial
  | act c k ih =>
    refine ⟨fun heq => ?_, fun reply => ?_⟩
    · rw [hp.1] at heq
      cases heq
    · cases hop : c.opened? reply with
      | some fd =>
        obtain ⟨e, he, -⟩ := (hp.2 reply).1 fd hop
        rw [he]
        trivial
      | none => exact ih reply ((hp.2 reply).2 hop)

theorem wary_closeProgram (info : FileInfo) : Wary (closeProgram info) := by
  by_cases h : info.context.handle = NO_HANDLE
  · rw [closeProgram_of_noHandle h]
    trivial
  · rw [closeProgram_of_handle h]
    exact ⟨fun heq => h (Option.some.inj heq), fun _ => trivial⟩

theorem wary_program {callback : Callback} {info : FileInfo}
    (h : ¬callback.CutsNothing info.context) (fileName : WString) :
    Wary (callback.program fileName info) := by
  refine (callback.all_program fileName info).mono fun c hc => ?_
  exact fun heq => h (hc.2 heq)

/-- The callbacks that run after one has moved on. -/
theorem running_proceed {p : OpM Ending} {t' : ℕ} {r : Running}
    (h : (s.proceed t id p).running t' = some r) :
    r.program = p ∨ s.running t' = some r := by
  cases p with
  | ret e =>
    have h' : (s.setRunning t none).running t' = some r := by
      cases e <;> exact h
    obtain ⟨-, hnone⟩ | ⟨-, h'⟩ := setRunning_cases h'
    · cases hnone
    · exact Or.inr h'
  | fail e => exact e.elim
  | act c k =>
    obtain ⟨-, hr⟩ | ⟨-, h'⟩ := setRunning_cases h
    · exact Or.inl (congrArg Running.program (Option.some.inj hr)).symm
    · exact Or.inr h'

/-- Every callback under way names only handles that are there. -/
def AllWary (s : Drive) : Prop :=
  ∀ t r, s.running t = some r → Wary r.program

theorem AllWary.proceed (hs : s.AllWary) {p : OpM Ending} (hp : Wary p) :
    (s.proceed t id p).AllWary := by
  intro t' r ht'
  obtain rfl | ht' := running_proceed ht'
  · exact hp
  · exact hs t' r ht'

theorem AllWary.step (hs : s.AllWary) {a : Action} (ha : Careful s a) {s' : Drive}
    (hstep : Step s a s') : s'.AllWary := by
  -- neither a context nor the log changes what runs
  have others {s' : Drive} (h : s'.running = s.running) : s'.AllWary := by
    intro t r ht
    exact hs t r (h ▸ ht)
  cases hstep with
  | create args ht hid =>
    refine AllWary.proceed ?_ ?_
    · exact others rfl
    · exact wary_of_creates (creates_createProgram args)
  | callback fileName isDirectory deleteOnClose callback ht hid =>
    exact hs.proceed (wary_program (ha _ hid) fileName)
  | close isDirectory deleteOnClose ht hid hlast =>
    refine AllWary.proceed ?_ ?_
    · exact others rfl
    · exact wary_closeProgram _
  | answer reply ht hopen =>
    refine AllWary.proceed ?_ ?_
    · exact others rfl
    · exact (hs _ _ ht).2 reply

end Drive

end NandroidFS
