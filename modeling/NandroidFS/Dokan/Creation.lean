import Mathlib.Data.List.Pairwise
import NandroidFS.Daemon.Serve
import NandroidFS.Dokan.Operations
import NandroidFS.Files.TreeDevice

/-!
# Creating and opening, with several callers

What `create_file` may do to the files of the device.  It asks for a stat, which may come from the
cache and be older than anything, decides, and makes at most one request that acts: `mkdir`, or
`open` with the flags that the daemon makes of an open mode.  Between the two, other callers act.

A `Race` is any number of callers of `create_file` in any order, on a kernel of which it is assumed
that `mkdir` and `open` do what POSIX says when they succeed, and nothing when they fail.  Its log
has one `Deed` for every request that was answered, with the state of the kernel on both sides, so
that whatever is said of every deed is said of every change.
-/

namespace NandroidFS

open Operations

/-! ## The calls that create -/

/-- **The calls that create, on a POSIX kernel** whose state has a tree. -/
structure PosixCreation {K : Type} (call : Kernel K) where
  tree : K → Tree
  stat_tree : ∀ k path, tree (call (.stat path) k).2 = tree k
  mkdir_ok : ∀ k path mode, (call (.mkdir path mode) k).1 = .ok () →
    (tree k).Mkdir path (tree (call (.mkdir path mode) k).2)
  mkdir_error : ∀ k path mode e, (call (.mkdir path mode) k).1 = .error e →
    tree (call (.mkdir path mode) k).2 = tree k
  open_ok : ∀ k path flags mode fd, (call (.openFile path flags mode) k).1 = .ok fd →
    (tree k).Opens path flags.how (tree (call (.openFile path flags mode) k).2)
  open_error : ∀ k path flags mode e, (call (.openFile path flags mode) k).1 = .error e →
    tree (call (.openFile path flags mode) k).2 = tree k

namespace PosixCreation

variable {K : Type} {call : Kernel K} (px : PosixCreation call)

theorem serve_statFile (path : ByteString) (k : K) :
    px.tree (serve call (.statFile path) k).2 = px.tree k :=
  px.stat_tree k _

/-- A request to make a directory fails and does nothing, or succeeds and makes it. -/
theorem serve_createDirectory (path : ByteString) (k : K) :
    (serve call (.createDirectory path) k).1.reply.code ≠ .success ∧
        px.tree (serve call (.createDirectory path) k).2 = px.tree k ∨
      (px.tree k).Mkdir (cStr path) (px.tree (serve call (.createDirectory path) k).2) := by
  simp only [serve, report, Response.reply, Reply.code]
  rcases hmkdir : (call (.mkdir (cStr path) DEFAULT_DIRECTORY_MODE) k).1 with e | ⟨⟩
  · exact Or.inl ⟨getStatusFromErrno_ne_success e, px.mkdir_error _ _ _ e hmkdir⟩
  · exact Or.inr (px.mkdir_ok _ _ _ hmkdir)

/-- A request to open a file fails and does nothing, or opens it with the flags of its mode. -/
theorem serve_openHandle (args : OpenHandleArgs) (k : K) :
    (serve call (.openHandle args) k).1.reply.code ≠ .success ∧
        px.tree (serve call (.openHandle args) k).2 = px.tree k ∨
      ∃ access, (px.tree k).Opens (cStr args.path)
        (ClientHandler.creationFlags access args.mode).how
        (px.tree (serve call (.openHandle args) k).2) := by
  simp only [serve]
  rcases ClientHandler.accessFlag? args.readAccess args.writeAccess with _ | access
  · exact Or.inl ⟨ResponseStatus.noConfusion, rfl⟩
  · dsimp only
    rcases hopen : (call (.openFile (cStr args.path)
      (ClientHandler.creationFlags access args.mode) DEFAULT_FILE_MODE) k).1 with e | fd
    · exact Or.inl ⟨getStatusFromErrno_ne_success e, px.open_error _ _ _ _ e hopen⟩
    · exact Or.inr ⟨access, px.open_ok _ _ _ _ fd hopen⟩

end PosixCreation

/-! ## The race -/

/-- A `create_file` under way. -/
structure Caller where
  args : CreateArgs
  program : OpM (NtStatus × FileInfo)

/-- A request of a `create_file`: the kernel before and after it, and what `create_file` returned if
it was its last. -/
structure Deed (K : Type) where
  args : CreateArgs
  before : K
  after : K
  result : Option NtStatus

structure Race (K : Type) where
  kernel : K
  callers : ℕ → Option Caller
  log : List (Deed K)

section Race

variable {K : Type} (call : Kernel K)

/-- How a call may be answered.  The daemon answers it, unless the client does so by itself: a stat
may be any that was cached, and a file of a certain name is not opened at all. -/
inductive Answered : Call → K → Reply → K → Prop
  | daemon (c : Call) (k : K) :
      Answered c k (serve call c.request k).1.reply (serve call c.request k).2
  | cached (path : WString) (stat : FileStat) (k : K) : Answered (.statFile path) k (.stat stat) k
  | absent (path : WString) (k : K) : Answered (.statFile path) k (.status .fileNotFound) k
  | refused (path : WString) (mode : OpenMode) (readAccess writeAccess : Bool) (k : K) :
      Answered (.openFile path mode readAccess writeAccess) k (.status .genericFailure) k

namespace Race

def new (k : K) : Race K where
  kernel := k
  callers _ := none
  log := []

/-- A caller goes on after an answer that took the kernel to `k`. -/
def proceed (s : Race K) (t : ℕ) (args : CreateArgs) (k : K) :
    OpM (NtStatus × FileInfo) → Race K
  | .ret r =>
      { kernel := k
        callers := Function.update s.callers t none
        log := ⟨args, s.kernel, k, some r.1⟩ :: s.log }
  | .fail e => e.elim
  | .act c next =>
      { kernel := k
        callers := Function.update s.callers t (some ⟨args, .act c next⟩)
        log := ⟨args, s.kernel, k, none⟩ :: s.log }

inductive Step (s : Race K) : Race K → Prop
  | call {t : ℕ} (args : CreateArgs) (ht : s.callers t = none) :
      Step s { s with callers := Function.update s.callers t (some ⟨args, createFile args⟩) }
  | answer {t : ℕ} {args : CreateArgs} {c : Call} {next : Reply → OpM (NtStatus × FileInfo)}
      {reply : Reply} {k : K} (ht : s.callers t = some ⟨args, .act c next⟩)
      (hanswer : Answered call c s.kernel reply k) :
      Step s (s.proceed t args k (next reply))
  /-- An exception ends the callback.  The request may have been carried out or not. -/
  | broken {t : ℕ} {args : CreateArgs} {c : Call} {next : Reply → OpM (NtStatus × FileInfo)}
      {k : K} (ht : s.callers t = some ⟨args, .act c next⟩)
      (hk : k = s.kernel ∨ k = (serve call c.request s.kernel).2) :
      Step s
        { kernel := k
          callers := Function.update s.callers t none
          log := ⟨args, s.kernel, k, some .unsuccessful⟩ :: s.log }

inductive Reachable (k : K) : Race K → Prop
  | new : Reachable k (new k)
  | step {s s' : Race K} (hs : Reachable k s) (hstep : Step call s s') : Reachable k s'

end Race

end Race

/-! ## What `create_file` asks for -/

/-- The open mode that a disposition becomes. -/
def openMode? : Disposition → Option OpenMode
  | .createAlways => some .createOrTruncate
  | .createNew => some .createAlways
  | .openAlways => some .createIfNotExist
  | .openExisting => some .openOnly
  | .truncateExisting => some .truncate
  | .unknown _ => none

/-- The dispositions with which `create_file` makes a directory. -/
def makesDirectory (d : Disposition) : Prop :=
  d = .openAlways ∨ d = .createNew ∨ d = .createAlways

/-- What a stat may be answered with. -/
def Reply.FitsStat (reply : Reply) : Prop :=
  (∃ stat, reply = .stat stat) ∨ ∃ status, reply = .status status ∧ status ≠ .success

/-- **The requests of `create_file`.**  It asks for the stat of its path; then it makes a directory
there, or opens a file there in the mode of its disposition, and returns.  It reports a success only
if the request succeeded. -/
def Attempts {α : Type} (args : CreateArgs) (status : α → NtStatus) : OpM α → Prop
  | .ret a => args.disposition = .createNew → status a ≠ .success
  | .fail _ => True
  | .act (.statFile _) next =>
      ∀ reply : Reply, reply.FitsStat → Attempts args status (next reply)
  | .act (.createDirectory path) next => path = args.fileName ∧ makesDirectory args.disposition ∧
      ∀ reply, ∃ a, next reply = .ret a ∧ (status a = .success → reply.code = .success)
  | .act (.openFile path mode _ _) next => path = args.fileName ∧
      openMode? args.disposition = some mode ∧
      ∀ reply, ∃ a, next reply = .ret a ∧ (status a = .success → reply.code = .success)
  | .act _ _ => False

section Attempts

variable {α β : Type} {args : CreateArgs} {status : α → NtStatus} {status' : β → NtStatus}

theorem Attempts.bind_ret {p : OpM α} (hp : Attempts args status p) {f : α → β}
    (hf : ∀ a, status' (f a) = status a) :
    Attempts args status' (p >>= fun a => Prog.ret (f a)) := by
  have answered {next : Reply → OpM α}
      (h : ∀ reply, ∃ a, next reply = .ret a ∧ (status a = .success → reply.code = .success))
      (reply : Reply) : ∃ b, (next reply >>= fun a => Prog.ret (f a)) = .ret b ∧
        (status' b = .success → reply.code = .success) := by
    obtain ⟨a, ha, hsuccess⟩ := h reply
    refine ⟨f a, ?_, fun h => hsuccess ((hf a).symm.trans h)⟩
    rw [ha]
    rfl
  induction p with
  | ret a => exact fun hnew h => hp hnew ((hf a).symm.trans h)
  | fail e => trivial
  | act c next ih =>
    cases c with
    | statFile path => exact fun reply hreply => ih reply (hp reply hreply)
    | createDirectory path => exact ⟨hp.1, hp.2.1, answered hp.2.2⟩
    | openFile path mode readAccess writeAccess => exact ⟨hp.1, hp.2.1, answered hp.2.2⟩
    | _ => exact hp.elim

theorem ntstatusFromRespstatus_eq_success {s : ResponseStatus}
    (h : ntstatusFromRespstatus s = .success) : s = .success := by
  cases s with
  | success => rfl
  | _ => cases h

theorem attempts_createDirectory_bind {f : Reply → OpM α} (hdir : makesDirectory args.disposition)
    (hf : ∀ reply, ∃ a, f reply = .ret a ∧ (status a = .success → reply.code = .success)) :
    Attempts args status (request (.createDirectory args.fileName) >>= f) :=
  ⟨rfl, hdir, hf⟩

theorem attempts_openFile_bind {mode : OpenMode} {readAccess writeAccess : Bool}
    {f : Reply → OpM α} (hmode : openMode? args.disposition = some mode)
    (hf : ∀ reply, ∃ a, f reply = .ret a ∧ (status a = .success → reply.code = .success)) :
    Attempts args status (request (.openFile args.fileName mode readAccess writeAccess) >>= f) :=
  ⟨rfl, hmode, hf⟩

theorem attempts_openOnDevice {mode : OpenMode} (hmode : openMode? args.disposition = some mode)
    (fileExists : Bool) (ctx : FileContext) :
    Attempts args Prod.fst
      (openOnDevice args.fileName args.disposition fileExists mode ctx) := by
  refine attempts_openFile_bind hmode fun reply => ?_
  cases reply with
  | opened handle =>
    dsimp only
    split
    · exact ⟨_, rfl, fun _ => rfl⟩
    · exact ⟨_, rfl, fun _ => rfl⟩
  | _ => exact ⟨_, rfl, fun h => ntstatusFromRespstatus_eq_success h⟩

theorem attempts_handleCreateFile (fileExists : Bool) (ctx : FileContext) :
    Attempts args Prod.fst
      (handleCreateFile args.fileName args.disposition fileExists ctx) := by
  have hopen (mode : OpenMode) (hmode : openMode? args.disposition = some mode) :=
    attempts_openOnDevice hmode fileExists ctx
  have hreturn (r : NtStatus × FileContext) (hd : args.disposition ≠ .createNew) :
      Attempts args Prod.fst (.ret r) := fun hnew => (hd hnew).elim
  cases hd : args.disposition with
  | createAlways =>
    rw [hd] at hopen
    exact hopen _ rfl
  | createNew =>
    rw [hd] at hopen
    exact hopen _ rfl
  | openAlways =>
    rw [hd] at hopen hreturn
    simp only [handleCreateFile]
    split
    · exact hreturn _ Disposition.noConfusion
    · exact hopen _ rfl
  | openExisting =>
    rw [hd] at hopen hreturn
    simp only [handleCreateFile]
    split
    · exact hreturn _ Disposition.noConfusion
    · split
      · exact hreturn _ Disposition.noConfusion
      · exact hopen _ rfl
  | truncateExisting =>
    rw [hd] at hopen
    exact hopen _ rfl
  | unknown code =>
    rw [hd] at hreturn
    exact hreturn _ Disposition.noConfusion

theorem attempts_handleCreateDirectory (entryExists entryIsDirectory : Bool) :
    Attempts args id
      (handleCreateDirectory args.fileName args.disposition entryExists entryIsDirectory) := by
  rw [handleCreateDirectory]
  split
  · next hdir =>
    exact attempts_createDirectory_bind hdir
      fun reply => ⟨_, rfl, ntstatusFromRespstatus_eq_success⟩
  · next hdir =>
    have hnew : args.disposition ≠ .createNew := fun h => hdir (Or.inr (Or.inl h))
    repeat' split
    all_goals exact fun h => (hnew h).elim

theorem attempts_createEntry (args : CreateArgs) (info : FileInfo)
    (entryExists entryIsDirectory : Bool) :
    Attempts args Prod.fst (createEntry args info entryExists entryIsDirectory) := by
  rw [createEntry]
  split
  · exact fun _ => NtStatus.noConfusion
  · generalize (if entryExists && entryIsDirectory then { info with isDirectory := true }
      else info) = info'
    simp only
    split
    · exact (attempts_handleCreateDirectory _ _).bind_ret fun _ => rfl
    · exact (attempts_handleCreateFile _ _).bind_ret fun _ => rfl

theorem attempts_createFile (args : CreateArgs) : Attempts args Prod.fst (createFile args) := by
  show ∀ reply : Reply, reply.FitsStat → Attempts args Prod.fst _
  rintro reply (⟨stat, rfl⟩ | ⟨s, rfl, hs⟩)
  · exact attempts_createEntry args _ _ _
  · show Attempts args Prod.fst (if s = .fileNotFound then _ else _)
    split
    · exact attempts_createEntry args _ _ _
    · exact fun _ h => hs (ntstatusFromRespstatus_eq_success h)

end Attempts

/-! ## What a deed does -/

section Deeds

variable {K : Type} {call : Kernel K} (px : PosixCreation call)

/-- The path on the device. -/
def CreateArgs.path (args : CreateArgs) : ByteString :=
  cStr (win32PathToUnix args.fileName)

/-- **What `create_file` may do between two states of a tree**, for a disposition and a path. -/
structure Tree.Keeps (t t' : Tree) (disposition : Disposition) (path : ByteString) : Prop where
  /-- Nothing is lost. -/
  grows : t.Extends t'
  /-- `OPEN_EXISTING` and `TRUNCATE_EXISTING` make no entry. -/
  entries : disposition = .openExisting ∨ disposition = .truncateExisting → t'.shape = t.shape
  /-- `OPEN_EXISTING`, `OPEN_ALWAYS` and `CREATE_NEW` leave the contents of all files. -/
  contents : disposition = .openExisting ∨ disposition = .openAlways ∨ disposition = .createNew →
    t.KeepsFiles t'
  /-- A directory is left as it is, with everything else. -/
  directory : t.IsDirectory path → t' = t

theorem Tree.Keeps.refl (t : Tree) (disposition : Disposition) (path : ByteString) :
    t.Keeps t disposition path where
  grows := Extends.refl t
  entries _ := rfl
  contents _ := fun _ _ _ => id
  directory _ := rfl

theorem Tree.Mkdir.keeps {t t' : Tree} {path : ByteString} (h : t.Mkdir path t')
    {disposition : Disposition} (hdir : makesDirectory disposition) :
    t.Keeps t' disposition path where
  grows := h.extends
  entries hd := by
    rcases hd with rfl | rfl <;> rcases hdir with h | h | h <;> cases h
  contents _ := h.keepsFiles
  directory hd := (h.not_isDirectory hd).elim

theorem Tree.Opens.keeps {t t' : Tree} {path : ByteString} {access : AccessFlag} {mode : OpenMode}
    (h : t.Opens path (ClientHandler.creationFlags access mode).how t') {disposition : Disposition}
    (hmode : openMode? disposition = some mode) : t.Keeps t' disposition path where
  grows := h.extends
  entries hd := by
    refine h.shape_eq ?_
    rcases hd with rfl | rfl <;> cases hmode <;> rfl
  contents hd := by
    refine h.keepsFiles ?_
    rcases hd with rfl | rfl | rfl <;> cases hmode <;> rfl
  directory hd := h.eq_of_isDirectory hd

/-- The deed made `create_file` report that a new entry was created. -/
def Deed.Wins (d : Deed K) : Prop :=
  d.args.disposition = .createNew ∧ d.result = some .success

/-- **What holds of every deed.** -/
structure Deed.Safe (d : Deed K) : Prop where
  keeps : (px.tree d.before).Keeps (px.tree d.after) d.args.disposition d.args.path
  /-- `CREATE_NEW` succeeds only where there was no entry, and then there is one. -/
  createNew : d.Wins →
    ¬(px.tree d.before).Exists d.args.path ∧ (px.tree d.after).Exists d.args.path

variable {px} {args : CreateArgs} {k k' : K}

/-- A deed that leaves the tree alone, and does not win. -/
theorem Deed.safe_of_eq (htree : px.tree k' = px.tree k) {result : Option NtStatus}
    (hresult : args.disposition = .createNew → result ≠ some .success) :
    (⟨args, k, k', result⟩ : Deed K).Safe px where
  keeps := by
    show (px.tree k).Keeps (px.tree k') _ _
    rw [htree]
    exact Tree.Keeps.refl _ _ _
  createNew hwins := (hresult hwins.1 hwins.2).elim

/-- A request to make a directory. -/
theorem Deed.safe_createDirectory (px : PosixCreation call) (hdir : makesDirectory args.disposition)
    {result : NtStatus} (hresult : result = .success →
      (serve call (Call.createDirectory args.fileName).request k).1.reply.code = .success) :
    (⟨args, k, (serve call (Call.createDirectory args.fileName).request k).2,
      some result⟩ : Deed K).Safe px := by
  obtain ⟨hcode, htree⟩ | hdid := px.serve_createDirectory (win32PathToUnix args.fileName) k
  · exact safe_of_eq htree fun _ heq => hcode (hresult (Option.some.inj heq))
  · exact ⟨hdid.keeps hdir, fun _ => ⟨hdid.not_exists, hdid.exists⟩⟩

/-- A request to open a file. -/
theorem Deed.safe_openFile (px : PosixCreation call) {mode : OpenMode}
    (hmode : openMode? args.disposition = some mode) {readAccess writeAccess : Bool}
    {result : NtStatus} (hresult : result = .success →
      (serve call (Call.openFile args.fileName mode readAccess writeAccess).request
        k).1.reply.code = .success) :
    (⟨args, k, (serve call (Call.openFile args.fileName mode readAccess writeAccess).request k).2,
      some result⟩ : Deed K).Safe px := by
  obtain ⟨hcode, htree⟩ | ⟨access, hdid⟩ := px.serve_openHandle
    ⟨win32PathToUnix args.fileName, mode, readAccess, writeAccess⟩ k
  · exact safe_of_eq htree fun _ heq => hcode (hresult (Option.some.inj heq))
  · refine ⟨hdid.keeps hmode, fun hwins => ?_⟩
    have hnew : mode = .createAlways := by
      rw [hwins.1] at hmode
      exact (Option.some.inj hmode).symm
    subst hnew
    exact ⟨hdid.not_exists rfl rfl, hdid.exists rfl rfl⟩

/-- A stat is answered by a stat or by a failure, and changes nothing. -/
theorem Answered.statFile (px : PosixCreation call) {path : WString} {reply : Reply}
    (h : Answered call (.statFile path) k reply k') :
    reply.FitsStat ∧ px.tree k' = px.tree k := by
  cases h with
  | daemon =>
    refine ⟨?_, px.serve_statFile _ k⟩
    have hfits := serve_answers call (Call.statFile path).request k
    generalize (serve call (Call.statFile path).request k).1 = r at hfits ⊢
    cases r with
    | status s => exact Or.inr ⟨s, rfl, hfits⟩
    | stat st => exact Or.inl ⟨st, rfl⟩
    | _ => exact hfits.elim
  | cached path stat k => exact ⟨Or.inl ⟨stat, rfl⟩, rfl⟩
  | absent path k => exact ⟨Or.inr ⟨_, rfl, ResponseStatus.noConfusion⟩, rfl⟩

/-- **One answer**: a deed that is safe, after which the caller returns or is still one that keeps
to the requests of `create_file`. -/
theorem Answered.safe (px : PosixCreation call) {c : Call}
    {next : Reply → OpM (NtStatus × FileInfo)} (hc : Attempts args Prod.fst (.act c next))
    {reply : Reply} (h : Answered call c k reply k') :
    (∃ r, next reply = .ret r ∧ (⟨args, k, k', some r.1⟩ : Deed K).Safe px) ∨
      ∃ c' next', next reply = .act c' next' ∧ Attempts args Prod.fst (.act c' next') ∧
        (⟨args, k, k', none⟩ : Deed K).Safe px := by
  cases c with
  | statFile path =>
    obtain ⟨hfits, htree⟩ := h.statFile px
    have hnext : Attempts args Prod.fst (next reply) := hc reply hfits
    cases hp : next reply with
    | ret r =>
      rw [hp] at hnext
      exact Or.inl ⟨r, rfl, Deed.safe_of_eq htree fun hnew heq => hnext hnew (Option.some.inj heq)⟩
    | fail e => exact e.elim
    | act c' next' =>
      rw [hp] at hnext
      refine Or.inr ⟨c', next', rfl, hnext, Deed.safe_of_eq htree fun _ heq => ?_⟩
      cases heq
  | createDirectory path =>
    obtain ⟨rfl, hdir, hret⟩ := hc
    obtain ⟨r, hr, hsuccess⟩ := hret reply
    cases h with
    | daemon => exact Or.inl ⟨r, hr, Deed.safe_createDirectory px hdir hsuccess⟩
  | openFile path mode readAccess writeAccess =>
    obtain ⟨rfl, hmode, hret⟩ := hc
    obtain ⟨r, hr, hsuccess⟩ := hret reply
    cases h with
    | daemon => exact Or.inl ⟨r, hr, Deed.safe_openFile px hmode hsuccess⟩
    | refused =>
      refine Or.inl ⟨r, hr, Deed.safe_of_eq rfl fun _ heq => ?_⟩
      cases hsuccess (Option.some.inj heq)
  | _ => exact hc.elim

/-- A request whose answer is lost. -/
theorem Deed.safe_broken (px : PosixCreation call) {c : Call}
    {next : Reply → OpM (NtStatus × FileInfo)} (hc : Attempts args Prod.fst (.act c next))
    (hk : k' = k ∨ k' = (serve call c.request k).2) :
    (⟨args, k, k', some .unsuccessful⟩ : Deed K).Safe px := by
  obtain rfl | rfl := hk
  · exact safe_of_eq rfl fun _ heq => by cases heq
  · -- whatever the answer says, the daemon has done the same
    obtain ⟨r, -, hsafe⟩ | ⟨c', next', -, -, hsafe⟩ := (Answered.daemon c k).safe px hc
    · exact ⟨hsafe.keeps, fun hwins => by cases hwins.2⟩
    · exact ⟨hsafe.keeps, fun hwins => by cases hwins.2⟩

namespace Race

variable {s s' : Race K}

/-- The two deeds do not both report a new entry at one path. -/
def Compatible (d d' : Deed K) : Prop :=
  ¬(d.Wins ∧ d'.Wins ∧ d.args.path = d'.args.path)

/-- **The invariant of a race.**  What was once created is still there. -/
structure Inv (px : PosixCreation call) (s : Race K) : Prop where
  callers : ∀ t c, s.callers t = some c → Attempts c.args Prod.fst c.program
  safe : ∀ d ∈ s.log, d.Safe px
  won : ∀ d ∈ s.log, d.Wins → (px.tree s.kernel).Exists d.args.path
  once : s.log.Pairwise Compatible

theorem inv_new (px : PosixCreation call) (k : K) : Inv px (new k) where
  callers t c ht := by cases ht
  safe d hd := (List.not_mem_nil hd).elim
  won d hd := (List.not_mem_nil hd).elim
  once := List.Pairwise.nil

/-- A deed is added. -/
theorem Inv.add {px : PosixCreation call} (hs : Inv px s) {callers : ℕ → Option Caller}
    (hcallers : ∀ t c, callers t = some c → Attempts c.args Prod.fst c.program)
    {result : Option NtStatus} (hd : (⟨args, s.kernel, k', result⟩ : Deed K).Safe px) :
    Inv px ⟨k', callers, ⟨args, s.kernel, k', result⟩ :: s.log⟩ where
  callers := hcallers
  safe := List.forall_mem_cons.mpr ⟨hd, hs.safe⟩
  won := by
    refine List.forall_mem_cons.mpr ⟨fun hwins => (hd.createNew hwins).2, fun d hmem hwins => ?_⟩
    exact hd.keeps.grows.exists (hs.won d hmem hwins)
  once := by
    refine List.pairwise_cons.mpr ⟨fun d hmem ⟨hwins, hwins', hpath⟩ => ?_, hs.once⟩
    refine (hd.createNew hwins).1 ?_
    rw [hpath]
    exact hs.won d hmem hwins'

theorem Inv.step {px : PosixCreation call} (hs : Inv px s) (hstep : Step call s s') :
    Inv px s' := by
  have update {t : ℕ} {caller : Option Caller}
      (hcaller : ∀ c, caller = some c → Attempts c.args Prod.fst c.program) (t' : ℕ) (c : Caller)
      (h : Function.update s.callers t caller t' = some c) :
      Attempts c.args Prod.fst c.program := by
    by_cases ht : t' = t
    · rw [ht, Function.update_self] at h
      exact hcaller c h
    · rw [Function.update_of_ne ht] at h
      exact hs.callers t' c h
  cases hstep with
  | call args ht =>
    refine ⟨update fun c hc => ?_, hs.safe, hs.won, hs.once⟩
    obtain rfl := Option.some.inj hc
    exact attempts_createFile args
  | answer ht hanswer =>
    obtain ⟨r, hr, hsafe⟩ | ⟨c', next', hnext, hattempts, hsafe⟩ :=
      hanswer.safe px (hs.callers _ _ ht)
    · rw [hr]
      exact hs.add (update fun c hc => by cases hc) hsafe
    · rw [hnext]
      refine hs.add (update fun c hc => ?_) hsafe
      obtain rfl := Option.some.inj hc
      exact hattempts
  | broken ht hk =>
    exact hs.add (update fun c hc => by cases hc) (Deed.safe_broken px (hs.callers _ _ ht) hk)

end Race

end Deeds

/-! ## On a device -/

namespace TreeDevice

variable {s s' : TreeDevice} {path : ByteString} {how : Tree.OpenHow}

theorem create_eq_some {d : ℕ} {name : Name} {node : Node} (h : s.create d name node = some s') :
    s.tree.allows d Rights.write ∧ s.tree.nodes s.next = none ∧
      s'.tree = s.tree.addEntry d name s.next node := by
  rw [create] at h
  split at h
  · next hwrite =>
    obtain rfl := Option.some.inj h
    exact ⟨hwrite.1, hwrite.2, rfl⟩
  · cases h

theorem mkdir_of_ok (h : (s.mkdir path).1 = .ok ()) : s.tree.Mkdir path (s.mkdir path).2.tree := by
  rcases hres : s.tree.resolve false (trimSlashes path) with _ | i | ⟨d, name⟩
  · simp [mkdir, hres] at h
  · simp [mkdir, hres] at h
  · rcases hcreate : s.create d name (.dir d newRights []) with _ | s'
    · simp [mkdir, hres, hcreate] at h
    · obtain ⟨hwrite, hfresh, htree⟩ := create_eq_some hcreate
      simp only [mkdir, hres, hcreate, htree]
      exact .mk newRights hres hwrite hfresh

theorem mkdir_of_error {e : Errno} (h : (s.mkdir path).1 = .error e) : (s.mkdir path).2 = s := by
  rcases hres : s.tree.resolve false (trimSlashes path) with _ | i | ⟨d, name⟩
  · simp [mkdir, hres]
  · simp [mkdir, hres]
  · rcases hcreate : s.create d name (.dir d newRights []) with _ | s'
    · simp [mkdir, hres, hcreate]
    · simp [mkdir, hres, hcreate] at h

theorem opens_of_ok (h : s.opens path how = .ok s') : s.tree.Opens path how s'.tree := by
  rw [opens] at h
  split at h
  · cases h
  · next d name hres =>
    split at h
    · next hcreat =>
      split at h
      · next s'' hcreate =>
        obtain rfl := Except.ok.inj h
        obtain ⟨hwrite, hfresh, htree⟩ := create_eq_some hcreate
        rw [hcreat, Bool.true_and] at hres
        rw [htree]
        exact .created newRights hcreat hres hwrite hfresh
      · cases h
    · cases h
  · next i hres =>
    split at h
    · cases h
    · next hexcl =>
      rw [Bool.not_eq_true] at hexcl
      rw [hexcl] at hres
      split at h
      · next rights bytes hi =>
        split at h
        · next hpermits =>
          obtain rfl := Except.ok.inj h
          exact .file (by simpa using hexcl) hres hi hpermits
        · cases h
      · next parent rights entries hi =>
        split at h
        · next hplain =>
          obtain rfl := Except.ok.inj h
          simp only [Bool.and_eq_true, Bool.not_eq_true'] at hplain
          obtain ⟨⟨⟨hcreat, htrunc⟩, hwrite⟩, hread⟩ := hplain
          have hentries : s.tree.entries? i = some entries := by rw [Tree.entries?, hi]
          have hallows : s.tree.allows i Rights.read := by
            rw [Tree.allows, hi]
            exact hread
          exact .directory hcreat htrunc hwrite hres hentries hallows
        · cases h
      · cases h

theorem openFile_of_ok {fd : Fd} (h : (s.openFile path how).1 = .ok fd) :
    s.tree.Opens path how (s.openFile path how).2.tree := by
  rcases hfd : fd? (s.descriptors + 3) with _ | fd'
  · simp [openFile, hfd] at h
  · rcases hopens : s.opens path how with e | s'
    · simp [openFile, hfd, hopens] at h
    · simp only [openFile, hfd, hopens]
      exact opens_of_ok hopens

theorem openFile_of_error {e : Errno} (h : (s.openFile path how).1 = .error e) :
    (s.openFile path how).2 = s := by
  rcases hfd : fd? (s.descriptors + 3) with _ | fd'
  · simp [openFile, hfd]
  · rcases hopens : s.opens path how with e | s'
    · simp [openFile, hfd, hopens]
    · simp [openFile, hfd, hopens] at h

/-- What is assumed of a kernel holds of the device. -/
def creation : PosixCreation kernel where
  tree := tree
  stat_tree _ _ := rfl
  mkdir_ok _ _ _ := mkdir_of_ok
  mkdir_error _ _ _ _ h := congrArg tree (mkdir_of_error h)
  open_ok _ _ _ _ _ := openFile_of_ok
  open_error _ _ _ _ _ h := congrArg tree (openFile_of_error h)

/-- `CREATE_NEW` of `/a/f`, for reading and writing. -/
def createNew : CreateArgs where
  fileName := [92, 97, 92, 102]
  genericRead := true
  genericWrite := true
  deleteOnClose := false
  disposition := .createNew
  nonDirectoryFile := false
  isDirectory := false

end TreeDevice

end NandroidFS
