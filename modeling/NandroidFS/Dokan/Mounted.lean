import Mathlib.Algebra.BigOperators.Group.Finset.Basic
import Mathlib.Algebra.Order.BigOperators.Group.Finset
import NandroidFS.Streams.Runs
import NandroidFS.Dokan.Descriptors
import NandroidFS.Protocol.Session

/-!
# A mounted drive

The callbacks of Dokan in any number of threads, on the connection that they share: a thread that
comes to a call looks into the caches, waits for the mutex, runs the locked part of the method
through the client's buffers and the sockets, and goes on with what the method has returned.  The
daemon moves through its own buffers meanwhile.  Nothing here is atomic but one receive, one send
and one system call.

`Drive` takes a call and its answer for one step, and `Session` knows nothing of callbacks.
`Mounted` is both at once:

* `linearizes`: what the callbacks see is a run of `Drive`, in which every answer that did not come
  from a cache is the answer of the device at one moment, in the order of the history; no method
  throws.
* `finishes`: without new callbacks no run is infinite, and it ends when no callback is under way,
  if no call asks for what the protocol cannot carry.  No thread waits for the mutex for ever, and
  no two wait for each other.
-/

namespace NandroidFS

open Operations

/-! ## The descriptors of the device -/

section Device

variable {K : Type} {call : Kernel K}

/-- **What POSIX says of descriptors**: `open` returns one that was not open, and only `close` makes
one free. -/
structure DescriptorTable (call : Kernel K) where
  isOpen : K → FileHandle → Prop
  fresh : ∀ {path flags mode k fd}, (call (.openFile path flags mode) k).1 = .ok fd →
    ¬isOpen k fd.1.toUInt32 ∧ isOpen (call (.openFile path flags mode) k).2 fd.1.toUInt32
  kept : ∀ {e : Syscall} {k handle}, e ≠ .close handle.toInt32 → isOpen k handle →
    isOpen (call e k).2 handle

variable {Q : K → Prop} {fd : Int32}
  (hQ : ∀ (e : Syscall) (k : K), e ≠ .close fd → Q k → Q (call e k).2)

include hQ

theorem keeps_listItems (directoryPath : ByteString) (names : List EntryName) {k : K} (hk : Q k) :
    Q (listItems call directoryPath names k).2 := by
  induction names generalizing k with
  | nil => exact hk
  | cons name names ih => exact ih (hQ _ _ Syscall.noConfusion hk)

theorem keeps_readAll (fd' : Int32) (rounds left : ℕ) {k : K} (hk : Q k) :
    Q (readAll call fd' rounds left k).2 := by
  induction rounds generalizing left k with
  | zero => exact hk
  | succ rounds ih =>
    have hread := hQ (.read fd' left) k Syscall.noConfusion hk
    rw [readAll]
    by_cases hleft : left = 0
    · rw [if_pos hleft]
      exact hk
    · rw [if_neg hleft]
      simp only
      rcases (call (.read fd' left) k).1 with e | bs
      · exact hread
      · simp only
        by_cases hempty : bs.1.length = 0
        · rw [if_pos hempty]
          exact hread
        · rw [if_neg hempty]
          exact ih _ hread

theorem keeps_writeAll (fd' : Int32) (rounds : ℕ) (data : List UInt8) {k : K} (hk : Q k) :
    Q (writeAll call fd' rounds data k).2 := by
  induction rounds generalizing data k with
  | zero => exact hk
  | succ rounds ih =>
    have hwrite := hQ (.write fd' data) k Syscall.noConfusion hk
    rw [writeAll]
    by_cases hdata : data = []
    · rw [if_pos hdata]
      exact hk
    · rw [if_neg hdata]
      simp only
      rcases (call (.write fd' data) k).1 with e | n
      · exact hwrite
      · exact ih _ hwrite

/-- **What every call but one `close` keeps, a request keeps**, unless it is to close just that
descriptor. -/
theorem keeps_serve {q : Request} (hq : ∀ handle, q = .closeHandle handle → handle.toInt32 ≠ fd)
    {k : K} (hk : Q k) : Q (serve call q k).2 := by
  cases q with
  | statFile path => exact hQ _ _ Syscall.noConfusion hk
  | listDirectory path =>
    have hdir := hQ (.opendir (cStr path)) k Syscall.noConfusion hk
    simp only [serve]
    rcases (call (.opendir (cStr path)) k).1 with e | names
    · exact hdir
    · exact keeps_listItems hQ path names hdir
  | createDirectory path => exact hQ _ _ Syscall.noConfusion hk
  | checkRemoveFile path =>
    simp only [serve, canRemove]
    rcases getParentPath path with _ | parent
    · exact hk
    · exact hQ _ _ Syscall.noConfusion hk
  | checkRemoveDirectory path =>
    have hcan : Q (canRemove call path k).2 := by
      rw [canRemove]
      rcases getParentPath path with _ | parent
      · exact hk
      · exact hQ _ _ Syscall.noConfusion hk
    simp only [serve]
    split
    · exact hcan
    · exact hQ _ _ Syscall.noConfusion hcan
  | removeFile path => exact hQ _ _ Syscall.noConfusion hk
  | removeDirectory path => exact hQ _ _ Syscall.noConfusion hk
  | moveEntry args =>
    have hstat := hQ (.stat (cStr args.toPath)) k Syscall.noConfusion hk
    have hrename :=
      hQ (.rename (cStr args.fromPath) (cStr args.toPath)) _ Syscall.noConfusion hstat
    simp only [serve]
    rcases (call (.stat (cStr args.toPath)) k).1 with e | existing
    · simp only
      split
      · exact hrename
      · exact hstat
    · simp only
      split
      · exact hrename
      · exact hstat
  | openHandle args =>
    simp only [serve]
    rcases ClientHandler.accessFlag? args.readAccess args.writeAccess with _ | access
    · exact hk
    · exact hQ _ _ Syscall.noConfusion hk
  | closeHandle handle =>
    refine hQ _ _ (fun heq => ?_) hk
    exact hq handle rfl (Syscall.close.inj heq)
  | readHandle args =>
    have hseek := hQ (.lseek args.handle.toInt32 args.offset.toInt64) k Syscall.noConfusion hk
    simp only [serve]
    rcases (call (.lseek args.handle.toInt32 args.offset.toInt64) k).1 with e | ⟨⟩
    · exact hseek
    · exact keeps_readAll hQ _ _ _ hseek
  | writeHandle handle offset data =>
    have hseek := hQ (.lseek handle.toInt32 offset.toInt64) k Syscall.noConfusion hk
    simp only [serve]
    rcases (call (.lseek handle.toInt32 offset.toInt64) k).1 with e | ⟨⟩
    · exact hseek
    · exact keeps_writeAll hQ _ _ _ hseek
  | truncateHandle args => exact hQ _ _ Syscall.noConfusion hk
  | setFileTime args => exact hQ _ _ Syscall.noConfusion hk
  | getDiskStats => exact hQ _ _ Syscall.noConfusion hk

omit hQ in
/-- A request that opens a descriptor is one `open`. -/
theorem open_of_opened? {c : Call} {k : K} {fd : FileHandle}
    (h : c.opened? (serve call c.request k).1.reply = some fd) :
    ∃ path flags mode fd', (call (.openFile path flags mode) k).1 = .ok fd' ∧
      fd = fd'.1.toUInt32 ∧
      (serve call c.request k).2 = (call (.openFile path flags mode) k).2 := by
  cases c with
  | openFile path mode readAccess writeAccess =>
    rcases haccess : ClientHandler.accessFlag? readAccess writeAccess with _ | access
    · simp only [Call.request, serve, haccess] at h
      cases h
    · rcases hopen : (call (.openFile (cStr (win32PathToUnix path))
          (ClientHandler.creationFlags access mode) DEFAULT_FILE_MODE) k).1 with e | fd'
      · simp only [Call.request, serve, haccess, hopen] at h
        cases h
      · simp only [Call.request, serve, haccess, hopen] at h ⊢
        exact ⟨_, _, _, fd', hopen, (Option.some.inj h).symm, rfl⟩
  | _ => cases h

end Device

/-! ## The drive and its connection -/

/-- The callbacks and the connection that they share. -/
structure Mounted (K W : Type) where
  drive : Drive
  session : Session K W

namespace Mounted

variable {K W : Type}

/-- The caches answer the call before the mutex is taken. -/
def Cached (P : Setup K W) (c : Call) (reply : Reply) : Prop :=
  ∃ w w', StreamM.Receives P.world c.unlocked w [] (some reply) w'

/-- A thread has taken the mutex for its call. -/
def acquired (P : Setup K W) (s : Session K W) (t : ℕ) (c : Call) (w : W) (rounds : ℕ)
    (endpoint : Endpoint) : Session K W :=
  { s with
    holder := .held t c w (StreamM.compile (c.locked P.clientHost rounds) endpoint)
    clientWorld := w }

/-- The method that holds the mutex ends. -/
def released (s : Session K W) (endpoint : Endpoint) (e : Completed W) : Session K W :=
  { s with holder := .free endpoint, history := s.history ++ [e] }

/-- The thread goes on with the answer to its call. -/
def answered (d : Drive) (t i : ℕ) (c : Call) (next : Reply → OpM Ending) (reply : Reply) : Drive :=
  (d.record ⟨i, c, reply⟩).proceed t i (next reply)

/-- A step of what is under way. -/
inductive Turn (P : Setup K W) (Allowed : List (Completed W) → Call → W → ℕ → Prop) :
    Mounted K W → Mounted K W → Prop
  /-- The caches have the answer. -/
  | cached {s : Mounted K W} {t i : ℕ} {c : Call} {next : Reply → OpM Ending} {reply : Reply}
      (ht : s.drive.running t = some ⟨i, .act c next⟩)
      (hfree : ∀ c' w p, s.session.holder ≠ .held t c' w p) (hc : Cached P c reply) :
      Turn P Allowed s { s with drive := answered s.drive t i c next reply }
  /-- The caches do not, and the mutex is free. -/
  | acquire {s : Mounted K W} {t i : ℕ} {c : Call} {next : Reply → OpM Ending}
      {endpoint : Endpoint} (ht : s.drive.running t = some ⟨i, .act c next⟩)
      (hs : s.session.holder = .free endpoint) (w : W) (rounds : ℕ)
      (hc : Allowed s.session.history c w rounds) :
      Turn P Allowed s { s with session := acquired P s.session t c w rounds endpoint }
  /-- The holder of the mutex moves, or the daemon does. -/
  | work {s : Mounted K W} {session' : Session K W} (hw : Session.Work P s.session session')
      (hhistory : session'.history = s.session.history) :
      Turn P Allowed s { s with session := session' }
  /-- The method returns, and so does the mutex. -/
  | returned {s : Mounted K W} {t i : ℕ} {c c' : Call} {w : W} {next : Reply → OpM Ending}
      {reply : Reply} {endpoint : Endpoint}
      (hs : s.session.holder = .held t c w (.ret (.ok reply, endpoint)))
      (ht : s.drive.running t = some ⟨i, .act c' next⟩) :
      Turn P Allowed s ⟨answered s.drive t i c' next reply,
        released s.session endpoint ⟨t, c, w, .ok reply⟩⟩

/-- A step: what is under way moves, or Dokan calls a callback.  `Begins` says which it calls. -/
inductive Step (P : Setup K W) (Begins : Drive → Drive.Action → Prop)
    (Allowed : List (Completed W) → Call → W → ℕ → Prop) : Mounted K W → Mounted K W → Prop
  | begins {s : Mounted K W} {a : Drive.Action} {drive' : Drive} (ha : Begins s.drive a)
      (hnew : ∀ t reply, a ≠ .answer t reply) (hd : Drive.Step s.drive a drive') :
      Step P Begins Allowed s { s with drive := drive' }
  | turn {s s' : Mounted K W} (h : Turn P Allowed s s') : Step P Begins Allowed s s'

/-- **The order of the answers.**  The mutex has put all of them in the order of the history, but
for those that came from the caches. -/
inductive Logged (P : Setup K W) : List Drive.Event → List (Completed W) → Prop
  | nil : Logged P [] []
  | cached {log : List Drive.Event} {history : List (Completed W)} (i : ℕ) {c : Call}
      {reply : Reply} (h : Logged P log history) (hc : Cached P c reply) :
      Logged P (⟨i, c, reply⟩ :: log) history
  | served {log : List Drive.Event} {history : List (Completed W)} (t i : ℕ) (c : Call) (w : W)
      (reply : Reply) (h : Logged P log history) :
      Logged P (⟨i, c, reply⟩ :: log) (history ++ [⟨t, c, w, .ok reply⟩])

/-! ## Answers that need no daemon -/

/-- Neither a stat nor a listing opens a descriptor or closes one. -/
theorem Cached.opens_nothing {P : Setup K W} {c : Call} {reply : Reply} (h : Cached P c reply) :
    c.opened? reply = none ∧ c.closes? = none := by
  obtain ⟨w, w', hrun⟩ := h
  have hnone : c.unlocked = (return none : ConnM (Option Reply)) →
      c.opened? reply = none ∧ c.closes? = none := by
    intro heq
    have h := congrArg Prod.fst (hrun false ⟨[], [], true, w⟩ [] rfl rfl)
    rw [heq] at h
    cases h
  cases c with
  | statFile path => exact ⟨rfl, rfl⟩
  | listFileStats path => exact ⟨rfl, rfl⟩
  | _ => exact hnone rfl

/-- Nor does a call that is answered under the mutex without the daemon. -/
theorem opens_nothing_of_quiet {P : Setup K W} {c : Call} {w w' : W} {rounds : ℕ} {reply : Reply}
    (hquiet : c.Quiet P.world w)
    (h : StreamM.Receives P.world (c.locked P.clientHost rounds) w [] reply w') :
    c.opened? reply = none := by
  cases c with
  | openFile path mode readAccess writeAccess =>
    have hini : Connection.endsWithDesktopIni (win32PathToUnix path) = true := hquiet
    have hrun := congrArg Prod.fst (h false ⟨[], [], true, w⟩ [] rfl rfl)
    simp only [Call.locked, Connection.reqOpenFile] at hrun
    rw [if_pos hini] at hrun
    obtain rfl : Reply.status .genericFailure = reply := Outcome.done.inj hrun
    rfl
  | _ => rfl

theorem closes?_of_quiet {P : Setup K W} {c : Call} {w : W} (hquiet : c.Quiet P.world w) :
    c.closes? = none := by
  cases c with
  | closeFile handle => exact hquiet.elim
  | _ => rfl

/-- A method that needs no daemon is on its way to an answer that opens nothing. -/
def Prompt (P : Setup K W) (s : Session K W) : Prop :=
  ∀ t c w p, s.holder = .held t c w p → c.Quiet P.world w → ∃ sent,
    SocketM.Safe P.world false (fun x _ _ _ => ∃ reply, x.1 = .ok reply ∧ c.opened? reply = none) p
      s.clientWorld s.toClient sent

variable {P : Setup K W}

theorem safe_locked_of_quiet {c : Call} {w : W} (hquiet : c.Quiet P.world w) {endpoint : Endpoint}
    (hidle : endpoint.Idle) (rounds : ℕ) :
    SocketM.Safe P.world false (fun x _ _ _ => ∃ reply, x.1 = .ok reply ∧ c.opened? reply = none)
      (StreamM.compile (c.locked P.clientHost rounds) endpoint) w [] [] := by
  obtain ⟨reply, w', hreceives⟩ := c.receives_of_quiet P.clientHost hquiet rounds
  have hrun := hreceives false (endpoint.view w [] []) []
    (by rw [Endpoint.view, hidle.reader]) rfl
  refine (StreamM.safe_compile _ (endpoint.shows_view w [] []) hrun (by simp)).mono ?_
  rintro x w₁ i o ⟨hx, -⟩
  exact ⟨reply, Session.ofExcept_eq_done hx, opens_nothing_of_quiet hquiet hreceives⟩

/-- The daemon has nothing to say to a method that does not ask it. -/
theorem Prompt.work {s s' : Session K W} (h : Prompt P s) (hinv : Session.Inv P s)
    (hw : Session.Work P s s') : Prompt P s' := by
  intro t c w p hs' hquiet
  cases hw with
  | client hs hp =>
    obtain ⟨rfl, rfl, rfl, rfl⟩ := Holder.held.inj hs'
    obtain ⟨sent, hsafe⟩ := h _ _ _ _ hs hquiet
    obtain ⟨bs, -, hsafe'⟩ := hp.safe [] (by rwa [List.append_nil])
    rw [List.append_nil] at hsafe'
    exact ⟨_, hsafe'⟩
  | daemon hp =>
    obtain ⟨sent, hsafe⟩ := h _ _ _ _ hs' hquiet
    obtain ⟨loops, hstage⟩ := hinv.stage
    cases hstage with
    | free hs => cases hs.symm.trans hs'
    | alone _ hs _ htoDaemon hd =>
      obtain ⟨-, -, ho⟩ := hd.step htoDaemon hp
      refine ⟨sent, ?_⟩
      rw [ho]
      exact hsafe
    | early _ hs hasks =>
      obtain ⟨-, rfl, rfl, -⟩ := Holder.held.inj (hs.symm.trans hs')
      exact absurd hquiet hasks
    | exchanging _ _ _ _ hs hasks =>
      obtain ⟨-, rfl, rfl, -⟩ := Holder.held.inj (hs.symm.trans hs')
      exact absurd hquiet hasks
  | loop hd => exact h _ _ _ _ hs' hquiet
  | release hs => cases hs'

/-! ## The invariant -/

theorem running_proceed_of_ne {d : Drive} {t t' : ℕ} (ht : t' ≠ t) (i : ℕ) (p : OpM Ending) :
    (d.proceed t i p).running t' = d.running t' := by
  cases p with
  | ret e => cases e <;> exact Function.update_of_ne ht _ _
  | fail e => exact e.elim
  | act c next => exact Function.update_of_ne ht _ _

theorem running_answered_of_ne {d : Drive} {t t' i : ℕ} {c : Call} {next : Reply → OpM Ending}
    {reply : Reply} (ht : t' ≠ t) : (answered d t i c next reply).running t' = d.running t' :=
  running_proceed_of_ne ht _ _

/-- Where the callbacks and the connection stand to each other. -/
structure Inv (P : Setup K W) (table : DescriptorTable P.call) (s : Mounted K W) : Prop where
  session : Session.Inv P s.session
  prompt : Prompt P s.session
  /-- The holder of the mutex is a thread that waits for the answer to its call. -/
  holder : ∀ t c w p, s.session.holder = .held t c w p →
    ∃ i next, s.drive.running t = some ⟨i, .act c next⟩
  logged : Logged P s.drive.log s.session.history
  /-- What the callbacks have opened is open on the device. -/
  opened : ∀ fd ∈ (Drive.descriptors s.drive.log).map Prod.fst,
    table.isOpen (Session.kernelAfter P s.session.history) fd

variable {table : DescriptorTable P.call} {s s' : Mounted K W}
  {Begins : Drive → Drive.Action → Prop}
  {Allowed : List (Completed W) → Call → W → ℕ → Prop}

theorem Inv.of_fresh (h₀ : Session.Fresh P s.session) (hd : s.drive = Drive.new) :
    Inv P table s where
  session := Session.Inv.of_fresh h₀
  prompt := by
    intro t c w p hs
    obtain ⟨endpoint, hfree, -⟩ := h₀.holder
    cases hfree.symm.trans hs
  holder := by
    intro t c w p hs
    obtain ⟨endpoint, hfree, -⟩ := h₀.holder
    cases hfree.symm.trans hs
  logged := by
    rw [hd, h₀.history]
    exact .nil
  opened := by
    rw [hd]
    intro fd hfd
    cases hfd

/-- **No method throws**, and one that asks the daemon returns what the daemon serves. -/
theorem Inv.result (h : Inv P table s) {t : ℕ} {c : Call} {w : W} {result : Except Exn Reply}
    {endpoint : Endpoint} (hs : s.session.holder = .held t c w (.ret (result, endpoint))) :
    ∃ reply, result = .ok reply ∧ (c.Quiet P.world w → c.opened? reply = none) ∧
      (¬c.Quiet P.world w →
        reply = (serve P.call c.request (Session.kernelAfter P s.session.history)).1.reply) := by
  by_cases hquiet : c.Quiet P.world w
  · obtain ⟨sent, reply, hok, hopens⟩ := h.prompt t c w _ hs hquiet
    exact ⟨reply, hok, fun _ => hopens, fun hasks => absurd hquiet hasks⟩
  · obtain ⟨loops, hstage⟩ := h.session.stage
    obtain ⟨⟨-, howed⟩, -⟩ := hstage.release hs
    exact ⟨_, howed hquiet, fun h => absurd h hquiet, fun _ => rfl⟩

/-- What the daemon has just opened was not open. -/
theorem Inv.fresh (h : Inv P table s) {c : Call} {fd : FileHandle}
    (hfd : c.opened? (serve P.call c.request
      (Session.kernelAfter P s.session.history)).1.reply = some fd) :
    fd ∉ (Drive.descriptors s.drive.log).map Prod.fst ∧
      table.isOpen (serve P.call c.request (Session.kernelAfter P s.session.history)).2 fd := by
  obtain ⟨path, flags, mode, fd', hopen, rfl, hkernel⟩ := open_of_opened? hfd
  obtain ⟨hnot, hnow⟩ := table.fresh hopen
  rw [hkernel]
  exact ⟨fun hmem => hnot (h.opened _ hmem), hnow⟩

/-- **The simulation**: what is under way moves the drive by an answer, or not at all. -/
theorem Inv.simulates (h : Inv P table s) (hturn : Turn P Allowed s s') :
    s'.drive = s.drive ∨ ∃ t reply, Drive.Step s.drive (.answer t reply) s'.drive := by
  cases hturn with
  | @cached t i c next reply ht _ hc =>
    refine .inr ⟨t, reply, .answer reply ht fun fd hfd => ?_⟩
    rw [hc.opens_nothing.1] at hfd
    cases hfd
  | acquire ht hs w rounds hc => exact .inl rfl
  | work hw hhistory => exact .inl rfl
  | @returned t i c c' w next reply endpoint hs ht =>
    obtain ⟨i', next', ht'⟩ := h.holder t c w _ hs
    obtain ⟨rfl, hact⟩ := Drive.Running.mk.inj (Option.some.inj (ht.symm.trans ht'))
    obtain ⟨rfl, -⟩ := Prog.act.inj hact
    obtain ⟨reply', hok, hquiet, hasks⟩ := h.result hs
    obtain rfl : reply = reply' := Except.ok.inj hok
    refine .inr ⟨t, reply, ?_⟩
    by_cases hq : c'.Quiet P.world w
    · refine .answer reply ht fun fd hfd => ?_
      rw [hquiet hq] at hfd
      cases hfd
    · obtain rfl := hasks hq
      exact Drive.step_serve P.call _ ht fun fd hfd => (h.fresh hfd).1

/-- The descriptors after an answer are open on the device after the request. -/
theorem Inv.opened_served (h : Inv P table s) {t i : ℕ} {c : Call} {w : W} {reply : Reply}
    (hquiet : c.Quiet P.world w → c.opened? reply = none)
    (hasks : ¬c.Quiet P.world w →
      reply = (serve P.call c.request (Session.kernelAfter P s.session.history)).1.reply) :
    ∀ fd ∈ (Drive.descriptors (⟨i, c, reply⟩ :: s.drive.log)).map Prod.fst,
      table.isOpen (Session.kernelAfter P (s.session.history ++ [⟨t, c, w, .ok reply⟩])) fd := by
  rw [Session.kernelAfter_append]
  by_cases hq : c.Quiet P.world w
  · have hnone : c.opened? reply = none := hquiet hq
    rw [Drive.descriptors_cons_of_none hnone (closes?_of_quiet hq), Session.kernelNext, if_pos hq]
    exact h.opened
  · rw [Session.kernelNext_of_not_quiet hq]
    obtain rfl := hasks hq
    -- a descriptor that was open stays so, unless it is the one that is closed
    have hkept (fd : FileHandle) (hfd : fd ∈ (Drive.descriptors s.drive.log).map Prod.fst)
        (hcloses : c.closes? ≠ some fd) :
        table.isOpen (serve P.call c.request (Session.kernelAfter P s.session.history)).2 fd := by
      refine keeps_serve (Q := fun k => table.isOpen k fd)
        (fun e k (he : e ≠ .close fd.toInt32) hk => table.kept he hk) ?_ (h.opened fd hfd)
      intro handle hrequest heq
      cases c with
      | closeFile handle' =>
        obtain rfl := Request.closeHandle.inj hrequest
        have hsame : handle' = fd := congrArg Int32.toUInt32 heq
        exact hcloses (congrArg some hsame)
      | _ => cases hrequest
    intro fd hfd
    rcases hopens : c.opened? (serve P.call c.request
        (Session.kernelAfter P s.session.history)).1.reply with _ | fd'
    · rcases hcloses : c.closes? with _ | handle
      · rw [Drive.descriptors_cons_of_none hopens hcloses] at hfd
        refine hkept fd hfd ?_
        rw [hcloses]
        exact (Option.some_ne_none fd).symm
      · rw [Drive.descriptors, hopens, hcloses] at hfd
        obtain ⟨x, hx, rfl⟩ := List.mem_map.mp hfd
        obtain ⟨hx, hne⟩ := List.mem_filter.mp hx
        refine hkept x.1 (List.mem_map_of_mem hx) ?_
        rw [hcloses]
        exact fun heq => of_decide_eq_true hne (Option.some.inj heq).symm
    · rw [Drive.descriptors, hopens] at hfd
      rcases List.mem_cons.mp hfd with rfl | hfd
      · exact (h.fresh hopens).2
      · refine hkept fd hfd fun hcloses => ?_
        -- a call that opens does not close
        cases c with
        | closeFile handle => cases hopens
        | _ => cases hcloses

theorem log_proceed (d : Drive) (t i : ℕ) (p : OpM Ending) : (d.proceed t i p).log = d.log := by
  cases p with
  | ret e => cases e <;> rfl
  | fail e => exact e.elim
  | act c next => rfl

/-- **What is under way keeps the invariant.** -/
theorem Inv.turn (hA : ∀ history c w rounds, Allowed history c w rounds →
    Session.Admissible P history c w rounds) (h : Inv P table s) (hturn : Turn P Allowed s s') :
    Inv P table s' := by
  cases hturn with
  | @cached t i c next reply ht hfree hc =>
    have hlog : (answered s.drive t i c next reply).log = ⟨i, c, reply⟩ :: s.drive.log :=
      log_proceed _ _ _ _
    refine ⟨h.session, h.prompt, fun t' c' w p hs => ?_, ?_, ?_⟩
    · obtain ⟨i', next', ht'⟩ := h.holder t' c' w p hs
      have hne : t' ≠ t := by
        rintro rfl
        exact hfree _ _ _ hs
      exact ⟨i', next', (running_proceed_of_ne hne _ _).trans ht'⟩
    · rw [hlog]
      exact .cached i h.logged hc
    · rw [hlog, Drive.descriptors_cons_of_none hc.opens_nothing.1 hc.opens_nothing.2]
      exact h.opened
  | @acquire t i c next endpoint ht hs w rounds hc =>
    refine ⟨?_, ?_, ?_, h.logged, h.opened⟩
    · have hacquire : Session.Step P Allowed s.session _ := .acquire hs t c w rounds hc
      exact h.session.step hA hacquire
    · intro t' c' w' p hs' hquiet
      obtain ⟨rfl, rfl, rfl, rfl⟩ := Holder.held.inj hs'
      obtain ⟨loops, hstage⟩ := h.session.stage
      obtain ⟨hidle, -, htoClient, -⟩ := hstage.free_inv hs
      refine ⟨[], ?_⟩
      show SocketM.Safe P.world false _ _ w s.session.toClient []
      rw [htoClient]
      exact safe_locked_of_quiet hquiet hidle rounds
    · intro t' c' w' p hs'
      obtain ⟨rfl, rfl, -, -⟩ := Holder.held.inj hs'
      exact ⟨i, next, ht⟩
  | @work session' hw hhistory =>
    refine ⟨h.session.work hw, h.prompt.work h.session hw, fun t c w p hs => ?_, ?_, ?_⟩
    · cases hw with
      | client hs₀ hp =>
        obtain ⟨rfl, rfl, rfl, rfl⟩ := Holder.held.inj hs
        exact h.holder _ _ _ _ hs₀
      | daemon hp => exact h.holder t c w p hs
      | loop hd => exact h.holder t c w p hs
      | release hs₀ => cases hs
    · show Logged P s.drive.log session'.history
      rw [hhistory]
      exact h.logged
    · show ∀ fd ∈ _, table.isOpen (Session.kernelAfter P session'.history) fd
      rw [hhistory]
      exact h.opened
  | @returned t i c c' w next reply endpoint hs ht =>
    obtain ⟨i', next', ht'⟩ := h.holder t c w _ hs
    obtain ⟨rfl, hact⟩ := Drive.Running.mk.inj (Option.some.inj (ht.symm.trans ht'))
    obtain ⟨rfl, -⟩ := Prog.act.inj hact
    obtain ⟨reply', hok, hquiet, hasks⟩ := h.result hs
    obtain rfl : reply = reply' := Except.ok.inj hok
    have hlog : (answered s.drive t i c' next reply).log = ⟨i, c', reply⟩ :: s.drive.log :=
      log_proceed _ _ _ _
    refine ⟨h.session.work (.release hs), fun _ _ _ _ hs' => ?_, fun _ _ _ _ hs' => ?_, ?_, ?_⟩
    · cases hs'
    · cases hs'
    · rw [hlog]
      exact .served t i c' w reply h.logged
    · rw [hlog]
      exact h.opened_served hquiet hasks

/-- **A callback that begins keeps it too.** -/
theorem Inv.begins (h : Inv P table s) {a : Drive.Action} {drive' : Drive}
    (hnew : ∀ t reply, a ≠ .answer t reply) (hd : Drive.Step s.drive a drive') :
    Inv P table { s with drive := drive' } := by
  -- a thread that has begun was not waiting for an answer
  have keep {d : Drive} (hrunning : d.running = s.drive.running) (hlog : d.log = s.drive.log)
      {t : ℕ} (ht : s.drive.running t = none) (i : ℕ) (p : OpM Ending) :
      Inv P table { s with drive := d.proceed t i p } := by
    refine ⟨h.session, h.prompt, fun t' c w p' hs => ?_, ?_, ?_⟩
    · obtain ⟨i', next', ht'⟩ := h.holder t' c w p' hs
      have hne : t' ≠ t := by
        rintro rfl
        cases ht.symm.trans ht'
      refine ⟨i', next', (running_proceed_of_ne hne _ _).trans ?_⟩
      rw [hrunning]
      exact ht'
    · show Logged P (d.proceed t i p).log _
      rw [log_proceed, hlog]
      exact h.logged
    · show ∀ fd ∈ (Drive.descriptors (d.proceed t i p).log).map Prod.fst, _
      rw [log_proceed, hlog]
      exact h.opened
  cases hd with
  | create args ht hid => exact keep (d := s.drive.setContext _ _) rfl rfl ht _ _
  | callback fileName isDirectory deleteOnClose callback ht hid => exact keep rfl rfl ht _ _
  | close isDirectory deleteOnClose ht hid hlast =>
    exact keep (d := s.drive.setContext _ _) rfl rfl ht _ _
  | @answer t i c k reply ht hopen => exact (hnew t reply rfl).elim

theorem Inv.step (hA : ∀ history c w rounds, Allowed history c w rounds →
    Session.Admissible P history c w rounds) (h : Inv P table s)
    (hstep : Step P Begins Allowed s s') : Inv P table s' := by
  cases hstep with
  | begins ha hnew hd => exact h.begins hnew hd
  | turn hturn => exact h.turn hA hturn

/-- The callbacks that begin, and every answer. -/
def BeginsOrAnswers (Begins : Drive → Drive.Action → Prop) (d : Drive) (a : Drive.Action) : Prop :=
  Begins d a ∨ ∃ t reply, a = .answer t reply

/-- The drive goes on as `Drive` says. -/
theorem Inv.reachable_step (h : Inv P table s)
    (hdrive : Drive.Reachable (BeginsOrAnswers Begins) s.drive)
    (hstep : Step P Begins Allowed s s') :
    Drive.Reachable (BeginsOrAnswers Begins) s'.drive := by
  cases hstep with
  | begins ha hnew hd => exact .step hdrive hd (.inl ha)
  | turn hturn =>
    rcases h.simulates hturn with hsame | ⟨t, reply, hd⟩
    · rw [hsame]
      exact hdrive
    · exact .step hdrive hd (.inr ⟨t, reply, rfl⟩)

theorem inv_of_reachable (table : DescriptorTable P.call)
    (hA : ∀ history c w rounds, Allowed history c w rounds →
      Session.Admissible P history c w rounds) {s₀ : Mounted K W}
    (h₀ : Session.Fresh P s₀.session) (hnew : s₀.drive = Drive.new)
    (hrun : Relation.ReflTransGen (Step P Begins Allowed) s₀ s) : Inv P table s :=
  Runs.invariant (fun _ _ hs hstep => hs.step hA hstep) (Inv.of_fresh h₀ hnew) hrun

/-- **The drive on its connection is the drive**, and the mutex puts the answers of the device in an
order.  In every run of any number of threads:

* the callbacks go through a run of `Drive`, in which just those callbacks begin;
* the answers they see are those of the history, but for those that came from the caches, and every
  answer of the history that is not from a cache is what the daemon serves at that moment;
* no method throws, so that no callback ends in an unmount;
* between two requests the daemon is ready, and the device is as the history has left it. -/
theorem linearizes (table : DescriptorTable P.call)
    (hA : ∀ history c w rounds, Allowed history c w rounds →
      Session.Admissible P history c w rounds) {s₀ : Mounted K W}
    (h₀ : Session.Fresh P s₀.session) (hnew : s₀.drive = Drive.new)
    (hrun : Relation.ReflTransGen (Step P Begins Allowed) s₀ s) :
    Drive.Reachable (BeginsOrAnswers Begins) s.drive ∧ Logged P s.drive.log s.session.history ∧
      Session.Faithful P s.session.history ∧
      (∀ t c w e endpoint, s.session.holder ≠ .held t c w (.ret (.error e, endpoint))) ∧
      ∀ endpoint, s.session.holder = .free endpoint → ∃ loops,
        Session.Ready P loops s.session.daemon s.session.kernel
          (Session.kernelAfter P s.session.history) := by
  have hinv := inv_of_reachable table hA h₀ hnew hrun
  refine ⟨?_, hinv.logged, hinv.session.faithful, fun t c w e endpoint hs => ?_,
    fun endpoint hs => ?_⟩
  · clear hinv
    induction hrun with
    | refl =>
      rw [hnew]
      exact .new
    | tail hrun hstep ih => exact (inv_of_reachable table hA h₀ hnew hrun).reachable_step ih hstep
  · obtain ⟨reply, hok, -⟩ := hinv.result hs
    cases hok
  · obtain ⟨loops, hstage⟩ := hinv.session.stage
    obtain ⟨-, -, -, hready⟩ := hstage.free_inv hs
    exact hready

/-! ## Every callback returns -/

section Programs

variable {α β : Type}

theorem within_request_bind {c : Call} {f : Reply → OpM α} {n : ℕ} (hf : ∀ r, (f r).Within n) :
    (request c >>= f).Within (n + 1) :=
  ⟨Nat.succ_pos n, hf⟩

theorem within_handleCreateDirectory (path : WString) (disposition : Disposition)
    (entryExists entryIsDirectory : Bool) :
    (handleCreateDirectory path disposition entryExists entryIsDirectory).Within 1 := by
  rw [handleCreateDirectory]
  split
  · exact within_request_bind fun _ => trivial
  · repeat' split
    all_goals trivial

theorem within_handleCreateFile (path : WString) (disposition : Disposition) (fileExists : Bool)
    (ctx : FileContext) : (handleCreateFile path disposition fileExists ctx).Within 1 := by
  have opening (mode : OpenMode) :
      (openOnDevice path disposition fileExists mode ctx).Within 1 := by
    refine within_request_bind fun reply => ?_
    cases reply with
    | opened handle =>
      simp only
      split <;> trivial
    | _ => trivial
  cases disposition with
  | createAlways => exact opening _
  | createNew => exact opening _
  | openAlways =>
    simp only [handleCreateFile]
    split
    · trivial
    · exact opening _
  | openExisting =>
    simp only [handleCreateFile]
    repeat' split
    · trivial
    · trivial
    · exact opening _
  | truncateExisting => exact opening _
  | unknown code => trivial

/-- `create_file` asks for the stat, and then at most for one thing more. -/
theorem within_createProgram (args : CreateArgs) : (createProgram args).Within 2 := by
  have directory (entryExists entryIsDirectory : Bool) (info : FileInfo) :
      (do let status ← handleCreateDirectory args.fileName args.disposition entryExists
            entryIsDirectory
          return (status, info) : OpM (NtStatus × FileInfo)).Within 1 :=
    (within_handleCreateDirectory _ _ _ _).bind (n := 0) fun _ => trivial
  have file (entryExists : Bool) (info : FileInfo) :
      (do let x ← handleCreateFile args.fileName args.disposition entryExists info.context
          return (x.1, { info with context := x.2 }) : OpM (NtStatus × FileInfo)).Within 1 :=
    (within_handleCreateFile _ _ _ _).bind (n := 0) fun _ => trivial
  have entry (entryExists entryIsDirectory : Bool) :
      (createEntry args (CreateArgs.info args) entryExists entryIsDirectory).Within 1 := by
    rw [createEntry]
    split
    · trivial
    · simp only
      split
      · split
        · exact directory _ _ _
        · exact file _ _
      · split
        · exact directory _ _ _
        · exact file _ _
  have hfile : (createFile args).Within 2 := by
    refine within_request_bind fun reply => ?_
    have hother : (if reply.code = .fileNotFound
        then createEntry args (CreateArgs.info args) false false
        else return (ntstatusFromRespstatus reply.code, CreateArgs.info args)).Within 1 := by
      split
      · exact entry _ _
      · trivial
    cases reply with
    | stat stat => exact entry _ _
    | _ => exact hother
  refine hfile.bind (n := 0) ?_
  rintro ⟨status, info⟩
  trivial

theorem within_ending {p : OpM α} {n : ℕ} (hp : p.Within n) : (ending p).Within n :=
  hp.bind (n := 0) fun _ => trivial

theorem within_program (callback : Callback) (fileName : WString) (info : FileInfo) :
    (callback.program fileName info).Within 2 := by
  refine Prog.Within.mono one_le_two ?_
  cases callback with
  | cleanUp =>
    refine within_ending ?_
    rw [Operations.cleanUp]
    split
    · split <;> exact within_request_bind fun _ => trivial
    · trivial
  | readFile bufferLen offset =>
    refine within_ending ?_
    rw [Operations.readFile]
    split
    · trivial
    · refine within_request_bind fun reply => ?_
      cases reply <;> trivial
  | writeFile data offset =>
    refine within_ending ?_
    rw [Operations.writeFile]
    split
    · trivial
    · refine within_request_bind fun reply => ?_
      split <;> trivial
  | setEndOfFile byteOffset =>
    refine within_ending ?_
    rw [Operations.setEndOfFile]
    split
    · exact within_request_bind fun _ => trivial
    · trivial
  | setAllocationSize byteOffset =>
    refine within_ending ?_
    rw [Operations.setAllocationSize, Operations.setEndOfFile]
    split
    · exact within_request_bind fun _ => trivial
    · trivial
  | getFileInformation =>
    refine within_ending (within_request_bind fun reply => ?_)
    cases reply with
    | stat stat =>
      simp only
      split <;> trivial
    | _ => trivial
  | findFiles =>
    refine within_ending (within_request_bind fun reply => ?_)
    cases reply <;> trivial
  | setFileAttributes fileAttributes =>
    refine within_ending (within_request_bind fun reply => ?_)
    cases reply with
    | stat stat =>
      simp only
      repeat' split
      all_goals trivial
    | _ => trivial
  | setFileTime lastAccessTime lastWriteTime =>
    exact within_ending (within_request_bind fun _ => trivial)
  | deleteFile => exact within_ending (within_request_bind fun _ => trivial)
  | deleteDirectory => exact within_ending (within_request_bind fun _ => trivial)
  | moveFile newFileName replaceIfExisting =>
    exact within_ending (within_request_bind fun _ => trivial)
  | getDiskFreeSpace =>
    refine within_ending (within_request_bind fun reply => ?_)
    cases reply <;> trivial

theorem within_closeProgram (info : FileInfo) : (closeProgram info).Within 2 := by
  have hfile : (closeFile info).Within 1 := by
    rw [closeFile]
    split
    · exact within_request_bind fun _ => trivial
    · trivial
  have hclose : (closeProgram info).Within 1 := hfile.bind (n := 0) fun _ => trivial
  exact hclose.mono one_le_two

end Programs

/-- The threads below `n` are the ones that may be in a callback, and each has so many calls before
it. -/
structure Busy (n : ℕ) (budget : ℕ → ℕ) (d : Drive) : Prop where
  idle : ∀ t, n ≤ t → d.running t = none
  within : ∀ t r, d.running t = some r → r.program.Within (budget t)
  /-- A callback that is under way has come to a call. -/
  waits : ∀ t r, d.running t = some r → ∃ c next, r.program = .act c next

theorem Busy.proceed {n : ℕ} {budget : ℕ → ℕ} {d : Drive} (h : Busy n budget d) {t m : ℕ}
    (ht : t < n) (i : ℕ) {p : OpM Ending} (hp : p.Within m) :
    Busy n (Function.update budget t m) (d.proceed t i p) := by
  have hself {r : Drive.Running} (hr : (d.proceed t i p).running t = some r) :
      r.program = p ∧ ∃ c next, r.program = .act c next := by
    cases p with
    | ret e =>
      have hnone : ((d.setRunning t none).finish i e).running t = none := by
        cases e <;> exact Function.update_self _ _ _
      cases hnone.symm.trans hr
    | fail e => exact e.elim
    | act c next =>
      have hact : (d.setRunning t (some ⟨i, .act c next⟩)).running t = _ :=
        Function.update_self _ _ _
      obtain rfl := Option.some.inj (hact.symm.trans hr)
      exact ⟨rfl, c, next, rfl⟩
  refine ⟨fun t' ht' => ?_, fun t' r hr => ?_, fun t' r hr => ?_⟩
  · have hne : t' ≠ t := by omega
    rw [running_proceed_of_ne hne]
    exact h.idle t' ht'
  · by_cases hne : t' = t
    · subst hne
      rw [Function.update_self, (hself hr).1]
      exact hp
    · rw [running_proceed_of_ne hne] at hr
      rw [Function.update_of_ne hne]
      exact h.within t' r hr
  · by_cases hne : t' = t
    · subst hne
      exact (hself hr).2
    · rw [running_proceed_of_ne hne] at hr
      exact h.waits t' r hr

theorem Busy.mono {n n' : ℕ} (hn : n ≤ n') {budget : ℕ → ℕ} {d : Drive} (h : Busy n budget d) :
    Busy n' budget d :=
  ⟨fun t ht => h.idle t (le_trans hn ht), h.within, h.waits⟩

/-- **An answer uses up a call.** -/
theorem Busy.answered {n : ℕ} {budget : ℕ → ℕ} {d : Drive} (h : Busy n budget d) {t i : ℕ}
    {c : Call} {next : Reply → OpM Ending} (ht : d.running t = some ⟨i, .act c next⟩)
    (reply : Reply) :
    ∃ budget', Busy n budget' (answered d t i c next reply) ∧
      ∑ t ∈ Finset.range n, budget' t < ∑ t ∈ Finset.range n, budget t := by
  have htn : t < n := by
    by_contra hle
    cases (h.idle t (not_lt.mp hle)).symm.trans ht
  obtain ⟨hpos, hnext⟩ := h.within t _ ht
  have hrecord : Busy n budget (d.record ⟨i, c, reply⟩) := ⟨h.idle, h.within, h.waits⟩
  refine ⟨_, hrecord.proceed htn i (hnext reply), ?_⟩
  refine Finset.sum_lt_sum (fun t' _ => ?_) ⟨t, Finset.mem_range.mpr htn, ?_⟩
  · by_cases hne : t' = t
    · rw [hne, Function.update_self]
      exact Nat.sub_le _ _
    · rw [Function.update_of_ne hne]
  · rw [Function.update_self]
    omega

/-- The threads that are in a callback are finitely many, whatever has happened. -/
theorem exists_busy {s₀ : Mounted K W} (hnew : s₀.drive = Drive.new)
    (hrun : Relation.ReflTransGen (Step P Begins Allowed) s₀ s) :
    ∃ n budget, Busy n budget s.drive := by
  induction hrun with
  | refl =>
    refine ⟨0, fun _ => 0, fun t _ => ?_, fun t r hr => ?_, fun t r hr => ?_⟩
    · rw [hnew]
      rfl
    · rw [hnew] at hr
      cases hr
    · rw [hnew] at hr
      cases hr
  | @tail s _ _ hstep ih =>
    obtain ⟨n, budget, h⟩ := ih
    have hset (i : ℕ) (entry : Option Drive.Entry) : Busy n budget (s.drive.setContext i entry) :=
      ⟨h.idle, h.within, h.waits⟩
    have begun {d : Drive} (hd : Busy n budget d) (t i : ℕ) {p : OpM Ending} (hp : p.Within 2) :
        ∃ n budget, Busy n budget (d.proceed t i p) := by
      have hmore := hd.mono (le_max_left n (t + 1))
      exact ⟨_, _, hmore.proceed (lt_of_lt_of_le (Nat.lt_succ_self t) (le_max_right _ _)) i hp⟩
    cases hstep with
    | begins ha hfirst hd =>
      cases hd with
      | create args ht hid =>
        exact begun (hset _ _) _ _ (within_createProgram args)
      | callback fileName isDirectory deleteOnClose callback ht hid =>
        exact begun h _ _ (within_program callback fileName _)
      | close isDirectory deleteOnClose ht hid hlast =>
        exact begun (hset _ _) _ _ (within_closeProgram _)
      | @answer t i c k reply ht hopen => exact (hfirst t reply rfl).elim
    | turn hturn =>
      cases hturn with
      | cached ht hfree hc =>
        obtain ⟨budget', hbusy, -⟩ := h.answered ht _
        exact ⟨n, budget', hbusy⟩
      | acquire ht hs w rounds hc => exact ⟨n, budget, h⟩
      | work hw hhistory => exact ⟨n, budget, h⟩
      | returned hs ht =>
        obtain ⟨budget', hbusy, -⟩ := h.answered ht _
        exact ⟨n, budget', hbusy⟩

/-- The drive goes along with everything that the connection does. -/
theorem Inv.turn_of_work (hs : Inv P table s) {session' : Session K W}
    (hw : Session.Work P s.session session') :
    ∃ s', Turn P Allowed s s' ∧ s'.session = session' := by
  cases hw with
  | client hheld hp => exact ⟨_, .work (.client hheld hp) rfl, rfl⟩
  | daemon hp => exact ⟨_, .work (.daemon hp) rfl, rfl⟩
  | loop hd => exact ⟨_, .work (.loop hd) rfl, rfl⟩
  | release hret =>
    obtain ⟨reply, rfl, -⟩ := hs.result hret
    obtain ⟨i, next, ht⟩ := hs.holder _ _ _ _ hret
    exact ⟨_, .returned hret ht, rfl⟩

/-- The call that a thread waits with is made, completed and answered. -/
theorem Inv.exists_answered (hA : ∀ history c w rounds, Allowed history c w rounds →
      Session.Admissible P history c w rounds) (hs : Inv P table s) {d : Drive}
    (hdrive : s.drive = d) {t i : ℕ} {c : Call} {next : Reply → OpM Ending}
    (ht : d.running t = some ⟨i, .act c next⟩) {endpoint : Endpoint}
    (hfree : s.session.holder = .free endpoint) {w : W} {rounds : ℕ}
    (hc : Allowed s.session.history c w rounds) (hasks : ¬c.Quiet P.world w) {reply : Reply}
    (hreply : (serve P.call c.request (Session.kernelAfter P s.session.history)).1.reply = reply) :
    ∃ s' endpoint', Relation.ReflTransGen (Turn P Allowed) s s' ∧
      s'.session.holder = .free endpoint' ∧
      s'.session.history = s.session.history ++ [⟨t, c, w, .ok reply⟩] ∧
      s'.drive = answered d t i c next reply := by
  subst hdrive
  have hacquire : Turn P Allowed s _ := .acquire ht hfree w rounds hc
  have hs₁ := hs.turn hA hacquire
  obtain ⟨session, result, endpoint', hwork, hheld⟩ := hs₁.session.exists_ended rfl
  have hhistory : session.history = s.session.history :=
    Runs.invariant (P := fun x => x.history = s.session.history)
      (fun _ _ hx hst => hst.2.trans hx) rfl hwork
  let g : Session K W → Mounted K W := fun x => ⟨s.drive, x⟩
  have hturns : Relation.ReflTransGen (Turn P Allowed) (g _) (g session) :=
    hwork.lift g fun x _ h => Turn.work (s := g x) h.1 h.2
  have hs₂ := Runs.invariant (fun _ _ hs hturn => hs.turn hA hturn) hs₁ hturns
  obtain ⟨reply', rfl, -, hserved⟩ := hs₂.result hheld
  obtain rfl : reply' = reply := by
    rw [hserved hasks, ← hreply]
    exact congrArg (fun history => (serve P.call c.request
      (Session.kernelAfter P history)).1.reply) hhistory
  refine ⟨_, endpoint', (hturns.tail (.returned hheld ht)).head hacquire, rfl, ?_, rfl⟩
  exact congrArg (· ++ [_]) hhistory

/-- **No run is infinite among states with the same callbacks under way**, if none is after a call
has been answered, and none is after the mutex has been taken. -/
theorem acc_of_work (hA : ∀ history c w rounds, Allowed history c w rounds →
      Session.Admissible P history c w rounds) {n : ℕ} {budget : ℕ → ℕ}
    (hless : ∀ s budget', Inv P table s → Busy n budget' s.drive →
      ∑ t ∈ Finset.range n, budget' t < ∑ t ∈ Finset.range n, budget t →
      Acc (fun y x => Turn P Allowed x y) s)
    {A : Session K W → Prop}
    (hA' : ∀ x y, A x → Session.Work P x y → y.history = x.history → A y)
    (hacquire : ∀ s s' : Mounted K W, A s.session → Busy n budget s.drive → Inv P table s' →
      s'.drive = s.drive → (∃ endpoint, s.session.holder = .free endpoint) →
      (∃ t c w p, s'.session.holder = .held t c w p) → Acc (fun y x => Turn P Allowed x y) s')
    (hs : Inv P table s) (hAs : A s.session) (hbusy : Busy n budget s.drive) :
    Acc (fun y x => Turn P Allowed x y) s := by
  obtain ⟨drive, session⟩ := s
  have hacc : Acc (fun y x => Session.Work P x y) session := by
    obtain ⟨loops, hstage⟩ := hs.session.stage
    exact hstage.acc
  induction hacc with
  | intro session _ ih =>
    refine Acc.intro _ fun s' hturn => ?_
    have hs' : Inv P table s' := hs.turn hA hturn
    cases hturn with
    | cached ht hfree hc =>
      obtain ⟨budget', hbusy', hlt⟩ := hbusy.answered ht _
      exact hless _ budget' hs' hbusy' hlt
    | acquire ht hfree w rounds hc =>
      exact hacquire ⟨drive, session⟩ _ hAs hbusy hs' rfl ⟨_, hfree⟩ ⟨_, _, _, _, rfl⟩
    | work hw hhistory => exact ih _ hw hs' (hA' _ _ hAs hw hhistory) hbusy
    | returned hheld ht =>
      obtain ⟨budget', hbusy', hlt⟩ := hbusy.answered ht _
      exact hless _ budget' hs' hbusy' hlt

/-- **What is under way comes to its end.** -/
theorem Inv.acc (hA : ∀ history c w rounds, Allowed history c w rounds →
      Session.Admissible P history c w rounds) (hs : Inv P table s) {n : ℕ} {budget : ℕ → ℕ}
    (hbusy : Busy n budget s.drive) : Acc (fun y x => Turn P Allowed x y) s := by
  induction hsum : ∑ t ∈ Finset.range n, budget t using Nat.strongRecOn generalizing s budget with
  | ind total ih =>
    subst hsum
    have hless : ∀ s budget', Inv P table s → Busy n budget' s.drive →
        ∑ t ∈ Finset.range n, budget' t < ∑ t ∈ Finset.range n, budget t →
        Acc (fun y x => Turn P Allowed x y) s :=
      fun s budget' hs hbusy' hlt => ih _ hlt hs hbusy' rfl
    -- with the mutex held, nobody can take it
    have hheld : ∀ s : Mounted K W, Inv P table s → Busy n budget s.drive →
        (∃ t c w p, s.session.holder = .held t c w p) → Acc (fun y x => Turn P Allowed x y) s := by
      intro s hs hbusy hheld
      refine acc_of_work hA hless (A := fun x => ∃ t c w p, x.holder = .held t c w p) ?_ ?_ hs
        hheld hbusy
      · rintro x y ⟨t, c, w, p, hx⟩ hw hhistory
        cases hw with
        | client hs hp => exact ⟨_, _, _, _, rfl⟩
        | daemon hp => exact ⟨t, c, w, p, hx⟩
        | loop hd => exact ⟨t, c, w, p, hx⟩
        | release hs =>
          have hlen := congrArg List.length hhistory
          simp at hlen
      · rintro s s' ⟨t, c, w, p, hx⟩ - - - ⟨endpoint, hfree⟩
        cases hfree.symm.trans hx
    refine acc_of_work hA hless (A := fun _ => True) (fun _ _ _ _ _ => trivial) ?_ hs trivial hbusy
    intro s s' _ hbusy hs' hdrive _ hh
    refine hheld s' hs' ?_ hh
    rw [hdrive]
    exact hbusy

/-- While a thread is in a callback something can move, unless what the threads wait for is not
allowed. -/
theorem Inv.progress (hs : Inv P table s) {n : ℕ} {budget : ℕ → ℕ} (hbusy : Busy n budget s.drive)
    (hstuck : ∀ s', ¬Turn P Allowed s s') :
    (∃ endpoint, s.session.holder = .free endpoint) ∧
      ∀ t r, s.drive.running t = some r → ∃ c next, r.program = .act c next ∧
        ∀ w rounds, ¬Allowed s.session.history c w rounds := by
  cases hholder : s.session.holder with
  | held t c w p =>
    obtain ⟨loops, hstage⟩ := hs.session.stage
    obtain ⟨session', hw⟩ := hstage.progress hholder
    obtain ⟨s', hturn, -⟩ := hs.turn_of_work hw
    exact (hstuck s' hturn).elim
  | free endpoint =>
    refine ⟨⟨endpoint, rfl⟩, fun t r hr => ?_⟩
    obtain ⟨c, next, hact⟩ := hbusy.waits t r hr
    obtain ⟨i, program⟩ := r
    obtain rfl : program = .act c next := hact
    exact ⟨c, next, rfl, fun w rounds hc => hstuck _ (.acquire hr hholder w rounds hc)⟩

/-- **Every callback returns.**  When no more callbacks begin, no run is infinite, however the
threads, the client and the daemon take turns; and where it ends the mutex is free, and a thread
that is still in a callback waits with a call that is not allowed. -/
theorem finishes (table : DescriptorTable P.call)
    (hA : ∀ history c w rounds, Allowed history c w rounds →
      Session.Admissible P history c w rounds) {s₀ : Mounted K W}
    (h₀ : Session.Fresh P s₀.session) (hnew : s₀.drive = Drive.new)
    (hrun : Relation.ReflTransGen (Step P Begins Allowed) s₀ s) :
    Acc (fun y x => Turn P Allowed x y) s ∧
      ((∀ s', ¬Turn P Allowed s s') → (∃ endpoint, s.session.holder = .free endpoint) ∧
        ∀ t r, s.drive.running t = some r → ∃ c next, r.program = .act c next ∧
          ∀ w rounds, ¬Allowed s.session.history c w rounds) := by
  have hinv := inv_of_reachable table hA h₀ hnew hrun
  obtain ⟨n, budget, hbusy⟩ := exists_busy hnew hrun
  exact ⟨hinv.acc hA hbusy, hinv.progress hbusy⟩

/-! ## Two threads and a file -/

/-- The one file that can be open has the descriptor `3`. -/
def twoFilesTable : DescriptorTable Session.twoFilesSetup.call where
  isOpen k fd := k = true ∧ fd = 3
  fresh := by
    intro path flags mode k fd hopen
    cases k with
    | true => cases hopen
    | false =>
      obtain rfl := Except.ok.inj hopen
      exact ⟨fun h => Bool.noConfusion h.1, rfl, rfl⟩
  kept := by
    rintro e k handle hclose ⟨rfl, rfl⟩
    refine ⟨?_, rfl⟩
    cases e with
    | close fd =>
      have hne : fd ≠ 3 := fun heq => hclose (congrArg Syscall.close heq)
      show (true && decide (fd ≠ 3)) = true
      rw [decide_eq_true hne]
      rfl
    | _ => rfl

/-- An existing file is to be opened. -/
def openArgs : CreateArgs where
  fileName := [92, 97]
  genericRead := true
  genericWrite := true
  deleteOnClose := false
  disposition := .openExisting
  nonDirectoryFile := true
  isDirectory := false

/-- Everything may begin, and every admissible call is made. -/
abbrev Moves : Mounted Bool Unit → Mounted Bool Unit → Prop :=
  Step Session.twoFilesSetup (fun _ _ => True) (Session.Admissible Session.twoFilesSetup)

/-- What has happened when the file is open. -/
def openHistory : List (Completed Unit) :=
  [⟨0, .statFile [92, 97], (), .ok (.stat ⟨0x81A4, 5, 0, 7⟩)⟩,
    ⟨0, .openFile [92, 97] .openOnly true true, (), .ok (.opened 3)⟩]

theorem moves_of_turns {s s' : Mounted Bool Unit} (h : Relation.ReflTransGen
    (Turn Session.twoFilesSetup (Session.Admissible Session.twoFilesSetup)) s s') :
    Relation.ReflTransGen Moves s s' :=
  h.lift id fun _ _ hs => .turn hs

theorem inv_of_moves {s : Mounted Bool Unit}
    (h : Relation.ReflTransGen Moves ⟨Drive.new, Session.start Session.twoFilesSetup ()⟩ s) :
    Inv Session.twoFilesSetup twoFilesTable s :=
  inv_of_reachable twoFilesTable (fun _ _ _ _ hc => hc)
    (Session.fresh_start Session.twoFilesSetup ()) rfl h

/-- A thread opens the file. -/
theorem exists_file_open : ∃ (s : Mounted Bool Unit) (endpoint : Endpoint),
    Relation.ReflTransGen Moves ⟨Drive.new, Session.start Session.twoFilesSetup ()⟩ s ∧
      s.session.holder = .free endpoint ∧ s.session.history = openHistory ∧
      (∀ t, s.drive.running t = none) ∧
      s.drive.contexts 0 = some ⟨⟨3, true, true⟩, .live⟩ := by
  have hbegins : Moves ⟨Drive.new, Session.start Session.twoFilesSetup ()⟩ _ :=
    .begins (a := .create 0 0 openArgs) trivial (fun _ _ => Drive.Action.noConfusion)
      (.create openArgs rfl rfl)
  have hrun₁ := Relation.ReflTransGen.single hbegins
  have hlegible (c : Call) (hc : ∀ path, c.request ≠ .listDirectory path)
      (history : List (Completed Unit)) : (serve Session.twoFilesSetup.call c.request
        (Session.kernelAfter Session.twoFilesSetup history)).1.Legible 0 :=
    Response.legible_of_answers hc (serve_answers _ _ _) 0
  have hstats (history : List (Completed Unit)) : Session.Admissible Session.twoFilesSetup history
      (.statFile [92, 97]) () 0 :=
    .inr ⟨by decide, trivial, trivial, hlegible _ (fun _ => Request.noConfusion) _⟩
  have hopens (history : List (Completed Unit)) : Session.Admissible Session.twoFilesSetup history
      (.openFile [92, 97] .openOnly true true) () 0 :=
    .inr ⟨by decide, trivial, trivial, hlegible _ (fun _ => Request.noConfusion) _⟩
  obtain ⟨s₂, endpoint₂, hturns₂, hfree₂, hhistory₂, hdrive₂⟩ :=
    (inv_of_moves hrun₁).exists_answered (fun _ _ _ _ hc => hc) rfl (t := 0)
      (c := .statFile [92, 97]) rfl rfl (hstats _) (by decide) rfl
  have hrun₂ := hrun₁.trans (moves_of_turns hturns₂)
  obtain ⟨s₃, endpoint₃, hturns₃, hfree₃, hhistory₃, hdrive₃⟩ :=
    (inv_of_moves hrun₂).exists_answered (fun _ _ _ _ hc => hc) hdrive₂ (t := 0)
      (c := .openFile [92, 97] .openOnly true true) rfl hfree₂ (hopens _) (by decide)
      (show _ = Reply.opened 3 by rw [hhistory₂]; rfl)
  refine ⟨s₃, endpoint₃, hrun₂.trans (moves_of_turns hturns₃), hfree₃, ?_, fun t => ?_, ?_⟩
  · rw [hhistory₃, hhistory₂]
    rfl
  · rw [hdrive₃]
    by_cases ht : t = 0
    · rw [ht]
      rfl
    · exact (running_answered_of_ne ht).trans
        ((running_answered_of_ne ht).trans
          (running_proceed_of_ne (d := Drive.new.setContext 0 _) ht 0 (createProgram openArgs)))
  · rw [hdrive₃]
    rfl

/-- A program that reads two bytes from the handle `3`. -/
def readTwo : OpM Ending :=
  (Callback.readFile 2 0).program [92, 97] ⟨false, false, ⟨3, true, true⟩⟩

/-- One that writes two. -/
def writeTwo : OpM Ending :=
  (Callback.writeFile ⟨[8, 9], by decide⟩ 1).program [92, 97] ⟨false, false, ⟨3, true, true⟩⟩

/-- On the open file, one thread is about to read and another is about to write. -/
theorem exists_twoThreads : ∃ (s : Mounted Bool Unit) (endpoint : Endpoint) (d : Drive),
    Relation.ReflTransGen Moves ⟨Drive.new, Session.start Session.twoFilesSetup ()⟩ s ∧
      s.session.holder = .free endpoint ∧ s.session.history = openHistory ∧
      s.drive = (d.proceed 0 0 readTwo).proceed 1 0 writeTwo := by
  obtain ⟨s, endpoint, hrun, hfree, hhistory, hnone, hlive⟩ := exists_file_open
  have hread : Moves s _ :=
    .begins (a := .callback 0 0 [92, 97] false false (.readFile 2 0)) trivial
      (fun _ _ => Drive.Action.noConfusion) (.callback [92, 97] false false _ (hnone 0) hlive)
  have hidle : (s.drive.proceed 0 0 readTwo).running 1 = none :=
    (running_proceed_of_ne (by decide) _ _).trans (hnone 1)
  have hwrite : Moves ⟨s.drive.proceed 0 0 readTwo, s.session⟩ _ :=
    .begins (a := .callback 1 0 [92, 97] false false (.writeFile ⟨[8, 9], by decide⟩ 1)) trivial
      (fun _ _ => Drive.Action.noConfusion) (.callback [92, 97] false false _ hidle hlive)
  exact ⟨_, endpoint, s.drive, (hrun.tail hread).tail hwrite, hfree, hhistory, rfl⟩

/-- The write comes first, and both are answered. -/
theorem linearizes_twoThreads : ∃ s : Mounted Bool Unit,
    s.session.history = openHistory ++
      [⟨1, .writeToFile 3 1 ⟨[8, 9], by decide⟩, (), .ok (.status .success)⟩,
        ⟨0, .readFromFile 3 0 2, (), .ok (.data [7, 7])⟩] ∧
      Drive.Reachable (BeginsOrAnswers fun _ _ => True) s.drive ∧
      Logged Session.twoFilesSetup s.drive.log s.session.history := by
  obtain ⟨s, endpoint, d, hrun, hfree, hhistory, hdrive⟩ := exists_twoThreads
  obtain ⟨s₁, endpoint₁, hturns₁, hfree₁, hhistory₁, hdrive₁⟩ :=
    (inv_of_moves hrun).exists_answered (fun _ _ _ _ hc => hc) hdrive (t := 1) rfl hfree
      (Session.admissible_write_twoFiles _) id
      (show _ = Reply.status .success by rw [hhistory]; rfl)
  have hrun₁ := hrun.trans (moves_of_turns hturns₁)
  obtain ⟨s₂, endpoint₂, hturns₂, hfree₂, hhistory₂, -⟩ :=
    (inv_of_moves hrun₁).exists_answered (fun _ _ _ _ hc => hc) hdrive₁ (t := 0) rfl hfree₁
      (Session.admissible_read_twoFiles _) id
      (show _ = Reply.data [7, 7] by rw [hhistory₁, hhistory]; rfl)
  obtain ⟨hdrive, hlogged, -, -, -⟩ := linearizes twoFilesTable (fun _ _ _ _ hc => hc)
    (Session.fresh_start Session.twoFilesSetup ()) rfl (hrun₁.trans (moves_of_turns hturns₂))
  refine ⟨s₂, ?_, hdrive, hlogged⟩
  rw [hhistory₂, hhistory₁, hhistory]
  rfl

/-- No run from here is infinite, and something can move. -/
theorem finishes_twoThreads : ∃ s : Mounted Bool Unit,
    Relation.ReflTransGen Moves ⟨Drive.new, Session.start Session.twoFilesSetup ()⟩ s ∧
      (∃ r₀ r₁, s.drive.running 0 = some r₀ ∧ s.drive.running 1 = some r₁) ∧
      Acc (fun y x => Turn Session.twoFilesSetup (Session.Admissible Session.twoFilesSetup) x y)
        s ∧
      ∃ s', Turn Session.twoFilesSetup (Session.Admissible Session.twoFilesSetup) s s' := by
  obtain ⟨s, endpoint, d, hrun, -, -, hdrive⟩ := exists_twoThreads
  obtain ⟨hacc, hstuck⟩ := finishes twoFilesTable (fun _ _ _ _ hc => hc)
    (Session.fresh_start Session.twoFilesSetup ()) rfl hrun
  have hreads : s.drive.running 0 = some ⟨0, readTwo⟩ := by
    rw [hdrive]
    rfl
  have hwrites : s.drive.running 1 = some ⟨0, writeTwo⟩ := by
    rw [hdrive]
    rfl
  refine ⟨s, hrun, ⟨_, _, hreads, hwrites⟩, hacc, ?_⟩
  by_contra hnone
  obtain ⟨-, hwaits⟩ := hstuck fun s' hs => hnone ⟨s', hs⟩
  obtain ⟨c, next, hact, hnot⟩ := hwaits 0 _ hreads
  obtain ⟨rfl, -⟩ := Prog.act.inj hact
  exact hnot () 0 (Session.admissible_read_twoFiles _)

end Mounted

end NandroidFS
