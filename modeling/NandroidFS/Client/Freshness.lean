import NandroidFS.Client.Coherence

/-!
# What later requests get to see

The conclusions about whole methods: one has returned, another starts later, and what the second
returns was produced by the daemon after it had executed the first.  This is so as long as the
connection is in step.  Once it is not, a method may read the answer to somebody else's request.

* `System.Orderly.learns_stat`, `System.Orderly.learns_listing`: what a method returns, it has
  learnt.
* `System.later_calls_see_changes`: the methods that invalidate what they change.
* `System.not_later_calls_see_changes_writeToFile`: a write whose payload is taken for requests.
* `Device`: a device with one directory and one file, on which runs can be tried.
-/

namespace NandroidFS

/-! ## What a method returns and what it has learnt -/

/-- The method returned the reply of the exchange at this place of the log. -/
def Finished.ExecutedAt (log : List Exchange) (o : Finished) (i : ℕ) : Prop :=
  o.executed = some i ∧ ∃ r, log[i]? = some ⟨o.call.request, r⟩ ∧ o.result = .ok r.reply

theorem hits_map_fst_sublist (answers : List (ByteString × Option FileStat)) :
    ((hits answers).map Prod.fst).Sublist (answers.map Prod.fst) := by
  induction answers with
  | nil => exact List.Sublist.slnil
  | cons answer answers ih =>
    obtain ⟨name, _ | stat⟩ := answer
    · exact ih.cons _
    · exact ih.cons_cons _

theorem LooksUp.finds_of_mem {dir : ByteString} {answers : List (ByteString × Option FileStat)}
    {τ : List Event} (hτ : LooksUp dir answers τ) {entry : ByteString × FileStat}
    (hentry : entry ∈ hits answers) :
    Event.call (.getStat (getFullPath dir entry.1)) (some entry.2) ∈ τ := by
  induction hτ with
  | nil => cases hentry
  | miss h ih => exact List.mem_cons_of_mem _ (ih hentry)
  | hit hname h ih =>
    rcases List.mem_cons.mp hentry with rfl | hentry
    · exact List.mem_cons_self
    · exact List.mem_cons_of_mem _ (List.mem_cons_of_mem _ (ih hentry))

namespace System

variable {K : Type} {h h' : Host} {call : Kernel K} {s : System K} {o f : Finished}

/-- A method that returns has had its exchange or has answered by itself. -/
theorem Orderly.executedAt_of_ok (hs : Orderly s) (ho : o ∈ s.finished) {reply : Reply}
    (hret : o.result = .ok reply) :
    (∃ i, o.ExecutedAt s.log i) ∨ o.executed = none ∧ o.call.FromCache o.trace reply := by
  have hfin := hs.finished o ho
  rcases hfin.ends reply hret with ⟨r, hr, -, rfl, -⟩ | ⟨hx, hcache⟩
  · obtain ⟨i, hexec, hlog⟩ := hfin.logged.executed r hr
    exact Or.inl ⟨i, hexec, r, hlog, hret⟩
  · exact Or.inr ⟨hfin.logged.executed_eq_none hx, hcache⟩

/-- A stat that is returned has been learnt. -/
theorem Orderly.learns_stat (hs : Orderly s) (hf : f ∈ s.finished) {path : WString}
    {stat : FileStat} (hcall : f.call = .statFile path) (hret : f.result = .ok (.stat stat)) :
    f.Learns (.stat (win32PathToUnix path)) stat := by
  rcases (hs.finished f hf).ends _ hret with ⟨r, hr, -, hreply, -⟩ | ⟨-, hcache⟩
  · refine Or.inr ⟨r, hr, ?_⟩
    rw [hcall]
    cases r with
    | stat stat' => exact ⟨rfl, (Reply.stat.inj hreply).symm⟩
    | _ => cases hreply
  · rw [hcall] at hcache
    rcases hcache with ⟨stat', heq, hmem⟩ | heq
    · obtain rfl := Reply.stat.inj heq
      exact Or.inl ⟨_, hmem, rfl, rfl⟩
    · cases heq

/-- The names and the stats in a listing that is returned have been learnt. -/
theorem Orderly.learns_listing (hs : Orderly s) (hf : f ∈ s.finished) {path : WString}
    {entries : List (ByteString × FileStat)} (hcall : f.call = .listFileStats path)
    (hret : f.result = .ok (.listing entries)) :
    (∃ names, f.Learns (.list (win32PathToUnix path)) names ∧
      (entries.map Prod.fst).Sublist names) ∧
    ∀ entry ∈ entries, f.Learns (.stat (getFullPath (win32PathToUnix path) entry.1)) entry.2 := by
  rcases (hs.finished f hf).ends _ hret with ⟨r, hr, -, hreply, -⟩ | ⟨-, hcache⟩
  · cases r with
    | listing items =>
      obtain rfl := Reply.listing.inj hreply
      refine ⟨⟨_, Or.inr ⟨_, hr, ?_⟩, List.Sublist.refl _⟩, fun entry hentry => Or.inr ⟨_, hr, ?_⟩⟩
      · rw [hcall]
        exact ⟨rfl, rfl⟩
      · rw [hcall]
        exact ⟨entry, hentry, rfl, rfl⟩
    | _ => cases hreply
  · rw [hcall] at hcache
    obtain ⟨answers, τ', htrace, hlooks, heq⟩ := hcache
    obtain rfl := Reply.listing.inj heq
    constructor
    · have hmem : Event.call (.getList (win32PathToUnix path)) (some (answers.map Prod.fst)) ∈
          f.trace := by
        rw [htrace]
        exact List.mem_cons_self
      exact ⟨answers.map Prod.fst, Or.inl ⟨_, hmem, rfl, rfl⟩, hits_map_fst_sublist answers⟩
    · intro entry hentry
      have hmem := List.mem_cons_of_mem
        (.call (.getList (win32PathToUnix path)) (some (answers.map Prod.fst)))
        (hlooks.finds_of_mem hentry)
      rw [← htrace] at hmem
      exact Or.inl ⟨_, hmem, rfl, rfl⟩

end System

/-! ## A small device -/

/-- A device with one directory and a file `f` in it. -/
structure Device where
  dir : ByteString
  size : ℕ
  writeTime : Int64

namespace Device

/-- The path of the file. -/
def file (d : Device) : ByteString :=
  getFullPath d.dir [102]

/-- The directory can be listed and renamed, and the file can be opened, truncated and given a
time.  An offset that is negative is `EINVAL`.  Everything else fails. -/
def kernel : Kernel Device := fun e d =>
  match e with
  | .stat path =>
      (if path = d.dir then .ok ⟨0o40755, 0, 0, 0⟩
        else if path = d.file then .ok ⟨0o100644, Int64.ofNat d.size, 0, d.writeTime⟩
        else .error .enoent, d)
  | .opendir path => (if path = d.dir then .ok [⟨[102], by decide⟩] else .error .enoent, d)
  | .rename fromPath toPath =>
      if fromPath = d.dir then (.ok (), { d with dir := toPath }) else (.error .enoent, d)
  | .openFile path flags _ =>
      if path = d.file then (.ok ⟨4, by decide⟩, if flags.trunc then { d with size := 0 } else d)
      else (.error .enoent, d)
  | .ftruncate _ length => (.ok (), { d with size := length.toNatClampNeg })
  | .utimensat path _ modification =>
      if path = d.file then
        (.ok (), match modification with
          | .omit => d
          | .seconds tvSec => { d with writeTime := tvSec })
      else (.error .enoent, d)
  | .close _ => (.ok (), d)
  | .lseek _ offset => (if offset < 0 then .error (.other 22) else .ok (), d)
  | .unlink _ => (.error .eacces, d)
  | .rmdir _ => (.error .enotempty, d)
  | .mkdir _ _ => (.error .eacces, d)
  | .read _ _ => (.error .eacces, d)
  | .write _ _ => (.error .eacces, d)
  | .statvfs _ => (.error .eacces, d)
  | .access _ => (.error .eacces, d)

/-- The directory `/d`, with five bytes in `/d/f`. -/
def start : System Device := .new ⟨[47, 100], 5, 7⟩ 0

theorem reachable_start (Ok : Action Device → System Device → Prop) :
    System.Reachable .windows (.unix .little) kernel Ok start :=
  .new _ _

/-- A thread calls a method and runs alone until it has taken this many steps. -/
def visit (t : ℕ) (c : Call) (steps : ℕ) : List (Action Device) :=
  .start t c 5 :: List.replicate steps (.step t 1)

end Device

/-- What a method handed to `consume_stat`, in this order. -/
def Visit.handed (visit : Visit) : List WString :=
  visit.trace.filterMap Event.handed?

/-- What is left of a method that has ended. -/
structure Account where
  call : Call
  started : ℕ
  executed : Option ℕ
  returned : ℕ
  handed : List WString
  result : Except Exn Reply
  deriving DecidableEq

def Finished.account (f : Finished) : Account where
  call := f.call
  started := f.started
  executed := f.executed
  returned := f.returned
  handed := f.handed
  result := f.result

theorem System.exists_of_account {K : Type} {s : System K} {accounts : List Account}
    (haccounts : s.finished.map Finished.account = accounts) {account : Account}
    (hmem : account ∈ accounts) : ∃ f ∈ s.finished, f.account = account := by
  rw [← haccounts] at hmem
  exact List.mem_map.mp hmem

theorem Finished.returned_lt_started {o f : Finished} {a b : Account} (ho : o.account = a)
    (hf : f.account = b) (hlt : a.returned < b.started) : o.returned < f.started := by
  subst ho hf
  exact hlt

/-! ## Methods that invalidate what they change -/

namespace Call

/-- The method changes what a stat of the path gives. -/
def AltersStat (p : ByteString) : Call → Prop
  | .createDirectory path => p = win32PathToUnix path
  | .removeFile path => p = win32PathToUnix path
  | .removeDirectory path => p = win32PathToUnix path
  | .setFileTime path _ _ => p = win32PathToUnix path
  | .moveEntry fromPath toPath _ => p = win32PathToUnix fromPath ∨ p = win32PathToUnix toPath
  | _ => False

/-- The method changes which names the parent of the path has. -/
def AltersListing (p : ByteString) : Call → Prop
  | .createDirectory path => p = win32PathToUnix path
  | .removeFile path => p = win32PathToUnix path
  | .removeDirectory path => p = win32PathToUnix path
  | .moveEntry fromPath toPath _ => p = win32PathToUnix fromPath ∨ p = win32PathToUnix toPath
  | .openFile path mode _ _ => mode.Creates ∧ p = win32PathToUnix path
  | _ => False

theorem early_of_altersStat {c : Call} {p : ByteString} (hc : c.AltersStat p) :
    c.request.Early (.stat p) := by
  cases c with
  | createDirectory path => exact hc
  | removeFile path => exact hc
  | removeDirectory path => exact hc
  | setFileTime path accessTime writeTime => exact congrArg Key.stat hc
  | moveEntry fromPath toPath replaceIfExists => exact hc
  | _ => exact hc.elim

theorem early_or_late_of_altersListing {c : Call} {p dir : ByteString} (hc : c.AltersListing p)
    (hdir : getParentPath p = some dir) :
    c.request.Early (.list dir) ∨ c.request.Late (.list dir) := by
  have about {q : ByteString} (hq : p = q) : (Key.list dir).About q := by
    rw [hq] at hdir
    exact hdir
  cases c with
  | createDirectory path => exact Or.inl (about hc)
  | removeFile path => exact Or.inl (about hc)
  | removeDirectory path => exact Or.inl (about hc)
  | moveEntry fromPath toPath replaceIfExists =>
    rcases hc with hc | hc
    · exact Or.inl (Or.inl (about hc))
    · exact Or.inl (Or.inr (about hc))
  | openFile path mode readAccess writeAccess => exact Or.inr ⟨hc.1, about hc.2⟩
  | _ => exact hc.elim

theorem not_fromCache_of_altersStat {c : Call} {p : ByteString} (hc : c.AltersStat p)
    {τ : List Event} {reply : Reply} : ¬c.FromCache τ reply := by
  cases c with
  | statFile path => exact hc.elim
  | listFileStats path => exact hc.elim
  | openFile path mode readAccess writeAccess => exact hc.elim
  | _ => exact id

/-- The only change of a listing that a method may decline by itself is the creation of a
`desktop.ini`. -/
theorem openFile_of_altersListing {c : Call} {p : ByteString} (hc : c.AltersListing p)
    {τ : List Event} {reply : Reply} (hcache : c.FromCache τ reply) :
    reply = .status .genericFailure ∧
      ∃ path mode readAccess writeAccess, c = .openFile path mode readAccess writeAccess ∧
        Connection.endsWithDesktopIni (win32PathToUnix path) = true := by
  cases c with
  | statFile path => exact hc.elim
  | listFileStats path => exact hc.elim
  | openFile path mode readAccess writeAccess =>
    exact ⟨hcache.2, path, mode, readAccess, writeAccess, rfl, hcache.1⟩
  | _ => exact hcache.elim

end Call

/-- The exchange makes its method invalidate the key. -/
def Invalidated (_ : List Exchange) (x : Exchange) (key : Key) : Prop :=
  x.request.Early key ∨ x.request.Late key

theorem not_gives_of_invalidated {log : List Exchange} {x : Exchange} {key : Key} {v : key.Value}
    (hx : Invalidated log x key) : ¬x.Gives key v := by
  obtain ⟨q, r⟩ := x
  cases q with
  | statFile path => exact hx.elim False.elim False.elim
  | listDirectory path => exact hx.elim False.elim False.elim
  | _ => exact id

namespace System

variable {K : Type} {h h' : Host} {call : Kernel K} {s : System K} {o f : Finished}

/-- **Later requests see the change.**  Once a method has returned that changes the stat of a path,
every stat of the path by a call that starts later was produced by the daemon after it had executed
the method.  Once one has returned that changes the names in a directory, every listing of the
directory by a call that starts later uses names that the daemon produced after it had executed the
method.  The exception is a `desktop.ini`: the client refuses to create one, and the daemon has then
executed nothing. -/
def LaterCallsSeeChanges (s : System K) : Prop :=
  ∀ o ∈ s.finished, ∀ f ∈ s.finished, o.returned < f.started → ∀ reply, o.result = .ok reply →
    (∀ p, o.call.AltersStat p → ∃ i, o.ExecutedAt s.log i ∧
      ∀ path stat, f.call = .statFile path → win32PathToUnix path = p →
        f.result = .ok (.stat stat) → ∃ j, i < j ∧ GivenAt s.log j (.stat p) stat) ∧
    (∀ p dir, o.call.AltersListing p → getParentPath p = some dir →
      (∃ i, o.ExecutedAt s.log i ∧
        ∀ path, f.call = .listFileStats path → win32PathToUnix path = dir →
          (∀ names, f.Learns (.list dir) names → ∃ j, i < j ∧ GivenAt s.log j (.list dir) names) ∧
          ∀ entries, f.result = .ok (.listing entries) →
            ∃ names, f.Learns (.list dir) names ∧ (entries.map Prod.fst).Sublist names) ∨
      o.executed = none ∧ reply = .status .genericFailure ∧
        ∃ path mode readAccess writeAccess, o.call = .openFile path mode readAccess writeAccess ∧
          Connection.endsWithDesktopIni (win32PathToUnix path) = true)

/-- In every run of any number of threads that is in step, later requests see the change. -/
theorem later_calls_see_changes (hs : Reachable h h' call (InStep call) s) :
    s.LaterCallsSeeChanges := by
  have hord := Orderly.of_reachable hs
  have hcoh : Coherent Invalidated s := by
    refine Coherent.of_reachable (fun _ _ _ _ => not_gives_of_invalidated) (hs.mono ?_)
    refine fun a s hin => ⟨hin, fun x _ key hkey => ?_⟩
    exact hkey.elim Or.inl fun hlate => Or.inr (Or.inl hlate)
  intro o ho f hf hlt reply hret
  constructor
  · intro p hp
    rcases hord.executedAt_of_ok ho hret with ⟨i, hi⟩ | ⟨-, hcache⟩
    · refine ⟨i, hi, fun path stat hcall hpath hstat => ?_⟩
      obtain ⟨hexec, r, hlog, -⟩ := hi
      have htouched : TouchedAt Invalidated s.log i (.stat p) :=
        ⟨_, hlog, Or.inl (Call.early_of_altersStat hp)⟩
      have hlearns := hord.learns_stat hf hcall hstat
      rw [hpath] at hlearns
      exact learns_after hcoh hord ho hf hlt hexec htouched hlearns
    · exact (Call.not_fromCache_of_altersStat hp hcache).elim
  · intro p dir hp hdir
    rcases hord.executedAt_of_ok ho hret with ⟨i, hi⟩ | ⟨hexec, hcache⟩
    · refine Or.inl ⟨i, hi, fun path hcall hpath => ⟨fun names hlearns => ?_, ?_⟩⟩
      · obtain ⟨hexec, r, hlog, -⟩ := hi
        have htouched : TouchedAt Invalidated s.log i (.list dir) :=
          ⟨_, hlog, Call.early_or_late_of_altersListing hp hdir⟩
        exact learns_after hcoh hord ho hf hlt hexec htouched hlearns
      · intro entries hlisting
        have hlearns := (hord.learns_listing hf hcall hlisting).1
        rwa [hpath] at hlearns
    · exact Or.inr ⟨hexec, Call.openFile_of_altersListing hp hcache⟩

/-- A stat of `/d/f` is cached, the times of `/d/f` are set, and `/d/f` is inspected again. -/
theorem later_calls_see_changes_setFileTime :
    ∃ s : System Device,
      Reachable .windows (.unix .little) Device.kernel (InStep Device.kernel) s ∧
      s.LaterCallsSeeChanges ∧ s.finished.map Finished.account =
        [⟨.statFile [92, 100, 92, 102], 0, some 0, 1, [], .ok (.stat ⟨33188, 5, 0, 7⟩)⟩,
          ⟨.setFileTime [92, 100, 92, 102] 0 90000000, 2, some 1, 3, [], .ok (.status .success)⟩,
          ⟨.statFile [92, 100, 92, 102], 4, some 2, 5, [],
            .ok (.stat ⟨33188, 5, 0, 90000000⟩)⟩] := by
  obtain ⟨s, hs, haccounts⟩ := (Device.reachable_start (InStep Device.kernel)).exists_of_replay
    (fun a s => decide (InStep Device.kernel a s)) (fun _ _ _ => of_decide_eq_true)
    (Device.visit 0 (.statFile [92, 100, 92, 102]) 14 ++
      Device.visit 1 (.setFileTime [92, 100, 92, 102] 0 90000000) 11 ++
      Device.visit 2 (.statFile [92, 100, 92, 102]) 14)
    (fun s => decide (s.finished.map Finished.account =
      [⟨.statFile [92, 100, 92, 102], 0, some 0, 1, [], .ok (.stat ⟨33188, 5, 0, 7⟩)⟩,
        ⟨.setFileTime [92, 100, 92, 102] 0 90000000, 2, some 1, 3, [], .ok (.status .success)⟩,
        ⟨.statFile [92, 100, 92, 102], 4, some 2, 5, [], .ok (.stat ⟨33188, 5, 0, 90000000⟩)⟩]))
    (by decide +kernel)
  exact ⟨s, hs, later_calls_see_changes hs, of_decide_eq_true haccounts⟩

/-- A write to the offset `-1` fails before its payload has been read.  The payload, a request to
close a handle and one to inspect `/d/f`, is then taken for requests, and their answers are left on
the connection.  The times of `/d/f` are set: the method reads the answer to the close.  `/d/f` is
inspected: the method reads the stat from before the times were set. -/
theorem not_later_calls_see_changes_writeToFile :
    ¬∀ s : System Device,
      Reachable .windows (.unix .little) Device.kernel (fun _ _ => True) s →
        s.LaterCallsSeeChanges := by
  intro hall
  obtain ⟨s, hs, hend⟩ := (Device.reachable_start fun _ _ => True).exists_of_replay
    (fun _ _ => true) (fun _ _ _ _ => trivial)
    (Device.visit 0 (.writeToFile 3 18446744073709551615
        ⟨[9, 0, 0, 0, 9, 0, 0, 4, 47, 100, 47, 102], by decide⟩) 9 ++
      Device.visit 1 (.setFileTime [92, 100, 92, 102] 0 90000000) 10 ++
      Device.visit 2 (.statFile [92, 100, 92, 102]) 14)
    (fun s => decide (s.finished.map Finished.account =
        [⟨.writeToFile 3 18446744073709551615
            ⟨[9, 0, 0, 0, 9, 0, 0, 4, 47, 100, 47, 102], by decide⟩,
            0, none, 1, [], .ok (.status .genericFailure)⟩,
          ⟨.setFileTime [92, 100, 92, 102] 0 90000000, 2, some 0, 3, [], .ok (.status .success)⟩,
          ⟨.statFile [92, 100, 92, 102], 4, some 1, 5, [], .ok (.stat ⟨33188, 5, 0, 7⟩)⟩] ∧
      s.log = [⟨.setFileTime ⟨[47, 100, 47, 102], 0, 90000000⟩, .status .success⟩,
        ⟨.statFile [47, 100, 47, 102], .stat ⟨33188, 5, 0, 90000000⟩⟩]))
    (by decide +kernel)
  obtain ⟨haccounts, hlog⟩ := of_decide_eq_true hend
  obtain ⟨o, ho, hoa⟩ := exists_of_account haccounts (.tail _ (.head _))
  obtain ⟨f, hf, hfa⟩ := exists_of_account haccounts (.tail _ (.tail _ (.head _)))
  have hlt : o.returned < f.started := Finished.returned_lt_started hoa hfa (by decide)
  have hp : o.call.AltersStat [47, 100, 47, 102] := by
    rw [show o.call = _ from congrArg Account.call hoa]
    show [47, 100, 47, 102] = win32PathToUnix [92, 100, 92, 102]
    decide +kernel
  obtain ⟨i, hi, hafter⟩ :=
    (hall s hs o ho f hf hlt _ (congrArg Account.result hoa)).1 _ hp
  obtain rfl : 0 = i :=
    Option.some.inj ((show o.executed = some 0 from congrArg Account.executed hoa).symm.trans hi.1)
  obtain ⟨j, hj, e, he, hgives⟩ := hafter _ _ (congrArg Account.call hfa) (by decide +kernel)
    (congrArg Account.result hfa)
  -- the only exchange after the change gave another stat
  rw [hlog] at he
  obtain rfl : j = 1 := by
    have hlen := (List.getElem?_eq_some_iff.mp he).1
    simp only [List.length_cons, List.length_nil] at hlen
    omega
  obtain rfl := Option.some.inj he
  exact absurd hgives.2 (by decide)

end System

end NandroidFS
