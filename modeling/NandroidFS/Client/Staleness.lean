import NandroidFS.Client.Freshness

/-!
# What is not invalidated

Two things that one would expect of the caches, and that the methods do not see to.

* `System.StatsFollowRewrites`: a stat of a file that has been rewritten is new.  The methods that
  rewrite a file invalidate no stat; two of them know only a handle.
* `System.AnswersFollowMoves`: nothing at or below a directory that has been moved or removed is
  answered from before.  The methods invalidate the stat of the directory and the listing of its
  parent, and none of the keys below it.

Each holds in every run that is in step and in which the missing invalidation would have had nothing
to do, and each fails in a run of three requests.
-/

namespace NandroidFS

/-! ## Files that are rewritten -/

/-- The path on which the exchange opened the handle. -/
def Exchange.opens? (handle : FileHandle) : Exchange → Option ByteString
  | ⟨.openHandle args, .opened handle'⟩ => if handle' = handle then some args.path else none
  | _ => none

/-- The path on which the handle was opened last. -/
def handlePath (log : List Exchange) (handle : FileHandle) : Option ByteString :=
  log.reverse.findSome? (Exchange.opens? handle)

/-- The file whose contents the exchange has changed: a truncating open, a write or a change of
length that succeeded. -/
def Exchange.rewrites? (log : List Exchange) : Exchange → Option ByteString
  | ⟨.openHandle args, .opened _⟩ =>
      if args.mode = .truncate ∨ args.mode = .createOrTruncate then some args.path else none
  | ⟨.writeHandle handle _ _, .status .success⟩ => handlePath log handle
  | ⟨.truncateHandle args, .status .success⟩ => handlePath log args.handle
  | _ => none

/-- The exchange rewrites the file whose stat is cached under the key. -/
def Rewritten (log : List Exchange) (x : Exchange) (key : Key) : Prop :=
  ∃ p, x.rewrites? log = some p ∧ key = .stat p

theorem not_gives_of_rewritten {log : List Exchange} {x : Exchange} {key : Key} {v : key.Value}
    (hx : Rewritten log x key) : ¬x.Gives key v := by
  obtain ⟨q, r⟩ := x
  obtain ⟨p, hp, -⟩ := hx
  cases q with
  | statFile path => cases hp
  | listDirectory path => cases hp
  | _ => exact id

namespace System

variable {K : Type} {h h' : Host} {call : Kernel K} {s : System K}

/-- **A stat of a file that has been rewritten is new.**  Once a method that rewrites a file has
returned successfully, every stat of the file by a call that starts later was produced by the
daemon after it had executed the method. -/
def StatsFollowRewrites (s : System K) : Prop :=
  ∀ o ∈ s.finished, ∀ f ∈ s.finished, o.returned < f.started →
    ∀ i x p, o.ExecutedAt s.log i → s.log[i]? = some x → x.rewrites? (s.log.take i) = some p →
      ∀ path stat, f.call = .statFile path → win32PathToUnix path = p →
        f.result = .ok (.stat stat) → ∃ j, i < j ∧ GivenAt s.log j (.stat p) stat

/-- When the daemon rewrites a file, no stat of it can be found. -/
def RewritesUncached (call : Kernel K) (a : Action K) (s : System K) : Prop :=
  ∀ x ∈ exchange? call a s, ∀ p ∈ x.rewrites? s.log, s.caches.find s.clock (.stat p) = none

instance (a : Action K) (s : System K) : Decidable (RewritesUncached call a s) :=
  inferInstanceAs (Decidable (∀ x ∈ exchange? call a s, ∀ p ∈ x.rewrites? s.log,
    s.caches.stat.getCached p s.clock = none))

/-- In every run that is in step and in which no stat of a file can be found while the file is
rewritten, later stats of it are new. -/
theorem statsFollowRewrites_of_uncached
    (hs : Reachable h h' call (fun a s => InStep call a s ∧ RewritesUncached call a s) s) :
    s.StatsFollowRewrites := by
  have hord := Orderly.of_reachable (hs.mono fun _ _ hok => hok.1)
  have hcoh : Coherent Rewritten s := by
    refine Coherent.of_reachable (fun _ _ _ _ => not_gives_of_rewritten) (hs.mono ?_)
    refine fun a s hok => ⟨hok.1, ?_⟩
    rintro x hx key ⟨p, hp, rfl⟩
    exact Or.inr (Or.inr (hok.2 x hx p hp))
  intro o ho f hf hlt i x p hi hx hp path stat hcall hpath hret
  have hlearns := hord.learns_stat hf hcall hret
  rw [hpath] at hlearns
  exact learns_after hcoh hord ho hf hlt hi.1 ⟨x, hx, p, hp, rfl⟩ hlearns

/-- `/d/f` is truncated, and then inspected. -/
theorem statsFollowRewrites_of_uncached_truncate :
    ∃ s : System Device,
      Reachable .windows (.unix .little) Device.kernel
        (fun a s => InStep Device.kernel a s ∧ RewritesUncached Device.kernel a s) s ∧
      s.StatsFollowRewrites ∧ s.finished.map Finished.account =
        [⟨.openFile [92, 100, 92, 102] .truncate true true, 0, some 0, 1, [], .ok (.opened 4)⟩,
          ⟨.statFile [92, 100, 92, 102], 2, some 1, 3, [], .ok (.stat ⟨33188, 0, 0, 7⟩)⟩] := by
  obtain ⟨s, hs, haccounts⟩ := (Device.reachable_start _).exists_of_replay
    (fun a s => decide (InStep Device.kernel a s ∧ RewritesUncached Device.kernel a s))
    (fun _ _ _ => of_decide_eq_true)
    (Device.visit 0 (.openFile [92, 100, 92, 102] .truncate true true) 9 ++
      Device.visit 0 (.statFile [92, 100, 92, 102]) 14)
    (fun s => decide (s.finished.map Finished.account =
      [⟨.openFile [92, 100, 92, 102] .truncate true true, 0, some 0, 1, [], .ok (.opened 4)⟩,
        ⟨.statFile [92, 100, 92, 102], 2, some 1, 3, [], .ok (.stat ⟨33188, 0, 0, 7⟩)⟩]))
    (by decide +kernel)
  exact ⟨s, hs, statsFollowRewrites_of_uncached hs, of_decide_eq_true haccounts⟩

/-- `/d/f` has five bytes.  It is inspected, truncated, and inspected again within 200 milliseconds:
the second stat is the first, with five bytes. -/
theorem not_statsFollowRewrites_truncate :
    ¬∀ s : System Device,
      Reachable .windows (.unix .little) Device.kernel (fun _ _ => True) s →
        s.StatsFollowRewrites := by
  intro hall
  obtain ⟨s, hs, hend⟩ := (Device.reachable_start fun _ _ => True).exists_of_replay
    (fun _ _ => true) (fun _ _ _ _ => trivial)
    (Device.visit 0 (.statFile [92, 100, 92, 102]) 14 ++
      Device.visit 0 (.openFile [92, 100, 92, 102] .truncate true true) 9 ++
      Device.visit 0 (.statFile [92, 100, 92, 102]) 2)
    (fun s => decide (s.finished.map Finished.account =
        [⟨.statFile [92, 100, 92, 102], 0, some 0, 1, [], .ok (.stat ⟨33188, 5, 0, 7⟩)⟩,
          ⟨.openFile [92, 100, 92, 102] .truncate true true, 2, some 1, 3, [], .ok (.opened 4)⟩,
          ⟨.statFile [92, 100, 92, 102], 4, none, 5, [], .ok (.stat ⟨33188, 5, 0, 7⟩)⟩] ∧
      s.log = [⟨.statFile [47, 100, 47, 102], .stat ⟨33188, 5, 0, 7⟩⟩,
        ⟨.openHandle ⟨[47, 100, 47, 102], .truncate, true, true⟩, .opened 4⟩]))
    (by decide +kernel)
  obtain ⟨haccounts, hlog⟩ := of_decide_eq_true hend
  obtain ⟨o, ho, hoa⟩ := exists_of_account haccounts (.tail _ (.head _))
  obtain ⟨f, hf, hfa⟩ := exists_of_account haccounts (.tail _ (.tail _ (.head _)))
  have hlt : o.returned < f.started := Finished.returned_lt_started hoa hfa (by decide)
  have hi : o.ExecutedAt s.log 1 := by
    refine ⟨congrArg Account.executed hoa, .opened 4, ?_, congrArg Account.result hoa⟩
    rw [hlog, show o.call = _ from congrArg Account.call hoa]
    decide +kernel
  obtain ⟨j, hj, e, he, -⟩ := hall s hs o ho f hf hlt 1 _ [47, 100, 47, 102] hi
    (by rw [hlog]; rfl) (by rw [hlog]; rfl) _ _ (congrArg Account.call hfa) (by decide +kernel)
    (congrArg Account.result hfa)
  -- nothing was produced after the truncation
  have hlen := (List.getElem?_eq_some_iff.mp he).1
  rw [hlog] at hlen
  exact Nat.not_le.mpr hlen hj

end System

/-! ## Directories that are moved or removed -/

/-- The path is the given one or a path below it. -/
def Under (p q : ByteString) : Prop :=
  q = p ∨ ∃ rest, q = getFullPath p rest

theorem under_getFullPath {p q : ByteString} (hq : Under p q) (name : ByteString) :
    Under p (getFullPath q name) := by
  rcases hq with rfl | ⟨rest, rfl⟩
  · exact Or.inr ⟨name, rfl⟩
  · right
    unfold getFullPath
    by_cases hslash : endsWithSlash ((if endsWithSlash p then p else p ++ [slash]) ++ rest)
    · refine ⟨rest ++ name, ?_⟩
      rw [if_pos hslash, List.append_assoc]
    · refine ⟨rest ++ [slash] ++ name, ?_⟩
      rw [if_neg hslash]
      simp only [List.append_assoc]

/-- The path under which something is cached. -/
def Key.path : Key → ByteString
  | .stat path => path
  | .list path => path

/-- The paths whose meaning the exchange has changed: those of a move or a removal of a directory
that succeeded. -/
def Exchange.relocates : Exchange → List ByteString
  | ⟨.moveEntry args, .status .success⟩ => [args.fromPath, args.toPath]
  | ⟨.removeDirectory path, .status .success⟩ => [path]
  | _ => []

/-- The exchange moves or removes a directory at or above the key. -/
def Relocated (_ : List Exchange) (x : Exchange) (key : Key) : Prop :=
  ∃ p ∈ x.relocates, Under p key.path

theorem not_gives_of_relocated {log : List Exchange} {x : Exchange} {key : Key} {v : key.Value}
    (hx : Relocated log x key) : ¬x.Gives key v := by
  obtain ⟨q, r⟩ := x
  obtain ⟨p, hp, -⟩ := hx
  cases q with
  | statFile path => cases hp
  | listDirectory path => cases hp
  | _ => exact id

namespace System

variable {K : Type} {h h' : Host} {call : Kernel K} {s : System K}

/-- **Nothing at or below a directory that has been moved or removed is answered from before.**
Once the method has returned successfully, every stat and every listing of such a path by a call
that starts later was produced by the daemon after it had executed the method.  A listing is made of
names and of stats, and this holds of both. -/
def AnswersFollowMoves (s : System K) : Prop :=
  ∀ o ∈ s.finished, ∀ f ∈ s.finished, o.returned < f.started →
    ∀ i x p q, o.ExecutedAt s.log i → s.log[i]? = some x → p ∈ x.relocates → Under p q →
      ∀ path, win32PathToUnix path = q →
        (∀ stat, f.call = .statFile path → f.result = .ok (.stat stat) →
          ∃ j, i < j ∧ GivenAt s.log j (.stat q) stat) ∧
        ∀ entries, f.call = .listFileStats path → f.result = .ok (.listing entries) →
          (∃ j names, i < j ∧ GivenAt s.log j (.list q) names ∧
            (entries.map Prod.fst).Sublist names) ∧
          ∀ entry ∈ entries, ∃ j, i < j ∧
            GivenAt s.log j (.stat (getFullPath q entry.1)) entry.2

/-- When the daemon moves or removes a directory, nothing at or below its paths can be found. -/
def MovesUncached (call : Kernel K) (a : Action K) (s : System K) : Prop :=
  ∀ x ∈ exchange? call a s, ∀ p ∈ x.relocates, ∀ q, Under p q →
    s.caches.find s.clock (.stat q) = none ∧ s.caches.find s.clock (.list q) = none

/-- In every run that is in step and in which nothing at or below a directory can be found while the
directory is moved or removed, later answers about it are new. -/
theorem answersFollowMoves_of_uncached
    (hs : Reachable h h' call (fun a s => InStep call a s ∧ MovesUncached call a s) s) :
    s.AnswersFollowMoves := by
  have hord := Orderly.of_reachable (hs.mono fun _ _ hok => hok.1)
  have hcoh : Coherent Relocated s := by
    refine Coherent.of_reachable (fun _ _ _ _ => not_gives_of_relocated) (hs.mono ?_)
    refine fun a s hok => ⟨hok.1, ?_⟩
    rintro x hx key ⟨p, hp, hunder⟩
    have hnone := hok.2 x hx p hp key.path hunder
    cases key with
    | stat path => exact Or.inr (Or.inr hnone.1)
    | list path => exact Or.inr (Or.inr hnone.2)
  intro o ho f hf hlt i x p q hi hx hp hq path hpath
  have after {key : Key} {v : key.Value} (hv : f.Learns key v) (hkey : Under p key.path) :
      ∃ j, i < j ∧ GivenAt s.log j key v :=
    learns_after hcoh hord ho hf hlt hi.1 ⟨x, hx, p, hp, hkey⟩ hv
  subst hpath
  refine ⟨fun stat hcall hret => after (hord.learns_stat hf hcall hret) hq, ?_⟩
  intro entries hcall hret
  obtain ⟨⟨names, hnames, hsub⟩, hstats⟩ := hord.learns_listing hf hcall hret
  constructor
  · obtain ⟨j, hj, hgiven⟩ := after hnames hq
    exact ⟨j, names, hj, hgiven, hsub⟩
  · intro entry hentry
    exact after (hstats entry hentry) (under_getFullPath hq entry.1)

/-- Before the first exchange nothing can be found. -/
theorem find_eq_none_of_log (hs : Reachable h h' call (InStep call) s) (hlog : s.log = [])
    (key : Key) : s.caches.find s.clock key = none := by
  have hcoh : Coherent (fun _ _ _ => False) s :=
    Coherent.of_reachable (fun _ _ _ _ => False.elim)
      (hs.mono fun _ _ hin => ⟨hin, fun _ _ _ hfalse => hfalse.elim⟩)
  rw [Option.eq_none_iff_forall_ne_some]
  intro v hv
  obtain ⟨j, ⟨e, he, -⟩, -⟩ := hcoh.cache key v hv
  rw [hlog] at he
  cases he

/-- `/d` is moved to `/e`, and then `/e/f` is inspected. -/
theorem answersFollowMoves_of_uncached_moveEntry :
    ∃ s : System Device,
      Reachable .windows (.unix .little) Device.kernel
        (fun a s => InStep Device.kernel a s ∧ MovesUncached Device.kernel a s) s ∧
      s.AnswersFollowMoves ∧ s.finished.map Finished.account =
        [⟨.moveEntry [92, 100] [92, 101] false, 0, some 0, 1, [], .ok (.status .success)⟩,
          ⟨.statFile [92, 101, 92, 102], 2, some 1, 3, [], .ok (.stat ⟨33188, 5, 0, 7⟩)⟩] := by
  obtain ⟨s, hs, haccounts⟩ := (Device.reachable_start fun a s =>
      InStep Device.kernel a s ∧ MovesUncached Device.kernel a s).exists_of_replay
    (fun a s => decide (InStep Device.kernel a s ∧
      ∀ x ∈ exchange? Device.kernel a s, x.relocates = [] ∨ s.log = []))
    (fun a s hs hcheck => by
      refine ⟨(of_decide_eq_true hcheck).1, fun x hx p hp q _ => ?_⟩
      have hs := hs.mono fun _ _ hok => hok.1
      rcases (of_decide_eq_true hcheck).2 x hx with hnil | hlog
      · rw [hnil] at hp
        cases hp
      · exact ⟨find_eq_none_of_log hs hlog _, find_eq_none_of_log hs hlog _⟩)
    (Device.visit 0 (.moveEntry [92, 100] [92, 101] false) 12 ++
      Device.visit 0 (.statFile [92, 101, 92, 102]) 14)
    (fun s => decide (s.finished.map Finished.account =
      [⟨.moveEntry [92, 100] [92, 101] false, 0, some 0, 1, [], .ok (.status .success)⟩,
        ⟨.statFile [92, 101, 92, 102], 2, some 1, 3, [], .ok (.stat ⟨33188, 5, 0, 7⟩)⟩]))
    (by decide +kernel)
  exact ⟨s, hs, answersFollowMoves_of_uncached hs, of_decide_eq_true haccounts⟩

/-- `/d/f` is inspected, `/d` is moved to `/e`, and `/d/f` is inspected again within 200
milliseconds: it is still there. -/
theorem not_answersFollowMoves_moveEntry :
    ¬∀ s : System Device,
      Reachable .windows (.unix .little) Device.kernel (fun _ _ => True) s →
        s.AnswersFollowMoves := by
  intro hall
  obtain ⟨s, hs, hend⟩ := (Device.reachable_start fun _ _ => True).exists_of_replay
    (fun _ _ => true) (fun _ _ _ _ => trivial)
    (Device.visit 0 (.statFile [92, 100, 92, 102]) 14 ++
      Device.visit 0 (.moveEntry [92, 100] [92, 101] false) 12 ++
      Device.visit 0 (.statFile [92, 100, 92, 102]) 2)
    (fun s => decide (s.finished.map Finished.account =
        [⟨.statFile [92, 100, 92, 102], 0, some 0, 1, [], .ok (.stat ⟨33188, 5, 0, 7⟩)⟩,
          ⟨.moveEntry [92, 100] [92, 101] false, 2, some 1, 3, [], .ok (.status .success)⟩,
          ⟨.statFile [92, 100, 92, 102], 4, none, 5, [], .ok (.stat ⟨33188, 5, 0, 7⟩)⟩] ∧
      s.log = [⟨.statFile [47, 100, 47, 102], .stat ⟨33188, 5, 0, 7⟩⟩,
        ⟨.moveEntry ⟨[47, 100], [47, 101], false⟩, .status .success⟩]))
    (by decide +kernel)
  obtain ⟨haccounts, hlog⟩ := of_decide_eq_true hend
  obtain ⟨o, ho, hoa⟩ := exists_of_account haccounts (.tail _ (.head _))
  obtain ⟨f, hf, hfa⟩ := exists_of_account haccounts (.tail _ (.tail _ (.head _)))
  have hlt : o.returned < f.started := Finished.returned_lt_started hoa hfa (by decide)
  have hi : o.ExecutedAt s.log 1 := by
    refine ⟨congrArg Account.executed hoa, .status .success, ?_, congrArg Account.result hoa⟩
    rw [hlog, show o.call = _ from congrArg Account.call hoa]
    decide +kernel
  have hunder : Under [47, 100] [47, 100, 47, 102] := Or.inr ⟨[102], by decide⟩
  obtain ⟨j, hj, e, he, -⟩ := (hall s hs o ho f hf hlt 1 _ _ _ hi (by rw [hlog]; rfl) (.head _)
    hunder [92, 100, 92, 102] (by decide +kernel)).1 _ (congrArg Account.call hfa)
    (congrArg Account.result hfa)
  -- nothing was produced after the move
  have hlen := (List.getElem?_eq_some_iff.mp he).1
  rw [hlog] at hlen
  exact Nat.not_le.mpr hlen hj

end System

end NandroidFS
