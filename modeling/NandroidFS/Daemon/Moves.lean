import NandroidFS.Daemon.Serve
import NandroidFS.Files.TreeDevice

/-!
# Moves that do not overwrite

`handle_move_entry` looks whether there is something at the destination before it renames.  It looks
with `stat`, which follows a link at the end of the path, and `rename` does not: it replaces the
link. A link that leads nowhere is an entry that `stat` does not see.

`keeps_iff`: without leave to overwrite, a move leaves what is at its destination alone unless that
is such a link; and a move that fails changes nothing.
-/

namespace NandroidFS

open ClientHandler

/-- **The calls of a move, on a POSIX kernel** whose state has a tree. -/
structure PosixMoves {K : Type} (call : Kernel K) where
  tree : K → Tree
  stat_tree : ∀ k path, tree (call (.stat path) k).2 = tree k
  /-- `ENOENT` is not the answer where the path leads to something. -/
  stat_enoent : ∀ k path i, (call (.stat path) k).1 = .error .enoent →
    (tree k).resolve true path ≠ some (.node i)
  rename_error : ∀ k fromPath toPath e, (call (.rename fromPath toPath) k).1 = .error e →
    tree (call (.rename fromPath toPath) k).2 = tree k

/-- Where links are not followed an entry is found, and where they are followed nothing is: the
entry is a link. -/
theorem Tree.linkTarget_of_exists {t : Tree} {path : ByteString} {i : ℕ}
    (hi : t.resolve false path = some (.node i)) (hlost : t.resolve true path ≠ some (.node i)) :
    ∃ target, t.linkTarget i = some target := by
  rw [← Option.ne_none_iff_exists']
  intro hnone
  obtain ⟨d, hd, hwalk⟩ := Option.bind_eq_some_iff.mp hi
  exact hlost (Option.bind_eq_some_iff.mpr ⟨d, hd, Tree.walk_true_of_false hnone hwalk⟩)

/-- Following links does not end at a link. -/
theorem Tree.linkTarget_of_walk_true {t : Tree} {links d i : ℕ} {comps : List Name}
    (hne : comps ≠ []) (h : t.walk true links d comps = some (.node i)) :
    t.linkTarget i = none ∧ (t.nodes i).isSome := by
  have haux (next : ℕ → List Name → Option Found)
      (hnext : ∀ d comps, comps ≠ [] → next d comps = some (.node i) →
        t.linkTarget i = none ∧ (t.nodes i).isSome) (d : ℕ) (comps : List Name) (hne : comps ≠ [])
      (h : t.walkAux true next d comps = some (.node i)) :
      t.linkTarget i = none ∧ (t.nodes i).isSome := by
    induction comps generalizing d with
    | nil => exact (hne rfl).elim
    | cons name rest ih =>
      obtain ⟨j, hj, ⟨hlink, hwalk⟩ | ⟨target, hlink, ⟨-, hfollow, -⟩ | ⟨-, d', -, hwalk⟩⟩⟩ :=
        Tree.walkAux_cons_eq_node.mp h
      · by_cases hrest : rest = []
        · rw [hrest] at hwalk
          obtain rfl : j = i := Found.node.inj (Option.some.inj hwalk)
          exact ⟨hlink, Tree.isSome_of_lookup hj⟩
        · exact ih j hrest hwalk
      · cases hfollow
      · exact hnext d' _ (by simp [components_ne_nil]) hwalk
  induction links generalizing d comps with
  | zero => exact haux _ (fun _ _ _ h => by cases h) d comps hne h
  | succ links ih => exact haux (t.walk true links) (fun _ _ => ih) d comps hne h

namespace PosixMoves

variable {K : Type} {call : Kernel K} (px : PosixMoves call) (args : MoveEntryArgs) (k : K)

/-- What the handler sees at the destination. -/
def seen (call : Kernel K) (args : MoveEntryArgs) (k : K) : Except Errno PosixStat :=
  (call (.stat (cStr args.toPath)) k).1

/-- The outcome of the `rename`, if the handler comes to it. -/
def renamed (call : Kernel K) (args : MoveEntryArgs) (k : K) : Except Errno Unit × K :=
  call (.rename (cStr args.fromPath) (cStr args.toPath)) (call (.stat (cStr args.toPath)) k).2

/-- There is an entry at the destination. -/
def Occupied : Prop :=
  (px.tree k).Exists (cStr args.toPath)

def answer (call : Kernel K) (args : MoveEntryArgs) (k : K) : Response :=
  (serve call (.moveEntry args) k).1

/-- The files are as before. -/
def Untouched : Prop :=
  px.tree (serve call (.moveEntry args) k).2 = px.tree k

/-- **What is promised.**  Without leave to overwrite, an entry at the destination makes the move
fail with `FileExists`, or with the error met in looking at it, and stays as it is; and a move that
is not answered with success has changed nothing. -/
structure Keeps : Prop where
  answer_of_occupied : args.overwrite = false → px.Occupied args k →
    answer call args k = .status .fileExists ∨
      ∃ e, seen call args k = .error e ∧ answer call args k = .status (getStatusFromErrno e)
  untouched_of_occupied : args.overwrite = false → px.Occupied args k → px.Untouched args k
  untouched_of_failed : answer call args k ≠ .status .success → px.Untouched args k

variable {args k}

/-- **The three ways through the handler.** -/
theorem serve_moveEntry_cases (call : Kernel K) (args : MoveEntryArgs) (k : K) :
    (∃ e, seen call args k = .error e ∧ e ≠ .enoent ∧ serve call (.moveEntry args) k =
        (.status (getStatusFromErrno e), (call (.stat (cStr args.toPath)) k).2)) ∨
      (∃ st, seen call args k = .ok st ∧ args.overwrite = false ∧ serve call (.moveEntry args) k =
        (.status .fileExists, (call (.stat (cStr args.toPath)) k).2)) ∨
      ((seen call args k = .error .enoent ∨
          (∃ st, seen call args k = .ok st) ∧ args.overwrite = true) ∧
        serve call (.moveEntry args) k =
          (.status (statusOf (renamed call args k).1), (renamed call args k).2)) := by
  rcases hseen : seen call args k with e | st
  · have hstat : (call (.stat (cStr args.toPath)) k).1 = .error e := hseen
    by_cases he : e = .enoent
    · refine .inr (.inr ⟨.inl (congrArg _ he), ?_⟩)
      simp only [serve, hstat, if_pos he]
      rfl
    · refine .inl ⟨e, rfl, he, ?_⟩
      simp only [serve, hstat, if_neg he]
  · have hstat : (call (.stat (cStr args.toPath)) k).1 = .ok st := hseen
    cases hover : args.overwrite with
    | false =>
      refine .inr (.inl ⟨st, rfl, rfl, ?_⟩)
      simp only [serve, hstat, hover]
      rfl
    | true =>
      refine .inr (.inr ⟨.inr ⟨⟨st, rfl⟩, rfl⟩, ?_⟩)
      simp only [serve, hstat, hover]
      rfl

include px in
theorem tree_renamed_of_error {e : Errno} (h : (renamed call args k).1 = .error e) :
    px.tree (renamed call args k).2 = px.tree k := by
  rw [renamed, px.rename_error _ _ _ e h, px.stat_tree]

/-- **A move that fails changes nothing**, with or without leave to overwrite. -/
theorem untouched_of_answer_ne (h : answer call args k ≠ .status .success) :
    px.Untouched args k := by
  rw [Untouched]
  rw [answer] at h
  obtain ⟨e, -, -, hserve⟩ | ⟨st, -, -, hserve⟩ | ⟨-, hserve⟩ := serve_moveEntry_cases call args k
  · rw [hserve]
    exact px.stat_tree k _
  · rw [hserve]
    exact px.stat_tree k _
  · rw [hserve] at h ⊢
    rcases hren : (renamed call args k).1 with e | ⟨⟩
    · exact px.tree_renamed_of_error hren
    · rw [hren] at h
      exact (h rfl).elim

theorem getStatusFromErrno_eq_fileExists {e : Errno} :
    getStatusFromErrno e = .fileExists ↔ e = .eexist := by
  cases e <;> simp [getStatusFromErrno]

theorem getStatusFromErrno_eq_fileNotFound {e : Errno} :
    getStatusFromErrno e = .fileNotFound ↔ e = .enoent := by
  cases e <;> simp [getStatusFromErrno]

/-- The `rename` fails in one of the two ways that say what the look at the destination says. -/
def RenameRefused (call : Kernel K) (args : MoveEntryArgs) (k : K) : Prop :=
  (renamed call args k).1 = .error .enoent ∨ (renamed call args k).1 = .error .eexist

theorem keeps_iff_of_enoent (hover : args.overwrite = false) (hocc : px.Occupied args k)
    (hseen : seen call args k = .error .enoent) :
    px.Keeps args k ↔ RenameRefused call args k := by
  have hserve : serve call (.moveEntry args) k =
      (.status (statusOf (renamed call args k).1), (renamed call args k).2) := by
    obtain ⟨e, he, hne, -⟩ | ⟨st, hst, -⟩ | ⟨-, hserve⟩ := serve_moveEntry_cases call args k
    · rw [hseen] at he
      exact (hne (Except.error.inj he).symm).elim
    · rw [hseen] at hst
      cases hst
    · exact hserve
  have hanswer : answer call args k = .status (statusOf (renamed call args k).1) := by
    rw [answer, hserve]
  constructor
  · intro hkeeps
    have h := hkeeps.answer_of_occupied hover hocc
    rw [hanswer] at h
    rcases hren : (renamed call args k).1 with e | ⟨⟩
    · rw [hren] at h
      rcases h with h | ⟨e', he', h⟩
      · obtain rfl := getStatusFromErrno_eq_fileExists.mp (Response.status.inj h)
        exact .inr hren
      · rw [hseen] at he'
        obtain rfl := Except.error.inj he'
        obtain rfl := getStatusFromErrno_eq_fileNotFound.mp (Response.status.inj h)
        exact .inl hren
    · rw [hren] at h
      rcases h with h | ⟨e', -, h⟩
      · cases h
      · exact (getStatusFromErrno_ne_success e' (Response.status.inj h).symm).elim
  · intro hrefused
    have huntouched : px.Untouched args k := by
      rw [Untouched, hserve]
      exact hrefused.elim px.tree_renamed_of_error px.tree_renamed_of_error
    refine ⟨fun _ _ => ?_, fun _ _ => huntouched, fun _ => huntouched⟩
    rw [hanswer]
    rcases hrefused with hren | hren
    · exact .inr ⟨.enoent, hseen, congrArg (Response.status ∘ statusOf) hren⟩
    · exact .inl (congrArg (Response.status ∘ statusOf) hren)

/-- Whatever `stat` sees at the destination is kept. -/
theorem keeps_of_seen (hseen : args.overwrite = true ∨ ¬ px.Occupied args k ∨
    seen call args k ≠ .error .enoent) : px.Keeps args k := by
  refine ⟨fun hover hocc => ?_, fun hover hocc => ?_, px.untouched_of_answer_ne⟩
  all_goals
    have hne : seen call args k ≠ .error .enoent := by
      rcases hseen with h | h | h
      · rw [hover] at h
        cases h
      · exact absurd hocc h
      · exact h
    obtain ⟨e, he, -, hserve⟩ | ⟨st, -, -, hserve⟩ | ⟨h | ⟨-, h⟩, -⟩ :=
      serve_moveEntry_cases call args k
  · exact .inr ⟨e, he, congrArg Prod.fst hserve⟩
  · exact .inl (congrArg Prod.fst hserve)
  · exact (hne h).elim
  · rw [hover] at h
    cases h
  · rw [Untouched, hserve]
    exact px.stat_tree k _
  · rw [Untouched, hserve]
    exact px.stat_tree k _
  · exact (hne h).elim
  · rw [hover] at h
    cases h

/-- **When a move keeps what is at its destination**: it may overwrite it, or there is nothing, or
`stat` does not answer `ENOENT`, or the `rename` is refused as well.  An entry of which `stat` says
that it does not exist is a link that leads to nothing. -/
theorem keeps_iff (args : MoveEntryArgs) (k : K) :
    (px.Keeps args k ↔ args.overwrite = true ∨ ¬ px.Occupied args k ∨
      seen call args k ≠ .error .enoent ∨ RenameRefused call args k) ∧
    (px.Occupied args k → seen call args k = .error .enoent →
      ∃ i target, (px.tree k).resolve false (cStr args.toPath) = some (.node i) ∧
        (px.tree k).linkTarget i = some target ∧
        ∀ j, (px.tree k).resolve true (cStr args.toPath) ≠ some (.node j)) := by
  constructor
  · by_cases hseen : args.overwrite = true ∨ ¬ px.Occupied args k ∨
        seen call args k ≠ .error .enoent
    · refine iff_of_true (px.keeps_of_seen hseen) ?_
      rcases hseen with h | h | h
      · exact .inl h
      · exact .inr (.inl h)
      · exact .inr (.inr (.inl h))
    · simp only [not_or, not_not, Bool.not_eq_true] at hseen
      obtain ⟨hover, hocc, hseen⟩ := hseen
      rw [px.keeps_iff_of_enoent hover hocc hseen]
      simp [hover, hocc, hseen]
  · rintro ⟨i, hi⟩ hseen
    have hlost := fun j => px.stat_enoent k (cStr args.toPath) j hseen
    obtain ⟨target, htarget⟩ := Tree.linkTarget_of_exists hi (hlost i)
    exact ⟨i, target, hi, htarget, hlost⟩

end PosixMoves

/-! ## A device that renames -/

/-- The tree with an entry for the node `i`, in the place of what was there. -/
def Tree.putEntry (t : Tree) (path : ByteString) (i : ℕ) : Tree :=
  match t.holder path with
  | none => t
  | some d =>
      { t with nodes := fun j =>
          if j = d then
            match t.nodes d with
            | some (.dir parent rights entries) =>
                some (.dir parent rights
                  ((Tree.lastName path, i) :: entries.filter (·.1 ≠ Tree.lastName path)))
            | other => other
          else t.nodes j }

namespace TreeDevice

/-- `rename` of what is not a directory, to where there is no directory. -/
def rename (s : TreeDevice) (fromPath toPath : ByteString) : Except Errno Unit × TreeDevice :=
  match s.tree.resolve false fromPath, s.tree.resolve false toPath with
  | some (.node i), some (.node j) =>
      if i = j then (.ok (), s)
      else if (s.tree.entries? i).isSome ∨ (s.tree.entries? j).isSome then (.error .eisdir, s)
      else (.ok (), { s with tree := (s.tree.removeEntry fromPath).putEntry toPath i })
  | some (.node i), some (.missing _ _) =>
      if (s.tree.entries? i).isSome then (.error .eisdir, s)
      else (.ok (), { s with tree := (s.tree.removeEntry fromPath).putEntry toPath i })
  | _, _ => (.error .enoent, s)

/-- The kernel of a device with this `rename`. -/
def movingKernel : Kernel TreeDevice
  | .rename fromPath toPath => fun s => s.rename fromPath toPath
  | e => kernel e

theorem stat_of_resolve {s : TreeDevice} {path : ByteString} {i : ℕ}
    (h : s.tree.resolve true path = some (.node i)) : s.stat path ≠ .error .enoent := by
  obtain ⟨d, -, hwalk⟩ := Option.bind_eq_some_iff.mp h
  obtain ⟨hlink, hsome⟩ := Tree.linkTarget_of_walk_true (components_ne_nil path) hwalk
  obtain ⟨node, hnode⟩ := Option.isSome_iff_exists.mp hsome
  rw [stat, h]
  simp only [hnode]
  cases node with
  | dir parent rights entries => simp
  | file rights bytes => simp
  | link target =>
    rw [Tree.linkTarget, hnode] at hlink
    cases hlink

theorem rename_error {s : TreeDevice} {fromPath toPath : ByteString} {e : Errno}
    (h : (s.rename fromPath toPath).1 = .error e) : (s.rename fromPath toPath).2 = s := by
  rw [rename] at h ⊢
  split
  · split
    · rfl
    · split
      · rfl
      · simp_all
  · split
    · rfl
    · simp_all
  · rfl

/-- What is assumed of a kernel holds of the device. -/
def moves : PosixMoves movingKernel where
  tree := tree
  stat_tree _ _ := rfl
  stat_enoent _ _ _ h hres := stat_of_resolve hres h
  rename_error _ _ _ _ h := congrArg tree (rename_error h)

/-- A device with a file `f` and two links in its root: `l` leads to it, and `x` leads nowhere. -/
def withLinks : TreeDevice where
  tree :=
    { nodes := fun
        | 0 => some (.dir 0 newRights [([102], 1), ([108], 2), ([120], 3)])
        | 1 => some (.file newRights [1])
        | 2 => some (.link [102])
        | 3 => some (.link [110])
        | _ => none
      root := 0
      cwd := 0 }
  next := 4
  descriptors := 0

/-- The move of `/f` to `/l` is refused. -/
theorem keeps_link : moves.Keeps ⟨[47, 102], [47, 108], false⟩ withLinks :=
  (moves.keeps_iff ⟨[47, 102], [47, 108], false⟩ withLinks).1.mpr
    (.inr (.inr (.inl fun h => by cases h)))

/-- The move of `/f` to `/x` succeeds, and the file is where the link was. -/
theorem not_keeps_dangling_link :
    moves.Occupied ⟨[47, 102], [47, 120], false⟩ withLinks ∧
    PosixMoves.answer movingKernel ⟨[47, 102], [47, 120], false⟩ withLinks = .status .success ∧
    withLinks.tree.resolve false [47, 120] = some (.node 3) ∧
    (serve movingKernel (.moveEntry ⟨[47, 102], [47, 120], false⟩) withLinks).2.tree.resolve false
      [47, 120] = some (.node 1) ∧
    ¬ moves.Keeps ⟨[47, 102], [47, 120], false⟩ withLinks := by
  refine ⟨⟨3, rfl⟩, rfl, rfl, rfl, fun hkeeps => ?_⟩
  rcases hkeeps.answer_of_occupied rfl ⟨3, rfl⟩ with h | ⟨e, -, h⟩
  · cases h
  · exact getStatusFromErrno_ne_success e (Response.status.inj h).symm

end TreeDevice

end NandroidFS
