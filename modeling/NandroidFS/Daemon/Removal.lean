import NandroidFS.Daemon.Serve
import NandroidFS.Files.TreeDevice

/-!
# Removals that are approved

Before a file or a directory is removed, Dokan asks whether it may be: `delete_file` and
`delete_directory` ask the daemon, which looks at the rights of the parent and, for a directory,
at its entries.  The removal itself comes later, from `clean_up`, which does not look at the answer.

The two are decided by different calls.  The check finds the parent in the text of the path and
opens the directory through links; `rmdir` acts on the last component itself.
-/

namespace NandroidFS

open ClientHandler

/-- **The calls that ask or remove, on a POSIX kernel** whose state has a tree. -/
structure PosixRemoval {K : Type} (call : Kernel K) where
  tree : K → Tree
  access_ok : ∀ k path, (call (.access path) k).1 = .ok () ↔ (tree k).CanAccess path
  access_tree : ∀ k path, tree (call (.access path) k).2 = tree k
  /-- `readdir` finds the entries, and beside them only `.` and `..`. -/
  opendir_ok : ∀ k path names, (call (.opendir path) k).1 = .ok names → ∃ entries,
    (tree k).Lists path entries ∧
      (∀ e ∈ entries, ProperName e.1 → ∃ name ∈ names, name.1 = e.1) ∧
      ∀ name ∈ names, isDotEntry name ∨ ∃ e ∈ entries, ProperName e.1 ∧ name.1 = e.1
  /-- A directory that may be read is listed, if its names are names of entries. -/
  opendir_lists : ∀ k path entries, (tree k).Lists path entries →
    (∀ e ∈ entries, ProperName e.1 → e.1.length ≤ 255 ∧ 0 ∉ e.1) →
    ∃ names, (call (.opendir path) k).1 = .ok names
  unlink_ok : ∀ k path, (call (.unlink path) k).1 = .ok () ↔ (tree k).CanUnlink path
  rmdir_ok : ∀ k path, (call (.rmdir path) k).1 = .ok () ↔ (tree k).CanRmdir path

theorem statusOf_eq_success {r : Except Errno Unit} : statusOf r = .success ↔ r = .ok () := by
  rcases r with e | ⟨⟩
  · simp [statusOf, getStatusFromErrno_ne_success]
  · simp [statusOf]

namespace PosixRemoval

variable {K : Type} {call : Kernel K} (px : PosixRemoval call) {path : ByteString} {k : K}

/-- The daemon answers a request with success. -/
def Grants (call : Kernel K) (q : Request) (k : K) : Prop :=
  (serve call q k).1 = .status .success

theorem grants_removeFile :
    Grants call (.removeFile path) k ↔ (px.tree k).CanUnlink (cStr path) := by
  rw [← px.unlink_ok, ← statusOf_eq_success]
  simp [Grants, serve, report]

theorem grants_removeDirectory :
    Grants call (.removeDirectory path) k ↔ (px.tree k).CanRmdir (cStr path) := by
  rw [← px.rmdir_ok, ← statusOf_eq_success]
  simp [Grants, serve, report]

/-- The parent in the text of the path may be read, written and searched. -/
def Approves (t : Tree) (path : ByteString) : Prop :=
  ∃ parent, getParentPath path = some parent ∧ t.CanAccess (cStr parent)

/-- Following links, the path leads to a directory without entries. -/
def ApprovesDirectory (t : Tree) (path : ByteString) : Prop :=
  Approves t path ∧ ∃ entries, t.Lists (cStr path) entries ∧ Tree.Vacant entries

/-- What `CheckRemoveFile` looks at. -/
theorem grants_checkRemoveFile :
    Grants call (.checkRemoveFile path) k ↔ Approves (px.tree k) path := by
  rw [Grants, serve, canRemove, Approves]
  rcases getParentPath path with _ | parent
  · simp
  · simp [← px.access_ok, statusOf_eq_success]

theorem tree_canRemove (path : ByteString) (k : K) :
    px.tree (canRemove call path k).2 = px.tree k := by
  rw [canRemove]
  rcases getParentPath path with _ | parent
  · rfl
  · exact px.access_tree k _

theorem isDotEntry_iff {name : EntryName} : isDotEntry name ↔ name.1 = dot ∨ name.1 = dotdot := by
  simp [isDotEntry, dot, dotdot]

/-- Only `.` and `..` are found exactly in a directory without entries. -/
theorem all_isDotEntry_iff {entries : List (Name × ℕ)} {names : List EntryName}
    (hcover : ∀ e ∈ entries, ProperName e.1 → ∃ name ∈ names, name.1 = e.1)
    (honly : ∀ name ∈ names, isDotEntry name ∨ ∃ e ∈ entries, ProperName e.1 ∧ name.1 = e.1) :
    names.any (fun name => !isDotEntry name) = false ↔ Tree.Vacant entries := by
  rw [List.any_eq_false]
  simp only [Bool.not_eq_true', Bool.not_eq_false]
  constructor
  · intro h e he hproper
    obtain ⟨name, hname, heq⟩ := hcover e he hproper
    rcases isDotEntry_iff.mp (h name hname) with hdot | hdot
    · exact hproper.2.1 (heq.symm.trans hdot)
    · exact hproper.2.2 (heq.symm.trans hdot)
  · intro h name hname
    rcases honly name hname with hdot | ⟨e, he, hproper, -⟩
    · exact hdot
    · exact (h e he hproper).elim

/-- What `CheckRemoveDirectory` looks at. -/
theorem grants_checkRemoveDirectory :
    Grants call (.checkRemoveDirectory path) k ↔ ApprovesDirectory (px.tree k) path := by
  have hsame := px.tree_canRemove path k
  rw [ApprovesDirectory, ← px.grants_checkRemoveFile]
  simp only [Grants, serve]
  by_cases hparent : (canRemove call path k).1 = .success
  · simp only [hparent, ne_eq, not_true_eq_false, if_false, true_and]
    rcases hnames : (call (.opendir (cStr path)) (canRemove call path k).2).1 with e | names
    · simp only [Response.status.injEq, getStatusFromErrno_ne_success, false_iff]
      rintro ⟨entries, hlists, hvacant⟩
      rw [← hsame] at hlists
      obtain ⟨names, hok⟩ := px.opendir_lists _ _ entries hlists
        fun e he hproper => (hvacant e he hproper).elim
      rw [hnames] at hok
      cases hok
    · obtain ⟨entries, hlists, hcover, honly⟩ := px.opendir_ok _ _ _ hnames
      rw [hsame] at hlists
      have hvacant : (∃ entries, (px.tree k).Lists (cStr path) entries ∧ Tree.Vacant entries) ↔
          Tree.Vacant entries := by
        constructor
        · rintro ⟨entries', hlists', h⟩
          rwa [hlists.unique hlists']
        · intro h
          exact ⟨entries, hlists, h⟩
      rw [hvacant, ← all_isDotEntry_iff hcover honly]
      dsimp only
      generalize (names.any fun name => !isDotEntry name) = found
      cases found <;> simp
  · simp [hparent]

/-- **The claim of a check**: what it approves is what the removal then does. -/
def CarriedOut (path : ByteString) (k : K) : Prop :=
  (Grants call (.checkRemoveDirectory path) k → Grants call (.removeDirectory path) k) ∧
    (Grants call (.checkRemoveFile path) k → (px.tree k).NamesOther (cStr path) →
      Grants call (.removeFile path) k)

/-- The parent in the text is the directory of the entry, unless the text is cut short by a zero or
ends in two slashes. -/
theorem holderWritable_of_approves {t : Tree} (h : Approves t path) (hzero : 0 ∉ path)
    (hslashes : ¬[slash, slash] <:+ path) : t.HolderWritable (cStr path) := by
  have hcStr {p : ByteString} (hp : 0 ∉ p) : cStr p = p :=
    List.takeWhile_eq_self_iff.mpr fun b hb => decide_eq_true fun h0 => hp (h0 ▸ hb)
  obtain ⟨parent, hparent, haccess⟩ := h
  obtain ⟨name, n, hpath, hname, hempty⟩ := exists_of_getParentPath hparent
  have hzero' : 0 ∉ parent := by
    intro h0
    rw [hpath] at hzero
    exact hzero (by simp [h0])
  rw [hcStr hzero'] at haccess
  rw [hcStr hzero, hpath]
  exact Tree.holderWritable_of_canAccess haccess hname (fun hnil => hslashes (hempty hnil)) n

/-- **When an approved removal is carried out.**  A file always is.  A directory is if the path
names it itself and not through a link, under a name other than `.` and `..`.  Where the text is cut
short by a zero or ends in two slashes, the right to write the directory of the entry is not what
was checked, and has to be there as well. -/
theorem carriedOut_iff (path : ByteString) (k : K) :
    (px.CarriedOut path k ↔
      (ApprovesDirectory (px.tree k) path →
        (px.tree k).NamesDirectory (cStr path) ∧ (px.tree k).HolderWritable (cStr path)) ∧
      (Approves (px.tree k) path → (px.tree k).NamesOther (cStr path) →
        (px.tree k).HolderWritable (cStr path))) ∧
    (0 ∉ path → ¬[slash, slash] <:+ path → (px.CarriedOut path k ↔
      (ApprovesDirectory (px.tree k) path → (px.tree k).NamesDirectory (cStr path)))) := by
  have hgeneral : px.CarriedOut path k ↔
      (ApprovesDirectory (px.tree k) path →
        (px.tree k).NamesDirectory (cStr path) ∧ (px.tree k).HolderWritable (cStr path)) ∧
      (Approves (px.tree k) path → (px.tree k).NamesOther (cStr path) →
        (px.tree k).HolderWritable (cStr path)) := by
    rw [CarriedOut, px.grants_checkRemoveDirectory, px.grants_checkRemoveFile,
      px.grants_removeDirectory, px.grants_removeFile]
    refine and_congr (forall_congr' fun h => ?_)
      (forall_congr' fun _ => forall_congr' fun hother => Tree.canUnlink_iff hother)
    obtain ⟨-, entries, hlists, hvacant⟩ := h
    exact Tree.canRmdir_iff hlists hvacant
  refine ⟨hgeneral, fun hzero hslashes => hgeneral.trans ⟨fun h hdir => (h.1 hdir).1, fun h => ?_⟩⟩
  have hwritable (happroves : Approves (px.tree k) path) :=
    holderWritable_of_approves happroves hzero hslashes
  exact ⟨fun hdir => ⟨h hdir, hwritable hdir.1⟩, fun hfile _ => hwritable hfile⟩

end PosixRemoval

/-! ## On a device -/

namespace TreeDevice

theorem mem_of_mapM {entries : List (Name × ℕ)} {names : List EntryName}
    (h : (entries.mapM fun e => entryName? e.1) = some names) (name : Name) :
    (∃ found ∈ names, found.1 = name) ↔ ∃ e ∈ entries, e.1 = name := by
  induction entries generalizing names with
  | nil =>
    obtain rfl : [] = names := Option.some.inj h
    simp
  | cons e entries ih =>
    rw [List.mapM_cons] at h
    obtain ⟨found, hfound, h⟩ := Option.bind_eq_some_iff.mp h
    obtain ⟨names', hnames', h⟩ := Option.bind_eq_some_iff.mp h
    obtain rfl : found :: names' = names := Option.some.inj h
    have hsame : found.1 = e.1 := by
      rw [entryName?] at hfound
      split at hfound
      · rw [← Option.some.inj hfound]
      · cases hfound
    simp only [List.exists_mem_cons_iff, hsame, ih hnames']

theorem exists_mapM {entries : List (Name × ℕ)}
    (h : ∀ e ∈ entries, e.1.length ≤ 255 ∧ 0 ∉ e.1) :
    ∃ names, (entries.mapM fun e => entryName? e.1) = some names := by
  induction entries with
  | nil => exact ⟨[], rfl⟩
  | cons e entries ih =>
    obtain ⟨he, hentries⟩ := List.forall_mem_cons.mp h
    obtain ⟨names, hnames⟩ := ih hentries
    refine ⟨⟨e.1, he⟩ :: names, ?_⟩
    rw [List.mapM_cons, hnames, entryName?, dif_pos he]
    rfl

theorem opendir_of_lists {s : TreeDevice} {path : ByteString} {entries : List (Name × ℕ)}
    (h : s.tree.Lists path entries)
    (hnames : ∀ e ∈ entries, ProperName e.1 → e.1.length ≤ 255 ∧ 0 ∉ e.1) :
    ∃ names, s.opendir path = .ok names := by
  obtain ⟨i, hi, hentries, hread⟩ := h
  have hfit : ∀ e ∈ entries.filter fun e => ProperName e.1, e.1.length ≤ 255 ∧ 0 ∉ e.1 := by
    intro e he
    obtain ⟨hmem, hproper⟩ := List.mem_filter.mp he
    exact hnames e hmem (of_decide_eq_true hproper)
  obtain ⟨names, hmap⟩ := exists_mapM hfit
  simp [opendir, hi, hentries, hread, hmap]

theorem lists_of_opendir {s : TreeDevice} {path : ByteString} {names : List EntryName}
    (h : s.opendir path = .ok names) : ∃ entries, s.tree.Lists path entries ∧
      (∀ e ∈ entries, ProperName e.1 → ∃ name ∈ names, name.1 = e.1) ∧
      ∀ name ∈ names, ClientHandler.isDotEntry name ∨
        ∃ e ∈ entries, ProperName e.1 ∧ name.1 = e.1 := by
  rw [opendir] at h
  split at h
  · next i hi =>
    split at h
    · next entries hentries =>
      split at h
      · next hread =>
        split at h
        · next found hfound =>
          obtain rfl := Except.ok.inj h
          have hmem := mem_of_mapM hfound
          refine ⟨entries, ⟨i, hi, hentries, hread⟩, fun e he hproper => ?_, fun name hname => ?_⟩
          · obtain ⟨name, hname, heq⟩ := (hmem e.1).mpr ⟨e, by simp [he, hproper], rfl⟩
            exact ⟨name, by simp [hname], heq⟩
          · rcases List.mem_cons.mp hname with rfl | hname
            · exact Or.inl rfl
            · rcases List.mem_cons.mp hname with rfl | hname
              · exact Or.inl rfl
              · obtain ⟨e, he, heq⟩ := (hmem name.1).mp ⟨name, hname, rfl⟩
                obtain ⟨hmem', hproper⟩ := List.mem_filter.mp he
                exact Or.inr ⟨e, hmem', of_decide_eq_true hproper, heq.symm⟩
        · cases h
      · cases h
    · cases h
  · cases h

/-- What is assumed of a kernel holds of the device. -/
def removal : PosixRemoval kernel where
  tree := tree
  access_ok s path := by
    simp only [kernel]
    split <;> simp [*]
  access_tree _ _ := rfl
  opendir_ok _ _ _ := lists_of_opendir
  opendir_lists _ _ _ := opendir_of_lists
  unlink_ok s path := by
    simp only [kernel, remove]
    split <;> simp_all
  rmdir_ok s path := by
    simp only [kernel, remove]
    split <;> simp_all

/-- The removal of `/a/e` is approved and carried out. -/
theorem carriedOut_directory :
    PosixRemoval.Grants kernel (.checkRemoveDirectory [47, 97, 47, 101]) linked ∧
      PosixRemoval.Grants kernel (.removeDirectory [47, 97, 47, 101]) linked := by
  have hcheck : PosixRemoval.Grants kernel (.checkRemoveDirectory [47, 97, 47, 101]) linked := rfl
  have hcarried := (removal.carriedOut_iff [47, 97, 47, 101] linked).2 (by decide) (by decide)
  refine ⟨hcheck, (hcarried.mpr fun _ => ?_).1 hcheck⟩
  exact ⟨by decide, 2, [], rfl, rfl⟩

/-- The removal of `/a/l` as a directory is approved, and `rmdir` does not follow the link. -/
theorem not_carriedOut_link : ¬removal.CarriedOut [47, 97, 47, 108] linked := by
  intro h
  cases h.1 rfl

end TreeDevice

end NandroidFS
