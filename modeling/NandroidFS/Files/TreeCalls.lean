import NandroidFS.Files.Tree

/-!
# What the calls do to a tree

`access`, `opendir`, `unlink` and `rmdir`: when POSIX lets them succeed.  `mkdir` and `open`: what a
tree may have become when they have succeeded; the number of a new node and the rights it gets are
left open.

`unlink` and `rmdir` act on the entry that the last component names, in the directory that the
others lead to.  They do not follow a link there, while `access` and `opendir` do.
-/

namespace NandroidFS

namespace Tree

variable (t : Tree)

/-- The node is there and grants what is asked for. -/
def allows (i : ℕ) (p : Rights → Bool) : Bool :=
  (t.nodes i).any fun node => p node.rights

/-- The entries of a directory. -/
def entries? (i : ℕ) : Option (List (Name × ℕ)) :=
  match t.nodes i with
  | some (.dir _ _ entries) => some entries
  | _ => none

/-! ## The entry that a path names -/

def lastName (path : List UInt8) : Name :=
  (components path).getLast (components_ne_nil path)

/-- The directory in which the last component is looked up. -/
def holder (path : List UInt8) : Option ℕ :=
  (t.start t.cwd path).bind fun d =>
    match t.walk true maxLinks d (components path).dropLast with
    | some (.node d') => some d'
    | _ => none

/-- There is an entry, whatever it is: `lstat` succeeds. -/
def Exists (path : List UInt8) : Prop :=
  ∃ i, t.resolve false path = some (.node i)

/-- The path leads to a directory. -/
def IsDirectory (path : List UInt8) : Prop :=
  ∃ i entries, t.resolve true path = some (.node i) ∧ t.entries? i = some entries

/-! ## Calls that ask or remove -/

/-- `access` with `R_OK | W_OK | X_OK`. -/
def CanAccess (path : List UInt8) : Prop :=
  ∃ i, t.resolve true path = some (.node i) ∧
    t.allows i fun rights => rights.read && rights.write && rights.exec

/-- `opendir`, and the entries that `readdir` then finds. -/
def Lists (path : List UInt8) (entries : List (Name × ℕ)) : Prop :=
  ∃ i, t.resolve true path = some (.node i) ∧ t.entries? i = some entries ∧ t.allows i Rights.read

def CanUnlink (path : List UInt8) : Prop :=
  ProperName (lastName path) ∧ ∃ d i, t.holder path = some d ∧ t.allows d Rights.write ∧
    t.lookup d (lastName path) = some (.node i) ∧ t.entries? i = none

/-- A directory that has no entries beside `.` and `..`. -/
def Vacant (entries : List (Name × ℕ)) : Prop :=
  ∀ e ∈ entries, ¬ProperName e.1

instance (entries : List (Name × ℕ)) : Decidable (Vacant entries) :=
  inferInstanceAs (Decidable (∀ _ ∈ _, _))

def CanRmdir (path : List UInt8) : Prop :=
  ProperName (lastName (trimSlashes path)) ∧ ∃ d i entries, t.holder (trimSlashes path) = some d ∧
    t.allows d Rights.write ∧ t.lookup d (lastName (trimSlashes path)) = some (.node i) ∧
    t.entries? i = some entries ∧ Vacant entries

/-- The path names a directory itself, under a name of its own and not through a link. -/
def NamesDirectory (path : List UInt8) : Prop :=
  ProperName (lastName (trimSlashes path)) ∧ ∃ i entries,
    t.resolve false (trimSlashes path) = some (.node i) ∧ t.entries? i = some entries

/-- The path names an entry that is not a directory. -/
def NamesOther (path : List UInt8) : Prop :=
  ProperName (lastName path) ∧ ∃ i, t.resolve false path = some (.node i) ∧ t.entries? i = none

/-- The directory in which the path names an entry may be written. -/
def HolderWritable (path : List UInt8) : Prop :=
  ∃ d, t.holder (trimSlashes path) = some d ∧ t.allows d Rights.write

/-! ## Calls that create -/

/-- A new node, and an entry for it. -/
def addEntry (d : ℕ) (name : Name) (i : ℕ) (node : Node) : Tree :=
  { t with nodes := fun j =>
      if j = i then some node
      else if j = d then
        match t.nodes d with
        | some (.dir parent rights entries) => some (.dir parent rights ((name, i) :: entries))
        | other => other
      else t.nodes j }

def setContents (i : ℕ) (bytes : List UInt8) : Tree :=
  { t with nodes := fun j =>
      if j = i then
        match t.nodes i with
        | some (.file rights _) => some (.file rights bytes)
        | other => other
      else t.nodes j }

inductive Mkdir (path : List UInt8) : Tree → Prop
  | mk {d i : ℕ} {name : Name} (rights : Rights)
      (hres : t.resolve false (trimSlashes path) = some (.missing d name))
      (hw : t.allows d Rights.write) (hfresh : t.nodes i = none) :
      Mkdir path (t.addEntry d name i (.dir d rights []))

/-- The access that `open` asks for, and its flags. -/
structure OpenHow where
  read : Bool
  write : Bool
  creat : Bool
  excl : Bool
  trunc : Bool
  deriving DecidableEq

/-- A truncation is a write. -/
def OpenHow.permits (how : OpenHow) (rights : Rights) : Bool :=
  (!how.read || rights.read) && (!(how.write || how.trunc) || rights.write)

/-- `open`.  A file is created where the path leads, through a link that leads nowhere as well,
unless the creation is exclusive. -/
inductive Opens (path : List UInt8) (how : OpenHow) : Tree → Prop
  | created {d i : ℕ} {name : Name} (rights : Rights) (hcreat : how.creat)
      (hres : t.resolve (!how.excl) path = some (.missing d name))
      (hw : t.allows d Rights.write) (hfresh : t.nodes i = none) :
      Opens path how (t.addEntry d name i (.file rights []))
  | file {i : ℕ} {rights : Rights} {bytes : List UInt8} (hexcl : ¬(how.creat ∧ how.excl))
      (hres : t.resolve true path = some (.node i)) (hi : t.nodes i = some (.file rights bytes))
      (hpermits : how.permits rights) :
      Opens path how (if how.trunc then t.setContents i [] else t)
  | directory {i : ℕ} {entries : List (Name × ℕ)} (hcreat : how.creat = false)
      (htrunc : how.trunc = false) (hwrite : how.write = false)
      (hres : t.resolve true path = some (.node i)) (hi : t.entries? i = some entries)
      (hread : t.allows i Rights.read) : Opens path how t

variable {t} {t' : Tree} {d i : ℕ} {name : Name} {path : List UInt8}

theorem allows_mono {p q : Rights → Bool} (hpq : ∀ rights, p rights → q rights)
    (h : t.allows i p) : t.allows i q := by
  obtain ⟨node, hnode, hp⟩ := (Option.any_eq_true _ _).mp h
  exact (Option.any_eq_true _ _).mpr ⟨node, hnode, hpq _ hp⟩

/-! ## The last component -/

theorem dropLast_append_lastName (path : List UInt8) :
    (components path).dropLast ++ [lastName path] = components path :=
  List.dropLast_append_getLast (components_ne_nil path)

/-- The entry is looked up where the rest of the path leads. -/
theorem resolve_false_eq (t : Tree) (path : List UInt8) :
    t.resolve false path = (t.holder path).bind fun d => t.lookup d (lastName path) := by
  rw [resolve, holder, Option.bind_assoc]
  refine congrArg _ (funext fun d => ?_)
  conv_lhs => rw [← dropLast_append_lastName path, walk_append_singleton]
  rcases t.walk true maxLinks d (components path).dropLast with _ | d' | ⟨d', name⟩ <;> rfl

theorem resolve_false_eq_some {r : Found} : t.resolve false path = some r ↔
    ∃ d, t.holder path = some d ∧ t.lookup d (lastName path) = some r := by
  rw [resolve_false_eq, Option.bind_eq_some_iff]

/-! ## Trailing slashes -/

theorem exists_trimSlashes (path : List UInt8) :
    ∃ k, path = trimSlashes path ++ List.replicate k 47 := by
  have hall : ∀ b ∈ path.rtakeWhile (· == 47), b = 47 := by
    intro b hb
    simpa using List.mem_rtakeWhile_imp hb
  refine ⟨(path.rtakeWhile (· == 47)).length, ?_⟩
  rw [← List.eq_replicate_of_mem hall, trimSlashes, List.rdropWhile_append_rtakeWhile]

theorem components_append_replicate (path : List UInt8) (k : ℕ) :
    components (path ++ List.replicate k 47) = components path ++ List.replicate k [] := by
  induction k with
  | zero => simp
  | succ k ih =>
    rw [List.replicate_succ', ← List.append_assoc, components_append_slash, ih,
      List.replicate_succ', List.append_assoc]
    rfl

theorem start_append (path : List UInt8) (h : path ≠ []) (rest : List UInt8) :
    t.start d (path ++ rest) = t.start d path := by
  cases path with
  | nil => exact (h rfl).elim
  | cons b bs => rfl

/-- Where there is nothing, there is nothing with slashes after it, and no link to follow. -/
theorem not_resolve_of_missing (h : t.resolve false (trimSlashes path) = some (.missing d name))
    (follow : Bool) (i : ℕ) : t.resolve follow path ≠ some (.node i) := by
  obtain ⟨k, hk⟩ := exists_trimSlashes path
  obtain ⟨d', hd', hwalk⟩ := Option.bind_eq_some_iff.mp h
  have hne : trimSlashes path ≠ [] := by
    intro hnil
    rw [hnil] at hd'
    cases hd'
  intro hnode
  obtain ⟨d'', hd'', hwalk'⟩ := Option.bind_eq_some_iff.mp hnode
  rw [hk, start_append _ hne, hd'] at hd''
  obtain rfl := Option.some.inj hd''
  rw [hk, components_append_replicate, walk_append_of_missing hwalk] at hwalk'
  split at hwalk'
  · cases Option.some.inj hwalk'
  · cases hwalk'

theorem nodes_of_entries {entries : List (Name × ℕ)} (h : t.entries? i = some entries) :
    ∃ parent rights, t.nodes i = some (.dir parent rights entries) := by
  rw [entries?] at h
  split at h
  · next parent rights entries' hnode =>
    obtain rfl := Option.some.inj h
    exact ⟨parent, rights, hnode⟩
  · cases h

/-- Slashes after a directory change nothing. -/
theorem resolve_of_trimSlashes {entries : List (Name × ℕ)} (hi : t.entries? i = some entries)
    (h : t.resolve false (trimSlashes path) = some (.node i)) (follow : Bool) :
    t.resolve follow path = some (.node i) := by
  obtain ⟨parent, rights, hnode⟩ := nodes_of_entries hi
  have hlink : t.linkTarget i = none := by rw [linkTarget, hnode]
  have hnil : t.lookup i [] = some (.node i) :=
    lookup_eq_node.mpr ⟨parent, rights, entries, hnode, Or.inl ⟨rfl, rfl⟩⟩
  obtain ⟨d, hd, hwalk⟩ := Option.bind_eq_some_iff.mp h
  have hne : trimSlashes path ≠ [] := by
    intro hnil
    rw [hnil] at hd
    cases hd
  -- with any number of slashes, following links
  have hslashes (k : ℕ) : t.walk true maxLinks d
      (components (trimSlashes path) ++ List.replicate k []) = some (.node i) := by
    induction k with
    | zero =>
      rw [List.replicate_zero, List.append_nil]
      exact walk_true_of_false hlink hwalk
    | succ k ih =>
      rw [List.replicate_succ', ← List.append_assoc]
      exact walk_append_nil hnil hlink ih
  obtain ⟨k, hk⟩ := exists_trimSlashes path
  rw [hk]
  refine Option.bind_eq_some_iff.mpr ⟨d, (start_append _ hne _).trans hd, ?_⟩
  rw [components_append_replicate]
  cases follow with
  | true => exact hslashes k
  | false =>
    cases k with
    | zero => rwa [List.replicate_zero, List.append_nil]
    | succ k =>
      rw [List.replicate_succ', ← List.append_assoc, walk_append_singleton, hslashes k]
      exact hnil

theorem trimSlashes_of_last (h : lastName path ≠ []) : trimSlashes path = path := by
  refine List.rdropWhile_eq_self_iff.mpr fun hne hlast => h ?_
  have hsplit : path.dropLast ++ 47 :: [] = path := by
    rw [← beq_iff_eq.mp hlast]
    exact List.dropLast_append_getLast hne
  have hcomps : components path = components path.dropLast ++ [[]] := by
    rw [← hsplit, components_append_slash, hsplit]
    rfl
  simp [lastName, hcomps]

/-! ## When a removal succeeds -/

theorem Lists.unique {entries entries' : List (Name × ℕ)} (h : t.Lists path entries)
    (h' : t.Lists path entries') : entries = entries' := by
  obtain ⟨i, hi, hentries, -⟩ := h
  obtain ⟨j, hj, hentries', -⟩ := h'
  obtain rfl : i = j := Found.node.inj (Option.some.inj (hi.symm.trans hj))
  exact Option.some.inj (hentries.symm.trans hentries')

/-- A path that lists nothing is removed exactly if it names a directory itself and the directory
above may be written. -/
theorem canRmdir_iff {entries : List (Name × ℕ)} (h : t.Lists path entries)
    (hvacant : Vacant entries) :
    t.CanRmdir path ↔ t.NamesDirectory path ∧ t.HolderWritable path := by
  constructor
  · rintro ⟨hproper, d, i, entries', hholder, hw, hlookup, hentries, -⟩
    refine ⟨⟨hproper, i, entries', ?_, hentries⟩, d, hholder, hw⟩
    exact resolve_false_eq_some.mpr ⟨d, hholder, hlookup⟩
  · rintro ⟨⟨hproper, i, entries', hres, hentries⟩, d, hholder, hw⟩
    obtain ⟨d', hholder', hlookup⟩ := resolve_false_eq_some.mp hres
    obtain rfl : d' = d := Option.some.inj (hholder'.symm.trans hholder)
    -- following links leads to the same directory, and that one is empty
    obtain ⟨j, hj, hlisted, -⟩ := h
    have hsame := resolve_of_trimSlashes hentries hres true
    obtain rfl : i = j := Found.node.inj (Option.some.inj (hsame.symm.trans hj))
    exact ⟨hproper, d', i, entries, hholder, hw, hlookup, hlisted, hvacant⟩

theorem canUnlink_iff (h : t.NamesOther path) : t.CanUnlink path ↔ t.HolderWritable path := by
  obtain ⟨hproper, i, hres, hother⟩ := h
  have htrim := trimSlashes_of_last hproper.1
  obtain ⟨d, hholder, hlookup⟩ := resolve_false_eq_some.mp hres
  constructor
  · rintro ⟨-, d', -, hholder', hw, -⟩
    exact ⟨d', htrim.symm ▸ hholder', hw⟩
  · rintro ⟨d', hholder', hw⟩
    rw [htrim] at hholder'
    obtain rfl : d = d' := Option.some.inj (hholder.symm.trans hholder')
    exact ⟨hproper, d, i, hholder, hw, hlookup, hother⟩

/-- The directory of an entry is the one that the path before the last slash leads to. -/
theorem holder_append_slash {parent : List UInt8} (hne : parent ≠ []) (hname : 47 ∉ name)
    (h : t.resolve true parent = some (.node d)) : t.holder (parent ++ 47 :: name) = some d := by
  have hcomps : (components (parent ++ 47 :: name)).dropLast = components parent := by
    rw [components_append_slash, components_of_not_mem hname, List.dropLast_concat]
  obtain ⟨d', hd', hwalk⟩ := Option.bind_eq_some_iff.mp h
  rw [holder, hcomps, start_append _ hne, hd']
  simp only [Option.bind_some, hwalk]

theorem lastName_append_slash (parent : List UInt8) (hname : 47 ∉ name) :
    lastName (parent ++ 47 :: name) = name := by
  simp [lastName, components_append_slash, components_of_not_mem hname]

theorem trimSlashes_append_replicate (path : List UInt8) (k : ℕ) :
    trimSlashes (path ++ List.replicate k 47) = trimSlashes path := by
  induction k with
  | zero => rw [List.replicate_zero, List.append_nil]
  | succ k ih =>
    rw [List.replicate_succ', ← List.append_assoc, trimSlashes,
      List.rdropWhile_concat_pos _ _ _ rfl]
    exact ih

/-- **A parent that may be written is the writable holder of the entry.** -/
theorem holderWritable_of_canAccess {parent : List UInt8} (h : t.CanAccess parent)
    (hname : 47 ∉ name) (hne : name ≠ []) (k : ℕ) :
    t.HolderWritable (parent ++ 47 :: name ++ List.replicate k 47) := by
  obtain ⟨d, hd, hrights⟩ := h
  have hparent : parent ≠ [] := by
    rintro rfl
    cases hd
  have hlast : lastName (parent ++ 47 :: name) ≠ [] := by rwa [lastName_append_slash parent hname]
  refine ⟨d, ?_, ?_⟩
  · rw [trimSlashes_append_replicate, trimSlashes_of_last hlast]
    exact holder_append_slash hparent hname hd
  · refine allows_mono (fun rights hall => ?_) hrights
    simp only [Bool.and_eq_true] at hall
    exact hall.1.2

/-! ## What a creation changes -/

/-- Files keep their contents. -/
def KeepsFiles (t t' : Tree) : Prop :=
  ∀ i rights bytes, t.nodes i = some (.file rights bytes) → t'.nodes i = some (.file rights bytes)

/-- The tree with its files emptied. -/
def shape (t : Tree) : Tree :=
  { t with nodes := fun i => (t.nodes i).map fun
      | .file rights _ => .file rights []
      | node => node }

/-- There is a directory, and no such entry in it. -/
theorem dir_of_missing {follow : Bool} (h : t.resolve follow path = some (.missing d name)) :
    ∃ parent rights entries, t.nodes d = some (.dir parent rights entries) ∧ rights.exec ∧
      ProperName name ∧ entries.lookup name = none := by
  obtain ⟨start, -, hwalk⟩ := Option.bind_eq_some_iff.mp h
  exact (lookup_eq_missing.mp (lookup_of_walk_missing hwalk)).2.2

section AddEntry

variable {parent : ℕ} {rights : Rights} {entries : List (Name × ℕ)} {node : Node}

theorem nodes_addEntry (hd : t.nodes d = some (.dir parent rights entries)) (j : ℕ) :
    (t.addEntry d name i node).nodes j =
      if j = i then some node
      else if j = d then some (.dir parent rights ((name, i) :: entries)) else t.nodes j := by
  simp only [addEntry, hd]

theorem extends_addEntry (hd : t.nodes d = some (.dir parent rights entries))
    (hname : entries.lookup name = none) (hfresh : t.nodes i = none) :
    t.Extends (t.addEntry d name i node) where
  root := rfl
  cwd := rfl
  nodes j node' hj := by
    have hji : j ≠ i := by
      rintro rfl
      rw [hfresh] at hj
      cases hj
    rw [nodes_addEntry hd, if_neg hji]
    by_cases hjd : j = d
    · subst hjd
      obtain rfl := Option.some.inj (hd.symm.trans hj)
      refine ⟨_, if_pos rfl, rfl, rfl, fun name' k hk => ?_⟩
      have hne : (name' == name) = false := by
        rw [beq_eq_false_iff_ne]
        rintro rfl
        rw [hname] at hk
        cases hk
      rw [List.lookup_cons, hne]
      exact hk
    · rw [if_neg hjd]
      exact ⟨node', hj, Node.Extends.refl node'⟩

theorem keepsFiles_addEntry (hd : t.nodes d = some (.dir parent rights entries))
    (hfresh : t.nodes i = none) : t.KeepsFiles (t.addEntry d name i node) := by
  intro j rights' bytes hj
  have hji : j ≠ i := by
    rintro rfl
    rw [hfresh] at hj
    cases hj
  have hjd : j ≠ d := by
    rintro rfl
    rw [hd] at hj
    cases hj
  rw [nodes_addEntry hd, if_neg hji, if_neg hjd]
  exact hj

theorem lookup_addEntry (hd : t.nodes d = some (.dir parent rights entries))
    (hexec : rights.exec) (hproper : ProperName name) (hfresh : t.nodes i = none) :
    (t.addEntry d name i node).lookup d name = some (.node i) := by
  have hdi : d ≠ i := by
    rintro rfl
    rw [hd] at hfresh
    cases hfresh
  refine lookup_eq_node.mpr ⟨parent, rights, (name, i) :: entries, ?_,
    Or.inr ⟨hproper.1, hexec, ?_, ?_⟩⟩
  · rw [nodes_addEntry hd, if_neg hdi, if_pos rfl]
  · rw [slot_of_proper hproper, List.lookup_cons, beq_self_eq_true]
  · rw [nodes_addEntry hd, if_pos rfl]
    rfl

end AddEntry

theorem Extends.holder (h : t.Extends t') (hd : t.holder path = some d) :
    t'.holder path = some d := by
  obtain ⟨start, hstart, hwalk⟩ := Option.bind_eq_some_iff.mp hd
  refine Option.bind_eq_some_iff.mpr ⟨start, ?_, ?_⟩
  · rw [← hstart]
    cases path with
    | nil => rfl
    | cons b bs => simp only [Tree.start, h.root, h.cwd]
  · split at hwalk
    · next hnode =>
      rw [h.walk hnode]
      exact hwalk
    · cases hwalk

/-- The entry is there after it has been added. -/
theorem resolve_addEntry (h : t.resolve false path = some (.missing d name))
    (hfresh : t.nodes i = none) (node : Node) :
    (t.addEntry d name i node).resolve false path = some (.node i) := by
  obtain ⟨parent, rights, entries, hd, hexec, hproper, hnone⟩ := dir_of_missing h
  obtain ⟨d', hholder, hlookup⟩ := resolve_false_eq_some.mp h
  obtain ⟨rfl, hlast, -⟩ := lookup_eq_missing.mp hlookup
  refine resolve_false_eq_some.mpr ⟨d', ?_, ?_⟩
  · exact (extends_addEntry hd hnone hfresh).holder hholder
  · rw [hlast]
    exact lookup_addEntry hd hexec hproper hfresh

theorem Extends.exists (h : t.Extends t') (he : t.Exists path) : t'.Exists path := by
  obtain ⟨i, hi⟩ := he
  exact ⟨i, h.resolve hi⟩

/-! ### `mkdir` -/

theorem Mkdir.extends (h : t.Mkdir path t') : t.Extends t' := by
  obtain ⟨rights, hres, -, hfresh⟩ := h
  obtain ⟨parent, rights', entries, hd, -, -, hnone⟩ := dir_of_missing hres
  exact extends_addEntry hd hnone hfresh

theorem Mkdir.keepsFiles (h : t.Mkdir path t') : t.KeepsFiles t' := by
  obtain ⟨rights, hres, -, hfresh⟩ := h
  obtain ⟨parent, rights', entries, hd, -⟩ := dir_of_missing hres
  exact keepsFiles_addEntry hd hfresh

theorem Mkdir.not_exists (h : t.Mkdir path t') : ¬t.Exists path := by
  obtain ⟨rights, hres, -, hfresh⟩ := h
  rintro ⟨i, hi⟩
  exact not_resolve_of_missing hres false i hi

theorem Mkdir.exists (h : t.Mkdir path t') : t'.Exists path := by
  cases h with
  | @mk d i name rights hres hw hfresh =>
    have hentries : (t.addEntry d name i (.dir d rights [])).entries? i = some [] := by
      simp [entries?, addEntry]
    exact ⟨i, resolve_of_trimSlashes hentries (resolve_addEntry hres hfresh _) false⟩

theorem Mkdir.not_isDirectory (h : t.Mkdir path t') : ¬t.IsDirectory path := by
  obtain ⟨rights, hres, -, hfresh⟩ := h
  rintro ⟨i, entries, hi, -⟩
  exact not_resolve_of_missing hres true i hi

/-! ### `open` -/

theorem nodes_setContents {rights : Rights} {bytes : List UInt8}
    (hi : t.nodes i = some (.file rights bytes)) (bytes' : List UInt8) (j : ℕ) :
    (t.setContents i bytes').nodes j = if j = i then some (.file rights bytes') else t.nodes j := by
  simp only [setContents, hi]

theorem extends_setContents {rights : Rights} {bytes : List UInt8}
    (hi : t.nodes i = some (.file rights bytes)) (bytes' : List UInt8) :
    t.Extends (t.setContents i bytes') where
  root := rfl
  cwd := rfl
  nodes j node hj := by
    rw [nodes_setContents hi]
    by_cases hji : j = i
    · subst hji
      obtain rfl := Option.some.inj (hi.symm.trans hj)
      exact ⟨_, if_pos rfl, rfl⟩
    · exact ⟨node, (if_neg hji).trans hj, Node.Extends.refl node⟩

theorem shape_setContents {rights : Rights} {bytes : List UInt8}
    (hi : t.nodes i = some (.file rights bytes)) (bytes' : List UInt8) :
    (t.setContents i bytes').shape = t.shape := by
  have hnodes : (t.setContents i bytes').shape.nodes = t.shape.nodes := by
    ext1 j
    simp only [shape, nodes_setContents hi]
    by_cases hji : j = i
    · subst hji
      simp [hi]
    · simp [hji]
  show ({ nodes := (t.setContents i bytes').shape.nodes, root := t.root, cwd := t.cwd } : Tree) = _
  rw [hnodes]
  rfl

variable {how : OpenHow}

theorem Opens.extends (h : t.Opens path how t') : t.Extends t' := by
  cases h with
  | created rights hcreat hres hw hfresh =>
    obtain ⟨parent, rights', entries, hd, -, -, hnone⟩ := dir_of_missing hres
    exact extends_addEntry hd hnone hfresh
  | file hexcl hres hi hpermits =>
    split
    · exact extends_setContents hi []
    · exact Extends.refl t
  | directory hcreat htrunc hwrite hres hi hread => exact Extends.refl t

/-- Without `O_TRUNC`, no contents change. -/
theorem Opens.keepsFiles (h : t.Opens path how t') (htrunc : how.trunc = false) :
    t.KeepsFiles t' := by
  cases h with
  | created rights hcreat hres hw hfresh =>
    obtain ⟨parent, rights', entries, hd, -⟩ := dir_of_missing hres
    exact keepsFiles_addEntry hd hfresh
  | file hexcl hres hi hpermits =>
    rw [htrunc, if_neg Bool.false_ne_true]
    exact fun _ _ _ => id
  | directory hcreat htrunc' hwrite hres hi hread => exact fun _ _ _ => id

/-- Without `O_CREAT`, no entry is made. -/
theorem Opens.shape_eq (h : t.Opens path how t') (hcreat : how.creat = false) :
    t'.shape = t.shape := by
  cases h with
  | created rights hcreat' hres hw hfresh =>
    rw [hcreat] at hcreat'
    cases hcreat'
  | file hexcl hres hi hpermits =>
    split
    · exact shape_setContents hi []
    · rfl
  | directory hcreat' htrunc hwrite hres hi hread => rfl

/-- With `O_CREAT` and `O_EXCL`, there was no entry before. -/
theorem Opens.not_exists (h : t.Opens path how t') (hcreat : how.creat) (hexcl : how.excl) :
    ¬t.Exists path := by
  cases h with
  | created rights hcreat' hres hw hfresh =>
    rintro ⟨i, hi⟩
    rw [hexcl, Bool.not_true, hi] at hres
    cases Option.some.inj hres
  | file hexcl' hres hi hpermits => exact (hexcl' ⟨hcreat, hexcl⟩).elim
  | directory hcreat' htrunc hwrite hres hi hread =>
    rw [hcreat] at hcreat'
    cases hcreat'

theorem Opens.exists (h : t.Opens path how t') (hcreat : how.creat) (hexcl : how.excl) :
    t'.Exists path := by
  cases h with
  | created rights hcreat' hres hw hfresh =>
    rw [hexcl] at hres
    exact ⟨_, resolve_addEntry hres hfresh _⟩
  | file hexcl' hres hi hpermits => exact (hexcl' ⟨hcreat, hexcl⟩).elim
  | directory hcreat' htrunc hwrite hres hi hread =>
    rw [hcreat] at hcreat'
    cases hcreat'

/-- A directory is opened, if at all, and left as it is. -/
theorem Opens.eq_of_isDirectory (h : t.Opens path how t') (hdir : t.IsDirectory path) : t' = t := by
  obtain ⟨i, entries, hi, hentries⟩ := hdir
  cases h with
  | @created d i' name rights hcreat hres hw hfresh =>
    -- whether or not a link was followed at the end, there is something
    have hmissing : t.resolve true path = some (.missing d name) := by
      cases hexcl : how.excl with
      | false => rwa [hexcl] at hres
      | true =>
        rw [hexcl] at hres
        obtain ⟨start, hstart, hwalk⟩ := Option.bind_eq_some_iff.mp hres
        refine Option.bind_eq_some_iff.mpr ⟨start, hstart, ?_⟩
        have := walk_append_of_missing hwalk true []
        rwa [List.append_nil, if_pos rfl] at this
    cases Option.some.inj (hi.symm.trans hmissing)
  | file hexcl hres hnode hpermits =>
    obtain rfl := Found.node.inj (Option.some.inj (hi.symm.trans hres))
    rw [entries?, hnode] at hentries
    cases hentries
  | directory hcreat htrunc hwrite hres hnode hread => rfl

end Tree

end NandroidFS
