import NandroidFS.Shared.Primitives

/-!
# Paths

`path_utils.cpp`: joining a directory and an entry name, and cutting the last component off a
path.  Paths are byte strings with `/` between their components.

* `exists_of_getParentPath`: what the parent is cut off from.
* `getParentPath_eq_none_iff`: where there is no parent.  The header says that this is so for the
  root and for names; it is also so for the entries of the root.
-/

namespace NandroidFS

/-- The separator `/`. -/
def slash : UInt8 := 47

/-- `std::string::ends_with` for one character. -/
def endsWithSlash (path : ByteString) : Bool :=
  path.getLast? == some slash

/-- `std::string::find_last_of` for one character. -/
def findLastOf (c : UInt8) : ByteString → Option ℕ
  | [] => none
  | b :: bs =>
      match findLastOf c bs with
      | some i => some (i + 1)
      | none => if b = c then some 0 else none

def getFullPath (dirPath fileName : ByteString) : ByteString :=
  (if endsWithSlash dirPath then dirPath else dirPath ++ [slash]) ++ fileName

def getParentPath (path : ByteString) : Option ByteString :=
  let path := if endsWithSlash path then path.dropLast else path
  match findLastOf slash path with
  | none => none
  | some lastSeparatorOffset =>
      let path := path.take lastSeparatorOffset
      if path.length = 0 then none else some path

/-! ## The last separator -/

theorem findLastOf_eq_none {c : UInt8} {path : ByteString} (h : findLastOf c path = none) :
    c ∉ path := by
  induction path with
  | nil => exact List.not_mem_nil
  | cons b bs ih =>
    rw [findLastOf] at h
    split at h
    · cases h
    · next hnone =>
      split at h
      · cases h
      · next hb =>
        rw [List.mem_cons, not_or]
        exact ⟨fun heq => hb heq.symm, ih hnone⟩

theorem findLastOf_eq_some {c : UInt8} {path : ByteString} {i : ℕ}
    (h : findLastOf c path = some i) :
    ∃ rest, path = path.take i ++ c :: rest ∧ c ∉ rest := by
  induction path generalizing i with
  | nil => cases h
  | cons b bs ih =>
    rw [findLastOf] at h
    split at h
    · next j hj =>
      obtain rfl : j + 1 = i := Option.some.inj h
      obtain ⟨rest, hrest, hc⟩ := ih hj
      refine ⟨rest, ?_, hc⟩
      rw [List.take_succ_cons, List.cons_append, ← hrest]
    · next hnone =>
      split at h
      · next hb =>
        obtain rfl : 0 = i := Option.some.inj h
        exact ⟨bs, by rw [hb]; rfl, findLastOf_eq_none hnone⟩
      · cases h

theorem findLastOf_of_notMem {c : UInt8} {path : ByteString} (h : c ∉ path) :
    findLastOf c path = none := by
  rcases hlast : findLastOf c path with _ | i
  · rfl
  · obtain ⟨rest, hsplit, -⟩ := findLastOf_eq_some hlast
    refine (h ?_).elim
    rw [hsplit]
    simp

theorem findLastOf_append_cons {c : UInt8} (p : ByteString) {rest : ByteString} (h : c ∉ rest) :
    findLastOf c (p ++ c :: rest) = some p.length := by
  induction p with
  | nil =>
    rw [List.nil_append, findLastOf, findLastOf_of_notMem h]
    exact if_pos rfl
  | cons b p ih => rw [List.cons_append, findLastOf, ih, List.length_cons]

/-! ## Cutting -/

/-- What is left of a path when one trailing slash is taken from it. -/
def withoutSlash (path : ByteString) : ByteString :=
  if endsWithSlash path then path.dropLast else path

theorem withoutSlash_append_slash (path : ByteString) : withoutSlash (path ++ [slash]) = path := by
  simp [withoutSlash, endsWithSlash]

theorem withoutSlash_of_not_endsWithSlash {path : ByteString} (h : endsWithSlash path = false) :
    withoutSlash path = path := by
  rw [withoutSlash, h]
  rfl

/-- A path is what is left of it, or this with a slash. -/
theorem eq_withoutSlash (path : ByteString) :
    path = withoutSlash path ∧ endsWithSlash path = false ∨
      path = withoutSlash path ++ [slash] := by
  rcases hends : endsWithSlash path with _ | _
  · exact Or.inl ⟨(withoutSlash_of_not_endsWithSlash hends).symm, rfl⟩
  · right
    rw [withoutSlash, hends]
    exact (List.dropLast_append_getLast? slash (beq_iff_eq.mp hends)).symm

theorem getParentPath_eq (path : ByteString) :
    getParentPath path = (findLastOf slash (withoutSlash path)).bind fun i =>
      if (withoutSlash path).take i = [] then none else some ((withoutSlash path).take i) := by
  simp only [getParentPath, ← withoutSlash.eq_def, List.length_eq_zero_iff]
  cases findLastOf slash (withoutSlash path) with
  | none => rfl
  | some i => rfl

/-- A path without slashes, but perhaps one at its end. -/
theorem getParentPath_of_notMem {path : ByteString} (h : slash ∉ withoutSlash path) :
    getParentPath path = none := by
  rw [getParentPath_eq, findLastOf_of_notMem h]
  rfl

/-- A path is cut at its last slash, and there is no parent if nothing stands before it. -/
theorem getParentPath_of_eq {path parent name : ByteString}
    (h : withoutSlash path = parent ++ slash :: name) (hname : slash ∉ name) :
    getParentPath path = if parent = [] then none else some parent := by
  rw [getParentPath_eq, h, findLastOf_append_cons parent hname, Option.bind_some, List.take_left]

/-- **What the parent is cut off from**: a name without slashes, and at most one slash after it.
The name is empty only if the path ends in two slashes. -/
theorem exists_of_getParentPath {path parent : ByteString} (h : getParentPath path = some parent) :
    ∃ name k, path = parent ++ slash :: name ++ List.replicate k slash ∧ slash ∉ name ∧
      (name = [] → [slash, slash] <:+ path) := by
  obtain ⟨name, hcut, hname⟩ :
      ∃ name, withoutSlash path = parent ++ slash :: name ∧ slash ∉ name := by
    rw [getParentPath_eq] at h
    obtain ⟨i, hlast, hi⟩ := Option.bind_eq_some_iff.mp h
    obtain ⟨name, hsplit, hname⟩ := findLastOf_eq_some hlast
    split at hi
    · cases hi
    · exact ⟨name, Option.some.inj hi ▸ hsplit, hname⟩
  rcases eq_withoutSlash path with ⟨hpath, hends⟩ | hpath
  · refine ⟨name, 0, by rw [List.replicate_zero, List.append_nil, ← hcut, ← hpath], hname, ?_⟩
    rintro rfl
    rw [hpath, hcut, endsWithSlash] at hends
    simp at hends
  · rw [hcut] at hpath
    refine ⟨name, 1, hpath, hname, ?_⟩
    rintro rfl
    rw [hpath]
    exact ⟨parent, by simp⟩

/-! ## Where there is no parent -/

/-- The path has no slash but at its ends, and has one there. -/
def TopLevel (path : ByteString) : Prop :=
  ∃ name, slash ∉ name ∧
    (path = slash :: name ∨ path = slash :: name ++ [slash] ∨ path = name ++ [slash])

theorem TopLevel.mem {path : ByteString} (h : TopLevel path) : slash ∈ path := by
  obtain ⟨name, -, rfl | rfl | rfl⟩ := h
  · exact List.mem_cons_self
  · exact List.mem_cons_self
  · simp

theorem endsWithSlash_append_of_notMem {name : ByteString} (hname : slash ∉ name) (hne : name ≠ [])
    (path : ByteString) : endsWithSlash (path ++ name) = false := by
  rw [endsWithSlash, List.getLast?_append_of_ne_nil _ hne, beq_eq_false_iff_ne]
  exact fun hlast => hname (List.mem_of_getLast? hlast)

theorem getParentPath_of_topLevel {path : ByteString} (h : TopLevel path) :
    getParentPath path = none := by
  obtain ⟨name, hname, rfl | rfl | rfl⟩ := h
  · by_cases hne : name = []
    · subst hne
      exact getParentPath_of_notMem List.not_mem_nil
    · have hwithout : withoutSlash (slash :: name) = [] ++ slash :: name :=
        withoutSlash_of_not_endsWithSlash (endsWithSlash_append_of_notMem hname hne [slash])
      exact getParentPath_of_eq hwithout hname
  · have hwithout : withoutSlash (slash :: name ++ [slash]) = [] ++ slash :: name :=
      withoutSlash_append_slash (slash :: name)
    exact getParentPath_of_eq hwithout hname
  · refine getParentPath_of_notMem ?_
    rwa [withoutSlash_append_slash]

/-- **Where there is no parent**: for a name, and for what has no slash but at its ends. -/
theorem getParentPath_eq_none_iff (path : ByteString) :
    getParentPath path = none ↔ slash ∉ path ∨ TopLevel path := by
  constructor
  · intro h
    rcases hlast : findLastOf slash (withoutSlash path) with _ | i
    · have hnotMem := findLastOf_eq_none hlast
      rcases eq_withoutSlash path with ⟨hpath, -⟩ | hpath
      · exact Or.inl (hpath ▸ hnotMem)
      · exact Or.inr ⟨withoutSlash path, hnotMem, Or.inr (Or.inr hpath)⟩
    · obtain ⟨name, hsplit, hname⟩ := findLastOf_eq_some hlast
      rw [getParentPath_of_eq hsplit hname] at h
      have hnil : (withoutSlash path).take i = [] := by
        by_contra hne
        rw [if_neg hne] at h
        cases h
      rw [hnil, List.nil_append] at hsplit
      refine Or.inr ⟨name, hname, ?_⟩
      rcases eq_withoutSlash path with ⟨hpath, -⟩ | hpath
      · exact Or.inl (hpath.trans hsplit)
      · exact Or.inr (Or.inl (hpath.trans (congrArg (· ++ [slash]) hsplit)))
  · rintro (hmem | htop)
    · refine getParentPath_of_notMem fun h => hmem ?_
      rcases eq_withoutSlash path with ⟨hpath, -⟩ | hpath
      · exact hpath ▸ h
      · rw [hpath]
        exact List.mem_append_left _ h
    · exact getParentPath_of_topLevel htop

/-! ## Joining and cutting -/

/-- The root, or a path that starts with a slash and does not end with one. -/
def IsDirectory (path : ByteString) : Prop :=
  path = [slash] ∨ path.head? = some slash ∧ endsWithSlash path = false

theorem IsDirectory.ne_nil {dirPath : ByteString} (h : IsDirectory dirPath) : dirPath ≠ [] := by
  rintro rfl
  rcases h with h | ⟨h, -⟩
  · cases h
  · cases h

/-- An entry of a directory other than the root, with or without a slash at its end. -/
theorem getParentPath_append_cons {dirPath name : ByteString} (hdir : dirPath ≠ [])
    (hne : name ≠ []) (hname : slash ∉ name) :
    getParentPath (dirPath ++ slash :: name) = some dirPath ∧
      getParentPath (dirPath ++ slash :: name ++ [slash]) = some dirPath := by
  have hwithout : withoutSlash (dirPath ++ slash :: name) = dirPath ++ slash :: name := by
    refine withoutSlash_of_not_endsWithSlash ?_
    have := endsWithSlash_append_of_notMem hname hne (dirPath ++ [slash])
    rwa [List.append_assoc] at this
  rw [getParentPath_of_eq hwithout hname,
    getParentPath_of_eq (withoutSlash_append_slash (dirPath ++ slash :: name)) hname, if_neg hdir]
  exact ⟨rfl, rfl⟩

/-- **Cutting is the inverse of joining except in the root**, whose entries have no parent; and
there is no parent only for the root and for names, except for what has no slash but at its ends. -/
theorem getParentPath_getFullPath_iff {dirPath name : ByteString} (hdir : IsDirectory dirPath)
    (hne : name ≠ []) (hname : slash ∉ name) (path : ByteString) :
    (getParentPath (getFullPath dirPath name) = some dirPath ∧
        getParentPath (getFullPath dirPath name ++ [slash]) = some dirPath ↔
      dirPath ≠ [slash]) ∧
    ((getParentPath path = none → path = [slash] ∨ slash ∉ path) ↔
      path = [slash] ∨ ¬TopLevel path) := by
  constructor
  · by_cases hroot : dirPath = [slash]
    · subst hroot
      refine iff_of_false (fun h => ?_) (fun h => h rfl)
      have hnone : getParentPath (getFullPath [slash] name) = none :=
        getParentPath_of_topLevel ⟨name, hname, Or.inl rfl⟩
      rw [hnone] at h
      cases h.1
    · refine iff_of_true ?_ hroot
      have hends : endsWithSlash dirPath = false := (hdir.resolve_left hroot).2
      have hfull : getFullPath dirPath name = dirPath ++ slash :: name := by
        rw [getFullPath, hends]
        simp
      rw [hfull]
      exact getParentPath_append_cons hdir.ne_nil hne hname
  · rw [getParentPath_eq_none_iff]
    constructor
    · intro h
      by_cases htop : TopLevel path
      · exact Or.inl ((h (Or.inr htop)).resolve_right (not_not.mpr htop.mem))
      · exact Or.inr htop
    · rintro (hroot | htop) h
      · exact Or.inl hroot
      · exact Or.inr (h.resolve_right htop)

/-- A file in a directory that is not the root, and a name. -/
theorem getParentPath_getFullPath_sdcard :
    (getParentPath (getFullPath [47, 115, 100] [97]) = some [47, 115, 100] ∧
      getParentPath (getFullPath [47, 115, 100] [97] ++ [slash]) = some [47, 115, 100] ↔
        ([47, 115, 100] : ByteString) ≠ [slash]) ∧
    ((getParentPath [97] = none → ([97] : ByteString) = [slash] ∨ slash ∉ [97]) ↔
      ([97] : ByteString) = [slash] ∨ ¬TopLevel [97]) :=
  getParentPath_getFullPath_iff (Or.inr ⟨rfl, rfl⟩) (List.cons_ne_nil _ _) (by decide) [97]

/-- `a` in the root: the path `/a` has no parent, although it is neither the root nor a name. -/
theorem not_getParentPath_root :
    IsDirectory [slash] ∧ slash ∉ [97] ∧ getFullPath [slash] [97] = [47, 97] ∧
      ¬(getParentPath (getFullPath [slash] [97]) = some [slash] ∧
        getParentPath (getFullPath [slash] [97] ++ [slash]) = some [slash]) ∧
      ¬(getParentPath [47, 97] = none → ([47, 97] : ByteString) = [slash] ∨ slash ∉ [47, 97]) := by
  refine ⟨Or.inl rfl, by decide, rfl, ?_, ?_⟩
  · rintro ⟨h, -⟩
    cases h
  · intro h
    exact absurd (h rfl) (by decide)

end NandroidFS
