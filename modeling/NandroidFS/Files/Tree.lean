import Mathlib.Data.List.DropRight
import Mathlib.Data.Option.Basic
import Mathlib.Logic.Function.Basic
import Mathlib.Tactic.Common

/-!
# Trees of files

A file system as POSIX describes it: numbered nodes, directories with entries, files with contents,
symbolic links, and what the caller is allowed to do with each node.  `resolve` is the resolution of
a path; everything else is said in terms of it.

A path is cut at its slashes and nowhere else, so `//` and a trailing slash leave empty components.
An empty component names the directory in which it is looked up, and fails outside a directory.
This is all that POSIX asks of them, and it makes a trailing slash follow a link.

A link is followed by putting the components of its target before what is left of the path.  The
number of links that may be followed is bounded, as it is in every kernel.
-/

namespace NandroidFS

/-- The name of an entry. -/
abbrev Name := List UInt8

/-- What the caller may do with a node. -/
structure Rights where
  read : Bool
  write : Bool
  exec : Bool
  deriving DecidableEq

inductive Node where
  | dir (parent : ℕ) (rights : Rights) (entries : List (Name × ℕ))
  | file (rights : Rights) (contents : List UInt8)
  | link (target : List UInt8)
  deriving DecidableEq

/-- The mode of a link grants everything. -/
def Node.rights : Node → Rights
  | .dir _ rights _ => rights
  | .file rights _ => rights
  | .link _ => ⟨true, true, true⟩

structure Tree where
  nodes : ℕ → Option Node
  root : ℕ
  cwd : ℕ

/-- What a path may lead to: a node, or a place in a directory where there is none. -/
inductive Found where
  | node (i : ℕ)
  | missing (d : ℕ) (name : Name)
  deriving DecidableEq

def components (path : List UInt8) : List Name :=
  path.splitOn 47

def dot : Name := [46]

def dotdot : Name := [46, 46]

/-- The names that only an entry can have. -/
def ProperName (name : Name) : Prop :=
  name ≠ [] ∧ name ≠ dot ∧ name ≠ dotdot

instance (name : Name) : Decidable (ProperName name) := inferInstanceAs (Decidable (_ ∧ _ ∧ _))

theorem components_ne_nil (path : List UInt8) : components path ≠ [] :=
  List.splitOn_ne_nil _ _

theorem components_append_slash (p q : List UInt8) :
    components (p ++ 47 :: q) = components p ++ components q :=
  List.splitOn_append_cons_self p q

theorem components_of_not_mem {p : List UInt8} (h : 47 ∉ p) : components p = [p] :=
  List.splitOn_eq_singleton h

/-- The path without its trailing slashes. -/
def trimSlashes (path : List UInt8) : List UInt8 :=
  path.rdropWhile (· == 47)

namespace Tree

variable (t : Tree)

/-! ## Resolution -/

/-- The number that a component has in a directory, if it has one. -/
def slot (d parent : ℕ) (entries : List (Name × ℕ)) (name : Name) : Option ℕ :=
  if name = dot then some d else if name = dotdot then some parent else entries.lookup name

/-- One component.  The directory has to be searchable, unless it is only named again. -/
def lookup (d : ℕ) (name : Name) : Option Found :=
  match t.nodes d with
  | some (.dir parent rights entries) =>
      if name = [] then some (.node d)
      else if !rights.exec then none
      else
        match slot d parent entries name with
        | none => some (.missing d name)
        | some i => if (t.nodes i).isSome then some (.node i) else none
  | _ => none

/-- Where a path begins, seen from the directory `d`; there is no empty path. -/
def start (d : ℕ) : List UInt8 → Option ℕ
  | [] => none
  | b :: _ => if b = 47 then some t.root else some d

def linkTarget (i : ℕ) : Option (List UInt8) :=
  match t.nodes i with
  | some (.link target) => some target
  | _ => none

/-- One component after the other; `next` goes on after a link. -/
def walkAux (follow : Bool) (next : ℕ → List Name → Option Found) :
    ℕ → List Name → Option Found
  | d, [] => some (.node d)
  | d, name :: rest =>
      match t.lookup d name with
      | none => none
      | some (.missing d' name') => if rest = [] then some (.missing d' name') else none
      | some (.node i) =>
          match t.linkTarget i with
          | none => walkAux follow next i rest
          | some target =>
              if rest = [] ∧ follow = false then some (.node i)
              else (t.start d target).bind fun d' => next d' (components target ++ rest)

/-- The walk that follows at most `links` links.  With `follow` it also follows one at the end. -/
def walk (follow : Bool) : (links : ℕ) → ℕ → List Name → Option Found
  | 0 => t.walkAux follow fun _ _ => none
  | links + 1 => t.walkAux follow (walk follow links)

/-- `ELOOP` comes after this many. -/
def maxLinks : ℕ := 40

/-- **The resolution of a path.** -/
def resolve (follow : Bool) (path : List UInt8) : Option Found :=
  (t.start t.cwd path).bind fun d => t.walk follow maxLinks d (components path)

variable {t} {follow : Bool} {next next' : ℕ → List Name → Option Found} {d i links : ℕ}
  {name : Name} {rest comps : List Name}

/-- **How a walk reaches a node.** -/
theorem walkAux_cons_eq_node : t.walkAux follow next d (name :: rest) = some (.node i) ↔
    ∃ j, t.lookup d name = some (.node j) ∧
      (t.linkTarget j = none ∧ t.walkAux follow next j rest = some (.node i) ∨
        ∃ target, t.linkTarget j = some target ∧
          (rest = [] ∧ follow = false ∧ j = i ∨
            ¬(rest = [] ∧ follow = false) ∧
              ∃ d', t.start d target = some d' ∧
                next d' (components target ++ rest) = some (.node i))) := by
  rw [walkAux]
  rcases hlook : t.lookup d name with _ | j | ⟨d', name'⟩
  · simp
  · simp only [Option.some.injEq, Found.node.injEq, exists_eq_left']
    rcases htarget : t.linkTarget j with _ | target
    · simp
    · simp only [Option.some.injEq, exists_eq_left', reduceCtorEq, false_and, false_or]
      by_cases hlast : rest = [] ∧ follow = false
      · simp [hlast]
      · simp only [if_neg hlast, Option.bind_eq_some_iff]
        tauto
  · simp only [Option.some.injEq, reduceCtorEq, false_and, exists_false, iff_false]
    split <;> simp

theorem slot_of_proper {parent : ℕ} {entries : List (Name × ℕ)} (h : ProperName name) :
    slot d parent entries name = entries.lookup name := by
  rw [slot, if_neg h.2.1, if_neg h.2.2]

theorem slot_eq_none {parent : ℕ} {entries : List (Name × ℕ)} (hname : name ≠ []) :
    slot d parent entries name = none ↔ ProperName name ∧ entries.lookup name = none := by
  by_cases hdot : name = dot
  · simp only [slot, if_pos hdot, reduceCtorEq, false_iff, not_and]
    exact fun h => (h.2.1 hdot).elim
  · by_cases hdotdot : name = dotdot
    · simp only [slot, if_neg hdot, if_pos hdotdot, reduceCtorEq, false_iff, not_and]
      exact fun h => (h.2.2 hdotdot).elim
    · rw [slot, if_neg hdot, if_neg hdotdot]
      exact ⟨fun h => ⟨⟨hname, hdot, hdotdot⟩, h⟩, And.right⟩

theorem lookup_eq_node : t.lookup d name = some (.node i) ↔
    ∃ parent rights entries, t.nodes d = some (.dir parent rights entries) ∧
      (name = [] ∧ d = i ∨
        name ≠ [] ∧ rights.exec ∧ slot d parent entries name = some i ∧ (t.nodes i).isSome) := by
  constructor
  · intro h
    rw [lookup] at h
    split at h
    · next parent rights entries hd =>
      refine ⟨parent, rights, entries, hd, ?_⟩
      split at h
      · next hname => exact Or.inl ⟨hname, Found.node.inj (Option.some.inj h)⟩
      · next hname =>
        split at h
        · cases h
        · next hexec =>
          split at h
          · cases Option.some.inj h
          · next j hslot =>
            split at h
            · next hsome =>
              obtain rfl : j = i := Found.node.inj (Option.some.inj h)
              exact Or.inr ⟨hname, by simpa using hexec, hslot, hsome⟩
            · cases h
    · cases h
  · rintro ⟨parent, rights, entries, hd, ⟨rfl, rfl⟩ | ⟨hname, hexec, hslot, hsome⟩⟩
    · simp [lookup, hd]
    · simp [lookup, hd, hname, hexec, hslot, hsome]

theorem lookup_eq_missing {d' : ℕ} {name' : Name} : t.lookup d name = some (.missing d' name') ↔
    d = d' ∧ name = name' ∧ ∃ parent rights entries,
      t.nodes d = some (.dir parent rights entries) ∧ rights.exec ∧ ProperName name ∧
        entries.lookup name = none := by
  constructor
  · intro h
    rw [lookup] at h
    split at h
    · next parent rights entries hd =>
      split at h
      · cases Option.some.inj h
      · next hname =>
        split at h
        · cases h
        · next hexec =>
          split at h
          · next hslot =>
            obtain ⟨rfl, rfl⟩ := Found.missing.inj (Option.some.inj h)
            exact ⟨rfl, rfl, parent, rights, entries, hd, by simpa using hexec,
              (slot_eq_none hname).mp hslot⟩
          · split at h
            · cases Option.some.inj h
            · cases h
    · cases h
  · rintro ⟨rfl, rfl, parent, rights, entries, hd, hexec, hproper, hnone⟩
    simp [lookup, hd, hproper.1, hexec, (slot_eq_none hproper.1).mpr ⟨hproper, hnone⟩]

/-- What is found is there. -/
theorem isSome_of_lookup (h : t.lookup d name = some (.node i)) : (t.nodes i).isSome := by
  obtain ⟨parent, rights, entries, hd, ⟨-, rfl⟩ | ⟨-, -, -, hsome⟩⟩ := lookup_eq_node.mp h
  · simp [hd]
  · exact hsome

/-! ## The last component -/

/-- The directory that a walk has reached, if it has reached a node. -/
def Found.then (r : Found) (f : ℕ → Option Found) : Option Found :=
  match r with
  | .node d => f d
  | .missing _ _ => none

/-- **Without following it, the last component is looked up in what the others lead to.** -/
theorem walk_append_singleton (links d : ℕ) (init : List Name) (last : Name) :
    t.walk false links d (init ++ [last]) =
      (t.walk true links d init).bind fun r => Found.then r fun d' => t.lookup d' last := by
  have haux (next next' : ℕ → List Name → Option Found)
      (hnext : ∀ d comps, next d (comps ++ [last]) =
        (next' d comps).bind fun r => Found.then r fun d' => t.lookup d' last) (d : ℕ)
      (init : List Name) : t.walkAux false next d (init ++ [last]) =
        (t.walkAux true next' d init).bind fun r => Found.then r fun d' => t.lookup d' last := by
    induction init generalizing d with
    | nil =>
      show t.walkAux false next d [last] = t.lookup d last
      rw [walkAux]
      rcases t.lookup d last with _ | j | ⟨d', name'⟩
      · rfl
      · simp only
        rcases t.linkTarget j with _ | target <;> rfl
      · rfl
    | cons name init ih =>
      rw [List.cons_append, walkAux, walkAux]
      rcases t.lookup d name with _ | j | ⟨d', name'⟩
      · rfl
      · dsimp only
        rcases t.linkTarget j with _ | target
        · exact ih j
        · have happend : ¬(init ++ [last] = [] ∧ false = false) := by simp
          have hfollow : ¬(init = [] ∧ true = false) := by simp
          dsimp only
          rw [if_neg happend, if_neg hfollow, Option.bind_assoc]
          refine congrArg _ (funext fun d' => ?_)
          rw [← List.append_assoc]
          exact hnext d' _
      · simp only [List.append_eq_nil_iff, List.cons_ne_self, and_false, if_false]
        split <;> rfl
  induction links generalizing d init with
  | zero => exact haux _ _ (fun _ _ => rfl) d init
  | succ links ih => exact haux _ _ ih d init

/-- A node that is not a link is reached by following links at the end as well. -/
theorem walk_true_of_false (hi : t.linkTarget i = none)
    (h : t.walk false links d comps = some (.node i)) :
    t.walk true links d comps = some (.node i) := by
  have haux (next next' : ℕ → List Name → Option Found)
      (hnext : ∀ d comps, next d comps = some (.node i) → next' d comps = some (.node i)) (d : ℕ)
      (comps : List Name) (h : t.walkAux false next d comps = some (.node i)) :
      t.walkAux true next' d comps = some (.node i) := by
    induction comps generalizing d with
    | nil => exact h
    | cons name comps ih =>
      obtain ⟨j, hj, hrest⟩ := walkAux_cons_eq_node.mp h
      refine walkAux_cons_eq_node.mpr ⟨j, hj, ?_⟩
      obtain ⟨hlink, hwalk⟩ | ⟨target, hlink, ⟨-, -, rfl⟩ | ⟨-, d', hd', hwalk⟩⟩ := hrest
      · exact Or.inl ⟨hlink, ih j hwalk⟩
      · rw [hi] at hlink
        cases hlink
      · exact Or.inr ⟨target, hlink, Or.inr ⟨by simp, d', hd', hnext _ _ hwalk⟩⟩
  induction links generalizing d comps with
  | zero => exact haux _ _ (fun _ _ h => h) d comps h
  | succ links ih => exact haux _ _ (fun _ _ => ih) d comps h

/-- A trailing slash after a directory changes nothing. -/
theorem walk_append_nil (hi : t.lookup i [] = some (.node i)) (hlink : t.linkTarget i = none)
    (h : t.walk true links d comps = some (.node i)) :
    t.walk true links d (comps ++ [[]]) = some (.node i) := by
  have haux (next next' : ℕ → List Name → Option Found)
      (hnext : ∀ d comps, next d comps = some (.node i) → next' d (comps ++ [[]]) = some (.node i))
      (d : ℕ) (comps : List Name) (h : t.walkAux true next d comps = some (.node i)) :
      t.walkAux true next' d (comps ++ [[]]) = some (.node i) := by
    induction comps generalizing d with
    | nil =>
      obtain rfl : d = i := Found.node.inj (Option.some.inj h)
      exact walkAux_cons_eq_node.mpr ⟨d, hi, Or.inl ⟨hlink, rfl⟩⟩
    | cons name comps ih =>
      obtain ⟨j, hj, hrest⟩ := walkAux_cons_eq_node.mp h
      refine walkAux_cons_eq_node.mpr ⟨j, hj, ?_⟩
      obtain ⟨hlink', hwalk⟩ | ⟨target, hlink', ⟨-, hfollow, -⟩ | ⟨-, d', hd', hwalk⟩⟩ := hrest
      · exact Or.inl ⟨hlink', ih j hwalk⟩
      · cases hfollow
      · refine Or.inr ⟨target, hlink', Or.inr ⟨by simp, d', hd', ?_⟩⟩
        show next' d' (components target ++ (comps ++ [[]])) = _
        rw [← List.append_assoc]
        exact hnext _ _ hwalk
  induction links generalizing d comps with
  | zero => exact haux _ _ (fun _ _ h => by cases h) d comps h
  | succ links ih => exact haux (t.walk true links) (t.walk true links) (fun _ _ => ih) d comps h

/-- Where there is nothing, there is nothing below it either. -/
theorem walk_append_of_missing {d' : ℕ} {name' : Name}
    (h : t.walk false links d comps = some (.missing d' name')) (follow : Bool)
    (rest : List Name) : t.walk follow links d (comps ++ rest) =
      if rest = [] then some (.missing d' name') else none := by
  have haux (next next' : ℕ → List Name → Option Found)
      (hnext : ∀ d comps, next d comps = some (.missing d' name') →
        next' d (comps ++ rest) = if rest = [] then some (.missing d' name') else none)
      (d : ℕ) (comps : List Name) (h : t.walkAux false next d comps = some (.missing d' name')) :
      t.walkAux follow next' d (comps ++ rest) =
        if rest = [] then some (.missing d' name') else none := by
    induction comps generalizing d with
    | nil => cases Option.some.inj h
    | cons name comps ih =>
      rw [walkAux] at h
      rw [List.cons_append, walkAux]
      rcases hlook : t.lookup d name with _ | j | ⟨d'', name''⟩
      · rw [hlook] at h
        cases h
      · rw [hlook] at h
        dsimp only at h ⊢
        rcases htarget : t.linkTarget j with _ | target
        · rw [htarget] at h
          exact ih j h
        · rw [htarget] at h
          dsimp only at h ⊢
          by_cases hlast : comps = [] ∧ false = false
          · rw [if_pos hlast] at h
            cases Option.some.inj h
          · rw [if_neg hlast] at h
            obtain ⟨start, hstart, hwalk⟩ := Option.bind_eq_some_iff.mp h
            have hmore : ¬(comps ++ rest = [] ∧ follow = false) :=
              fun hnil => hlast ⟨(List.append_eq_nil_iff.mp hnil.1).1, rfl⟩
            rw [if_neg hmore, hstart, ← List.append_assoc]
            exact hnext _ _ hwalk
      · rw [hlook] at h
        dsimp only at h ⊢
        by_cases hcomps : comps = []
        · rw [if_pos hcomps] at h
          rw [hcomps, List.nil_append, h]
        · rw [if_neg hcomps] at h
          cases h
  induction links generalizing d comps with
  | zero => exact haux _ _ (fun _ _ h => by cases h) d comps h
  | succ links ih =>
    exact haux (t.walk false links) (t.walk follow links) (fun _ _ => ih) d comps h

/-- Where a walk finds nothing, there is a directory without such an entry. -/
theorem lookup_of_walk_missing {d' : ℕ} {name' : Name}
    (h : t.walk follow links d comps = some (.missing d' name')) :
    t.lookup d' name' = some (.missing d' name') := by
  have haux (next : ℕ → List Name → Option Found)
      (hnext : ∀ d comps, next d comps = some (.missing d' name') →
        t.lookup d' name' = some (.missing d' name')) (d : ℕ) (comps : List Name)
      (h : t.walkAux follow next d comps = some (.missing d' name')) :
      t.lookup d' name' = some (.missing d' name') := by
    induction comps generalizing d with
    | nil => cases Option.some.inj h
    | cons name comps ih =>
      rw [walkAux] at h
      split at h
      · cases h
      · next hlook =>
        split at h
        · obtain ⟨rfl, rfl⟩ := Found.missing.inj (Option.some.inj h)
          obtain ⟨rfl, rfl, -⟩ := lookup_eq_missing.mp hlook
          exact hlook
        · cases h
      · split at h
        · exact ih _ h
        · split at h
          · cases Option.some.inj h
          · obtain ⟨start, -, hwalk⟩ := Option.bind_eq_some_iff.mp h
            exact hnext _ _ hwalk
  induction links generalizing d comps with
  | zero => exact haux _ (fun _ _ h => by cases h) d comps h
  | succ links ih => exact haux (t.walk follow links) (fun _ _ => ih) d comps h

/-! ## Trees that grow -/

end Tree

/-- The node has become another by gaining entries or changing its contents. -/
def Node.Extends : Node → Node → Prop
  | .dir parent rights entries, .dir parent' rights' entries' => parent = parent' ∧
      rights = rights' ∧ ∀ name i, entries.lookup name = some i → entries'.lookup name = some i
  | .file rights _, .file rights' _ => rights = rights'
  | .link target, .link target' => target = target'
  | _, _ => False

theorem Node.Extends.refl (node : Node) : node.Extends node := by
  cases node with
  | dir parent rights entries => exact ⟨rfl, rfl, fun _ _ => id⟩
  | file rights contents => exact rfl
  | link target => exact rfl

theorem Node.Extends.trans {a b c : Node} (hab : a.Extends b) (hbc : b.Extends c) :
    a.Extends c := by
  cases a <;> cases b <;> cases c <;> try contradiction
  · exact ⟨hab.1.trans hbc.1, hab.2.1.trans hbc.2.1,
      fun name i h => hbc.2.2 name i (hab.2.2 name i h)⟩
  · exact Eq.trans hab hbc
  · exact Eq.trans hab hbc

/-- No node and no entry is lost, no link is changed, and no right. -/
structure Tree.Extends (t t' : Tree) : Prop where
  root : t'.root = t.root
  cwd : t'.cwd = t.cwd
  nodes : ∀ i node, t.nodes i = some node → ∃ node', t'.nodes i = some node' ∧ node.Extends node'

namespace Tree

variable {t t' t'' : Tree} {follow : Bool} {d i links : ℕ} {name : Name} {comps : List Name}

theorem Extends.refl (t : Tree) : t.Extends t :=
  ⟨rfl, rfl, fun _ node h => ⟨node, h, Node.Extends.refl node⟩⟩

theorem Extends.trans (h : t.Extends t') (h' : t'.Extends t'') : t.Extends t'' where
  root := h'.root.trans h.root
  cwd := h'.cwd.trans h.cwd
  nodes i node hi := by
    obtain ⟨node', hi', hle⟩ := h.nodes i node hi
    obtain ⟨node'', hi'', hle'⟩ := h'.nodes i node' hi'
    exact ⟨node'', hi'', hle.trans hle'⟩

theorem Extends.dir (h : t.Extends t') {parent : ℕ} {rights : Rights} {entries : List (Name × ℕ)}
    (hd : t.nodes d = some (.dir parent rights entries)) :
    ∃ entries', t'.nodes d = some (.dir parent rights entries') ∧
      ∀ name i, entries.lookup name = some i → entries'.lookup name = some i := by
  obtain ⟨node', hd', hle⟩ := h.nodes d _ hd
  cases node' with
  | dir parent' rights' entries' =>
    obtain ⟨rfl, rfl, hentries⟩ := hle
    exact ⟨entries', hd', hentries⟩
  | file rights' contents => exact hle.elim
  | link target => exact hle.elim

theorem Extends.isSome (h : t.Extends t') (hi : (t.nodes i).isSome) : (t'.nodes i).isSome := by
  obtain ⟨node, hnode⟩ := Option.isSome_iff_exists.mp hi
  obtain ⟨node', hnode', -⟩ := h.nodes i node hnode
  rw [hnode']
  rfl

theorem Extends.lookup (h : t.Extends t') (hl : t.lookup d name = some (.node i)) :
    t'.lookup d name = some (.node i) := by
  obtain ⟨parent, rights, entries, hd, hcase⟩ := lookup_eq_node.mp hl
  obtain ⟨entries', hd', hentries⟩ := h.dir hd
  refine lookup_eq_node.mpr ⟨parent, rights, entries', hd', hcase.imp_right ?_⟩
  rintro ⟨hname, hexec, hslot, hsome⟩
  refine ⟨hname, hexec, ?_, h.isSome hsome⟩
  rw [slot] at hslot ⊢
  split
  · next hdot => rwa [if_pos hdot] at hslot
  · next hdot =>
    rw [if_neg hdot] at hslot
    split
    · next hdotdot => rwa [if_pos hdotdot] at hslot
    · next hdotdot =>
      rw [if_neg hdotdot] at hslot
      exact hentries _ _ hslot

theorem Extends.linkTarget (h : t.Extends t') (hi : (t.nodes i).isSome) :
    t'.linkTarget i = t.linkTarget i := by
  obtain ⟨node, hnode⟩ := Option.isSome_iff_exists.mp hi
  obtain ⟨node', hnode', hle⟩ := h.nodes i node hnode
  rw [Tree.linkTarget, Tree.linkTarget, hnode, hnode']
  cases node <;> cases node' <;> try contradiction
  · rfl
  · rfl
  · exact congrArg some (Eq.symm hle)

/-- **What a walk reaches, it still reaches when the tree has grown.** -/
theorem Extends.walk (h : t.Extends t') (hw : t.walk follow links d comps = some (.node i)) :
    t'.walk follow links d comps = some (.node i) := by
  have haux (next next' : ℕ → List Name → Option Found)
      (hnext : ∀ d comps, next d comps = some (.node i) → next' d comps = some (.node i)) (d : ℕ)
      (comps : List Name) (hw : t.walkAux follow next d comps = some (.node i)) :
      t'.walkAux follow next' d comps = some (.node i) := by
    induction comps generalizing d with
    | nil => exact hw
    | cons name comps ih =>
      obtain ⟨j, hj, hrest⟩ := walkAux_cons_eq_node.mp hw
      refine walkAux_cons_eq_node.mpr ⟨j, h.lookup hj, ?_⟩
      rw [h.linkTarget (isSome_of_lookup hj)]
      obtain ⟨hlink, hwalk⟩ | ⟨target, hlink, hlast | ⟨hmore, d', hd', hwalk⟩⟩ := hrest
      · exact Or.inl ⟨hlink, ih j hwalk⟩
      · exact Or.inr ⟨target, hlink, Or.inl hlast⟩
      · refine Or.inr ⟨target, hlink, Or.inr ⟨hmore, d', ?_, hnext _ _ hwalk⟩⟩
        rw [← hd']
        cases target with
        | nil => rfl
        | cons b bs => simp only [start, h.root]
  induction links generalizing d comps with
  | zero => exact haux _ _ (fun _ _ hw => by cases hw) d comps hw
  | succ links ih =>
    exact haux (t.walk follow links) (t'.walk follow links) (fun _ _ => ih) d comps hw

theorem Extends.resolve (h : t.Extends t') {path : List UInt8}
    (hr : t.resolve follow path = some (.node i)) : t'.resolve follow path = some (.node i) := by
  obtain ⟨d, hd, hw⟩ := Option.bind_eq_some_iff.mp hr
  refine Option.bind_eq_some_iff.mpr ⟨d, ?_, h.walk hw⟩
  rw [← hd]
  cases path with
  | nil => rfl
  | cons b bs => simp only [start, h.root, h.cwd]

end Tree

end NandroidFS
