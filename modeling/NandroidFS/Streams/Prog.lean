import Mathlib.Tactic.Common
import Mathlib.Data.List.Basic
import Mathlib.Data.Nat.Basic

/-!
# Programs as trees of actions

A program over an action signature `E`, with answers `R e`, is the tree of what it does: it
returns, it raises, or it performs an action and continues with the answer.  The signature fixes
no meaning for the actions.  Meaning is given elsewhere, by an interpreter that walks the tree,
so one program text can be read at several levels: against whole byte streams, against a socket
that cuts its data into chunks, or as one thread among many.

The tree is well founded.  A loop of the modelled code is a recursion that builds the tree, so
every program here terminates by construction and a loop without a bound is a loop of the
interpreter, not of the program.
-/

namespace NandroidFS

/-- A program over the signature `(E, R)`, raising exceptions in `ε` and returning in `α`. -/
inductive Prog (E : Type) (R : E → Type) (ε α : Type) : Type where
  | ret (a : α) : Prog E R ε α
  | fail (e : ε) : Prog E R ε α
  | act (e : E) (k : R e → Prog E R ε α) : Prog E R ε α

namespace Prog

variable {E : Type} {R : E → Type} {ε α β γ : Type}

/-- Sequencing: graft the continuation on the returning leaves. -/
def bind : Prog E R ε α → (α → Prog E R ε β) → Prog E R ε β
  | .ret a, f => f a
  | .fail e, _ => .fail e
  | .act e k, f => .act e fun r => (k r).bind f

instance : Monad (Prog E R ε) where
  pure := Prog.ret
  bind := Prog.bind

/-- Perform one action and return its answer. -/
def perform (e : E) : Prog E R ε (R e) :=
  .act e .ret

@[simp] theorem pure_eq (a : α) : (pure a : Prog E R ε α) = .ret a := rfl

@[simp] theorem ret_bind (a : α) (f : α → Prog E R ε β) : (Prog.ret a >>= f) = f a := rfl

@[simp] theorem act_bind (e : E) (k : R e → Prog E R ε α) (f : α → Prog E R ε β) :
    (Prog.act e k >>= f) = .act e fun r => k r >>= f := rfl

@[simp] theorem bind_ret (p : Prog E R ε α) : (p >>= Prog.ret) = p := by
  induction p with
  | ret a => rfl
  | fail e => rfl
  | act e k ih =>
    rw [act_bind]
    exact congrArg _ (funext ih)

theorem bind_assoc (p : Prog E R ε α) (f : α → Prog E R ε β) (g : β → Prog E R ε γ) :
    ((p >>= f) >>= g) = p >>= fun a => f a >>= g := by
  induction p with
  | ret a => rfl
  | fail e => rfl
  | act e k ih =>
    simp only [act_bind]
    exact congrArg _ (funext ih)

instance : LawfulMonad (Prog E R ε) :=
  LawfulMonad.mk' _ (fun p => bind_ret p) (fun _ _ => rfl) (fun p f g => bind_assoc p f g)

/-! ## Properties of every node

A property of a program that every step preserves is usually a property of its nodes. -/

/-- Every action of the program satisfies `P`. -/
def All (P : E → Prop) : Prog E R ε α → Prop
  | .ret _ => True
  | .fail _ => True
  | .act e k => P e ∧ ∀ r, (k r).All P

theorem All.bind {P : E → Prop} {p : Prog E R ε α} {f : α → Prog E R ε β} (hp : p.All P)
    (hf : ∀ a, (f a).All P) : (p >>= f).All P := by
  induction p with
  | ret a => exact hf a
  | fail e => trivial
  | act e k ih => exact ⟨hp.1, fun r => ih r (hp.2 r)⟩

theorem All.mono {P Q : E → Prop} (hPQ : ∀ e, P e → Q e) {p : Prog E R ε α} (hp : p.All P) :
    p.All Q := by
  induction p with
  | ret a => trivial
  | fail e => trivial
  | act e k ih => exact ⟨hPQ e hp.1, fun r => ih r (hp.2 r)⟩

/-- The program acts in two phases: actions in `P` first, and from the first action outside `P`
on only actions in `Q`. -/
def Phased (P Q : E → Prop) : Prog E R ε α → Prop
  | .ret _ => True
  | .fail _ => True
  | .act e k => (P e ∧ ∀ r, (k r).Phased P Q) ∨ (Q e ∧ ∀ r, (k r).All Q)

theorem All.phased_right {P Q : E → Prop} {p : Prog E R ε α} (h : p.All Q) : p.Phased P Q := by
  cases p with
  | ret a => trivial
  | fail e => trivial
  | act e k => exact Or.inr h

theorem Phased.bind_left {P Q : E → Prop} {p : Prog E R ε α} {f : α → Prog E R ε β}
    (hp : p.All P) (hf : ∀ a, (f a).Phased P Q) : (p >>= f).Phased P Q := by
  induction p with
  | ret a => exact hf a
  | fail e => trivial
  | act e k ih => exact Or.inl ⟨hp.1, fun r => ih r (hp.2 r)⟩

theorem Phased.bind_right {P Q : E → Prop} {p : Prog E R ε α} {f : α → Prog E R ε β}
    (hp : p.Phased P Q) (hf : ∀ a, (f a).All Q) : (p >>= f).Phased P Q := by
  induction p with
  | ret a => exact (hf a).phased_right
  | fail e => trivial
  | act e k ih =>
    rcases hp with ⟨he, hk⟩ | ⟨he, hk⟩
    · exact Or.inl ⟨he, fun r => ih r (hk r)⟩
    · exact Or.inr ⟨he, fun r => (hk r).bind hf⟩

/-- Every value the program may return satisfies `P`. -/
def Returns (P : α → Prop) : Prog E R ε α → Prop
  | .ret a => P a
  | .fail _ => True
  | .act _ k => ∀ r, (k r).Returns P

theorem returns_true (p : Prog E R ε α) : p.Returns fun _ => True := by
  induction p with
  | ret a => trivial
  | fail e => trivial
  | act e k ih => exact ih

theorem Returns.mono {P Q : α → Prop} (hPQ : ∀ a, P a → Q a) {p : Prog E R ε α}
    (hp : p.Returns P) : p.Returns Q := by
  induction p with
  | ret a => exact hPQ a hp
  | fail e => trivial
  | act e k ih => exact fun r => ih r (hp r)

theorem Returns.bind {P : α → Prop} {Q : β → Prop} {p : Prog E R ε α} {f : α → Prog E R ε β}
    (hp : p.Returns P) (hf : ∀ a, P a → (f a).Returns Q) : (p >>= f).Returns Q := by
  induction p with
  | ret a => exact hf a hp
  | fail e => trivial
  | act e k ih => exact fun r => ih r (hp r)

/-- Two continuations that agree on what a program may return give the same program. -/
theorem bind_congr_of_returns {P : α → Prop} {p : Prog E R ε α} {f g : α → Prog E R ε β}
    (hp : p.Returns P) (hfg : ∀ a, P a → f a = g a) : (p >>= f) = p >>= g := by
  induction p with
  | ret a => exact hfg a hp
  | fail e => rfl
  | act e k ih =>
    rw [act_bind, act_bind]
    exact congrArg _ (funext fun r => ih r (hp r))

/-- The program performs at most that many actions, whatever the answers are. -/
def Within : Prog E R ε α → ℕ → Prop
  | .ret _, _ => True
  | .fail _, _ => True
  | .act _ k, n => 0 < n ∧ ∀ r, (k r).Within (n - 1)

theorem Within.mono {p : Prog E R ε α} {m n : ℕ} (hmn : m ≤ n) (hp : p.Within m) : p.Within n := by
  induction p generalizing m n with
  | ret a => trivial
  | fail e => trivial
  | act e k ih =>
    exact ⟨Nat.lt_of_lt_of_le hp.1 hmn, fun r => ih r (Nat.sub_le_sub_right hmn 1) (hp.2 r)⟩

theorem Within.bind {p : Prog E R ε α} {f : α → Prog E R ε β} {m n : ℕ} (hp : p.Within m)
    (hf : ∀ a, (f a).Within n) : (p >>= f).Within (m + n) := by
  induction p generalizing m with
  | ret a => exact (hf a).mono (Nat.le_add_left n m)
  | fail e => trivial
  | act e k ih =>
    refine ⟨Nat.lt_of_lt_of_le hp.1 (Nat.le_add_right m n), fun r => ?_⟩
    rw [Nat.sub_add_comm hp.1]
    exact ih r (hp.2 r)

/-- Every exception the program may raise satisfies `P`. -/
def Raises (P : ε → Prop) : Prog E R ε α → Prop
  | .ret _ => True
  | .fail e => P e
  | .act _ k => ∀ r, (k r).Raises P

theorem Raises.bind {P : ε → Prop} {p : Prog E R ε α} {f : α → Prog E R ε β} (hp : p.Raises P)
    (hf : ∀ a, (f a).Raises P) : (p >>= f).Raises P := by
  induction p with
  | ret a => exact hf a
  | fail e => exact hp
  | act e k ih => exact fun r => ih r (hp r)

end Prog

end NandroidFS
