import NandroidFS.Streams.ByteStream

/-!
# Rules of conduct

A program on a stream is one party among several, and what the others may rely on is how it
behaves: which actions it performs when.  A `Conduct` states such rules over the history of the
program, and `StreamM.Conforms` says that a program keeps to them from a given history on, whatever
its calls are answered, and what holds of the history when it ends.

A flush is where the peer comes in: `Flushed` says which bytes may arrive.  Nothing is said about
a program that waits for bytes that do not come.

* `StreamM.conforms_bind`: programs are checked piece by piece.
* `StreamM.conforms_of_onlyWrites`, `StreamM.conforms_of_receives`: encoders and decoders leave no
  trace in the history.
-/

namespace NandroidFS

/-- Rules for the programs over `(E, R)`, in terms of a history of type `T`. -/
structure Conduct (T E : Type) (R : E → Type) where
  /-- The action may be performed. -/
  Guard : T → StreamAct E → Prop
  /-- The history after a call. -/
  answered : T → (e : E) → R e → T
  /-- A flush may make these bytes arrive and leave this history. -/
  Flushed : T → List UInt8 → T → Prop

namespace StreamM

variable {T E : Type} {R : E → Type} {ε α β : Type} (C : Conduct T E R)

/-- From the history `τ` and with the bytes `i` to be read, the program keeps to the rules; when it
returns `Q` holds, and when it raises `X` does. -/
def Conforms (Q : α → T → List UInt8 → Prop) (X : ε → T → List UInt8 → Prop) :
    StreamM E R ε α → T → List UInt8 → Prop
  | .ret a, τ, i => Q a τ i
  | .fail e, τ, i => X e τ i
  | .act (.readExact n) k, τ, i =>
      C.Guard τ (.readExact n) ∧ (n ≤ i.length → Conforms Q X (k (some (i.take n))) τ (i.drop n))
  | .act (.writeExact bs) k, τ, i => C.Guard τ (.writeExact bs) ∧ Conforms Q X (k ()) τ i
  | .act .flush k, τ, i =>
      C.Guard τ .flush ∧ ∀ bs τ', C.Flushed τ bs τ' → Conforms Q X (k ()) τ' (i ++ bs)
  | .act (.call e) k, τ, i =>
      C.Guard τ (.call e) ∧ ∀ r, Conforms Q X (k r) (C.answered τ e r) i

variable {C} {Q Q' : α → T → List UInt8 → Prop} {X X' : ε → T → List UInt8 → Prop}
  {p : StreamM E R ε α} {τ : T} {i : List UInt8}

theorem Conforms.mono (h : p.Conforms C Q X τ i) (hQ : ∀ a τ' i', Q a τ' i' → Q' a τ' i')
    (hX : ∀ e τ' i', X e τ' i' → X' e τ' i') : p.Conforms C Q' X' τ i := by
  induction p generalizing τ i with
  | ret a => exact hQ a τ i h
  | fail e => exact hX e τ i h
  | act e k ih =>
    cases e with
    | readExact n => exact ⟨h.1, fun hn => ih _ (h.2 hn)⟩
    | writeExact bs => exact ⟨h.1, ih _ h.2⟩
    | flush => exact ⟨h.1, fun bs τ' hbs => ih _ (h.2 bs τ' hbs)⟩
    | call e => exact ⟨h.1, fun r => ih _ (h.2 r)⟩

/-- **Programs are checked piece by piece.** -/
theorem conforms_bind {f : α → StreamM E R ε β} {Q : β → T → List UInt8 → Prop} :
    (p >>= f).Conforms C Q X τ i ↔
      p.Conforms C (fun a τ' i' => (f a).Conforms C Q X τ' i') X τ i := by
  induction p generalizing τ i with
  | ret a => exact Iff.rfl
  | fail e => exact Iff.rfl
  | act e k ih =>
    rw [Prog.act_bind]
    cases e with
    | readExact n => exact and_congr_right' (forall_congr' fun _ => ih _)
    | writeExact bs => exact and_congr_right' (ih _)
    | flush => exact and_congr_right' (forall₃_congr fun _ _ _ => ih _)
    | call e => exact and_congr_right' (forall_congr' fun r => ih r)

theorem Conforms.bind {f : α → StreamM E R ε β} {Q' : β → T → List UInt8 → Prop}
    (hp : p.Conforms C Q X τ i)
    (hf : ∀ a τ' i', Q a τ' i' → (f a).Conforms C Q' X τ' i') :
    (p >>= f).Conforms C Q' X τ i :=
  conforms_bind.mpr (hp.mono hf fun _ _ _ h => h)

theorem conforms_call_bind {e : E} {f : R e → StreamM E R ε α} (he : C.Guard τ (.call e))
    (hf : ∀ r, (f r).Conforms C Q X (C.answered τ e r) i) :
    (call e >>= f).Conforms C Q X τ i :=
  ⟨he, hf⟩

/-- A program that only writes leaves no trace in the history. -/
theorem conforms_of_onlyWrites (hp : p.OnlyWrites) (hg : ∀ bs, C.Guard τ (.writeExact bs)) :
    p.Conforms C (fun _ τ' i' => τ' = τ ∧ i' = i) (fun _ τ' i' => τ' = τ ∧ i' = i) τ i := by
  induction p with
  | ret a => exact ⟨rfl, rfl⟩
  | fail e => exact ⟨rfl, rfl⟩
  | act e k ih =>
    cases e with
    | writeExact bs => exact ⟨hg bs, ih _ (hp.2 _)⟩
    | readExact n => exact hp.1.elim
    | flush => exact hp.1.elim
    | call e => exact hp.1.elim

/-- A program that only reads, with the outcome it has on these bytes. -/
theorem conforms_of_run (hp : p.OnlyReads) (hg : ∀ n, C.Guard τ (.readExact n)) {W : Type}
    {world : (e : E) → W → R e × W} {v v' : View W} {a : α} (hv : v.inflow = i)
    (hrun : run world false p v = (.done a, v')) :
    p.Conforms C (fun a' τ' i' => a' = a ∧ τ' = τ ∧ i' = v'.inflow) X τ i := by
  induction p generalizing v i with
  | ret b =>
    obtain ⟨hb, rfl⟩ := Prod.mk.inj hrun
    exact ⟨Outcome.done.inj hb, rfl, hv.symm⟩
  | fail e => cases (Prod.mk.inj hrun).1
  | act e k ih =>
    cases e with
    | readExact n =>
      refine ⟨hg n, fun hn => ?_⟩
      subst hv
      rw [run_readExact_of_le _ _ hn] at hrun
      exact ih _ (hp.2 _) rfl hrun
    | writeExact bs => exact hp.1.elim
    | flush => exact hp.1.elim
    | call e => exact hp.1.elim

/-- A decoder leaves no trace in the history and gives what it decodes. -/
theorem conforms_of_receives {W : Type} {world : (e : E) → W → R e × W} {w w' : W}
    {bs rest : List UInt8} {a : α} (hr : Receives world p w bs a w') (hp : p.OnlyReads)
    (hg : ∀ n, C.Guard τ (.readExact n)) (hi : i = bs ++ rest) :
    p.Conforms C (fun a' τ' i' => a' = a ∧ τ' = τ ∧ i' = rest) X τ i :=
  conforms_of_run hp hg rfl (hr false ⟨i, [], true, w⟩ rest hi rfl)

end StreamM

end NandroidFS
