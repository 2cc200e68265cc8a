import NandroidFS.Streams.ByteStream

/-!
# What a reader accepts

A reader asks for exact numbers of bytes, each of which may depend on what it has read so far.  The
strings that it reads off the front of a stream are then a language in which no word begins another,
and a stream that does not begin with a word is the beginning of one: there is no input that such a
reader rejects, but for the end of the stream.

* `Parses eof p L`: the language of `p` is `L`.
* `Parses.bind`, `Parses.map`: the language of a sequence.
* `Reads.unique`: no input can be read in two ways.
-/

namespace NandroidFS

namespace StreamM

variable {E : Type} {R : E → Type} {ε α β W : Type}

/-- No two words that a program reads begin the same stream. -/
theorem Reads.unique {p : StreamM E R ε α} {bs bs' rest rest' : List UInt8} {a a' : α}
    (hp : p.Reads bs a) (hp' : p.Reads bs' a') (heq : bs ++ rest = bs' ++ rest')
    (world : (e : E) → W → R e × W) (w : W) : bs = bs' ∧ a = a' ∧ rest = rest' := by
  have hrun := hp W world true ⟨bs ++ rest, [], true, w⟩ rest rfl
  have hrun' := hp' W world true ⟨bs ++ rest, [], true, w⟩ rest' heq
  rw [hrun, Prod.mk.injEq, Outcome.done.injEq, View.mk.injEq] at hrun'
  obtain ⟨ha, hrest, -⟩ := hrun'
  subst hrest
  exact ⟨List.append_cancel_right heq, ha, rfl⟩

/-- The program reads the words of `L`, each with its value, and meets the end of the stream on
what is cut off before a word is complete. -/
structure Parses (eof : ε) (p : StreamM E R ε α) (L : List UInt8 → α → Prop) : Prop where
  reads : ∀ {bs a}, L bs a → p.Reads bs a
  begins : ∀ i, (∃ bs a rest, L bs a ∧ i = bs ++ rest) ∨
    (∃ more a, more ≠ [] ∧ L (i ++ more) a) ∧
      ∀ (W : Type) (world : (e : E) → W → R e × W) (v : View W), v.inflow = i →
        run world true p v = (.failed eof, { v with inflow := [] })

variable {eof : ε}

namespace Parses

theorem congr {p : StreamM E R ε α} {L M : List UInt8 → α → Prop} (hp : p.Parses eof L)
    (hLM : ∀ bs a, L bs a ↔ M bs a) : p.Parses eof M := by
  have hL : L = M := funext fun bs => funext fun a => propext (hLM bs a)
  exact hL ▸ hp

theorem ret (a : α) :
    Parses eof (.ret a : StreamM E R ε α) fun bs b => bs = [] ∧ b = a where
  reads := by
    rintro bs b ⟨rfl, rfl⟩
    exact Reads.ret b
  begins i := .inl ⟨[], a, i, ⟨rfl, rfl⟩, rfl⟩

/-- **A sequence** reads a word of the first and then one of the second. -/
theorem bind {p : StreamM E R ε α} {f : α → StreamM E R ε β} {L : List UInt8 → α → Prop}
    {M : α → List UInt8 → β → Prop} (hp : p.Parses eof L) (hf : ∀ a, (f a).Parses eof (M a)) :
    (p >>= f).Parses eof fun bs b => ∃ bs₁ bs₂ a, bs = bs₁ ++ bs₂ ∧ L bs₁ a ∧ M a bs₂ b where
  reads := by
    rintro bs b ⟨bs₁, bs₂, a, rfl, h₁, h₂⟩
    exact (hp.reads h₁).bind ((hf a).reads h₂)
  begins i := by
    rcases hp.begins i with ⟨bs₁, a, rest, h₁, rfl⟩ | ⟨⟨more, a, hmore, h₁⟩, hrun⟩
    · rcases (hf a).begins rest with ⟨bs₂, b, rest', h₂, rfl⟩ | ⟨⟨more, b, hmore, h₂⟩, hrun⟩
      · refine .inl ⟨bs₁ ++ bs₂, b, rest', ⟨bs₁, bs₂, a, rfl, h₁, h₂⟩, ?_⟩
        rw [List.append_assoc]
      · refine .inr ⟨⟨more, b, hmore, bs₁, rest ++ more, a, ?_, h₁, h₂⟩, fun W world v hv => ?_⟩
        · rw [List.append_assoc]
        · rw [run_bind_done _ _ (hp.reads h₁ _ world true v _ hv)]
          exact hrun W world _ rfl
    · -- the first word is cut off; the second is completed from nothing
      have hcut : ∀ W (world : (e : E) → W → R e × W) (v : View W), v.inflow = i →
          run world true (p >>= f) v = (.failed eof, { v with inflow := [] }) :=
        fun W world v hv => run_bind_failed _ _ (hrun W world v hv)
      rcases (hf a).begins [] with ⟨bs₂, b, rest', h₂, hnil⟩ | ⟨⟨more', b, -, h₂⟩, -⟩
      · obtain ⟨rfl, -⟩ := List.nil_eq_append_iff.mp hnil
        refine .inr ⟨⟨more, b, hmore, i ++ more, [], a, ?_, h₁, h₂⟩, hcut⟩
        rw [List.append_nil]
      · refine .inr ⟨⟨more ++ more', b, by simp [hmore], i ++ more, more', a, ?_, h₁, h₂⟩, hcut⟩
        rw [List.append_assoc]

/-- A reader whose last step only computes. -/
theorem map {p : StreamM E R ε α} {f : α → StreamM E R ε β} {g : α → β}
    {L : List UInt8 → α → Prop} (hp : p.Parses eof L) (hf : ∀ a, f a = .ret (g a)) :
    (p >>= f).Parses eof fun bs b => ∃ a, L bs a ∧ b = g a := by
  have hret : ∀ a, (f a).Parses eof fun bs b => bs = [] ∧ b = g a := by
    intro a
    rw [hf a]
    exact .ret (g a)
  refine (hp.bind hret).congr fun bs b => ?_
  constructor
  · rintro ⟨bs₁, bs₂, a, rfl, h₁, rfl, rfl⟩
    exact ⟨a, by rwa [List.append_nil], rfl⟩
  · rintro ⟨a, h, rfl⟩
    exact ⟨bs, [], a, (List.append_nil bs).symm, h, rfl, rfl⟩

/-- No word begins another. -/
theorem unique {p : StreamM E R ε α} {L : List UInt8 → α → Prop} (hp : p.Parses eof L)
    {bs bs' rest rest' : List UInt8} {a a' : α} (h : L bs a) (h' : L bs' a')
    (heq : bs ++ rest = bs' ++ rest') (world : (e : E) → W → R e × W) (w : W) :
    bs = bs' ∧ a = a' ∧ rest = rest' :=
  (hp.reads h).unique (hp.reads h') heq world w

/-- What is cut off is no word, and has none at its beginning. -/
theorem failed {p : StreamM E R ε α} {L : List UInt8 → α → Prop} (hp : p.Parses eof L)
    {i more : List UInt8} {a : α} (hmore : more ≠ []) (h : L (i ++ more) a)
    (world : (e : E) → W → R e × W) {v : View W} (hv : v.inflow = i) :
    run world true p v = (.failed eof, { v with inflow := [] }) := by
  rcases hp.begins i with ⟨bs, b, rest, hbs, rfl⟩ | ⟨-, hrun⟩
  · have heq : bs ++ (rest ++ more) = bs ++ rest ++ more ++ [] := by simp
    obtain ⟨hword, -, hnil⟩ := hp.unique hbs h heq world v.world
    exact absurd (List.append_eq_nil_iff.mp hnil).2 hmore
  · exact hrun W world v hv

end Parses

theorem parses_readExact (eof : ε) (n : ℕ) :
    (readExact eof n : StreamM E R ε (List UInt8)).Parses eof
      fun bs a => bs.length = n ∧ a = bs where
  reads := by
    rintro bs a ⟨hlen, rfl⟩
    exact reads_readExact eof a hlen.symm
  begins i := by
    rcases Nat.lt_or_ge i.length n with hlt | hle
    · refine .inr ⟨⟨List.replicate (n - i.length) 0, _, ?_, ?_, rfl⟩, fun W world v hv => ?_⟩
      · rw [Ne, List.replicate_eq_nil_iff]
        omega
      · rw [List.length_append, List.length_replicate]
        omega
      · rw [readExact, run_readExact_act, hv, if_neg (Nat.not_le.mpr hlt)]
        rfl
    · refine .inl ⟨i.take n, _, i.drop n, ⟨?_, rfl⟩, (List.take_append_drop n i).symm⟩
      rw [List.length_take, Nat.min_eq_left hle]

end StreamM

end NandroidFS
