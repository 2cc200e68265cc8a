import NandroidFS.Files.Refinement

/-!
# A file that is copied

Whoever copies a file to the device has bytes `D` and lets a system of caches and threads write
them: in pieces of any size, in any order, several times, through several handles, with the length
set before, between or after them, and with requests on other files in between.  Some of the pieces
fail, and leave an initial part of themselves.

`Copies` says of a request only what every copy keeps to: what is written at a position is what `D`
has there, and the length that is set is that of `D`.  From it follows what is on the device:

* `Run.agrees`: on the reference, a position that was right or has been written with success is
  right from then on.  The gaps that are filled with zeros do not matter, since a position in a gap
  is one that nobody has written.
* `copied`: the same of a session, from the replies that the client has seen.  When they account
  for every position, the file is `D`, and before that every read of positions they account for
  returns what `D` has there.
-/

namespace NandroidFS

open ByteFile

/-- What stands in the second list has its counterpart in the first. -/
theorem exists_mem_of_forall₂ {α β : Type*} {R : α → β → Prop} {l : List α} {l' : List β}
    (h : List.Forall₂ R l l') {b : β} (hb : b ∈ l') : ∃ a ∈ l, R a b := by
  induction h with
  | nil => cases hb
  | cons hR _ ih =>
    rcases List.mem_cons.mp hb with rfl | hb
    · exact ⟨_, List.mem_cons_self, hR⟩
    · obtain ⟨a, ha, hab⟩ := ih hb
      exact ⟨a, List.mem_cons_of_mem _ ha, hab⟩

namespace FileOp

/-- A request as those are that copy `D`. -/
def Copies (D : List UInt8) : FileOp → Prop
  | .write offset data => data.1 <+: D.drop offset.toNat
  | .read _ _ => True
  | .setLen length => length.toNat = D.length

/-- The reply says that the request has written the position. -/
def Wrote : FileOp → Reply → ℕ → Prop
  | .write offset data, .status .success, pos =>
      offset.toNat ≤ pos ∧ pos < offset.toNat + data.1.length
  | _, _, _ => False

/-- The reply says that the request has set the length. -/
def Cut : FileOp → Reply → Prop
  | .setLen _, .status .success => True
  | _, _ => False

variable {D f f' : List UInt8} {op : FileOp} {reply : Reply}

/-- **What one request leaves of the positions that are right.** -/
theorem Effect.getElem?_eq (h : op.Effect f reply f') (hop : op.Copies D) {pos : ℕ}
    (hpos : pos < D.length) (hright : f[pos]? = D[pos]? ∨ op.Wrote reply pos) :
    f'[pos]? = D[pos]? := by
  cases h with
  | written offset data => exact getElem?_writeAt_of_prefix hop hpos hright
  | notWritten offset data _ status hs taken =>
    -- the part that was written is the beginning of what was to be written
    refine getElem?_writeAt_of_prefix ((List.take_prefix taken data.1).trans hop) hpos (.inl ?_)
    refine hright.resolve_right fun hwrote => ?_
    cases status with
    | success => exact hs rfl
    | _ => exact hwrote
  | read => exact hright.resolve_right id
  | notRead => exact hright.resolve_right id
  | resized length =>
    have hsame : f[pos]? = D[pos]? := hright.resolve_right id
    have hf : pos < f.length := by
      by_contra hend
      rw [List.getElem?_eq_none (not_lt.mp hend), List.getElem?_eq_getElem hpos] at hsame
      cases hsame
    have hlength : length.toNat = D.length := hop
    rw [getElem?_setLen f (hlength ▸ hpos) hf]
    exact hsame
  | notResized => exact hright.resolve_right id

/-- **The file gets no longer than `D`** once it is not. -/
theorem Effect.length_le (h : op.Effect f reply f') (hop : op.Copies D)
    (hlen : f.length ≤ D.length ∨ op.Cut reply) : f'.length ≤ D.length := by
  cases h with
  | written => exact length_writeAt_le_of_prefix hop (hlen.resolve_right id)
  | notWritten offset data _ status hs taken =>
    have hpart := (List.take_prefix taken data.1).trans hop
    exact length_writeAt_le_of_prefix hpart (hlen.resolve_right id)
  | read => exact hlen.resolve_right id
  | notRead => exact hlen.resolve_right id
  | resized length =>
    rw [length_setLen]
    exact le_of_eq hop
  | notResized length _ status hs =>
    refine hlen.resolve_right fun hcut => ?_
    cases status with
    | success => exact hs rfl
    | _ => exact hcut

/-- **What one request brings about and all keep.**  If every request of the kind `Keeps` keeps
`G`, or brings it about where it is `Done`, then in a run of such requests on a file it is
enough that `G` was so at first or some request was `Done`. -/
theorem Run.stays {Keeps : FileOp → Prop} {G : List UInt8 → Prop}
    {Done : FileOp → Reply → Prop}
    (hstep : ∀ {op : FileOp} {f f' : List UInt8} {reply : Reply}, op.Effect f reply f' → Keeps op →
      G f ∨ Done op reply → G f')
    {inode : FileHandle → Option ℕ} {files files' : ℕ → List UInt8}
    {ops : List (FileHandle × FileOp × Reply)} {i : ℕ} (hrun : Run inode files ops files')
    (hkeeps : ∀ x ∈ ops, inode x.1 = some i → Keeps x.2.1)
    (h : G (files i) ∨ ∃ x ∈ ops, inode x.1 = some i ∧ Done x.2.1 x.2.2) : G (files' i) := by
  induction hrun with
  | nil =>
    refine h.resolve_right ?_
    rintro ⟨x, hx, -⟩
    cases hx
  | @snoc ops files' handle j op reply bytes hops hj hop ih =>
    have hkeeps' : ∀ x ∈ ops, inode x.1 = some i → Keeps x.2.1 :=
      fun x hx => hkeeps x (List.mem_append_left _ hx)
    have hlast : (handle, op, reply) ∈ ops ++ [(handle, op, reply)] :=
      List.mem_append_right _ (List.mem_singleton_self _)
    by_cases hij : i = j
    · subst hij
      rw [Function.update_self]
      refine hstep hop (hkeeps _ hlast hj) ?_
      rcases h with hfirst | ⟨x, hx, hxi, hdone⟩
      · exact .inl (ih hkeeps' (.inl hfirst))
      · rcases List.mem_append.mp hx with hx | hx
        · exact .inl (ih hkeeps' (.inr ⟨x, hx, hxi, hdone⟩))
        · obtain rfl := List.mem_singleton.mp hx
          exact .inr hdone
    · -- the last request is on another file
      rw [Function.update_of_ne hij]
      refine ih hkeeps' (h.imp_right ?_)
      rintro ⟨x, hx, hxi, hdone⟩
      refine ⟨x, (List.mem_append.mp hx).resolve_right fun hx => ?_, hxi, hdone⟩
      obtain rfl := List.mem_singleton.mp hx
      exact hij (Option.some_inj.mp (hxi.symm.trans hj))

theorem call_injective {handle handle' : FileHandle} {op op' : FileOp}
    (h : op.call handle = op'.call handle') : handle = handle' ∧ op = op' := by
  cases op <;> cases op' <;> cases h <;> exact ⟨rfl, rfl⟩

end FileOp

/-! ## Sessions -/

namespace Session

variable {K W : Type} {P : Setup K W} (px : PosixFiles P.call)

/-- A request in range on a handle that is open; on the file `i` it copies `D`. -/
def Copying (P : Setup K W) (px : PosixFiles P.call) (i : ℕ) (D : List UInt8)
    (history : List (Completed W)) (c : Call) (_w : W) (_rounds : ℕ) : Prop :=
  ∃ (handle : FileHandle) (op : FileOp), c = op.call handle ∧ op.InRange ∧
    (px.opened (kernelAfter P history) handle.toInt32).isSome ∧
    (inodeOf P px handle = some i → op.Copies D)

/-- The entry is of a request on the file `i` of which `Done` holds. -/
def DoneOn (P : Setup K W) (px : PosixFiles P.call) (i : ℕ) (Done : FileOp → Reply → Prop)
    (e : Completed W) : Prop :=
  ∃ x, Records e x ∧ inodeOf P px x.1 = some i ∧ Done x.2.1 x.2.2

/-- The position was right at first, or the client has been told that it has been written. -/
def Accounted (P : Setup K W) (px : PosixFiles P.call) (i : ℕ) (D : List UInt8)
    (history : List (Completed W)) (pos : ℕ) : Prop :=
  (px.contents P.kernel₀ i)[pos]? = D[pos]? ∨
    ∃ e ∈ history, DoneOn P px i (fun op reply => op.Wrote reply pos) e

/-- The file was no longer than `D` at first, or the client has been told that its length has been
set. -/
def Trimmed (P : Setup K W) (px : PosixFiles P.call) (i : ℕ) (D : List UInt8)
    (history : List (Completed W)) : Prop :=
  (px.contents P.kernel₀ i).length ≤ D.length ∨
    ∃ e ∈ history, DoneOn P px i FileOp.Cut e

variable {px} {i : ℕ} {D : List UInt8} {history : List (Completed W)}

theorem Copying.onOpenFile {c : Call} {w : W} {rounds : ℕ}
    (h : Copying P px i D history c w rounds) : OnOpenFile P px history c w rounds := by
  obtain ⟨handle, op, hc, hop, hopen, -⟩ := h
  exact ⟨handle, op, hc, hop, hopen⟩

theorem Copying.admissible {c : Call} {w : W} {rounds : ℕ}
    (h : Copying P px i D history c w rounds) : Admissible P history c w rounds :=
  h.onOpenFile.admissible px

/-- What has been copied so far: every entry was of such a request, and its reply was that of the
daemon. -/
structure CopiedSoFar (P : Setup K W) (px : PosixFiles P.call) (i : ℕ) (D : List UInt8)
    (history : List (Completed W)) : Prop where
  made : ∀ before e after, history = before ++ e :: after →
    ∃ rounds, Copying P px i D before e.call e.start rounds
  faithful : Faithful P history

theorem CopiedSoFar.of_append {later : List (Completed W)}
    (h : CopiedSoFar P px i D (history ++ later)) : CopiedSoFar P px i D history where
  made := by
    intro before e after heq
    refine h.made before e (after ++ later) ?_
    rw [heq, List.append_assoc, List.cons_append]
  faithful := by
    intro before e after heq
    refine h.faithful before e (after ++ later) ?_
    rw [heq, List.append_assoc, List.cons_append]

theorem CopiedSoFar.of_reachable {s₀ s : Session K W} (h₀ : Fresh P s₀)
    (hrun : Relation.ReflTransGen (Step P (Copying P px i D)) s₀ s) :
    CopiedSoFar P px i D s.history where
  made := (Made.of_reachable h₀ hrun).completed
  faithful := (Inv.of_reachable (fun _ _ _ _ h => h.admissible) h₀ hrun).faithful

/-- The requests are a run of the reference, and those on the file `i` copy `D`. -/
theorem CopiedSoFar.exists_run (h : CopiedSoFar P px i D history) :
    ∃ ops, List.Forall₂ Records history ops ∧
      FileOp.Run (inodeOf P px) (px.contents P.kernel₀) ops
        (px.contents (kernelAfter P history)) ∧
      (∀ fd, (px.opened (kernelAfter P history) fd).map OpenFile.inode =
        (px.opened P.kernel₀ fd).map OpenFile.inode) ∧
      ∀ x ∈ ops, inodeOf P px x.1 = some i → x.2.1.Copies D := by
  have hmade : ∀ before e after, history = before ++ e :: after →
      ∃ rounds, OnOpenFile P px before e.call e.start rounds := by
    intro before e after heq
    obtain ⟨rounds, hmade⟩ := h.made before e after heq
    exact ⟨rounds, hmade.onOpenFile⟩
  obtain ⟨ops, hrec, hrun, hinode⟩ := Session.exists_run px hmade h.faithful
  refine ⟨ops, hrec, hrun, hinode, fun x hx hxi => ?_⟩
  obtain ⟨e, he, hrecords⟩ := exists_mem_of_forall₂ hrec hx
  obtain ⟨before, after, heq⟩ := List.append_of_mem he
  obtain ⟨rounds, handle, op, hcall, -, -, hcopies⟩ := h.made before e after heq
  obtain ⟨rfl, rfl⟩ := FileOp.call_injective (hcall.symm.trans hrecords.1)
  exact hcopies hxi

/-- The rule of `FileOp.Run.stays` for a session. -/
theorem CopiedSoFar.stays (h : CopiedSoFar P px i D history) {G : List UInt8 → Prop}
    {Done : FileOp → Reply → Prop}
    (hstep : ∀ {op : FileOp} {f f' : List UInt8} {reply : Reply}, op.Effect f reply f' →
      op.Copies D → G f ∨ Done op reply → G f')
    (hgood : G (px.contents P.kernel₀ i) ∨ ∃ e ∈ history, DoneOn P px i Done e) :
    G (px.contents (kernelAfter P history) i) := by
  obtain ⟨ops, hrec, hrun, -, hcopies⟩ := h.exists_run
  refine FileOp.Run.stays hstep hrun hcopies (hgood.imp_right ?_)
  rintro ⟨e, he, x, hx, hxi, hdone⟩
  obtain ⟨y, hy, hey⟩ := exists_mem_of_forall₂ hrec.flip he
  -- the entry is of one request only
  obtain ⟨handle, op, reply⟩ := x
  obtain ⟨handle', op', reply'⟩ := y
  obtain ⟨rfl, rfl⟩ := FileOp.call_injective (hx.1.symm.trans hey.1)
  obtain rfl : reply = reply' := Except.ok.inj (hx.2.symm.trans hey.2)
  exact ⟨_, hy, hxi, hdone⟩

theorem CopiedSoFar.getElem?_eq (h : CopiedSoFar P px i D history) {pos : ℕ}
    (hpos : pos < D.length) (hacc : Accounted P px i D history pos) :
    (px.contents (kernelAfter P history) i)[pos]? = D[pos]? :=
  h.stays (G := fun f => f[pos]? = D[pos]?) (fun heffect hop => heffect.getElem?_eq hop hpos)
    hacc

theorem CopiedSoFar.length_le (h : CopiedSoFar P px i D history)
    (htrim : Trimmed P px i D history) :
    (px.contents (kernelAfter P history) i).length ≤ D.length :=
  h.stays (G := fun f => f.length ≤ D.length) (fun heffect hop => heffect.length_le hop) htrim

/-- **The file is `D`** when every position is accounted for. -/
theorem CopiedSoFar.contents_eq (h : CopiedSoFar P px i D history)
    (htrim : Trimmed P px i D history)
    (hacc : ∀ pos < D.length, Accounted P px i D history pos) :
    px.contents (kernelAfter P history) i = D := by
  refine List.ext_getElem? fun pos => ?_
  by_cases hpos : pos < D.length
  · exact h.getElem?_eq hpos (hacc pos hpos)
  · have hend := not_lt.mp hpos
    rw [List.getElem?_eq_none hend, List.getElem?_eq_none (le_trans (h.length_le htrim) hend)]

/-- **A read between the writes** returns what `D` has there, if the positions it reads are
accounted for. -/
theorem CopiedSoFar.read_eq {before after : List (Completed W)} {e : Completed W}
    (h : CopiedSoFar P px i D (before ++ e :: after)) {handle : FileHandle} {offset : UInt64}
    {length : UInt32} {bs : List UInt8} (hcall : e.call = .readFromFile handle offset length)
    (hresult : e.result = .ok (.data bs)) (hi : inodeOf P px handle = some i)
    (htrim : Trimmed P px i D before)
    (hacc : ∀ pos, offset.toNat ≤ pos → pos < offset.toNat + length.toNat → pos < D.length →
      Accounted P px i D before pos) :
    bs = readAt D offset.toNat length.toNat := by
  have hbefore : CopiedSoFar P px i D before := h.of_append
  obtain ⟨-, -, -, hinode, -⟩ := hbefore.exists_run
  obtain ⟨rounds, hmade⟩ := h.made before e after rfl
  obtain ⟨handle', op, hcall', hop, hopen, -⟩ := hmade
  obtain ⟨rfl, rfl⟩ : handle = handle' ∧ FileOp.read offset length = op :=
    FileOp.call_injective (hcall.symm.trans hcall')
  obtain ⟨f, hf⟩ := Option.isSome_iff_exists.mp hopen
  have hfi : f.inode = i := by
    have hnow := hinode handle.toInt32
    rw [hf] at hnow
    exact Option.some_inj.mp (hnow.trans hi)
  have hquiet : ¬e.call.Quiet P.world e.start := by
    rw [hcall']
    exact not_quiet_fileOp handle _ e.start
  have hreply := hresult.symm.trans (h.faithful before e after rfl hquiet)
  obtain ⟨bytes, position, heffect, -⟩ := serve_effect px hf hop
  rw [hcall'] at hreply
  rw [← Except.ok.inj hreply, hfi] at heffect
  cases heffect with
  | read =>
    refine readAt_eq_of_getElem?_eq (hbefore.length_le htrim) fun pos hle hlt hpos => ?_
    exact hbefore.getElem?_eq hpos (hacc pos hle hlt hpos)

/-- **A file that is copied arrives.**  In every session of requests on open files, by any threads
in any order, in which those on the file `i` copy `D`:

* when the replies account for every position, the file is `D`, and what was written elsewhere or
  failed in between does not matter;
* at any time, every position that they account for is right;
* every read that was answered in between returned what `D` has, if the positions it read were
  accounted for before;
* between two requests the daemon is ready with just these files, and every request comes to its
  end. -/
theorem copied {s₀ s : Session K W} (h₀ : Fresh P s₀)
    (hrun : Relation.ReflTransGen (Step P (Copying P px i D)) s₀ s) :
    (Trimmed P px i D s.history → (∀ pos < D.length, Accounted P px i D s.history pos) →
      px.contents (kernelAfter P s.history) i = D) ∧
    (∀ pos < D.length, Accounted P px i D s.history pos →
      (px.contents (kernelAfter P s.history) i)[pos]? = D[pos]?) ∧
    (∀ before e after handle offset length bs, s.history = before ++ e :: after →
      e.call = .readFromFile handle offset length → e.result = .ok (.data bs) →
      inodeOf P px handle = some i → Trimmed P px i D before →
      (∀ pos, offset.toNat ≤ pos → pos < offset.toNat + length.toNat → pos < D.length →
        Accounted P px i D before pos) →
      bs = readAt D offset.toNat length.toNat) ∧
    (∀ endpoint, s.holder = .free endpoint →
      ∃ loops, Ready P loops s.daemon s.kernel (kernelAfter P s.history)) ∧
    Acc (fun y x => Work P x y) s ∧
    (∀ t c w p, s.holder = .held t c w p → ∃ s', Work P s s') := by
  have hcopied := CopiedSoFar.of_reachable h₀ hrun
  have hinv := Inv.of_reachable (fun _ _ _ _ h => h.admissible) h₀ hrun
  obtain ⟨loops, hstage⟩ := hinv.stage
  refine ⟨hcopied.contents_eq, fun pos hpos hacc => hcopied.getElem?_eq hpos hacc, ?_,
    fun endpoint hs => ?_, hstage.acc, fun t c w p hs => hstage.progress hs⟩
  · intro before e after handle offset length bs heq hcall hresult hi htrim hacc
    rw [heq] at hcopied
    exact hcopied.read_eq hcall hresult hi htrim hacc
  · obtain ⟨-, -, -, hready⟩ := hstage.free_inv hs
    exact hready

/-- Two bytes are appended to a file that has the first three of five. -/
theorem copied_rest : ∃ s : Session Disk Unit,
    s.history = [⟨0, .writeToFile 3 3 ⟨[8, 9], by decide⟩, (), .ok (.status .success)⟩] ∧
      Disk.posix.contents (kernelAfter Disk.setup s.history) 0 = [1, 2, 3, 8, 9] := by
  let op : FileOp := .write 3 ⟨[8, 9], by decide⟩
  have hc : Copying Disk.setup Disk.posix 0 [1, 2, 3, 8, 9] [] (op.call 3) () 0 :=
    ⟨3, op, rfl, ⟨by decide, by decide⟩, by decide, fun _ => List.prefix_refl _⟩
  have hstep : Step Disk.setup (Copying Disk.setup Disk.posix 0 [1, 2, 3, 8, 9])
      (start Disk.setup ()) _ :=
    .acquire rfl 0 (op.call 3) () 0 hc
  have hinv := Inv.of_reachable (fun _ _ _ _ h => h.admissible) (fresh_start Disk.setup ())
    (.single hstep)
  obtain ⟨s, result, -, hwork, -, hhistory⟩ := hinv.completes rfl
  have hrun : Relation.ReflTransGen
      (Step Disk.setup (Copying Disk.setup Disk.posix 0 [1, 2, 3, 8, 9]))
      (start Disk.setup ()) s :=
    (reachable_of_work hwork).head hstep
  have hhistory' : s.history = [⟨0, op.call 3, (), result⟩] := hhistory
  have hresult : result = .ok (.status .success) :=
    (CopiedSoFar.of_reachable (fresh_start Disk.setup ()) hrun).faithful [] _ [] hhistory' id
  rw [hresult] at hhistory'
  refine ⟨s, hhistory', (copied (fresh_start Disk.setup ()) hrun).1 (.inl (by decide)) ?_⟩
  intro pos hpos
  by_cases hold : pos < 3
  · refine .inl ?_
    show ([1, 2, 3] : List UInt8)[pos]? = ([1, 2, 3] ++ [8, 9] : List UInt8)[pos]?
    exact (List.getElem?_append_left hold).symm
  · refine .inr ⟨_, by rw [hhistory']; exact List.mem_singleton_self _, ?_⟩
    exact ⟨(3, op, .status .success), ⟨rfl, rfl⟩, rfl, not_lt.mp hold, hpos⟩

end Session

end NandroidFS
