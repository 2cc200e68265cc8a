import NandroidFS.Protocol.Requests
import NandroidFS.Shared.Grammar

/-!
# Requests on the wire

There are no lengths and no ids on the wire: where a request ends is known from its own bytes.  A
request that overwrites has 255 spellings, and every other one has one.

* `Request.readRest`: what the handler of a type reads before it answers, without the calls.
* `Request.Spells.unique`: no spelling begins another.
* `Request.spellsAll_unique`: a stream of requests can be read in one way.
-/

namespace NandroidFS

/-- The data of a write, as it has been read. -/
def Payload.ofList (data : List UInt8) : Payload :=
  ⟨data.take (2 ^ 32 - 1), by
    rw [List.length_take]
    omega⟩

theorem Payload.ofList_of_lt {data : List UInt8} (hdata : data.length < 2 ^ 32) :
    Payload.ofList data = ⟨data, hdata⟩ :=
  Subtype.ext (List.take_of_length_le (by omega))

namespace Request

/-- The bytes are a spelling of what follows the type byte. -/
def SpellsArgs (q : Request) (bs : List UInt8) : Prop :=
  match q with
  | .moveEntry args => MessageType.moveEntryArgs.Spells args bs
  | q => bs = q.argBytes

/-- The bytes are a spelling of the request. -/
def Spells (q : Request) (wire : List UInt8) : Prop :=
  ∃ bs, q.SpellsArgs bs ∧ wire = q.type.toByte :: bs

theorem spellsArgs_argBytes (q : Request) : q.SpellsArgs q.argBytes := by
  cases q with
  | moveEntry args => exact MessageType.moveEntryArgs.spells_bytes args
  | _ => rfl

theorem spells_bytes (q : Request) : q.Spells q.bytes :=
  ⟨q.argBytes, q.spellsArgs_argBytes, rfl⟩

variable {E : Type} {R : E → Type} (h : Host)

/-- What the handlers read after the type byte. -/
def readRest : RequestType → StreamM E R Exn Request
  | .statFile => do return .statFile (← readUtf8String h)
  | .listDirectory => do return .listDirectory (← readUtf8String h)
  | .createDirectory => do return .createDirectory (← readUtf8String h)
  | .checkRemoveFile => do return .checkRemoveFile (← readUtf8String h)
  | .checkRemoveDirectory => do return .checkRemoveDirectory (← readUtf8String h)
  | .removeFile => do return .removeFile (← readUtf8String h)
  | .removeDirectory => do return .removeDirectory (← readUtf8String h)
  | .moveEntry => do return .moveEntry (← MoveEntryArgs.read h)
  | .openHandle => do return .openHandle (← OpenHandleArgs.read h)
  | .closeHandle => do return .closeHandle (← readU32 h)
  | .readHandle => do return .readHandle (← ReadHandleArgs.read h)
  | .writeHandle => do
      let args ← WriteHandleInitArgs.read h
      let data ← StreamM.readExact Exn.eof (intLength args.dataLen)
      return .writeHandle args.handle args.offset (.ofList data)
  | .truncateHandle => do return .truncateHandle (← TruncateHandleArgs.read h)
  | .setFileTime => do return .setFileTime (← SetFileTimeArgs.read h)
  | .getDiskStats => return .getDiskStats

/-- A spelling is read as the request that it spells. -/
theorem reads_readRest {q : Request} (hq : q.Fits) (hs : q.Sized) {bs : List UInt8}
    (hbs : q.SpellsArgs bs) : (readRest h q.type : StreamM E R Exn Request).Reads bs q := by
  have path {s : ByteString} (hq : ∀ t ∈ [s], NandroidFS.Fits t) :
      (readUtf8String h : StreamM E R Exn ByteString).Reads (stringBytes s) s :=
    reads_string h (hq s (List.mem_singleton_self s))
  cases q with
  | statFile s => exact hbs ▸ (path hq).bind_ret rfl
  | listDirectory s => exact hbs ▸ (path hq).bind_ret rfl
  | createDirectory s => exact hbs ▸ (path hq).bind_ret rfl
  | checkRemoveFile s => exact hbs ▸ (path hq).bind_ret rfl
  | checkRemoveDirectory s => exact hbs ▸ (path hq).bind_ret rfl
  | removeFile s => exact hbs ▸ (path hq).bind_ret rfl
  | removeDirectory s => exact hbs ▸ (path hq).bind_ret rfl
  | moveEntry args => exact ((MessageType.moveEntryArgs.parses h).reads ⟨hq, hbs⟩).bind_ret rfl
  | openHandle args =>
    exact hbs ▸ (OpenHandleArgs.reads h (hq _ (List.mem_singleton_self _))).bind_ret rfl
  | closeHandle handle => exact hbs ▸ (reads_u32 h handle).bind_ret rfl
  | readHandle args => exact hbs ▸ (ReadHandleArgs.reads h args).bind_ret rfl
  | writeHandle handle offset data =>
    have hlen : intLength (writeArgs handle offset data).dataLen = data.1.length := by
      rw [writeArgs, intLength_of_lt (by rw [Payload.toNat_dataLen]; exact hs),
        Payload.toNat_dataLen]
    have htake : data.1.take (intLength data.dataLen) = data.1 :=
      List.take_of_length_le hlen.ge
    obtain rfl : bs = (writeArgs handle offset data).bytes ++ data.1 := by
      rw [← htake]
      exact hbs
    refine (WriteHandleInitArgs.reads h _).bind
      ((StreamM.reads_readExact Exn.eof data.1 hlen).bind_ret ?_)
    rw [Payload.ofList_of_lt data.2]
    rfl
  | truncateHandle args => exact hbs ▸ (TruncateHandleArgs.reads h args).bind_ret rfl
  | setFileTime args =>
    exact hbs ▸ (SetFileTimeArgs.reads h (hq _ (List.mem_singleton_self _))).bind_ret rfl
  | getDiskStats => exact hbs ▸ StreamM.Reads.ret _

theorem type_toByte_injective : Function.Injective RequestType.toByte := by
  intro t t' heq
  have h := congrArg RequestType.ofByte? heq
  rwa [RequestType.ofByte?_toByte, RequestType.ofByte?_toByte, Option.some.injEq] at h

/-- **No spelling of a request begins a spelling of another**, or another of the same. -/
theorem Spells.unique {q q' : Request} (hq : q.Fits ∧ q.Sized) (hq' : q'.Fits ∧ q'.Sized)
    {wire wire' rest rest' : List UInt8} (hwire : q.Spells wire) (hwire' : q'.Spells wire')
    (heq : wire ++ rest = wire' ++ rest') : q = q' ∧ wire = wire' ∧ rest = rest' := by
  obtain ⟨bs, hbs, rfl⟩ := hwire
  obtain ⟨bs', hbs', rfl⟩ := hwire'
  rw [List.cons_append, List.cons_append, List.cons.injEq] at heq
  obtain ⟨htype, heq⟩ := heq
  have htype : q.type = q'.type := type_toByte_injective htype
  have hread := reads_readRest (E := Empty) (R := fun _ => Unit) .windows hq.1 hq.2 hbs
  have hread' := reads_readRest (E := Empty) (R := fun _ => Unit) .windows hq'.1 hq'.2 hbs'
  rw [← htype] at hread'
  obtain ⟨rfl, rfl, rfl⟩ := hread.unique hread' heq (fun e _ => e.elim) ()
  exact ⟨rfl, rfl, rfl⟩

/-- The spellings, one after the other, of requests that fit the wire. -/
def SpellsAll (qs : List Request) (wires : List (List UInt8)) : Prop :=
  List.Forall₂ (fun q wire => (q.Fits ∧ q.Sized) ∧ q.Spells wire) qs wires

/-- **A stream of requests can be read in one way**: of two readings, one begins the other, and what
is left is what follows. -/
theorem spellsAll_unique {qs qs' : List Request} {wires wires' : List (List UInt8)}
    {rest rest' : List UInt8} (h : SpellsAll qs wires) (h' : SpellsAll qs' wires')
    (heq : wires.flatten ++ rest = wires'.flatten ++ rest') :
    (∃ more wiresMore, qs' = qs ++ more ∧ wires' = wires ++ wiresMore ∧
      rest = wiresMore.flatten ++ rest') ∨
    ∃ more wiresMore, qs = qs' ++ more ∧ wires = wires' ++ wiresMore ∧
      rest' = wiresMore.flatten ++ rest := by
  induction h generalizing qs' wires' with
  | nil => exact .inl ⟨qs', wires', rfl, rfl, heq⟩
  | cons hq hqs ih =>
    cases h' with
    | nil => exact .inr ⟨_, _, rfl, rfl, heq.symm⟩
    | cons hq' hqs' =>
      rw [List.flatten_cons, List.flatten_cons, List.append_assoc, List.append_assoc] at heq
      obtain ⟨rfl, rfl, hrest⟩ := hq.2.unique hq.1 hq'.1 hq'.2 heq
      rcases ih hqs' hrest with ⟨more, wiresMore, rfl, rfl, hleft⟩ |
        ⟨more, wiresMore, rfl, rfl, hleft⟩
      · exact .inl ⟨more, wiresMore, rfl, rfl, hleft⟩
      · exact .inr ⟨more, wiresMore, rfl, rfl, hleft⟩

/-- A handle to be closed, alone and before another request. -/
theorem spellsAll_unique_closeHandle :
    ∃ more wiresMore, [Request.closeHandle 3, .getDiskStats] = [.closeHandle 3] ++ more ∧
      ([[9, 0, 0, 0, 3], [14]] : List (List UInt8)) = [[9, 0, 0, 0, 3]] ++ wiresMore ∧
      [14] = wiresMore.flatten ++ [] := by
  have hclose : ((Request.closeHandle 3).Fits ∧ (Request.closeHandle 3).Sized) ∧
      (Request.closeHandle 3).Spells [9, 0, 0, 0, 3] := ⟨⟨by decide, trivial⟩, _, rfl, by decide⟩
  have hstats : (Request.getDiskStats.Fits ∧ Request.getDiskStats.Sized) ∧
      Request.getDiskStats.Spells [14] := ⟨⟨by decide, trivial⟩, _, rfl, by decide⟩
  have hread := spellsAll_unique (.cons hclose .nil) (.cons hclose (.cons hstats .nil))
    (show [[9, 0, 0, 0, 3]].flatten ++ [14] = [[9, 0, 0, 0, 3], [14]].flatten ++ [] from rfl)
  refine hread.resolve_right ?_
  rintro ⟨more, wiresMore, hqs, -⟩
  exact absurd (congrArg List.length hqs) (by simp)

end Request

end NandroidFS
