import NandroidFS.Daemon.Serve
import NandroidFS.Protocol.Exchange
import NandroidFS.Streams.Lines

/-!
# Requests for `desktop.ini`

Windows asks for `desktop.ini` in every directory that it shows, so `req_stat_file` says that there
is no such file, and `req_open_file` fails, without a word to the daemon.  What is looked at is
whether the path ends with these letters.  That is also so for other names; and `req_stat_file` only
comes to it after it has found nothing in the cache, into which every listing puts all that it has
seen.

`answers_by_name_iff`: what is answered depends on the name alone exactly if the path does not end
with the letters, or if they are its whole last component and the cache knows nothing of it.
-/

namespace NandroidFS

open Connection

/-- What stands after the last separator. -/
def lastComponent (path : ByteString) : ByteString :=
  Lines.unfinished slash path

theorem endsWithDesktopIni_of_lastComponent {path : ByteString}
    (h : lastComponent path = desktopIni) : endsWithDesktopIni path = true := by
  have hjoin : Lines.join slash _ _ = path := Lines.join_ended path
  rw [lastComponent] at h
  rw [h] at hjoin
  rw [endsWithDesktopIni, List.isSuffixOf_iff_suffix, ← hjoin]
  exact List.suffix_append _ _

section

variable {K W : Type} (call : Kernel K) (world : (e : ConnAct) → W → e.Res × W)

/-- What the cache says before the mutex is taken. -/
def firstLook (path : ByteString) (w : W) : Option FileStat :=
  (world (.getStat path) w).1

/-- The world once the mutex is held.  Others may have used the cache in the meantime. -/
def afterLock (path : ByteString) (w : W) : W :=
  (world .lock (world (.getStat path) w).2).2

/-- What the cache says then. -/
def secondLook (path : ByteString) (w : W) : Option FileStat :=
  (world (.getStat path) (afterLock world path w)).1

/-- The path is in the cache, at one of the look-ups. -/
def InCache (path : ByteString) (w : W) : Prop :=
  firstLook world path w ≠ none ∨ secondLook world path w ≠ none

/-- Whatever the cache says is what the daemon would say. -/
structure UpToDate (path : ByteString) (k : K) (w : W) : Prop where
  first : ∀ stat, firstLook world path w = some stat →
    (serve call (.statFile path) k).1 = .stat stat
  second : ∀ stat, secondLook world path w = some stat →
    (serve call (.statFile path) k).1 = .stat stat

variable (h : Host) (rounds : ℕ)

/-- `req_stat_file` answers by the name: there is no `desktop.ini`, and for all else it is the
daemon that answers.  Its answer waits on the stream in case it is asked. -/
def StatsByName (fileName : WString) (k : K) (w : W) : Prop :=
  ∀ closed (v : View W) rest,
    v.inflow = (serve call (Call.statFile fileName).request k).1.bytes ++ rest → v.world = w →
    (StreamM.run world closed ((Call.statFile fileName).program h rounds) v).1 =
      .done (if lastComponent (win32PathToUnix fileName) = desktopIni then .status .fileNotFound
        else (serve call (Call.statFile fileName).request k).1.reply)

/-- `req_open_file` keeps from asking the daemon, that is from sending anything, only for
`desktop.ini`. -/
def OpensByName (fileName : WString) (k : K) (w : W) : Prop :=
  ∀ mode readAccess writeAccess closed (v : View W) rest,
    v.inflow =
      (serve call (Call.openFile fileName mode readAccess writeAccess).request k).1.bytes ++ rest →
    v.world = w →
    (StreamM.run world closed
        ((Call.openFile fileName mode readAccess writeAccess).program h rounds) v).2.outflow =
      v.outflow → lastComponent (win32PathToUnix fileName) = desktopIni

variable {call world} {fileName : WString} {k : K} {w : W}

/-- What `req_stat_file` answers once the mutex is held. -/
theorem run_locked_statFile (hfits : (Call.statFile fileName).request.Fits) (closed : Bool)
    {v : View W} {rest : List UInt8}
    (hin : v.inflow = (serve call (Call.statFile fileName).request k).1.bytes ++ rest) :
    (StreamM.run world closed ((Call.statFile fileName).locked h rounds) v).1 =
      .done (match firstLook world (win32PathToUnix fileName) v.world with
        | some stat => .stat stat
        | none =>
            if endsWithDesktopIni (win32PathToUnix fileName) then .status .fileNotFound
            else (serve call (Call.statFile fileName).request k).1.reply) := by
  by_cases hquiet : (Call.statFile fileName).Quiet world v.world
  · simp only [Call.locked, reqStatFile, conn, StreamM.run_call_bind, firstLook]
    rcases hget : (world (.getStat (win32PathToUnix fileName)) v.world).1 with - | stat
    · have hini : endsWithDesktopIni (win32PathToUnix fileName) = true := by
        refine hquiet.resolve_left ?_
        rw [hget]
        exact Bool.false_ne_true
      simp only [if_pos hini]
      rfl
    · rfl
  · obtain ⟨w', hex⟩ := Call.exchanges_locked h hquiet hfits trivial
      (serve_answers call (Call.statFile fileName).request k)
      (Response.legible_of_answers (by intro p hp; cases hp) (serve_answers call _ k) rounds)
    obtain ⟨hmiss, hini⟩ := not_or.mp hquiet
    have hnone : firstLook world (win32PathToUnix fileName) v.world = none :=
      Option.not_isSome_iff_eq_none.mp hmiss
    rw [hex closed v rest hin rfl, hnone]
    simp only [if_neg hini]

/-- `req_stat_file` is two look-ups, the test and the exchange. -/
theorem run_statFile (hfits : (Call.statFile fileName).request.Fits) (closed : Bool) {v : View W}
    {rest : List UInt8}
    (hin : v.inflow = (serve call (Call.statFile fileName).request k).1.bytes ++ rest) :
    (StreamM.run world closed ((Call.statFile fileName).program h rounds) v).1 =
      .done (match firstLook world (win32PathToUnix fileName) v.world with
        | some stat => .stat stat
        | none =>
            match secondLook world (win32PathToUnix fileName) v.world with
            | some stat => .stat stat
            | none =>
                if endsWithDesktopIni (win32PathToUnix fileName) then .status .fileNotFound
                else (serve call (Call.statFile fileName).request k).1.reply) := by
  have hunlocked : StreamM.run world closed (Call.statFile fileName).unlocked v =
      (.done ((firstLook world (win32PathToUnix fileName) v.world).map Reply.stat),
        { v with world := (world (.getStat (win32PathToUnix fileName)) v.world).2 }) := rfl
  rw [Call.program, StreamM.run_bind_done _ _ hunlocked]
  rcases hfirst : firstLook world (win32PathToUnix fileName) v.world with - | stat
  · exact run_locked_statFile h rounds hfits closed hin
  · rfl

/-- `req_open_file` sends nothing for a path that ends with the letters, and something for every
other. -/
theorem outflow_openFile (mode : OpenMode) (readAccess writeAccess closed : Bool)
    (hfits : (Call.openFile fileName mode readAccess writeAccess).request.Fits) {v : View W}
    {rest : List UInt8}
    (hin : v.inflow =
      (serve call (Call.openFile fileName mode readAccess writeAccess).request k).1.bytes ++ rest) :
    (StreamM.run world closed
        ((Call.openFile fileName mode readAccess writeAccess).program h rounds) v).2.outflow =
      v.outflow ↔ endsWithDesktopIni (win32PathToUnix fileName) = true := by
  set c := Call.openFile fileName mode readAccess writeAccess with hc
  have hprog : StreamM.run world closed (c.program h rounds) v =
      StreamM.run world closed (c.locked h rounds)
        { v with world := (world .lock v.world).2 } := rfl
  rw [hprog]
  by_cases hquiet : c.Quiet world (world .lock v.world).2
  · obtain ⟨reply, w', hrecv⟩ := Call.receives_of_quiet h hquiet rounds
    rw [hrecv closed { v with world := (world .lock v.world).2 } v.inflow rfl rfl]
    exact iff_of_true rfl hquiet
  · obtain ⟨w', hex⟩ := Call.exchanges_locked h hquiet hfits trivial
      (serve_answers call c.request k)
      (Response.legible_of_answers (by intro p hp; cases hp) (serve_answers call _ k) rounds)
    rw [hex closed { v with world := (world .lock v.world).2 } rest hin rfl]
    refine iff_of_false ?_ hquiet
    intro hout
    exact List.cons_ne_nil _ _ (List.append_right_eq_self.mp hout)

/-- What is asked by name fits the stream if the path does. -/
theorem fits_openFile (hfits : (Call.statFile fileName).request.Fits) (mode : OpenMode)
    (readAccess writeAccess : Bool) :
    (Call.openFile fileName mode readAccess writeAccess).request.Fits :=
  hfits

theorem opensByName_iff (hfits : (Call.statFile fileName).request.Fits) :
    OpensByName call world h rounds fileName k w ↔
      (endsWithDesktopIni (win32PathToUnix fileName) = true →
        lastComponent (win32PathToUnix fileName) = desktopIni) := by
  constructor
  · intro hopens hini
    refine hopens .openOnly true true true ⟨_, [], true, w⟩ [] rfl rfl ?_
    exact (outflow_openFile h rounds .openOnly true true true (fits_openFile hfits _ _ _) rfl).mpr
      hini
  · intro hname mode readAccess writeAccess closed v rest hin hw hout
    exact hname ((outflow_openFile h rounds mode readAccess writeAccess closed
      (fits_openFile hfits _ _ _) hin).mp hout)

/-- A cache that is up to date makes a difference only for the name itself. -/
theorem statsByName_of_ends_not (hfits : (Call.statFile fileName).request.Fits)
    (hup : UpToDate call world (win32PathToUnix fileName) k w)
    (hini : endsWithDesktopIni (win32PathToUnix fileName) = false) :
    StatsByName call world h rounds fileName k w := by
  rintro closed v rest hin rfl
  have hname : lastComponent (win32PathToUnix fileName) ≠ desktopIni := fun hlast =>
    Bool.false_ne_true (hini.symm.trans (endsWithDesktopIni_of_lastComponent hlast))
  rw [run_statFile h rounds hfits closed hin, if_neg hname, hini]
  rcases hfirst : firstLook world (win32PathToUnix fileName) v.world with - | stat
  · rcases hsecond : secondLook world (win32PathToUnix fileName) v.world with - | stat
    · rfl
    · exact congrArg (Outcome.done ∘ Response.reply) (hup.second stat hsecond).symm
  · exact congrArg (Outcome.done ∘ Response.reply) (hup.first stat hfirst).symm

theorem statsByName_iff_of_lastComponent (hfits : (Call.statFile fileName).request.Fits)
    (hname : lastComponent (win32PathToUnix fileName) = desktopIni) :
    StatsByName call world h rounds fileName k w ↔
      ¬ InCache world (win32PathToUnix fileName) w := by
  have hini := endsWithDesktopIni_of_lastComponent hname
  constructor
  · intro hstats hcached
    have hrun := hstats true ⟨_, [], true, w⟩ [] rfl rfl
    rw [run_statFile h rounds hfits true rfl, if_pos hname] at hrun
    rcases hfirst : firstLook world (win32PathToUnix fileName) w with - | stat
    · rcases hsecond : secondLook world (win32PathToUnix fileName) w with - | stat
      · exact hcached.elim (· hfirst) (· hsecond)
      · rw [hfirst, hsecond] at hrun
        cases hrun
    · rw [hfirst] at hrun
      cases hrun
  · rintro hcached closed v rest hin rfl
    obtain ⟨hfirst, hsecond⟩ := not_or.mp hcached
    rw [run_statFile h rounds hfits closed hin, if_pos hname, not_not.mp hfirst,
      not_not.mp hsecond]
    simp only [hini, if_true]

/-- **The answers depend on the name alone**, that is `req_stat_file` denies `desktop.ini` and
nothing else and `req_open_file` refuses nothing else, exactly if the path does not end with these
letters, or if they are its last component and it is not in the cache. -/
theorem answers_by_name_iff (hfits : (Call.statFile fileName).request.Fits)
    (hup : UpToDate call world (win32PathToUnix fileName) k w) :
    StatsByName call world h rounds fileName k w ∧ OpensByName call world h rounds fileName k w ↔
      ¬ desktopIni <:+ win32PathToUnix fileName ∨
        lastComponent (win32PathToUnix fileName) = desktopIni ∧
          ¬ InCache world (win32PathToUnix fileName) w := by
  have hsuffix : desktopIni <:+ win32PathToUnix fileName ↔
      endsWithDesktopIni (win32PathToUnix fileName) = true := List.isSuffixOf_iff_suffix.symm
  rw [opensByName_iff h rounds hfits, hsuffix]
  by_cases hini : endsWithDesktopIni (win32PathToUnix fileName) = true
  · rw [or_iff_right (not_not.mpr hini)]
    constructor
    · rintro ⟨hstats, hopens⟩
      have hname := hopens hini
      exact ⟨hname, (statsByName_iff_of_lastComponent h rounds hfits hname).mp hstats⟩
    · rintro ⟨hname, hcached⟩
      exact ⟨(statsByName_iff_of_lastComponent h rounds hfits hname).mpr hcached, fun _ => hname⟩
  · refine iff_of_true ⟨?_, fun h' => absurd h' hini⟩ (.inl hini)
    exact statsByName_of_ends_not h rounds hfits hup (Bool.eq_false_iff.mpr hini)

end

/-! ## The two ways to go wrong -/

/-- A device on which every path is a file of one byte. -/
def Kernel.fileEverywhere : Kernel Unit
  | .stat _ => fun k => (.ok ⟨0x81A4, 1, 0, 0⟩, k)
  | e => Kernel.failing .eacces e

/-- What the daemon says of every path of it. -/
def fileEverywhereStat : FileStat := ClientHandler.fileStatOf ⟨0x81A4, 1, 0, 0⟩

/-- A cache into which that has been put for every path. -/
def cachedEverywhere : (e : ConnAct) → Unit → e.Res × Unit
  | .getStat _ => fun w => (some fileEverywhereStat, w)
  | e => uncached e

theorem upToDate_cachedEverywhere (path : ByteString) :
    UpToDate Kernel.fileEverywhere cachedEverywhere path () () where
  first := by
    rintro stat hstat
    cases hstat
    rfl
  second := by
    rintro stat hstat
    cases hstat
    rfl

theorem upToDate_uncached (path : ByteString) :
    UpToDate Kernel.fileEverywhere uncached path () () where
  first := by
    rintro stat hstat
    cases hstat
  second := by
    rintro stat hstat
    cases hstat

/-- The file `a`, from the cache. -/
theorem answers_by_name_a :
    StatsByName Kernel.fileEverywhere cachedEverywhere .windows 0 [92, 97] () () ∧
      OpensByName Kernel.fileEverywhere cachedEverywhere .windows 0 [92, 97] () () :=
  (answers_by_name_iff .windows 0 (by decide) (upToDate_cachedEverywhere _)).mpr (.inl (by decide))

/-- `\mydesktop.ini`. -/
def myDesktopIni : WString :=
  [92, 109, 121, 100, 101, 115, 107, 116, 111, 112, 46, 105, 110, 105]

/-- The file `mydesktop.ini` is denied and refused, and the file `desktop.ini` is there once a
listing has been read. -/
theorem not_answers_by_name :
    (UpToDate Kernel.fileEverywhere uncached (win32PathToUnix myDesktopIni) () () ∧
      ¬ StatsByName Kernel.fileEverywhere uncached .windows 0 myDesktopIni () () ∧
      ¬ OpensByName Kernel.fileEverywhere uncached .windows 0 myDesktopIni () ()) ∧
    UpToDate Kernel.fileEverywhere cachedEverywhere (win32PathToUnix (92 :: myDesktopIni.drop 3))
      () () ∧
    ¬ StatsByName Kernel.fileEverywhere cachedEverywhere .windows 0 (92 :: myDesktopIni.drop 3)
      () () := by
  refine ⟨⟨upToDate_uncached _, fun hstats => ?_, fun hopens => ?_⟩,
    upToDate_cachedEverywhere _, fun hstats => ?_⟩
  · have hrun := hstats true ⟨_, [], true, ()⟩ [] rfl rfl
    rw [run_statFile .windows 0 (by decide) true rfl] at hrun
    exact absurd hrun (by decide)
  · have hname := (opensByName_iff .windows 0 (by decide)).mp hopens (by decide)
    exact absurd hname (by decide)
  · have hcached := (statsByName_iff_of_lastComponent .windows 0 (by decide) (by decide)).mp hstats
    exact hcached (.inl (by decide))

end NandroidFS
