import NandroidFS.Shared.PathUtils

/-!
# One mounted device

`Nandroid.cpp`: what is acquired for a device, step after step, and what the destructor gives back.
`begin` may stop at each of its steps, and what has been acquired by then differs: the first steps
only run `adb`, then the agent is started in a thread of its own, then the connection is made, then
the drive is mounted.

The destructor closes the drive and the connection if there are any, waits for the agent, and joins
the thread.  It does not ask whether there is a thread.  To join a thread that was never started
raises, and what is raised in a destructor ends the process.

* `Attempt`: how the outside answers to each step.
* `Nandroid.begin_eq`: what `begin` raises, and what it leaves behind.
* `Nandroid.joins_reached`: after a `begin` the destructor gets through unless one of the first four
  steps has failed.
-/

namespace NandroidFS

/-- What `DokanCreateFileSystem` answers. -/
inductive DokanStatus where
  | success
  | error
  | driveLetterError
  | driverInstallError
  | startError
  | mountError
  | mountPointError
  | versionError
  | unknown (code : ℤ)
  deriving DecidableEq

/-- What `mount_filesystem` raises. -/
inductive MountError where
  | unspecified
  | invalidDriveLetter
  | driverInstall
  | internalDriver
  | noValidMountPoints
  | invalidMountPoint
  | incompatibleVersion
  | unknown (code : ℤ)
  deriving DecidableEq

/-- The letters that are tried, in this order. -/
def driveLetters : List Char :=
  ['D', 'E', 'F', 'G', 'H', 'I', 'J', 'K', 'L', 'M', 'N', 'O', 'P', 'Q', 'R', 'S', 'T', 'U', 'V',
    'W', 'X', 'Y', 'Z']

/-- The loop of `mount_filesystem`: only `DOKAN_MOUNT_ERROR` makes it go on to the next letter. -/
def mountFilesystem (create : Char → DokanStatus) : List Char → Except MountError Char
  | [] => .error .noValidMountPoints
  | letter :: letters =>
      match create letter with
      | .success => .ok letter
      | .error => .error .unspecified
      | .driveLetterError => .error .invalidDriveLetter
      | .driverInstallError => .error .driverInstall
      | .startError => .error .internalDriver
      | .mountError => mountFilesystem create letters
      | .mountPointError => .error .invalidMountPoint
      | .versionError => .error .incompatibleVersion
      | .unknown code => .error (.unknown code)

/-- The steps at which a device may fail to connect. -/
inductive Failure where
  /-- The serial number is no UTF-8; this is raised by the constructor. -/
  | serial
  | agentPath
  | push
  | chmod
  | forward
  | agentNotReady
  | connection
  | mount (e : MountError)
  deriving DecidableEq

/-- The steps before the thread of the agent is started. -/
def Failure.Early : Failure → Prop
  | .agentPath => True
  | .push => True
  | .chmod => True
  | .forward => True
  | _ => False

instance : DecidablePred Failure.Early := fun e => by
  cases e <;> unfold Failure.Early <;> infer_instance

/-- How the outside answers when a device is connected: whether each step succeeds, and what each
drive letter gives. -/
structure Attempt where
  serial : Bool
  agentPath : Bool
  push : Bool
  chmod : Bool
  forward : Bool
  agentReady : Bool
  connects : Bool
  create : Char → DokanStatus

namespace Attempt

/-- The first step that does not succeed. -/
def failure (a : Attempt) : Option Failure :=
  if !a.serial then some .serial
  else if !a.agentPath then some .agentPath
  else if !a.push then some .push
  else if !a.chmod then some .chmod
  else if !a.forward then some .forward
  else if !a.agentReady then some .agentNotReady
  else if !a.connects then some .connection
  else
    match mountFilesystem a.create driveLetters with
    | .error e => some (.mount e)
    | .ok _ => none

/-- One of the steps before the thread of the agent fails. -/
def FailsEarly (a : Attempt) : Prop :=
  ∃ e, a.failure = some e ∧ e.Early

/-- Everything succeeds. -/
def perfect : Attempt where
  serial := true
  agentPath := true
  push := true
  chmod := true
  forward := true
  agentReady := true
  connects := true
  create := fun _ => .success

end Attempt

/-- `Nandroid`: the device, and what has been acquired for it. -/
structure Nandroid where
  deviceSerial : ByteString
  portNum : UInt16
  /-- `agent_invoke_thread` can be joined. -/
  agentInvokeThread : Bool
  connection : Bool
  /-- There is a `DOKAN_HANDLE`. -/
  mounted : Bool
  deriving DecidableEq

namespace Nandroid

def new (deviceSerial : ByteString) (portNum : UInt16) : Nandroid where
  deviceSerial := deviceSerial
  portNum := portNum
  agentInvokeThread := false
  connection := false
  mounted := false

/-- `begin`, with what the object has become when it raises or returns. -/
def begin (n : Nandroid) (a : Attempt) : Except Failure Unit × Nandroid :=
  if !a.agentPath then (.error .agentPath, n)
  else if !a.push then (.error .push, n)
  else if !a.chmod then (.error .chmod, n)
  else if !a.forward then (.error .forward, n)
  else if !a.agentReady then (.error .agentNotReady, { n with agentInvokeThread := true })
  else if !a.connects then (.error .connection, { n with agentInvokeThread := true })
  else
    match mountFilesystem a.create driveLetters with
    | .error e => (.error (.mount e), { n with agentInvokeThread := true, connection := true })
    | .ok _ =>
        (.ok (), { n with agentInvokeThread := true, connection := true, mounted := true })

/-- The destructor comes to its end.  It closes the drive and the connection if there are any, and
waits two seconds for the agent to end by itself; that the agent could not be killed is only logged.
Then it joins the thread, which raises if there is none. -/
def joins (n : Nandroid) : Bool :=
  n.agentInvokeThread

/-- What an object has become when a step has failed, or none. -/
def reached (n : Nandroid) : Option Failure → Nandroid
  | none => { n with agentInvokeThread := true, connection := true, mounted := true }
  | some (.mount _) => { n with agentInvokeThread := true, connection := true }
  | some .connection => { n with agentInvokeThread := true }
  | some .agentNotReady => { n with agentInvokeThread := true }
  | some _ => n

/-- **`begin` in one line**: it raises at the first step that does not succeed, with what has been
acquired by then. -/
theorem begin_eq (n : Nandroid) {a : Attempt} (ha : a.serial = true) :
    n.begin a = ((a.failure.elim (.ok ()) .error), n.reached a.failure) := by
  unfold begin Attempt.failure
  rw [ha]
  cases a.agentPath with
  | false => rfl
  | true =>
    cases a.push with
    | false => rfl
    | true =>
      cases a.chmod with
      | false => rfl
      | true =>
        cases a.forward with
        | false => rfl
        | true =>
          cases a.agentReady with
          | false => rfl
          | true =>
            cases a.connects with
            | false => rfl
            | true =>
              cases mountFilesystem a.create driveLetters with
              | error e => rfl
              | ok letter => rfl

theorem failure_ne_serial {a : Attempt} (ha : a.serial = true) : a.failure ≠ some .serial := by
  unfold Attempt.failure
  simp only [ha, Bool.not_true, Bool.false_eq_true, if_false]
  split_ifs
  · simp
  · simp
  · simp
  · simp
  · simp
  · simp
  · cases mountFilesystem a.create driveLetters with
    | error e => simp
    | ok letter => simp

@[simp] theorem reached_deviceSerial (n : Nandroid) (e : Option Failure) :
    (n.reached e).deviceSerial = n.deviceSerial := by
  unfold reached
  split <;> rfl

@[simp] theorem reached_portNum (n : Nandroid) (e : Option Failure) :
    (n.reached e).portNum = n.portNum := by
  unfold reached
  split <;> rfl

/-- **Which failures the destructor gets through.**  There is a thread to join unless one of the
steps before it has failed. -/
theorem joins_reached (serial : ByteString) (port : UInt16) {a : Attempt} (ha : a.serial = true) :
    ((new serial port).reached a.failure).joins = true ↔ ¬a.FailsEarly := by
  have hserial := failure_ne_serial ha
  unfold Attempt.FailsEarly
  rcases hfailure : a.failure with _ | e
  · simp [reached, joins]
  · cases e with
    | serial => exact absurd hfailure hserial
    | _ => simp [reached, joins, new, Failure.Early]

end Nandroid

end NandroidFS
