import Zso.Oomk.Name
import Mathlib.Logic.Function.Basic

/-!
# The probes of the OOM killer

The handlers of `oomk.bpf.c` that count what a thread does, the map with one record
per thread, and the exit hook.

A handler that passes the name filter creates the record of the current thread if
there is none, looks it up, and then does one of three things (`Effect`): it leaves
the record as it is, stores something in it, or counts an event. After it has counted
an event it may kill. `Killer.fire_eq` says all that a handler can do.

The map is an LRU map. Which record it drops, and when, is left open: any record may
be dropped at any time (`Label.evict`), also between the creation and the lookup of a
handler, which then returns (the argument `miss`).
-/

namespace Zso.Oomk

def IPPROTO_TCP : UInt8 := 6

def F_DUPFD : UInt32 := 0
def F_DUPFD_CLOEXEC : UInt32 := 1030

def THRESHOLD_NUMBER_OF_RAND_CALLS : UInt32 := 100
def THRESHOLD_NUMBER_OF_OPENED_FD : UInt32 := 100
def THRESHOLD_NUMBER_OF_WRITES : UInt32 := 100
def THRESHOLD_NUMBER_OF_MB_TO_READ : UInt32 := 10 * 1024 * 1024
def THRESHOLD_NUMBER_OF_THREADS : UInt32 := 100
def THRESHOLD_NUMBER_OF_SENT_TCP_PACKETS : UInt32 := 1000

/-- `struct proc_info` -/
structure ProcInfo where
  randCallsCount : UInt32
  usedFdCount : UInt32
  fcntlOp : UInt32
  writeCount : UInt32
  readMbCount : UInt32
  spawnedThreadsCount : UInt32
  isTcpPacket : Bool
  tcpPacketSentCount : UInt32
  deriving DecidableEq

def procInfoNew : ProcInfo where
  randCallsCount := 0
  usedFdCount := 0
  fcntlOp := 0
  writeCount := 0
  readMbCount := 0
  spawnedThreadsCount := 0
  isTcpPacket := false
  tcpPacketSentCount := 0

def procShouldBeKilled (ctx : ProcInfo) : Bool :=
  ctx.randCallsCount ≥ THRESHOLD_NUMBER_OF_RAND_CALLS
    || ctx.usedFdCount ≥ THRESHOLD_NUMBER_OF_OPENED_FD
    || ctx.writeCount ≥ THRESHOLD_NUMBER_OF_WRITES
    || ctx.readMbCount ≥ THRESHOLD_NUMBER_OF_MB_TO_READ
    || ctx.spawnedThreadsCount ≥ THRESHOLD_NUMBER_OF_THREADS
    || ctx.tcpPacketSentCount ≥ THRESHOLD_NUMBER_OF_SENT_TCP_PACKETS

/-! ## Handlers -/

/-- What a handler does with the record it has found. -/
inductive Effect
  /-- nothing -/
  | keep
  /-- the record is changed -/
  | store (procInfo : ProcInfo)
  /-- the record is changed, and the thread is killed if it may and should be -/
  | count (procInfo : ProcInfo)

/-- The record that is left. -/
def Effect.record (procInfo : ProcInfo) : Effect → ProcInfo
  | .keep => procInfo
  | .store p => p
  | .count p => p

def Effect.counts : Effect → Bool
  | .count _ => true
  | _ => false

def handleOpeningNewFd (ret : Int) (procInfo : ProcInfo) : Effect :=
  if ret ≥ 0 then .count { procInfo with usedFdCount := procInfo.usedFdCount + 1 } else .keep

def handleWrites (ret : Int) (procInfo : ProcInfo) : Effect :=
  if ret ≥ 0 then .count { procInfo with writeCount := procInfo.writeCount + 1 } else .keep

def handleCountingReadBytes (ret : Int) (procInfo : ProcInfo) : Effect :=
  if ret ≥ 0 then
    .count { procInfo with readMbCount := procInfo.readMbCount + UInt32.ofNat ret.toNat }
  else .keep

def handleSpawningThreads (ret : Int) (procInfo : ProcInfo) : Effect :=
  if ret ≥ 0 then
    .count { procInfo with spawnedThreadsCount := procInfo.spawnedThreadsCount + 1 }
  else .keep

def openatExit := handleOpeningNewFd
def creatExit := handleOpeningNewFd
def dupExit := handleOpeningNewFd
def pipe2Exit := handleOpeningNewFd
def socketExit := handleOpeningNewFd

def fcntlEnter (cmd : UInt64) (procInfo : ProcInfo) : Effect :=
  .store { procInfo with fcntlOp := cmd.toUInt32 }

def fcntlExit (ret : Int) (procInfo : ProcInfo) : Effect :=
  if ret ≥ 0 then
    if procInfo.fcntlOp = F_DUPFD ∨ procInfo.fcntlOp = F_DUPFD_CLOEXEC then
      .count { procInfo with usedFdCount := procInfo.usedFdCount + 1 }
    else .keep
  else .keep

def closeFdExit (ret : Int) (procInfo : ProcInfo) : Effect :=
  if ret ≥ 0 ∧ procInfo.usedFdCount > 0 then
    .store { procInfo with usedFdCount := procInfo.usedFdCount - 1 }
  else .keep

def writeExit := handleWrites
def writevExit := handleWrites
def pwritevExit := handleWrites
def pwritev2Exit := handleWrites
def pwrite64Exit := handleWrites

def readExit := handleCountingReadBytes
def readvExit := handleCountingReadBytes
def preadvExit := handleCountingReadBytes
def preadv2Exit := handleCountingReadBytes
def pread64Exit := handleCountingReadBytes

def cloneExit := handleSpawningThreads
def clone3Exit := handleSpawningThreads

def libcRandExit (procInfo : ProcInfo) : Effect :=
  .count { procInfo with randCallsCount := procInfo.randCallsCount + 1 }

/-- `protocol` is that of the IP header, if the header can be read. -/
def ipFinishOutput2Entry (protocol : Option UInt8) (procInfo : ProcInfo) : Effect :=
  match protocol with
  | none => .keep
  | some protocol => .store { procInfo with isTcpPacket := protocol = IPPROTO_TCP }

def ipFinishOutput2Exit (ret : Int) (procInfo : ProcInfo) : Effect :=
  if procInfo.isTcpPacket then
    if ret ≥ 0 then
      .count { procInfo with tcpPacketSentCount := procInfo.tcpPacketSentCount + 1 }
    else .keep
  else .keep

/-- The system calls whose exit is traced. -/
inductive Syscall
  | openat | creat | dup | pipe2 | socket
  | fcntl
  | close
  | write | writev | pwritev | pwritev2 | pwrite64
  | read | readv | preadv | preadv2 | pread64
  | clone | clone3
  deriving DecidableEq

/-- The exit of a system call. -/
def sysExit : Syscall → Int → ProcInfo → Effect
  | .openat => openatExit
  | .creat => creatExit
  | .dup => dupExit
  | .pipe2 => pipe2Exit
  | .socket => socketExit
  | .fcntl => fcntlExit
  | .close => closeFdExit
  | .write => writeExit
  | .writev => writevExit
  | .pwritev => pwritevExit
  | .pwritev2 => pwritev2Exit
  | .pwrite64 => pwrite64Exit
  | .read => readExit
  | .readv => readvExit
  | .preadv => preadvExit
  | .preadv2 => preadv2Exit
  | .pread64 => pread64Exit
  | .clone => cloneExit
  | .clone3 => clone3Exit

/-- The handlers that the exits of the system calls share. -/
inductive Syscall.Kind
  | openingNewFd | fcntl | close | writes | countingReadBytes | spawningThreads
  deriving DecidableEq

def Syscall.kind : Syscall → Syscall.Kind
  | .openat | .creat | .dup | .pipe2 | .socket => .openingNewFd
  | .fcntl => .fcntl
  | .close => .close
  | .write | .writev | .pwritev | .pwritev2 | .pwrite64 => .writes
  | .read | .readv | .preadv | .preadv2 | .pread64 => .countingReadBytes
  | .clone | .clone3 => .spawningThreads

def Syscall.Kind.handler : Syscall.Kind → Int → ProcInfo → Effect
  | .openingNewFd => handleOpeningNewFd
  | .fcntl => fcntlExit
  | .close => closeFdExit
  | .writes => handleWrites
  | .countingReadBytes => handleCountingReadBytes
  | .spawningThreads => handleSpawningThreads

theorem sysExit_eq (nr : Syscall) : sysExit nr = nr.kind.handler := by
  cases nr <;> rfl

/-- A probe that uses the record of the thread. -/
inductive Probe
  | sysExit (nr : Syscall) (ret : Int)
  | fcntlEnter (cmd : UInt64)
  | libcRandExit
  | ipFinishOutput2Entry (protocol : Option UInt8)
  | ipFinishOutput2Exit (ret : Int)
  deriving DecidableEq

def Probe.handler : Probe → ProcInfo → Effect
  | .sysExit nr ret => Oomk.sysExit nr ret
  | .fcntlEnter cmd => Oomk.fcntlEnter cmd
  | .libcRandExit => Oomk.libcRandExit
  | .ipFinishOutput2Entry protocol => Oomk.ipFinishOutput2Entry protocol
  | .ipFinishOutput2Exit ret => Oomk.ipFinishOutput2Exit ret

/-! ## The map -/

/-- `bpf_get_current_pid_tgid`: the thread and its process. -/
structure PidTgid where
  tgid : UInt32
  pid : UInt32
  deriving DecidableEq

/-- The current task. -/
structure Task where
  pidTgid : PidTgid
  comm : Comm

/-- `state_map` and `IS_KILLING_ALLOWED`. -/
structure Killer where
  stateMap : PidTgid → Option ProcInfo
  isKillingAllowed : Bool

def Killer.set (s : Killer) (k : PidTgid) (p : ProcInfo) : Killer :=
  { s with stateMap := Function.update s.stateMap k (some p) }

def Killer.delete (s : Killer) (k : PidTgid) : Killer :=
  { s with stateMap := Function.update s.stateMap k none }

/-- `bpf_map_update_elem` with BPF_NOEXIST -/
def Killer.insertNew (s : Killer) (k : PidTgid) (p : ProcInfo) : Killer :=
  if (s.stateMap k).isSome then s else s.set k p

/-- `GET_PROC_INFO_OR_RETURN` -/
def Killer.getProcInfo (s : Killer) (k : PidTgid) (miss : Bool) : Killer × Option ProcInfo :=
  let s := s.insertNew k procInfoNew
  if miss then (s.delete k, none) else (s, s.stateMap k)

/-- A probe fires on task `t`. The second component says whether the handler sends
SIGKILL to the current thread. -/
def Killer.fire (s : Killer) (t : Task) (miss : Bool) (probe : Probe) : Killer × Bool :=
  if isOompPresent t.comm then
    match s.getProcInfo t.pidTgid miss with
    | (s, none) => (s, false)
    | (s, some procInfo) =>
      let iCanKill := s.isKillingAllowed
      match probe.handler procInfo with
      | .keep => (s, false)
      | .store p => (s.set t.pidTgid p, false)
      | .count p =>
        let s := s.set t.pidTgid p
        if iCanKill && procShouldBeKilled p then (s.delete t.pidTgid, true) else (s, false)
  else (s, false)

/-- The hook of `sched_process_exit`. -/
def Killer.checkIfProcExited (s : Killer) (t : Task) : Killer :=
  if isOompPresent t.comm then
    match s.stateMap t.pidTgid with
    | none => s
    | some _ => s.delete t.pidTgid
  else s

inductive Label
  | fire (t : Task) (miss : Bool) (probe : Probe)
  | exit (t : Task)
  /-- the LRU map drops a record -/
  | evict (k : PidTgid)
  /-- the memory switch -/
  | allow (on : Bool)

def Killer.step (s : Killer) : Label → Killer
  | .fire t miss probe => (s.fire t miss probe).1
  | .exit t => s.checkIfProcExited t
  | .evict k => s.delete k
  | .allow on => { s with isKillingAllowed := on }

/-- The thread that is sent SIGKILL. -/
def Killer.kills (s : Killer) : Label → Option PidTgid
  | .fire t miss probe => if (s.fire t miss probe).2 then some t.pidTgid else none
  | _ => none

/-! ## What a handler can do -/

section
variable {s : Killer} {k k' : PidTgid} {p : ProcInfo} {t : Task}

@[simp] theorem Killer.set_self : (s.set k p).stateMap k = some p := by simp [Killer.set]

theorem Killer.set_ne (h : k' ≠ k) : (s.set k p).stateMap k' = s.stateMap k' := by
  simp [Killer.set, h]

@[simp] theorem Killer.delete_self : (s.delete k).stateMap k = none := by simp [Killer.delete]

theorem Killer.delete_ne (h : k' ≠ k) : (s.delete k).stateMap k' = s.stateMap k' := by
  simp [Killer.delete, h]

@[simp] theorem Killer.set_set {p' : ProcInfo} : (s.set k p).set k p' = s.set k p' := by
  simp [Killer.set]

@[simp] theorem Killer.set_delete : (s.set k p).delete k = s.delete k := by
  simp [Killer.set, Killer.delete]

/-- The record a handler works on. -/
def Killer.found (s : Killer) (k : PidTgid) : ProcInfo := (s.stateMap k).getD procInfoNew

theorem Killer.insertNew_eq : s.insertNew k procInfoNew = s.set k (s.found k) := by
  unfold Killer.insertNew Killer.found
  cases h : s.stateMap k with
  | none => simp
  | some p =>
    simp only [Option.isSome_some, if_true, Option.getD_some, Killer.set]
    rw [← h, Function.update_eq_self]

/-- A handler sends SIGKILL. -/
def Killer.shouldKill (s : Killer) (e : Effect) (p : ProcInfo) : Bool :=
  e.counts && s.isKillingAllowed && procShouldBeKilled (e.record p)

/-- All that a probe does. -/
theorem Killer.fire_eq (s : Killer) (t : Task) (miss : Bool) (probe : Probe) :
    s.fire t miss probe =
      if isOompPresent t.comm then
        if miss then (s.delete t.pidTgid, false)
        else if s.shouldKill (probe.handler (s.found t.pidTgid)) (s.found t.pidTgid) then
          (s.delete t.pidTgid, true)
        else
          (s.set t.pidTgid ((probe.handler (s.found t.pidTgid)).record (s.found t.pidTgid)), false)
      else (s, false) := by
  unfold Killer.fire
  split
  · next hname =>
    cases miss with
    | true => simp [Killer.getProcInfo, Killer.insertNew_eq]
    | false =>
      simp only [Killer.getProcInfo, Killer.insertNew_eq, Bool.false_eq_true, if_false, Killer.set_self]
      cases he : probe.handler (s.found t.pidTgid) with
      | keep => simp [Killer.shouldKill, Effect.counts, Effect.record]
      | store p => simp [Killer.shouldKill, Effect.counts, Effect.record]
      | count p =>
        simp only [Killer.set_set, Killer.set_delete, Killer.shouldKill, Effect.counts, Effect.record,
          Bool.true_and]
        rfl
  · rfl

/-- A handler sends SIGKILL only to a thread that is traced and has a record. -/
theorem Killer.kills_fire (s : Killer) (t : Task) (miss : Bool) (probe : Probe) :
    s.kills (.fire t miss probe) =
      if isOompPresent t.comm && !miss &&
          s.shouldKill (probe.handler (s.found t.pidTgid)) (s.found t.pidTgid) then
        some t.pidTgid
      else none := by
  simp only [Killer.kills, Killer.fire_eq]
  cases isOompPresent t.comm <;> cases miss <;>
    cases s.shouldKill (probe.handler (s.found t.pidTgid)) (s.found t.pidTgid) <;> rfl

/-- The record that is left if SIGKILL is not sent. -/
theorem Killer.fire_record (hname : isOompPresent t.comm = true) {probe : Probe}
    (hk : s.kills (.fire t false probe) = none) :
    (s.fire t false probe).1.stateMap t.pidTgid =
      some ((probe.handler (s.found t.pidTgid)).record (s.found t.pidTgid)) := by
  rw [Killer.kills_fire, hname] at hk
  have hno : ¬ s.shouldKill (probe.handler (s.found t.pidTgid)) (s.found t.pidTgid) = true := by
    intro hyes
    simp [hyes] at hk
  rw [Killer.fire_eq, if_pos hname, if_neg (by simp), if_neg hno]
  exact Killer.set_self

theorem Killer.checkIfProcExited_eq (s : Killer) (t : Task) :
    s.checkIfProcExited t = if isOompPresent t.comm then s.delete t.pidTgid else s := by
  unfold Killer.checkIfProcExited
  split
  · cases h : s.stateMap t.pidTgid with
    | none =>
      simp only [Killer.delete]
      rw [← h, Function.update_eq_self]
    | some p => rfl
  · rfl

end

end Zso.Oomk
