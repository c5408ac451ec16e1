import Zso.Lib.Transition
import Zso.Oomk.Probes

/-!
# What a thread has done

The counters of a record are 32-bit words. Here they are compared with what the thread
has really done since its record was created: the list of its `Deed`s. A descriptor
counts for `fcntl` only if the call asked for a duplicate, and a packet only if it is a
TCP packet. Both are known at the entry of the call and counted at its exit, so the
calls that are under way belong to the history of a thread, too.

A thread can change its name and keep its record, and the program does not look at what
it does under a name without `oomp`. The history has both: `Thread.deeds` is all that the
thread has done, `Thread.seen` is the part of it that was done under a traced name.

* `Tracks` ties the counters to the deeds that were seen: the words agree modulo 2^32,
  and the number of descriptors is at most the balance.
* `history_invariant`: this holds along every run in which the calls of the thread are
  paired (`Paired`).
* `no_unjustified_kill`: SIGKILL is sent only if killing is allowed, to a thread whose
  deeds are over the limit, if it has not closed descriptors under another name.
* `closes_unseen`: a thread that has, and is killed with 40 open descriptors.
-/

namespace Zso.Oomk
open Transition

/-! ## Deeds -/

inductive Deed
  | opened
  | closed
  | wrote
  | read (bytes : Nat)
  | cloned
  | rand
  | sentTcp
  deriving DecidableEq

/-- All deeds but the closing of a descriptor are events at which a thread may be
killed. -/
def Deed.counted : Deed → Bool
  | .closed => false
  | _ => true

def Deed.bytes : Deed → Nat
  | .read n => n
  | _ => 0

def bytesRead (ds : List Deed) : Nat := (ds.map Deed.bytes).sum

def balanceAfter (n : Nat) : Deed → Nat
  | .opened => n + 1
  | .closed => n - 1
  | _ => n

/-- The descriptors that were opened and not closed, never below zero. -/
def balance (ds : List Deed) : Nat := ds.foldl balanceAfter 0

/-- The limits the program is meant to enforce. -/
def OverLimit (ds : List Deed) : Prop :=
  100 ≤ ds.count .wrote ∨ 10 * 1024 * 1024 ≤ bytesRead ds ∨ 100 ≤ ds.count .cloned ∨
    100 ≤ ds.count .rand ∨ 1000 ≤ ds.count .sentTcp ∨ 100 ≤ balance ds

/-- A limit other than that on bytes. -/
def OverElsewhere (ds : List Deed) : Prop :=
  100 ≤ ds.count .wrote ∨ 100 ≤ ds.count .cloned ∨ 100 ≤ ds.count .rand ∨
    1000 ≤ ds.count .sentTcp ∨ 100 ≤ balance ds

instance (ds : List Deed) : Decidable (OverLimit ds) := by
  unfold OverLimit
  infer_instance

@[simp] theorem bytesRead_nil : bytesRead [] = 0 := rfl

@[simp] theorem bytesRead_append (ds : List Deed) (d : Deed) :
    bytesRead (ds ++ [d]) = bytesRead ds + d.bytes := by
  simp [bytesRead]

@[simp] theorem balance_nil : balance [] = 0 := rfl

@[simp] theorem balance_append (ds : List Deed) (d : Deed) :
    balance (ds ++ [d]) = balanceAfter (balance ds) d := by
  simp [balance]

/-! ## Counters -/

/-- The counters of a record. -/
structure Counters where
  rand : UInt32
  fd : UInt32
  writes : UInt32
  bytes : UInt32
  threads : UInt32
  tcp : UInt32

def ProcInfo.counters (p : ProcInfo) : Counters where
  rand := p.randCallsCount
  fd := p.usedFdCount
  writes := p.writeCount
  bytes := p.readMbCount
  threads := p.spawnedThreadsCount
  tcp := p.tcpPacketSentCount

/-- One more deed. -/
def Counters.add (c : Counters) : Deed → Counters
  | .opened => { c with fd := c.fd + 1 }
  | .closed => { c with fd := if c.fd > 0 then c.fd - 1 else c.fd }
  | .wrote => { c with writes := c.writes + 1 }
  | .read n => { c with bytes := c.bytes + UInt32.ofNat n }
  | .cloned => { c with threads := c.threads + 1 }
  | .rand => { c with rand := c.rand + 1 }
  | .sentTcp => { c with tcp := c.tcp + 1 }

/-- The counters are those of the deeds `ds`. -/
structure Tracks (c : Counters) (ds : List Deed) : Prop where
  rand : c.rand = UInt32.ofNat (ds.count .rand)
  fd : c.fd.toNat ≤ balance ds
  writes : c.writes = UInt32.ofNat (ds.count .wrote)
  bytes : c.bytes = UInt32.ofNat (bytesRead ds)
  threads : c.threads = UInt32.ofNat (ds.count .cloned)
  tcp : c.tcp = UInt32.ofNat (ds.count .sentTcp)

theorem tracks_new : Tracks procInfoNew.counters [] := ⟨rfl, le_rfl, rfl, rfl, rfl, rfl⟩

section
variable {c : Counters} {ds : List Deed}

theorem toNat_add_one_le (x : UInt32) : (x + 1).toNat ≤ x.toNat + 1 := by
  rw [UInt32.toNat_add]
  exact Nat.mod_le _ _

theorem toNat_sub_one {x : UInt32} (h : x > 0) : (x - 1).toNat = x.toNat - 1 :=
  UInt32.toNat_sub_of_le _ _ (UInt32.le_iff_toNat_le.mpr (UInt32.lt_iff_toNat_lt.mp h))

theorem fd_add_le {n : Nat} (h : c.fd.toNat ≤ n) (d : Deed) :
    (c.add d).fd.toNat ≤ balanceAfter n d := by
  cases d with
  | opened => exact (toNat_add_one_le _).trans (Nat.succ_le_succ h)
  | closed =>
    show (if c.fd > 0 then c.fd - 1 else c.fd).toNat ≤ n - 1
    split
    · next hpos =>
      rw [toNat_sub_one hpos]
      omega
    · next hzero =>
      have : ¬ 0 < c.fd.toNat := UInt32.lt_iff_toNat_lt.not.mp hzero
      omega
  | _ => exact h

theorem Tracks.add (h : Tracks c ds) (d : Deed) : Tracks (c.add d) (ds ++ [d]) := by
  have hfd : (c.add d).fd.toNat ≤ balance (ds ++ [d]) := by
    rw [balance_append]
    exact fd_add_le h.fd d
  obtain ⟨hrand, -, hwrites, hbytes, hthreads, htcp⟩ := h
  cases d <;> refine ⟨?_, hfd, ?_, ?_, ?_, ?_⟩ <;> simp [Counters.add, Deed.bytes, *]

/-- A counter is over its threshold. -/
def Counters.Over (c : Counters) : Prop :=
  THRESHOLD_NUMBER_OF_RAND_CALLS ≤ c.rand ∨ THRESHOLD_NUMBER_OF_OPENED_FD ≤ c.fd ∨
    THRESHOLD_NUMBER_OF_WRITES ≤ c.writes ∨ THRESHOLD_NUMBER_OF_MB_TO_READ ≤ c.bytes ∨
    THRESHOLD_NUMBER_OF_THREADS ≤ c.threads ∨ THRESHOLD_NUMBER_OF_SENT_TCP_PACKETS ≤ c.tcp

theorem procShouldBeKilled_iff (p : ProcInfo) : procShouldBeKilled p = true ↔ p.counters.Over := by
  simp [procShouldBeKilled, Counters.Over, ProcInfo.counters, or_assoc]

theorem le_of_le_ofNat {k : UInt32} {n : Nat} (h : k ≤ UInt32.ofNat n) : k.toNat ≤ n := by
  rw [UInt32.le_iff_toNat_le, UInt32.toNat_ofNat'] at h
  exact h.trans (Nat.mod_le _ _)

theorem Tracks.bytes_iff (h : Tracks c ds) :
    THRESHOLD_NUMBER_OF_MB_TO_READ ≤ c.bytes ↔ 10 * 1024 * 1024 ≤ bytesRead ds % 2 ^ 32 := by
  rw [h.bytes, UInt32.le_iff_toNat_le, UInt32.toNat_ofNat']
  rfl

/-- Counters never run ahead of the deeds. -/
theorem Tracks.over_cases (h : Tracks c ds) (ho : c.Over) :
    10 * 1024 * 1024 ≤ bytesRead ds % 2 ^ 32 ∨ OverElsewhere ds := by
  have hbytes := h.bytes_iff
  obtain ⟨hrand, hfd, hwrites, -, hthreads, htcp⟩ := h
  unfold Counters.Over at ho
  rw [hrand, hwrites, hbytes, hthreads, htcp] at ho
  rcases ho with ho | ho | ho | ho | ho | ho
  · exact .inr (.inr (.inr (.inl (le_of_le_ofNat ho))))
  · exact .inr (.inr (.inr (.inr (.inr ((UInt32.le_iff_toNat_le.mp ho).trans hfd)))))
  · exact .inr (.inl (le_of_le_ofNat ho))
  · exact .inl ho
  · exact .inr (.inr (.inl (le_of_le_ofNat ho)))
  · exact .inr (.inr (.inr (.inr (.inl (le_of_le_ofNat ho)))))

end

/-! ## Threads -/

/-- A call whose entry was probed and whose exit was not. `kept` says that the thread
has had its record since then. -/
structure Pending (α : Type) where
  arg : α
  comm : Comm
  kept : Bool

/-- A deed and the name under which the thread has done it. -/
structure Act where
  comm : Comm
  deed : Deed

/-- The history of a thread: the calls that are under way, and what it has done since
its record was created, under whatever name. -/
structure Thread where
  /-- `fcntl`, with its command -/
  fcntl : Option (Pending UInt64)
  /-- `ip_finish_output2`, with the protocol of the packet -/
  packet : Option (Pending (Option UInt8))
  acts : List Act

/-- What a thread has done. -/
def Thread.deeds (th : Thread) : List Deed := th.acts.map Act.deed

/-- What a thread has done under a name with `oomp`. -/
def Thread.seen (th : Thread) : List Deed :=
  (th.acts.filter fun a => isOompPresent a.comm).map Act.deed

/-- The kernel takes the command of `fcntl` as an `unsigned int`. -/
def isDup (cmd : UInt64) : Bool := cmd.toUInt32 = F_DUPFD ∨ cmd.toUInt32 = F_DUPFD_CLOEXEC

/-- What a system call that returns `ret ≥ 0` has done. -/
def Syscall.Kind.deed (th : Thread) (ret : Nat) : Syscall.Kind → Option Deed
  | .openingNewFd => some .opened
  | .fcntl => if th.fcntl.any fun c => isDup c.arg then some .opened else none
  | .close => some .closed
  | .writes => some .wrote
  | .countingReadBytes => some (.read ret)
  | .spawningThreads => some .cloned

/-- What the thread has done when a probe fires. -/
def Thread.deed (th : Thread) : Probe → Option Deed
  | .sysExit nr ret => if ret ≥ 0 then nr.kind.deed th ret.toNat else none
  | .libcRandExit => some .rand
  | .ipFinishOutput2Exit ret =>
    if ret ≥ 0 ∧ th.packet.any fun c => c.arg = some IPPROTO_TCP then some .sentTcp else none
  | .fcntlEnter _ => none
  | .ipFinishOutput2Entry _ => none

/-- The calls under way and the deeds after a probe. -/
def Thread.after (th : Thread) (comm : Comm) (probe : Probe) : Thread where
  fcntl := match probe with
    | .fcntlEnter cmd => some ⟨cmd, comm, true⟩
    | .sysExit nr _ => if nr.kind = .fcntl then none else th.fcntl
    | _ => th.fcntl
  packet := match probe with
    | .ipFinishOutput2Entry protocol => some ⟨protocol, comm, true⟩
    | .ipFinishOutput2Exit _ => none
    | _ => th.packet
  acts := th.acts ++ ((th.deed probe).map (Act.mk comm)).toList

def Pending.lose {α : Type} (c : Pending α) : Pending α := { c with kept := false }

/-- A thread without a record starts from scratch. -/
def Thread.settle (th : Thread) (present : Bool) : Thread :=
  if present then th else ⟨th.fcntl.map Pending.lose, th.packet.map Pending.lose, []⟩

abbrev Threads := PidTgid → Thread

/-- The histories after a step. -/
def noteLabel (s : Killer) (l : Label) (g : Threads) : Threads := fun k =>
  let th := match l with
    | .fire t _ probe => if k = t.pidTgid then (g k).after t.comm probe else g k
    | _ => g k
  th.settle ((s.step l).stateMap k).isSome

/-- The OOM killer, from an empty map on. -/
def killer : Lts Killer Label where
  init s := ∀ k, s.stateMap k = none
  next s l := some (s.step l)

/-- The OOM killer with the histories of all threads. -/
def history : Lts (Killer × Threads) Label :=
  killer.recording (fun g => ∀ k, g k = ⟨none, none, []⟩) noteLabel

/-- The call whose exit is probed was probed at its entry, under the same name, and the
thread has kept its record since then. -/
def Pending.Matches {α : Type} (c : Option (Pending α)) (comm : Comm) : Prop :=
  ∃ c', c = some c' ∧ c'.comm = comm ∧ (isOompPresent comm = true → c'.kept = true)

/-- Both probes of a call fire, calls are not nested, and headers can be read. -/
def Paired (p : Killer × Threads) : Label → Prop
  | .fire t _ (.fcntlEnter _) => (p.2 t.pidTgid).fcntl = none
  | .fire t _ (.sysExit nr _) =>
    nr.kind = .fcntl → Pending.Matches (p.2 t.pidTgid).fcntl t.comm
  | .fire t _ (.ipFinishOutput2Entry protocol) =>
    (p.2 t.pidTgid).packet = none ∧ protocol.isSome
  | .fire t _ (.ipFinishOutput2Exit _) => Pending.Matches (p.2 t.pidTgid).packet t.comm
  | _ => True

/-- The probes that fire on the thread `k` are paired. -/
def PairedOn (k : PidTgid) (p : Killer × Threads) : Label → Prop
  | .fire t miss probe => t.pidTgid = k → Paired p (.fire t miss probe)
  | _ => True

/-! ## Records and histories -/

section
variable {s : Killer} {p : ProcInfo} {th : Thread} {probe : Probe} {t : Task}

/-- The record knows the calls under way. -/
structure Knows (p : ProcInfo) (th : Thread) : Prop where
  fcntl : ∀ c, th.fcntl = some c → c.kept = true → isOompPresent c.comm = true →
    p.fcntlOp = c.arg.toUInt32
  packet : ∀ c, th.packet = some c → c.kept = true → isOompPresent c.comm = true →
    p.isTcpPacket = decide (c.arg = some IPPROTO_TCP)

/-- What the exit of a call finds in the record is what the thread has called. -/
def Agrees (p : ProcInfo) (th : Thread) : Probe → Prop
  | .sysExit nr _ => nr.kind = .fcntl → ((th.fcntl.any fun c => isDup c.arg) = true ↔
      p.fcntlOp = F_DUPFD ∨ p.fcntlOp = F_DUPFD_CLOEXEC)
  | .ipFinishOutput2Exit _ =>
    (th.packet.any fun c => decide (c.arg = some IPPROTO_TCP)) = p.isTcpPacket
  | _ => True

theorem Knows.agrees {q : Killer × Threads} {miss : Bool} (h : Knows p (q.2 t.pidTgid))
    (hname : isOompPresent t.comm = true) (hg : Paired q (.fire t miss probe)) :
    Agrees p (q.2 t.pidTgid) probe := by
  cases probe with
  | sysExit nr ret =>
    intro hnr
    obtain ⟨c, hc, hcomm, hkept⟩ := hg hnr
    have hop := h.fcntl c hc (hkept hname) (by rw [hcomm, hname])
    simp [hc, isDup, hop]
  | ipFinishOutput2Exit ret =>
    obtain ⟨c, hc, hcomm, hkept⟩ := hg
    have htcp := h.packet c hc (hkept hname) (by rw [hcomm, hname])
    simp [Agrees, hc, htcp]
  | _ => trivial

/-- The exit of a system call. -/
theorem sysExit_deed {nr : Syscall} {ret : Int} (h : Agrees p th (.sysExit nr ret)) :
    (sysExit nr ret p).counts = (th.deed (.sysExit nr ret)).any Deed.counted ∧
      ((sysExit nr ret p).record p).counters =
        (th.deed (.sysExit nr ret)).elim p.counters p.counters.add := by
  rw [sysExit_eq]
  simp only [Thread.deed]
  by_cases hret : ret ≥ 0
  · rw [if_pos hret]
    cases hk : nr.kind with
    | fcntl =>
      simp only [Syscall.Kind.handler, Syscall.Kind.deed, fcntlExit, if_pos hret, h hk]
      split <;> exact ⟨rfl, rfl⟩
    | close =>
      simp only [Syscall.Kind.handler, Syscall.Kind.deed, closeFdExit, hret, true_and]
      by_cases hfd : p.usedFdCount > 0
      · simp [hfd, Effect.counts, Effect.record, Deed.counted, Counters.add, ProcInfo.counters]
      · simp [hfd, Effect.counts, Effect.record, Deed.counted, Counters.add, ProcInfo.counters]
    | openingNewFd =>
      rw [Syscall.Kind.handler, handleOpeningNewFd, if_pos hret]
      exact ⟨rfl, rfl⟩
    | writes =>
      rw [Syscall.Kind.handler, handleWrites, if_pos hret]
      exact ⟨rfl, rfl⟩
    | countingReadBytes =>
      rw [Syscall.Kind.handler, handleCountingReadBytes, if_pos hret]
      exact ⟨rfl, rfl⟩
    | spawningThreads =>
      rw [Syscall.Kind.handler, handleSpawningThreads, if_pos hret]
      exact ⟨rfl, rfl⟩
  · have hkeep : nr.kind.handler ret p = .keep := by
      cases nr.kind <;>
        simp [Syscall.Kind.handler, handleOpeningNewFd, fcntlExit, closeFdExit, handleWrites,
          handleCountingReadBytes, handleSpawningThreads, hret]
    rw [hkeep, if_neg hret]
    exact ⟨rfl, rfl⟩

/-- A handler counts exactly what the thread has done. -/
theorem handler_deed (h : Agrees p th probe) :
    (probe.handler p).counts = (th.deed probe).any Deed.counted ∧
      ((probe.handler p).record p).counters = (th.deed probe).elim p.counters p.counters.add := by
  cases probe with
  | sysExit nr ret => exact sysExit_deed h
  | fcntlEnter cmd => exact ⟨rfl, rfl⟩
  | libcRandExit => exact ⟨rfl, rfl⟩
  | ipFinishOutput2Entry protocol => cases protocol <;> exact ⟨rfl, rfl⟩
  | ipFinishOutput2Exit ret =>
    have h' : (th.packet.any fun c => decide (c.arg = some IPPROTO_TCP)) = p.isTcpPacket := h
    simp only [Probe.handler, ipFinishOutput2Exit, Thread.deed, h']
    by_cases hret : ret ≥ 0 <;> by_cases htcp : p.isTcpPacket = true <;>
      simp only [hret, htcp, if_true, if_false, and_self, false_and] <;> exact ⟨rfl, rfl⟩

/-- Only the entry of a call notes the call in the record. -/
theorem handler_calls (probe : Probe) (p : ProcInfo) :
    ((probe.handler p).record p).fcntlOp =
        (match probe with
          | .fcntlEnter cmd => cmd.toUInt32
          | _ => p.fcntlOp) ∧
      ((probe.handler p).record p).isTcpPacket =
        match probe with
        | .ipFinishOutput2Entry (some protocol) => decide (protocol = IPPROTO_TCP)
        | _ => p.isTcpPacket := by
  cases probe with
  | sysExit nr ret =>
    simp only [Probe.handler, sysExit_eq]
    cases nr.kind <;>
      simp only [Syscall.Kind.handler, handleOpeningNewFd, fcntlExit, closeFdExit, handleWrites,
        handleCountingReadBytes, handleSpawningThreads] <;>
      repeat' split
    all_goals exact ⟨rfl, rfl⟩
  | fcntlEnter cmd => exact ⟨rfl, rfl⟩
  | libcRandExit => exact ⟨rfl, rfl⟩
  | ipFinishOutput2Entry protocol => cases protocol <;> exact ⟨rfl, rfl⟩
  | ipFinishOutput2Exit ret =>
    simp only [Probe.handler, ipFinishOutput2Exit]
    repeat' split
    all_goals exact ⟨rfl, rfl⟩

/-- A record and the history of its thread. -/
structure Fits (p : ProcInfo) (th : Thread) : Prop where
  tracks : Tracks p.counters th.seen
  knows : Knows p th

theorem Thread.seen_after_untraced {comm : Comm} (hname : isOompPresent comm = false)
    (probe : Probe) : (th.after comm probe).seen = th.seen := by
  cases hd : th.deed probe <;> simp [Thread.seen, Thread.after, hd, hname]

theorem Thread.seen_after_traced {comm : Comm} (hname : isOompPresent comm = true)
    (probe : Probe) : (th.after comm probe).seen = th.seen ++ (th.deed probe).toList := by
  cases hd : th.deed probe <;> simp [Thread.seen, Thread.after, hd, hname]

/-- A thread without a record. -/
theorem fits_new (th : Thread) : Fits procInfoNew (th.settle false) := by
  refine ⟨tracks_new, ⟨fun c hc hkept => ?_, fun c hc hkept => ?_⟩⟩
  all_goals
    obtain ⟨c', -, rfl⟩ := Option.map_eq_some_iff.mp hc
    cases hkept

/-- A probe that is not traced. -/
theorem Fits.after_untraced (h : Fits p th) {comm : Comm} (hname : isOompPresent comm = false)
    (probe : Probe) : Fits p (th.after comm probe) := by
  refine ⟨?_, ⟨fun c hc hkept hoomp => ?_, fun c hc hkept hoomp => ?_⟩⟩
  · rw [Thread.seen_after_untraced hname]
    exact h.tracks
  · unfold Thread.after at hc
    dsimp only at hc
    split at hc
    · cases hc
      rw [hname] at hoomp
      cases hoomp
    · split at hc
      · cases hc
      · exact h.knows.fcntl c hc hkept hoomp
    · exact h.knows.fcntl c hc hkept hoomp
  · unfold Thread.after at hc
    dsimp only at hc
    split at hc
    · cases hc
      rw [hname] at hoomp
      cases hoomp
    · cases hc
    · exact h.knows.packet c hc hkept hoomp

theorem Tracks.elim {c : Counters} {ds : List Deed} (h : Tracks c ds) (d : Option Deed) :
    Tracks (d.elim c c.add) (ds ++ d.toList) := by
  cases d with
  | none => simpa using h
  | some d => exact h.add d

/-- A probe that is traced. -/
theorem Fits.after_traced (h : Fits p th) {comm : Comm} (hname : isOompPresent comm = true)
    (hagrees : Agrees p th probe)
    (hread : ∀ protocol, probe = .ipFinishOutput2Entry protocol → protocol.isSome) :
    Fits ((probe.handler p).record p) (th.after comm probe) := by
  obtain ⟨hop, htcp⟩ := handler_calls probe p
  refine ⟨?_, ⟨fun c hc hkept hoomp => ?_, fun c hc hkept hoomp => ?_⟩⟩
  · rw [(handler_deed hagrees).2, Thread.seen_after_traced hname]
    exact h.tracks.elim (th.deed probe)
  · rw [hop]
    unfold Thread.after at hc
    dsimp only at hc
    split at hc
    · cases hc
      rfl
    · split at hc
      · cases hc
      · exact h.knows.fcntl c hc hkept hoomp
    · next hne _ =>
      split
      · exact absurd rfl (hne _)
      · exact h.knows.fcntl c hc hkept hoomp
  · rw [htcp]
    unfold Thread.after at hc
    dsimp only at hc
    split at hc
    · next protocol =>
      obtain ⟨protocol, rfl⟩ := Option.isSome_iff_exists.mp (hread protocol rfl)
      cases hc
      simp
    · cases hc
    · next hne _ =>
      split
      · exact absurd rfl (hne _)
      · exact h.knows.packet c hc hkept hoomp

end

/-! ## Runs -/

section
variable {q : Killer × Threads} {l : Label} {k : PidTgid}

/-- It is enough to look at a thread that has a record. -/
theorem fits_settle {s : Killer} {th : Thread}
    (h : ∀ p, s.stateMap k = some p → Fits p th) :
    Fits (s.found k) (th.settle (s.stateMap k).isSome) := by
  unfold Killer.found
  cases hp : s.stateMap k with
  | none => exact fits_new th
  | some p => exact h p hp

theorem Fits.of_some {th : Thread} (h : Fits (q.1.found k) th) {p : ProcInfo}
    (hp : q.1.stateMap k = some p) : Fits p th := by
  rwa [Killer.found, hp] at h

/-- The readable header, from the assumption on the run. -/
theorem Paired.readable {t : Task} {miss : Bool} {probe : Probe}
    (h : Paired q (.fire t miss probe)) :
    ∀ protocol, probe = .ipFinishOutput2Entry protocol → protocol.isSome := by
  rintro protocol rfl
  exact h.2

/-- The thread on which a probe fires. -/
theorem Fits.fire {t : Task} {miss : Bool} {probe : Probe}
    (h : Fits (q.1.found t.pidTgid) (q.2 t.pidTgid)) (hg : Paired q (.fire t miss probe)) {p : ProcInfo}
    (hp : (q.1.fire t miss probe).1.stateMap t.pidTgid = some p) :
    Fits p ((q.2 t.pidTgid).after t.comm probe) := by
  rw [Killer.fire_eq] at hp
  cases hname : isOompPresent t.comm with
  | false =>
    rw [hname] at hp
    exact (h.of_some hp).after_untraced hname probe
  | true =>
    rw [hname, if_pos rfl] at hp
    split at hp
    · simp at hp
    · split at hp
      · simp at hp
      · obtain rfl : _ = p := by simpa using hp
        exact h.after_traced hname (h.knows.agrees hname hg) hg.readable

/-- A probe leaves the records of other threads alone. -/
theorem Killer.fire_ne (s : Killer) (t : Task) (miss : Bool) (probe : Probe)
    (hk : k ≠ t.pidTgid) : (s.fire t miss probe).1.stateMap k = s.stateMap k := by
  rw [Killer.fire_eq]
  split
  · split
    · exact Killer.delete_ne hk
    · split
      · exact Killer.delete_ne hk
      · exact Killer.set_ne hk
  · rfl

theorem Killer.delete_some {s : Killer} {k' : PidTgid} {p : ProcInfo}
    (h : (s.delete k').stateMap k = some p) : s.stateMap k = some p := by
  by_cases hk : k = k'
  · subst hk
    simp at h
  · rwa [Killer.delete_ne hk] at h

theorem fits_step (h : Fits (q.1.found k) (q.2 k)) (hg : PairedOn k q l) :
    Fits ((q.1.step l).found k) (noteLabel q.1 l q.2 k) := by
  refine fits_settle fun p hp => ?_
  cases l with
  | fire t miss probe =>
    dsimp only
    split
    · next hk =>
      subst hk
      exact h.fire (hg rfl) hp
    · next hk =>
      have hp' : (q.1.fire t miss probe).1.stateMap k = some p := hp
      rw [Killer.fire_ne _ _ _ _ hk] at hp'
      exact h.of_some hp'
  | exit t =>
    have hp' : (q.1.checkIfProcExited t).stateMap k = some p := hp
    rw [Killer.checkIfProcExited_eq] at hp'
    split at hp'
    · exact h.of_some (Killer.delete_some hp')
    · exact h.of_some hp'
  | evict k' => exact h.of_some (Killer.delete_some hp)
  | allow on => exact h.of_some hp

/-- The record of a thread whose calls are paired fits its history, whatever the other
threads do. -/
theorem history_invariant (h : history.ReachOn (PairedOn k) q) :
    Fits (q.1.found k) (q.2 k) := by
  refine Lts.invariantOn (M := history) (P := fun q => Fits (q.1.found k) (q.2 k))
    (fun q hi => ?_) (fun q l q' _ hp hg hs => ?_) h
  · have hnew : q.1.found k = procInfoNew := by rw [Killer.found, hi.1 k, Option.getD_none]
    rw [hnew, hi.2 k]
    exact ⟨tracks_new, ⟨by rintro c ⟨⟩, by rintro c ⟨⟩⟩⟩
  · cases hs
    exact fits_step hp hg

end

/-! ## Deeds under other names -/

section
variable {ds ds' : List Deed}

/-- More deeds, and a balance that is not lower. -/
theorem OverLimit.mono (hsub : ds.Sublist ds') (hbal : balance ds ≤ balance ds')
    (h : OverLimit ds) : OverLimit ds' := by
  have hcount := fun d => hsub.count_le d
  have hbytes : bytesRead ds ≤ bytesRead ds' := (hsub.map Deed.bytes).sum_le_sum (by simp)
  rcases h with h | h | h | h | h | h
  · exact .inl (h.trans (hcount _))
  · exact .inr (.inl (h.trans hbytes))
  · exact .inr (.inr (.inl (h.trans (hcount _))))
  · exact .inr (.inr (.inr (.inl (h.trans (hcount _)))))
  · exact .inr (.inr (.inr (.inr (.inl (h.trans (hcount _))))))
  · exact .inr (.inr (.inr (.inr (.inr (h.trans hbal)))))

end

/-- The OOM killer before the first event, with killing allowed or not. -/
def emptyKiller (allowed : Bool) : Killer × Threads :=
  (⟨fun _ => none, allowed⟩, fun _ => ⟨none, none, []⟩)

theorem emptyKiller_init (allowed : Bool) : history.init (emptyKiller allowed) :=
  ⟨fun _ => rfl, fun _ => rfl⟩

/-- The name `oomp`. -/
def oompComm : Comm := #v[111, 111, 109, 112, 0, 0, 0, 0, 0, 0, 0, 0, 0, 0, 0, 0]

/-- The thread of the examples. -/
def oompTask (pid : UInt32) : Task := ⟨⟨7, pid⟩, oompComm⟩

theorem oompComm_name : oompStr <:+: oompComm.name := ⟨[], [], rfl⟩

/-- The exit of a system call on that thread. -/
def oompExit (pid : UInt32) (nr : Syscall) (ret : Int) : Label :=
  .fire (oompTask pid) false (.sysExit nr ret)

end Zso.Oomk
