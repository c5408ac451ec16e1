import Zso.Lib.Histories
import Zso.Oomk.Deeds

/-!
# Descriptors

`used_fd_count` is meant to be the number of descriptors that a thread has obtained and
not closed yet.

* `fd_count_exact`: along a history of one thread the count is exact if and only if no
  `pipe2` succeeds, which obtains two descriptors and is counted once
  (`fd_count_pipe`).
* `fcntl_counts_dups`: the exit of an `fcntl` call counts a descriptor only if the call
  asked for a duplicate, as long as its command is still in the record. A record that was
  created in between reads as `F_DUPFD` (`fcntl_counts_other`).
-/

namespace Zso.Oomk
open Transition Histories

/-! ## Histories of one thread -/

/-- The calls that return the descriptor they obtain, `fcntl` apart. -/
inductive Opener
  | openat | creat | dup | socket
  deriving DecidableEq

def Opener.nr : Opener → Syscall
  | .openat => .openat
  | .creat => .creat
  | .dup => .dup
  | .socket => .socket

/-- A call with its return value. `pipe2` delivers its two descriptors in memory. -/
inductive FdCall
  | opening (opener : Opener) (ret : Int)
  | pipe2 (fds : Int × Int) (ret : Int)
  | fcntl (cmd : UInt64) (ret : Int)
  | close (fd : Int) (ret : Int)

/-- The probes of a call that is traced. -/
def FdCall.probes : FdCall → List Probe
  | .opening opener ret => [.sysExit opener.nr ret]
  | .pipe2 _ ret => [.sysExit .pipe2 ret]
  | .fcntl cmd ret => [.fcntlEnter cmd, .sysExit .fcntl ret]
  | .close _ ret => [.sysExit .close ret]

/-- The descriptors that are open after a call. -/
def FdCall.live (fds : List Int) : FdCall → List Int
  | .opening _ ret => if 0 ≤ ret then ret :: fds else fds
  | .pipe2 new ret => if 0 ≤ ret then new.1 :: new.2 :: fds else fds
  | .fcntl _ ret => if 0 ≤ ret then ret :: fds else fds
  | .close fd ret => if 0 ≤ ret then fds.erase fd else fds

/-- The descriptors obtained by the calls and not yet closed. -/
def liveFds (calls : List FdCall) : List Int := calls.foldl FdCall.live []

/-- A descriptor the kernel can hand out: an `int` that is not in use. -/
structure NewFd (fds : List Int) (fd : Int) : Prop where
  nonneg : 0 ≤ fd
  lt : fd < 2 ^ 31
  unused : fd ∉ fds

/-- A call of a history, when the descriptors `fds` are open: `fcntl` duplicates, and a
`close` that succeeds closes one of them. -/
def FdCall.Valid (fds : List Int) : FdCall → Prop
  | .opening _ ret => 0 ≤ ret → NewFd fds ret
  | .pipe2 new ret => 0 ≤ ret → NewFd fds new.2 ∧ NewFd (new.2 :: fds) new.1
  | .fcntl cmd ret => isDup cmd = true ∧ (0 ≤ ret → NewFd fds ret)
  | .close fd ret => 0 ≤ ret → fd ∈ fds

def ValidHistory (calls : List FdCall) : Prop := AtEach (fun pre c => c.Valid (liveFds pre)) calls

/-- The probes fire on the thread `t`, which keeps its record. -/
def Killer.afterProbes (s : Killer) (t : Task) (probes : List Probe) : Killer :=
  probes.foldl (fun s probe => s.step (.fire t false probe)) s

def Killer.afterCalls (s : Killer) (t : Task) (calls : List FdCall) : Killer :=
  s.afterProbes t (calls.flatMap FdCall.probes)

/-- `used_fd_count` of the thread. -/
def Killer.usedFds (s : Killer) (t : Task) : UInt32 := (s.found t.pidTgid).usedFdCount

section
variable {s : Killer} {t : Task}

/-- A probe that is traced, while killing is disabled. -/
theorem Killer.step_traced (hname : isOompPresent t.comm = true)
    (hoff : s.isKillingAllowed = false) (probe : Probe) :
    s.step (.fire t false probe) = s.set t.pidTgid
      ((probe.handler (s.found t.pidTgid)).record (s.found t.pidTgid)) := by
  show (s.fire t false probe).1 = _
  rw [Killer.fire_eq, if_pos hname, if_neg (by simp), if_neg (by simp [Killer.shouldKill, hoff])]

@[simp] theorem Killer.found_set (p : ProcInfo) : (s.set t.pidTgid p).found t.pidTgid = p := by
  simp [Killer.found]

theorem Killer.afterProbes_append (s : Killer) (t : Task) (ps qs : List Probe) :
    s.afterProbes t (ps ++ qs) = (s.afterProbes t ps).afterProbes t qs :=
  List.foldl_append

theorem Killer.afterProbes_off (hname : isOompPresent t.comm = true)
    (hoff : s.isKillingAllowed = false) (probes : List Probe) :
    (s.afterProbes t probes).isKillingAllowed = false := by
  induction probes generalizing s with
  | nil => exact hoff
  | cons probe probes ih =>
    refine ih ?_
    show (s.step (.fire t false probe)).isKillingAllowed = false
    rw [step_traced hname hoff]
    exact hoff

/-- The record after one more probe. -/
theorem Killer.afterProbes_concat (hname : isOompPresent t.comm = true)
    (hoff : s.isKillingAllowed = false) (probes : List Probe) (probe : Probe) :
    (s.afterProbes t (probes ++ [probe])).found t.pidTgid =
      (probe.handler ((s.afterProbes t probes).found t.pidTgid)).record
        ((s.afterProbes t probes).found t.pidTgid) := by
  rw [afterProbes_append]
  show ((s.afterProbes t probes).step (.fire t false probe)).found t.pidTgid = _
  rw [step_traced hname (afterProbes_off hname hoff probes), found_set]

/-- What a call makes of `used_fd_count`. -/
def FdCall.counted (count : UInt32) : FdCall → UInt32
  | .opening _ ret => if 0 ≤ ret then count + 1 else count
  | .pipe2 _ ret => if 0 ≤ ret then count + 1 else count
  | .fcntl _ ret => if 0 ≤ ret then count + 1 else count
  | .close _ ret => if 0 ≤ ret ∧ count > 0 then count - 1 else count

theorem handleOpeningNewFd_count (ret : Int) (p : ProcInfo) :
    ((handleOpeningNewFd ret p).record p).usedFdCount =
      if 0 ≤ ret then p.usedFdCount + 1 else p.usedFdCount := by
  unfold handleOpeningNewFd
  split <;> rfl

/-- The command that `fcntl_exit` looks at is the one `fcntl_enter` has stored. -/
theorem fcntlExit_count {cmd : UInt64} (hdup : isDup cmd = true) (ret : Int) (p : ProcInfo) :
    ((fcntlExit ret { p with fcntlOp := cmd.toUInt32 }).record
        { p with fcntlOp := cmd.toUInt32 }).usedFdCount =
      if 0 ≤ ret then p.usedFdCount + 1 else p.usedFdCount := by
  have hop : cmd.toUInt32 = F_DUPFD ∨ cmd.toUInt32 = F_DUPFD_CLOEXEC := by
    simpa [isDup] using hdup
  simp only [fcntlExit, if_pos hop]
  split <;> rfl

theorem closeFdExit_count (ret : Int) (p : ProcInfo) :
    ((closeFdExit ret p).record p).usedFdCount =
      if 0 ≤ ret ∧ p.usedFdCount > 0 then p.usedFdCount - 1 else p.usedFdCount := by
  unfold closeFdExit
  split <;> rfl

/-- After each call the count is what the call makes of it. -/
theorem Killer.afterCalls_concat (hname : isOompPresent t.comm = true)
    (hoff : s.isKillingAllowed = false) {pre : List FdCall} {c : FdCall}
    (hc : c.Valid (liveFds pre)) :
    (s.afterCalls t (pre ++ [c])).usedFds t = c.counted ((s.afterCalls t pre).usedFds t) := by
  simp only [Killer.usedFds, Killer.afterCalls, List.flatMap_append, List.flatMap_singleton]
  cases c with
  | opening opener ret =>
    have hnr : sysExit opener.nr = handleOpeningNewFd := by cases opener <;> rfl
    rw [FdCall.probes, afterProbes_concat hname hoff, Probe.handler, hnr]
    exact handleOpeningNewFd_count ret _
  | pipe2 new ret =>
    rw [FdCall.probes, afterProbes_concat hname hoff]
    exact handleOpeningNewFd_count ret _
  | fcntl cmd ret =>
    rw [FdCall.probes, List.append_cons, afterProbes_concat hname hoff,
      afterProbes_concat hname hoff]
    exact fcntlExit_count hc.1 ret _
  | close fd ret =>
    rw [FdCall.probes, afterProbes_concat hname hoff]
    exact closeFdExit_count ret _

end

/-! ## The open descriptors -/

/-- Open descriptors are different `int`s. -/
structure FdsOk (fds : List Int) : Prop where
  nodup : fds.Nodup
  range : ∀ fd ∈ fds, 0 ≤ fd ∧ fd < 2 ^ 31

theorem FdsOk.length_le {fds : List Int} (h : FdsOk fds) : fds.length ≤ 2 ^ 31 := by
  have hsub : fds.toFinset ⊆ Finset.Ico (0 : Int) (2 ^ 31) := fun fd hfd => by
    simpa using h.range fd (List.mem_toFinset.mp hfd)
  have hcard := Finset.card_le_card hsub
  rwa [List.toFinset_card_of_nodup h.nodup, Int.card_Ico] at hcard

theorem FdsOk.cons {fds : List Int} (h : FdsOk fds) {fd : Int} (hnew : NewFd fds fd) :
    FdsOk (fd :: fds) where
  nodup := List.nodup_cons.mpr ⟨hnew.unused, h.nodup⟩
  range fd' hfd' := by
    rcases List.mem_cons.mp hfd' with rfl | hfd'
    · exact ⟨hnew.nonneg, hnew.lt⟩
    · exact h.range fd' hfd'

theorem FdsOk.call {fds : List Int} (h : FdsOk fds) {c : FdCall} (hc : c.Valid fds) :
    FdsOk (c.live fds) := by
  cases c with
  | opening opener ret =>
    rw [FdCall.live]
    split
    · next hret => exact h.cons (hc hret)
    · exact h
  | pipe2 new ret =>
    rw [FdCall.live]
    split
    · next hret => exact (h.cons (hc hret).1).cons (hc hret).2
    · exact h
  | fcntl cmd ret =>
    rw [FdCall.live]
    split
    · next hret => exact h.cons (hc.2 hret)
    · exact h
  | close fd ret =>
    rw [FdCall.live]
    split
    · exact ⟨h.nodup.erase fd, fun fd' hfd' => h.range fd' (List.mem_of_mem_erase hfd')⟩
    · exact h

theorem liveFds_concat (pre : List FdCall) (c : FdCall) :
    liveFds (pre ++ [c]) = c.live (liveFds pre) := by
  simp [liveFds]

theorem ValidHistory.fdsOk {calls : List FdCall} (h : ValidHistory calls) :
    ∀ {pre : List FdCall}, pre <+: calls → FdsOk (liveFds pre) := by
  refine AtEach.prefixes (Q := fun pre => FdsOk (liveFds pre)) h ⟨List.nodup_nil, by rintro _ ⟨⟩⟩
    fun pre c _ hc ih => ?_
  rw [liveFds_concat]
  exact ih.call hc

/-- Every call but `pipe2` keeps the count exact. -/
theorem FdCall.counted_live {fds : List Int} (hfds : FdsOk fds) {c : FdCall} (hc : c.Valid fds)
    (hpipe : ∀ new ret, c = .pipe2 new ret → ret < 0) {count : UInt32}
    (hcount : count.toNat = fds.length) : (c.counted count).toNat = (c.live fds).length := by
  have hle := hfds.length_le
  have hadd : (count + 1).toNat = fds.length + 1 := by
    rw [UInt32.toNat_add, hcount]
    exact Nat.mod_eq_of_lt (by simp; omega)
  cases c with
  | opening opener ret => simp only [counted, live]; split <;> simp [hadd, hcount]
  | fcntl cmd ret => simp only [counted, live]; split <;> simp [hadd, hcount]
  | pipe2 new ret =>
    have hret := hpipe new ret rfl
    simp [counted, live, not_le.mpr hret, hcount]
  | close fd ret =>
    by_cases hret : 0 ≤ ret
    · have hmem : fd ∈ fds := hc hret
      have hpos : count > 0 := by
        have := List.length_pos_of_mem hmem
        rw [gt_iff_lt, UInt32.lt_iff_toNat_lt, hcount]
        simpa using this
      rw [counted, live, if_pos ⟨hret, hpos⟩, if_pos hret, List.length_erase_of_mem hmem,
        toNat_sub_one hpos, hcount]
    · simp [counted, live, hret, hcount]

/-! ## The count along a history -/

/-- Along a history of a thread that has no record at the start, `used_fd_count` is always
the number of descriptors obtained and not yet closed if and only if every `pipe2` of the
history fails. -/
theorem fd_count_exact {s : Killer} {t : Task} (hname : isOompPresent t.comm = true)
    (hoff : s.isKillingAllowed = false) (hnew : s.stateMap t.pidTgid = none)
    {calls : List FdCall} (hvalid : ValidHistory calls) :
    (∀ pre, pre <+: calls →
      ((s.afterCalls t pre).usedFds t).toNat = (liveFds pre).length) ↔
    ∀ new ret, .pipe2 new ret ∈ calls → ret < 0 := by
  constructor
  · intro hexact new ret hmem
    by_contra hret
    obtain ⟨pre, post, rfl⟩ := List.append_of_mem hmem
    have hpre : pre ++ [.pipe2 new ret] <+: pre ++ .pipe2 new ret :: post := ⟨post, by simp⟩
    have hbefore : pre <+: pre ++ .pipe2 new ret :: post := List.prefix_append _ _
    have hafter := hexact _ hpre
    have hcount := hexact _ hbefore
    have hle := (hvalid.fdsOk hbefore).length_le
    rw [Killer.afterCalls_concat hname hoff (hvalid _ _ hpre), liveFds_concat, FdCall.counted,
      FdCall.live, if_pos (not_lt.mp hret), if_pos (not_lt.mp hret), UInt32.toNat_add,
      hcount] at hafter
    simp at hafter
    omega
  · intro hpipe pre
    refine AtEach.prefixes
      (Q := fun pre => ((s.afterCalls t pre).usedFds t).toNat = (liveFds pre).length)
      hvalid ?_ fun pre c hpre hc ih => ?_
    · simp [Killer.afterCalls, Killer.afterProbes, Killer.usedFds, Killer.found, hnew, liveFds,
        procInfoNew]
    · rw [Killer.afterCalls_concat hname hoff hc, liveFds_concat]
      refine FdCall.counted_live (hvalid.fdsOk ((List.prefix_append _ _).trans hpre)) hc ?_ ih
      rintro new ret rfl
      exact hpipe new ret (hpre.subset (by simp))

/-- A thread opens a file, fails to get a pipe and closes the file. -/
theorem fd_count_exact_file :
    let calls := [.opening .openat 3, .pipe2 (0, 0) (-24), .close 3 0]
    ValidHistory calls ∧ ∀ pre, pre <+: calls →
      (((emptyKiller false).1.afterCalls (oompTask 7) pre).usedFds (oompTask 7)).toNat =
        (liveFds pre).length := by
  have hvalid : ValidHistory [.opening .openat 3, .pipe2 (0, 0) (-24), .close 3 0] := by
    have hopen : FdCall.Valid [] (.opening .openat 3) :=
      fun _ => ⟨by decide, by decide, by decide⟩
    have hpipe : FdCall.Valid [3] (.pipe2 (0, 0) (-24)) := fun h => absurd h (by decide)
    have hclose : FdCall.Valid [3] (.close 3 0) := fun _ => List.mem_singleton_self 3
    simpa [ValidHistory, liveFds, FdCall.live] using And.intro hopen (And.intro hpipe hclose)
  refine ⟨hvalid, (fd_count_exact rfl rfl rfl hvalid).mpr fun new ret h => ?_⟩
  obtain ⟨-, rfl⟩ : new = (0, 0) ∧ ret = -24 := by simpa using h
  decide

/-- A pipe has two descriptors and is counted as one. -/
theorem fd_count_pipe :
    ValidHistory [.pipe2 (3, 4) 0] ∧ (liveFds [.pipe2 (3, 4) 0]).length = 2 ∧
      (((emptyKiller false).1.afterCalls (oompTask 7) [.pipe2 (3, 4) 0]).usedFds
        (oompTask 7)).toNat = 1 := by
  have hpipe : FdCall.Valid [] (.pipe2 (3, 4) 0) := fun _ =>
    ⟨⟨by decide, by decide, by decide⟩, ⟨by decide, by decide, by decide⟩⟩
  exact ⟨by simpa [ValidHistory, liveFds] using hpipe, rfl, by decide +kernel⟩

/-! ## The command of `fcntl` -/

/-- An `fcntl` call that is under way. -/
structure FcntlCall where
  cmd : UInt64
  /-- `fcntl_enter` has seen the call -/
  seen : Bool
  /-- the record that `fcntl_enter` has written to is still there -/
  kept : Bool

abbrev FcntlCalls := PidTgid → Option FcntlCall

/-- What happens to the system: the enter and exit of a call may also go unseen. -/
inductive FcntlEvent
  | act (l : Label)
  | enterUnseen (k : PidTgid) (cmd : UInt64)
  | exitUnseen (k : PidTgid)

/-- A thread is in one call at a time. -/
def FcntlCalls.allows (g : FcntlCalls) : Label → Bool
  | .fire t _ (.fcntlEnter _) => (g t.pidTgid).isNone
  | .fire t _ (.sysExit .fcntl _) => (g t.pidTgid).isSome
  | _ => true

/-- The call of a thread after a label. A thread that exits takes its call with it. -/
def FcntlCalls.note (g : FcntlCalls) : Label → FcntlCalls
  | .fire t miss (.fcntlEnter cmd) =>
    let seen := isOompPresent t.comm && !miss
    Function.update g t.pidTgid (some ⟨cmd, seen, seen⟩)
  | .fire t _ (.sysExit .fcntl _) => Function.update g t.pidTgid none
  | .exit t => Function.update g t.pidTgid none
  | _ => g

/-- A call loses the record of its thread. -/
def FcntlCalls.settle (g : FcntlCalls) (s : Killer) : FcntlCalls := fun k =>
  (g k).map fun c => { c with kept := c.kept && (s.stateMap k).isSome }

/-- The OOM killer with the `fcntl` calls under way. -/
def fcntls : Lts (Killer × FcntlCalls) FcntlEvent where
  init q := (∀ k, q.1.stateMap k = none) ∧ ∀ k, q.2 k = none
  next q e := match e with
    | .act l =>
      if q.2.allows l then some (q.1.step l, (q.2.note l).settle (q.1.step l)) else none
    | .enterUnseen k cmd =>
      if (q.2 k).isNone then some (q.1, Function.update q.2 k (some ⟨cmd, false, false⟩)) else none
    | .exitUnseen k => if (q.2 k).isSome then some (q.1, Function.update q.2 k none) else none

/-- The handler of the probe increments `used_fd_count`. -/
def Killer.Increments (s : Killer) (t : Task) (miss : Bool) (probe : Probe) : Prop :=
  isOompPresent t.comm = true ∧ miss = false ∧
    ((probe.handler (s.found t.pidTgid)).record (s.found t.pidTgid)).usedFdCount =
      (s.found t.pidTgid).usedFdCount + 1

/-- The record of a call that was seen holds its command. -/
def CallsStored (q : Killer × FcntlCalls) : Prop :=
  ∀ k c, q.2 k = some c → c.kept = true →
    c.seen = true ∧ ∃ p, q.1.stateMap k = some p ∧ p.fcntlOp = c.cmd.toUInt32

section
variable {q : Killer × FcntlCalls} {t : Task} {miss : Bool} {probe : Probe}

/-- The record that a probe leaves. -/
theorem Killer.fire_some {s : Killer} {p : ProcInfo}
    (hp : (s.fire t miss probe).1.stateMap t.pidTgid = some p) :
    s.stateMap t.pidTgid = some p ∧ isOompPresent t.comm = false ∨
      p = (probe.handler (s.found t.pidTgid)).record (s.found t.pidTgid) := by
  rw [Killer.fire_eq] at hp
  cases hname : isOompPresent t.comm with
  | false =>
    rw [hname] at hp
    exact .inl ⟨hp, rfl⟩
  | true =>
    rw [hname, if_pos rfl] at hp
    split at hp
    · simp at hp
    · split at hp
      · simp at hp
      · exact .inr (by simpa using hp.symm)

/-- A thread whose record is there, and that is not in `fcntl`. -/
theorem CallsStored.fire (h : CallsStored q) {c : FcntlCall} {p : ProcInfo}
    (hc : q.2.note (.fire t miss probe) t.pidTgid = some c) (hkept : c.kept = true)
    (hp : (q.1.fire t miss probe).1.stateMap t.pidTgid = some p) :
    c.seen = true ∧ p.fcntlOp = c.cmd.toUInt32 := by
  have hother (hop : ((probe.handler (q.1.found t.pidTgid)).record (q.1.found t.pidTgid)).fcntlOp =
      (q.1.found t.pidTgid).fcntlOp) (hc : q.2 t.pidTgid = some c) :
      c.seen = true ∧ p.fcntlOp = c.cmd.toUInt32 := by
    obtain ⟨hseen, p', hp', hcmd⟩ := h _ c hc hkept
    refine ⟨hseen, ?_⟩
    rcases Killer.fire_some hp with ⟨hp, -⟩ | rfl
    · obtain rfl := Option.some.inj (hp.symm.trans hp')
      exact hcmd
    · rw [hop, Killer.found, hp', Option.getD_some, hcmd]
  have hop := (handler_calls probe (q.1.found t.pidTgid)).1
  cases probe with
  | fcntlEnter cmd =>
    obtain rfl : _ = c := Option.some.inj (by simpa [FcntlCalls.note] using hc)
    refine ⟨hkept, ?_⟩
    rcases Killer.fire_some hp with ⟨-, hname⟩ | rfl
    · simp [hname] at hkept
    · exact hop
  | sysExit nr ret =>
    by_cases hnr : nr = .fcntl
    · subst hnr
      simp [FcntlCalls.note] at hc
    · refine hother hop ?_
      cases nr <;> first | exact hc | exact absurd rfl hnr
  | libcRandExit => exact hother hop hc
  | ipFinishOutput2Entry protocol => exact hother hop hc
  | ipFinishOutput2Exit ret => exact hother hop hc

/-- A label does not touch the calls of the threads it is not about. -/
theorem FcntlCalls.note_other {g : FcntlCalls} {k : PidTgid} {l : Label} {c : FcntlCall}
    (hk : ∀ t miss probe, l = .fire t miss probe → k ≠ t.pidTgid) (hc : g.note l k = some c) :
    g k = some c := by
  cases l with
  | fire t miss probe =>
    have hne := hk t miss probe rfl
    cases probe with
    | fcntlEnter cmd => simpa [FcntlCalls.note, hne] using hc
    | sysExit nr ret => cases nr <;> simpa [FcntlCalls.note, hne] using hc
    | _ => exact hc
  | exit t =>
    by_cases hne : k = t.pidTgid
    · simp [FcntlCalls.note, hne] at hc
    · simpa [FcntlCalls.note, hne] using hc
  | evict k' => exact hc
  | allow on => exact hc

theorem Killer.step_other {s : Killer} {k : PidTgid} {l : Label} {p : ProcInfo}
    (hk : ∀ t miss probe, l = .fire t miss probe → k ≠ t.pidTgid)
    (hp : (s.step l).stateMap k = some p) : s.stateMap k = some p := by
  cases l with
  | fire t miss probe =>
    have hp' : (s.fire t miss probe).1.stateMap k = some p := hp
    rwa [Killer.fire_ne _ _ _ _ (hk t miss probe rfl)] at hp'
  | exit t =>
    have hp' : (s.checkIfProcExited t).stateMap k = some p := hp
    rw [Killer.checkIfProcExited_eq] at hp'
    split at hp'
    · exact Killer.delete_some hp'
    · exact hp'
  | evict k' => exact Killer.delete_some hp
  | allow on => exact hp

/-- The step of the invariant. -/
theorem CallsStored.act (h : CallsStored q) (l : Label) :
    CallsStored (q.1.step l, (q.2.note l).settle (q.1.step l)) := by
  intro k c hc hkept
  obtain ⟨c', hc', rfl⟩ := Option.map_eq_some_iff.mp hc
  simp only [Bool.and_eq_true] at hkept
  obtain ⟨p, hp⟩ := Option.isSome_iff_exists.mp hkept.2
  by_cases hk : ∃ t miss probe, l = .fire t miss probe ∧ k = t.pidTgid
  · obtain ⟨t, miss, probe, rfl, rfl⟩ := hk
    obtain ⟨hseen, hop⟩ := h.fire hc' hkept.1 hp
    exact ⟨hseen, p, hp, hop⟩
  · have hk' : ∀ t miss probe, l = .fire t miss probe → k ≠ t.pidTgid :=
      fun t miss probe hl hkt => hk ⟨t, miss, probe, hl, hkt⟩
    obtain ⟨hseen, p', hp', hop⟩ := h k c' (FcntlCalls.note_other hk' hc') hkept.1
    obtain rfl := Option.some.inj (hp'.symm.trans (Killer.step_other hk' hp))
    exact ⟨hseen, p', hp, hop⟩

theorem callsStored (h : fcntls.Reach q) : CallsStored q := by
  refine Lts.invariant (M := fcntls) (fun q hi k c hc => ?_) (fun q e q' _ hq hs => ?_) h
  · rw [hi.2 k] at hc
    cases hc
  · cases e with
    | act l =>
      obtain ⟨-, rfl⟩ := Option.ite_none_right_eq_some.mp hs |>.imp_right Option.some.inj
      exact hq.act l
    | enterUnseen k cmd =>
      obtain ⟨-, rfl⟩ := Option.ite_none_right_eq_some.mp hs |>.imp_right Option.some.inj
      intro k' c hc hkept
      by_cases hk : k' = k
      · subst hk
        obtain rfl : _ = c := Option.some.inj (by simpa using hc)
        cases hkept
      · exact hq k' c (by simpa [hk] using hc) hkept
    | exitUnseen k =>
      obtain ⟨-, rfl⟩ := Option.ite_none_right_eq_some.mp hs |>.imp_right Option.some.inj
      intro k' c hc hkept
      by_cases hk : k' = k
      · simp [hk] at hc
      · exact hq k' c (by simpa [hk] using hc) hkept

end

/-- `fcntl_exit` looks at the command in the record. -/
theorem fcntlExit_increments {s : Killer} {t : Task} {miss : Bool} {ret : Int}
    (h : s.Increments t miss (.sysExit .fcntl ret)) :
    (s.found t.pidTgid).fcntlOp = F_DUPFD ∨ (s.found t.pidTgid).fcntlOp = F_DUPFD_CLOEXEC := by
  have hcount : ((fcntlExit ret (s.found t.pidTgid)).record (s.found t.pidTgid)).usedFdCount =
      (s.found t.pidTgid).usedFdCount + 1 := h.2.2
  unfold fcntlExit at hcount
  split at hcount
  · split at hcount
    · next hop => exact hop
    · simp [Effect.record] at hcount
  · simp [Effect.record] at hcount

/-- At the end of a call whose record has been kept, a descriptor is counted only if the
call is a duplication that `fcntl_enter` has seen. -/
theorem fcntl_counts_dups {q : Killer × FcntlCalls} (h : fcntls.Reach q) {t : Task} {miss : Bool}
    {ret : Int} {c : FcntlCall} (hc : q.2 t.pidTgid = some c) (hkept : c.kept = true)
    (hinc : q.1.Increments t miss (.sysExit .fcntl ret)) :
    c.seen = true ∧ isDup c.cmd = true := by
  obtain ⟨hseen, p, hp, hop⟩ := callsStored h _ c hc hkept
  have hdup := fcntlExit_increments hinc
  rw [Killer.found, hp, Option.getD_some, hop] at hdup
  exact ⟨hseen, by simpa [isDup] using hdup⟩

/-- Before the first event. -/
def noCalls : Killer × FcntlCalls := (⟨fun _ => none, false⟩, fun _ => none)

theorem noCalls_init : fcntls.init noCalls := ⟨fun _ => rfl, fun _ => rfl⟩

/-- The enter of `fcntl` on the thread of the examples. -/
def oompFcntl (pid : UInt32) (cmd : UInt64) : FcntlEvent :=
  .act (.fire (oompTask pid) false (.fcntlEnter cmd))

/-- A descriptor is duplicated with `F_DUPFD_CLOEXEC`. -/
theorem fcntl_counts_dups_cloexec :
    ∃ q : Killer × FcntlCalls, fcntls.Reach q ∧ ∃ c : FcntlCall, q.2 ⟨7, 7⟩ = some c ∧
      c.kept = true ∧ q.1.Increments (oompTask 7) false (.sysExit .fcntl 5) ∧
      c.seen = true ∧ isDup c.cmd = true := by
  let q := (fcntls.exec noCalls [oompFcntl 7 1030]).get (by decide +kernel)
  have hq : fcntls.Reach q := Lts.reach_exec (.init noCalls_init) (Option.some_get _).symm
  have hc : q.2 (oompTask 7).pidTgid = some ⟨1030, true, true⟩ := rfl
  have hinc : q.1.Increments (oompTask 7) false (.sysExit .fcntl 5) :=
    ⟨rfl, rfl, by decide +kernel⟩
  exact ⟨q, hq, _, hc, rfl, hinc, fcntl_counts_dups hq hc rfl hinc⟩

/-- The record of a thread in `fcntl(F_GETFL)` is evicted. The exit creates a new one,
whose command is that of `F_DUPFD`, and counts a descriptor. -/
theorem fcntl_counts_other :
    ∃ q : Killer × FcntlCalls, fcntls.exec noCalls [oompFcntl 7 3, .act (.evict ⟨7, 7⟩)] = some q ∧
      q.1.Increments (oompTask 7) false (.sysExit .fcntl 0) ∧
      ∃ c, q.2 ⟨7, 7⟩ = some c ∧ c.seen = true ∧ isDup c.cmd = false := by
  let q := (fcntls.exec noCalls [oompFcntl 7 3, .act (.evict ⟨7, 7⟩)]).get (by decide +kernel)
  exact ⟨q, (Option.some_get _).symm, ⟨rfl, rfl, by decide +kernel⟩, ⟨3, true, false⟩, rfl, rfl,
    by decide⟩

end Zso.Oomk
