import Zso.Lib.BoundedMap
import Zso.Lib.Transition
import Zso.Oomk.Probes

/-!
# The memory switch

Killing is allowed while at least 1 GiB of memory is used. The program learns how much
is used from the calls of `si_meminfo` that other programs make: the entry probe notes
the address of the structure the call will fill, and the return probe looks it up and
reads the structure. The addresses are kept per process, the first one wins, and the
return deletes it.

Calls of several threads of one process may overlap and a return probe may be missed,
so an address can be looked up by the return of another call. `switch_measured` says
when it is not, and `switch_mispaired` is a return that reads a structure nobody has
filled.
-/

namespace Zso.Oomk
open Transition

def ONE_GB : UInt64 := 1024 * 1024 * 1024

/-- The fields of `struct sysinfo` that are read. -/
structure Sysinfo where
  totalram : UInt64
  freeram : UInt64
  memUnit : UInt32
  deriving DecidableEq

/-- The comparison of `check_ram_usage_exit`. -/
def Sysinfo.ramUsedOverLimit (info : Sysinfo) : Bool :=
  let freeRam := info.freeram * info.memUnit.toUInt64
  let totalRam := info.totalram * info.memUnit.toUInt64
  let ramUsed := totalRam - freeRam
  ramUsed ≥ ONE_GB

/-- In 64-bit words the order of the operations does not matter. -/
theorem Sysinfo.ramUsedOverLimit_eq (info : Sysinfo) : info.ramUsedOverLimit =
    decide ((info.totalram - info.freeram) * info.memUnit.toUInt64 ≥ ONE_GB) := by
  simp only [Sysinfo.ramUsedOverLimit, UInt64.sub_mul]

/-- A call of `si_meminfo` that has not returned. -/
structure Call where
  /-- the address of the structure -/
  ptr : UInt64
  /-- what the call has put there -/
  filled : Option Sysinfo
  deriving DecidableEq

/-- The map of addresses, the switch, the memory and the calls under way. -/
structure MemSwitch where
  sysinfoMap : BoundedMap 16 UInt32 UInt64
  isKillingAllowed : Bool
  mem : UInt64 → Sysinfo
  calls : PidTgid → Option Call

/-- The entry probe. -/
def MemSwitch.checkRamUsageEntry (s : MemSwitch) (pid : UInt32) (sysInfo : UInt64) : MemSwitch :=
  { s with sysinfoMap := s.sysinfoMap.insertNew pid sysInfo }

/-- The return probe. -/
def MemSwitch.checkRamUsageExit (s : MemSwitch) (pid : UInt32) : MemSwitch :=
  match s.sysinfoMap.lookup pid with
  | none => s
  | some sysInfoPtr =>
    { s with
      isKillingAllowed := (s.mem sysInfoPtr).ramUsedOverLimit
      sysinfoMap := s.sysinfoMap.erase pid }

inductive MemLabel
  /-- a call starts and its entry is probed -/
  | enter (thread : PidTgid) (ptr : UInt64)
  /-- the call fills its structure -/
  | fill (thread : PidTgid) (info : Sysinfo)
  /-- the call returns; its return is probed or missed -/
  | ret (thread : PidTgid) (probed : Bool)
  /-- memory changes -/
  | poke (ptr : UInt64) (info : Sysinfo)

def MemSwitch.setCall (s : MemSwitch) (thread : PidTgid) (c : Option Call) : MemSwitch :=
  { s with calls := Function.update s.calls thread c }

/-- A thread makes one call at a time, which returns after it has filled its structure. -/
def memNext (s : MemSwitch) : MemLabel → Option MemSwitch
  | .enter thread ptr =>
    match s.calls thread with
    | none => some ((s.checkRamUsageEntry thread.tgid ptr).setCall thread (some ⟨ptr, none⟩))
    | some _ => none
  | .fill thread info =>
    match s.calls thread with
    | none => none
    | some c =>
      some ({ s with mem := Function.update s.mem c.ptr info }.setCall thread
        (some { c with filled := some info }))
  | .ret thread probed =>
    match s.calls thread with
    | some ⟨_, some _⟩ =>
      some ((if probed then s.checkRamUsageExit thread.tgid else s).setCall thread none)
    | _ => none
  | .poke ptr info => some { s with mem := Function.update s.mem ptr info }

def memSwitch : Lts MemSwitch MemLabel where
  init s := s.sysinfoMap = .empty ∧ ∀ thread, s.calls thread = none
  next := memNext

/-- Every call has a structure of its own, and nobody else writes to one that is
filled. -/
def OwnStructures (s : MemSwitch) : MemLabel → Prop
  | .enter _ ptr => ∀ thread c, s.calls thread = some c → c.ptr ≠ ptr
  | .poke ptr _ => ∀ thread c, s.calls thread = some c → c.filled ≠ none → c.ptr ≠ ptr
  | _ => True

/-- A process enters `si_meminfo` when no other thread of it is there, and no address of
an earlier call was left. -/
def EntersAlone (s : MemSwitch) : MemLabel → Prop
  | .enter thread _ => s.sysinfoMap.lookup thread.tgid = none ∧
      ∀ thread', thread'.tgid = thread.tgid → s.calls thread' = none
  | _ => True

/-- The calls under way. -/
structure CallsOk (s : MemSwitch) : Prop where
  /-- what was filled in is still there -/
  mem : ∀ thread c info, s.calls thread = some c → c.filled = some info → s.mem c.ptr = info
  /-- the address that is noted is that of the call -/
  noted : ∀ thread c ptr, s.calls thread = some c →
    s.sysinfoMap.lookup thread.tgid = some ptr → ptr = c.ptr
  apart : ∀ thread thread' c c', s.calls thread = some c → s.calls thread' = some c' →
    c.ptr = c'.ptr → thread = thread'

section
variable {s s' : MemSwitch} {thread thread' : PidTgid} {c : Option Call} {c' : Call}

theorem MemSwitch.setCall_cases (h : (s.setCall thread c).calls thread' = some c') :
    thread' = thread ∧ c = some c' ∨ thread' ≠ thread ∧ s.calls thread' = some c' := by
  by_cases ht : thread' = thread
  · subst ht
    exact .inl ⟨rfl, by simpa [MemSwitch.setCall] using h⟩
  · exact .inr ⟨ht, by simpa [MemSwitch.setCall, ht] using h⟩

/-- A return deletes an address and sets the switch. -/
theorem MemSwitch.checkRamUsageExit_frame (s : MemSwitch) (pid : UInt32) :
    (s.checkRamUsageExit pid).calls = s.calls ∧ (s.checkRamUsageExit pid).mem = s.mem ∧
      ∀ pid' ptr, (s.checkRamUsageExit pid).sysinfoMap.lookup pid' = some ptr →
        s.sysinfoMap.lookup pid' = some ptr := by
  unfold MemSwitch.checkRamUsageExit
  split
  · exact ⟨rfl, rfl, fun _ _ h => h⟩
  · refine ⟨rfl, rfl, fun pid' ptr h => ?_⟩
    by_cases hp : pid' = pid
    · subst hp
      simp at h
    · rwa [BoundedMap.lookup_erase_ne hp] at h

theorem CallsOk.enter (h : CallsOk s) {ptr : UInt64} (hown : OwnStructures s (.enter thread ptr))
    (halone : EntersAlone s (.enter thread ptr)) :
    CallsOk ((s.checkRamUsageEntry thread.tgid ptr).setCall thread (some ⟨ptr, none⟩)) where
  mem thread' c' info hc hf := by
    rcases MemSwitch.setCall_cases hc with ⟨-, he⟩ | ⟨-, he⟩
    · cases he
      cases hf
    · exact h.mem thread' c' info he hf
  noted thread' c' ptr' hc hp := by
    rcases MemSwitch.setCall_cases hc with ⟨rfl, he⟩ | ⟨-, he⟩
    · cases he
      exact BoundedMap.lookup_insertNew_self halone.1 hp
    · have hne : thread'.tgid ≠ thread.tgid := fun ht => by
        cases (halone.2 thread' ht).symm.trans he
      refine h.noted thread' c' ptr' he ?_
      rwa [← BoundedMap.lookup_insertNew_ne hne]
  apart thread₁ thread₂ c₁ c₂ h₁ h₂ hp := by
    rcases MemSwitch.setCall_cases h₁ with ⟨rfl, e₁⟩ | ⟨-, e₁⟩ <;>
      rcases MemSwitch.setCall_cases h₂ with ⟨rfl, e₂⟩ | ⟨-, e₂⟩
    · rfl
    · cases e₁
      exact absurd hp.symm (hown thread₂ c₂ e₂)
    · cases e₂
      exact absurd hp (hown thread₁ c₁ e₁)
    · exact h.apart _ _ _ _ e₁ e₂ hp

theorem CallsOk.fill (h : CallsOk s) (hc : s.calls thread = some c') (info : Sysinfo) :
    CallsOk ({ s with mem := Function.update s.mem c'.ptr info }.setCall thread
      (some { c' with filled := some info })) where
  mem thread₁ c₁ info₁ h₁ hf := by
    rcases MemSwitch.setCall_cases h₁ with ⟨rfl, e₁⟩ | ⟨hne, e₁⟩
    · cases e₁
      cases hf
      exact Function.update_self ..
    · have hp : c₁.ptr ≠ c'.ptr := fun hp => hne (h.apart _ _ _ _ e₁ hc hp)
      exact (Function.update_of_ne hp _ _).trans (h.mem thread₁ c₁ info₁ e₁ hf)
  noted thread₁ c₁ ptr h₁ hp := by
    rcases MemSwitch.setCall_cases h₁ with ⟨rfl, e₁⟩ | ⟨-, e₁⟩
    · cases e₁
      exact h.noted thread₁ c' ptr hc hp
    · exact h.noted thread₁ c₁ ptr e₁ hp
  apart thread₁ thread₂ c₁ c₂ h₁ h₂ hp := by
    rcases MemSwitch.setCall_cases h₁ with ⟨rfl, e₁⟩ | ⟨-, e₁⟩ <;>
      rcases MemSwitch.setCall_cases h₂ with ⟨rfl, e₂⟩ | ⟨-, e₂⟩
    · rfl
    · cases e₁
      exact h.apart _ _ _ _ hc e₂ hp
    · cases e₂
      exact h.apart _ _ _ _ e₁ hc hp
    · exact h.apart _ _ _ _ e₁ e₂ hp

/-- Addresses may go and calls may end. -/
theorem CallsOk.anti (h : CallsOk s) (hmem : s'.mem = s.mem)
    (hcalls : ∀ thread c, s'.calls thread = some c → s.calls thread = some c)
    (hmap : ∀ pid ptr, s'.sysinfoMap.lookup pid = some ptr → s.sysinfoMap.lookup pid = some ptr) :
    CallsOk s' where
  mem thread c info hc hf := by
    rw [hmem]
    exact h.mem thread c info (hcalls _ _ hc) hf
  noted thread c ptr hc hp := h.noted thread c ptr (hcalls _ _ hc) (hmap _ _ hp)
  apart thread thread' c c' hc hc' := h.apart _ _ _ _ (hcalls _ _ hc) (hcalls _ _ hc')

theorem callsOk_step {l : MemLabel} (h : CallsOk s) (hown : OwnStructures s l)
    (halone : EntersAlone s l) (hs : memNext s l = some s') : CallsOk s' := by
  cases l with
  | enter thread ptr =>
    cases hc : s.calls thread with
    | none =>
      simp only [memNext, hc] at hs
      cases hs
      exact h.enter hown halone
    | some c => simp [memNext, hc] at hs
  | fill thread info =>
    cases hc : s.calls thread with
    | none => simp [memNext, hc] at hs
    | some c =>
      simp only [memNext, hc] at hs
      cases hs
      exact h.fill hc info
  | ret thread probed =>
    simp only [memNext] at hs
    split at hs
    · cases hs
      obtain ⟨hcalls, hmem, hmap⟩ := s.checkRamUsageExit_frame thread.tgid
      have hend : ∀ {t : MemSwitch} thread' c', (t.setCall thread none).calls thread' = some c' →
          t.calls thread' = some c' := fun thread' c' hc =>
        (MemSwitch.setCall_cases hc).elim (fun h => by cases h.2) fun h => h.2
      cases probed with
      | false => exact h.anti rfl hend fun _ _ => id
      | true => exact h.anti hmem (fun thread' c' hc => hcalls ▸ hend thread' c' hc) hmap
    · cases hs
  | poke ptr info =>
    cases hs
    refine ⟨fun thread c info' hc hf => ?_, h.noted, h.apart⟩
    have hp : c.ptr ≠ ptr := hown thread c hc (by simp [hf])
    exact (Function.update_of_ne hp _ _).trans (h.mem thread c info' hc hf)

end

/-- If no process enters `si_meminfo` while another thread of it is there or an address
of an earlier call was left, and every call has a structure of its own, then a return that
sets the switch sets it by what its own call has measured. -/
theorem switch_measured {s s' : MemSwitch}
    (h : memSwitch.ReachOn (fun s l => OwnStructures s l ∧ EntersAlone s l) s) {thread : PidTgid}
    (hs : memNext s (.ret thread true) = some s')
    (hset : s.sysinfoMap.lookup thread.tgid ≠ none) :
    ∃ c info, s.calls thread = some c ∧ c.filled = some info ∧ s'.isKillingAllowed =
      decide ((info.totalram - info.freeram) * info.memUnit.toUInt64 ≥ ONE_GB) := by
  have hok : CallsOk s := by
    refine Lts.invariantOn (M := memSwitch) (fun s hi => ?_)
      (fun s l s' _ hp hg hs => callsOk_step hp hg.1 hg.2 hs) h
    have hnone := hi.2
    constructor <;> simp [hnone]
  obtain ⟨ptr, hp⟩ := Option.ne_none_iff_exists'.mp hset
  simp only [memNext] at hs
  split at hs
  · next ptr' info hc =>
    cases hs
    obtain rfl : ptr = ptr' := hok.noted thread _ ptr hc hp
    refine ⟨_, info, hc, rfl, ?_⟩
    rw [← Sysinfo.ramUsedOverLimit_eq, ← hok.mem thread _ info hc rfl]
    simp [MemSwitch.checkRamUsageExit, hp, MemSwitch.setCall]
  · cases hs

/-- A machine with 4 GiB of memory, `free` of it free. -/
def fourGiB (free : UInt64) : Sysinfo := ⟨4 * ONE_GB, free, 1⟩

/-- Before the first call. What is in memory looks like 4 GiB in use. -/
def emptySwitch : MemSwitch := ⟨.empty, false, fun _ => fourGiB 0, fun _ => none⟩

theorem emptySwitch_reach (G : MemSwitch → MemLabel → Prop) : memSwitch.ReachOn G emptySwitch :=
  .init ⟨rfl, fun _ => rfl⟩

/-- The first call has its structure for itself. -/
theorem emptySwitch_enter (thread : PidTgid) (ptr : UInt64) :
    OwnStructures emptySwitch (.enter thread ptr) ∧ EntersAlone emptySwitch (.enter thread ptr) :=
  ⟨by rintro _ _ ⟨⟩, BoundedMap.lookup_empty, fun _ _ => rfl⟩

/-- A call returns with 2 GiB in use. -/
theorem switch_measured_call :
    ∃ s s' : MemSwitch, memSwitch.ReachOn (fun s l => OwnStructures s l ∧ EntersAlone s l) s ∧
      memNext s (.ret ⟨7, 7⟩ true) = some s' ∧ s'.isKillingAllowed = true := by
  let enter : MemLabel := .enter ⟨7, 7⟩ 4096
  let fill : MemLabel := .fill ⟨7, 7⟩ (fourGiB (2 * ONE_GB))
  let s₁ := (memNext emptySwitch enter).get (by decide +kernel)
  let s₂ := (memNext s₁ fill).get (by decide +kernel)
  let s' := (memNext s₂ (.ret ⟨7, 7⟩ true)).get (by decide +kernel)
  have h₁ : memSwitch.ReachOn (fun s l => OwnStructures s l ∧ EntersAlone s l) s₁ :=
    (emptySwitch_reach _).step (emptySwitch_enter ⟨7, 7⟩ 4096) (Option.some_get _).symm
  have h₂ : memSwitch.ReachOn (fun s l => OwnStructures s l ∧ EntersAlone s l) s₂ :=
    h₁.step (l := fill) ⟨trivial, trivial⟩ (Option.some_get _).symm
  have hs : memNext s₂ (.ret ⟨7, 7⟩ true) = some s' := (Option.some_get _).symm
  obtain ⟨c, info, hc, hf, hswitch⟩ := switch_measured h₂ hs (by decide +kernel)
  have hcall : s₂.calls ⟨7, 7⟩ = some ⟨4096, some (fourGiB (2 * ONE_GB))⟩ := by decide +kernel
  cases hcall.symm.trans hc
  cases hf
  exact ⟨s₂, s', h₂, hs, hswitch.trans (by decide)⟩

/-- Two threads of a process are in `si_meminfo`. The second one to enter is the first to
return. It has measured that nothing is in use, but it reads what the other one has not
filled in yet, and killing is allowed. -/
theorem switch_mispaired :
    ∃ s s' : MemSwitch, memSwitch.ReachOn OwnStructures s ∧
      memNext s (.ret ⟨7, 8⟩ true) = some s' ∧
      s.calls ⟨7, 8⟩ = some ⟨8192, some (fourGiB (4 * ONE_GB))⟩ ∧
      s.calls ⟨7, 7⟩ = some ⟨4096, none⟩ ∧ s'.isKillingAllowed = true := by
  let enter₁ : MemLabel := .enter ⟨7, 7⟩ 4096
  let enter₂ : MemLabel := .enter ⟨7, 8⟩ 8192
  let fill : MemLabel := .fill ⟨7, 8⟩ (fourGiB (4 * ONE_GB))
  let s₁ := (memNext emptySwitch enter₁).get (by decide +kernel)
  let s₂ := (memNext s₁ enter₂).get (by decide +kernel)
  let s₃ := (memNext s₂ fill).get (by decide +kernel)
  let s' := (memNext s₃ (.ret ⟨7, 8⟩ true)).get (by decide +kernel)
  have h₁ : memSwitch.ReachOn OwnStructures s₁ :=
    (emptySwitch_reach _).step (emptySwitch_enter ⟨7, 7⟩ 4096).1 (Option.some_get _).symm
  have hown : OwnStructures s₁ enter₂ := by
    intro thread c hc
    rcases MemSwitch.setCall_cases hc with ⟨-, he⟩ | ⟨-, he⟩
    · cases he
      decide
    · cases he
  have h₃ : memSwitch.ReachOn OwnStructures s₃ :=
    (h₁.step hown (Option.some_get _).symm).step (l := fill) trivial (Option.some_get _).symm
  exact ⟨s₃, s', h₃, (Option.some_get _).symm, by decide +kernel, by decide +kernel,
    by decide +kernel⟩

end Zso.Oomk
