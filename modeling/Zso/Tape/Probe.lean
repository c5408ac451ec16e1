import Zso.Lib.Ledger
import Zso.Tape.Command

/-!
# Probe and remove

What `tapedev_probe` acquires, what its error paths release, and what `tapedev_remove` releases.
The calls into the kernel that can fail are oracles. A label of a clean-up cascade is the list of
the releases from the label on.

* `createSections_spec`: `create_sections` releases everything if it fails, at whichever section.
* `addSectionDisks_spec`: `add_section_disks` does not.
* `probeDevice_spec`: no error path after `request_irq` releases the interrupt line.
* `run_tapedevRemove`: `tapedev_remove` leaves the DMA buffers and the tag sets.
* `probe_remove_balanced`: everything is released if and only if the probe fails with `request_irq`
  or earlier.
-/

namespace Zso.Tape
open Ledgers

def ENOSPC : Int := 28
def ENODEV : Int := 19
def EINTR : Int := 4

def MAX_DEVICES_TAPEDEV : Nat := 256

/-- The error code of a call into the kernel. -/
structure Errno where
  code : Int
  neg : code < 0

/-- What a section consists of. -/
inductive SectionItem
  | struct
  | dmaBuf
  | tagSet
  | disk
  | addedDisk
  | sysfsGroup
deriving DecidableEq, Repr

/-- What `tapedev_probe` acquires. -/
inductive ProbeItem
  | device
  | slot (i : Nat)
  | enabled
  | regions
  | bar
  | irq
  | sectionArray
  | sec (i : Nat) (x : SectionItem)
deriving DecidableEq, Repr

/-- The outcomes of the calls made for one section. -/
structure SectionCalls where
  kzalloc : Bool
  /-- the bus address of the buffer -/
  dmaAlloc : Option Nat
  allocTagSet : Option Errno
  allocDisk : Option Errno
  addDisk : Option Errno
  sysfsCreateGroup : Option Errno

/-- The outcomes of the calls made for the device. -/
structure ProbeCalls where
  kzalloc : Bool
  /-- the entries of `tapedev_devices` that are in use -/
  used : Nat → Bool
  enableDevice : Option Errno
  setDmaMask : Option Errno
  requestRegions : Option Errno
  iomap : Bool
  requestIrq : Option Errno
  /-- a signal ends the wait for the initialisation -/
  interrupted : Bool
  initDone : Int
  status : Int
  /-- SECTIONS register -/
  numSections : Nat
  allocSections : Bool
  sections : Nat → SectionCalls

/-- The effects of a function on the ledger, and its return value. -/
abbrev Effects := List (Op ProbeItem) × Int

/-! ## `create_section` -/

def freeAllocS (i : Nat) : List (Op ProbeItem) := [.release (.sec i .struct)]

def freeDmaAlloc (i : Nat) : List (Op ProbeItem) := .release (.sec i .dmaBuf) :: freeAllocS i

def freeTagSet (i : Nat) : List (Op ProbeItem) := .release (.sec i .tagSet) :: freeDmaAlloc i

def createSection (i : Nat) (c : SectionCalls) : Effects :=
  if c.kzalloc = false then ([], -ENOMEM)
  else
    let ops : List (Op ProbeItem) := [.acquire (.sec i .struct)]
    match c.dmaAlloc with
    | none => (ops ++ freeAllocS i, -ENOMEM)
    | some dmaAddr =>
      let ops : List (Op ProbeItem) := ops ++ [.acquire (.sec i .dmaBuf)]
      if dmaAddr % 512 ≠ 0 then (ops ++ freeDmaAlloc i, -EINVAL)
      else
        match c.allocTagSet with
        | some e => (ops ++ freeDmaAlloc i, e.code)
        | none =>
          let ops : List (Op ProbeItem) := ops ++ [.acquire (.sec i .tagSet)]
          match c.allocDisk with
          | some e => (ops ++ freeTagSet i, e.code)
          | none => (ops ++ [.acquire (.sec i .disk)], 0)

/-- What is released for a section that `create_section` has completed. -/
def freeSection (i : Nat) : List (Op ProbeItem) :=
  [.release (.sec i .tagSet), .release (.sec i .dmaBuf), .release (.sec i .disk),
   .release (.sec i .struct)]

/-- The loop of `create_sections` from `sId` on, with `n` sections to come. -/
def createSectionsFrom (calls : Nat → SectionCalls) (sId : Nat) : Nat → Effects
  | 0 => ([], 0)
  | n + 1 =>
    let r := createSection sId (calls sId)
    if r.2 < 0 then (r.1 ++ (List.range sId).flatMap freeSection, r.2)
    else
      let r' := createSectionsFrom calls (sId + 1) n
      (r.1 ++ r'.1, r'.2)

/-- `create_sections` -/
def createSections (calls : Nat → SectionCalls) (numSections : Nat) : Effects :=
  createSectionsFrom calls 0 numSections

/-! ## `add_section_disks` -/

/-- `add_disk` and `sysfs_create_group`; the second is called in any case. -/
def addSectionDisk (i : Nat) (c : SectionCalls) : List (Op ProbeItem) :=
  (if c.addDisk.isNone then [.acquire (.sec i .addedDisk)] else []) ++
    if c.sysfsCreateGroup.isNone then [.acquire (.sec i .sysfsGroup)] else []

/-- The clean-up after a failure at `sId`. -/
def dropSections (numSections sId : Nat) : List (Op ProbeItem) :=
  (List.range numSections).flatMap fun i =>
    (if i < sId then [.release (.sec i .addedDisk)] else []) ++ freeSection i

/-- The loop of `add_section_disks` from `sId` on, with `n` sections to come. -/
def addSectionDisksFrom (calls : Nat → SectionCalls) (numSections sId : Nat) : Nat → Effects
  | 0 => ([], 0)
  | n + 1 =>
    let ops : List (Op ProbeItem) := addSectionDisk sId (calls sId)
    match (calls sId).addDisk, (calls sId).sysfsCreateGroup with
    | some e, _ => (ops ++ dropSections numSections sId, e.code)
    | none, some e => (ops ++ dropSections numSections sId, e.code)
    | none, none =>
      let r := addSectionDisksFrom calls numSections (sId + 1) n
      (ops ++ r.1, r.2)

def addSectionDisks (calls : Nat → SectionCalls) (numSections : Nat) : Effects :=
  addSectionDisksFrom calls numSections 0 numSections

/-! ## `tapedev_probe` -/

/-- The first free entry of `tapedev_devices`. -/
def freeSlot (used : Nat → Bool) : Option Nat :=
  (List.range MAX_DEVICES_TAPEDEV).find? fun i => !used i

def deallocTapedev : List (Op ProbeItem) := [.release .device]

def outPciEnable (slot : Nat) : List (Op ProbeItem) := .release (.slot slot) :: deallocTapedev

/-- also `out_dma_mask` -/
def outRegions (slot : Nat) : List (Op ProbeItem) := .release .enabled :: outPciEnable slot

def outBar (slot : Nat) : List (Op ProbeItem) := .release .regions :: outRegions slot

/-- also `sections_alloc_fail`, `init_fail` and `out_bad_num_sec`, which stop the device first -/
def outIrq (slot : Nat) : List (Op ProbeItem) := .release .bar :: outBar slot

def freeSections (slot : Nat) : List (Op ProbeItem) := .release .sectionArray :: outIrq slot

/-- `tapedev_probe` from the allocation of `sections` on. -/
def probeSections (c : ProbeCalls) (slot : Nat) : Effects :=
  let r := createSections c.sections c.numSections
  let ops : List (Op ProbeItem) := .acquire .sectionArray :: r.1
  if r.2 ≠ 0 then (ops ++ freeSections slot, r.2)
  -- `err` is still 0 if an address is not aligned
  else if ∃ i < c.numSections, (c.sections i).dmaAlloc.getD 0 % 512 ≠ 0 then
    (ops ++ freeSections slot, 0)
  else
    let r := addSectionDisks c.sections c.numSections
    if r.2 ≠ 0 then (ops ++ r.1 ++ freeSections slot, r.2) else (ops ++ r.1, 0)

/-- `tapedev_probe` from `request_irq` on. -/
def probeDevice (c : ProbeCalls) (slot : Nat) : Effects :=
  if c.interrupted then (outIrq slot, -EINTR)
  else if c.initDone < 0 then (outIrq slot, -ENODEV)
  else if c.status < 0 then (outIrq slot, - EIO)
  else if c.numSections = 0 ∨ c.numSections > 8 then (outIrq slot, -EINVAL)
  else if c.allocSections = false then (outIrq slot, -ENOMEM)
  else probeSections c slot

def tapedevProbe (c : ProbeCalls) : Effects :=
  if c.kzalloc = false then ([], -ENOMEM)
  else
    let ops : List (Op ProbeItem) := [.acquire .device]
    match freeSlot c.used with
    | none => (ops ++ deallocTapedev, -ENOSPC)
    | some slot =>
      let ops : List (Op ProbeItem) := ops ++ [.acquire (.slot slot)]
      match c.enableDevice with
      | some e => (ops ++ outPciEnable slot, e.code)
      | none =>
        let ops : List (Op ProbeItem) := ops ++ [.acquire .enabled]
        match c.setDmaMask with
        | some e => (ops ++ outRegions slot, e.code)
        | none =>
          match c.requestRegions with
          | some e => (ops ++ outRegions slot, e.code)
          | none =>
            let ops : List (Op ProbeItem) := ops ++ [.acquire .regions]
            if c.iomap = false then (ops ++ outBar slot, -ENOMEM)
            else
              let ops : List (Op ProbeItem) := ops ++ [.acquire .bar]
              match c.requestIrq with
              | some e => (ops ++ outIrq slot, e.code)
              | none =>
                let r := probeDevice c slot
                (ops ++ [.acquire .irq] ++ r.1, r.2)

/-- What `tapedev_remove` releases for a section. -/
def removeSection (i : Nat) : List (Op ProbeItem) :=
  [.release (.sec i .sysfsGroup), .release (.sec i .addedDisk), .release (.sec i .disk),
   .release (.sec i .struct)]

/-- `tapedev_remove`, with `n_sections` and `idx` of the device. -/
def tapedevRemove (nSections idx : Nat) : List (Op ProbeItem) :=
  .release .irq :: ((List.range nSections).flatMap removeSection ++
    [.release .sectionArray, .release .bar, .release .enabled, .release .regions,
     .release (.slot idx), .release .device])

/-! ## Items of many sections -/

/-- The items `xs` of the sections below `n`. -/
def below (n : Nat) (xs : List SectionItem) : List ProbeItem :=
  (List.range n).flatMap fun i => xs.map (.sec i)

section
variable {n : Nat} {xs ys : List SectionItem}

@[simp] theorem below_zero : below 0 xs = [] := rfl

theorem below_succ : below (n + 1) xs = below n xs ++ xs.map (.sec n) := by
  simp [below, List.range_succ]

theorem below_length : (below n xs).length = n * xs.length := by
  simp [below]

theorem below_perm (h : xs.Perm ys) : (below n xs).Perm (below n ys) :=
  .flatMap_left _ fun i _ => h.map (ProbeItem.sec i)

/-- Items of two kinds, each kind for itself. -/
theorem below_append (n : Nat) (xs ys : List SectionItem) :
    (below n (xs ++ ys) : Multiset ProbeItem) = ↑(below n xs) + ↑(below n ys) := by
  rw [Multiset.coe_add, Multiset.coe_eq_coe]
  simpa only [below, List.map_append] using (List.flatMap_append_perm _ _ _).symm

theorem below_release (f : Nat → List (Op ProbeItem)) (h : ∀ i, f i = (xs.map (.sec i)).map .release) :
    (List.range n).flatMap f = (below n xs).map .release := by
  rw [below, List.map_flatMap]
  exact List.flatMap_congr fun i _ => h i

end

/-! ## `create_sections` takes everything back -/

/-- What a section has after `create_section`. -/
def created : List SectionItem := [.struct, .dmaBuf, .tagSet, .disk]

/-- The same in the order in which it is released. -/
def freed : List SectionItem := [.tagSet, .dmaBuf, .disk, .struct]

theorem freeSection_below (n : Nat) :
    (List.range n).flatMap freeSection = (below n freed).map .release :=
  below_release freeSection fun _ => rfl

theorem below_freed (n : Nat) : (below n freed : Multiset ProbeItem) = ↑(below n created) :=
  Multiset.coe_eq_coe.mpr (below_perm (by decide))

/-- A section that cannot be created leaves nothing behind. -/
theorem createSection_cases (i : Nat) (c : SectionCalls) :
    ((createSection i c).2 < 0 ∧ ∀ L : Ledger ProbeItem, L.run (createSection i c).1 = L) ∨
    (createSection i c = ((created.map (.sec i)).map .acquire, 0) ∧ c.dmaAlloc.getD 0 % 512 = 0) := by
  unfold createSection
  split
  · exact .inl ⟨(by decide : -ENOMEM < 0), fun L => rfl⟩
  · dsimp only
    split
    · exact .inl ⟨(by decide : -ENOMEM < 0), fun L => L.run_reverse [.sec i .struct]⟩
    · next dmaAddr hdma =>
      split
      · exact .inl ⟨(by decide : -EINVAL < 0), fun L => L.run_reverse [.sec i .struct, .sec i .dmaBuf]⟩
      · next haligned =>
        split
        · next e he => exact .inl ⟨e.neg, fun L => L.run_reverse [.sec i .struct, .sec i .dmaBuf]⟩
        · split
          · next e he =>
            exact .inl ⟨e.neg, fun L => L.run_reverse [.sec i .struct, .sec i .dmaBuf, .sec i .tagSet]⟩
          · exact .inr ⟨rfl, by simpa [hdma] using haligned⟩

theorem createSectionsFrom_spec (calls : Nat → SectionCalls) {sId : Nat} (n : Nat)
    {L : Ledger ProbeItem} {base : Multiset ProbeItem} (hL : L.live = ↑(below sId created) + base) :
    ((createSectionsFrom calls sId n).2 < 0 ∧
      L.run (createSectionsFrom calls sId n).1 = ⟨base, L.sound⟩) ∨
    ((createSectionsFrom calls sId n).2 = 0 ∧
      L.run (createSectionsFrom calls sId n).1 = ⟨↑(below (sId + n) created) + base, L.sound⟩ ∧
      ∀ i, sId ≤ i → i < sId + n → (calls i).dmaAlloc.getD 0 % 512 = 0) := by
  induction n generalizing sId L with
  | zero =>
    refine .inr ⟨rfl, ?_, fun i h1 h2 => by omega⟩
    rw [Nat.add_zero, ← hL]
    rfl
  | succ n ih =>
    unfold createSectionsFrom
    dsimp only
    rcases createSection_cases sId (calls sId) with ⟨hneg, hrun⟩ | ⟨hok, haligned⟩
    · left
      rw [if_pos hneg]
      refine ⟨hneg, ?_⟩
      rw [Ledger.run_append, hrun, freeSection_below]
      exact Ledger.run_release (by rw [hL, below_freed])
    · rw [hok, if_neg (lt_irrefl 0), Ledger.run_append, Ledger.run_acquire]
      have hnext : (⟨↑(created.map (ProbeItem.sec sId)) + L.live, L.sound⟩ : Ledger ProbeItem).live =
          ↑(below (sId + 1) created) + base := by
        rw [hL, below_succ, ← Multiset.coe_add]
        exact add_left_comm _ _ _ |>.trans (add_assoc _ _ _).symm
      rcases ih hnext with ⟨hneg, hrun⟩ | ⟨hzero, hrun, hrest⟩
      · exact .inl ⟨hneg, hrun⟩
      · refine .inr ⟨hzero, by rw [hrun, Nat.add_right_comm, Nat.add_assoc], fun i h1 h2 => ?_⟩
        rcases Nat.eq_or_lt_of_le h1 with rfl | h1
        · exact haligned
        · exact hrest i h1 (by omega)

/-- `create_sections` creates all sections, with aligned buffers, or leaves the ledger as it was. -/
theorem createSections_spec (calls : Nat → SectionCalls) (n : Nat) (L : Ledger ProbeItem) :
    ((createSections calls n).2 < 0 ∧ L.run (createSections calls n).1 = L) ∨
    ((createSections calls n).2 = 0 ∧
      L.run (createSections calls n).1 = ⟨↑(below n created) + L.live, L.sound⟩ ∧
      ∀ i < n, (calls i).dmaAlloc.getD 0 % 512 = 0) := by
  have hL : L.live = ↑(below 0 created) + L.live := by simp
  rcases createSectionsFrom_spec calls n hL with ⟨hneg, hrun⟩ | ⟨hzero, hrun, hal⟩
  · exact .inl ⟨hneg, hrun⟩
  · rw [Nat.zero_add] at hrun
    exact .inr ⟨hzero, hrun, fun i hi => hal i (Nat.zero_le _) (by omega)⟩

/-! ## `add_section_disks` does not -/

/-- What `add_section_disks` adds to a section. -/
def shown : List SectionItem := [.addedDisk, .sysfsGroup]

theorem dropSections_eq {n sId : Nat} (h : sId ≤ n) :
    ∃ l : List ProbeItem, dropSections n sId = l.map .release ∧
      (l : Multiset ProbeItem) = ↑(below sId [.addedDisk]) + ↑(below n created) := by
  let added : Nat → List ProbeItem := fun i => if i < sId then [.sec i .addedDisk] else []
  refine ⟨(List.range n).flatMap fun i => added i ++ freed.map (.sec i), ?_, ?_⟩
  · rw [dropSections, List.map_flatMap]
    refine List.flatMap_congr fun i _ => ?_
    by_cases hi : i < sId <;> simp [added, hi, freed, freeSection]
  · have hadded : (List.range n).flatMap added = below sId [.addedDisk] := by
      obtain ⟨k, rfl⟩ := Nat.exists_eq_add_of_le h
      rw [List.range_add, List.flatMap_append, below]
      have hlast : ((List.range k).map fun i => sId + i).flatMap added = [] := by
        simp [added]
      rw [hlast, List.append_nil]
      exact List.flatMap_congr fun i hi => by simp [added, List.mem_range.mp hi]
    rw [← below_freed, ← hadded, Multiset.coe_add]
    exact Multiset.coe_eq_coe.mpr (List.flatMap_append_perm _ _ _).symm

theorem addSectionDisksFrom_spec (calls : Nat → SectionCalls) {numSections sId n : Nat}
    (hn : sId + n = numSections) {L : Ledger ProbeItem} {base : Multiset ProbeItem}
    (hL : L.live = ↑(below numSections created) + ↑(below sId shown) + base) :
    ((addSectionDisksFrom calls numSections sId n).2 < 0 ∧
      ∃ lost, L.run (addSectionDisksFrom calls numSections sId n).1 = ⟨lost + base, L.sound⟩) ∨
    ((addSectionDisksFrom calls numSections sId n).2 = 0 ∧
      L.run (addSectionDisksFrom calls numSections sId n).1 =
        ⟨↑(below numSections created) + ↑(below numSections shown) + base, L.sound⟩) := by
  induction n generalizing sId L with
  | zero =>
    obtain rfl : sId = numSections := hn
    exact .inr ⟨rfl, by rw [← hL]; rfl⟩
  | succ n ih =>
    -- a failure at `sId`, whichever of the two calls it is
    have hfails : ∃ lost, L.run (addSectionDisk sId (calls sId) ++ dropSections numSections sId) =
        ⟨lost + base, L.sound⟩ := by
      obtain ⟨l, hl, hitems⟩ := dropSections_eq (show sId ≤ numSections by omega)
      obtain ⟨l', hl'⟩ : ∃ l' : List ProbeItem, addSectionDisk sId (calls sId) = l'.map .acquire := by
        refine ⟨(if (calls sId).addDisk.isNone then [.sec sId .addedDisk] else []) ++
          if (calls sId).sysfsCreateGroup.isNone then [.sec sId .sysfsGroup] else [], ?_⟩
        rw [addSectionDisk, List.map_append]
        split <;> split <;> rfl
      have hshown : (below sId shown : Multiset ProbeItem) =
          ↑(below sId [.addedDisk]) + ↑(below sId [.sysfsGroup]) :=
        below_append sId [.addedDisk] [.sysfsGroup]
      refine ⟨↑l' + ↑(below sId [.sysfsGroup]), ?_⟩
      rw [hl, hl', Ledger.run_append, Ledger.run_acquire]
      refine Ledger.run_release ?_
      rw [hL, hitems, hshown]
      dsimp only
      abel
    unfold addSectionDisksFrom
    dsimp only
    cases hadd : (calls sId).addDisk with
    | some e => exact .inl ⟨e.neg, hfails⟩
    | none =>
      cases hgroup : (calls sId).sysfsCreateGroup with
      | some e => exact .inl ⟨e.neg, hfails⟩
      | none =>
        have hops : addSectionDisk sId (calls sId) = (shown.map (ProbeItem.sec sId)).map .acquire := by
          simp [addSectionDisk, hadd, hgroup, shown]
        have hnext : (⟨↑(shown.map (ProbeItem.sec sId)) + L.live, L.sound⟩ : Ledger ProbeItem).live =
            ↑(below numSections created) + ↑(below (sId + 1) shown) + base := by
          rw [hL, below_succ, ← Multiset.coe_add]
          dsimp only
          abel
        rw [hops, Ledger.run_append, Ledger.run_acquire]
        exact ih (by omega) hnext

theorem addSectionDisks_spec (calls : Nat → SectionCalls) {n : Nat} {L : Ledger ProbeItem}
    {base : Multiset ProbeItem} (hL : L.live = ↑(below n created) + base) :
    ((addSectionDisks calls n).2 < 0 ∧
      ∃ lost, L.run (addSectionDisks calls n).1 = ⟨lost + base, L.sound⟩) ∨
    ((addSectionDisks calls n).2 = 0 ∧
      L.run (addSectionDisks calls n).1 =
        ⟨↑(below n created) + ↑(below n shown) + base, L.sound⟩) :=
  addSectionDisksFrom_spec calls (Nat.zero_add n) (by simpa using hL)

/-! ## `tapedev_probe` -/

/-- What is held once `request_irq` has succeeded. -/
def heldItems (slot : Nat) : List ProbeItem :=
  [.device, .slot slot, .enabled, .regions, .bar, .irq]

/-- What a successful probe has acquired. -/
def probedItems (n slot : Nat) : List ProbeItem :=
  below n created ++ below n shown ++ .sectionArray :: heldItems slot

/-- One of the steps up to `request_irq` fails. -/
def ProbeCalls.FailsEarly (c : ProbeCalls) : Prop :=
  c.kzalloc = false ∨ freeSlot c.used = none ∨ c.enableDevice.isSome ∨ c.setDmaMask.isSome ∨
    c.requestRegions.isSome ∨ c.iomap = false ∨ c.requestIrq.isSome

/-- The cascade from `out_irq` on leaves the interrupt line. -/
theorem run_outIrq {slot : Nat} {L : Ledger ProbeItem} {base : Multiset ProbeItem}
    (hL : L.live = ↑(heldItems slot) + base) : L.run (outIrq slot) = ⟨.irq ::ₘ base, L.sound⟩ := by
  let l : List ProbeItem := [.bar, .regions, .enabled, .slot slot, .device]
  have hperm : (heldItems slot : Multiset ProbeItem) = ↑(l ++ [ProbeItem.irq]) :=
    Multiset.coe_eq_coe.mpr ((List.reverse_perm l).append_right _)
  have hlive : L.live = ↑l + .irq ::ₘ base := by
    rw [hL, hperm, ← Multiset.coe_add, add_assoc, Multiset.coe_singleton, Multiset.singleton_add]
  exact Ledger.run_release hlive

theorem run_freeSections {slot : Nat} {L : Ledger ProbeItem} {base : Multiset ProbeItem}
    (hL : L.live = ↑(ProbeItem.sectionArray :: heldItems slot) + base) :
    L.run (freeSections slot) = ⟨.irq ::ₘ base, L.sound⟩ := by
  have hfree : L.apply (.release .sectionArray) = ⟨↑(heldItems slot) + base, L.sound⟩ := by
    simp [Ledger.apply, hL, ← Multiset.cons_coe]
  rw [freeSections, Ledger.run_cons, hfree]
  exact run_outIrq rfl

/-- The probe fails and loses the interrupt line at least, or it has acquired everything. -/
def LateOutcome (n slot : Nat) (r : Effects) (L : Ledger ProbeItem) (base : Multiset ProbeItem) :
    Prop :=
  (r.2 < 0 ∧ ∃ lost, L.run r.1 = ⟨lost + .irq ::ₘ base, L.sound⟩) ∨
    (r.2 = 0 ∧ 0 < n ∧ L.run r.1 = ⟨↑(probedItems n slot) + base, L.sound⟩)

section
variable (c : ProbeCalls) {slot : Nat} {L : Ledger ProbeItem} {base : Multiset ProbeItem}

theorem probeSections_spec (hL : L.live = ↑(heldItems slot) + base) (hn : 0 < c.numSections) :
    LateOutcome c.numSections slot (probeSections c slot) L base := by
  have harray : L.apply (.acquire .sectionArray) =
      ⟨↑(ProbeItem.sectionArray :: heldItems slot) + base, L.sound⟩ := by
    rw [Ledger.apply, hL, ← Multiset.cons_coe, Multiset.cons_add]
  unfold probeSections
  dsimp only
  rcases createSections_spec c.sections c.numSections (L.apply (.acquire .sectionArray)) with
    ⟨hneg, hrun⟩ | ⟨hzero, hrun, haligned⟩
  · rw [if_pos (ne_of_lt hneg)]
    refine .inl ⟨hneg, 0, ?_⟩
    rw [List.cons_append, Ledger.run_cons, Ledger.run_append, hrun, harray, zero_add]
    exact run_freeSections rfl
  · rw [if_neg (not_not.mpr hzero), if_neg (by
      rintro ⟨i, hi, h⟩
      exact h (haligned i hi))]
    rw [harray] at hrun
    rcases addSectionDisks_spec c.sections (congrArg Ledger.live hrun) with
      ⟨hneg, lost, hadd⟩ | ⟨hzero', hadd⟩
    · rw [if_pos (ne_of_lt hneg)]
      refine .inl ⟨hneg, lost, ?_⟩
      rw [List.append_assoc, List.cons_append, Ledger.run_cons, harray, Ledger.run_append,
        Ledger.run_append, hadd, hrun, Multiset.add_cons]
      exact run_freeSections (add_left_comm _ _ _)
    · rw [if_neg (not_not.mpr hzero')]
      refine .inr ⟨rfl, hn, ?_⟩
      rw [List.cons_append, Ledger.run_cons, harray, Ledger.run_append, hadd, hrun, probedItems,
        ← Multiset.coe_add, ← Multiset.coe_add]
      simp only [add_assoc]

theorem probeDevice_spec (hL : L.live = ↑(heldItems slot) + base) :
    LateOutcome c.numSections slot (probeDevice c slot) L base := by
  have hstop : ∀ e : Int, e < 0 → LateOutcome c.numSections slot (outIrq slot, e) L base :=
    fun e he => .inl ⟨he, 0, by rw [run_outIrq hL, zero_add]⟩
  unfold probeDevice
  by_cases hint : c.interrupted = true
  · rw [if_pos hint]
    exact hstop _ (by decide)
  by_cases hinit : c.initDone < 0
  · rw [if_neg hint, if_pos hinit]
    exact hstop _ (by decide)
  by_cases hstatus : c.status < 0
  · rw [if_neg hint, if_neg hinit, if_pos hstatus]
    exact hstop _ (by decide)
  by_cases hnum : c.numSections = 0 ∨ c.numSections > 8
  · rw [if_neg hint, if_neg hinit, if_neg hstatus, if_pos hnum]
    exact hstop _ (by decide)
  by_cases halloc : c.allocSections = false
  · rw [if_neg hint, if_neg hinit, if_neg hstatus, if_neg hnum, if_pos halloc]
    exact hstop _ (by decide)
  rw [if_neg hint, if_neg hinit, if_neg hstatus, if_neg hnum, if_neg halloc]
  exact probeSections_spec c hL (by omega)

end

/-- The probe fails with `request_irq` or before and releases everything, or it holds what it has
acquired by then and goes on. -/
theorem tapedevProbe_cases (c : ProbeCalls) :
    (c.FailsEarly ∧ (tapedevProbe c).2 < 0 ∧
      ∀ L : Ledger ProbeItem, L.run (tapedevProbe c).1 = L) ∨
    (¬ c.FailsEarly ∧ ∃ slot, freeSlot c.used = some slot ∧
      tapedevProbe c = ((heldItems slot).map .acquire ++ (probeDevice c slot).1,
        (probeDevice c slot).2)) := by
  unfold tapedevProbe
  by_cases hk : c.kzalloc = false
  · rw [if_pos hk]
    exact .inl ⟨.inl hk, (by decide : -ENOMEM < 0), fun L => rfl⟩
  rw [if_neg hk]
  dsimp only
  split
  · next hslot =>
    exact .inl ⟨.inr (.inl hslot), (by decide : -ENOSPC < 0), fun L => L.run_reverse [.device]⟩
  next slot hslot =>
  split
  · next e he =>
    exact .inl ⟨.inr (.inr (.inl (by simp [he]))), e.neg, fun L => L.run_reverse [.device, .slot slot]⟩
  next hen =>
  split
  · next e he =>
    exact .inl ⟨.inr (.inr (.inr (.inl (by simp [he])))), e.neg,
      fun L => L.run_reverse [.device, .slot slot, .enabled]⟩
  next hmask =>
  split
  · next e he =>
    exact .inl ⟨.inr (.inr (.inr (.inr (.inl (by simp [he]))))), e.neg,
      fun L => L.run_reverse [.device, .slot slot, .enabled]⟩
  next hreg =>
  by_cases hmap : c.iomap = false
  · rw [if_pos hmap]
    exact .inl ⟨.inr (.inr (.inr (.inr (.inr (.inl hmap))))), (by decide : -ENOMEM < 0),
      fun L => L.run_reverse [.device, .slot slot, .enabled, .regions]⟩
  rw [if_neg hmap]
  split
  · next e he =>
    exact .inl ⟨.inr (.inr (.inr (.inr (.inr (.inr (by simp [he])))))), e.neg,
      fun L => L.run_reverse [.device, .slot slot, .enabled, .regions, .bar]⟩
  next hirq =>
  exact .inr ⟨by simp [ProbeCalls.FailsEarly, *], slot, hslot, rfl⟩

/-! ## Probe and remove -/

/-- A probe that fails restores the ledger and returns a negative error; one that succeeds, followed
by `tapedev_remove`, restores it too. -/
def ProbeCalls.Restores (c : ProbeCalls) (L : Ledger ProbeItem) : Prop :=
  if (tapedevProbe c).2 = 0 then
    L.run ((tapedevProbe c).1 ++ tapedevRemove c.numSections ((freeSlot c.used).getD 0)) = L
  else (tapedevProbe c).2 < 0 ∧ L.run (tapedevProbe c).1 = L

/-- `tapedev_remove` leaves the DMA buffers and the tag sets. -/
theorem run_tapedevRemove {n slot : Nat} {L : Ledger ProbeItem} {base : Multiset ProbeItem}
    (hL : L.live = ↑(probedItems n slot) + base) :
    L.run (tapedevRemove n slot) = ⟨↑(below n [.dmaBuf, .tagSet]) + base, L.sound⟩ := by
  let removed : List ProbeItem := below n [.sysfsGroup, .addedDisk, .disk, .struct]
  let rest : List ProbeItem := [.sectionArray, .bar, .enabled, .regions, .slot slot, .device]
  have hremove : tapedevRemove n slot = (ProbeItem.irq :: (removed ++ rest)).map .release := by
    have hsections : (List.range n).flatMap removeSection = removed.map .release :=
      below_release removeSection fun _ => rfl
    rw [tapedevRemove, hsections, List.map_cons, List.map_append]
    rfl
  have hcreated : (below n created : Multiset ProbeItem) =
      ↑(below n [.disk, .struct]) + ↑(below n [.dmaBuf, .tagSet]) := by
    rw [← below_append]
    exact Multiset.coe_eq_coe.mpr (below_perm (by decide))
  have hremoved : (removed : Multiset ProbeItem) = ↑(below n shown) + ↑(below n [.disk, .struct]) := by
    rw [← below_append]
    exact Multiset.coe_eq_coe.mpr (below_perm (by decide))
  have hheld : (heldItems slot).Perm [.irq, .bar, .enabled, .regions, .slot slot, .device] :=
    (List.reverse_perm (heldItems slot)).symm.trans (((List.Perm.swap _ _ _).cons _).cons _)
  have hrest : ((.sectionArray :: heldItems slot : List ProbeItem) : Multiset ProbeItem) =
      .irq ::ₘ ↑rest :=
    Multiset.coe_eq_coe.mpr ((hheld.cons _).trans (.swap _ _ _))
  have hlist : ((.irq :: (removed ++ rest) : List ProbeItem) : Multiset ProbeItem) =
      (removed : Multiset ProbeItem) + ProbeItem.irq ::ₘ (rest : Multiset ProbeItem) := by
    rw [← Multiset.cons_coe, ← Multiset.coe_add, Multiset.add_cons]
  rw [hremove]
  refine Ledger.run_release ?_
  rw [hL, probedItems, ← Multiset.coe_add, ← Multiset.coe_add, hcreated, hrest, hlist, hremoved]
  abel

/-- Probe and remove restore the ledger if and only if the probe fails with `request_irq` or
before. -/
theorem probe_remove_balanced (c : ProbeCalls) (L : Ledger ProbeItem) :
    c.Restores L ↔ c.FailsEarly := by
  unfold ProbeCalls.Restores
  rcases tapedevProbe_cases c with ⟨hearly, hneg, hrun⟩ | ⟨hlate, slot, hslot, heq⟩
  · rw [if_neg (ne_of_lt hneg)]
    exact iff_of_true ⟨hneg, hrun L⟩ hearly
  · refine iff_of_false (fun hrest => ?_) hlate
    have hL : (L.run ((heldItems slot).map .acquire)).live = ↑(heldItems slot) + L.live := by
      rw [Ledger.run_acquire]
    rw [heq, hslot, Option.getD_some] at hrest
    rcases probeDevice_spec c hL with ⟨hneg, lost, hrun⟩ | ⟨hzero, hn, hrun⟩
    · rw [if_neg (ne_of_lt hneg), Ledger.run_append, hrun] at hrest
      have hcard := congrArg (fun L => Multiset.card L.live) hrest.2
      simp only [Multiset.card_add, Multiset.card_cons] at hcard
      omega
    · rw [if_pos hzero, Ledger.run_append, Ledger.run_append, hrun, run_tapedevRemove rfl] at hrest
      have hcard := congrArg (fun L => Multiset.card L.live) hrest
      simp only [Multiset.card_add, Multiset.coe_card, below_length, List.length_cons,
        List.length_nil] at hcard
      omega

/-- A device with one section, for which every call succeeds. -/
def oneSection : ProbeCalls where
  kzalloc := true
  used _ := false
  enableDevice := none
  setDmaMask := none
  requestRegions := none
  iomap := true
  requestIrq := none
  interrupted := false
  initDone := 1
  status := 0
  numSections := 1
  allocSections := true
  sections _ := ⟨true, some 4096, none, none, none, none⟩

/-- A probe for which the section array cannot be allocated leaves its interrupt handler behind. A
probe that succeeds, followed by remove, leaves the DMA buffer and the tag set. -/
theorem probe_leaves_handler :
    let empty : Ledger ProbeItem := ⟨0, true⟩
    let failing := tapedevProbe { oneSection with allocSections := false }
    (failing.2 = -ENOMEM ∧ (empty.run failing.1).live = {.irq}) ∧
    (tapedevProbe oneSection).2 = 0 ∧
    (empty.run ((tapedevProbe oneSection).1 ++ tapedevRemove 1 0)).live =
      {.sec 0 .dmaBuf, .sec 0 .tagSet} := by
  decide +kernel

end Zso.Tape
