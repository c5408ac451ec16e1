import Zso.Lib.Ledger
import Zso.Adler.Driver

/-!
# Devices that come and go

`adlerdev_probe` and `adlerdev_remove` of `adlerdev.c`, for any number of PCI devices. The calls
into the kernel that can fail are oracles. A label of the clean-up cascade is the list of the
releases from the label on.

* `probe_cases`: what a probe can do. If it runs out of memory for the buffers, it takes everything
  back and returns 0.
* `devices_balanced`: without that, in every order of probes and removals, what is live is
  what the bound devices have, and no two of them have the same number.
* `probe_without_buffers`: with it, the device is bound and has nothing, and its removal releases
  what is not there.
-/

namespace Zso.Adler.Devices
open Transition Ledgers

def ENOMEM : Int := 12
def ENOSPC : Int := 28
def ADLERDEV_MAX_DEVICES : Nat := 256

/-- The error code of a call into the kernel. -/
structure Errno where
  code : Int
  neg : code < 0

/-- What a device has. -/
inductive Item
  | device
  | enabled
  | regions
  | bar
  | irq
  | buffer (k : Nat)
  | data (k : Nat)
  | cdev
  /-- in sysfs -/
  | node
deriving DecidableEq, Repr

/-- The outcomes of the calls that a probe makes. -/
structure Calls where
  kzalloc : Bool
  enableDevice : Option Errno
  setDmaMask : Option Errno
  requestRegions : Option Errno
  iomap : Bool
  requestIrq : Option Errno
  /-- for each buffer -/
  kmalloc : Nat → Bool
  dmaAlloc : Nat → Bool
  cdevAdd : Option Errno
  deviceCreate : Bool

/-- The items of device `d`. -/
abbrev Ops := List (Op (Nat × Item))

def acquires (d : Nat) (xs : List Item) : Ops := (xs.map (Prod.mk d)).map .acquire

def releases (d : Nat) (xs : List Item) : Ops := (xs.map (Prod.mk d)).map .release

/-! ## `adlerdev_probe` -/

structure Buffers where
  ops : Ops
  /-- the buffers on `buffers_free` -/
  count : Nat
  ok : Bool

/-- The loop that allocates the buffers, from `i` on, with `n` to come. -/
def allocBuffers (d : Nat) (c : Calls) (i : Nat) : Nat → Buffers
  | 0 => ⟨[], i, true⟩
  | n + 1 =>
    if c.kmalloc i = false then ⟨[], i, false⟩
    else if c.dmaAlloc i = false then ⟨acquires d [.buffer i] ++ releases d [.buffer i], i, false⟩
    else
      let r := allocBuffers d c (i + 1) n
      { r with ops := acquires d [.buffer i, .data i] ++ r.ops }

/-- The buffers on `buffers_free`, the last one first. -/
def freeItems (n : Nat) : List Item := (List.range n).reverse.flatMap fun k => [.data k, .buffer k]

def outSlot (d : Nat) : Ops := releases d [.device]

/-- also `out_regions`; `out_enable` is about the slot -/
def outMask (d : Nat) : Ops := releases d [.enabled] ++ outSlot d

def outBar (d : Nat) : Ops := releases d [.regions] ++ outMask d

def outIrq (d : Nat) : Ops := releases d [.bar] ++ outBar d

def outCdev (d n : Nat) : Ops := releases d (freeItems n) ++ (releases d [.irq] ++ outIrq d)

structure Outcome where
  ops : Ops
  err : Int
  /-- the entry of `adlerdev_devices` stays the device's -/
  kept : Bool

/-- `adlerdev_probe`, with the slot that is free. -/
def adlerdevProbe (d : Nat) (slot : Option Nat) (c : Calls) : Outcome :=
  if c.kzalloc = false then ⟨[], -ENOMEM, false⟩
  else
    let ops := acquires d [.device]
    match slot with
    | none => ⟨ops ++ outSlot d, -ENOSPC, false⟩
    | some _ =>
      match c.enableDevice with
      | some e => ⟨ops ++ outSlot d, e.code, false⟩
      | none =>
        let ops := ops ++ acquires d [.enabled]
        match c.setDmaMask with
        | some e => ⟨ops ++ outMask d, e.code, false⟩
        | none =>
          match c.requestRegions with
          | some e => ⟨ops ++ outMask d, e.code, false⟩
          | none =>
            let ops := ops ++ acquires d [.regions]
            if c.iomap = false then ⟨ops ++ outBar d, -ENOMEM, false⟩
            else
              let ops := ops ++ acquires d [.bar]
              match c.requestIrq with
              | some e => ⟨ops ++ outIrq d, e.code, false⟩
              | none =>
                let r := allocBuffers d c 0 ADLERDEV_NUM_BUFFERS
                let ops := ops ++ acquires d [.irq] ++ r.ops
                -- `err` is 0 since `request_irq`
                if r.ok = false then ⟨ops ++ outCdev d r.count, 0, false⟩
                else
                  match c.cdevAdd with
                  | some e => ⟨ops ++ outCdev d r.count, e.code, false⟩
                  | none =>
                    ⟨ops ++ acquires d (.cdev :: if c.deviceCreate then [.node] else []), 0, true⟩

/-- `adlerdev_remove`. All buffers are on `buffers_free`: no file is open. -/
def adlerdevRemove (d : Nat) (created : Bool) : Ops :=
  releases d ((if created then [.node] else []) ++ [.cdev]) ++ outCdev d ADLERDEV_NUM_BUFFERS

/-! ## The driver -/

structure Sys where
  /-- `adlerdev_devices` -/
  devices : Nat → Option Nat
  ledger : Ledger (Nat × Item)
  /-- the devices for which the probe has returned 0: `idx`, and whether `dev->dev` is set -/
  bound : Nat → Option (Nat × Bool)

inductive Label
  | probe (d : Nat) (c : Calls)
  | remove (d : Nat)

def freeSlot (devices : Nat → Option Nat) : Option Nat :=
  (List.range ADLERDEV_MAX_DEVICES).find? fun i => (devices i).isNone

def Sys.next (s : Sys) : Label → Option Sys
  | .probe d c =>
    if (s.bound d).isSome then none
    else
      let slot := freeSlot s.devices
      let r := adlerdevProbe d slot c
      some
        { devices := if r.kept then Function.update s.devices (slot.getD 0) (some d) else s.devices
          ledger := s.ledger.run r.ops
          bound := if r.err = 0 then Function.update s.bound d (some (slot.getD 0, c.deviceCreate))
            else s.bound }
  | .remove d =>
    match s.bound d with
    | none => none
    | some (idx, created) =>
      some
        { devices := Function.update s.devices idx none
          ledger := s.ledger.run (adlerdevRemove d created)
          bound := Function.update s.bound d none }

/-- The module has been loaded. -/
structure Sys.Initial (s : Sys) : Prop where
  devices : ∀ i, s.devices i = none
  live : s.ledger.live = 0
  sound : s.ledger.sound = true
  bound : ∀ d, s.bound d = none

def driver : Lts Sys Label := ⟨Sys.Initial, Sys.next⟩

/-! ## The buffers -/

/-- `n` buffers, in the order of their allocation. -/
def bufferItems (n : Nat) : List Item := (List.range n).flatMap fun k => [.buffer k, .data k]

theorem bufferItems_succ (n : Nat) : bufferItems (n + 1) = bufferItems n ++ [.buffer n, .data n] := by
  simp [bufferItems, List.range_succ]

theorem freeItems_perm (n : Nat) : (freeItems n).Perm (bufferItems n) := by
  refine (List.Perm.flatMap_right _ (List.reverse_perm _)).trans ?_
  exact .flatMap_left _ fun k _ => List.Perm.swap ..

/-- There is memory for all buffers. -/
def Calls.BuffersOk (c : Calls) : Prop :=
  ∀ k, k < ADLERDEV_NUM_BUFFERS → c.kmalloc k = true ∧ c.dmaAlloc k = true

section
variable {d : Nat} {c : Calls} {L : Ledger (Nat × Item)} {base : Multiset (Nat × Item)}

theorem run_acquires (L : Ledger (Nat × Item)) (d : Nat) (xs : List Item) :
    L.run (acquires d xs) = ⟨↑(xs.map (Prod.mk d)) + L.live, L.sound⟩ := L.run_acquire _

theorem run_releases {xs : List Item} (h : L.live = ↑(xs.map (Prod.mk d)) + base) :
    L.run (releases d xs) = ⟨base, L.sound⟩ := Ledger.run_release h

/-- The loop leaves the buffers it has counted. -/
theorem allocBuffers_spec (d : Nat) (c : Calls) {i : Nat} (n : Nat)
    (hL : L.live = ↑((bufferItems i).map (Prod.mk d)) + base) :
    let r := allocBuffers d c i n
    L.run r.ops = ⟨↑((bufferItems r.count).map (Prod.mk d)) + base, L.sound⟩ ∧
      (r.ok = true → r.count = i + n) ∧
      (r.ok = true ↔ ∀ k, i ≤ k → k < i + n → c.kmalloc k = true ∧ c.dmaAlloc k = true) := by
  induction n generalizing i L with
  | zero =>
    refine ⟨?_, fun _ => rfl, ⟨fun _ k h1 h2 => by omega, fun _ => rfl⟩⟩
    rw [show (allocBuffers d c i 0).count = i from rfl, ← hL]
    rfl
  | succ n ih =>
    unfold allocBuffers
    split
    · next hk =>
      refine ⟨?_, (fun h => by cases h), ⟨(fun h => by cases h), fun h => ?_⟩⟩
      · rw [← hL]
        rfl
      · rw [(h i le_rfl (by omega)).1] at hk
        cases hk
    · next hk =>
      split
      · next hd =>
        refine ⟨?_, (fun h => by cases h), ⟨(fun h => by cases h), fun h => ?_⟩⟩
        · dsimp only
          rw [← hL]
          exact L.run_reverse [(d, Item.buffer i)]
        · rw [(h i le_rfl (by omega)).2] at hd
          cases hd
      · next hd =>
        dsimp only
        rw [Ledger.run_append, run_acquires]
        generalize hL' : (⟨↑([Item.buffer i, Item.data i].map (Prod.mk d)) + L.live, L.sound⟩ :
          Ledger (Nat × Item)) = L'
        have hnext : L'.live = ↑((bufferItems (i + 1)).map (Prod.mk d)) + base := by
          rw [← hL', hL, bufferItems_succ, List.map_append, ← Multiset.coe_add, add_assoc]
          exact add_left_comm ..
        obtain ⟨hrun, hcount, hok⟩ := ih hnext
        have hsound : L'.sound = L.sound := by rw [← hL']
        rw [hsound] at hrun
        refine ⟨hrun, fun h => (hcount h).trans (by omega), hok.trans ⟨fun h k h1 h2 => ?_, fun h k h1 h2 => ?_⟩⟩
        · rcases Nat.eq_or_lt_of_le h1 with rfl | h1
          · exact ⟨by simpa using hk, by simpa using hd⟩
          · exact h k h1 (by omega)
        · exact h k (by omega) (by omega)

/-- What a bound device has. -/
def boundItems (created : Bool) : List Item :=
  [.device, .enabled, .regions, .bar, .irq] ++ bufferItems ADLERDEV_NUM_BUFFERS ++
    (.cdev :: if created then [.node] else [])

/-- The items up to the interrupt line, which `out_cdev` releases. -/
theorem outCdev_eq (d n : Nat) :
    outCdev d n = releases d (freeItems n ++ [.irq, .bar, .regions, .enabled, .device]) := by
  simp [outCdev, outIrq, outBar, outMask, outSlot, releases]

theorem run_outCdev {n : Nat} (h : L.live = ↑((bufferItems n).map (Prod.mk d)) +
    (↑([Item.device, .enabled, .regions, .bar, .irq].map (Prod.mk d)) + base)) :
    L.run (outCdev d n) = ⟨base, L.sound⟩ := by
  rw [outCdev_eq]
  refine run_releases (h.trans ?_)
  rw [List.map_append, ← Multiset.coe_add, ← add_assoc]
  congr 2
  · exact Multiset.coe_eq_coe.mpr ((freeItems_perm n).map _).symm
  · exact Multiset.coe_eq_coe.mpr (List.reverse_perm _).symm

/-- The probe up to the buffers. -/
theorem run_allocBuffers (d : Nat) (c : Calls) (L : Ledger (Nat × Item)) :
    let r := allocBuffers d c 0 ADLERDEV_NUM_BUFFERS
    L.run (acquires d [.device, .enabled, .regions, .bar, .irq] ++ r.ops) =
      ⟨↑((bufferItems r.count).map (Prod.mk d)) +
        (↑([Item.device, .enabled, .regions, .bar, .irq].map (Prod.mk d)) + L.live), L.sound⟩ := by
  dsimp only
  rw [Ledger.run_append, run_acquires]
  generalize hL' : (⟨↑([Item.device, .enabled, .regions, .bar, .irq].map (Prod.mk d)) + L.live,
    L.sound⟩ : Ledger (Nat × Item)) = L'
  have hstart : L'.live = ↑((bufferItems 0).map (Prod.mk d)) + L'.live := (zero_add _).symm
  rw [(allocBuffers_spec d c ADLERDEV_NUM_BUFFERS hstart).1, ← hL']

theorem allocBuffers_ok (d : Nat) (c : Calls) :
    ((allocBuffers d c 0 ADLERDEV_NUM_BUFFERS).ok = true ↔ c.BuffersOk) ∧
      ((allocBuffers d c 0 ADLERDEV_NUM_BUFFERS).ok = true →
        (allocBuffers d c 0 ADLERDEV_NUM_BUFFERS).count = ADLERDEV_NUM_BUFFERS) := by
  have hstart : (⟨0, true⟩ : Ledger (Nat × Item)).live = ↑((bufferItems 0).map (Prod.mk d)) + 0 := rfl
  obtain ⟨-, hcount, hok⟩ := allocBuffers_spec d c ADLERDEV_NUM_BUFFERS hstart
  refine ⟨hok.trans ⟨fun h k hk => h k (Nat.zero_le k) (by omega), fun h k _ hk => h k (by omega)⟩,
    fun h => (hcount h).trans (Nat.zero_add _)⟩

/-- The probe from the buffers on. -/
theorem buffers_cases (d : Nat) (c : Calls) {slot : Option Nat} (hslot : slot.isSome = true) :
    let b := allocBuffers d c 0 ADLERDEV_NUM_BUFFERS
    let ops := acquires d [.device, .enabled, .regions, .bar, .irq] ++ b.ops
    let r : Outcome :=
      if b.ok = false then ⟨ops ++ outCdev d b.count, 0, false⟩
      else
        match c.cdevAdd with
        | some e => ⟨ops ++ outCdev d b.count, e.code, false⟩
        | none => ⟨ops ++ acquires d (.cdev :: if c.deviceCreate then [.node] else []), 0, true⟩
    (r.err ≠ 0 ∧ r.kept = false ∧ ∀ L : Ledger (Nat × Item), L.run r.ops = L) ∨
    (r.err = 0 ∧ r.kept = false ∧ ¬ c.BuffersOk ∧ ∀ L : Ledger (Nat × Item), L.run r.ops = L) ∨
    (r.err = 0 ∧ r.kept = true ∧ slot.isSome = true ∧ ∀ L : Ledger (Nat × Item),
      L.run r.ops = ⟨↑((boundItems c.deviceCreate).map (Prod.mk d)) + L.live, L.sound⟩) := by
  obtain ⟨hok, hcount⟩ := allocBuffers_ok d c
  have hback : ∀ L : Ledger (Nat × Item),
      L.run (acquires d [.device, .enabled, .regions, .bar, .irq] ++
        (allocBuffers d c 0 ADLERDEV_NUM_BUFFERS).ops ++
        outCdev d (allocBuffers d c 0 ADLERDEV_NUM_BUFFERS).count) = L := by
    intro L
    rw [Ledger.run_append, run_allocBuffers]
    exact run_outCdev rfl
  dsimp only
  split
  · next hno =>
    have hnot : ¬ c.BuffersOk := by
      intro h
      rw [hok.mpr h] at hno
      cases hno
    exact .inr (.inl ⟨rfl, rfl, hnot, hback⟩)
  · next hyes =>
    split
    · next e _ => exact .inl ⟨e.neg.ne, rfl, hback⟩
    · refine .inr (.inr ⟨rfl, rfl, hslot, fun L => ?_⟩)
      dsimp only
      rw [Ledger.run_append, run_allocBuffers, run_acquires, hcount (by simpa using hyes)]
      simp only [boundItems, List.map_append, ← Multiset.coe_add]
      congr 1
      ac_rfl

/-- What a probe can do: it fails, it runs out of memory for the buffers, or the device has
everything. -/
theorem probe_cases (d : Nat) (slot : Option Nat) (c : Calls) :
    let r := adlerdevProbe d slot c
    (r.err ≠ 0 ∧ r.kept = false ∧ ∀ L : Ledger (Nat × Item), L.run r.ops = L) ∨
    (r.err = 0 ∧ r.kept = false ∧ ¬ c.BuffersOk ∧ ∀ L : Ledger (Nat × Item), L.run r.ops = L) ∨
    (r.err = 0 ∧ r.kept = true ∧ slot.isSome = true ∧ ∀ L : Ledger (Nat × Item),
      L.run r.ops = ⟨↑((boundItems c.deviceCreate).map (Prod.mk d)) + L.live, L.sound⟩) := by
  unfold adlerdevProbe
  split
  · exact .inl ⟨(by decide : -ENOMEM ≠ 0), rfl, fun L => rfl⟩
  · dsimp only
    split
    · exact .inl ⟨(by decide : -ENOSPC ≠ 0), rfl, fun L => L.run_reverse [(d, Item.device)]⟩
    · split
      · next e _ => exact .inl ⟨e.neg.ne, rfl, fun L => L.run_reverse [(d, Item.device)]⟩
      · split
        · next e _ =>
          exact .inl ⟨e.neg.ne, rfl, fun L => L.run_reverse [(d, Item.device), (d, .enabled)]⟩
        · split
          · next e _ =>
            exact .inl ⟨e.neg.ne, rfl, fun L => L.run_reverse [(d, Item.device), (d, .enabled)]⟩
          · split
            · exact .inl ⟨(by decide : -ENOMEM ≠ 0), rfl,
                fun L => L.run_reverse [(d, Item.device), (d, .enabled), (d, .regions)]⟩
            · split
              · next e _ =>
                exact .inl ⟨e.neg.ne, rfl,
                  fun L => L.run_reverse [(d, Item.device), (d, .enabled), (d, .regions), (d, .bar)]⟩
              · exact buffers_cases d c rfl

theorem adlerdevRemove_eq (d : Nat) (created : Bool) :
    ∃ xs, adlerdevRemove d created = releases d xs ∧ xs.Perm (boundItems created) := by
  refine ⟨((if created then [Item.node] else []) ++ [.cdev]) ++
    (freeItems ADLERDEV_NUM_BUFFERS ++ [.irq, .bar, .regions, .enabled, .device]), ?_, ?_⟩
  · unfold adlerdevRemove
    rw [outCdev_eq]
    simp [releases]
  · have hhead : ((if created then [Item.node] else []) ++ [Item.cdev]).Perm
        (Item.cdev :: if created then [.node] else []) := by cases created <;> decide
    have htail : [Item.irq, .bar, .regions, .enabled, .device].Perm
        [.device, .enabled, .regions, .bar, .irq] := by decide
    exact (hhead.append (((freeItems_perm _).append htail).trans List.perm_append_comm)).trans
      List.perm_append_comm

end

/-! ## What every order of probes and removals keeps -/

/-- What device `d` should have. -/
def Sys.items (s : Sys) (d : Nat) : List Item :=
  match s.bound d with
  | none => []
  | some b => boundItems b.2

structure Inv (s : Sys) : Prop where
  sound : s.ledger.sound = true
  live : ∀ d x, s.ledger.live.count (d, x) = (s.items d).count x
  slot : ∀ d b, s.bound d = some b → b.1 < ADLERDEV_MAX_DEVICES ∧ s.devices b.1 = some d
  owner : ∀ i d, s.devices i = some d → ∃ created, s.bound d = some (i, created)

def Label.BuffersOk : Label → Prop
  | .probe _ c => c.BuffersOk
  | .remove _ => True

theorem count_tagged (xs : List Item) (d d' : Nat) (x : Item) :
    (↑(xs.map (Prod.mk d')) : Multiset (Nat × Item)).count (d, x) =
      if d = d' then xs.count x else 0 := by
  split
  · next h =>
    subst h
    rw [← Multiset.map_coe, Multiset.count_map_eq_count' _ _ (Prod.mk_right_injective d),
      Multiset.coe_count]
  · next h =>
    refine Multiset.count_eq_zero.mpr fun hmem => ?_
    obtain ⟨y, -, hy⟩ := List.mem_map.mp (Multiset.mem_coe.mp hmem)
    exact h (Prod.mk.inj hy).1.symm

theorem freeSlot_spec {devices : Nat → Option Nat} {i : Nat} (h : freeSlot devices = some i) :
    i < ADLERDEV_MAX_DEVICES ∧ devices i = none := by
  have hnone : (devices i).isNone = true :=
    List.find?_some (p := fun i => (devices i).isNone) h
  exact ⟨List.mem_range.mp (List.mem_of_find?_eq_some h), Option.isNone_iff_eq_none.mp hnone⟩

section
variable {s s' : Sys} {d : Nat} {c : Calls}

/-- A device that is not bound has nothing. -/
theorem Inv.none (h : Inv s) (hd : s.bound d = none) (x : Item) : s.ledger.live.count (d, x) = 0 := by
  rw [h.live, Sys.items, hd]
  rfl

theorem Inv.probe (h : Inv s) (hok : c.BuffersOk) (hs : s.next (.probe d c) = some s') : Inv s' := by
  unfold Sys.next at hs
  dsimp only at hs
  split at hs
  · cases hs
  · next hun =>
    have hd : s.bound d = .none := by simpa using hun
    cases hs
    rcases probe_cases d (freeSlot s.devices) c with ⟨he, hk, hrun⟩ | ⟨-, -, hno, -⟩ |
        ⟨he, hk, hslot, hrun⟩
    · rw [hrun, if_neg he, hk, if_neg Bool.false_ne_true]
      exact h
    · exact absurd hok hno
    · obtain ⟨i, hi⟩ := Option.isSome_iff_exists.mp hslot
      obtain ⟨hlt, hfree⟩ := freeSlot_spec hi
      rw [hrun, if_pos he, hk, if_pos rfl, hi]
      refine ⟨h.sound, fun d' x => ?_, fun d' b hb => ?_, fun j d' hj => ?_⟩
      · dsimp only [Sys.items]
        rw [Multiset.count_add, count_tagged]
        by_cases hdd : d' = d
        · subst hdd
          rw [if_pos rfl, h.none hd, Function.update_self, Nat.add_zero]
        · rw [if_neg hdd, h.live, Function.update_of_ne hdd, Nat.zero_add]
          rfl
      · dsimp only [Option.getD_some] at hb ⊢
        by_cases hdd : d' = d
        · subst hdd
          rw [Function.update_self] at hb
          cases hb
          exact ⟨hlt, Function.update_self ..⟩
        · rw [Function.update_of_ne hdd] at hb
          obtain ⟨hb1, hb2⟩ := h.slot d' b hb
          refine ⟨hb1, ?_⟩
          rw [Function.update_of_ne]
          · exact hb2
          · rintro rfl
            rw [hfree] at hb2
            cases hb2
      · dsimp only [Option.getD_some] at hj ⊢
        by_cases hji : j = i
        · subst hji
          rw [Function.update_self] at hj
          cases hj
          exact ⟨_, Function.update_self ..⟩
        · rw [Function.update_of_ne hji] at hj
          obtain ⟨created, hb⟩ := h.owner j d' hj
          refine ⟨created, ?_⟩
          rw [Function.update_of_ne]
          · exact hb
          · rintro rfl
            rw [hd] at hb
            cases hb

theorem Inv.remove (h : Inv s) (hs : s.next (.remove d) = some s') : Inv s' := by
  unfold Sys.next at hs
  dsimp only at hs
  split at hs
  · cases hs
  · next idx created hb =>
    cases hs
    obtain ⟨xs, hops, hperm⟩ := adlerdevRemove_eq d created
    have hitems : ∀ x, s.ledger.live.count (d, x) = (boundItems created).count x := by
      intro x
      rw [h.live, Sys.items, hb]
    have hle : (↑(xs.map (Prod.mk d)) : Multiset (Nat × Item)) ≤ s.ledger.live := by
      refine Multiset.le_iff_count.mpr ?_
      rintro ⟨d', x⟩
      rw [count_tagged]
      split
      · next hdd =>
        subst hdd
        rw [hitems, hperm.count_eq]
      · exact Nat.zero_le _
    have hlive : s.ledger.live =
        ↑(xs.map (Prod.mk d)) + (s.ledger.live - ↑(xs.map (Prod.mk d))) :=
      (add_tsub_cancel_of_le hle).symm
    rw [hops, run_releases hlive]
    obtain ⟨-, hidx⟩ := h.slot d _ hb
    refine ⟨h.sound, fun d' x => ?_, fun d' b hb' => ?_, fun j d' hj => ?_⟩
    · dsimp only [Sys.items]
      rw [Multiset.count_sub, count_tagged]
      by_cases hdd : d' = d
      · subst hdd
        rw [if_pos rfl, hitems, hperm.count_eq, Function.update_self, Nat.sub_self]
        rfl
      · rw [if_neg hdd, Function.update_of_ne hdd, h.live, Nat.sub_zero]
        rfl
    · dsimp only at hb' ⊢
      by_cases hdd : d' = d
      · subst hdd
        rw [Function.update_self] at hb'
        cases hb'
      · rw [Function.update_of_ne hdd] at hb'
        obtain ⟨hb1, hb2⟩ := h.slot d' b hb'
        refine ⟨hb1, ?_⟩
        rw [Function.update_of_ne]
        · exact hb2
        · rintro he
          rw [he, hidx] at hb2
          exact hdd (Option.some.inj hb2).symm
    · dsimp only at hj ⊢
      by_cases hji : j = idx
      · subst hji
        rw [Function.update_self] at hj
        cases hj
      · rw [Function.update_of_ne hji] at hj
        obtain ⟨cr, hown⟩ := h.owner j d' hj
        refine ⟨cr, ?_⟩
        rw [Function.update_of_ne]
        · exact hown
        · rintro rfl
          rw [hb] at hown
          exact hji (Prod.mk.inj (Option.some.inj hown)).1.symm

end

theorem Inv.initial {s : Sys} (h : s.Initial) : Inv s where
  sound := h.sound
  live d x := by
    rw [h.live, Sys.items, h.bound d]
    rfl
  slot d b hb := by
    rw [h.bound d] at hb
    cases hb
  owner i d hi := by
    rw [h.devices i] at hi
    cases hi

theorem inv_reach {s : Sys} (h : driver.ReachOn (fun _ l => l.BuffersOk) s) : Inv s := by
  refine Lts.invariantOn (M := driver) (P := Inv) (fun s hs => Inv.initial hs) (fun s l s' _ hinv hl hs => ?_) h
  cases l with
  | probe d c => exact hinv.probe hl hs
  | remove d => exact hinv.remove hs

/-- **Probes and removals are balanced.** In every order of probes, whichever of their calls fail,
and removals, nothing is released that is not live, a bound device has all it should have and any
other has nothing, and no two bound devices have the same number: provided that no probe runs
out of memory for the buffers. -/
theorem devices_balanced {s : Sys} (h : driver.ReachOn (fun _ l => l.BuffersOk) s) :
    s.ledger.sound = true ∧
    (∀ d x, s.ledger.live.count (d, x) = (s.items d).count x) ∧
    ∀ d d' b b', s.bound d = some b → s.bound d' = some b' → b.1 = b'.1 → d = d' := by
  have hinv := inv_reach h
  refine ⟨hinv.sound, hinv.live, fun d d' b b' hb hb' he => ?_⟩
  have hd := (hinv.slot d b hb).2
  rw [he, (hinv.slot d' b' hb').2] at hd
  exact (Option.some.inj hd).symm

/-- The module has just been loaded. -/
def loaded : Sys := ⟨fun _ => none, ⟨0, true⟩, fun _ => none⟩

theorem loaded_initial : loaded.Initial := ⟨fun _ => rfl, rfl, rfl, fun _ => rfl⟩

/-- All calls succeed. -/
def allOk : Calls := ⟨true, none, none, none, true, none, fun _ => true, fun _ => true, none, true⟩

/-- Two devices come; the first goes, and comes back. -/
theorem devices_balanced_two :
    ∃ s, driver.ReachOn (fun _ l => l.BuffersOk) s ∧ s.bound 0 = some (0, true) ∧
      s.bound 1 = some (1, true) ∧ s.ledger.sound = true := by
  let run : List Label := [.probe 0 allOk, .probe 1 allOk, .remove 0, .probe 0 allOk]
  let s := (driver.exec loaded run).get (by decide +kernel)
  have hok : ∀ l ∈ run, ∀ _ : Sys, l.BuffersOk := by
    intro l hl _
    have hall : allOk.BuffersOk := fun _ _ => ⟨rfl, rfl⟩
    simp only [run, List.mem_cons, List.not_mem_nil, or_false] at hl
    rcases hl with rfl | rfl | rfl | rfl
    · exact hall
    · exact hall
    · exact trivial
    · exact hall
  have hs : driver.ReachOn (fun _ l => l.BuffersOk) s :=
    Lts.ReachOn.exec (.init loaded_initial) hok (Option.some_get _).symm
  have h0 : s.bound 0 = some (0, true) := by decide +kernel
  have h1 : s.bound 1 = some (1, true) := by decide +kernel
  exact ⟨s, hs, h0, h1, (devices_balanced hs).1⟩

/-- The probe gets as far as the buffers. -/
structure Calls.GetsToBuffers (c : Calls) : Prop where
  kzalloc : c.kzalloc = true
  enableDevice : c.enableDevice = none
  setDmaMask : c.setDmaMask = none
  requestRegions : c.requestRegions = none
  iomap : c.iomap = true
  requestIrq : c.requestIrq = none

theorem probe_outOfMemory {c : Calls} (h : c.GetsToBuffers) (hno : ¬ c.BuffersOk) {slot : Option Nat}
    (hslot : slot.isSome = true) (d : Nat) :
    (adlerdevProbe d slot c).err = 0 ∧ (adlerdevProbe d slot c).kept = false ∧
      ∀ L : Ledger (Nat × Item), L.run (adlerdevProbe d slot c).ops = L := by
  have hzero : (adlerdevProbe d slot c).err = 0 ∧ (adlerdevProbe d slot c).kept = false := by
    obtain ⟨i, rfl⟩ := Option.isSome_iff_exists.mp hslot
    have hok : (allocBuffers d c 0 ADLERDEV_NUM_BUFFERS).ok = false :=
      Bool.eq_false_iff.mpr fun hok => hno ((allocBuffers_ok d c).1.mp hok)
    unfold adlerdevProbe
    simp only [h.kzalloc, h.enableDevice, h.setDmaMask, h.requestRegions, h.requestIrq, h.iomap, hok,
      Bool.true_eq_false, if_false, if_true, and_self]
  rcases probe_cases d slot c with ⟨he, -⟩ | ⟨he, hk, -, hrun⟩ | ⟨-, hk, -⟩
  · exact absurd hzero.1 he
  · exact ⟨he, hk, hrun⟩
  · rw [hzero.2] at hk
    cases hk

/-- The removal of a device that has nothing. -/
theorem remove_unsound {L : Ledger (Nat × Item)} {d : Nat} (h : ∀ x, (d, x) ∉ L.live)
    (created : Bool) : (L.run (adlerdevRemove d created)).sound = false := by
  have hfirst : ∃ x xs, adlerdevRemove d created = .release (d, x) :: xs := by
    cases created <;> exact ⟨_, _, rfl⟩
  obtain ⟨x, xs, hops⟩ := hfirst
  rw [hops, Ledger.run_cons]
  refine Ledger.run_unsound ?_ xs
  show (L.sound && decide ((d, x) ∈ L.live)) = false
  rw [decide_eq_false (h x), Bool.and_false]

/-- **A probe without buffers.** In every state of the driver in which a device is not bound and an
index is free: if there is no memory for the buffers of the device, its probe takes everything back
and nevertheless returns 0. The device is bound then, with an index that the next device will
get, and its removal releases what is not live. -/
theorem probe_without_buffers {s : Sys} (h : driver.ReachOn (fun _ l => l.BuffersOk) s) {d i : Nat}
    (hd : s.bound d = none) (hi : freeSlot s.devices = some i) {c : Calls} (hc : c.GetsToBuffers)
    (hno : ¬ c.BuffersOk) :
    ∃ s', driver.next s (.probe d c) = some s' ∧ s'.bound d = some (i, c.deviceCreate) ∧
      s'.ledger = s.ledger ∧ freeSlot s'.devices = some i ∧
      ∃ s'', driver.next s' (.remove d) = some s'' ∧ s''.ledger.sound = false := by
  have hinv := inv_reach h
  obtain ⟨he, hk, hrun⟩ := probe_outOfMemory hc hno (show (some i).isSome = true from rfl) d
  have hnext : driver.next s (.probe d c) =
      some { s with bound := Function.update s.bound d (some (i, c.deviceCreate)) } := by
    show s.next (.probe d c) = _
    unfold Sys.next
    dsimp only
    rw [hd, hi, hrun, if_pos he, hk]
    rfl
  have hremove : driver.next
      { s with bound := Function.update s.bound d (some (i, c.deviceCreate)) } (.remove d) =
        some ⟨Function.update s.devices i none, s.ledger.run (adlerdevRemove d c.deviceCreate),
          Function.update (Function.update s.bound d (some (i, c.deviceCreate))) d none⟩ := by
    show Sys.next _ (.remove d) = _
    unfold Sys.next
    dsimp only
    rw [Function.update_self]
  refine ⟨_, hnext, Function.update_self .., rfl, hi, _, hremove, ?_⟩
  exact remove_unsound (fun x => Multiset.count_eq_zero.mp (hinv.none hd x)) c.deviceCreate

/-- There is memory for three buffers. -/
theorem probe_without_buffers_three :
    ∃ s' s'', driver.next loaded (.probe 5 { allOk with dmaAlloc := fun k => decide (k < 3) }) = some s' ∧
      s'.ledger = loaded.ledger ∧ driver.next s' (.remove 5) = some s'' ∧
      s''.ledger.sound = false := by
  have hc : Calls.GetsToBuffers { allOk with dmaAlloc := fun k => decide (k < 3) } :=
    ⟨rfl, rfl, rfl, rfl, rfl, rfl⟩
  have hno : ¬ Calls.BuffersOk { allOk with dmaAlloc := fun k => decide (k < 3) } := by
    intro h
    exact absurd (h 3 (by decide)).2 (by decide)
  obtain ⟨s', hs', -, hledger, -, s'', hs'', hsound⟩ :=
    probe_without_buffers (.init loaded_initial) (d := 5) rfl (i := 0) rfl hc hno
  exact ⟨s', s'', hs', hledger, hs'', hsound⟩

end Zso.Adler.Devices
