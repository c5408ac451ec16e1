import Zso.Lib.Transition
import Zso.Tape.Probe

/-!
# Tape devices that come and go

`tapedev_probe` and `tapedev_remove` for any number of PCI devices. The devices share the table
`tapedev_devices`. A probe takes its entry of the table under the mutex and goes on without it, so
probes of several devices run at the same time.

* `Sys.Step`, `Moves`: all that a step can do, and what of it concerns one device.
* `disks_distinct`: the disks of the devices have different names, none of them cut off.
* `leaks_accumulate`: nothing is released twice, but a device whose probe has got as far as
  `request_irq` never gives everything back, whatever comes later.
-/

namespace Zso.Tape.Devices
open Transition Ledgers

inductive Binding
  | unbound
  /-- `tapedev_probe` has taken the entry -/
  | probing (slot : Nat)
  | bound (slot nSections : Nat)
deriving DecidableEq

def Binding.slot : Binding → Option Nat
  | .unbound => none
  | .probing i => some i
  | .bound i _ => some i

structure Sys where
  /-- `tapedev_devices` -/
  devices : Nat → Option Nat
  binding : Nat → Binding
  /-- what each device has -/
  ledger : Nat → Ledger ProbeItem

inductive Label
  /-- the probe of device `d` up to the end of the mutex -/
  | take (d : Nat) (kzalloc : Bool)
  /-- the probe to its end; `used` is the table as the probe has seen it -/
  | finish (d : Nat) (c : ProbeCalls)
  | remove (d : Nat)

def Sys.used (s : Sys) (i : Nat) : Bool := (s.devices i).isSome

/-- `tapedev_devices[i] = NULL`, at the end of a probe that fails and of `tapedev_remove` -/
def Sys.unbind (s : Sys) (d i : Nat) : Sys :=
  { s with
    devices := Function.update s.devices i none
    binding := Function.update s.binding d .unbound }

def Sys.effects (s : Sys) (d : Nat) (ops : List (Op ProbeItem)) : Sys :=
  { s with ledger := Function.update s.ledger d ((s.ledger d).run ops) }

def Sys.next (s : Sys) : Label → Option Sys
  | .take d kzalloc =>
    if s.binding d ≠ .unbound then none
    else if kzalloc = false then some s
    else
      match freeSlot s.used with
      | none => some s
      | some i =>
        some
          { s with
            devices := Function.update s.devices i (some d)
            binding := Function.update s.binding d (.probing i) }
  | .finish d c =>
    match s.binding d with
    | .probing i =>
      if c.kzalloc = true ∧ freeSlot c.used = some i then
        let r := tapedevProbe c
        let s := s.effects d r.1
        if r.2 = 0 then
          some { s with binding := Function.update s.binding d (.bound i c.numSections) }
        else some (s.unbind d i)
      else none
    | _ => none
  | .remove d =>
    match s.binding d with
    | .bound i n => some ((s.effects d (tapedevRemove n i)).unbind d i)
    | _ => none

/-- The module has been loaded. -/
structure Sys.Initial (s : Sys) : Prop where
  devices : ∀ i, s.devices i = none
  binding : ∀ d, s.binding d = .unbound
  ledger : ∀ d, s.ledger d = ⟨0, true⟩

def tapes : Lts Sys Label := ⟨Sys.Initial, Sys.next⟩

/-! ## The probe -/

/-- No device with more than eight sections is accepted. -/
theorem probeDevice_numSections {c : ProbeCalls} {slot : Nat} (h : (probeDevice c slot).2 = 0) :
    c.numSections ≤ 8 := by
  by_contra hmany
  unfold probeDevice at h
  rw [if_pos (show c.numSections = 0 ∨ c.numSections > 8 from .inr (not_le.mp hmany))] at h
  split at h
  · cases h
  · split at h
    · cases h
    · split at h <;> cases h

/-- A probe that has the entry `i` fails early and takes everything back, fails late and loses the
interrupt line at least, or has acquired everything. -/
theorem probe_outcome {c : ProbeCalls} {i : Nat} (hslot : freeSlot c.used = some i)
    (L : Ledger ProbeItem) :
    (c.FailsEarly ∧ (tapedevProbe c).2 ≠ 0 ∧ L.run (tapedevProbe c).1 = L) ∨
    ((tapedevProbe c).2 ≠ 0 ∧ ∃ lost,
      L.run (tapedevProbe c).1 = ⟨lost + .irq ::ₘ L.live, L.sound⟩) ∨
    ((tapedevProbe c).2 = 0 ∧ 0 < c.numSections ∧ c.numSections ≤ 8 ∧
      L.run (tapedevProbe c).1 = ⟨↑(probedItems c.numSections i) + L.live, L.sound⟩) := by
  rcases tapedevProbe_cases c with ⟨hearly, hneg, hrun⟩ | ⟨-, slot, hslot', heq⟩
  · exact .inl ⟨hearly, ne_of_lt hneg, hrun L⟩
  · obtain rfl : slot = i := Option.some.inj (hslot'.symm.trans hslot)
    have hL : (L.run ((heldItems slot).map .acquire)).live = ↑(heldItems slot) + L.live := by
      rw [Ledger.run_acquire]
    have hsound : (L.run ((heldItems slot).map .acquire)).sound = L.sound := by
      rw [Ledger.run_acquire]
    refine .inr ?_
    rw [heq, Ledger.run_append]
    rcases probeDevice_spec c hL with ⟨hneg, lost, hrun⟩ | ⟨hzero, hn, hrun⟩
    · exact .inl ⟨ne_of_lt hneg, lost, by rw [hrun, hsound]⟩
    · exact .inr ⟨hzero, hn, probeDevice_numSections hzero, by rw [hrun, hsound]⟩

/-! ## What a step can do -/

inductive Sys.Step (s : Sys) : Label → Sys → Prop
  /-- no memory, or no free entry -/
  | refused (d : Nat) (kzalloc : Bool) : Step s (.take d kzalloc) s
  | take (d i : Nat) (kzalloc : Bool) (hd : s.binding d = .unbound)
      (hi : freeSlot s.used = some i) :
    Step s (.take d kzalloc)
      { s with
        devices := Function.update s.devices i (some d)
        binding := Function.update s.binding d (.probing i) }
  | failed (d i : Nat) (c : ProbeCalls) (hd : s.binding d = .probing i)
      (hi : freeSlot c.used = some i) (herr : (tapedevProbe c).2 ≠ 0) :
    Step s (.finish d c) ((s.effects d (tapedevProbe c).1).unbind d i)
  | probed (d i : Nat) (c : ProbeCalls) (hd : s.binding d = .probing i)
      (hi : freeSlot c.used = some i) (herr : (tapedevProbe c).2 = 0) :
    Step s (.finish d c)
      { s.effects d (tapedevProbe c).1 with
        binding := Function.update s.binding d (.bound i c.numSections) }
  | remove (d i n : Nat) (hd : s.binding d = .bound i n) :
    Step s (.remove d) ((s.effects d (tapedevRemove n i)).unbind d i)

theorem Sys.next_step {s t : Sys} {l : Label} (h : s.next l = some t) : s.Step l t := by
  cases l with
  | take d kzalloc =>
    simp only [Sys.next] at h
    split at h
    · cases h
    · next hd =>
      split at h
      · cases h
        exact .refused d kzalloc
      · split at h
        · cases h
          exact .refused d kzalloc
        · next i hi =>
          cases h
          exact .take d i kzalloc (not_not.mp hd) hi
  | finish d c =>
    simp only [Sys.next] at h
    split at h
    · next i hd =>
      split at h
      · next hc =>
        split at h
        · next herr =>
          cases h
          exact .probed d i c hd hc.2 herr
        · next herr =>
          cases h
          exact .failed d i c hd hc.2 herr
      · cases h
    · cases h
  | remove d =>
    simp only [Sys.next] at h
    split at h
    · next i n hd =>
      cases h
      exact .remove d i n hd
    · cases h

/-! ## What a step can do to one device -/

/-- The step `l` takes device `d` from one binding and ledger to another. -/
inductive Moves (l : Label) (d : Nat) :
    Binding → Ledger ProbeItem → Binding → Ledger ProbeItem → Prop
  | stay (b : Binding) (L : Ledger ProbeItem) (hl : ∀ c, l ≠ .finish d c) : Moves l d b L b L
  | take (i : Nat) (L : Ledger ProbeItem) (hl : ∀ c, l ≠ .finish d c) :
    Moves l d .unbound L (.probing i) L
  | early (i : Nat) (L : Ledger ProbeItem) (c : ProbeCalls) (hl : l = .finish d c)
      (hc : c.FailsEarly) : Moves l d (.probing i) L .unbound L
  | late (i : Nat) (L : Ledger ProbeItem) (lost : Multiset ProbeItem) :
    Moves l d (.probing i) L .unbound ⟨lost + .irq ::ₘ L.live, L.sound⟩
  | probed (i n : Nat) (L : Ledger ProbeItem) (hn : 0 < n) (hn' : n ≤ 8) :
    Moves l d (.probing i) L (.bound i n) ⟨↑(probedItems n i) + L.live, L.sound⟩
  | remove (i n : Nat) (L : Ledger ProbeItem) (hl : ∀ c, l ≠ .finish d c) :
    Moves l d (.bound i n) L .unbound (L.run (tapedevRemove n i))

section
variable {s t : Sys} {l : Label} {d : Nat}

theorem Sys.Step.moves (hs : s.Step l t) (d : Nat) :
    Moves l d (s.binding d) (s.ledger d) (t.binding d) (t.ledger d) := by
  have hstay : (∀ c, l ≠ .finish d c) →
      Moves l d (s.binding d) (s.ledger d) (s.binding d) (s.ledger d) := Moves.stay _ _
  cases hs with
  | refused e kzalloc => exact hstay (by simp)
  | take e i kzalloc hd hi =>
    by_cases hde : d = e
    · subst hde
      simpa [hd] using Moves.take i (s.ledger d) (by simp)
    · simpa [hde] using hstay (by simp)
  | failed e i c hd hi herr =>
    by_cases hde : d = e
    · subst hde
      rcases probe_outcome hi (s.ledger d) with ⟨hearly, -, hrun⟩ | ⟨-, lost, hrun⟩ | ⟨hzero, -⟩
      · simpa [Sys.unbind, Sys.effects, hrun, hd] using Moves.early i (s.ledger d) c rfl hearly
      · simpa [Sys.unbind, Sys.effects, hrun, hd] using Moves.late i (s.ledger d) lost
      · exact absurd hzero herr
    · simpa [Sys.unbind, Sys.effects, hde] using hstay (by simp [Ne.symm hde])
  | probed e i c hd hi herr =>
    by_cases hde : d = e
    · subst hde
      rcases probe_outcome hi (s.ledger d) with ⟨-, hne, -⟩ | ⟨hne, -⟩ | ⟨-, hn, hn', hrun⟩
      · exact absurd herr hne
      · exact absurd herr hne
      · simpa [Sys.effects, hrun, hd] using Moves.probed i c.numSections (s.ledger d) hn hn'
    · simpa [Sys.effects, hde] using hstay (by simp [Ne.symm hde])
  | remove e i n hd =>
    by_cases hde : d = e
    · subst hde
      simpa [Sys.unbind, Sys.effects, hd] using Moves.remove i n (s.ledger d) (by simp)
    · simpa [Sys.unbind, Sys.effects, hde] using hstay (by simp)

end

/-! ## The table -/

/-- Who has which entry, from both sides. -/
def Paired (slot devices : Nat → Option Nat) : Prop := ∀ d i, slot d = some i ↔ devices i = some d

section
variable {slot devices : Nat → Option Nat} {d i : Nat}

theorem Paired.add (h : Paired slot devices) (hd : slot d = none) (hi : devices i = none) :
    Paired (Function.update slot d (some i)) (Function.update devices i (some d)) := by
  intro e j
  by_cases he : e = d
  · subst he
    by_cases hj : j = i
    · subst hj
      simp
    · have hnot : devices j ≠ some e := by
        intro hj'
        cases ((h e j).mpr hj').symm.trans hd
      simp [hj, hnot, Ne.symm hj]
  · by_cases hj : j = i
    · subst hj
      have hnot : slot e ≠ some j := by
        intro he'
        cases ((h e j).mp he').symm.trans hi
      simp [he, hnot, Ne.symm he]
    · simpa [he, hj] using h e j

theorem Paired.drop (h : Paired slot devices) (hd : slot d = some i) :
    Paired (Function.update slot d none) (Function.update devices i none) := by
  have hi : devices i = some d := (h d i).mp hd
  intro e j
  by_cases he : e = d
  · subst he
    by_cases hj : j = i
    · simp [hj]
    · have hnot : devices j ≠ some e := by
        intro hj'
        exact hj (Option.some.inj (((h e j).mpr hj').symm.trans hd))
      simp [hj, hnot]
  · by_cases hj : j = i
    · subst hj
      have hnot : slot e ≠ some j := by
        intro he'
        exact he (Option.some.inj (((h e j).mp he').symm.trans hi))
      simp [he, hnot]
    · simpa [he, hj] using h e j

end

structure Inv (s : Sys) : Prop where
  paired : Paired (fun d => (s.binding d).slot) s.devices
  range : ∀ d i, (s.binding d).slot = some i → i < MAX_DEVICES_TAPEDEV
  sound : ∀ d, (s.ledger d).sound = true
  /-- a bound device has all that the probe has acquired -/
  has : ∀ d i n, s.binding d = .bound i n →
    (0 < n ∧ n ≤ 8) ∧ ∃ rest, (s.ledger d).live = ↑(probedItems n i) + rest

section
variable {s t : Sys} {l : Label}

theorem freeSlot_spec {used : Nat → Bool} {i : Nat} (h : freeSlot used = some i) :
    i < MAX_DEVICES_TAPEDEV ∧ used i = false := by
  refine ⟨List.mem_range.mp (List.mem_of_find?_eq_some h), ?_⟩
  simpa using List.find?_some h

theorem slot_update (binding : Nat → Binding) (d : Nat) (b : Binding) :
    (fun e => (Function.update binding d b e).slot) =
      Function.update (fun e => (binding e).slot) d b.slot := by
  funext e
  by_cases he : e = d
  · subst he
    simp
  · simp [he]

/-- An entry is given back. -/
theorem Inv.unbind {d i : Nat} (hinv : Inv s) (ops : List (Op ProbeItem))
    (hd : (s.binding d).slot = some i) :
    Paired (fun e => (((s.effects d ops).unbind d i).binding e).slot)
        ((s.effects d ops).unbind d i).devices ∧
      ∀ e j, (((s.effects d ops).unbind d i).binding e).slot = some j →
        j < MAX_DEVICES_TAPEDEV := by
  refine ⟨?_, fun e j hj => ?_⟩
  · simp only [Sys.unbind, Sys.effects, slot_update]
    exact hinv.paired.drop hd
  · by_cases hed : e = d
    · subst hed
      simp [Sys.unbind, Binding.slot] at hj
    · exact hinv.range e j (by simpa [Sys.unbind, Sys.effects, hed] using hj)

/-- The table after a step. -/
theorem Inv.table (hinv : Inv s) (hs : s.Step l t) :
    Paired (fun d => (t.binding d).slot) t.devices ∧
      ∀ d i, (t.binding d).slot = some i → i < MAX_DEVICES_TAPEDEV := by
  cases hs with
  | refused => exact ⟨hinv.paired, hinv.range⟩
  | take d i kzalloc hd hi =>
    obtain ⟨hlt, hfree⟩ := freeSlot_spec hi
    have hnone : s.devices i = none := by simpa [Sys.used] using hfree
    have hslot : (s.binding d).slot = none := by rw [hd]; rfl
    refine ⟨?_, fun e j hj => ?_⟩
    · simp only [slot_update]
      exact hinv.paired.add hslot hnone
    · by_cases hed : e = d
      · subst hed
        have hij : i = j := by simpa [Binding.slot] using hj
        exact hij ▸ hlt
      · exact hinv.range e j (by simpa [hed] using hj)
  | failed d i c hd => exact hinv.unbind _ (by rw [hd]; rfl)
  | probed d i c hd =>
    -- the entry is the one that the probe has taken
    have hsame : (fun e => (Function.update s.binding d (.bound i c.numSections) e).slot) =
        fun e => (s.binding e).slot := by
      rw [slot_update]
      exact Function.update_eq_self_iff.mpr (by rw [hd]; rfl)
    refine ⟨?_, fun e j hj => hinv.range e j ((congrFun hsame e).symm.trans hj)⟩
    simp only [Sys.effects, hsame]
    exact hinv.paired
  | remove d i n hd => exact hinv.unbind _ (by rw [hd]; rfl)

theorem Inv.step (hinv : Inv s) (h : s.next l = some t) : Inv t := by
  obtain ⟨hpaired, hrange⟩ := hinv.table (Sys.next_step h)
  have hdev : ∀ d, (t.ledger d).sound = true ∧
      ∀ i n, t.binding d = .bound i n →
        (0 < n ∧ n ≤ 8) ∧ ∃ rest, (t.ledger d).live = ↑(probedItems n i) + rest := by
    intro d
    have hsound := hinv.sound d
    have hhas := hinv.has d
    have hmoves := (Sys.next_step h).moves d
    generalize s.binding d = b at hmoves hhas
    generalize s.ledger d = L at hmoves hhas hsound
    generalize t.binding d = b' at hmoves ⊢
    generalize t.ledger d = L' at hmoves ⊢
    cases hmoves with
    | stay => exact ⟨hsound, hhas⟩
    | take => exact ⟨hsound, fun i n hb => by cases hb⟩
    | early => exact ⟨hsound, fun i n hb => by cases hb⟩
    | late => exact ⟨hsound, fun i n hb => by cases hb⟩
    | probed i n L hn hn' =>
      refine ⟨hsound, fun i' n' hb => ?_⟩
      cases hb
      exact ⟨⟨hn, hn'⟩, _, rfl⟩
    | remove i n =>
      obtain ⟨-, rest, hrest⟩ := hhas i n rfl
      rw [run_tapedevRemove hrest]
      exact ⟨hsound, fun i n hb => by cases hb⟩
  exact ⟨hpaired, hrange, fun d => (hdev d).1, fun d => (hdev d).2⟩

theorem Inv.reach (h : tapes.Reach s) : Inv s := by
  refine Lts.invariant (fun s hs => ?_) (fun s l t _ hinv h => hinv.step h) h
  refine ⟨fun d i => ?_, fun d i hi => ?_, fun d => ?_, fun d i n hb => ?_⟩
  · simp [hs.binding d, hs.devices i, Binding.slot]
  · rw [hs.binding d] at hi
    cases hi
  · rw [hs.ledger d]
  · rw [hs.binding d] at hb
    cases hb

end

/-! ## The names of the disks -/

/-- What `"tapedev%us%u"` prints. -/
def printedName (deviceId sectionId : Nat) : List Char :=
  ['t', 'a', 'p', 'e', 'd', 'e', 'v'] ++
    (Nat.toDigits 10 deviceId ++ 's' :: Nat.toDigits 10 sectionId)

/-- `disk_name`: `snprintf` writes 14 characters and the NUL. -/
def diskName (deviceId sectionId : Nat) : List Char := (printedName deviceId sectionId).take 14

/-- The numbers in a name. -/
def readName (name : List Char) : Nat × Nat :=
  let numbers := name.drop 7
  (Nat.ofDigitChars 10 (numbers.takeWhile (· ≠ 's')) 0,
    Nat.ofDigitChars 10 ((numbers.dropWhile (· ≠ 's')).drop 1) 0)

theorem toDigits_ne_s {i : Nat} : ∀ c ∈ Nat.toDigits 10 i, decide (c ≠ 's') = true := by
  intro c hc
  refine decide_eq_true fun hs => ?_
  have hdigit := Nat.isDigit_of_mem_toDigits (by decide) le_rfl hc
  rw [hs] at hdigit
  cases hdigit

/-- A name can be read back, and 14 characters are enough for it. -/
theorem readName_diskName {i k : Nat} (hi : i < MAX_DEVICES_TAPEDEV) (hk : k < 8) :
    readName (diskName i k) = (i, k) ∧ diskName i k = printedName i k := by
  have hlen : (Nat.toDigits 10 i).length ≤ 3 :=
    Nat.toDigits_length 10 i 3 (by decide) (hi.trans (by decide))
  have hlen' : (Nat.toDigits 10 k).length ≤ 1 :=
    Nat.toDigits_length 10 k 1 (by decide) (hk.trans (by decide))
  have hfull : diskName i k = printedName i k := by
    refine List.take_of_length_le ?_
    simp only [printedName, List.length_append, List.length_cons, List.length_nil]
    omega
  have hdrop : (printedName i k).drop 7 = Nat.toDigits 10 i ++ 's' :: Nat.toDigits 10 k := rfl
  refine ⟨?_, hfull⟩
  rw [hfull, readName, hdrop, List.takeWhile_append_of_pos toDigits_ne_s,
    List.dropWhile_append_of_pos toDigits_ne_s, List.takeWhile_cons_of_neg (by decide),
    List.dropWhile_cons_of_neg (by decide), List.append_nil, List.drop_one,
    List.tail_cons, Nat.ofDigitChars_ten_toDigits, Nat.ofDigitChars_ten_toDigits]

/-- **Every disk has a name of its own.** In every order of probes and removals of any number of
devices, also when probes run at the same time: a device has at most eight disks, the names of the
disks of all devices that are bound or being probed are different, and `snprintf` cuts none of
them off. -/
theorem disks_distinct {s : Sys} (h : tapes.Reach s) {d d' i i' k k' : Nat}
    (hd : (s.binding d).slot = some i) (hd' : (s.binding d').slot = some i')
    (hk : k < 8) (hk' : k' < 8) :
    (∀ n, s.binding d = .bound i n → n ≤ 8) ∧ diskName i k = printedName i k ∧
      (diskName i k = diskName i' k' → d = d' ∧ k = k') := by
  have hinv := Inv.reach h
  obtain ⟨hread, hfull⟩ := readName_diskName (hinv.range d i hd) hk
  obtain ⟨hread', -⟩ := readName_diskName (hinv.range d' i' hd') hk'
  refine ⟨fun n hn => (hinv.has d i n hn).1.2, hfull, fun hname => ?_⟩
  rw [hname, hread'] at hread
  obtain ⟨rfl, rfl⟩ := Prod.mk.inj hread
  have hdev : some d = some d' := ((hinv.paired d _).mp hd).symm.trans ((hinv.paired d' _).mp hd')
  exact ⟨Option.some.inj hdev, rfl⟩

def loaded : Sys := ⟨fun _ => none, fun _ => .unbound, fun _ => ⟨0, true⟩⟩

theorem loaded_initial : loaded.Initial := ⟨fun _ => rfl, fun _ => rfl, fun _ => rfl⟩

/-- Two devices that are probed at the same time. -/
theorem disks_distinct_two : ∃ s, tapes.Reach s ∧ s.binding 0 = .bound 0 1 ∧
    s.binding 1 = .probing 1 ∧ diskName 0 0 ≠ diskName 1 0 := by
  let run : List Label := [.take 0 true, .take 1 true, .finish 0 oneSection]
  let s := (tapes.exec loaded run).get (by decide +kernel)
  have hs : tapes.exec loaded run = some s := (Option.some_get _).symm
  have hreach : tapes.Reach s := Lts.reach_exec (.init loaded_initial) hs
  have h0 : s.binding 0 = .bound 0 1 := by decide +kernel
  have h1 : s.binding 1 = .probing 1 := by decide +kernel
  refine ⟨s, hreach, h0, h1, fun hname => ?_⟩
  have hslot0 : (s.binding 0).slot = some 0 := by rw [h0]; rfl
  have hslot1 : (s.binding 1).slot = some 1 := by rw [h1]; rfl
  cases ((disks_distinct hreach hslot0 hslot1 (by decide) (by decide)).2.2 hname).1

/-! ## What is left behind -/

/-- What a device should have. -/
def Binding.items : Binding → List ProbeItem
  | .bound i n => probedItems n i
  | _ => []

/-- What nobody will release. -/
def Sys.lost (s : Sys) (d : Nat) : Multiset ProbeItem :=
  (s.ledger d).live - ↑(s.binding d).items

/-- The probe has returned 0. -/
def Binding.isBound : Binding → Bool
  | .bound _ _ => true
  | _ => false

section
variable {s t : Sys} {l : Label} {d : Nat}

/-- The step of a probe that gets as far as `request_irq`. -/
def Label.PastIrq (l : Label) (d : Nat) : Prop := ∃ c, l = .finish d c ∧ ¬ c.FailsEarly

/-- A step loses something more, or the device is bound afterwards if it was, or if its probe has
got as far as `request_irq`. -/
theorem lost_step (hinv : Inv s) (h : s.next l = some t) :
    s.lost d ≤ t.lost d ∧ (l.PastIrq d ∨ (s.binding d).isBound = true →
      s.lost d < t.lost d ∨ (t.binding d).isBound = true) := by
  have hhas := hinv.has d
  have hmoves := (Sys.next_step h).moves d
  unfold Sys.lost
  generalize s.binding d = b at hmoves hhas
  generalize s.ledger d = L at hmoves hhas
  generalize t.binding d = b' at hmoves
  generalize t.ledger d = L' at hmoves
  cases hmoves with
  | stay _ _ hl =>
    refine ⟨le_rfl, ?_⟩
    rintro (⟨c, hc, -⟩ | hb)
    · exact absurd hc (hl c)
    · exact .inr hb
  | take i _ hl =>
    refine ⟨le_rfl, ?_⟩
    rintro (⟨c, hc, -⟩ | hb)
    · exact absurd hc (hl c)
    · cases hb
  | early i _ c hl hc =>
    refine ⟨le_rfl, ?_⟩
    rintro (⟨c', hc', hlate⟩ | hb)
    · rw [hl] at hc'
      cases hc'
      exact absurd hc hlate
    · cases hb
  | late i L lost =>
    have hlt : L.live - ↑(Binding.probing i).items <
        (lost + ProbeItem.irq ::ₘ L.live) - ↑Binding.unbound.items := by
      simp only [Binding.items, Multiset.coe_nil, tsub_zero]
      exact (Multiset.lt_cons_self _ _).trans_le (Multiset.le_add_left _ _)
    exact ⟨hlt.le, fun _ => .inl hlt⟩
  | probed i n L hn hn' =>
    refine ⟨?_, fun _ => .inr rfl⟩
    simp only [Binding.items, Multiset.coe_nil, tsub_zero, add_tsub_cancel_left]
    exact le_rfl
  | remove i n =>
    obtain ⟨⟨hn, -⟩, rest, hrest⟩ := hhas i n rfl
    have hleft : 0 < (below n [.dmaBuf, .tagSet] : Multiset ProbeItem) := by
      rw [pos_iff_ne_zero, ← Multiset.card_pos, Multiset.coe_card, below_length]
      exact Nat.mul_pos hn (by decide)
    have hlt : L.live - ↑(Binding.bound i n).items <
        (L.run (tapedevRemove n i)).live - ↑Binding.unbound.items := by
      rw [run_tapedevRemove hrest, hrest]
      simp only [Binding.items, Multiset.coe_nil, tsub_zero, add_tsub_cancel_left]
      exact lt_add_of_pos_left _ hleft
    exact ⟨hlt.le, fun _ => .inl hlt⟩

/-- The same for a whole run. -/
theorem lost_exec (hinv : Inv s) {ls : List Label} (h : tapes.exec s ls = some t) :
    s.lost d ≤ t.lost d ∧ ((∃ l ∈ ls, l.PastIrq d) ∨ (s.binding d).isBound = true →
      s.lost d < t.lost d ∨ (t.binding d).isBound = true) := by
  induction ls generalizing s with
  | nil =>
    cases h
    refine ⟨le_rfl, ?_⟩
    rintro (⟨l, hl, -⟩ | hb)
    · cases hl
    · exact .inr hb
  | cons l ls ih =>
    obtain ⟨u, hu, h⟩ := Option.bind_eq_some_iff.mp h
    obtain ⟨hle, hlost⟩ := lost_step (d := d) hinv hu
    obtain ⟨hle', hlost'⟩ := ih (hinv.step hu) h
    refine ⟨hle.trans hle', ?_⟩
    -- what the first step does is not undone by the others
    have hfirst : l.PastIrq d ∨ (s.binding d).isBound = true →
        s.lost d < t.lost d ∨ (t.binding d).isBound = true := by
      intro hl
      rcases hlost hl with hlt | hb
      · exact .inl (hlt.trans_le hle')
      · exact (hlost' (.inr hb)).imp hle.trans_lt id
    rintro (⟨l', hmem, hl'⟩ | hb)
    · rcases List.mem_cons.mp hmem with rfl | hmem
      · exact hfirst (.inl hl')
      · exact (hlost' (.inl ⟨l', hmem, hl'⟩)).imp hle.trans_lt id
    · exact hfirst (.inr hb)

theorem lost_unbound (h : s.binding d = .unbound) : s.lost d = (s.ledger d).live := by
  rw [Sys.lost, h]
  exact tsub_zero _

end

/-- **What is left behind stays.** In every order of probes and removals of any number of devices,
nothing is released that is not live. But take a device that is not bound, before and after any
steps: it has all that it had, and if in between one of its probes has got as far as
`request_irq`, it has more, whether that probe failed or the device was removed again. -/
theorem leaks_accumulate {s t : Sys} (h : tapes.Reach s) {ls : List Label}
    (hrun : tapes.exec s ls = some t) :
    (∀ d, (t.ledger d).sound = true) ∧
      ∀ d, s.binding d = .unbound → t.binding d = .unbound →
        (s.ledger d).live ≤ (t.ledger d).live ∧
        ((∃ c, .finish d c ∈ ls ∧ ¬ c.FailsEarly) → (s.ledger d).live < (t.ledger d).live) := by
  have hinv := Inv.reach h
  refine ⟨(Inv.reach (Lts.reach_exec h hrun)).sound, fun d hs ht => ?_⟩
  obtain ⟨hle, hlost⟩ := lost_exec (d := d) hinv hrun
  rw [lost_unbound hs, lost_unbound ht] at hle hlost
  refine ⟨hle, ?_⟩
  rintro ⟨c, hmem, hlate⟩
  rcases hlost (.inl ⟨_, hmem, c, rfl, hlate⟩) with hlt | hb
  · exact hlt
  · rw [ht] at hb
    cases hb

/-- A device that comes and goes, while another one is being probed. -/
theorem leaks_accumulate_remove : ∃ t : Sys, tapes.Reach t ∧ t.binding 0 = .unbound ∧
    (∀ d, (t.ledger d).sound = true) ∧ 0 < (t.ledger 0).live := by
  let run : List Label := [.take 0 true, .take 1 true, .finish 0 oneSection, .remove 0]
  let t := (tapes.exec loaded run).get (by decide +kernel)
  have ht : tapes.exec loaded run = some t := (Option.some_get _).symm
  have hunbound : t.binding 0 = .unbound := by decide +kernel
  have hlate : ¬ oneSection.FailsEarly := by
    unfold ProbeCalls.FailsEarly
    decide +kernel
  have hinit : tapes.Reach loaded := .init loaded_initial
  obtain ⟨hsound, hleaks⟩ := leaks_accumulate hinit ht
  exact ⟨t, Lts.reach_exec hinit ht, hunbound, hsound,
    (hleaks 0 rfl hunbound).2 ⟨oneSection, by simp [run], hlate⟩⟩

end Zso.Tape.Devices
