import Zso.Tape.Dma
import Zso.Tape.Progress

/-!
# A section is a flat disk

Along every run from an idle state the section does what a flat disk does: `Follows`
gives the flat disk at each moment, and whenever no request is pending it holds what the
tapes hold. If the threads go on, every request is ended (`section_refines_flat_disk`).

The CPU leaves the memory of a request alone until the request is ended (`KeepsLent`).
-/

namespace Zso.Tape
open Bits Transition

variable {β : Type}

/-- The block `pos` of a tape, where the device looks for it. -/
def Dev.block (d : Dev β) (tape pos : Nat) : β :=
  d.sec.aadb (aaar { d.sec with aaaa := tape, aaaf := pos * d.sec.blockSize } / 512)

/-- The flat disk is as the section has it: the logical block `k` is a block of the tape
`k / T + 1`. -/
structure Sys.Shows (s : Sys (realDevice β)) (f : Flat β) : Prop where
  disk : ∀ k, k < s.sec.info.sectors →
    f.disk k = s.dev.block (k / s.sec.info.blocksInTape + 1) (k % s.sec.info.blocksInTape)
  mem : f.mem = s.dev.mem

/-- The step `i` of a run, as seen from outside. -/
def actionAt (run : Run (smallSystem β) WithinTapes) (i : Nat) : Action β :=
  (run.state i).action (run.state (i + 1)) (run.label i)

/-- The flat disk goes along with the run. -/
structure Follows (run : Run (smallSystem β) WithinTapes) (f : Nat → Flat β) : Prop where
  step : ∀ i, (f i).Step (actionAt run i) (f (i + 1))
  outstanding : ∀ i, (run.state i).outstanding = (f i).pending.map Prod.fst
  shows : ∀ i, (f i).pending = none → (run.state i).Shows (f i)

/-- Until a request is ended, the CPU does not write to its memory. -/
def KeepsLent (run : Run (smallSystem β) WithinTapes) : Prop :=
  ∀ i j mem write start env, j < i → run.label j = .queueRq (some write) start env →
    (run.state i).outstanding = some (run.state j).nextReq → run.label i = .tick (.cpu mem) →
    ∀ b ∈ Request.blocks ⟨write, start, env⟩, mem (b / 512) = (run.state i).dev.mem (b / 512)

/-! ## What holds along a run -/

/-- What the steps of a section rely on. -/
structure Sys.Running (s : Sys (realDevice β)) : Prop where
  flow : s.Flow
  awake : s.Awake
  small : s.sec.info.Small
  mounted : s.dev.sec.Mounted s.sec.info

section
variable {s t : Sys (realDevice β)} {f f' : Flat β} {l : Label (realDevice β)}

theorem Sys.Running.ready (h : s.Running) : s.Ready :=
  ⟨h.small, h.mounted, fun hb => of_decide_eq_true (h.awake.ready hb)⟩

theorem Sys.Fitted.running (h : s.Fitted) : s.Running where
  flow := h.toInitial.flow
  awake := by
    refine ⟨fun _ => h.dev, ?_⟩
    rw [h.log]
    rintro e ⟨⟩
  small := h.small
  mounted := h.mounted

theorem running_step (h : s.Running) (hok : HostOk s l) (hs : s.next l = some t) : t.Running := by
  have hstep := Sys.next_step h.flow hs
  obtain ⟨hg, hi⟩ := hstep.geometry
  exact ⟨flow_step h.flow hstep, awake_step h.awake h.flow hok hstep, hi ▸ h.small,
    hi ▸ h.mounted.congr hg⟩

theorem running_reachOn (h : (smallSystem β).ReachOn HostOk s) : s.Running :=
  Lts.invariantOn (P := Sys.Running) (fun _ => Sys.Fitted.running)
    (fun _ _ _ _ hr hok hs => running_step hr hok hs) h

theorem WithinTapes.hostOk (h : WithinTapes s l) : HostOk s l := by
  cases l with
  | tick a =>
    cases a with
    | io x => exact h.toOk
    | cpu mem => trivial
  | _ => trivial

theorem WithinTapes.notOther (h : WithinTapes s l) : ∀ level, l ≠ .otherLine level := by
  rintro level rfl
  exact h

/-- The blocks of the tapes lie one after another. -/
theorem Dev.block_eq {d : Dev β} {info : SectionInfo} (hm : d.sec.Mounted info)
    (hi : info.Small) {k : Nat} (hk : k < info.sectors) :
    d.block (k / info.blocksInTape + 1) (k % info.blocksInTape) = d.sec.aadb k := by
  have hsize := hi.size
  have hpos : k / info.blocksInTape * (512 * info.blocksInTape) + k % info.blocksInTape * 512 =
      512 * k := by
    calc _ = 512 * (info.blocksInTape * (k / info.blocksInTape) + k % info.blocksInTape) := by ring
      _ = 512 * k := by rw [Nat.div_add_mod]
  have haddr : aaar { d.sec with
      aaaa := k / info.blocksInTape + 1, aaaf := k % info.blocksInTape * d.sec.blockSize } =
      512 * k := by
    have hmount : Aacc.Mounted info { d.sec with
        aaaa := k / info.blocksInTape + 1
        aaaf := k % info.blocksInTape * d.sec.blockSize } := hm.congr rfl
    rw [aaar, hmount.tapeSize hi.blk, hm.blockSize, Nat.add_sub_cancel, hpos, u32_of_lt (by omega)]
  rw [Dev.block, haddr, Nat.mul_div_cancel_left k (by decide)]

/-- Nothing is pending, so the data is at rest. -/
theorem Sys.Serving.shows (h : s.Serving f) (hr : s.Running) (hp : f.pending = none) :
    s.Shows f := by
  have hstill : s.dev.Still f := by
    cases h with
    | free hp' ho hi hq he =>
      have ht := hr.flow.tracks
      cases hq' : s.sec.cmdQueue with
      | nil => exact he.empty hq'
      | cons n rest =>
        rw [hq'] at ht
        have hrun := he.head n rest hq'
        rcases ht with hex | ⟨st, hrep⟩ | hst
        · exact hrun.executing hex
        · exact (hrun.reported st hrep).2
        · cases hst.idle.symm.trans (hr.awake.ready hst.resting)
    | submitting r q hown => cases hp.symm.trans hown.pending
    | queued r q pre post hown => cases hp.symm.trans hown.pending
    | served r q i post hown => cases hp.symm.trans hown.pending
  refine ⟨fun k hk => ?_, hstill.mem.symm⟩
  rw [Dev.block_eq hr.mounted hr.small hk, hstill.disk]

/-- An idle section is a flat disk with what its tapes hold. -/
theorem Sys.Shaped.serving (h : s.Shaped) (hq : s.sec.cmdQueue = []) (ho : s.outstanding = none) :
    s.Serving s.dev.flat := by
  have hsub : s.submit = .idle := by
    obtain ⟨pre, suf, post, hp⟩ := h
    have hreq := hp.request
    unfold Sys.RequestOk at hreq
    split at hreq
    · assumption
    · cases ho.symm.trans hreq.2.1
    · cases ho.symm.trans hreq.2.1
    · cases ho.symm.trans hreq.2.1
  refine .free rfl ho hsub (by rw [hq]; rintro n ⟨⟩) ⟨fun _ => ⟨rfl, rfl⟩, fun n rest hn => ?_⟩
  cases hq.symm.trans hn

end

/-! ## Runs -/

section
variable {run : Run (smallSystem β) WithinTapes} {f : Nat → Flat β}

theorem run_running (h : (smallSystem β).ReachOn HostOk (run.state 0)) (i : Nat) :
    (run.state i).Running := by
  induction i with
  | zero => exact running_reachOn h
  | succ i ih => exact running_step ih (run.meets i).hostOk (run.step i)

theorem run_step (h : (smallSystem β).ReachOn HostOk (run.state 0)) (i : Nat) :
    (run.state i).Step (run.label i) (run.state (i + 1)) :=
  Sys.next_step (run_running h i).flow (run.step i)

theorem run_heard (h : (smallSystem β).ReachOn HostOk (run.state 0))
    (hq : (run.state 0).sec.cmdQueue = []) (i : Nat) : (run.state i).Heard := by
  induction i with
  | zero =>
    have hquiet := (run_running h 0).flow.quiet hq
    rintro (hb | hb)
    · cases hquiet.done.symm.trans hb
    · cases hquiet.error.symm.trans hb
  | succ i ih => exact heard_step ih (run_step h i) (run.meets i).notOther

/-- The request that is pending has been handed over before the step `i`. -/
def HandedOver (run : Run (smallSystem β) WithinTapes) (i : Nat) (f : Flat β) : Prop :=
  ∀ r q, f.pending = some (r, q) →
    ∃ j, j < i ∧ run.label j = .queueRq (some q.write) q.start q.env ∧ (run.state j).nextReq = r

theorem actionAt_submit {i r : Nat} {q : Request} (h : actionAt run i = .submit r q) :
    run.label i = .queueRq (some q.write) q.start q.env ∧ (run.state i).nextReq = r := by
  unfold actionAt Sys.action at h
  split at h
  · next hl =>
    cases h
    exact ⟨hl, rfl⟩
  · cases h
  · cases h

theorem HandedOver.step {i : Nat} {f f' : Flat β} (h : HandedOver run i f)
    (hs : f.Step (actionAt run i) f') : HandedOver run (i + 1) f' := by
  have hkeep : f'.pending = f.pending → HandedOver run (i + 1) f' := by
    intro he r q hp
    obtain ⟨j, hj, hl, hn⟩ := h r q (he ▸ hp)
    exact ⟨j, Nat.lt_succ_of_lt hj, hl, hn⟩
  generalize ha : actionAt run i = a at hs
  cases hs with
  | submit r q hp =>
    rintro r' q' ⟨⟩
    exact ⟨i, Nat.lt_succ_self i, actionAt_submit ha⟩
  | finish r q f' hp hmv hp' =>
    intro r' q' hq
    cases hp'.symm.trans hq
  | refuse r q status hp =>
    rintro r' q' ⟨⟩
  | cpu mem => exact hkeep rfl
  | silent => exact hkeep rfl

/-- The CPU leaves alone what is lent to the pending request. -/
theorem KeepsLent.lent (h : KeepsLent run) {i : Nat} {f : Flat β}
    (hserve : (run.state i).Serving f) (hh : HandedOver run i f) (mem : Nat → β)
    (hl : run.label i = .tick (.cpu mem)) : ∀ a ∈ f.lent, mem a = (run.state i).dev.mem a := by
  intro a ha
  cases hp : f.pending with
  | none => simp [Flat.lent, hp] at ha
  | some p =>
    obtain ⟨r, q⟩ := p
    obtain ⟨j, hj, hlabel, hn⟩ := hh r q hp
    rw [Flat.lent, hp] at ha
    obtain ⟨b, hb, rfl⟩ := List.mem_map.mp ha
    have ho : (run.state i).outstanding = some (run.state j).nextReq := by
      rw [hserve.outstanding_eq, hp, hn]
      rfl
    exact h i j mem _ _ _ hj hlabel ho hl b hb

/-- While a request is pending, the threads work towards its end. -/
theorem run_progress (hreach : (smallSystem β).ReachOn HostOk (run.state 0))
    (hq : (run.state 0).sec.cmdQueue = []) (hserve : ∀ i, (run.state i).Serving (f i))
    (hstep : ∀ i, (f i).Step (actionAt run i) (f (i + 1))) (r : Nat) (q : Request) :
    Run.Progress run (fun th s => Thread.Due s th) (fun th l => Thread.Does l th)
      (fun i => (f i).pending = some (r, q))
      (fun i => ∃ st, actionAt run i = .ended [(r, st)] ∧ (q.Allocated → st = .ok))
      (fun i => (run.state i).rank) (fun i => (run.state i).duty) where
  due i hp :=
    have hr := run_running hreach i
    (hserve i).due hr.ready hr.flow (run_heard hreach hq i) hp
  step i hp := by
    have hr := run_running hreach i
    refine ((hstep i).ended_or_pending hp).imp_right fun hp' => ⟨hp', ?_⟩
    exact progress_step (hserve i) hr.ready hr.flow hp (hserve (i + 1)) hp' (run_step hreach i)
      (run.meets i).notOther

/-- **The flat disk.** From every idle state a section can be in, whatever the order of the
steps, the requests do to the section what they do to the flat disk that it shows. In a run
in which no thread stops for ever, each request is ended. It is ended with BLK_STS_OK
unless the driver could not allocate memory for it. -/
theorem section_refines_flat_disk (run : Run (smallSystem β) WithinTapes)
    (hreach : (smallSystem β).ReachOn HostOk (run.state 0))
    (hidle : (run.state 0).sec.cmdQueue = [] ∧ (run.state 0).outstanding = none)
    (hcpu : KeepsLent run) :
    ∃ f : Nat → Flat β, Follows run f ∧
      ((∀ th : Thread, run.Fair (fun s => th.Due s) fun l => th.Does l) →
        ∀ i r q, (f i).pending = some (r, q) →
          ∃ j st, i ≤ j ∧ actionAt run j = .ended [(r, st)] ∧ (q.Allocated → st = .ok)) := by
  have hstart : (run.state 0).Serving (run.state 0).dev.flat := by
    refine Sys.Shaped.serving (shaped_reachOn (G := HostOk) ?_) hidle.1 hidle.2
    exact hreach.restart (fun s hs => .init hs.toInitial) rfl
  obtain ⟨f, -, hinv, hstep⟩ := exists_follow
    (P := fun i f => (run.state i).Serving f ∧ HandedOver run i f)
    (R := fun i f f' => f.Step (actionAt run i) f')
    (a := (run.state 0).dev.flat) ⟨hstart, by rintro r q ⟨⟩⟩ (by
      rintro i f ⟨hs, hh⟩
      have hr := run_running hreach i
      obtain ⟨f', hs', hst⟩ := serving_step hs hr.ready hr.flow (run.meets i) (hcpu.lent hs hh)
        (run_step hreach i)
      exact ⟨f', ⟨hs', hh.step hst⟩, hst⟩)
  have hserve : ∀ i, (run.state i).Serving (f i) := fun i => (hinv i).1
  refine ⟨f, ⟨hstep, fun i => (hserve i).outstanding_eq,
    fun i hp => (hserve i).shows (run_running hreach i) hp⟩, fun hfair i r q hp => ?_⟩
  obtain ⟨j, hij, st, hact, hok⟩ :=
    Run.eventually (run_progress hreach hidle.1 hserve hstep r q) hfair hp
  exact ⟨j, st, hij, hact, hok⟩

end

/-! ## A section with two tapes -/

theorem probedSection_fitted : probedSection.Fitted where
  toInitial := probedSection_initial
  small := ⟨rfl, by decide +kernel⟩
  mounted := ⟨by decide, rfl, rfl, rfl⟩

/-- A WRITE of one block, as far as the allocations go as `oom` says. -/
def oneBlock (oom : Nat → Bool) : Request := ⟨true, 3, oom, true, [⟨4096, 512⟩]⟩

theorem oneBlock_inTape (oom : Nat → Bool) : (oneBlock oom).InTape twoTapes where
  count := by simp [oneBlock, MAX_SG_PGT_ENTRIES]
  addr := by simp [oneBlock]
  len := by simp [oneBlock]
  disjoint := List.pairwise_singleton _ _
  start := by
    show 3 < twoTapes.sectors
    decide +kernel
  tape := by
    show 3 % twoTapes.blocksInTape + (requestBlocks [⟨4096, 512⟩]).length ≤ twoTapes.blocksInTape
    decide +kernel

/-- The driver has no memory for the first command of a WRITE, and ends it with an error. -/
theorem request_ended_without_memory :
    ∃ s : Sys (realDevice Nat), (smallSystem Nat).ReachOn WithinTapes s ∧
      .ended 0 .ioerr (some 0) ∈ s.log := by
  let M := smallSystem Nat
  let q := oneBlock fun _ => true
  let rq : Label (realDevice Nat) := .queueRq (some true) q.start q.env
  let s₁ := (M.next probedSection rq).get (by decide +kernel)
  let s := (M.exec s₁ [.build, .fail]).get (by decide +kernel)
  have h₁ : M.next probedSection rq = some s₁ := (Option.some_get _).symm
  have hs : M.exec s₁ [.build, .fail] = some s := (Option.some_get _).symm
  have hrq : WithinTapes probedSection rq := ⟨true, rfl, oneBlock_inTape _⟩
  have hr₁ : M.ReachOn WithinTapes s₁ := .step (.init probedSection_fitted) hrq h₁
  have hr : M.ReachOn WithinTapes s := by
    refine hr₁.exec (fun l hl s => ?_) hs
    simp only [List.mem_cons, List.not_mem_nil, or_false] at hl
    rcases hl with rfl | rfl <;> trivial
  exact ⟨s, hr, by decide +kernel⟩

/-- What the threads of a section have to do, and the request. -/
def Sys.threads (s : Sys (realDevice β)) : Nat × Bool × Option Snapshot × Bool × Option Nat :=
  (s.submit.left, s.dev.sec.aadg.busy, s.irq, s.line, s.outstanding)

/-- A run in which the threads have nothing left to do is fair to them. -/
theorem fair_of_rest {run : Run (smallSystem β) WithinTapes} {t : Sys (realDevice β)} {n : Nat}
    (hrest : t.threads = (0, false, none, false, none)) (hstay : ∀ i, n ≤ i → run.state i = t)
    (th : Thread) : run.Fair (fun s => th.Due s) fun l => th.Does l := by
  simp only [Sys.threads, Prod.mk.injEq] at hrest
  obtain ⟨hsub, hbusy, hirq, hline, -⟩ := hrest
  intro i hdue
  have hd := hdue (i + n) (Nat.le_add_right i n)
  rw [hstay _ (Nat.le_add_left n i)] at hd
  cases th with
  | submitter =>
    refine absurd ?_ hd
    cases h : t.submit with
    | idle => rfl
    | started => rw [h] at hsub; cases hsub
    | built => rw [h] at hsub; cases hsub
    | failed => rw [h] at hsub; cases hsub
  | device => cases hbusy.symm.trans hd
  | handler =>
    rcases hd with hd | hd
    · exact absurd hirq hd
    · cases hline.symm.trans hd

/-- The WRITE from its submission to its end: five commands, each with its interrupt. -/
theorem exists_oneBlock_run :
    ∃ run : Run (smallSystem Nat) WithinTapes, run.state 0 = probedSection ∧
      run.label 0 = .queueRq (some true) 3 (oneBlock fun _ => false).env ∧ KeepsLent run ∧
      ∀ th : Thread, run.Fair (fun s => th.Due s) fun l => th.Does l := by
  let M := smallSystem Nat
  let q := oneBlock fun _ => false
  let rq : Label (realDevice Nat) := .queueRq (some true) q.start q.env
  let s₁ := (M.next probedSection rq).get (by decide +kernel)
  let s₂ := (M.next s₁ .build).get (by decide +kernel)
  let io : Io := ⟨some s₂.sec.cpuDmaBuf, true, true, true⟩
  let finish : List (Label (realDevice Nat)) := [.tick (.io io), .snapshot, .readStatus, .handle]
  let ls : List (Label (realDevice Nat)) :=
    .splice :: (finish ++ finish ++ finish ++ finish ++ finish)
  have h₁ : M.next probedSection rq = some s₁ := (Option.some_get _).symm
  have h₂ : M.next s₁ .build = some s₂ := (Option.some_get _).symm
  have hrest : (M.exec s₂ ls).map Sys.threads = some (0, false, none, false, none) := by
    decide +kernel
  obtain ⟨t, ht, hrest⟩ := Option.map_eq_some_iff.mp hrest
  have hls : ∀ l ∈ ls, l = .splice ∨ l = .tick (.io io) ∨ l = .snapshot ∨ l = .readStatus ∨
      l = .handle := by
    intro l hl
    simp only [ls, finish, List.mem_cons, List.mem_append, List.not_mem_nil, or_false] at hl
    tauto
  have hrq : WithinTapes probedSection rq := ⟨true, rfl, oneBlock_inTape _⟩
  have hrun₂ : s₂.Running :=
    running_step (l := .build) (running_step (l := rq) probedSection_fitted.running trivial h₁)
      trivial h₂
  obtain ⟨run₂, hstart, hlabel, hstay⟩ : ∃ run₂ : Run M WithinTapes, run₂.state 0 = s₂ ∧
      (∀ i, run₂.label i ∈ ls ∨ ls.length ≤ i) ∧ ∀ i, ls.length ≤ i → run₂.state i = t := by
    refine Run.exists_exec (I := fun s => s.Flow ∧ s.sec.cpuDmaBuf = s₂.sec.cpuDmaBuf)
      (.tick (.cpu t.dev.mem)) ⟨hrun₂.flow, rfl⟩ (fun l hl s hI => ?_) ht trivial rfl
    refine ⟨?_, fun s' hs => ?_⟩
    · rcases hls l hl with rfl | rfl | rfl | rfl | rfl
      · trivial
      · refine ⟨⟨by simp [io], rfl, rfl, rfl⟩, ?_⟩
        rintro table ⟨⟩ i -
        rw [hI.2]
      · trivial
      · trivial
      · trivial
    · have hstep := Sys.next_step hI.1 hs
      refine ⟨flow_step hI.1 hstep, (hstep.cpuDmaBuf ?_).trans hI.2⟩
      rcases hls l hl with rfl | rfl | rfl | rfl | rfl <;> rintro ⟨⟩
  let run : Run M WithinTapes :=
    (run₂.cons s₁ .build (hstart ▸ h₂) trivial).cons probedSection rq h₁ hrq
  have hrun : ∀ i, ls.length + 2 ≤ i → run.state i = t := by
    intro i hi
    obtain ⟨k, rfl⟩ := Nat.exists_eq_add_of_le' (Nat.le_of_add_left_le hi)
    exact hstay k (Nat.le_of_add_le_add_right hi)
  refine ⟨run, rfl, rfl, ?_, fair_of_rest hrest hrun⟩
  -- the CPU writes only after the request has been ended
  intro i j mem write start env hji hq ho hl
  rcases i with - | - | i
  · cases hl
  · cases hl
  · have hno : run₂.label i ∉ ls := by
      rw [show run₂.label i = .tick (.cpu mem) from hl]
      intro hin
      rcases hls _ hin with h | h | h | h | h <;> cases h
    have ho' : t.outstanding = some (run.state j).nextReq := by
      rw [← hstay i ((hlabel i).resolve_left hno)]
      exact ho
    simp only [Sys.threads, Prod.mk.injEq] at hrest
    cases hrest.2.2.2.2.symm.trans ho'

/-- The WRITE is ended with BLK_STS_OK. -/
theorem section_refines_flat_disk_write :
    ∃ run : Run (smallSystem Nat) WithinTapes, run.state 0 = probedSection ∧
      actionAt run 0 = .submit 0 (oneBlock fun _ => false) ∧
      ∃ f : Nat → Flat Nat, Follows run f ∧ ∃ j, actionAt run j = .ended [(0, .ok)] := by
  obtain ⟨run, h0, hl, hcpu, hfair⟩ := exists_oneBlock_run
  have hact : actionAt run 0 = .submit 0 (oneBlock fun _ => false) := by
    rw [actionAt, h0, hl]
    rfl
  obtain ⟨f, hf, hend⟩ := section_refines_flat_disk run (h0 ▸ .init probedSection_fitted)
    (h0 ▸ ⟨rfl, rfl⟩) hcpu
  have hp : (f 1).pending = some (0, oneBlock fun _ => false) :=
    Flat.Step.submitted (hact ▸ hf.step 0)
  obtain ⟨j, st, -, hj, hok⟩ := hend hfair 1 0 _ hp
  rw [hok ⟨rfl, fun _ => rfl⟩] at hj
  exact ⟨run, h0, hact, f, hf, j, hj⟩

end Zso.Tape
