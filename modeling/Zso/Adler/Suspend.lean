import Zso.Adler.Places

/-!
# Suspend

`adlerdev_suspend` has to wait until nothing is running. It waits for a free buffer
instead, so with one buffer running it goes on at once: the interrupt is masked, the
device finishes, and `adlerdev_resume` acknowledges the interrupt nobody has seen.

* `suspend_quiescent`: nothing is lost if nothing runs when suspend leaves its loop, and no
  writer queues a buffer from then on until resume is done.
* `suspend_loses_completion`: otherwise a buffer can stay in `buffers_running` for ever.
-/

namespace Zso.Adler
open Transition

/-- The device has yet to process buffer `b`, or to have its interrupt handled. -/
def Sys.Coming (s : Sys) (b : Nat) : Prop :=
  (∃ w, s.At b (.held w true)) ∨
    s.At b .running ∧ s.dev.intrEnable = true ∧ (s.dev.dataSize ≠ 0 ∨ s.dev.intr = true)

/-- No write starts between suspend and resume. -/
def WritesWhenOn (s : Sys) : Label → Prop
  | .write _ _ _ => s.power = .on
  | l => ReleasedLast s l

section
variable {s : Sys} {b : Nat}

/-- A filled buffer is on its way, unless the device is suspended. -/
theorem Sys.Ok.coming_iff (h : s.Ok) (hon : s.power.awake = true) : s.Coming b ↔ s.Filled b := by
  constructor
  · rintro (hat | ⟨hat, -⟩)
    · exact .inr hat
    · exact .inl hat
  · rintro (hat | hat)
    · have hr : s.buffersRunning ≠ [] := List.ne_nil_of_mem hat
      exact .inr ⟨hat, h.enabled hon, h.running_iff.mp hr⟩
    · exact .inl hat

/-- **Suspend while nothing is running.** If nothing runs when suspend leaves its loop, and no writer
queues a buffer from then on until resume is done, then nothing is running when suspend returns,
what runs is always being processed or has its interrupt raised and enabled, and until suspend
has left its loop `pending_buffers` is the number of the file's buffers that the device has yet to
process and signal. -/
theorem suspend_quiescent (h : adler.ReachOn QuietSuspend s) :
    (s.power = .suspended → s.buffersRunning = []) ∧
      (∀ b, s.At b .running → s.Coming b) ∧
      (s.power.awake = true → ∀ c ctx, s.context c = some ctx → ∃ bs : Finset Nat,
        (∀ b, b ∈ bs ↔ (s.buffer b).ctx = some c ∧ s.Coming b) ∧
          ctx.pendingBuffers = bs.card) := by
  have hok := Sys.Ok.reach h
  refine ⟨fun hp => hok.calm (by rw [hp]; rfl), fun b hat => ?_, fun hon c ctx hc => ?_⟩
  · have hon : s.power.awake = true := by
      by_contra hp
      exact List.ne_nil_of_mem hat (hok.calm (Bool.not_eq_true _ ▸ hp))
    exact (hok.coming_iff hon).mpr (.inl hat)
  · refine ⟨s.owned c, fun b => ?_, hok.buffers.pending c ctx hc⟩
    rw [hok.buffers.mem_owned, hok.coming_iff hon]

end

/-- Suspend is called while a buffer is running, looks for a free buffer when the device is done
with it, and returns. After resume the file is written again. -/
theorem suspend_quiescent_resumed : ∃ s, adler.ReachOn QuietSuspend s ∧ s.power = .on ∧
    s.buffersRunning = [15] ∧ s.Coming 15 := by
  let fill : List Label := [.write 0 0 [1], .writeStep 0 .test, .writeStep 0 .copy]
  have hfill : ∀ l ∈ fill, ∀ s, QuietSuspend s l := by simp [fill, QuietSuspend, ReleasedLast]
  let s₁ := (adler.exec probed (.openFile 0 :: fill)).get (by decide +kernel)
  let s₂ := (adler.next s₁ (.writeStep 0 .submit)).get (by decide +kernel)
  let s₃ := (adler.next s₂ .power).get (by decide +kernel)
  let s₄ := (adler.exec s₃ [.finish, .isr, .writeStep 0 .exit]).get (by decide +kernel)
  let s₅ := (adler.exec s₄ [.power, .power, .power, .power]).get (by decide +kernel)
  let s₆ := (adler.exec s₅ fill).get (by decide +kernel)
  let s₇ := (adler.next s₆ (.writeStep 0 .submit)).get (by decide +kernel)
  have h₁ : adler.ReachOn QuietSuspend s₁ := by
    refine (Lts.ReachOn.init probed_probed).exec (fun l hl s => ?_) (Option.some_get _).symm
    rcases List.mem_cons.mp hl with rfl | hl
    · trivial
    · exact hfill l hl s
  have h₂ : adler.ReachOn QuietSuspend s₂ :=
    h₁.step (l := .writeStep 0 .submit) (show s₁.power.awake = true by decide +kernel)
      (Option.some_get _).symm
  have h₃ : adler.ReachOn QuietSuspend s₃ := by
    refine h₂.step (l := .power) (fun htest => ?_) (Option.some_get _).symm
    cases htest.symm.trans (show s₂.power = .on by decide +kernel)
  have h₄ : adler.ReachOn QuietSuspend s₄ :=
    h₃.exec (by simp [QuietSuspend, ReleasedLast]) (Option.some_get _).symm
  have h₅ : adler.ReachOn QuietSuspend s₅ := by
    refine h₄.exec_of (I := fun s => s.buffersRunning = []) (by decide +kernel)
      (fun l hl s hr => ?_) (Option.some_get _).symm
    cases List.eq_of_mem_replicate (n := 4) hl
    exact ⟨fun _ _ => hr, fun t ht => (powerStep_frame ht).2.2.trans hr⟩
  have h₆ : adler.ReachOn QuietSuspend s₆ := h₅.exec hfill (Option.some_get _).symm
  have h₇ : adler.ReachOn QuietSuspend s₇ :=
    h₆.step (l := .writeStep 0 .submit) (show s₆.power.awake = true by decide +kernel)
      (Option.some_get _).symm
  have hr : s₇.buffersRunning = [15] := by decide +kernel
  exact ⟨s₇, h₇, by decide +kernel, hr, (suspend_quiescent h₇).2.1 15 (by simp [Sys.At, hr])⟩

/-- One buffer is running. Suspend returns at once, the device finishes the buffer while the
interrupt is masked, and resume drops the interrupt: the buffer stays in `buffers_running`,
the file has a pending buffer, and the device has nothing left to do or to signal. -/
theorem suspend_loses_completion : ∃ s t, adler.ReachOn WritesWhenOn s ∧
    (s.power = .suspended ∧ s.buffersRunning = [15]) ∧ adler.ReachOn WritesWhenOn t ∧
    t.power = .on ∧ (t.context 0).map Context.pendingBuffers = some 1 ∧ ∀ b, ¬ t.Coming b := by
  let write : Label := .write 0 0 [1]
  let suspend : List Label := [.writeStep 0 .test, .writeStep 0 .copy, .writeStep 0 .submit,
    .power, .power, .power]
  let resume : List Label := [.finish, .power, .power]
  let s₁ := (adler.next probed (.openFile 0)).get (by decide +kernel)
  let s₂ := (adler.next s₁ write).get (by decide +kernel)
  let s := (adler.exec s₂ suspend).get (by decide +kernel)
  let t := (adler.exec s resume).get (by decide +kernel)
  have hopen : adler.ReachOn WritesWhenOn s₁ :=
    (Lts.ReachOn.init probed_probed).step (l := .openFile 0) trivial (Option.some_get _).symm
  have hwrite : adler.ReachOn WritesWhenOn s₂ :=
    hopen.step (l := write) (show s₁.power = .on by decide +kernel) (Option.some_get _).symm
  have hsuspend : ∀ l ∈ suspend, ∀ s, WritesWhenOn s l := by
    simp [suspend, WritesWhenOn, ReleasedLast]
  have hresume : ∀ l ∈ resume, ∀ s, WritesWhenOn s l := by
    simp [resume, WritesWhenOn, ReleasedLast]
  have hreach : adler.ReachOn WritesWhenOn s := hwrite.exec hsuspend (Option.some_get _).symm
  have hreach' : adler.ReachOn WritesWhenOn t := hreach.exec hresume (Option.some_get _).symm
  refine ⟨s, t, hreach, ⟨by decide +kernel, by decide +kernel⟩, hreach', by decide +kernel,
    by decide +kernel, fun b => ?_⟩
  have hspot : ∀ w, t.spot w = none := by
    intro w
    cases w with
    | zero => decide +kernel
    | succ w => rfl
  have hdev : t.dev.dataSize = 0 ∧ t.dev.intr = false := by decide +kernel
  rintro (⟨w, hat⟩ | ⟨-, -, hd | hi⟩)
  · rw [Sys.At, hspot] at hat
    cases hat
  · exact hd hdev.1
  · rw [hdev.2] at hi
    cases hi

end Zso.Adler
