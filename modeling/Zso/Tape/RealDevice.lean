import Zso.Tape.InFlight
import Zso.Tape.Walk

/-!
# The device behind the section

`realDevice` is the section machine of `tapedev.c` as a `DevModel`: a write of the
CMD register is `aabm`, a step of the device is `aabf`. The memory it transfers
to and from belongs to the state; between its steps the CPU may change it.

With host accesses that succeed, the device always takes the head of the queue
(`head_in_flight`).
-/

namespace Zso.Tape
open Transition

variable {β : Type}

/-- A command is being executed. -/
def Aadg.busy : Aadg → Bool
  | .disabled | .idle | .failed => false
  | .take | .eject | .rewind | .ffwd | .read | .write => true

/-- The section is executing the command `w`. -/
def Aacc.Executes (s : Aacc β) (w : Nat) : Prop :=
  match fieldCmd w with
  | CMD_TAKE_TAPE => s.aadg = .take ∧ s.aaaa = 0 ∧ s.aaai = fieldArg w ∧ fieldArg w ≠ 0
  | CMD_EJECT_TAPE => s.aadg = .eject ∧ s.aaaa ≠ 0
  | CMD_REWIND => s.aadg = .rewind ∧ s.aaaa ≠ 0
  | CMD_FAST_FWD => s.aadg = .ffwd ∧ s.aaaa ≠ 0 ∧ s.aaaj = fieldArg w
  | CMD_READ =>
    s.aadg = .read ∧ s.aaaa ≠ 0 ∧ s.aaak + s.aaal = fieldCount w ∧ s.aaam = fieldOffset w
  | CMD_WRITE =>
    s.aadg = .write ∧ s.aaaa ≠ 0 ∧ s.aaak + s.aaal = fieldCount w ∧ s.aaam = fieldOffset w
  | _ => False

/-- All the host accesses of a step succeed. -/
structure Io.Ok (io : Io) : Prop where
  table : io.table ≠ none
  seek : io.seek = true
  file : io.file = true
  dma : io.dma = true

/-- The status with which a command ends, if it does. -/
def answerStatus (a : Answer β) : Option SectStatus := a.2.map fun _ => a.1.aadf

/-! ## Starting a command -/

/-- Only the arguments of the command differ. -/
def ArgsOnly (s s' : Aacc β) : Prop :=
  s' = { s with aaai := s'.aaai, aaaj := s'.aaaj, aaak := s'.aaak, aaal := s'.aaal, aaam := s'.aaam }

/-- The command `w` is started. -/
def Starts (s : Aacc β) (w : Nat) (a : Answer β) : Prop :=
  ∃ s' g, a = aabd s' g ∧ (aabd s' g).1.Executes w ∧ ArgsOnly s s' ∧
    (g = .read ∨ g = .write → s'.aaak = 0)

/-- The command `w` is refused. -/
def Refuses (s : Aacc β) (w : Nat) (a : Answer β) : Prop :=
  ∃ st, a = aabc s .idle st ∧ st.isErr = true ∧
    (st = .errNoTape → s.aaaa = 0 ∧ fieldCmd w ≠ CMD_TAKE_TAPE)

section
variable {s : Aacc β} {w : Nat}

theorem needsTape_cases {k : Answer β} (hne : fieldCmd w ≠ CMD_TAKE_TAPE)
    (hk : s.aaaa ≠ 0 → Starts s w k ∨ Refuses s w k) :
    Starts s w (needsTape s k) ∨ Refuses s w (needsTape s k) := by
  unfold needsTape
  by_cases h0 : s.aaaa = 0
  · rw [if_pos h0]
    exact .inr ⟨_, rfl, rfl, fun _ => ⟨h0, hne⟩⟩
  · rw [if_neg h0]
    exact hk h0

/-- What an idle section makes of a command: it starts it, or refuses it. -/
theorem aabm_cases (hi : s.aadg = .idle) (w : Nat) :
    Starts s w (aabm 2 s w) ∨ Refuses s w (aabm 2 s w) := by
  unfold aabm
  rw [if_neg (not_not.mpr hi), if_neg (by decide)]
  dsimp only
  split
  · next hcmd =>
    by_cases h0 : s.aaaa = 0
    · rw [if_neg (not_not.mpr h0)]
      by_cases harg : fieldArg w > s.aaad ∨ fieldArg w = 0
      · rw [if_pos harg]
        exact .inr ⟨_, rfl, rfl, by rintro ⟨⟩⟩
      · rw [if_neg harg]
        refine .inl ⟨_, _, rfl, ?_, rfl, by simp⟩
        simp only [Aacc.Executes, hcmd]
        exact ⟨rfl, h0, rfl, (not_or.mp harg).2⟩
    · rw [if_pos h0]
      exact .inr ⟨_, rfl, rfl, by rintro ⟨⟩⟩
  · next hcmd =>
    refine needsTape_cases (by rw [hcmd]; decide) fun h0 => .inl ⟨_, _, rfl, ?_, rfl, by simp⟩
    simp only [Aacc.Executes, hcmd]
    exact ⟨rfl, h0⟩
  · next hcmd =>
    refine needsTape_cases (by rw [hcmd]; decide) fun h0 => .inl ⟨_, _, rfl, ?_, rfl, by simp⟩
    simp only [Aacc.Executes, hcmd]
    exact ⟨rfl, h0⟩
  · next hcmd =>
    refine needsTape_cases (by rw [hcmd]; decide) fun h0 => ?_
    by_cases harg : fieldArg w ≥ s.tapeSize / s.blockSize
    · rw [if_pos harg]
      exact .inr ⟨_, rfl, rfl, by rintro ⟨⟩⟩
    · rw [if_neg harg]
      refine .inl ⟨_, _, rfl, ?_, rfl, by simp⟩
      simp only [Aacc.Executes, hcmd]
      exact ⟨rfl, h0, rfl⟩
  · next hcmd =>
    refine needsTape_cases (by rw [hcmd]; decide) fun h0 =>
      .inl ⟨_, _, rfl, ?_, rfl, fun _ => rfl⟩
    simp only [Aacc.Executes, hcmd]
    exact ⟨rfl, h0, Nat.zero_add _, rfl⟩
  · next hcmd =>
    refine needsTape_cases (by rw [hcmd]; decide) fun h0 =>
      .inl ⟨_, _, rfl, ?_, rfl, fun _ => rfl⟩
    simp only [Aacc.Executes, hcmd]
    exact ⟨rfl, h0, Nat.zero_add _, rfl⟩
  · exact .inr ⟨_, rfl, rfl, by rintro ⟨⟩⟩

/-- An executing section is busy. -/
theorem Aacc.Executes.busy (h : s.Executes w) : s.aadg.busy = true := by
  unfold Aacc.Executes at h
  split at h
  · rw [h.1]
    rfl
  · rw [h.1]
    rfl
  · rw [h.1]
    rfl
  · rw [h.1]
    rfl
  · rw [h.1]
    rfl
  · rw [h.1]
    rfl
  · exact h.elim

end

/-! ## One step of the device -/

/-- Only the cursor of the page-table walk differs. -/
def CursorOnly (s s' : Aacc β) : Prop :=
  s' = { s with aaan := s'.aaan, aaao := s'.aaao, aaap := s'.aaap }

theorem aaaxLoop_frame (n : Nat) (s : Aacc β) : CursorOnly s (aaaxLoop n s).2 := by
  induction n generalizing s with
  | zero => rfl
  | succ n ih =>
    unfold aaaxLoop
    split
    · rfl
    · dsimp only
      split
      · rfl
      · split
        · exact ih { s with aaan := s.aaan + 1, aaao := 0 }
        · exact ih { s with
            aaap := Function.update s.aaap s.aaan
              (packEntry (s.aaap s.aaan >>> 32) ((s.aaap s.aaan &&& 0xffffffff) - 1))
            aaao := s.aaao + 1 }

/-- Skipping does not get behind the table. -/
theorem aaaxLoop_guard (n : Nat) (s : Aacc β) : (aaaxLoop n s).2.aaap 512 = s.aaap 512 := by
  induction n generalizing s with
  | zero => rfl
  | succ n ih =>
    unfold aaaxLoop
    split
    · rfl
    · next hn =>
      dsimp only
      split
      · rfl
      · split
        · exact ih _
        · exact (ih _).trans (Function.update_of_ne (by omega) _ _)

/-- Loading the page table: only the cursor and the table change, and a failure
completes the command. -/
theorem aabn_frame (s : Aacc β) (io : Io) :
    (∃ s', aabn s io = .ok s' ∧ CursorOnly s s' ∧ s'.aaap 512 = s.aaap 512) ∨
    ∃ s', aabn s io = .error (aabc s' .idle .errPgtable) ∧ CursorOnly s s' ∧
      s'.aaap 512 = s.aaap 512 := by
  unfold aabn
  dsimp only
  split
  · exact .inr ⟨_, rfl, rfl, rfl⟩
  · next table htab =>
    have hframe := aaaxLoop_frame s.aaam { s with
      aaan := 0, aaao := 0, aaap := fun i => if i < 4096 / 8 then table i else s.aaap i }
    have hguard := aaaxLoop_guard s.aaam { s with
      aaan := 0, aaao := 0, aaap := fun i => if i < 4096 / 8 then table i else s.aaap i }
    split
    · next s' hx =>
      unfold aaax at hx
      dsimp only at hx
      rw [hx] at hframe hguard
      exact .inr ⟨s', rfl, hframe, hguard⟩
    · next s' hx =>
      unfold aaax at hx
      dsimp only at hx
      rw [hx] at hframe hguard
      exact .inl ⟨s', rfl, hframe, hguard⟩

/-- The command is completed: the section is idle again, unless the host failed. -/
def Ends (s : Aacc β) (io : Io) (a : Answer β) : Prop :=
  ∃ s' g st, a = aabc s' g st ∧ s'.aaaa = s.aaaa ∧ (g = .idle ∨ g = .failed ∧ ¬ io.Ok) ∧
    (st = .done ∨ st = .errIo ∨ st = .errPgtable ∨ st = .errReadPastEnd)

/-- A block is transferred, and there are more. -/
structure Goes (s : Aacc β) (a : Answer β) : Prop where
  silent : a.2 = none
  aadg : a.1.aadg = s.aadg
  aadf : a.1.aadf = s.aadf
  aaaa : a.1.aaaa = s.aaaa
  aaam : a.1.aaam = s.aaam
  count : a.1.aaak + a.1.aaal = s.aaak + s.aaal

section
variable {s s' : Aacc β} {io : Io}

theorem aaas_frame (s : Aacc β) (n : Nat) :
    ∃ f g, aaas s n = { s with aaaf := f, aaag := g } :=
  ⟨_, _, rfl⟩

/-- The bookkeeping, with the section after `aaba` as a variable: `aaba` computes with
words and must not be unfolded. -/
theorem aaboNext_eq {t : Aacc β} (ht : aaba { s with aaak := s.aaak + 1 } = t) :
    aaboNext s =
      if 1 < s.aaal then ({ aaas t s.blockSize with aaal := s.aaal - 1 }, none)
      else aabc { aaas t s.blockSize with aaal := s.aaal - 1 } .idle .done := by
  have hal : (aaas t s.blockSize).aaal = s.aaal := by
    have hf := aaba_frame { s with aaak := s.aaak + 1 }
    rw [ht] at hf
    show t.aaal = s.aaal
    rw [hf]
  unfold aaboNext
  rw [ht]
  dsimp only
  rw [hal]
  by_cases h : 1 < s.aaal
  · rw [if_pos h, if_pos (by omega)]
  · rw [if_neg h, if_neg (by omega)]

/-- The bookkeeping with the words it computes as variables. -/
theorem aaboNext_frame (s : Aacc β) :
    ∃ f g n o p, aaboNext s =
      let t := { s with
        aaak := s.aaak + 1, aaal := s.aaal - 1, aaaf := f, aaag := g, aaan := n, aaao := o
        aaap := p }
      if 1 < s.aaal then (t, none) else aabc t .idle .done := by
  have hf := aaba_frame { s with aaak := s.aaak + 1 }
  generalize ht : aaba { s with aaak := s.aaak + 1 } = t at hf
  rw [aaboNext_eq ht]
  obtain ⟨f, g, hfg⟩ := aaas_frame t s.blockSize
  rw [hfg, hf]
  exact ⟨f, g, _, _, _, rfl⟩

theorem aaboNext_cases (s : Aacc β) (io : Io) :
    Goes s (aaboNext s) ∨ Ends s io (aaboNext s) := by
  obtain ⟨f, g, n, o, p, hs⟩ := aaboNext_frame s
  rw [hs]
  dsimp only
  by_cases hl : 1 < s.aaal
  · rw [if_pos hl]
    refine .inl ⟨rfl, rfl, rfl, rfl, rfl, ?_⟩
    show s.aaak + 1 + (s.aaal - 1) = s.aaak + s.aaal
    omega
  · rw [if_neg hl]
    exact .inr ⟨_, _, _, rfl, rfl, .inl rfl, .inl rfl⟩

/-- A step of READ or WRITE completes the command, or a block has been moved and the
bookkeeping follows. -/
inductive BlockStep (s : Aacc β) (io : Io) (a : Answer β) : Prop
  | ended (s' : Aacc β) (g : Aadg) (st : SectStatus) : CursorOnly s s' →
      (g = .idle ∨ g = .failed ∧ ¬ io.Ok) →
      (st = .done ∨ st = .errIo ∨ st = .errPgtable ∨ st = .errReadPastEnd) → a = aabc s' g st →
      BlockStep s io a
  | moved (s' : Aacc β) (file : Nat → β) : CursorOnly s s' →
      a = aaboNext { s' with aadb := file } → BlockStep s io a

theorem aaboMove_step (hc : CursorOnly s s') (isRead : Bool) (pos : Nat) (mem : Nat → β)
    (io : Io) : BlockStep s io (aaboMove s' isRead pos mem io).1 := by
  have hseek : io.seek = false → ¬ io.Ok := fun h0 h => by simp [h.seek] at h0
  have hfile : io.file = false → ¬ io.Ok := fun h0 h => by simp [h.file] at h0
  have hdma : io.dma = false → ¬ io.Ok := fun h0 h => by simp [h.dma] at h0
  unfold aaboMove
  generalize aabb s' = page
  dsimp only
  split
  · exact .ended s' _ _ hc (.inl rfl) (.inr (.inr (.inl rfl))) rfl
  · split
    · next h0 => exact .ended s' _ _ hc (.inr ⟨rfl, hseek h0⟩) (.inr (.inl rfl)) rfl
    · split
      · split
        · next h0 => exact .ended s' _ _ hc (.inr ⟨rfl, hfile h0⟩) (.inr (.inl rfl)) rfl
        · split
          · next h0 => exact .ended s' _ _ hc (.inr ⟨rfl, hdma h0⟩) (.inr (.inr (.inl rfl))) rfl
          · dsimp only
            exact .moved s' s'.aadb hc rfl
      · split
        · next h0 => exact .ended s' _ _ hc (.inr ⟨rfl, hdma h0⟩) (.inr (.inr (.inl rfl))) rfl
        · split
          · next h0 => exact .ended s' _ _ hc (.inr ⟨rfl, hfile h0⟩) (.inr (.inl rfl)) rfl
          · dsimp only
            exact .moved s' _ hc rfl

theorem aabo_step (s : Aacc β) (isRead : Bool) (mem : Nat → β) (io : Io) :
    BlockStep s io (aabo s isRead mem io).1 := by
  unfold aabo
  dsimp only
  split
  · exact .ended s _ _ rfl (.inl rfl) (.inr (.inl rfl)) rfl
  · split
    · exact .ended s _ _ rfl (.inl rfl) (.inr (.inr (.inl rfl))) rfl
    · split
      · exact .ended s _ _ rfl (.inl rfl) (.inr (.inr (.inr rfl))) rfl
      · split
        · exact .ended s _ _ rfl (.inl rfl) (.inl rfl) rfl
        · split
          · rcases aabn_frame s io with ⟨s', he, hs', -⟩ | ⟨s', he, hs', -⟩
            · rw [he]
              exact aaboMove_step hs' isRead _ mem io
            · rw [he]
              exact .ended s' _ _ hs' (.inl rfl) (.inr (.inr (.inl rfl))) rfl
          · exact aaboMove_step (show CursorOnly s s from rfl) isRead _ mem io

theorem aaboNext_left {s : Aacc β} (h : (aaboNext s).2 = none) : (aaboNext s).1.aaal < s.aaal := by
  obtain ⟨f, g, n, o, p, hs⟩ := aaboNext_frame s
  rw [hs] at h ⊢
  dsimp only at h ⊢
  by_cases hl : 1 < s.aaal
  · rw [if_pos hl]
    show s.aaal - 1 < s.aaal
    omega
  · rw [if_neg hl] at h
    cases h

/-- A step of READ or WRITE that completes nothing has moved a block. -/
theorem aabo_left {s : Aacc β} {isRead : Bool} {mem : Nat → β} {x : Io}
    (h : (aabo s isRead mem x).1.2 = none) : (aabo s isRead mem x).1.1.aaal < s.aaal := by
  cases aabo_step s isRead mem x with
  | ended s' g st hc hg hst ha =>
    rw [ha] at h
    cases h
  | moved s' file hc ha =>
    rw [ha] at h ⊢
    have hl : s'.aaal = s.aaal := by rw [hc]
    rw [← hl]
    exact aaboNext_left (s := { s' with aadb := file }) h

/-- A step of READ or WRITE. -/
theorem aabo_cases (s : Aacc β) (isRead : Bool) (mem : Nat → β) (io : Io) :
    Goes s (aabo s isRead mem io).1 ∨ Ends s io (aabo s isRead mem io).1 := by
  cases aabo_step s isRead mem io with
  | ended s' g st hc hg hst ha =>
    rw [ha]
    exact .inr ⟨s', g, st, rfl, by rw [hc], hg, hst⟩
  | moved s' file hc ha =>
    rw [ha]
    rcases aaboNext_cases { s' with aadb := file } io with hgo | ⟨t, g, st, h1, h2, h3, h4⟩
    · refine .inl ⟨hgo.silent, hgo.aadg.trans ?_, hgo.aadf.trans ?_, hgo.aaaa.trans ?_,
        hgo.aaam.trans ?_, hgo.count.trans ?_⟩ <;> rw [hc]
    · exact .inr ⟨t, g, st, h1, h2.trans (by rw [hc]), h3, h4⟩

/-- The step that completes a command, with the tape it leaves in the drive. -/
def Finishes (s : Aacc β) (io : Io) (a : Answer β) : Prop :=
  ∃ s' g st, a = aabc s' g st ∧ (g = .idle ∨ g = .failed ∧ ¬ io.Ok) ∧
    (st = .done ∨ st = .errIo ∨ st = .errPgtable ∨ st = .errReadPastEnd) ∧
    s'.aaaa = (if s.aadg = .take then s.aaai else if s.aadg = .eject then 0 else s.aaaa) ∧
    (s.aadg = .take ∨ s.aadg = .eject → st = .done)

theorem Ends.finishes {a : Answer β} (h : Ends s io a) (ht : s.aadg ≠ .take)
    (he : s.aadg ≠ .eject) : Finishes s io a := by
  obtain ⟨s', g, st, ha, htape, hg, hst⟩ := h
  refine ⟨s', g, st, ha, hg, hst, ?_, fun h => absurd h (not_or.mpr ⟨ht, he⟩)⟩
  rw [if_neg ht, if_neg he]
  exact htape

/-- A step of a busy section: it goes on with a transfer, or it completes the command. -/
theorem aabf_cases (hb : s.aadg.busy = true) (mem : Nat → β) (io : Io) :
    ((s.aadg = .read ∨ s.aadg = .write) ∧ Goes s (aabf s mem io).1) ∨
    Finishes s io (aabf s mem io).1 := by
  unfold aabf
  cases hg : s.aadg with
  | disabled => simp [hg, Aadg.busy] at hb
  | idle => simp [hg, Aadg.busy] at hb
  | failed => simp [hg, Aadg.busy] at hb
  | take => exact .inr ⟨_, _, _, rfl, .inl rfl, .inl rfl, by simp [hg, aaaw], fun _ => rfl⟩
  | eject => exact .inr ⟨_, _, _, rfl, .inl rfl, .inl rfl, by simp [hg, aaau], fun _ => rfl⟩
  | rewind => exact .inr ⟨_, _, _, rfl, .inl rfl, .inl rfl, by simp [hg, aaat], fun _ => rfl⟩
  | ffwd =>
    dsimp only
    obtain ⟨f, g, hfg⟩ := aaas_frame s (s.aaaj * s.blockSize)
    rw [hfg]
    exact .inr ⟨_, _, _, rfl, .inl rfl, .inl rfl, by simp [hg], fun _ => rfl⟩
  | read =>
    rcases aabo_cases s true mem io with hgo | hend
    · exact .inl ⟨.inl rfl, hgo⟩
    · exact .inr (hend.finishes (by simp [hg]) (by simp [hg]))
  | write =>
    rcases aabo_cases s false mem io with hgo | hend
    · exact .inl ⟨.inr rfl, hgo⟩
    · exact .inr (hend.finishes (by simp [hg]) (by simp [hg]))

/-- A transfer that goes on is a step of the same command. -/
theorem Goes.executes_iff {a : Answer β} (h : Goes s a) (hrw : s.aadg = .read ∨ s.aadg = .write)
    (w : Nat) : s.Executes w ↔ a.1.Executes w := by
  unfold Aacc.Executes
  split <;> rcases hrw with hrw | hrw <;> simp [h.aadg, h.aaaa, h.aaam, h.count, hrw]

end

/-! ## The device model -/

/-- The section with the memory on the bus. -/
structure Dev (β : Type) where
  sec : Aacc β
  mem : Nat → β

/-- A step of the device with the host's answers, or a change of the memory by the
CPU. -/
inductive Move (β : Type)
  | io (io : Io)
  | cpu (mem : Nat → β)

def Move.Ok : Move β → Prop
  | .io x => x.Ok
  | .cpu _ => True

/-- The device's own moves. -/
def Dev.move (d : Dev β) : Move β → Option (Dev β × Option SectStatus)
  | .cpu mem => some ({ d with mem := mem }, none)
  | .io x =>
    if d.sec.aadg.busy then
      let r := aabf d.sec d.mem x
      some (⟨r.1.1, r.2⟩, answerStatus r.1)
    else none

theorem Dev.move_io {d : Dev β} {x : Io} {r : Dev β × Option SectStatus}
    (h : d.move (.io x) = some r) :
    d.sec.aadg.busy = true ∧ r = (⟨(aabf d.sec d.mem x).1.1, (aabf d.sec d.mem x).2⟩,
      answerStatus (aabf d.sec d.mem x).1) := by
  unfold Dev.move at h
  dsimp only at h
  split at h
  · next hb => exact ⟨hb, (Option.some.inj h).symm⟩
  · cases h

/-- What a move of the device does: the CPU writes the memory, a transfer goes on, or
the command is completed. -/
theorem Dev.move_cases {d d' : Dev β} {m : Move β} {o : Option SectStatus}
    (h : d.move m = some (d', o)) :
    (∃ mem, m = .cpu mem ∧ d' = { d with mem := mem } ∧ o = none) ∨
    ∃ x, m = .io x ∧ d.sec.aadg.busy = true ∧
      ((∃ a, d'.sec = a.1 ∧ (d.sec.aadg = .read ∨ d.sec.aadg = .write) ∧ Goes d.sec a ∧ o = none) ∨
        ∃ s' g st, d'.sec = (aabc s' g st).1 ∧ o = some st ∧ (g = .idle ∨ g = .failed ∧ ¬ x.Ok) ∧
          (st = .done ∨ st = .errIo ∨ st = .errPgtable ∨ st = .errReadPastEnd) ∧
          s'.aaaa = (if d.sec.aadg = .take then d.sec.aaai
            else if d.sec.aadg = .eject then 0 else d.sec.aaaa) ∧
          (d.sec.aadg = .take ∨ d.sec.aadg = .eject → st = .done)) := by
  cases m with
  | cpu mem =>
    cases h
    exact .inl ⟨mem, rfl, rfl, rfl⟩
  | io x =>
    obtain ⟨hb, h⟩ := Dev.move_io h
    refine .inr ⟨x, rfl, hb, ?_⟩
    rcases aabf_cases hb d.mem x with ⟨hrw, hgo⟩ | ⟨s', g, st, ha, hfin⟩
    · generalize aabf d.sec d.mem x = r at h hgo
      cases h
      exact .inl ⟨r.1, rfl, hrw, hgo, by simp [answerStatus, hgo.silent]⟩
    · generalize aabf d.sec d.mem x = r at h ha
      cases h
      exact .inr ⟨s', g, st, by rw [ha], by rw [ha]; rfl, hfin⟩

theorem aabm_busy {s : Aacc β} (h : s.aadg ≠ .idle) (w : Nat) : aabm 2 s w = (s, none) := by
  unfold aabm
  rw [if_pos h]

/-- The section of `tapedev.c`. The device is enabled, state 2: the driver has
initialised it. -/
def realDevice (β : Type) : DevModel where
  σ := Dev β
  α := Move β
  status d := d.sec.aadf
  tapeNo d := d.sec.aaaa
  idle d := decide (d.sec.aadg = .idle)
  busy d := d.sec.aadg.busy
  Exec d w := d.sec.Executes w
  write d w :=
    let a := aabm 2 d.sec w
    ({ d with sec := a.1 }, answerStatus a)
  tick := Dev.move
  healthy := Move.Ok
  exec_busy h := h.busy
  busy_idle := by
    intro d h
    cases hg : d.sec.aadg <;> simp [hg, Aadg.busy] at h ⊢
  write_busy := by
    intro d w h
    rw [aabm_busy (by simpa using h)]
    rfl
  write_start := by
    intro d w h hn
    rcases aabm_cases (by simpa using h) w with ⟨s', g, he, hex, ha, _⟩ | ⟨st, he, _, _⟩
    · dsimp only
      rw [he]
      exact ⟨hex, by rw [ha]; rfl⟩
    · dsimp only at hn
      rw [he] at hn
      simp [answerStatus, aabc] at hn
  write_refuse := by
    intro d w st h hn
    rcases aabm_cases (by simpa using h) w with ⟨s', g, he, _, _, _⟩ | ⟨st', he, herr, _⟩
    · dsimp only at hn
      rw [he] at hn
      simp [answerStatus, aabd] at hn
    · dsimp only at hn ⊢
      rw [he] at hn ⊢
      cases hn
      exact ⟨rfl, rfl, herr, rfl⟩
  tick_goes := by
    intro d m d' h
    rcases Dev.move_cases h with ⟨mem, _, rfl, _⟩ | ⟨x, _, _, ⟨a, hd, hrw, hgo, _⟩ | hend⟩
    · exact ⟨fun _ => Iff.rfl, rfl, rfl, rfl, rfl⟩
    · rw [hd]
      exact ⟨hgo.executes_iff hrw, by rw [hgo.aadg], by rw [hgo.aadg], hgo.aadf, hgo.aaaa⟩
    · obtain ⟨s', g, st, _, ho, _⟩ := hend
      cases ho
  tick_ends := by
    intro d m d' st h
    rcases Dev.move_cases h with ⟨mem, _, _, ho⟩ | ⟨x, rfl, hb, ⟨a, _, _, _, ho⟩ | hend⟩
    · cases ho
    · cases ho
    · obtain ⟨s', g, st', hd, ho, hg, hst, _⟩ := hend
      cases ho
      rw [hd]
      refine ⟨hb, ?_, rfl, ?_, fun hok => ?_⟩
      · rcases hg with rfl | ⟨rfl, _⟩ <;> rfl
      · rcases hst with rfl | rfl | rfl | rfl <;> decide
      · rcases hg with rfl | ⟨_, hno⟩
        · rfl
        · exact absurd hok hno
  tick_tape := by
    intro d m d' w h hw
    rcases Dev.move_cases h with ⟨mem, _, _, ho⟩ | ⟨x, _, hb, ⟨a, _, _, _, ho⟩ | hend⟩
    · cases ho
    · cases ho
    · obtain ⟨s', g, st', hd, _, _, _, htape, _⟩ := hend
      rw [hd]
      change (fieldCmd w = _ → s'.aaaa = _) ∧ (fieldCmd w = _ → s'.aaaa = _)
      rw [htape]
      constructor
      · intro hc
        simp only [Aacc.Executes, hc] at hw
        rw [if_pos hw.1, hw.2.2.1]
      · intro hc
        simp only [Aacc.Executes, hc] at hw
        simp [hw.1, NO_TAPE]

/-! ## A device that answers for its host -/

variable {D : DevModel}

/-- The host does its part in this step. -/
def HostOk (_ : Sys D) : Label D → Prop
  | .tick a => D.healthy a
  | _ => True

/-- Not a command the device ignores, nor a look at an empty queue. -/
def Event.Harmless : Event → Prop
  | .sent _ accepted => accepted = true
  | .noFirstEntry => False
  | _ => True

/-- The device is ready for commands whenever it has none, and has taken all it was
sent. -/
structure Sys.Awake (s : Sys D) : Prop where
  ready : D.busy s.dev = false → D.idle s.dev = true
  log : ∀ e ∈ s.log, e.Harmless

section
variable {s s' t : Sys D} {l : Label D}

theorem Sys.Awake.congr (h : s.Awake) (hdev : t.dev = s.dev) {evs : List Event}
    (hlog : t.log = s.log ++ evs) (hevs : ∀ e ∈ evs, e.Harmless) : t.Awake := by
  refine ⟨by rw [hdev]; exact h.ready, fun e he => ?_⟩
  rw [hlog] at he
  exact (List.mem_append.mp he).elim (h.log e) (hevs e)

theorem Sys.Awake.send (h : s.Awake) (hq : s.Quiet) (n : LstNode) : (s.send n).Awake := by
  have hi := h.ready hq.resting
  refine ⟨?_, ?_⟩
  · rcases hq.facing n with ⟨hex, -⟩ | ⟨st, -, hev⟩ | ⟨-, hev⟩
    · intro hb
      rw [D.exec_busy hex.exec] at hb
      cases hb
    · intro _
      -- the command was refused at once
      cases hans : (D.write s.dev n.word).2 with
      | none => simp [Sys.sendEvents, hans] at hev
      | some st' =>
        have hdev : (s.send n).dev = (D.write s.dev n.word).1 := by simp [Sys.send, hans, Sys.answer]
        rw [hdev]
        exact (D.write_refuse hi hans).1
    · simp [Sys.sendEvents, hi] at hev
  · intro e he
    rw [Sys.send_log] at he
    rcases List.mem_append.mp he with he | he
    · exact h.log e he
    · simp only [Sys.sendEvents, List.mem_cons, Option.mem_toList, Option.map_eq_some_iff] at he
      rcases he with rfl | ⟨st, -, rfl⟩
      · exact hi
      · trivial

theorem Sys.Awake.sendOpt (h : s.Awake) (hq : s.Quiet) (o : Option LstNode) :
    (s.sendOpt o).Awake := by
  cases o with
  | none => exact h
  | some n => exact h.send hq n

theorem Sys.Awake.link (h : s.Awake) (hf : s.Flow) (nodes : List LstNode) :
    (s.link nodes).Awake := by
  unfold Sys.link
  split
  · next hq =>
    have h' := h.sendOpt (hf.quiet (by simpa using hq)) nodes.head?
    exact ⟨h'.ready, h'.log⟩
  · exact ⟨h.ready, h.log⟩

theorem completeHead_harmless (sec : Section) (node : LstNode) (rest : List LstNode)
    (st : SectStatus) : ∀ e ∈ (completeHead sec node rest st).2, e.Harmless := by
  have hend : ∀ status, ∀ e ∈ endEvents sec.req status, e.Harmless := by
    intro status e he
    unfold endEvents at he
    split at he
    · rw [List.mem_singleton] at he
      subst he
      trivial
    · cases he
  intro e he
  unfold completeHead at he
  split at he
  · split at he
    · exact hend _ e he
    · cases he
  · split at he
    · cases he
    · split at he
      · cases he
      · split at he
        · cases he
        · exact hend _ e he

theorem awake_step (h : s.Awake) (hf : s.Flow) (hok : HostOk s l) (hs : s.Step l s') :
    s'.Awake := by
  have hlink : s.linkEject.Awake := by
    have h' : Sys.Awake { s with
        nextCall := s.nextCall + 1
        sec := { s.sec with ejectionCmds := s.sec.ejectionCmds + 1 } } := ⟨h.ready, h.log⟩
    exact h'.link ⟨hf.words, hf.pending, hf.tracks.congr rfl rfl rfl rfl rfl, hf.snap⟩ _
  cases hs with
  | submit write start env ho hi => exact ⟨h.ready, h.log⟩
  | unsupported start env ho hi => exact ⟨h.ready, h.log⟩
  | built r write start env st hsub hp => exact ⟨h.ready, h.log⟩
  | notBuilt r write start env e hsub hp => exact ⟨h.ready, h.log⟩
  | splice r nodes hsub =>
    have h' : Sys.Awake { s with log := s.log ++ [.queued r nodes] } :=
      h.congr rfl rfl (by simp [Event.Harmless])
    have hf' : Sys.Flow { s with log := s.log ++ [.queued r nodes] } :=
      ⟨hf.words, hf.pending,
        hf.tracks.congr rfl rfl rfl rfl (by simp [lastReport_append, Event.report]), hf.snap⟩
    have h'' := h'.link hf' nodes
    exact ⟨h''.ready, h''.log⟩
  | fail r status hsub =>
    refine h.congr rfl rfl fun e he => ?_
    split at he
    · cases he
    · rw [List.mem_singleton] at he
      subst he
      trivial
  | ejectOom => exact h.congr rfl rfl (by simp [Event.Harmless])
  | ejectReturn hfl => exact hlink.congr rfl rfl (by simp [Event.Harmless])
  | ejectWait hfl => exact ⟨hlink.ready, hlink.log⟩
  | wake c hc hfl => exact h.congr rfl rfl (by simp [Event.Harmless])
  | signal c hc hfl => exact h.congr rfl rfl (by simp [Event.Harmless])
  | snapshot hirq => exact ⟨h.ready, h.log⟩
  | readStatus done error hirq => exact ⟨h.ready, h.log⟩
  | nothing sn hirq hd he => exact ⟨h.ready, h.log⟩
  | complete node rest st hirq hq hrep =>
    have h' : (s.completed node rest st).Awake :=
      h.congr rfl rfl (completeHead_harmless s.sec node rest st)
    exact h'.sendOpt ⟨hrep.resting, hrep.cur, rfl, rfl⟩ _
  | goes a dev ht =>
    obtain ⟨-, hb, hi, -, -⟩ := D.tick_goes ht
    refine ⟨fun hb' => ?_, h.log⟩
    exact hi.trans (h.ready (hb.symm.trans hb'))
  | answers a dev node rest st ht hq hex =>
    refine ⟨fun _ => (D.tick_ends ht).2.2.2.2 hok, fun e he => ?_⟩
    rcases List.mem_append.mp he with he | he
    · exact h.log e he
    · simp only [Option.map_some, Option.toList_some, List.mem_singleton] at he
      subst he
      trivial
  | otherLine level => exact ⟨h.ready, h.log⟩

end

theorem awake_reachOn {s : Sys D} (h : (system D).ReachOn HostOk s) : s.Awake := by
  refine reach_induction (fun s hi => ⟨fun _ => hi.dev, ?_⟩)
    (fun s l s' hf ha hok hs => awake_step ha hf hok hs) h
  rw [hi.log]
  rintro e ⟨⟩

/-- At every moment the device is concerned with the head of the queue: it executes
it, or exactly one of the two bits reports its result, and not both. With an empty
queue it is idle and reports nothing. So every command sent was taken, and the
handler never looked at the head of an empty queue. -/
theorem head_in_flight {s : Sys (realDevice β)}
    (h : (system (realDevice β)).ReachOn HostOk s) :
    (s.sec.cmdQueue = [] → s.dev.sec.aadg = .idle ∧ s.done = false ∧ s.error = false) ∧
    (∀ node rest, s.sec.cmdQueue = node :: rest →
      Xor (s.dev.sec.Executes node.word ∧ s.done = false ∧ s.error = false)
        (s.done = !s.error ∧ s.dev.sec.aadg = .idle ∧
          lastReport s.log = some (node, s.dev.sec.aadf) ∧ s.error = s.dev.sec.aadf.isErr)) ∧
    (∀ node accepted, .sent node accepted ∈ s.log → accepted = true) ∧ .noFirstEntry ∉ s.log := by
  have hf : s.Flow := flow_reachOn (fun _ => Sys.Initial.flow) h
  have ha := awake_reachOn h
  have hidle : s.dev.sec.aadg.busy = false → s.dev.sec.aadg = .idle := fun hb =>
    of_decide_eq_true (ha.ready hb)
  refine ⟨fun hq => ?_, fun node rest hq => ?_, fun node acc hn => ha.log _ hn,
    fun hn => ha.log _ hn⟩
  · have hquiet := hf.quiet hq
    exact ⟨hidle hquiet.resting, hquiet.done, hquiet.error⟩
  · have ht := hf.tracks
    rw [hq] at ht
    rcases ht with hex | ⟨st, hrep⟩ | hst
    · refine .inl ⟨⟨hex.exec, hex.done, hex.error⟩, fun hrep => ?_⟩
      rw [hex.done, hex.error] at hrep
      exact absurd hrep.1 (by decide)
    · have hst : s.dev.sec.aadf = st := hrep.status
      refine .inr ⟨⟨?_, hidle hrep.resting, ?_, ?_⟩, fun hex => ?_⟩
      · rw [hrep.done, hrep.error]
      · rw [hst]
        exact hrep.report
      · rw [hst]
        exact hrep.error
      · have hb := hex.1.busy
        rw [show s.dev.sec.aadg.busy = false from hrep.resting] at hb
        cases hb
    · have hi := ha.ready hst.resting
      rw [hst.idle] at hi
      cases hi

/-- A section with two of the smallest tapes, one of them loaded, as the driver finds
it. -/
def probedSection : Sys (realDevice Nat) where
  sec := ⟨twoTapes, 1, 0, false, 0, 0, fun _ => 0, none, []⟩
  submit := .idle
  outstanding := none
  nextReq := 0
  built := []
  waiters := []
  nextCall := 0
  dev := ⟨⟨.idle, 1, 4096, 0, 2, 0, .idle, 0, fun _ => 0, 0, 0, 0, 0, 0, 0, 0, fun _ => 0,
    fun _ => 0⟩, fun _ => 0⟩
  done := false
  error := false
  line := false
  irq := none
  cur := none
  log := []

theorem probedSection_initial : probedSection.Initial := by
  constructor <;> rfl

/-- A WRITE of one block has been submitted: the device ejects the tape. -/
theorem head_in_flight_submitted :
    ∃ s : Sys (realDevice Nat), (system (realDevice Nat)).ReachOn HostOk s ∧
      ∃ node rest, s.sec.cmdQueue = node :: rest ∧
        Xor (s.dev.sec.Executes node.word ∧ s.done = false ∧ s.error = false)
          (s.done = !s.error ∧ s.dev.sec.aadg = .idle ∧
            lastReport s.log = some (node, s.dev.sec.aadf) ∧ s.error = s.dev.sec.aadf.isErr) := by
  let run : List (Label (realDevice Nat)) :=
    [.queueRq (some true) 3 ⟨fun _ => false, true, [⟨4096, 512⟩]⟩, .build, .splice]
  let s := ((system (realDevice Nat)).exec probedSection run).get (by decide +kernel)
  have hs : (system (realDevice Nat)).exec probedSection run = some s := (Option.some_get _).symm
  have hr : (system (realDevice Nat)).ReachOn HostOk s := by
    refine Lts.ReachOn.exec (.init probedSection_initial) (fun l hl s => ?_) hs
    simp only [run, List.mem_cons, List.not_mem_nil, or_false] at hl
    rcases hl with rfl | rfl | rfl <;> trivial
  have hq : s.sec.cmdQueue.head? = some ⟨⟨CMD_EJECT_TAPE, false⟩, .request 0⟩ := by decide +kernel
  obtain ⟨node, rest, hq⟩ : ∃ node rest, s.sec.cmdQueue = node :: rest := by
    cases hc : s.sec.cmdQueue with
    | nil =>
      rw [hc] at hq
      cases hq
    | cons node rest => exact ⟨node, rest, rfl⟩
  exact ⟨s, hr, node, rest, hq, (head_in_flight hr).2.1 node rest hq⟩

end Zso.Tape
