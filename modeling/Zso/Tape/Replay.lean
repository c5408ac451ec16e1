import Zso.Tape.Walk

/-!
# Replaying a request on the tapes

`tapeRule` is what a command does to the loaded tape and its position, read off
`aabm`, `aabf` and `aabo`. `replay` runs the whole list the driver built, and
goes on after a rejected command. Positions are counted in blocks.

The driver emits the commands that change tapes at the start of the loop
iteration after the one that filled a tape, and the last READ/WRITE after the
loop. When the last segment crosses a tape boundary no iteration is left to emit
the change: `replay_iff_last_on_one_tape`.
-/

namespace Zso.Tape
open Bits

/-- The loaded tape (0 for none), the position on it, and the remembered position
of every tape. -/
structure TapePos where
  tape : Nat
  pos : Nat
  saved : Nat → Nat

/-- Moves the loaded tape to a position. -/
def TapePos.seek (p : TapePos) (pos : Nat) : TapePos :=
  { p with pos := pos, saved := Function.update p.saved p.tape pos }

/-- What a command leaves: the tapes, the blocks of the section it touched, and
its status. -/
structure TapeResult where
  at_ : TapePos
  touched : List Nat
  status : SectStatus

/-- A command that is rejected. -/
def TapePos.reject (p : TapePos) (status : SectStatus) : TapeResult := ⟨p, [], status⟩

/-- The block of the section under the head, with `T` blocks on a tape. -/
def TapePos.block (T : Nat) (p : TapePos) : Nat := (p.tape - 1) * T + p.pos

/-- A READ or WRITE of `n` blocks. The position is checked before every block,
and once if there is none. -/
def transfer (T : Nat) : Nat → TapePos → TapeResult
  | 0, p => if p.pos ≥ T then p.reject .errReadPastEnd else ⟨p, [], .done⟩
  | n + 1, p =>
    if p.pos ≥ T then p.reject .errReadPastEnd
    else if n = 0 then ⟨p.seek (p.pos + 1), [p.block T], .done⟩
    else
      let r := transfer T n (p.seek (p.pos + 1))
      { r with touched := p.block T :: r.touched }

/-- What the command word `cmdVal` does on a section of `nTapes` tapes. -/
def tapeRule (T nTapes : Nat) (p : TapePos) (cmdVal : Nat) : TapeResult :=
  let arg := fieldArg cmdVal
  match fieldCmd cmdVal with
  | CMD_TAKE_TAPE =>
    if p.tape ≠ 0 then p.reject .errTapeActive
    else if arg > nTapes ∨ arg = 0 then p.reject .errInvalidTapeNo
    else ⟨⟨arg, p.saved arg, p.saved⟩, [], .done⟩
  | CMD_EJECT_TAPE =>
    if p.tape = 0 then p.reject .errNoTape else ⟨{ p with tape := 0, pos := 0 }, [], .done⟩
  | CMD_REWIND =>
    if p.tape = 0 then p.reject .errNoTape else ⟨p.seek 0, [], .done⟩
  | CMD_FAST_FWD =>
    if p.tape = 0 then p.reject .errNoTape
    else if arg ≥ T then p.reject .errInvalidFfwdPos
    else ⟨p.seek (p.pos + arg), [], .done⟩
  | CMD_READ =>
    if p.tape = 0 then p.reject .errNoTape else transfer T (fieldCount cmdVal) p
  | CMD_WRITE =>
    if p.tape = 0 then p.reject .errNoTape else transfer T (fieldCount cmdVal) p
  | _ => p.reject .errInvalidCmd

/-- What a list of commands leaves, with the status of each. -/
structure Replayed where
  at_ : TapePos
  touched : List Nat
  statuses : List SectStatus

/-- Runs the words one after the other. -/
def replay (T nTapes : Nat) : TapePos → List Nat → Replayed
  | p, [] => ⟨p, [], []⟩
  | p, w :: ws =>
    let r := tapeRule T nTapes p w
    let rest := replay T nTapes r.at_ ws
    ⟨rest.at_, r.touched ++ rest.touched, r.status :: rest.statuses⟩

theorem replay_append (T nTapes : Nat) (p : TapePos) (ws vs : List Nat) :
    replay T nTapes p (ws ++ vs) =
      let r := replay T nTapes p ws
      let rest := replay T nTapes r.at_ vs
      ⟨rest.at_, r.touched ++ rest.touched, r.statuses ++ rest.statuses⟩ := by
  induction ws generalizing p with
  | nil => rfl
  | cons w ws ih => simp only [List.cons_append, replay, ih, List.append_assoc]

/-! ## The rule of each command -/

section
variable {T nTapes : Nat} {p : TapePos}

theorem tapeRule_take {t : Nat} (hp : p.tape = 0) (ht : 1 ≤ t ∧ t ≤ nTapes) (hr : t < 2 ^ 24) :
    tapeRule T nTapes p (Cmd.takeTape t).encode = ⟨⟨t, p.saved t, p.saved⟩, [], .done⟩ := by
  have hc : fieldCmd (Cmd.takeTape t).encode = CMD_TAKE_TAPE := fieldCmd_encode _
  have hbad : ¬ (t > nTapes ∨ t = 0) := by omega
  simp only [tapeRule, hc, fieldArg_takeTape hr, hp, ne_eq, not_true_eq_false, if_false, if_neg hbad]

theorem tapeRule_eject (hp : p.tape ≠ 0) :
    tapeRule T nTapes p Cmd.ejectTape.encode = ⟨{ p with tape := 0, pos := 0 }, [], .done⟩ := by
  have hc : fieldCmd Cmd.ejectTape.encode = CMD_EJECT_TAPE := rfl
  simp only [tapeRule, hc, if_neg hp]

theorem tapeRule_eject_none (hp : p.tape = 0) :
    tapeRule T nTapes p Cmd.ejectTape.encode = p.reject .errNoTape := by
  have hc : fieldCmd Cmd.ejectTape.encode = CMD_EJECT_TAPE := rfl
  simp only [tapeRule, hc, if_pos hp]

theorem tapeRule_rewind (hp : p.tape ≠ 0) :
    tapeRule T nTapes p Cmd.rewind.encode = ⟨p.seek 0, [], .done⟩ := by
  have hc : fieldCmd Cmd.rewind.encode = CMD_REWIND := rfl
  simp only [tapeRule, hc, if_neg hp]

theorem tapeRule_fastFwd {n : Nat} (hp : p.tape ≠ 0) (hn : n < T) (hr : n < 2 ^ 24) :
    tapeRule T nTapes p (Cmd.fastFwd n).encode = ⟨p.seek (p.pos + n), [], .done⟩ := by
  have hc : fieldCmd (Cmd.fastFwd n).encode = CMD_FAST_FWD := fieldCmd_encode _
  have hbad : ¬ n ≥ T := by omega
  simp only [tapeRule, hc, fieldArg_fastFwd hr, if_neg hp, if_neg hbad]

theorem tapeRule_rw {w : Bool} {off n : Nat} (hp : p.tape ≠ 0) (hr : (Cmd.rw w off n).InRange) :
    tapeRule T nTapes p (Cmd.rw w off n).encode = transfer T n p := by
  have hc : fieldCmd (Cmd.rw w off n).encode = rwType w := fieldCmd_encode _
  obtain ⟨hn, -⟩ := fields_rw (w := w) hr
  cases w <;> simp only [rwType] at hc <;> simp [tapeRule, hc, hn, hp]

/-- A transfer that ends before the end of the tape, or at it. -/
theorem transfer_done {n : Nat} (hn : 1 ≤ n) (hfit : p.pos + n ≤ T) :
    (transfer T n p).status = .done ∧ (transfer T n p).at_.tape = p.tape ∧
    (transfer T n p).at_.pos = p.pos + n ∧
    (transfer T n p).touched = List.range' (p.block T) n := by
  induction n generalizing p with
  | zero => omega
  | succ n ih =>
    have hin : ¬ p.pos ≥ T := by omega
    simp only [transfer, if_neg hin]
    split
    · next h0 =>
      subst h0
      exact ⟨rfl, rfl, rfl, rfl⟩
    · next h0 =>
      obtain ⟨h1, h2, h3, h4⟩ := ih (p := p.seek (p.pos + 1)) (by omega)
        (by simp only [TapePos.seek]; omega)
      refine ⟨h1, h2, ?_, ?_⟩
      · rw [h3]
        simp only [TapePos.seek]
        omega
      · rw [List.range'_succ]
        exact congrArg (p.block T :: ·) h4

/-- A transfer that starts at the end of the tape. -/
theorem transfer_past_end (n : Nat) (hend : p.pos ≥ T) :
    transfer T n p = p.reject .errReadPastEnd := by
  cases n with
  | zero => exact if_pos hend
  | succ n => exact if_pos hend

end

/-! ## Replaying a plan -/

/-- The words of a list of commands. -/
def words (cs : List Cmd) : List Nat := cs.map Cmd.encode

/-- From `p0` the commands run without rejection, touch `n` blocks from `x` on,
and leave the tapes at `p1`. -/
structure Runs (T nTapes : Nat) (p0 : TapePos) (cs : List Cmd) (x n : Nat) (p1 : TapePos) :
    Prop where
  at_eq : (replay T nTapes p0 (words cs)).at_ = p1
  touched : (replay T nTapes p0 (words cs)).touched = List.range' x n
  done : ∀ st ∈ (replay T nTapes p0 (words cs)).statuses, st = .done

section
variable {T nTapes x n m : Nat} {p0 p1 p2 : TapePos} {cs ds : List Cmd}

theorem Runs.nil (T nTapes x : Nat) (p : TapePos) : Runs T nTapes p [] x 0 p :=
  ⟨rfl, rfl, by simp [words, replay]⟩

theorem Runs.append (h : Runs T nTapes p0 cs x n p1) (h' : Runs T nTapes p1 ds (x + n) m p2) :
    Runs T nTapes p0 (cs ++ ds) x (n + m) p2 := by
  have happ := replay_append T nTapes p0 (words cs) (words ds)
  simp only [h.at_eq] at happ
  rw [show words cs ++ words ds = words (cs ++ ds) from List.map_append.symm] at happ
  refine ⟨by rw [happ]; exact h'.at_eq, ?_, ?_⟩
  · rw [happ]
    simp only [h.touched, h'.touched]
    rw [List.range'_append_1]
  · rw [happ]
    intro st hst
    rcases List.mem_append.mp hst with hst | hst
    · exact h.done st hst
    · exact h'.done st hst

/-- A command that touches nothing. -/
theorem Runs.one {c : Cmd} (h : tapeRule T nTapes p0 c.encode = ⟨p1, [], .done⟩) (x : Nat) :
    Runs T nTapes p0 [c] x 0 p1 := by
  constructor <;> simp [words, replay, h]

theorem Runs.rw (nTapes : Nat) {w : Bool} {off : Nat} (hp : p0.tape ≠ 0) (hr : (Cmd.rw w off n).InRange)
    (hn : 1 ≤ n) (hfit : p0.pos + n ≤ T) :
    ∃ p1, Runs T nTapes p0 [.rw w off n] (p0.block T) n p1 ∧ p1.tape = p0.tape ∧
      p1.pos = p0.pos + n := by
  obtain ⟨h1, h2, h3, h4⟩ := transfer_done hn hfit
  refine ⟨(transfer T n p0).at_, ?_, h2, h3⟩
  constructor <;> simp [words, replay, tapeRule_rw hp hr, h1, h4]

/-- The three commands of a tape change. -/
theorem Runs.change {t : Nat} (hp : p0.tape ≠ 0) (ht : 1 ≤ t ∧ t ≤ nTapes) (hr : t < 2 ^ 24) :
    ∃ p1, Runs T nTapes p0 (changeCmds t) x 0 p1 ∧ p1.tape = t ∧ p1.pos = 0 := by
  have h1 : Runs T nTapes p0 [.ejectTape] x 0 { p0 with tape := 0, pos := 0 } :=
    Runs.one (tapeRule_eject hp) x
  have h2 : Runs T nTapes { p0 with tape := 0, pos := 0 } [.takeTape t] x 0
      ⟨t, p0.saved t, p0.saved⟩ := Runs.one (tapeRule_take rfl ht hr) x
  have hne : (⟨t, p0.saved t, p0.saved⟩ : TapePos).tape ≠ 0 := by simp only; omega
  have h3 : Runs T nTapes ⟨t, p0.saved t, p0.saved⟩ [.rewind] x 0 _ :=
    Runs.one (tapeRule_rewind hne) x
  exact ⟨_, h1.append (h2.append h3), rfl, rfl⟩

end

/-- Where the commands of a plan leave the tapes: at the end of the previous tape
while a change is pending, else at the first block without a command. -/
structure Plan.Replays (T nTapes x0 : Nat) (p0 : TapePos) (p : Plan) (p1 : TapePos) : Prop where
  runs : Runs T nTapes p0 p.cmds x0 (blockCount p.pieces.flatten) p1
  tape_pos : 1 ≤ p1.tape
  ready : p.pending = false → p1.tape = p.tape ∧ p1.pos = T - p.left
  pending : p.pending = true → p1.pos = T ∧ p.left = T

section
variable {T nTapes x0 : Nat} {write : Bool} {p : Plan} {e : Entry} {p0 p1 : TapePos}

theorem Plan.Replays.change (h : p.Replays T nTapes x0 p0 p1) (ht : 1 ≤ p.tape ∧ p.tape ≤ nTapes)
    (hr : p.tape < 2 ^ 24) : ∃ p2, p.change.Replays T nTapes x0 p0 p2 := by
  cases hp : p.pending with
  | false =>
    have hc : p.change = p := by simp [Plan.change, hp]
    exact ⟨p1, hc.symm ▸ h⟩
  | true =>
    have h1 := h.tape_pos
    obtain ⟨p2, hrun, ht2, hp2⟩ := Runs.change (x := x0 + blockCount p.pieces.flatten) (T := T)
      (by omega : p1.tape ≠ 0) ht hr
    refine ⟨p2, ?_, by omega, fun _ => ?_, fun h => by simp at h⟩
    · have hall := h.runs.append hrun
      rw [Nat.add_zero] at hall
      simpa [Plan.change_cmds, hp] using hall
    · rw [Plan.change_tape, Plan.change_left, (h.pending hp).2, Nat.sub_self]
      exact ⟨ht2, hp2⟩

/-- A segment placed when no change is pending. -/
theorem Plan.Replays.place (hs : p.Shape T x0) (h : p.Replays T nTapes x0 p0 p1)
    (hp : p.pending = false) (hT : T < 2 ^ 15)
    (hroom : (p.place T write e).entries.length ≤ MAX_SG_PGT_ENTRIES) :
    ∃ p2, (p.place T write e).Replays T nTapes x0 p0 p2 := by
  have hc := hs.ok.cur_lt
  have hl := hs.ok.left_le
  have h1 := h.tape_pos
  obtain ⟨htape, hpos⟩ := h.ready hp
  unfold Plan.place at hroom ⊢
  split at hroom
  · next hfill =>
    rw [if_pos hfill]
    have hoff : p.pieces.flatten.length < 2 ^ 9 := by
      simp only [Plan.fill, Plan.entries, List.flatten_append, List.length_append,
        MAX_SG_PGT_ENTRIES, List.flatten_cons, List.flatten_nil, List.length_cons] at hroom
      omega
    have hrange : (Cmd.rw write p.pieces.flatten.length p.left).InRange := ⟨hoff, by omega⟩
    obtain ⟨p2, hrun, ht2, hp2⟩ := Runs.rw nTapes (by omega : p1.tape ≠ 0) hrange (by omega)
      (by omega : p1.pos + p.left ≤ T)
    refine ⟨p2, ?_, by omega, fun h => by simp [Plan.fill] at h, fun _ => ⟨by omega, rfl⟩⟩
    have hblock : p1.block T = x0 + blockCount p.pieces.flatten := by
      rw [hs.pieces_end.1, TapePos.block, htape, hpos]
    rw [hblock] at hrun
    have hcount : blockCount (p.fill T write e).pieces.flatten =
        blockCount p.pieces.flatten + p.left := by
      simp only [Plan.fill, blockCount_flatten_snoc, blockCount_append, blockCount_cons,
        blockCount_nil]
      omega
    rw [hcount]
    exact h.runs.append hrun
  · next hfill =>
    rw [if_neg hfill]
    exact ⟨p1, h.runs, h.tape_pos, h.ready, h.pending⟩

/-- A plan with a block left to place stands on a tape of the section. -/
theorem Plan.Shape.tape_bounds (hs : p.Shape T x0)
    (hcap : x0 + blockCount p.entries < T * nTapes) : 1 ≤ p.tape ∧ p.tape ≤ nTapes := by
  have hpos := hs.pos
  have htape := hs.tape
  simp only [Plan.pos] at hpos
  have hlt : T * (p.tape - 1) < T * nTapes := by
    rw [Nat.mul_comm T (p.tape - 1)]
    omega
  have := Nat.lt_of_mul_lt_mul_left hlt
  constructor
  · rw [htape]
    exact Nat.le_add_right_of_le (Nat.le_add_left 1 _)
  · omega

theorem Plan.Replays.addAll (hT : 0 < T ∧ T < 2 ^ 15) (hn : nTapes < 2 ^ 24) {es : List Entry}
    (hs : p.Shape T x0) (h : p.Replays T nTapes x0 p0 p1) (hes : ∀ e ∈ es, 1 ≤ e.cnt ∧ e.cnt ≤ T)
    (hcap : x0 + blockCount p.entries + blockCount es ≤ T * nTapes)
    (hroom : (p.addAll T write es).entries.length ≤ MAX_SG_PGT_ENTRIES) :
    ∃ p2, (p.addAll T write es).Replays T nTapes x0 p0 p2 := by
  induction es generalizing p p1 with
  | nil => exact ⟨p1, h⟩
  | cons e es ih =>
    obtain ⟨he, heT⟩ := hes e List.mem_cons_self
    rw [blockCount_cons] at hcap
    have hb : 1 ≤ p.tape ∧ p.tape ≤ nTapes := hs.tape_bounds (by omega)
    obtain ⟨p2, h2⟩ := h.change hb (by omega)
    have hbc : 1 ≤ p.change.tape := by rw [Plan.change_tape]; exact hb.1
    have hs' : (p.add T write e).Shape T x0 := hs.change.place hT.1 hbc he heT (by simp)
    have hlen : (p.add T write e).entries.length ≤ MAX_SG_PGT_ENTRIES :=
      Nat.le_trans (Plan.length_addAll T write _ es) hroom
    obtain ⟨p3, h3⟩ : ∃ p3, (p.add T write e).Replays T nTapes x0 p0 p3 :=
      h2.place hs.change (by simp) hT.2 hlen
    have hcount : blockCount (p.add T write e).entries = blockCount p.entries + e.cnt := by
      simpa using congrArg List.length (Plan.add_entryBlocks T write p e)
    exact ih hs' h3 (fun x hx => hes x (List.mem_cons_of_mem _ hx)) (by omega) hroom

/-- The command emitted after the loop runs unless a change is pending. -/
theorem Plan.Replays.close (hs : p.Shape T x0) (h : p.Replays T nTapes x0 p0 p1) (hT : T < 2 ^ 15)
    (hroom : p.entries.length ≤ MAX_SG_PGT_ENTRIES) (hok : p.pending = true → p.cur = [])
    (write : Bool) :
    ∃ p2, Runs T nTapes p0 (p.close write) x0 (blockCount p.entries) p2 := by
  have hc := hs.ok.cur_lt
  have hl := hs.ok.left_le
  have h1 := h.tape_pos
  unfold Plan.close
  split
  · next hcur =>
    have hne : p.cur ≠ [] := fun hn => hcur (hs.ok.cur_eq_nil.mp hn)
    have hp : p.pending = false := by
      cases hpe : p.pending with
      | false => rfl
      | true => exact absurd (hok hpe) hne
    obtain ⟨htape, hpos⟩ := h.ready hp
    have hrange : (Cmd.rw write p.pieces.flatten.length (blockCount p.cur)).InRange := by
      have := List.length_pos_iff.mpr hne
      simp only [Plan.entries, List.length_append, MAX_SG_PGT_ENTRIES] at hroom
      exact ⟨by omega, by omega⟩
    obtain ⟨p2, hrun, -, -⟩ := Runs.rw nTapes (by omega : p1.tape ≠ 0) hrange (by omega)
      (by omega : p1.pos + blockCount p.cur ≤ T)
    have hblock : p1.block T = x0 + blockCount p.pieces.flatten := by
      rw [hs.pieces_end.1, TapePos.block, htape, hpos]
    rw [hblock] at hrun
    refine ⟨p2, ?_⟩
    rw [Plan.entries, blockCount_append]
    exact h.runs.append hrun
  · next hcur =>
    refine ⟨p1, ?_⟩
    rw [Plan.entries, blockCount_append, not_not.mp hcur, Nat.add_zero]
    exact h.runs

/-- With a change pending the command after the loop is rejected. -/
theorem Plan.Replays.close_rejected (hs : p.Shape T x0) (h : p.Replays T nTapes x0 p0 p1)
    (hT : T < 2 ^ 15) (hroom : p.entries.length ≤ MAX_SG_PGT_ENTRIES) (hp : p.pending = true)
    (hcur : p.cur ≠ []) (write : Bool) :
    (replay T nTapes p0 (words (p.close write))).statuses =
      (replay T nTapes p0 (words p.cmds)).statuses ++ [.errReadPastEnd] := by
  have hc := hs.ok.cur_lt
  have hl := hs.ok.left_le
  have h1 := h.tape_pos
  have h0 : blockCount p.cur ≠ 0 := fun h0 => hcur (hs.ok.cur_eq_nil.mpr h0)
  have hrange : (Cmd.rw write p.pieces.flatten.length (blockCount p.cur)).InRange := by
    have := List.length_pos_iff.mpr hcur
    simp only [Plan.entries, List.length_append, MAX_SG_PGT_ENTRIES] at hroom
    exact ⟨by omega, by omega⟩
  have hend : p1.pos ≥ T := by rw [(h.pending hp).1]
  rw [Plan.close, if_pos h0, words, List.map_append, replay_append]
  simp only [h.runs.at_eq, show p.cmds.map Cmd.encode = words p.cmds from rfl]
  simp only [List.map_cons, List.map_nil, replay, tapeRule_rw (by omega : p1.tape ≠ 0) hrange,
    transfer_past_end _ hend, TapePos.reject]

end

/-! ## Requests -/

/-- The last segment does not cross a tape boundary; it may end at one. -/
def LastOnOneTape (T start : Nat) (segs : List Seg) : Prop :=
  ∀ sg, segs.getLast? = some sg →
    (start + (requestBlocks segs).length - sg.len / 512) % T + sg.len / 512 ≤ T

instance (T start : Nat) (segs : List Seg) : Decidable (LastOnOneTape T start segs) :=
  match h : segs.getLast? with
  | none => isTrue fun sg hsg => by rw [h] at hsg; cases hsg
  | some sg =>
    if hle : (start + (requestBlocks segs).length - sg.len / 512) % T + sg.len / 512 ≤ T then
      isTrue fun sg' hsg => by
        rw [h] at hsg
        cases hsg
        exact hle
    else isFalse fun hall => hle (hall sg h)

/-- A change is left pending with entries gathered exactly if the last segment
crosses a boundary. -/
theorem requestPlan_pending_iff {T : Nat} (hT : 0 < T) {segs : List Seg} (hs : SegsOk T segs)
    (write : Bool) (start : Nat) :
    ((requestPlan T write start segs).pending = true → (requestPlan T write start segs).cur = []) ↔
      LastOnOneTape T start segs := by
  rcases List.eq_nil_or_concat segs with rfl | ⟨init, sg, rfl⟩
  · simp [requestPlan, Plan.addAll, Plan.start, LastOnOneTape]
  · rw [List.concat_eq_append] at hs ⊢
    have hinit : SegsOk T init := fun x hx => hs x (by simp [hx])
    have hsg := hs sg (by simp)
    have hshape := (requestPlan_shape hT hinit write start).change
    have hplan : requestPlan T write start (init ++ [sg]) =
        (requestPlan T write start init).change.place T write sg.entry := by
      simp [requestPlan, Plan.addAll, Plan.add]
    have hlen := congrArg List.length (requestPlan_blocks hT hinit write start)
    have hpend : (requestPlan T write start init).change.pending = false := by simp
    rw [length_entryBlocks, ← Plan.change_entries] at hlen
    rw [hplan]
    generalize (requestPlan T write start init).change = p at *
    have hc := hshape.ok.cur_lt
    have hl := hshape.ok.left_le
    have hpos := hshape.pos
    simp only [Plan.pos] at hpos
    -- the block where the last segment starts
    have hx : start + (requestBlocks (init ++ [sg])).length - sg.len / 512 =
        (T - p.left + blockCount p.cur) + (p.tape - 1) * T := by
      have : (requestBlocks (init ++ [sg])).length = (requestBlocks init).length + sg.len / 512 := by
        simp [requestBlocks, Seg.entry]
      omega
    have hmod : (start + (requestBlocks (init ++ [sg])).length - sg.len / 512) % T =
        T - p.left + blockCount p.cur := by
      rw [hx, Nat.add_mul_mod_self_right, Nat.mod_eq_of_lt (by omega)]
    have hcond : LastOnOneTape T start (init ++ [sg]) ↔
        T - p.left + blockCount p.cur + sg.len / 512 ≤ T := by
      rw [← hmod]
      simp [LastOnOneTape]
    rw [hcond]
    have hcnt : sg.entry.cnt = sg.len / 512 := rfl
    unfold Plan.place
    split
    · next hfill =>
      simp only [Plan.fill, true_implies]
      split
      · simp only [true_iff]
        omega
      · simp only [List.cons_ne_nil, false_iff]
        omega
    · next hfill =>
      simp only [hpend, Bool.false_eq_true, false_implies, true_iff]
      omega

/-- Only the first command may be rejected, and only for want of a tape; the
blocks touched are `total` blocks from `start` on. -/
structure ReplaysRequest (r : Replayed) (start total : Nat) : Prop where
  first : ∀ st, r.statuses.head? = some st → st = .done ∨ st = .errNoTape
  rest : ∀ st ∈ r.statuses.tail, st = .done
  touched : r.touched = List.range' start total

/-- The set-up commands, from any tape and position. -/
theorem replay_setup {T nTapes start : Nat} (hT : 0 < T ∧ T < 2 ^ 15) (hn : nTapes < 2 ^ 24)
    (hstart : start < T * nTapes) (p : TapePos) :
    ∃ st p1, replay T nTapes p (words (setupCmds T start)) = ⟨p1, [], [st, .done, .done, .done]⟩ ∧
      (st = .done ∨ st = .errNoTape) ∧ p1.tape = start / T + 1 ∧ p1.pos = start % T := by
  have hmod := Nat.mod_lt start hT.1
  have hdiv : start / T < nTapes := Nat.div_lt_of_lt_mul hstart
  obtain ⟨st, p0, hej, hp0, hst⟩ : ∃ st p0, tapeRule T nTapes p Cmd.ejectTape.encode =
      ⟨p0, [], st⟩ ∧ p0.tape = 0 ∧ (st = .done ∨ st = .errNoTape) := by
    by_cases hp : p.tape = 0
    · exact ⟨_, p, tapeRule_eject_none hp, hp, .inr rfl⟩
    · exact ⟨_, _, tapeRule_eject hp, rfl, .inl rfl⟩
  have htake := tapeRule_take (T := T) hp0 ⟨Nat.le_add_left 1 _, hdiv⟩
    (by omega : start / T + 1 < 2 ^ 24)
  generalize hq : (⟨start / T + 1, p0.saved (start / T + 1), p0.saved⟩ : TapePos) = q at htake
  have hqt : q.tape = start / T + 1 := hq ▸ rfl
  have hne : q.tape ≠ 0 := by rw [hqt]; exact Nat.succ_ne_zero _
  have hrew : tapeRule T nTapes q Cmd.rewind.encode = _ := tapeRule_rewind hne
  have hfwd : tapeRule T nTapes (q.seek 0) (Cmd.fastFwd (start % T)).encode = _ :=
    tapeRule_fastFwd hne hmod (by omega)
  refine ⟨st, (q.seek 0).seek (0 + start % T), ?_, hst, hqt, Nat.zero_add _⟩
  simp only [words, setupCmds, List.map_cons, List.map_nil, replay, hej, htake, hrew, hfwd]
  rfl

/-- A request within the capacity replays without rejection, touching its blocks
in order, exactly if its last segment lies on one tape.

The tape `p` loaded at the start, its position and the remembered positions are
arbitrary. -/
theorem replay_iff_last_on_one_tape {info : SectionInfo} (hb : info.blkType = 0) {write : Bool}
    {env : SgEnv} {start : Nat} {pgt : Nat → Nat} {st : SgState}
    (hsegs : SegsOk info.blocksInTape env.segs)
    (hcap : start + (requestBlocks env.segs).length ≤ info.sectors)
    (hplan : planRequest info write env start pgt = .ok st) (hfit : st.entId ≤ MAX_SG_PGT_ENTRIES)
    (p : TapePos) :
    ReplaysRequest (replay info.blocksInTape info.nTapes p (st.cmds.map SectionCmd.cmd)) start
        (requestBlocks env.segs).length ↔
      LastOnOneTape info.blocksInTape start env.segs := by
  have hB := blocksInTape_bounds hb
  have hT : 0 < info.blocksInTape ∧ info.blocksInTape < 2 ^ 15 := by omega
  have hn : info.nTapes < 2 ^ 24 := by have := info.tapes_le; omega
  obtain ⟨hstart, -, hcmds, -, hent⟩ := planRequest_inv hb hsegs hplan
  rw [sectors_512 hb] at hstart hcap
  have hshape := requestPlan_shape hT.1 hsegs write start
  have hlen := congrArg List.length (requestPlan_blocks hT.1 hsegs write start)
  have hpend := requestPlan_pending_iff hT.1 hsegs write start
  have hwords : st.cmds.map SectionCmd.cmd = words (setupCmds info.blocksInTape start) ++
      words ((requestPlan info.blocksInTape write start env.segs).close write) := by
    rw [hcmds, List.map_map]
    exact List.map_append
  obtain ⟨st0, p0, hsetup, hst0, ht0, hp0⟩ := replay_setup hT hn hstart p
  have h0 : (Plan.start info.blocksInTape (start % info.blocksInTape)
      (start / info.blocksInTape + 1)).Replays info.blocksInTape info.nTapes start p0 p0 := by
    refine ⟨Runs.nil _ _ _ _, by rw [ht0]; exact Nat.le_add_left 1 _, fun _ => ⟨ht0, ?_⟩,
      fun h => by simp [Plan.start] at h⟩
    have := Nat.mod_lt start hT.1
    simp only [Plan.start, hp0]
    omega
  rw [length_entryBlocks] at hlen
  rw [hent] at hfit
  obtain ⟨p1, h1⟩ := h0.addAll hT hn (Plan.Shape.start hT.1) hsegs.entries
    (by simpa [Plan.start, Plan.entries, requestBlocks] using hcap) hfit
  rw [← hpend, hwords, replay_append, hsetup]
  generalize hp : requestPlan info.blocksInTape write start env.segs = q at *
  have h1' : q.Replays info.blocksInTape info.nTapes start p0 p1 := hp ▸ h1
  constructor
  · rintro ⟨-, hrest, -⟩ hq
    by_contra hcur
    have hst := h1'.close_rejected hshape hT.2 hfit hq hcur write
    have hbad := hrest .errReadPastEnd (by simp [hst])
    cases hbad
  · intro hok
    obtain ⟨p2, hrun⟩ := h1'.close hshape hT.2 hfit hok write
    refine ⟨by simpa using hst0, ?_, ?_⟩
    · simpa using hrun.done
    · rw [← hlen]
      simpa using hrun.touched

/-- Two segments that meet at the end of the first tape. -/
theorem replay_at_boundary :
    ∃ st, planRequest twoTapes false (sgEnv [⟨4096, 512⟩, ⟨8192, 512⟩]) 511 (fun _ => 0) = .ok st ∧
      ReplaysRequest (replay 512 2 ⟨2, 7, fun _ => 7⟩ (st.cmds.map SectionCmd.cmd)) 511 2 := by
  have hsegs : SegsOk twoTapes.blocksInTape [⟨4096, 512⟩, ⟨8192, 512⟩] := by
    unfold SegsOk
    decide
  obtain ⟨st, hst⟩ : ∃ st, planRequest twoTapes false (sgEnv [⟨4096, 512⟩, ⟨8192, 512⟩]) 511
      (fun _ => 0) = .ok st :=
    planRequest_ok rfl hsegs (fun _ => rfl) rfl (by decide) (by decide) (by decide +kernel)
  obtain ⟨-, -, -, -, hent⟩ := planRequest_inv rfl hsegs hst
  have hfit : st.entId ≤ MAX_SG_PGT_ENTRIES := by
    rw [hent]
    decide +kernel
  exact ⟨st, hst, (replay_iff_last_on_one_tape rfl hsegs (by decide) hst hfit _).mpr (by decide)⟩

/-- One segment of two blocks across the end of the first tape: the second READ
is sent while the first tape is still loaded, at its end. -/
theorem replay_rejects_last_read :
    ∃ st, planRequest twoTapes false (sgEnv [⟨4096, 1024⟩]) 511 (fun _ => 0) = .ok st ∧
      st.entId ≤ MAX_SG_PGT_ENTRIES ∧
      (replay 512 2 ⟨0, 0, fun _ => 0⟩ (st.cmds.map SectionCmd.cmd)).statuses =
        [.errNoTape, .done, .done, .done, .done, .errReadPastEnd] ∧
      (replay 512 2 ⟨0, 0, fun _ => 0⟩ (st.cmds.map SectionCmd.cmd)).touched = [511] ∧
      ¬ ReplaysRequest (replay 512 2 ⟨0, 0, fun _ => 0⟩ (st.cmds.map SectionCmd.cmd)) 511 2 := by
  have hsegs : SegsOk twoTapes.blocksInTape [⟨4096, 1024⟩] := by
    unfold SegsOk
    decide
  obtain ⟨st, hst⟩ : ∃ st, planRequest twoTapes false (sgEnv [⟨4096, 1024⟩]) 511
      (fun _ => 0) = .ok st :=
    planRequest_ok rfl hsegs (fun _ => rfl) rfl (by decide) (by decide) (by decide +kernel)
  obtain ⟨-, -, hcmds, -, hent⟩ := planRequest_inv rfl hsegs hst
  have hstat : (replay 512 2 ⟨0, 0, fun _ => 0⟩ (st.cmds.map SectionCmd.cmd)).statuses =
      [.errNoTape, .done, .done, .done, .done, .errReadPastEnd] := by
    rw [hcmds]
    decide +kernel
  refine ⟨st, hst, by rw [hent]; decide +kernel, hstat, by rw [hcmds]; decide +kernel, ?_⟩
  intro h
  have hlast := h.rest .errReadPastEnd (by rw [hstat]; decide)
  cases hlast

end Zso.Tape
