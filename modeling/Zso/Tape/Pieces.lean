import Zso.Tape.Plan

/-!
# Pieces of a request

The plan cuts a request at tape boundaries. This module says where the pieces
lie (`Tiled`), which READ/WRITE fields they get (`pieceRws`), that every
argument fits its field (`requestCmds_inRange`), and which neighbouring blocks
stay in one entry (`Adj`).
-/

namespace Zso.Tape

/-- All pieces, the one whose command is emitted after the loop included. -/
def Plan.allPieces (p : Plan) : List (List Entry) :=
  if p.cur = [] then p.pieces else p.pieces ++ [p.cur]

/-- The offset and count fields of the pieces' commands, when the first entry
has index `off`. -/
def pieceRws (off : Nat) : List (List Entry) → List (Nat × Nat)
  | [] => []
  | q :: qs => (off, blockCount q) :: pieceRws (off + q.length) qs

/-- The offset and count of a READ/WRITE command. -/
def Cmd.rwArgs : Cmd → Option (Nat × Nat)
  | .rw _ off n => some (off, n)
  | _ => none

/-- The pieces `qs`, laid out from block `x` on, meet only at tape ends. -/
def Tiled (T : Nat) : Nat → List (List Entry) → Prop
  | _, [] => True
  | x, q :: qs =>
    q ≠ [] ∧ x % T + blockCount q ≤ T ∧ (qs ≠ [] → x % T + blockCount q = T) ∧
    Tiled T (x + blockCount q) qs

/-- Blocks `x` and `x + 1` belong to the same entry, when the entries are laid
out from block `b` on. -/
def Adj : Nat → List Entry → Nat → Prop
  | _, [], _ => False
  | b, e :: es, x => (b ≤ x ∧ x + 1 < b + e.cnt) ∨ Adj (b + e.cnt) es x

/-! ## Helpers -/

theorem blockCount_flatten_snoc (qs : List (List Entry)) (q : List Entry) :
    blockCount (qs ++ [q]).flatten = blockCount qs.flatten + blockCount q := by simp

theorem pieceRws_append (off : Nat) (qs rs : List (List Entry)) :
    pieceRws off (qs ++ rs) = pieceRws off qs ++ pieceRws (off + qs.flatten.length) rs := by
  induction qs generalizing off with
  | nil => rfl
  | cons q qs ih => simp [pieceRws, ih, Nat.add_assoc]

theorem adj_append (b : Nat) (es fs : List Entry) (x : Nat) :
    Adj b (es ++ fs) x ↔ Adj b es x ∨ Adj (b + blockCount es) fs x := by
  induction es generalizing b with
  | nil => simp [Adj]
  | cons e es ih => simp only [List.cons_append, Adj, ih, blockCount_cons, ← Nat.add_assoc, or_assoc]

/-- Neighbours lie inside the range of the entries. -/
theorem Adj.bounds {b : Nat} {es : List Entry} {x : Nat} (h : Adj b es x) :
    b ≤ x ∧ x + 1 < b + blockCount es := by
  induction es generalizing b with
  | nil => exact h.elim
  | cons e es ih =>
    rw [blockCount_cons]
    rcases h with h | h
    · omega
    · have := ih h
      omega

/-- Pieces that end at a tape boundary can be continued by another piece. -/
theorem Tiled.snoc {T x : Nat} {qs : List (List Entry)} {q : List Entry} (hq : q ≠ [])
    (h : Tiled T x qs) (hend : qs ≠ [] → (x + blockCount qs.flatten) % T = 0)
    (hfit : (x + blockCount qs.flatten) % T + blockCount q ≤ T) (hT : 0 < T)
    (hpos : ∀ e ∈ qs.flatten, 1 ≤ e.cnt) : Tiled T x (qs ++ [q]) := by
  induction qs generalizing x with
  | nil =>
    simp only [List.flatten_nil, blockCount_nil, Nat.add_zero] at hfit
    exact ⟨hq, hfit, fun h => absurd rfl h, trivial⟩
  | cons r rs ih =>
    obtain ⟨hr, hle, hfull, hrest⟩ := h
    have hbr : 1 ≤ blockCount r := by
      obtain ⟨e, r', rfl⟩ := List.exists_cons_of_ne_nil hr
      have := hpos e (by simp)
      simp only [blockCount_cons]
      omega
    simp only [List.flatten_cons, blockCount_append, ← Nat.add_assoc] at hend hfit
    refine ⟨hr, hle, fun _ => ?_, ih hrest (fun _ => hend (by simp)) hfit
      fun e he => hpos e (by simp [he])⟩
    -- the piece `r` ends where its successor starts: at a boundary
    by_cases hrs : rs = []
    · subst hrs
      have h0 := hend (by simp)
      simp only [List.flatten_nil, blockCount_nil, Nat.add_zero] at h0
      rw [Nat.add_mod] at h0
      have hm := Nat.mod_lt x hT
      rcases Nat.lt_or_ge (x % T + blockCount r) T with hlt | hge
      · have hbT : blockCount r % T = blockCount r := Nat.mod_eq_of_lt (by omega)
        rw [hbT, Nat.mod_eq_of_lt hlt] at h0
        omega
      · omega
    · exact hfull hrs

/-! ## Shape of a plan -/

/-- What the pieces and commands of a plan that started at block `x0` look like. -/
structure Plan.Shape (T x0 : Nat) (p : Plan) : Prop where
  ok : p.Ok T
  tape : p.tape = x0 / T + 1 + p.pieces.length
  pos : p.pos T = x0 + blockCount p.entries
  left : p.pieces ≠ [] → p.left = T
  tiled : Tiled T x0 p.pieces
  rws : p.cmds.filterMap Cmd.rwArgs = pieceRws 0 p.pieces
  range : ∀ c ∈ p.cmds, match c with
    | .takeTape t => t ≤ p.tape
    | .ejectTape => True
    | .rewind => True
    | .fastFwd _ => False
    | .rw _ off n => off < p.entries.length ∧ n ≤ T

section
variable {T x0 : Nat} {write : Bool} {p : Plan} {e : Entry}

theorem Plan.Shape.start (hT : 0 < T) : (Plan.start T (x0 % T) (x0 / T + 1)).Shape T x0 where
  ok := Plan.start_ok (Nat.mod_lt _ hT)
  tape := by simp [Plan.start]
  pos := by rw [Plan.pos_start hT]; simp [Plan.start, Plan.entries]
  left := by simp [Plan.start]
  tiled := trivial
  rws := rfl
  range := by simp [Plan.start]

theorem Plan.Shape.change (h : p.Shape T x0) : p.change.Shape T x0 where
  ok := h.ok.change
  tape := by simpa using h.tape
  pos := by simpa [Plan.pos] using h.pos
  left := by simpa using h.left
  tiled := by simpa using h.tiled
  rws := by
    rw [Plan.change_cmds, List.filterMap_append, h.rws]
    cases p.pending <;> simp [changeCmds, Cmd.rwArgs]
  range := by
    intro c hc
    rw [Plan.change_cmds] at hc
    rcases List.mem_append.mp hc with hc | hc
    · simpa using h.range c hc
    · split at hc
      · simp only [changeCmds, List.mem_cons, List.not_mem_nil, or_false] at hc
        rcases hc with rfl | rfl | rfl <;> simp
      · exact absurd hc List.not_mem_nil

/-- Where the pieces end: at a tape boundary once there is one. -/
theorem Plan.Shape.pieces_end (h : p.Shape T x0) :
    x0 + blockCount p.pieces.flatten = (p.tape - 1) * T + (T - p.left) ∧
    (p.pieces ≠ [] → (x0 + blockCount p.pieces.flatten) % T = 0) := by
  have hpos := h.pos
  simp only [Plan.pos, Plan.entries, blockCount_append] at hpos
  have hend : x0 + blockCount p.pieces.flatten = (p.tape - 1) * T + (T - p.left) := by omega
  refine ⟨hend, fun hne => ?_⟩
  rw [hend, h.left hne, Nat.sub_self, Nat.add_zero, Nat.mul_mod_left]

theorem Plan.Shape.place (hT : 0 < T) (h : p.Shape T x0) (ht : 1 ≤ p.tape) (he : 1 ≤ e.cnt)
    (heT : e.cnt ≤ T) (hp : p.pending = false) : (p.place T write e).Shape T x0 := by
  have hch : p.change = p := by simp [Plan.change, hp]
  have hadd : p.add T write e = p.place T write e := by simp [Plan.add, hch]
  have hok : (p.place T write e).Ok T := hadd ▸ h.ok.add write he heT
  have hblocks := congrArg List.length (Plan.add_entryBlocks T write p e)
  have hpos : (p.place T write e).pos T = x0 + blockCount (p.place T write e).entries := by
    have hpa := Plan.pos_add h.ok ht write e
    rw [hadd] at hpa hblocks
    simp only [length_entryBlocks, List.length_append, Entry.length_blocks] at hblocks
    rw [hpa, h.pos, hblocks]
    omega
  have hc := h.ok.cur_lt
  have hl := h.ok.left_le
  obtain ⟨hend, hend0⟩ := h.pieces_end
  unfold Plan.place at hok hpos ⊢
  split at hok
  · next hfill =>
    rw [if_pos hfill] at hpos ⊢
    have hbq : blockCount (p.cur ++ [⟨e.addr, p.left - blockCount p.cur⟩]) = p.left := by
      simp only [blockCount_append, blockCount_cons, blockCount_nil]
      omega
    refine ⟨hok, ?_, hpos, fun _ => rfl, ?_, ?_, ?_⟩
    · simp only [Plan.fill, List.length_append, List.length_cons, List.length_nil, h.tape]
      omega
    · refine Tiled.snoc (by simp) h.tiled hend0 ?_ hT
        fun x hx => h.ok.pos x (by simp [Plan.entries, hx])
      rw [hbq, hend]
      -- before the first boundary `left` counts from the start block, after it is a whole tape
      have hmod : ((p.tape - 1) * T + (T - p.left)) % T ≤ T - p.left := by
        rw [Nat.add_comm, Nat.add_mul_mod_self_right]
        exact Nat.mod_le _ _
      omega
    · simp only [Plan.fill, List.filterMap_append, h.rws, pieceRws_append, Nat.zero_add]
      simp [pieceRws, hbq, Cmd.rwArgs]
    · intro c hcm
      have hlen : p.entries.length + 1 ≤ (p.fill T write e).entries.length := by
        simp [Plan.fill, Plan.entries, Nat.add_assoc]
      simp only [Plan.fill, List.mem_append, List.mem_singleton] at hcm
      rcases hcm with hcm | rfl
      · have hr := h.range c hcm
        cases c with
        | takeTape t => exact Nat.le_succ_of_le hr
        | ejectTape => trivial
        | rewind => trivial
        | fastFwd n => exact hr
        | rw w off n => exact ⟨by omega, hr.2⟩
      · refine ⟨?_, hl⟩
        have : p.pieces.flatten.length ≤ p.entries.length := by simp [Plan.entries]
        omega
  · next hfill =>
    rw [if_neg hfill] at hpos ⊢
    refine ⟨hok, h.tape, hpos, h.left, h.tiled, h.rws, ?_⟩
    intro c hcm
    have hr := h.range c hcm
    cases c with
    | takeTape t => exact hr
    | ejectTape => trivial
    | rewind => trivial
    | fastFwd n => exact hr
    | rw w off n =>
      refine ⟨?_, hr.2⟩
      have : p.entries.length ≤ ({ p with cur := p.cur ++ [e] } : Plan).entries.length := by
        simp [Plan.entries]
      omega

theorem Plan.Shape.addAll (hT : 0 < T) (h : p.Shape T x0) {es : List Entry}
    (hes : ∀ e ∈ es, 1 ≤ e.cnt ∧ e.cnt ≤ T) : (p.addAll T write es).Shape T x0 := by
  induction es generalizing p with
  | nil => exact h
  | cons e es ih =>
    have he := hes e List.mem_cons_self
    have ht : 1 ≤ p.change.tape := by
      rw [Plan.change_tape, h.tape]
      exact Nat.le_add_right_of_le (Nat.le_add_left 1 _)
    exact ih (h.change.place hT ht he.1 he.2 (by simp)) fun x hx => hes x (List.mem_cons_of_mem _ hx)

end

theorem requestPlan_shape {T : Nat} (hT : 0 < T) {segs : List Seg} (hs : SegsOk T segs)
    (write : Bool) (start : Nat) : (requestPlan T write start segs).Shape T start :=
  (Plan.Shape.start hT).addAll hT hs.entries

/-! ## The commands with the one after the loop -/

section
variable {T x0 : Nat} {write : Bool} {p : Plan}

theorem Plan.Ok.cur_eq_nil (h : p.Ok T) : p.cur = [] ↔ blockCount p.cur = 0 := by
  constructor
  · intro hc
    rw [hc, blockCount_nil]
  · intro hc
    cases hcur : p.cur with
    | nil => rfl
    | cons e es =>
      have := h.pos e (by simp [Plan.entries, hcur])
      rw [hcur, blockCount_cons] at hc
      omega

theorem Plan.Shape.flatten_allPieces (p : Plan) : p.allPieces.flatten = p.entries := by
  unfold Plan.allPieces Plan.entries
  split
  · next hc => simp [hc]
  · simp

theorem Plan.Shape.tiled_allPieces (hT : 0 < T) (h : p.Shape T x0) : Tiled T x0 p.allPieces := by
  unfold Plan.allPieces
  split
  · exact h.tiled
  · next hc =>
    obtain ⟨hend, hend0⟩ := h.pieces_end
    have hcl := h.ok.cur_lt
    have hl := h.ok.left_le
    refine Tiled.snoc hc h.tiled hend0 ?_ hT fun x hx => h.ok.pos x (by simp [Plan.entries, hx])
    rw [hend]
    have hmod : ((p.tape - 1) * T + (T - p.left)) % T ≤ T - p.left := by
      rw [Nat.add_comm, Nat.add_mul_mod_self_right]
      exact Nat.mod_le _ _
    omega

theorem Plan.Shape.close_rws (h : p.Shape T x0) :
    (p.close write).filterMap Cmd.rwArgs = pieceRws 0 p.allPieces := by
  unfold Plan.close Plan.allPieces
  by_cases hc : p.cur = []
  · have h0 := h.ok.cur_eq_nil.mp hc
    simp [hc, h.rws]
  · have h0 : blockCount p.cur ≠ 0 := fun h0 => hc (h.ok.cur_eq_nil.mpr h0)
    simp [hc, h0, h.rws, pieceRws_append, pieceRws, Cmd.rwArgs]

theorem Tiled.ne_nil {T x : Nat} {qs : List (List Entry)} (h : Tiled T x qs) :
    ∀ q ∈ qs, q ≠ [] := by
  induction qs generalizing x with
  | nil => simp
  | cons q qs ih => exact List.forall_mem_cons.mpr ⟨h.1, ih h.2.2.2⟩

/-- The pieces are not empty, so there are at most as many as entries. -/
theorem Tiled.length_le {T x : Nat} {qs : List (List Entry)} (h : Tiled T x qs) :
    qs.length ≤ qs.flatten.length := by
  induction qs generalizing x with
  | nil => exact Nat.le_refl _
  | cons q qs ih =>
    have hq := List.length_pos_iff.mpr h.1
    have := ih h.2.2.2
    simp only [List.length_cons, List.flatten_cons, List.length_append]
    omega

theorem Plan.Shape.close_inRange (h : p.Shape T x0) (hT : T ≤ 8192) (hx : x0 / T ≤ 10000)
    (hfit : p.entries.length ≤ MAX_SG_PGT_ENTRIES) {c : Cmd} (hc : c ∈ p.close write) :
    c.InRange := by
  have hpl : p.pieces.length ≤ p.entries.length := by
    have := h.tiled.length_le
    simp only [Plan.entries, List.length_append]
    omega
  have htape := h.tape
  simp only [MAX_SG_PGT_ENTRIES] at hfit
  have hold : ∀ c ∈ p.cmds, c.InRange := by
    intro c hc
    have hr := h.range c hc
    cases c with
    | takeTape t =>
      have ht : t ≤ p.tape := hr
      simp only [Cmd.InRange]
      omega
    | ejectTape => trivial
    | rewind => trivial
    | fastFwd n => exact hr.elim
    | rw w off n =>
      have ho : off < p.entries.length := hr.1
      have hn : n ≤ T := hr.2
      simp only [Cmd.InRange]
      omega
  unfold Plan.close at hc
  split at hc
  · next hcur =>
    rcases List.mem_append.mp hc with hc | hc
    · exact hold c hc
    · rw [List.mem_singleton] at hc
      subst hc
      have hne : p.cur ≠ [] := fun hn => hcur (h.ok.cur_eq_nil.mp hn)
      have hpos := List.length_pos_iff.mpr hne
      have hlt := h.ok.cur_lt
      have hl := h.ok.left_le
      simp only [Plan.entries, List.length_append] at hfit
      simp only [Cmd.InRange]
      omega
  · exact hold c hc

end

/-- Every command of a request whose entries fit the table fits its fields. -/
theorem requestCmds_inRange {info : SectionInfo} (hb : info.blkType = 0) {write : Bool}
    {start : Nat} {segs : List Seg} (hs : SegsOk info.blocksInTape segs)
    (hstart : start < info.sectors)
    (hfit : (requestPlan info.blocksInTape write start segs).entries.length ≤ MAX_SG_PGT_ENTRIES)
    {c : Cmd} (hc : c ∈ requestCmds info.blocksInTape write start segs) : c.InRange := by
  have hB := blocksInTape_bounds hb
  have hshape := requestPlan_shape (by omega) hs write start
  have hdiv : start / info.blocksInTape < info.nTapes := by
    rw [sectors_512 hb] at hstart
    exact Nat.div_lt_of_lt_mul hstart
  have htapes := info.tapes_le
  rcases List.mem_append.mp hc with hc | hc
  · have hmod := Nat.mod_lt start (by omega : 0 < info.blocksInTape)
    simp only [setupCmds, List.mem_cons, List.not_mem_nil, or_false] at hc
    rcases hc with rfl | rfl | rfl | rfl
    · trivial
    · simp only [Cmd.InRange]
      omega
    · trivial
    · simp only [Cmd.InRange]
      omega
  · exact hshape.close_inRange (by omega) (by omega) hfit hc

/-! ## Neighbouring blocks -/

theorem div_succ_eq_iff (T x : Nat) :
    x / T = (x + 1) / T ↔ (x + 1) % T ≠ 0 := by
  rw [Nat.succ_div]
  constructor
  · intro h h0
    rw [if_pos (Nat.dvd_of_mod_eq_zero h0)] at h
    omega
  · intro h
    rw [if_neg fun hd => h (Nat.mod_eq_zero_of_dvd hd), Nat.add_zero]

/-- Strictly between two multiples of `T` there is none. -/
theorem mod_ne_zero_of_between {T k y : Nat} (h1 : k * T < y) (h2 : y < (k + 1) * T) :
    y % T ≠ 0 := by
  intro h0
  obtain ⟨m, rfl⟩ := Nat.dvd_of_mod_eq_zero h0
  rw [Nat.mul_comm T m] at h1 h2
  have := Nat.lt_of_mul_lt_mul_right h1
  have := Nat.lt_of_mul_lt_mul_right h2
  omega

section
variable {T x0 : Nat} {p : Plan} {e : Entry}

/-- A segment's neighbours stay neighbours exactly where no tape ends between
them. -/
theorem Plan.Shape.adj_place (h : p.Shape T x0) (ht : 1 ≤ p.tape)
    (heT : e.cnt ≤ T) (write : Bool) (x : Nat) :
    Adj x0 (p.place T write e).entries x ↔
      Adj x0 p.entries x ∨
        (x0 + blockCount p.entries ≤ x ∧ x + 1 < x0 + blockCount p.entries + e.cnt ∧
          x / T = (x + 1) / T) := by
  obtain ⟨t, htt⟩ := Nat.exists_eq_add_of_le' ht
  have hpos := h.pos
  have hc := h.ok.cur_lt
  have hl := h.ok.left_le
  simp only [Plan.pos, htt, Nat.add_sub_cancel] at hpos
  have hT1 : (t + 1) * T = t * T + T := by ring
  have hT2 : (t + 1 + 1) * T = t * T + T + T := by ring
  rw [Plan.entries_place, adj_append]
  apply or_congr_right
  unfold Entry.cut
  split
  · next hcut =>
    simp only [Adj, or_false]
    constructor
    · rintro ⟨h1, h2⟩
      refine ⟨h1, h2, (div_succ_eq_iff T x).mpr ?_⟩
      exact mod_ne_zero_of_between (k := t) (by omega) (by omega)
    · rintro ⟨h1, h2, -⟩
      exact ⟨h1, h2⟩
  · next hcut =>
    simp only [Adj]
    rw [div_succ_eq_iff]
    constructor
    · rintro (⟨h1, h2⟩ | h2)
      · refine ⟨h1, by omega, mod_ne_zero_of_between (k := t) (by omega) (by omega)⟩
      · split at h2
        · exact h2.elim
        · simp only [Adj, or_false] at h2
          refine ⟨by omega, by omega, mod_ne_zero_of_between (k := t + 1) (by omega) (by omega)⟩
    · rintro ⟨h1, h2, h3⟩
      by_cases hlt : x + 1 < x0 + blockCount p.entries + (p.left - blockCount p.cur)
      · exact .inl ⟨h1, hlt⟩
      · right
        -- the pair is not the one at the boundary itself
        have hne : x + 1 ≠ (t + 1) * T := fun h0 => h3 (by rw [h0, Nat.mul_mod_left])
        rw [if_neg (by omega)]
        simp only [Adj, or_false]
        omega

theorem Plan.Shape.adj_addAll (hT : 0 < T) (h : p.Shape T x0) {es : List Entry}
    (hes : ∀ e ∈ es, 1 ≤ e.cnt ∧ e.cnt ≤ T) (write : Bool) (x : Nat) :
    Adj x0 (p.addAll T write es).entries x ↔
      Adj x0 p.entries x ∨
        (Adj (x0 + blockCount p.entries) es x ∧ x / T = (x + 1) / T) := by
  induction es generalizing p with
  | nil => simp [Plan.addAll, Adj]
  | cons e es ih =>
    have he := hes e List.mem_cons_self
    have ht : 1 ≤ p.change.tape := by
      rw [Plan.change_tape, h.tape]
      exact Nat.le_add_right_of_le (Nat.le_add_left 1 _)
    have hstep : (p.add T write e).Shape T x0 :=
      h.change.place hT ht he.1 he.2 (by simp)
    have hlen : blockCount (p.add T write e).entries = blockCount p.entries + e.cnt := by
      simpa using congrArg List.length (Plan.add_entryBlocks T write p e)
    have hadj : Adj x0 (p.add T write e).entries x ↔ _ := h.change.adj_place ht he.2 write x
    rw [Plan.change_entries] at hadj
    have hrest := ih hstep fun y hy => hes y (List.mem_cons_of_mem _ hy)
    rw [hadj, hlen] at hrest
    simp only [Plan.addAll, List.foldl_cons, Adj, ← Nat.add_assoc] at hrest ⊢
    rw [hrest, or_assoc, ← and_assoc, ← or_and_right]

end

theorem requestPlan_adj {T : Nat} (hT : 0 < T) {segs : List Seg} (hs : SegsOk T segs)
    (write : Bool) (start x : Nat) :
    Adj start (requestPlan T write start segs).entries x ↔
      Adj start (segs.map Seg.entry) x ∧ x / T = (x + 1) / T := by
  have hstart : (Plan.start T (start % T) (start / T + 1)).Shape T start := Plan.Shape.start hT
  have h := hstart.adj_addAll hT hs.entries write x
  have h0 : (Plan.start T (start % T) (start / T + 1)).entries = [] := rfl
  rw [h0, blockCount_nil, Nat.add_zero] at h
  exact h.trans (or_iff_right id)

/-- The tape on which tiled pieces end. -/
theorem Tiled.last_tape {T x : Nat} (hT : 0 < T) {qs : List (List Entry)} (h : Tiled T x qs)
    (hne : qs ≠ []) (hpos : ∀ e ∈ qs.flatten, 1 ≤ e.cnt) :
    (x + blockCount qs.flatten - 1) / T = x / T + (qs.length - 1) := by
  induction qs generalizing x with
  | nil => exact absurd rfl hne
  | cons q qs ih =>
    obtain ⟨hq, hle, hfull, hrest⟩ := h
    have hbq : 1 ≤ blockCount q := by
      obtain ⟨e, q', rfl⟩ := List.exists_cons_of_ne_nil hq
      have := hpos e (by simp)
      simp only [blockCount_cons]
      omega
    have hd := Nat.div_add_mod' x T
    by_cases hqs : qs = []
    · subst hqs
      simp only [List.flatten_cons, List.flatten_nil, List.append_nil, List.length_cons,
        List.length_nil, Nat.add_sub_cancel, Nat.add_zero]
      rw [Nat.div_eq_iff hT]
      omega
    · have hT' := hfull hqs
      have ihq := ih hrest hqs fun e he => hpos e (by simp [he])
      have hx : x + blockCount q = (x / T + 1) * T := by
        rw [Nat.add_mul]
        omega
      have hlen : 1 ≤ qs.length := List.length_pos_iff.mpr hqs
      rw [hx, Nat.mul_div_cancel _ hT] at ihq
      simp only [List.flatten_cons, blockCount_append, List.length_cons, Nat.add_sub_cancel,
        ← Nat.add_assoc]
      rw [hx, ihq]
      omega

/-- Neighbours lie on the last tape only if every entry before it is one block. -/
theorem Tiled.adj_last_iff {T x : Nat} (hT : 0 < T) {qs : List (List Entry)} (h : Tiled T x qs)
    (hpos : ∀ e ∈ qs.flatten, 1 ≤ e.cnt) :
    (∀ y, Adj x qs.flatten y → y / T = x / T + (qs.length - 1)) ↔
      ∀ e ∈ qs.dropLast.flatten, e.cnt = 1 := by
  induction qs generalizing x with
  | nil => simp [Adj]
  | cons q qs ih =>
    obtain ⟨hq, hle, hfull, hrest⟩ := h
    have hd := Nat.div_add_mod' x T
    -- neighbours inside `q` lie on the tape of `x`
    have hin : ∀ y, Adj x q y → y / T = x / T := by
      intro y hy
      have := hy.bounds
      rw [Nat.div_eq_iff hT]
      omega
    by_cases hqs : qs = []
    · subst hqs
      simpa using hin
    · have hx : x + blockCount q = (x / T + 1) * T := by
        rw [Nat.add_mul]
        have := hfull hqs
        omega
      have hlen : 1 ≤ qs.length := List.length_pos_iff.mpr hqs
      have ihq := ih hrest fun e he => hpos e (by simp [he])
      rw [hx, Nat.mul_div_cancel _ hT] at ihq
      have hdl : (q :: qs).dropLast = q :: qs.dropLast := List.dropLast_cons_of_ne_nil hqs
      rw [hdl]
      simp only [List.flatten_cons, List.mem_append, List.length_cons, Nat.add_sub_cancel]
      constructor
      · intro hall
        have hrest' := ihq.mp fun y hy => by
          rw [hall y ((adj_append _ _ _ _).mpr (.inr (hx ▸ hy)))]
          omega
        intro e he
        rcases he with he | he
        · -- an entry of two blocks in `q` would have neighbours on an earlier tape
          by_contra hne
          have hge := hpos e (by simp [he])
          obtain ⟨q1, q2, rfl⟩ := List.append_of_mem he
          have hadj : Adj x (q1 ++ e :: q2) (x + blockCount q1) :=
            (adj_append _ _ _ _).mpr (.inr (.inl ⟨Nat.le_refl _, by omega⟩))
          have h1 := hin _ hadj
          have h2 := hall _ ((adj_append _ _ _ _).mpr (.inl hadj))
          omega
        · exact hrest' e he
      · intro hone y hy
        rcases (adj_append _ _ _ _).mp hy with hy | hy
        · exfalso
          have hnone : ∀ (es : List Entry) (b : Nat), (∀ e ∈ es, e.cnt = 1) → ¬ Adj b es y := by
            intro es
            induction es with
            | nil => exact fun _ _ h => h
            | cons e es ihe =>
              intro b hes h
              have := hes e List.mem_cons_self
              rcases h with h | h
              · omega
              · exact ihe _ (fun e' he' => hes e' (List.mem_cons_of_mem _ he')) h
          exact hnone q x (fun e he => hone e (.inl he)) hy
        · have := ihq.mpr (fun e he => hone e (.inr he)) y (hx ▸ hy)
          omega

end Zso.Tape
