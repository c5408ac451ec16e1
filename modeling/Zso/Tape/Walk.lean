import Zso.Tape.Device
import Zso.Tape.Pieces

/-!
# The page-table walk

The device reads memory blocks through its copy of the page table: `aaax` skips
the blocks before the command's offset, `aabb` is the address of the current
block and `aaba` passes it. `Walk s bs` says that the blocks still ahead of the
cursor of `s` are `bs`; every step of the walk takes the first of them off.

The driver puts the index of an *entry* into the offset field, the device counts
*blocks*. `plan_selects` says when the two agree.

* `aaaxLoop_walk`, `aaba_walkTo`, `aabb_walk`: the walk, step by step.
* `selectBlocks_eq`: the blocks a command selects.
* `plan_selects`: when the commands of a request select its blocks in order.
-/

namespace Zso.Tape
open Bits

variable {β : Type}

/-! ## Entries the device can walk -/

/-- The address field of an entry has 32 bits and counts units of 512 bytes. -/
structure Entry.Ok (e : Entry) : Prop where
  aligned : 512 ∣ e.addr
  addr_pos : 0 < e.addr
  addr_lt : e.addr < 2 ^ 41
  cnt_pos : 1 ≤ e.cnt
  cnt_le : e.cnt ≤ 2 ^ 22

namespace WalkLemmas

theorem pgtEntry_fields {a n : Nat} (ha : a < 2 ^ 41) (hn : n < 2 ^ 32) :
    pgtEntry a n >>> 32 = a / 512 ∧ pgtEntry a n &&& 0xffffffff = n := by
  have hs : a >>> 9 = a / 512 := Nat.shiftRight_eq_div_pow a 9
  have hlt : (a / 512) <<< 32 < 2 ^ 64 := by
    rw [Nat.shiftLeft_eq]
    omega
  unfold pgtEntry
  rw [hs, u64_of_lt hlt]
  exact ⟨shl_or_shr hn, (and_mask _ 32).trans (shl_or_mod hn)⟩

theorem packEntry_eq {a n : Nat} (ha : a < 2 ^ 41) (hn : n < 2 ^ 32) :
    packEntry (a / 512) n = pgtEntry a n := by
  have hs : a >>> 9 = a / 512 := Nat.shiftRight_eq_div_pow a 9
  have hlt : (a / 512) <<< 32 < 2 ^ 64 := by
    rw [Nat.shiftLeft_eq]
    omega
  have hhi : a / 512 &&& 0xffffffff = a / 512 :=
    (and_mask _ 32).trans (Nat.mod_eq_of_lt (by omega))
  have hlo : n &&& 0xffffffff = n := (and_mask _ 32).trans (Nat.mod_eq_of_lt hn)
  unfold packEntry pgtEntry
  rw [hs, u64_of_lt hlt, hhi, hlo]

end WalkLemmas
open WalkLemmas

/-! ## The cursor -/

/-- The cursor of `s` is at block `k` of the entry `e`, and the entries `es`
follow. -/
structure WalkAt (s : Aacc β) (e : Entry) (k : Nat) (es : List Entry) : Prop where
  k_lt : k < e.cnt
  off : s.aaao = k
  here : s.aaap s.aaan = pgtEntry e.addr (e.cnt - k)
  next : ∀ i x, es[i]? = some x → s.aaap (s.aaan + 1 + i) = pgtEntry x.addr x.cnt
  room : s.aaan + 1 + es.length ≤ 512
  ok : e.Ok
  oks : ∀ x ∈ es, x.Ok

/-- The blocks ahead of the cursor. -/
def Walk (s : Aacc β) (bs : List Nat) : Prop :=
  bs = [] ∨ ∃ e k es, WalkAt s e k es ∧ bs = e.blocks.drop k ++ entryBlocks es

/-- The same, up to the entry with index `m`. -/
def WalkTo (m : Nat) (s : Aacc β) (bs : List Nat) : Prop :=
  (bs = [] ∧ s.aaan = m) ∨
  ∃ e k es, WalkAt s e k es ∧ s.aaan + 1 + es.length = m ∧ bs = e.blocks.drop k ++ entryBlocks es

theorem Entry.drop_blocks {e : Entry} {k : Nat} (hk : k < e.cnt) :
    e.blocks.drop k = (e.addr + 512 * k) :: e.blocks.drop (k + 1) := by
  rw [List.drop_eq_getElem_cons (by simpa using hk)]
  simp [Entry.blocks]

/-- The cursor at the first block of a list of entries. -/
theorem WalkTo.ofEntries {s : Aacc β} {es : List Entry} (hk : s.aaao = 0)
    (htab : ∀ i x, es[i]? = some x → s.aaap (s.aaan + i) = pgtEntry x.addr x.cnt)
    (hroom : s.aaan + es.length ≤ 512) (hok : ∀ x ∈ es, x.Ok) :
    WalkTo (s.aaan + es.length) s (entryBlocks es) := by
  cases es with
  | nil => exact .inl ⟨rfl, rfl⟩
  | cons e es =>
    have he := hok e List.mem_cons_self
    refine .inr ⟨e, 0, es, ?_, by simp; omega, by simp⟩
    refine ⟨he.cnt_pos, hk, htab 0 e rfl, fun i x hx => ?_, ?_, he, fun x hx => ?_⟩
    · rw [Nat.add_assoc, Nat.add_comm 1 i]
      exact htab (i + 1) x hx
    · simpa [Nat.add_assoc, Nat.add_comm 1] using hroom
    · exact hok x (List.mem_cons_of_mem _ hx)

section
variable {s s' : Aacc β} {b : Nat} {bs : List Nat} {m : Nat}

theorem WalkTo.walk (h : WalkTo m s bs) : Walk s bs := by
  rcases h with ⟨h, -⟩ | ⟨e, k, es, hw, -, h⟩
  · exact .inl h
  · exact .inr ⟨e, k, es, hw, h⟩

/-- A walk with a block ahead has an entry under its cursor. -/
theorem WalkTo.head (h : WalkTo m s (b :: bs)) :
    ∃ e k es, WalkAt s e k es ∧ s.aaan + 1 + es.length = m ∧ b = e.addr + 512 * k ∧
      bs = e.blocks.drop (k + 1) ++ entryBlocks es := by
  rcases h with ⟨h, -⟩ | ⟨e, k, es, hw, hm, h⟩
  · cases h
  · rw [Entry.drop_blocks hw.k_lt] at h
    obtain ⟨h1, h2⟩ := List.cons.inj h
    exact ⟨e, k, es, hw, hm, h1, h2⟩

theorem Walk.walkTo (h : Walk s (b :: bs)) : ∃ m, WalkTo m s (b :: bs) := by
  rcases h with h | ⟨e, k, es, hw, h⟩
  · cases h
  · exact ⟨_, .inr ⟨e, k, es, hw, rfl, h⟩⟩

theorem WalkAt.fields {e : Entry} {k : Nat} {es : List Entry} (h : WalkAt s e k es) :
    s.aaap s.aaan >>> 32 = e.addr / 512 ∧ s.aaap s.aaan &&& 0xffffffff = e.cnt - k ∧
    e.addr / 512 ≠ 0 := by
  have hc := h.ok.cnt_le
  obtain ⟨h1, h2⟩ := pgtEntry_fields (n := e.cnt - k) h.ok.addr_lt (by omega)
  rw [h.here]
  refine ⟨h1, h2, ?_⟩
  have := h.ok.addr_pos
  obtain ⟨m, hm⟩ := h.ok.aligned
  omega

/-- Passing a block that is not the last of its entry. -/
theorem WalkAt.stay {e : Entry} {k : Nat} {es : List Entry} (h : WalkAt s e k es)
    (hk : k + 1 < e.cnt) (hn : s'.aaan = s.aaan) (ho : s'.aaao = s.aaao + 1)
    (hp : s'.aaap = Function.update s.aaap s.aaan (packEntry (e.addr / 512) (e.cnt - k - 1))) :
    WalkAt s' e (k + 1) es := by
  have hc := h.ok.cnt_le
  refine ⟨hk, by rw [ho, h.off], ?_, fun i x hx => ?_, by rw [hn]; exact h.room, h.ok, h.oks⟩
  · rw [hp, hn, Function.update_self, packEntry_eq h.ok.addr_lt (by omega), Nat.sub_sub]
  · rw [hp, hn, Function.update_of_ne (by omega)]
    exact h.next i x hx

/-- Passing the last block of an entry. -/
theorem WalkAt.leave {e : Entry} {k : Nat} {es : List Entry} (h : WalkAt s e k es)
    (hn : s'.aaan = s.aaan + 1) (ho : s'.aaao = 0)
    (hp : ∀ i, i ≠ s.aaan → s'.aaap i = s.aaap i) :
    WalkTo (s.aaan + 1 + es.length) s' (entryBlocks es) := by
  have hroom := h.room
  rw [← hn] at hroom ⊢
  refine WalkTo.ofEntries ho (fun i x hx => ?_) hroom h.oks
  rw [hn, hp _ (by omega)]
  exact h.next i x hx

/-- `aabb` is the address of the first block ahead. -/
theorem aabb_walk (h : Walk s (b :: bs)) (hb : s.aaac = 0) : aabb s = b ∧ b ≠ 0 := by
  obtain ⟨m, hto⟩ := h.walkTo
  obtain ⟨e, k, es, hw, -, rfl, -⟩ := hto.head
  obtain ⟨h1, h2, h3⟩ := hw.fields
  have hk := hw.k_lt
  have hc := hw.ok.cnt_le
  obtain ⟨j, hj⟩ := hw.ok.aligned
  have hpos := hw.ok.addr_pos
  have hlo : e.cnt - k ≠ 0 := by omega
  simp only [aabb, h1, h2, h3, hlo, or_self, if_false, hw.off, Aacc.blockSize, hb]
  rw [u32_of_lt (by norm_num; omega), Nat.shiftLeft_eq]
  constructor
  · norm_num
    omega
  · omega

/-- `aaba` passes the first block ahead, and leaves the entries from `m` on alone. -/
theorem aaba_walkTo (h : WalkTo m s (b :: bs)) :
    WalkTo m (aaba s) bs ∧ (aaba s).aaap m = s.aaap m := by
  obtain ⟨e, k, es, hw, hm, -, rfl⟩ := h.head
  obtain ⟨h1, h2, -⟩ := hw.fields
  have hk := hw.k_lt
  have hc := hw.ok.cnt_le
  have hdec : u32 (e.cnt - k + 2 ^ 32 - 1) = e.cnt - k - 1 := by
    unfold u32
    omega
  have hne : m ≠ s.aaan := by omega
  unfold aaba
  simp only [h1, h2, hdec]
  split
  · next hlast =>
    have hd : e.blocks.drop (k + 1) = [] := List.drop_eq_nil_of_le (by simp; omega)
    rw [hd, List.nil_append, ← hm]
    refine ⟨hw.leave rfl rfl fun i hi => ?_, ?_⟩
    · simp only [Function.update_of_ne hi]
    · rw [hm]
      exact Function.update_of_ne hne _ _
  · next hmore =>
    exact ⟨.inr ⟨e, k + 1, es, hw.stay (by omega) rfl rfl rfl, hm, rfl⟩,
      Function.update_of_ne hne _ _⟩

theorem aaba_walk (h : Walk s (b :: bs)) : Walk (aaba s) bs := by
  obtain ⟨m, h⟩ := h.walkTo
  exact (aaba_walkTo h).1.walk

end

/-- `aaba` changes only the cursor. -/
theorem aaba_frame (s : Aacc β) :
    aaba s = { s with aaan := (aaba s).aaan, aaao := (aaba s).aaao, aaap := (aaba s).aaap } := by
  unfold aaba
  extract_lets aadc aadd aabu aaap
  -- the decremented count is a word: it must not be computed
  clear_value aadd
  by_cases h : aadd = 0
  · rw [if_pos h]
  · rw [if_neg h]

/-- `aaax` skips as many blocks as there are ahead, and changes only the cursor. -/
theorem aaaxLoop_walk {m n : Nat} {s : Aacc β} {bs : List Nat} (h : WalkTo m s bs)
    (hn : n ≤ bs.length) :
    ∃ s', aaaxLoop n s = (true, s') ∧ WalkTo m s' (bs.drop n) ∧ s'.aaap m = s.aaap m ∧
      s' = { s with aaan := s'.aaan, aaao := s'.aaao, aaap := s'.aaap } := by
  induction n generalizing s bs with
  | zero => exact ⟨s, rfl, h, rfl, rfl⟩
  | succ n ih =>
    cases bs with
    | nil => simp at hn
    | cons b bs =>
      obtain ⟨e, k, es, hw, hm, -, hbs⟩ := h.head
      obtain ⟨h1, h2, h3⟩ := hw.fields
      have hroom := hw.room
      have hk := hw.k_lt
      have hn' : n ≤ bs.length := Nat.le_of_succ_le_succ hn
      have hlo : e.cnt - k ≠ 0 := by omega
      have hin : ¬ s.aaan ≥ 4096 / 8 := by omega
      simp only [aaaxLoop, if_neg hin, h1, h2, h3, hlo, or_self, if_false, List.drop_succ_cons]
      split
      · next hlast =>
        have hd : e.blocks.drop (k + 1) = [] := List.drop_eq_nil_of_le (by simp; omega)
        rw [hd, List.nil_append] at hbs
        have hw' : WalkTo m { s with aaan := s.aaan + 1, aaao := 0 } bs :=
          hm ▸ hbs ▸ hw.leave rfl rfl fun i _ => rfl
        obtain ⟨s', he, hwalk, htail, hframe⟩ := ih hw' hn'
        exact ⟨s', he, hwalk, htail, hframe⟩
      · next hmore =>
        have hw' : WalkTo m { s with
            aaap := Function.update s.aaap s.aaan (packEntry (e.addr / 512) (e.cnt - k - 1))
            aaao := s.aaao + 1 } bs :=
          .inr ⟨e, k + 1, es, hw.stay (by omega) rfl rfl rfl, hm, hbs⟩
        obtain ⟨s', he, hwalk, htail, hframe⟩ := ih hw' hn'
        refine ⟨s', he, hwalk, htail.trans ?_, hframe⟩
        exact Function.update_of_ne (by omega) _ _

/-- Loading the table and skipping puts the cursor at the command's offset. -/
theorem aabn_walkTo (s : Aacc β) (io : Io) {table : Nat → Nat} {es : List Entry}
    (hio : io.table = some table)
    (htab : ∀ i x, es[i]? = some x → table i = pgtEntry x.addr x.cnt) (hroom : es.length ≤ 512)
    (hok : ∀ x ∈ es, x.Ok) (hoff : s.aaam ≤ blockCount es) :
    ∃ s', aabn s io = .ok s' ∧ WalkTo es.length s' ((entryBlocks es).drop s.aaam) ∧
      (es.length = 512 → s'.aaap 512 = s.aaap 512) ∧
      s' = { s with aaan := s'.aaan, aaao := s'.aaao, aaap := s'.aaap } := by
  have hw : WalkTo es.length { s with
      aaan := 0, aaao := 0, aaap := fun i => if i < 4096 / 8 then table i else s.aaap i }
      (entryBlocks es) := by
    have hw0 := WalkTo.ofEntries (s := { s with
      aaan := 0, aaao := 0, aaap := fun i => if i < 4096 / 8 then table i else s.aaap i })
      rfl (fun i x hx => ?_) (by simpa using hroom) hok
    · simpa using hw0
    have hi : i < es.length := (List.getElem?_eq_some_iff.mp hx).1
    have hlt : 0 + i < 4096 / 8 := by omega
    simp only [if_pos hlt]
    rw [Nat.zero_add]
    exact htab i x hx
  obtain ⟨s', he, hwalk, htail, hframe⟩ := aaaxLoop_walk (n := s.aaam) hw (by simpa using hoff)
  refine ⟨s', ?_, hwalk, fun h512 => ?_, hframe⟩
  · simp only [aabn, hio, aaax, he]
  · rw [h512] at htail
    simpa using htail

theorem aabn_walk (s : Aacc β) (io : Io) {table : Nat → Nat} {es : List Entry}
    (hio : io.table = some table)
    (htab : ∀ i x, es[i]? = some x → table i = pgtEntry x.addr x.cnt) (hroom : es.length ≤ 512)
    (hok : ∀ x ∈ es, x.Ok) (hoff : s.aaam ≤ blockCount es) :
    ∃ s', aabn s io = .ok s' ∧ Walk s' ((entryBlocks es).drop s.aaam) ∧
      s' = { s with aaan := s'.aaan, aaao := s'.aaao, aaap := s'.aaap } := by
  obtain ⟨s', he, hw, -, hframe⟩ := aabn_walkTo s io hio htab hroom hok hoff
  exact ⟨s', he, hw.walk, hframe⟩

/-! ## The blocks a command selects -/

/-- The next `n` blocks of the walk: `none` where `aabb` finds no block. -/
def selectLoop : Nat → Aacc β → Option (List Nat)
  | 0, _ => some []
  | n + 1, s => if aabb s = 0 then none else (selectLoop n (aaba s)).map (aabb s :: ·)

/-- The blocks of a READ/WRITE command: the page table is loaded, `off` units are
skipped, `n` blocks are taken. -/
def selectBlocks (s : Aacc β) (table : Nat → Nat) (off n : Nat) : Option (List Nat) :=
  match aabn { s with aaam := off } ⟨some table, true, true, true⟩ with
  | .error _ => none
  | .ok s' => selectLoop n s'

theorem selectLoop_walk {n : Nat} {s : Aacc β} {bs : List Nat} (h : Walk s bs) (hb : s.aaac = 0)
    (hn : n ≤ bs.length) : selectLoop n s = some (bs.take n) := by
  induction n generalizing s bs with
  | zero => simp [selectLoop]
  | succ n ih =>
    cases bs with
    | nil => simp at hn
    | cons b bs =>
      obtain ⟨hab, hne⟩ := aabb_walk h hb
      have hb' : (aaba s).aaac = 0 := by rw [aaba_frame]; exact hb
      have hrest := ih (aaba_walk h) hb' (Nat.le_of_succ_le_succ hn)
      simp only [selectLoop, hab, hne, if_false, hrest, Option.map_some, List.take_succ_cons]

theorem selectBlocks_eq {s : Aacc β} {table : Nat → Nat} {es : List Entry} {off n : Nat}
    (hb : s.aaac = 0) (htab : ∀ i x, es[i]? = some x → table i = pgtEntry x.addr x.cnt)
    (hroom : es.length ≤ 512) (hok : ∀ x ∈ es, x.Ok) (hoff : off + n ≤ blockCount es) :
    selectBlocks s table off n = some (((entryBlocks es).drop off).take n) := by
  obtain ⟨s', he, hw, hframe⟩ := aabn_walk { s with aaam := off }
    ⟨some table, true, true, true⟩ rfl htab hroom hok (by simp only; omega)
  have hb' : s'.aaac = 0 := by rw [hframe]; exact hb
  simp only [selectBlocks, he]
  exact selectLoop_walk hw hb' (by simp; omega)

/-- The offset and count fields of the READ and WRITE words among `cmds`, as the
device decodes them. -/
def rwFields (cmds : List SectionCmd) : List (Nat × Nat) :=
  cmds.filterMap fun c =>
    if fieldCmd c.cmd = CMD_READ ∨ fieldCmd c.cmd = CMD_WRITE
    then some (fieldOffset c.cmd, fieldCount c.cmd) else none

/-- The commands with fields `rws` select, one after the other, the blocks `bs`:
each the next `n` of them, and none is left. -/
def Selects (s : Aacc β) (table : Nat → Nat) : List (Nat × Nat) → List Nat → Prop
  | [], bs => bs = []
  | (off, n) :: rws, bs =>
    n ≤ bs.length ∧ selectBlocks s table off n = some (bs.take n) ∧
    Selects s table rws (bs.drop n)

theorem rwFields_node {cs : List Cmd} (h : ∀ c ∈ cs, c.InRange) :
    rwFields (cs.map Cmd.node) = cs.filterMap Cmd.rwArgs := by
  induction cs with
  | nil => rfl
  | cons c cs ih =>
    have hc := h c List.mem_cons_self
    have hrest := ih fun x hx => h x (List.mem_cons_of_mem _ hx)
    simp only [rwFields, List.map_cons, List.filterMap_cons, Cmd.node] at hrest ⊢
    rw [fieldCmd_encode, hrest]
    cases c with
    | rw w off n =>
      obtain ⟨h1, h2⟩ := fields_rw (w := w) hc
      cases w <;> simp [Cmd.code, rwType, Cmd.rwArgs, h1, h2]
    | _ => simp [Cmd.code, Cmd.rwArgs]

/-! ## Entry indices and block counts -/

theorem length_le_blockCount {es : List Entry} (h : ∀ e ∈ es, 1 ≤ e.cnt) :
    es.length ≤ blockCount es := by
  induction es with
  | nil => exact Nat.le_refl _
  | cons e es ih =>
    have := h e List.mem_cons_self
    have := ih fun x hx => h x (List.mem_cons_of_mem _ hx)
    simp only [List.length_cons, blockCount_cons]
    omega

theorem length_eq_blockCount_iff {es : List Entry} (h : ∀ e ∈ es, 1 ≤ e.cnt) :
    es.length = blockCount es ↔ ∀ e ∈ es, e.cnt = 1 := by
  induction es with
  | nil => simp
  | cons e es ih =>
    have he := h e List.mem_cons_self
    have hes : ∀ x ∈ es, 1 ≤ x.cnt := fun x hx => h x (List.mem_cons_of_mem _ hx)
    have hle := length_le_blockCount hes
    rw [List.forall_mem_cons, ← ih hes, List.length_cons, blockCount_cons]
    omega

/-- In a list without repetition a window determines where it starts. -/
theorem nodup_window {bs : List Nat} (hnd : bs.Nodup) {a b n : Nat} (hn : 0 < n)
    (hb : b + n ≤ bs.length) (ha : a + n ≤ bs.length)
    (h : (bs.drop a).take n = (bs.drop b).take n) : a = b := by
  have h0 := congrArg (fun l => l[0]?) h
  simp only [List.getElem?_take, List.getElem?_drop, Nat.add_zero] at h0
  rw [if_pos hn, if_pos hn] at h0
  rw [List.getElem?_eq_getElem (by omega), List.getElem?_eq_getElem (by omega)] at h0
  exact (List.Nodup.getElem_inj_iff hnd).mp (Option.some.inj h0)

section
variable {s : Aacc β} {table : Nat → Nat} {es : List Entry}

/-- The commands of the pieces `qs`, which come after the entries `pre`, select
the blocks of `qs` exactly if the entries before the last piece have one block
each. The converse needs the blocks to be different ones. -/
theorem pieces_select (hb : s.aaac = 0)
    (htab : ∀ i x, es[i]? = some x → table i = pgtEntry x.addr x.cnt) (hroom : es.length ≤ 512)
    (hok : ∀ x ∈ es, x.Ok) (pre : List Entry) (qs : List (List Entry)) (hes : es = pre ++ qs.flatten)
    (hne : ∀ q ∈ qs, q ≠ []) :
    ((qs ≠ [] → ∀ e ∈ pre ++ qs.dropLast.flatten, e.cnt = 1) →
      Selects s table (pieceRws pre.length qs) ((entryBlocks es).drop (blockCount pre))) ∧
    ((entryBlocks es).Nodup →
      Selects s table (pieceRws pre.length qs) ((entryBlocks es).drop (blockCount pre)) →
      qs ≠ [] → ∀ e ∈ pre ++ qs.dropLast.flatten, e.cnt = 1) := by
  induction qs generalizing pre with
  | nil =>
    refine ⟨fun _ => ?_, fun _ _ h => absurd rfl h⟩
    simp [hes, pieceRws, Selects]
  | cons q qs ih =>
    have hpos : ∀ e ∈ es, 1 ≤ e.cnt := fun e he => (hok e he).cnt_pos
    have hpre : ∀ e ∈ pre, 1 ≤ e.cnt := fun e he => hpos e (by simp [hes, he])
    have hlen := length_le_blockCount hpre
    have htot : blockCount es = blockCount pre + (blockCount q + blockCount qs.flatten) := by
      simp [hes]
    have hq : 1 ≤ blockCount q := by
      have hqpos : ∀ e ∈ q, 1 ≤ e.cnt := fun e he => hpos e (by simp [hes, he])
      have := length_le_blockCount hqpos
      have := List.length_pos_iff.mpr (hne q List.mem_cons_self)
      omega
    have hsel : selectBlocks s table pre.length (blockCount q) = _ :=
      selectBlocks_eq hb htab hroom hok (by omega)
    obtain ⟨ih1, ih2⟩ := ih (pre ++ q) (by simp [hes]) fun r hr => hne r (List.mem_cons_of_mem _ hr)
    have hfit : blockCount q ≤ ((entryBlocks es).drop (blockCount pre)).length := by
      rw [List.length_drop, length_entryBlocks]
      omega
    have hsub : ∀ e ∈ pre ++ q ++ qs.dropLast.flatten, qs ≠ [] →
        e ∈ pre ++ (q :: qs).dropLast.flatten := by
      intro e he hqs
      rw [List.dropLast_cons_of_ne_nil hqs]
      simpa using he
    simp only [pieceRws, Selects, hsel, Option.some.injEq, List.drop_drop]
    rw [List.length_append, blockCount_append] at ih1 ih2
    constructor
    · intro hone
      have hpre1 : ∀ e ∈ pre, e.cnt = 1 := fun e he => hone (by simp) e (by simp [he])
      rw [(length_eq_blockCount_iff hpre).mpr hpre1] at ih1 ⊢
      exact ⟨hfit, rfl, ih1 fun hqs e he => hone (by simp) e (hsub e he hqs)⟩
    · rintro hnd ⟨-, hwin, hrest⟩ - e he
      have hstart : pre.length = blockCount pre :=
        nodup_window hnd hq (by rw [length_entryBlocks]; omega)
          (by rw [length_entryBlocks]; omega) hwin
      by_cases hqs : qs = []
      · subst hqs
        simp only [List.dropLast_singleton, List.flatten_nil, List.append_nil] at he
        exact (length_eq_blockCount_iff hpre).mp hstart e he
      · rw [List.dropLast_cons_of_ne_nil hqs] at he
        exact ih2 hnd hrest hqs e (by simpa using he)

end

/-! ## Requests -/

/-- Segments as the block layer hands them over: aligned, and within the 41-bit
DMA mask of the device. -/
def SegsAddrOk (segs : List Seg) : Prop :=
  ∀ sg ∈ segs, 512 ∣ sg.addr ∧ 0 < sg.addr ∧ sg.addr + sg.len ≤ 2 ^ 41

/-- An entry that may be cut anywhere. -/
structure Entry.Cuttable (e : Entry) : Prop where
  aligned : 512 ∣ e.addr
  addr_pos : 0 < e.addr
  end_le : e.addr + 512 * e.cnt ≤ 2 ^ 41
  cnt_le : e.cnt ≤ 2 ^ 22

theorem Entry.Cuttable.ok {e : Entry} (h : e.Cuttable) (hc : 1 ≤ e.cnt) : e.Ok :=
  ⟨h.aligned, h.addr_pos, by have := h.end_le; omega, hc, h.cnt_le⟩

theorem Entry.Cuttable.take {e : Entry} (h : e.Cuttable) {k : Nat} (hk : k ≤ e.cnt) :
    (Entry.mk e.addr k).Cuttable :=
  ⟨h.aligned, h.addr_pos, by have := h.end_le; simp only; omega,
    Nat.le_trans hk h.cnt_le⟩

theorem Entry.Cuttable.drop {e : Entry} (h : e.Cuttable) {k : Nat} (hk : k ≤ e.cnt) :
    (Entry.mk (e.addr + k * 512) (e.cnt - k)).Cuttable :=
  ⟨Nat.dvd_add h.aligned (Nat.dvd_mul_left 512 k), Nat.add_pos_left h.addr_pos _,
    by have := h.end_le; simp only; omega, Nat.le_trans (Nat.sub_le _ _) h.cnt_le⟩

theorem Plan.add_cuttable {T : Nat} {write : Bool} {p : Plan} {e : Entry}
    (hp : ∀ x ∈ p.entries, x.Cuttable) (he : e.Cuttable) :
    ∀ x ∈ (p.add T write e).entries, x.Cuttable := by
  intro x hx
  rw [Plan.entries_add, List.mem_append] at hx
  rcases hx with hx | hx
  · exact hp x hx
  · rcases Entry.mem_cut hx with rfl | ⟨hle, rfl | ⟨-, rfl⟩⟩
    · exact he
    · exact he.take hle
    · exact he.drop hle

theorem Plan.addAll_cuttable {T : Nat} {write : Bool} {p : Plan} {es : List Entry}
    (hp : ∀ x ∈ p.entries, x.Cuttable) (hes : ∀ e ∈ es, e.Cuttable) :
    ∀ x ∈ (p.addAll T write es).entries, x.Cuttable := by
  induction es generalizing p with
  | nil => exact hp
  | cons e es ih =>
    exact ih (Plan.add_cuttable hp (hes e List.mem_cons_self))
      fun x hx => hes x (List.mem_cons_of_mem _ hx)

/-- The entries of a request are ones the device can walk. -/
theorem requestPlan_entries_ok {T : Nat} (hT : 0 < T ∧ T ≤ 2 ^ 22) {segs : List Seg}
    (hs : SegsOk T segs) (ha : SegsAddrOk segs) (write : Bool) (start : Nat) :
    ∀ e ∈ (requestPlan T write start segs).entries, e.Ok := by
  have hseg : ∀ e ∈ segs.map Seg.entry, e.Cuttable := by
    intro e he
    obtain ⟨sg, hsg, rfl⟩ := List.mem_map.mp he
    obtain ⟨h1, h2, h3⟩ := ha sg hsg
    have hT' := (hs sg hsg).2
    have hlen := Nat.mul_div_le sg.len 512
    refine ⟨h1, h2, ?_, ?_⟩
    · simp only [Seg.entry]
      omega
    · simp only [Seg.entry]
      omega
  intro e he
  exact (Plan.addAll_cuttable (by simp [Plan.start, Plan.entries]) hseg e he).ok
    ((requestPlan_ok hT.1 hs write start).pos e he)

/-- The blocks of a request, by bus address and in order. -/
def requestBlocks (segs : List Seg) : List Nat := entryBlocks (segs.map Seg.entry)

/-- Blocks `x` and `x + 1` of the section lie in one segment and on one tape only
on the last tape the request touches: on every other tape each segment covers at
most one block. -/
def OneBlockSegments (T start : Nat) (segs : List Seg) : Prop :=
  ∀ x, Adj start (segs.map Seg.entry) x → x / T = (x + 1) / T →
    x / T = (start + (requestBlocks segs).length - 1) / T

theorem requestPlan_blocks {T : Nat} (hT : 0 < T) {segs : List Seg} (hs : SegsOk T segs)
    (write : Bool) (start : Nat) :
    entryBlocks (requestPlan T write start segs).entries = requestBlocks segs := by
  have hok : (Plan.start T (start % T) (start / T + 1)).Ok T := Plan.start_ok (Nat.mod_lt _ hT)
  exact Plan.addAll_entryBlocks hok hs.entries

/-- The commands of a request select its memory blocks in order, none lost,
repeated or out of place, if on every tape but its last one the request has only
one-block segments. If the blocks of the request are different ones, it is the
only case.

The page table `pgt` from before may hold anything, and so may the section `s`:
the device loads the table again for every command. The block size register
`aaac` keeps its reset value 0, which the driver never changes. -/
theorem plan_selects {info : SectionInfo} (hb : info.blkType = 0) {s : Aacc β} (hs : s.aaac = 0)
    {write : Bool} {env : SgEnv} {start : Nat} {pgt : Nat → Nat} {st : SgState}
    (hsegs : SegsOk info.blocksInTape env.segs) (haddr : SegsAddrOk env.segs)
    (hplan : planRequest info write env start pgt = .ok st) (hfit : st.entId ≤ MAX_SG_PGT_ENTRIES) :
    (OneBlockSegments info.blocksInTape start env.segs →
      Selects s st.pgtBuf (rwFields st.cmds) (requestBlocks env.segs)) ∧
    ((requestBlocks env.segs).Nodup →
      Selects s st.pgtBuf (rwFields st.cmds) (requestBlocks env.segs) →
      OneBlockSegments info.blocksInTape start env.segs) := by
  have hB := blocksInTape_bounds hb
  have hT : 0 < info.blocksInTape := by omega
  obtain ⟨hstart, hne, hcmds, htab, hent⟩ := planRequest_inv hb hsegs hplan
  have hrange : _ → ∀ c ∈ requestCmds info.blocksInTape write start env.segs, c.InRange :=
    fun hlen c => requestCmds_inRange hb hsegs hstart hlen
  have hshape := requestPlan_shape hT hsegs write start
  have hblocks := requestPlan_blocks hT hsegs write start
  have hok := requestPlan_entries_ok ⟨hT, by omega⟩ hsegs haddr write start
  have hadj := requestPlan_adj hT hsegs write start
  unfold requestCmds at hcmds hrange
  generalize requestPlan info.blocksInTape write start env.segs = p at *
  have hflat := Plan.Shape.flatten_allPieces p
  have htiled := hshape.tiled_allPieces hT
  have hfields : rwFields st.cmds = pieceRws 0 p.allPieces := by
    rw [hcmds, rwFields_node (hrange (by omega)), List.filterMap_append, hshape.close_rws]
    simp [setupCmds, Cmd.rwArgs]
  have hpne : p.allPieces ≠ [] := by
    intro h0
    rw [h0, List.flatten_nil] at hflat
    rw [← hflat] at hblocks
    obtain ⟨sg, sgs, hsg⟩ := List.exists_cons_of_ne_nil hne
    have hcnt := (hsegs sg (by simp [hsg])).1
    have hlen := congrArg List.length hblocks
    simp only [entryBlocks_nil, List.length_nil, requestBlocks, hsg, List.map_cons,
      entryBlocks_cons, List.length_append, Entry.length_blocks, Seg.entry] at hlen
    omega
  have hlook : ∀ i x, p.allPieces.flatten[i]? = some x → st.pgtBuf i = pgtEntry x.addr x.cnt := by
    intro i x hx
    rw [hflat] at hx
    simp only [htab, tableOf, hx]
  -- the condition, said of the entries
  have hcond : OneBlockSegments info.blocksInTape start env.segs ↔
      ∀ e ∈ p.allPieces.dropLast.flatten, e.cnt = 1 := by
    rw [← htiled.adj_last_iff hT (by rw [hflat]; exact hshape.ok.pos), hflat]
    have hlast := htiled.last_tape hT hpne (by rw [hflat]; exact hshape.ok.pos)
    rw [hflat, ← length_entryBlocks, hblocks] at hlast
    unfold OneBlockSegments
    rw [hlast]
    simp only [hadj, and_imp]
  have hroom : p.allPieces.flatten.length ≤ 512 := by rw [hflat, ← hent]; exact hfit
  obtain ⟨h1, h2⟩ := pieces_select hs hlook hroom (by rw [hflat]; exact hok) [] p.allPieces rfl
    htiled.ne_nil
  simp only [List.length_nil, blockCount_nil, List.drop_zero, List.nil_append, hflat, hblocks]
    at h1 h2
  rw [hcond, hfields]
  exact ⟨fun h => h1 fun _ => h, fun hnd h => h2 hnd h hpne⟩

/-- A section of the device after reset. -/
def resetSection : Aacc Unit :=
  ⟨.idle, 0, 0, 0, 2, 0, .idle, 0, fun _ => 0, 0, 0, 0, 0, 0, 0, 0, fun _ => (), fun _ => 0⟩

/-- Nothing fails to allocate, and `segs` are the mapped segments. -/
def sgEnv (segs : List Seg) : SgEnv := ⟨fun _ => false, true, segs⟩

/-- A segment of one block on the first tape and one of two blocks on the second
meet the condition. -/
theorem plan_selects_at_boundary :
    ∃ st, planRequest twoTapes true (sgEnv [⟨4096, 512⟩, ⟨8192, 1024⟩]) 511 (fun _ => 0) = .ok st ∧
      Selects resetSection st.pgtBuf (rwFields st.cmds) [4096, 8192, 8704] := by
  have hsegs : SegsOk twoTapes.blocksInTape [⟨4096, 512⟩, ⟨8192, 1024⟩] := by
    unfold SegsOk
    decide
  obtain ⟨st, hst⟩ : ∃ st, planRequest twoTapes true (sgEnv [⟨4096, 512⟩, ⟨8192, 1024⟩]) 511
      (fun _ => 0) = .ok st :=
    planRequest_ok rfl hsegs (fun _ => rfl) rfl (by decide) (by decide) (by decide +kernel)
  obtain ⟨-, -, -, -, hent⟩ := planRequest_inv rfl hsegs hst
  have hfit : st.entId ≤ MAX_SG_PGT_ENTRIES := by
    rw [hent]
    decide +kernel
  refine ⟨st, hst, (plan_selects rfl rfl hsegs (by unfold SegsAddrOk; decide) hst hfit).1 ?_⟩
  intro x hadj _
  simp only [sgEnv, List.map_cons, List.map_nil, Adj, Seg.entry, or_false] at hadj
  have hx : x = 512 := by omega
  subst hx
  decide

/-- Blocks 510 and 511 lie in one segment on the first tape. The second command
gets offset 1, the index of the second entry; the device skips one block and
takes the second block of the first segment again. -/
theorem plan_selects_wrong_block :
    ∃ st, planRequest twoTapes true (sgEnv [⟨4096, 1024⟩, ⟨8192, 512⟩]) 510 (fun _ => 0) = .ok st ∧
      st.entId ≤ MAX_SG_PGT_ENTRIES ∧ rwFields st.cmds = [(0, 2), (1, 1)] ∧
      requestBlocks [⟨4096, 1024⟩, ⟨8192, 512⟩] = [4096, 4608, 8192] ∧
      selectBlocks resetSection st.pgtBuf 1 1 = some [4608] ∧
      ¬ Selects resetSection st.pgtBuf (rwFields st.cmds)
        (requestBlocks [⟨4096, 1024⟩, ⟨8192, 512⟩]) := by
  have hsegs : SegsOk twoTapes.blocksInTape [⟨4096, 1024⟩, ⟨8192, 512⟩] := by
    unfold SegsOk
    decide
  obtain ⟨st, hst⟩ : ∃ st, planRequest twoTapes true (sgEnv [⟨4096, 1024⟩, ⟨8192, 512⟩]) 510
      (fun _ => 0) = .ok st :=
    planRequest_ok rfl hsegs (fun _ => rfl) rfl (by decide) (by decide) (by decide +kernel)
  obtain ⟨-, -, hcmds, htab, hent⟩ := planRequest_inv rfl hsegs hst
  have hfields : rwFields st.cmds = [(0, 2), (1, 1)] := by
    rw [hcmds]
    decide +kernel
  have hsel : selectBlocks resetSection st.pgtBuf 1 1 = some [4608] := by
    rw [htab]
    decide +kernel
  refine ⟨st, hst, by rw [hent]; decide +kernel, hfields, by decide +kernel, hsel, ?_⟩
  rw [hfields]
  rintro ⟨-, -, -, hsel', -⟩
  rw [hsel] at hsel'
  revert hsel'
  decide +kernel

end Zso.Tape
