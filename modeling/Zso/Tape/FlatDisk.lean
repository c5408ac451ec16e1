import Zso.Tape.Walk

/-!
# The flat disk

What a section is for: an array of blocks that READ and WRITE requests copy from and
to. `Flat.Step` is its specification. A request is handed over, and some time later it
is ended with BLK_STS_OK; by then all its blocks have been copied and nothing else has
changed. A request for which the driver could not allocate memory is ended with an
error and has changed nothing.

`Request.Moves` describes a copy block by block. It is made of single blocks
(`Writes.snoc`, `Reads.snoc`), so the device can be followed while it transfers.
-/

namespace Zso.Tape

variable {β : Type}

/-- A READ or WRITE, as the block layer hands it over. -/
structure Request where
  write : Bool
  /-- the first logical block -/
  start : Nat
  env : SgEnv

/-- The bus addresses of the request's memory blocks, in order. -/
def Request.blocks (q : Request) : List Nat := requestBlocks q.env.segs

/-- Nothing fails to allocate. -/
def Request.Allocated (q : Request) : Prop := q.env.mainSg = true ∧ ∀ k, q.env.oom k = false

/-- A disk without tapes, the memory on its bus, and the request it has been given. -/
structure Flat (β : Type) where
  disk : Nat → β
  mem : Nat → β
  pending : Option (Nat × Request)

/-- The blocks of memory at `bs` are stored from block `start` on, and nothing else
changes. -/
structure Writes (start : Nat) (bs : List Nat) (f f' : Flat β) : Prop where
  stored : ∀ i b, bs[i]? = some b → f'.disk (start + i) = f.mem (b / 512)
  others : ∀ k, k < start ∨ start + bs.length ≤ k → f'.disk k = f.disk k
  mem : f'.mem = f.mem

/-- The blocks from `start` on are delivered to the memory at `bs`, and nothing else
changes. -/
structure Reads (start : Nat) (bs : List Nat) (f f' : Flat β) : Prop where
  delivered : ∀ i b, bs[i]? = some b → f'.mem (b / 512) = f.disk (start + i)
  others : ∀ a, (∀ b ∈ bs, a ≠ b / 512) → f'.mem a = f.mem a
  disk : f'.disk = f.disk

/-- The request `q` as far as its memory blocks `bs` are concerned. -/
def Request.Moves (q : Request) (bs : List Nat) (f f' : Flat β) : Prop :=
  if q.write then Writes q.start bs f f' else Reads q.start bs f f'

/-- What can be seen of a step. -/
inductive Action (β : Type)
  | submit (r : Nat) (q : Request)
  /-- the CPU leaves this memory -/
  | cpu (mem : Nat → β)
  /-- the requests that are ended -/
  | ended (rs : List (Nat × BlkStatus))

/-- The memory units of the pending request. The CPU leaves them alone. -/
def Flat.lent (f : Flat β) : List Nat := f.pending.elim [] fun p => p.2.blocks.map (· / 512)

/-- The CPU writes to the memory that is not lent. -/
def Flat.cpu (f : Flat β) (mem : Nat → β) : Flat β :=
  { f with mem := fun a => if a ∈ f.lent then f.mem a else mem a }

/-- The steps of the flat disk. -/
inductive Flat.Step (f : Flat β) : Action β → Flat β → Prop
  | submit (r : Nat) (q : Request) :
      f.pending = none → f.Step (.submit r q) { f with pending := some (r, q) }
  | finish (r : Nat) (q : Request) (f' : Flat β) :
      f.pending = some (r, q) → q.Moves q.blocks f f' → f'.pending = none →
      f.Step (.ended [(r, .ok)]) f'
  | refuse (r : Nat) (q : Request) (status : BlkStatus) :
      f.pending = some (r, q) → ¬ q.Allocated → status ≠ .ok →
      f.Step (.ended [(r, status)]) { f with pending := none }
  | cpu (mem : Nat → β) : f.Step (.cpu mem) (f.cpu mem)
  | silent : f.Step (.ended []) f

/-! ## Block by block -/

section
variable {q : Request} {start : Nat} {bs : List Nat} {f f' g : Flat β} {b : Nat}

/-- What has been moved does not depend on the request that is pending. -/
theorem Request.Moves.congr (h : q.Moves bs f f') {x y : Option (Nat × Request)} :
    q.Moves bs { f with pending := x } { f' with pending := y } := by
  unfold Request.Moves at h ⊢
  split
  · next hw =>
    rw [if_pos hw] at h
    exact ⟨h.stored, h.others, h.mem⟩
  · next hw =>
    rw [if_neg hw] at h
    exact ⟨h.delivered, h.others, h.disk⟩

/-- Before the first block nothing has changed. -/
theorem Request.moves_nil_iff (q : Request) (f f' : Flat β) :
    q.Moves [] f f' ↔ f'.disk = f.disk ∧ f'.mem = f.mem := by
  unfold Request.Moves
  split
  · constructor
    · intro h
      exact ⟨funext fun k => h.others k (by simpa using lt_or_ge k q.start), h.mem⟩
    · rintro ⟨hd, hm⟩
      exact ⟨fun i b hb => by simp at hb, fun k _ => congrFun hd k, hm⟩
  · constructor
    · intro h
      exact ⟨h.disk, funext fun a => h.others a (by simp)⟩
    · rintro ⟨hd, hm⟩
      exact ⟨fun i b hb => by simp at hb, fun a _ => congrFun hm a, hd⟩

theorem getElem?_snoc_cases {i c : Nat} (h : (bs ++ [b])[i]? = some c) :
    i < bs.length ∧ bs[i]? = some c ∨ i = bs.length ∧ c = b := by
  rw [List.getElem?_append] at h
  split at h
  · next hi => exact .inl ⟨hi, h⟩
  · next hi =>
    rw [List.getElem?_singleton] at h
    split at h
    · next hz => exact .inr ⟨by omega, (Option.some.inj h).symm⟩
    · cases h

theorem Writes.snoc (h : Writes start bs f f')
    (hd : g.disk = Function.update f'.disk (start + bs.length) (f'.mem (b / 512)))
    (hm : g.mem = f'.mem) : Writes start (bs ++ [b]) f g where
  stored i c hc := by
    rw [hd]
    rcases getElem?_snoc_cases hc with ⟨hi, hc⟩ | ⟨rfl, rfl⟩
    · rw [Function.update_of_ne (by omega), h.stored i c hc]
    · rw [Function.update_self, h.mem]
  others k hk := by
    simp only [List.length_append, List.length_singleton] at hk
    rw [hd, Function.update_of_ne (by omega)]
    exact h.others k (by omega)
  mem := hm.trans h.mem

/-- The memory blocks are different ones, so a block that was delivered stays. -/
theorem Reads.snoc (h : Reads start bs f f') (hb : ∀ c ∈ bs, c / 512 ≠ b / 512)
    (hm : g.mem = Function.update f'.mem (b / 512) (f'.disk (start + bs.length)))
    (hd : g.disk = f'.disk) : Reads start (bs ++ [b]) f g where
  delivered i c hc := by
    rw [hm]
    rcases getElem?_snoc_cases hc with ⟨hi, hc⟩ | ⟨rfl, rfl⟩
    · rw [Function.update_of_ne (hb c (List.mem_of_getElem? hc)), h.delivered i c hc]
    · rw [Function.update_self, h.disk]
  others a ha := by
    simp only [List.mem_append, List.mem_singleton] at ha
    rw [hm, Function.update_of_ne (ha b (.inr rfl))]
    exact h.others a fun c hc => ha c (.inl hc)
  disk := hd.trans h.disk

/-- The CPU may write while a request is under way. -/
theorem Request.Moves.cpu {r : Nat} (h : q.Moves bs f f') (hp : f.pending = some (r, q))
    (hbs : ∀ b ∈ bs, b ∈ q.blocks) {mem : Nat → β}
    (hkeep : ∀ a ∈ f.lent, mem a = f'.mem a) : q.Moves bs (f.cpu mem) { f' with mem := mem } := by
  have hlent : ∀ b ∈ bs, b / 512 ∈ f.lent := by
    intro b hb
    simp only [Flat.lent, hp, Option.elim]
    exact List.mem_map_of_mem (hbs b hb)
  have hcpu : ∀ a, (f.cpu mem).mem a = if a ∈ f.lent then f.mem a else mem a := fun _ => rfl
  unfold Request.Moves at h ⊢
  split
  · next hw =>
    rw [if_pos hw] at h
    refine ⟨fun i b hb => ?_, h.others, funext fun a => ?_⟩
    · rw [hcpu, if_pos (hlent b (List.mem_of_getElem? hb))]
      exact h.stored i b hb
    · rw [hcpu]
      split
      · next ha => exact (hkeep a ha).trans (congrFun h.mem a)
      · rfl
  · next hw =>
    rw [if_neg hw] at h
    refine ⟨fun i b hb => ?_, fun a ha => ?_, h.disk⟩
    · exact (hkeep _ (hlent b (List.mem_of_getElem? hb))).trans (h.delivered i b hb)
    · rw [hcpu]
      split
      · next hl => exact (hkeep a hl).trans (h.others a ha)
      · rfl

/-! ## The pending request -/

/-- A pending request stays pending until it is ended. -/
theorem Flat.Step.ended_or_pending {a : Action β} {r : Nat} (h : f.Step a f')
    (hp : f.pending = some (r, q)) :
    (∃ st, a = .ended [(r, st)] ∧ (q.Allocated → st = .ok)) ∨ f'.pending = some (r, q) := by
  cases h with
  | submit r' q' hp' => cases hp.symm.trans hp'
  | finish r' q' f' hp' hmv hn =>
    cases hp.symm.trans hp'
    exact .inl ⟨.ok, rfl, fun _ => rfl⟩
  | refuse r' q' status hp' hno hst =>
    cases hp.symm.trans hp'
    exact .inl ⟨status, rfl, fun ha => absurd ha hno⟩
  | cpu mem => exact .inr hp
  | silent => exact .inr hp

theorem Flat.Step.submitted {r : Nat} (h : f.Step (.submit r q) f') :
    f'.pending = some (r, q) := by
  cases h
  rfl

end

end Zso.Tape
