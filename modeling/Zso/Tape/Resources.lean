import Zso.Lib.Ledger
import Zso.Tape.QueueShape

/-!
# The memory of a section

Command nodes, scatter tables and DMA mappings, in a ledger that is kept beside the section. A node
is freed where it is taken off the queue, and by the error path of `create_start_pos_setup_cmds`.
Nothing frees `main_sg` or undoes `dma_map_sg`, and a `do_scatter_gather` that fails leaves the
nodes of the private list behind.

* `Book.submit_spec`: what a call of `submit_request_sg` leaves behind for good.
* `booked_step`: the ledger is what is in the queue, on the private list and lost.
* `ledger_balanced`: nothing is ever freed twice, and a section at rest has an empty ledger if and
  only if every submission so far failed at the latest in `create_start_pos_setup_cmds`.
-/

namespace Zso.Tape
open Transition Ledgers

inductive Item
  | node (a : Nat)
  | scatterTable (a : Nat)
  | mapping (a : Nat)
deriving DecidableEq, Repr

/-- A call of `submit_request_sg`. -/
structure SgCall where
  start : Nat
  env : SgEnv

/-- What is recorded beside a section. Items are numbered as they are acquired. -/
structure Book where
  ledger : Ledger Item
  fresh : Nat
  /-- the nodes of the private list, and of the section's queue -/
  privateNodes : List Nat
  queueNodes : List Nat
  calls : List SgCall

def Book.empty : Book := ⟨⟨0, true⟩, 0, [], [], []⟩

/-! ## Acquisitions -/

/-- `n` nodes, numbered from `a` on. -/
def nodeItems (a n : Nat) : List Item := (List.range' a n).map .node

/-- The words `create_start_pos_setup_cmds` enqueues. -/
def setupWords (startSectorWithinTape tapeNbr : Nat) : List Nat :=
  [createTapedevCmd CMD_EJECT_TAPE 0 0,
   createTapedevCmd CMD_TAKE_TAPE tapeNbr 0,
   createTapedevCmd CMD_REWIND 0 0,
   createTapedevCmd CMD_FAST_FWD startSectorWithinTape 0]

/-- What `create_start_pos_setup_cmds` acquires and releases: a failed allocation frees the nodes
that are already on the list. -/
def setupOps (oom : Nat → Bool) (startSector : Nat) (info : SectionInfo) (a : Nat) :
    List (Op Item) :=
  (calcStartPosWithinSection startSector info).elim [] fun (startSectorWithinTape, tapeNbr) =>
    match enqueueCmds oom [] (setupWords startSectorWithinTape tapeNbr) with
    | .error lst => (nodeItems a lst.length).map .acquire ++ (nodeItems a lst.length).map .release
    | .ok lst => (nodeItems a lst.length).map .acquire

/-- What `do_scatter_gather` acquires: `main_sg`, the mapping, and `k` nodes. It releases
nothing. -/
def scatterGatherItems (limit : Nat) (info : SectionInfo) (env : SgEnv) (startSector a k : Nat) :
    List Item :=
  (calcStartPosWithinSection startSector info).elim [] fun _ =>
    if env.mainSg = false then []
    else .scatterTable a ::
      if env.segs.length = 0 then []
      else .mapping (a + 1) :: if env.segs.length > limit then [] else nodeItems (a + 2) k

/-- The private list when `do_scatter_gather` returns or takes the lock. -/
def privateList : SgResult → List SectionCmd
  | .error e => e.2.cmds
  | .ok st => st.cmds

/-- `submit_request_sg`, up to the lock. -/
def Book.submit (b : Book) (info : SectionInfo) (write : Bool) (env : SgEnv) (startSector : Nat)
    (pgtBuf : Nat → Nat) : Book :=
  let b' := { b with
    ledger := b.ledger.run (setupOps env.oom startSector info b.fresh)
    privateNodes := []
    calls := b.calls ++ [SgCall.mk startSector env] }
  onOutcome (fun _ => { b' with fresh := b.fresh + 4 })
    (fun cmds =>
      let r := doScatterGather MAX_SG_PGT_ENTRIES info write env startSector pgtBuf cmds
      let a := b.fresh + cmds.length
      let k := (privateList r).length - cmds.length
      let items := scatterGatherItems MAX_SG_PGT_ENTRIES info env startSector a k
      { b' with
        ledger := b'.ledger.run (items.map .acquire)
        fresh := a + 2 + k
        privateNodes := onOutcome (fun _ => [])
          (fun _ => List.range' b.fresh cmds.length ++ List.range' (a + 2) k) r })
    (createStartPosSetupCmds env.oom startSector info)

/-! ## Releases -/

/-- The calls of `kfree` in `__abort_rest_of_req_cmds`. -/
def abortFrees : List LstNode → Nat
  | [] => 0
  | node :: rest => if node.isIoctl then 0 else abortFrees rest + 1

/-- The calls of `kfree` in `__handle_section_error`. -/
def errorFrees (st : SectStatus) : List LstNode → Nat
  | [] => 0
  | node :: rest =>
    (if st = .errNoTape then 1 else 0) +
      if node.isIoctl then 0 else if st = .errNoTape then 0 else abortFrees (node :: rest)

/-- The calls of `kfree` in `__handle_section_done`. -/
def doneFrees (st : SectStatus) : List LstNode → Nat
  | [] => 0
  | _ :: _ => if st ≠ .done then 0 else 1

/-- The calls of `kfree` in `_handle_section_interrupt`, each of them for the first node of the
queue. -/
def handlerFrees (sectionDone sectionError : Bool) (st : SectStatus) (q : List LstNode) : Nat :=
  if st = .working then 0
  else if sectionError then errorFrees st q
  else if sectionDone then doneFrees st q
  else 0

/-- `list_del` and `kfree` of the first node, `n` times. -/
def Book.free (b : Book) (n : Nat) : Book :=
  { b with
    ledger := b.ledger.run (((b.queueNodes.take n).map Item.node).map .release)
    queueNodes := b.queueNodes.drop n }

/-! ## The section with its ledger -/

variable {D : DevModel}

/-- What a step does to the memory. -/
def Sys.book (s : Sys D) (l : Label D) (b : Book) : Book :=
  match l with
  | .build =>
    match s.submit with
    | .started _ write start env => b.submit s.sec.info write env start s.sec.cpuDmaBuf
    | _ => b
  | .splice => { b with privateNodes := [], queueNodes := b.queueNodes ++ b.privateNodes }
  | .eject oom =>
    if oom then b
    else { b with
      ledger := b.ledger.apply (.acquire (.node b.fresh))
      fresh := b.fresh + 1
      queueNodes := b.queueNodes ++ [b.fresh] }
  | .handle =>
    match s.irq with
    | some ⟨done, error, some st⟩ =>
      if done || error then b.free (handlerFrees done error st s.sec.cmdQueue) else b
    | _ => b
  | _ => b

def booked (D : DevModel) : Lts (Sys D × Book) (Label D) :=
  (system D).recording (· = Book.empty) Sys.book

/-- The queue is empty, no request is outstanding and no call is in progress. -/
structure Sys.AtRest (s : Sys D) : Prop where
  queue : s.sec.cmdQueue = []
  outstanding : s.outstanding = none
  submit : s.submit = .idle
  waiters : s.waiters = []
  irq : s.irq = none

instance (t : Submit) : Decidable (t = .idle) :=
  match t with
  | .idle => isTrue rfl
  | .started _ _ _ _ => isFalse nofun
  | .built _ _ => isFalse nofun
  | .failed _ _ => isFalse nofun

instance (s : Sys D) : Decidable s.AtRest :=
  decidable_of_iff (s.sec.cmdQueue = [] ∧ s.outstanding = none ∧ s.submit = .idle ∧ s.waiters = [] ∧
    s.irq = none) ⟨fun ⟨h1, h2, h3, h4, h5⟩ => ⟨h1, h2, h3, h4, h5⟩, fun ⟨h1, h2, h3, h4, h5⟩ =>
      ⟨h1, h2, h3, h4, h5⟩⟩

/-- The submission fails in `create_start_pos_setup_cmds`: the start is out of range, or one of the
four set-up nodes cannot be allocated. -/
def SgCall.FailsInSetup (info : SectionInfo) (c : SgCall) : Prop :=
  info.sectors ≤ c.start ∨ ∃ k < 4, c.env.oom k = true

instance (info : SectionInfo) (c : SgCall) : Decidable (c.FailsInSetup info) :=
  inferInstanceAs (Decidable (info.sectors ≤ c.start ∨ ∃ k < 4, c.env.oom k = true))

/-! ## What a submission leaves behind -/

theorem enqueueCmds_ok_iff (oom : Nat → Bool) (lst : List SectionCmd) (cs : List Nat) :
    (∃ l, enqueueCmds oom lst cs = .ok l) ↔ ∀ k < cs.length, oom (lst.length + k) = false := by
  induction cs generalizing lst with
  | nil => simp [enqueueCmds]
  | cons c cs ih =>
    rw [List.length_cons, Nat.forall_lt_succ_left]
    cases hn : oom lst.length with
    | true => simp [enqueueCmds, enqueueNewCmd, hn]
    | false =>
      have hrec : enqueueCmds oom lst (c :: cs) = enqueueCmds oom (lst ++ [⟨c, false⟩]) cs := by
        simp [enqueueCmds, enqueueNewCmd, hn]
      rw [hrec, ih]
      simp [Nat.add_assoc, Nat.add_comm 1]

/-- The set-up fails and leaves nothing behind, or there are four nodes on the list. -/
theorem setup_cases (info : SectionInfo) (env : SgEnv) (start a : Nat) (L : Ledger Item) :
    (SgCall.FailsInSetup info ⟨start, env⟩ ∧
      (∃ e, createStartPosSetupCmds env.oom start info = .error e) ∧
      L.run (setupOps env.oom start info a) = L) ∨
    (¬ SgCall.FailsInSetup info ⟨start, env⟩ ∧
      ∃ cmds, createStartPosSetupCmds env.oom start info = .ok cmds ∧ cmds.length = 4 ∧
        L.run (setupOps env.oom start info a) = ⟨↑(nodeItems a 4) + L.live, L.sound⟩) := by
  unfold SgCall.FailsInSetup createStartPosSetupCmds setupOps
  by_cases hs : start < info.sectors
  · rw [calcStartPos_eq hs]
    simp only [Option.elim_some, setupWords]
    generalize hw : [createTapedevCmd CMD_EJECT_TAPE 0 0,
      createTapedevCmd CMD_TAKE_TAPE (start / info.blocksInTape + 1) 0,
      createTapedevCmd CMD_REWIND 0 0,
      createTapedevCmd CMD_FAST_FWD (start % info.blocksInTape) 0] = words
    have hlen : words.length = 4 := by rw [← hw]; rfl
    have hiff := enqueueCmds_ok_iff env.oom [] words
    simp only [hlen, List.length_nil, Nat.zero_add] at hiff
    cases h : enqueueCmds env.oom [] words with
    | error lst =>
      have hoom : ∃ k < 4, env.oom k = true := by
        by_contra hno
        obtain ⟨l, hl⟩ := hiff.mpr fun k hk => by
          by_contra hk'
          exact hno ⟨k, hk, by simpa using hk'⟩
        rw [hl] at h
        cases h
      exact .inl ⟨.inr hoom, ⟨_, rfl⟩, L.run_balanced (.refl _)⟩
    | ok lst =>
      have hlst : lst.length = 4 := by rw [enqueueCmds_inv h]; simp [hlen]
      refine .inr ⟨?_, lst, rfl, hlst, ?_⟩
      · rintro (hout | ⟨k, hk, hoom⟩)
        · exact absurd hs (not_lt.mpr hout)
        · rw [hiff.mp ⟨lst, h⟩ k hk] at hoom
          cases hoom
      · show L.run ((nodeItems a lst.length).map .acquire) = _
        rw [hlst, L.run_acquire]
  · rw [calcStartPos_none (not_lt.mp hs)]
    exact .inl ⟨.inl (not_lt.mp hs), ⟨_, rfl⟩, rfl⟩

theorem Built.four_le {cs : List Cmd} (h : Built cs) : 4 ≤ cs.length := by
  induction h with
  | setup tape pos => simp
  | change tape _ ih => simp; omega
  | rw write off n _ ih => simp; omega

theorem doScatterGather_mainSg {limit : Nat} {info : SectionInfo} {write : Bool} {env : SgEnv}
    {start : Nat} {pgt : Nat → Nat} {cmds : List SectionCmd} {st : SgState}
    (h : doScatterGather limit info write env start pgt cmds = .ok st) : env.mainSg = true := by
  by_contra hm
  rw [Bool.not_eq_true] at hm
  unfold doScatterGather at h
  cases hpos : calcStartPosWithinSection start info with
  | none =>
    rw [hpos] at h
    cases h
  | some pos => simp [hpos, hm] at h

section
variable (b : Book) {info : SectionInfo} (write : Bool) {env : SgEnv} {start : Nat} (pgt : Nat → Nat)

theorem Book.submit_fails {e : Int} (he : createStartPosSetupCmds env.oom start info = .error e) :
    b.submit info write env start pgt =
      { b with
        ledger := b.ledger.run (setupOps env.oom start info b.fresh)
        fresh := b.fresh + 4
        privateNodes := []
        calls := b.calls ++ [⟨start, env⟩] } := by
  unfold Book.submit
  rw [he, onOutcome_error]

theorem Book.submit_goes_on {cmds : List SectionCmd} {r : SgResult} {k : Nat}
    (hc : createStartPosSetupCmds env.oom start info = .ok cmds) (hlen : cmds.length = 4)
    (hr : doScatterGather MAX_SG_PGT_ENTRIES info write env start pgt cmds = r)
    (hk : k = (privateList r).length - 4) :
    b.submit info write env start pgt =
      { b with
        ledger := (b.ledger.run (setupOps env.oom start info b.fresh)).run
          ((scatterGatherItems MAX_SG_PGT_ENTRIES info env start (b.fresh + 4) k).map .acquire)
        fresh := b.fresh + 4 + 2 + k
        privateNodes := onOutcome (fun _ => [])
          (fun _ => List.range' b.fresh 4 ++ List.range' (b.fresh + 4 + 2) k) r
        calls := b.calls ++ [⟨start, env⟩] } := by
  unfold Book.submit
  rw [hc, onOutcome_ok, hr, hlen, hk]

end

/-- What a call of `submit_request_sg` with the outcome `r` does to the record. -/
structure Book.Submitted (b b' : Book) (info : SectionInfo) (c : SgCall) (r : SgResult) : Prop where
  ledger : ∃ lost, b'.ledger = ⟨↑(b'.privateNodes.map Item.node) + lost + b.ledger.live,
    b.ledger.sound⟩ ∧ (lost = 0 ↔ c.FailsInSetup info)
  privateNodes : b'.privateNodes.length = onOutcome (fun _ => 0) (fun st => st.cmds.length) r
  queueNodes : b'.queueNodes = b.queueNodes
  calls : b'.calls = b.calls ++ [c]

/-- A submission that gets over the set-up commands loses something, whether it succeeds or not. -/
theorem Book.submit_spec (b : Book) (info : SectionInfo) (write : Bool) (env : SgEnv) (start : Nat)
    (pgt : Nat → Nat) :
    b.Submitted (b.submit info write env start pgt) info ⟨start, env⟩
      (planRequest info write env start pgt) := by
  rcases setup_cases info env start b.fresh b.ledger with
    ⟨hfails, ⟨e, he⟩, hrun⟩ | ⟨hok, cmds, hc, hlen, hrun⟩
  · rw [b.submit_fails write pgt he, planRequest, he, onOutcome_error, hrun]
    exact ⟨⟨0, by simp, by simp [hfails]⟩, rfl, rfl, rfl⟩
  · have hs : start < info.sectors := (createStartPosSetupCmds_inv hc).1
    rw [planRequest, hc, onOutcome_ok]
    cases hr : doScatterGather MAX_SG_PGT_ENTRIES info write env start pgt cmds with
    | error e =>
      rw [b.submit_goes_on write pgt hc hlen hr rfl, hrun, Ledger.run_acquire]
      refine ⟨⟨↑(scatterGatherItems MAX_SG_PGT_ENTRIES info env start (b.fresh + 4)
        ((privateList (.error e)).length - 4)) + ↑(nodeItems b.fresh 4), ?_, ?_⟩, rfl, rfl, rfl⟩
      · simp only [onOutcome_error, List.map_nil, Multiset.coe_nil, zero_add, add_assoc]
      · exact iff_of_false (by simp [nodeItems]) hok
    | ok st =>
      rw [b.submit_goes_on write pgt hc hlen hr rfl, hrun, Ledger.run_acquire]
      obtain ⟨-, hne, hle, -⟩ := doScatterGather_inv hr
      have hitems : ∀ k, scatterGatherItems MAX_SG_PGT_ENTRIES info env start (b.fresh + 4) k =
          .scatterTable (b.fresh + 4) :: .mapping (b.fresh + 4 + 1) ::
            nodeItems (b.fresh + 4 + 2) k := by
        intro k
        simp [scatterGatherItems, calcStartPos_eq hs, doScatterGather_mainSg hr, hne, hle]
      have hfour : 4 ≤ st.cmds.length := by
        have hplan : planRequest info write env start pgt = .ok st := by
          rw [planRequest, hc, onOutcome_ok, hr]
        obtain ⟨cs, hcs, hst⟩ := planRequest_built hplan
        simpa [hst] using hcs.four_le
      refine ⟨⟨{.scatterTable (b.fresh + 4), .mapping (b.fresh + 4 + 1)}, ?_, ?_⟩, ?_, rfl, rfl⟩
      · simp only [onOutcome_ok, privateList, hitems, List.map_append, nodeItems]
        simp only [← Multiset.coe_add, ← Multiset.cons_coe, ← Multiset.singleton_add,
          Multiset.insert_eq_cons]
        congr 1
        abel
      · exact iff_of_false (by simp) hok
      · simp only [onOutcome_ok, privateList, List.length_append, List.length_range']
        omega

/-! ## Freeing -/

theorem fromIoctl_eq_drop (q : List LstNode) : fromIoctl q = q.drop (abortFrees q) := by
  induction q with
  | nil => rfl
  | cons node rest ih =>
    cases hn : node.isIoctl with
    | true => simp [fromIoctl, abortFrees, hn]
    | false =>
      have hd : fromIoctl (node :: rest) = fromIoctl rest := by simp [fromIoctl, hn]
      simp [hd, ih, abortFrees, hn]

/-- The handler frees what it takes off the queue. -/
theorem completeHead_frees {sec : Section} {node : LstNode} {rest : List LstNode} {st : SectStatus}
    (hq : sec.cmdQueue = node :: rest) (hst : st.isErr = true ∨ st = .done) :
    (completeHead sec node rest st).1.cmdQueue =
      sec.cmdQueue.drop (handlerFrees (!st.isErr) st.isErr st sec.cmdQueue) := by
  rcases hst with herr | rfl
  · have hw : st ≠ .working := by
      rintro rfl
      cases herr
    have hd : st ≠ .done := by
      rintro rfl
      cases herr
    by_cases hn : st = .errNoTape
    · subst hn
      cases hio : node.isIoctl <;> simp [completeHead, handlerFrees, errorFrees, hq, hio, herr]
    · cases hio : node.isIoctl with
      | true => simp [completeHead, handlerFrees, errorFrees, hq, hio, herr, hn, hd, hw]
      | false =>
        simp [completeHead, handlerFrees, errorFrees, hq, hio, herr, hn, hd, hw, abortFrees,
          fromIoctl_eq_drop]
  · have herr : SectStatus.done.isErr = false := by decide
    simp [completeHead, handlerFrees, doneFrees, hq, herr]

/-! ## The invariant -/

/-- The length of the private list. -/
def Submit.privateLength : Submit → Nat
  | .built _ nodes => nodes.length
  | _ => 0

/-- The ledger has the nodes of the private list, those of the queue, and what is lost. -/
structure Booked (s : Sys D) (b : Book) : Prop where
  queueNodes : b.queueNodes.length = s.sec.cmdQueue.length
  privateNodes : b.privateNodes.length = s.submit.privateLength
  ledger : ∃ lost, b.ledger = ⟨↑((b.privateNodes ++ b.queueNodes).map Item.node) + lost, true⟩ ∧
    (lost = 0 ↔ ∀ c ∈ b.calls, c.FailsInSetup s.sec.info)

section
variable {s s' : Sys D} {l : Label D} {b : Book}

theorem Booked.congr (h : Booked s b) (hq : s'.sec.cmdQueue = s.sec.cmdQueue)
    (hsub : s'.submit.privateLength = s.submit.privateLength) (hinfo : s'.sec.info = s.sec.info) :
    Booked s' b := by
  obtain ⟨h1, h2, h3⟩ := h
  exact ⟨by rw [hq, h1], by rw [hsub, h2], by rwa [hinfo]⟩

/-- A submission that ran from an empty private list. -/
theorem Booked.submit (h : Booked s b) (hnil : s.submit.privateLength = 0) {b' : Book} {c : SgCall}
    {r : SgResult} (hb : b.Submitted b' s.sec.info c r) (hq : s'.sec.cmdQueue = s.sec.cmdQueue)
    (hsub : s'.submit.privateLength = b'.privateNodes.length) (hinfo : s'.sec.info = s.sec.info) :
    Booked s' b' := by
  have hempty : b.privateNodes = [] := List.length_eq_zero_iff.mp (h.privateNodes.trans hnil)
  obtain ⟨lost, hL, hlost⟩ := h.ledger
  obtain ⟨lost', hL', hlost'⟩ := hb.ledger
  refine ⟨by rw [hb.queueNodes, hq, h.queueNodes], hsub.symm, lost' + lost, ?_, ?_⟩
  · rw [hL', hL, hempty, hb.queueNodes, List.nil_append, List.map_append, ← Multiset.coe_add]
    exact congrArg (Ledger.mk · true) (add_add_add_comm _ _ _ _)
  · rw [hb.calls, hinfo, add_eq_zero, hlost, hlost']
    simp [or_imp, forall_and, and_comm]

theorem Booked.linkEject (h : Booked s b) : Booked s.linkEject (s.book (.eject false) b) := by
  obtain ⟨lost, hL, hlost⟩ := h.ledger
  refine ⟨by simp [Sys.book, Sys.linkEject, h.queueNodes],
    by simpa [Sys.book, Sys.linkEject] using h.privateNodes, lost, ?_, ?_⟩
  · simp only [Sys.book, Bool.false_eq_true, if_false, Ledger.apply, hL, List.map_append,
      List.map_singleton, ← Multiset.coe_add, Multiset.coe_singleton, ← Multiset.singleton_add]
    congr 1
    abel
  · simpa [Sys.book, Sys.linkEject] using hlost

/-- The handler frees the first `n` nodes of the queue. -/
theorem Booked.free (h : Booked s b) {n : Nat} (hq : s'.sec.cmdQueue = s.sec.cmdQueue.drop n)
    (hsub : s'.submit.privateLength = s.submit.privateLength) (hinfo : s'.sec.info = s.sec.info) :
    Booked s' (b.free n) := by
  obtain ⟨lost, hL, hlost⟩ := h.ledger
  refine ⟨by simp [Book.free, hq, h.queueNodes], by rw [hsub, ← h.privateNodes]; rfl, lost, ?_, ?_⟩
  · have hlive : b.ledger.live = ↑((b.queueNodes.take n).map Item.node) +
        (↑((b.privateNodes ++ b.queueNodes.drop n).map Item.node) + lost) := by
      nth_rewrite 1 [hL, ← List.take_append_drop n b.queueNodes]
      simp only [List.map_append, ← Multiset.coe_add]
      abel
    show Ledger.run _ _ = _
    rw [Ledger.run_release hlive, hL]
    rfl
  · rwa [hinfo]

theorem booked_step (h : Booked s b) (hs : s.Step l s') : Booked s' (s.book l b) := by
  cases hs with
  | submit write start env ho hi => exact h.congr rfl (by simp [Submit.privateLength, hi]) rfl
  | unsupported start env ho hi => exact h.congr rfl (by simp [Submit.privateLength, hi]) rfl
  | built r write start env st hsub hplan =>
    have hb := b.submit_spec s.sec.info write env start s.sec.cpuDmaBuf
    have hlen := hb.privateNodes
    rw [hplan, onOutcome_ok] at hlen
    simp only [Sys.book, hsub]
    exact h.submit (by rw [hsub]; rfl) hb rfl (by simp [Submit.privateLength, hlen]) rfl
  | notBuilt r write start env e hsub hplan =>
    have hb := b.submit_spec s.sec.info write env start s.sec.cpuDmaBuf
    have hlen := hb.privateNodes
    rw [hplan, onOutcome_error] at hlen
    simp only [Sys.book, hsub]
    exact h.submit (by rw [hsub]; rfl) hb rfl (by simp [Submit.privateLength, hlen]) rfl
  | splice r nodes hsub =>
    have hlen : b.privateNodes.length = nodes.length := by rw [h.privateNodes, hsub]; rfl
    obtain ⟨lost, hL, hlost⟩ := h.ledger
    refine ⟨by simp [Sys.book, h.queueNodes, hlen], rfl, lost, ?_, by simpa [Sys.book] using hlost⟩
    simp only [Sys.book, hL, List.nil_append, List.map_append, ← Multiset.coe_add]
    congr 2
    exact add_comm _ _
  | fail r status hsub => exact h.congr rfl (by simp [Submit.privateLength, hsub]) rfl
  | ejectReturn hf => exact h.linkEject.congr rfl rfl rfl
  | ejectWait hf => exact h.linkEject.congr rfl rfl rfl
  | nothing sn hirq hd he =>
    have hbook : s.book .handle b = b := by
      obtain ⟨done, error, status⟩ := sn
      obtain rfl : done = false := hd
      obtain rfl : error = false := he
      cases status <;> simp [Sys.book, hirq]
    rw [hbook]
    exact h.congr rfl rfl rfl
  | complete node rest st hirq hq hrep =>
    have hbook : s.book .handle b =
        b.free (handlerFrees (!st.isErr) st.isErr st s.sec.cmdQueue) := by
      cases herr : st.isErr <;> simp [Sys.book, hirq, herr]
    rw [hbook]
    refine h.free ?_ ?_ ?_
    · simpa [Sys.completed] using completeHead_frees hq hrep.final
    · simp [Sys.completed]
    · simpa [Sys.completed] using (completeHead_frame s.sec node rest st).1
  | _ => exact h.congr rfl rfl rfl

theorem booked_reach {p : Sys D × Book} (h : (booked D).Reach p) : Booked p.1 p.2 := by
  suffices hp : p.1.Flow ∧ Booked p.1 p.2 from hp.2
  refine Lts.invariant (M := booked D) (P := fun p => p.1.Flow ∧ Booked p.1 p.2) ?_ ?_ h
  · rintro ⟨s, b⟩ ⟨hinit : s.Initial, rfl⟩
    refine ⟨hinit.flow, by simp [Book.empty, hinit.queue],
      by rw [hinit.submit]; rfl, 0, by simp [Book.empty], by simp [Book.empty]⟩
  · rintro ⟨s, b⟩ l p' - ⟨hf, hb⟩ hs
    obtain ⟨s', hs', rfl⟩ := Option.map_eq_some_iff.mp hs
    have hstep := Sys.next_step hf hs'
    exact ⟨flow_step hf hstep, booked_step hb hstep⟩

/-- Nothing is released twice, and a section at rest has released everything if and only if every
submission so far failed in `create_start_pos_setup_cmds`. -/
theorem ledger_balanced {p : Sys D × Book} (h : (booked D).Reach p) :
    p.2.ledger.sound = true ∧
      (p.1.AtRest → (p.2.ledger.live = 0 ↔ ∀ c ∈ p.2.calls, c.FailsInSetup p.1.sec.info)) := by
  obtain ⟨hqueue, hprivate, lost, hL, hlost⟩ := booked_reach h
  refine ⟨by rw [hL], fun hrest => ?_⟩
  rw [hrest.queue] at hqueue
  rw [hrest.submit] at hprivate
  rw [hL, List.length_eq_zero_iff.mp hqueue, List.length_eq_zero_iff.mp hprivate, ← hlost]
  simp

end

theorem booked_freshSection : (booked anyDevice).Reach (freshSection, .empty) :=
  .init ⟨freshSection_initial, rfl⟩

/-- A READ behind the end of the section, a WRITE for which the third node cannot be allocated, and
an EJECT ioctl in between. -/
theorem ledger_balanced_setup_fails :
    ∃ p, (booked anyDevice).Reach p ∧ p.1.AtRest ∧ p.2.calls.length = 2 ∧ p.2.fresh = 9 ∧
      p.2.ledger.live = 0 := by
  let run : List (Label anyDevice) :=
    [.queueRq (some false) 1024 ⟨fun _ => false, true, [⟨4096, 512⟩]⟩, .build, .eject false, .fail,
      .queueRq (some true) 0 ⟨fun k => k == 2, true, [⟨4096, 512⟩]⟩, .tick .errNoTape, .build,
      .snapshot, .readStatus, .handle, .fail, .wake 0]
  let p := ((booked anyDevice).exec (freshSection, .empty) run).get (by decide +kernel)
  have hp : (booked anyDevice).exec (freshSection, .empty) run = some p := (Option.some_get _).symm
  have hr : (booked anyDevice).Reach p := Lts.reach_exec booked_freshSection hp
  have hrest : p.1.AtRest := by decide +kernel
  exact ⟨p, hr, hrest, by decide +kernel, by decide +kernel,
    ((ledger_balanced hr).2 hrest).mpr (by decide +kernel)⟩

/-- A READ of one block, from its submission to its end: the scatter table and the mapping are still
there. -/
theorem read_leaves_mapping :
    ∃ p, (booked anyDevice).Reach p ∧ p.1.AtRest ∧ .ended 0 .ok (some 0) ∈ p.1.log ∧
      p.2.ledger.live = {.scatterTable 4, .mapping 5} := by
  let command : List (Label anyDevice) := [.tick .done, .snapshot, .readStatus, .handle]
  let run : List (Label anyDevice) :=
    [.queueRq (some false) 3 ⟨fun _ => false, true, [⟨4096, 512⟩]⟩, .build, .splice] ++
      command ++ command ++ command ++ command ++ command
  let p := ((booked anyDevice).exec (freshSection, .empty) run).get (by decide +kernel)
  have hp : (booked anyDevice).exec (freshSection, .empty) run = some p := (Option.some_get _).symm
  have hr : (booked anyDevice).Reach p := Lts.reach_exec booked_freshSection hp
  exact ⟨p, hr, by decide +kernel, by decide +kernel, by decide +kernel⟩

end Zso.Tape
