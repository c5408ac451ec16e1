import Zso.Oomk.Descriptors

/-!
# Packets

The entry of `ip_finish_output2` notes in the record whether the packet is TCP, and its
return looks at that note. The calls may be nested, and there is one note for all of them.

* `tcp_count_exact`: the count of a thread grows by one for each TCP packet sent if and
  only if at every return the note is about the packet of the call that returns, and the
  counter does not wrap.
* `tcp_count_nested`: a UDP packet sent while a TCP packet is being sent hides the latter.
-/

namespace Zso.Oomk
open Histories

/-- The probes of `ip_finish_output2`. The header of the packet may be unreadable. -/
inductive PacketEvent
  | entry (protocol : Option UInt8)
  | exit (ret : Int)

def PacketEvent.probe : PacketEvent → Probe
  | .entry protocol => .ipFinishOutput2Entry protocol
  | .exit ret => .ipFinishOutput2Exit ret

/-- The calls of a thread: the protocols of the calls under way, innermost first, and the
number of calls completed whose packet is TCP. -/
structure Traffic where
  underWay : List (Option UInt8)
  sent : Nat

/-- The innermost call sends a packet whose header was read and is that of TCP. -/
def Traffic.tcp (tr : Traffic) : Prop := tr.underWay.head? = some (some IPPROTO_TCP)

instance (tr : Traffic) : Decidable tr.tcp := inferInstanceAs (Decidable (_ = _))

def Traffic.note (tr : Traffic) : PacketEvent → Traffic
  | .entry protocol => { tr with underWay := protocol :: tr.underWay }
  | .exit ret => ⟨tr.underWay.tail, if 0 ≤ ret ∧ tr.tcp then tr.sent + 1 else tr.sent⟩

def traffic (events : List PacketEvent) : Traffic := events.foldl Traffic.note ⟨[], 0⟩

/-- Every return is that of a call under way. -/
def WellNested (events : List PacketEvent) : Prop :=
  AtEach (fun pre e => ∀ ret, e = .exit ret → (traffic pre).underWay ≠ []) events

/-- Whether the last packet whose header was read is TCP, `tcp` before the first one. -/
def lastReadTcp (tcp : Bool) (events : List PacketEvent) : Bool :=
  events.foldl (fun tcp e => match e with
    | .entry (some protocol) => protocol = IPPROTO_TCP
    | _ => tcp) tcp

/-- Whenever a call returns a non-negative value, the last packet whose header was read
is TCP exactly if the packet of that call is. -/
def NotesMatch (tcp : Bool) (events : List PacketEvent) : Prop :=
  AtEach (fun pre e => ∀ ret, e = .exit ret → 0 ≤ ret →
    (lastReadTcp tcp pre = true ↔ (traffic pre).tcp)) events

def Killer.afterPackets (s : Killer) (t : Task) (events : List PacketEvent) : Killer :=
  s.afterProbes t (events.map PacketEvent.probe)

/-- `tcp_packet_sent_count` of the thread. -/
def Killer.tcpSent (s : Killer) (t : Task) : UInt32 := (s.found t.pidTgid).tcpPacketSentCount

section
variable {s : Killer} {t : Task}

theorem traffic_concat (pre : List PacketEvent) (e : PacketEvent) :
    traffic (pre ++ [e]) = (traffic pre).note e := by
  simp [traffic]

theorem sent_mono {pre events : List PacketEvent} (h : pre <+: events) :
    (traffic pre).sent ≤ (traffic events).sent := by
  obtain ⟨rest, rfl⟩ := h
  induction rest using List.reverseRecOn with
  | nil => simp
  | append_singleton rest e ih =>
    rw [← List.append_assoc, traffic_concat]
    cases e with
    | entry protocol => exact ih
    | exit ret =>
      simp only [Traffic.note]
      split
      · exact Nat.le_succ_of_le ih
      · exact ih

/-- The record after one more probe. -/
theorem afterPackets_concat (hname : isOompPresent t.comm = true)
    (hoff : s.isKillingAllowed = false) (pre : List PacketEvent) (e : PacketEvent) :
    (s.afterPackets t (pre ++ [e])).found t.pidTgid =
      (e.probe.handler ((s.afterPackets t pre).found t.pidTgid)).record
        ((s.afterPackets t pre).found t.pidTgid) := by
  rw [Killer.afterPackets, List.map_append, List.map_singleton,
    Killer.afterProbes_concat hname hoff]
  rfl

/-- The note in the record is about the last header that was read. -/
theorem afterPackets_note (hname : isOompPresent t.comm = true)
    (hoff : s.isKillingAllowed = false) (events : List PacketEvent) :
    ((s.afterPackets t events).found t.pidTgid).isTcpPacket =
      lastReadTcp (s.found t.pidTgid).isTcpPacket events := by
  induction events using List.reverseRecOn with
  | nil => rfl
  | append_singleton pre e ih =>
    have hlast : lastReadTcp (s.found t.pidTgid).isTcpPacket (pre ++ [e]) = match e with
        | .entry (some protocol) => decide (protocol = IPPROTO_TCP)
        | _ => lastReadTcp (s.found t.pidTgid).isTcpPacket pre := by
      simp [lastReadTcp]
    rw [afterPackets_concat hname hoff, (handler_calls _ _).2, hlast, ih]
    cases e with
    | entry protocol => cases protocol <;> rfl
    | exit ret => rfl

theorem entry_tcpSent (hname : isOompPresent t.comm = true)
    (hoff : s.isKillingAllowed = false) (pre : List PacketEvent) (protocol : Option UInt8) :
    (s.afterPackets t (pre ++ [.entry protocol])).tcpSent t = (s.afterPackets t pre).tcpSent t := by
  rw [Killer.tcpSent, afterPackets_concat hname hoff]
  cases protocol <;> rfl

theorem exit_tcpSent (hname : isOompPresent t.comm = true)
    (hoff : s.isKillingAllowed = false) (pre : List PacketEvent) (ret : Int) :
    (s.afterPackets t (pre ++ [.exit ret])).tcpSent t =
      if 0 ≤ ret ∧ lastReadTcp (s.found t.pidTgid).isTcpPacket pre = true then
        (s.afterPackets t pre).tcpSent t + 1
      else (s.afterPackets t pre).tcpSent t := by
  rw [Killer.tcpSent, afterPackets_concat hname hoff, ← afterPackets_note hname hoff pre]
  simp only [PacketEvent.probe, Probe.handler, ipFinishOutput2Exit]
  split
  · next htcp =>
    simp only [htcp, and_true]
    split <;> rfl
  · next htcp => simp [htcp, Effect.record, Killer.tcpSent]

/-- One more event keeps the count exact if the notes match. -/
theorem tcpSent_concat (hname : isOompPresent t.comm = true) (hoff : s.isKillingAllowed = false)
    {pre : List PacketEvent} {e : PacketEvent}
    (hmatch : ∀ ret, e = .exit ret → 0 ≤ ret →
      (lastReadTcp (s.found t.pidTgid).isTcpPacket pre = true ↔ (traffic pre).tcp))
    (hlt : (s.tcpSent t).toNat + (traffic (pre ++ [e])).sent < 2 ^ 32)
    (hpre : ((s.afterPackets t pre).tcpSent t).toNat = (s.tcpSent t).toNat + (traffic pre).sent) :
    ((s.afterPackets t (pre ++ [e])).tcpSent t).toNat =
      (s.tcpSent t).toNat + (traffic (pre ++ [e])).sent := by
  cases e with
  | entry protocol =>
    rw [entry_tcpSent hname hoff, hpre, traffic_concat]
    rfl
  | exit ret =>
    rw [traffic_concat] at hlt ⊢
    rw [exit_tcpSent hname hoff]
    by_cases hret : 0 ≤ ret
    · simp only [Traffic.note, hret, true_and, ← hmatch ret rfl hret] at hlt ⊢
      split at hlt
      · next htcp =>
        rw [if_pos htcp, if_pos htcp, UInt32.toNat_add, hpre]
        exact Nat.mod_eq_of_lt hlt
      · next htcp => rw [if_neg htcp, if_neg htcp, hpre]
    · simp [Traffic.note, hret, hpre]

/-- A note that is about another packet makes the count wrong. -/
theorem notes_match_of_exact (hname : isOompPresent t.comm = true)
    (hoff : s.isKillingAllowed = false) {pre : List PacketEvent} {ret : Int} (hret : 0 ≤ ret)
    (hpre : ((s.afterPackets t pre).tcpSent t).toNat = (s.tcpSent t).toNat + (traffic pre).sent)
    (hpost : ((s.afterPackets t (pre ++ [.exit ret])).tcpSent t).toNat =
      (s.tcpSent t).toNat + (traffic (pre ++ [.exit ret])).sent) :
    lastReadTcp (s.found t.pidTgid).isTcpPacket pre = true ↔ (traffic pre).tcp := by
  rw [exit_tcpSent hname hoff, traffic_concat] at hpost
  simp only [Traffic.note, hret, true_and] at hpost
  have hlt := ((s.afterPackets t pre).tcpSent t).toNat_lt
  by_cases hnote : lastReadTcp (s.found t.pidTgid).isTcpPacket pre = true <;>
    by_cases htcp : (traffic pre).tcp
  · exact iff_of_true hnote htcp
  · rw [if_pos hnote, if_neg htcp, UInt32.toNat_add, hpre] at hpost
    simp at hpost
    omega
  · rw [if_neg hnote, if_pos htcp, hpre] at hpost
    omega
  · exact iff_of_false hnote htcp

end

/-- Along a history of a thread, well nested or not, `tcp_packet_sent_count` grows by the
number of TCP packets sent if and only if at every return the last header that was read tells
whether the packet of the returning call is TCP, and the counter does not wrap. -/
theorem tcp_count_exact {s : Killer} {t : Task} (hname : isOompPresent t.comm = true)
    (hoff : s.isKillingAllowed = false) (events : List PacketEvent) :
    (∀ pre, pre <+: events →
      ((s.afterPackets t pre).tcpSent t).toNat = (s.tcpSent t).toNat + (traffic pre).sent) ↔
    NotesMatch (s.found t.pidTgid).isTcpPacket events ∧
      (s.tcpSent t).toNat + (traffic events).sent < 2 ^ 32 := by
  constructor
  · intro hexact
    constructor
    · rintro pre _ hpre ret rfl hret
      exact notes_match_of_exact hname hoff hret
        (hexact pre ((List.prefix_append _ _).trans hpre)) (hexact _ hpre)
    · rw [← hexact events List.prefix_rfl]
      exact UInt32.toNat_lt _
  · rintro ⟨hmatch, hlt⟩ pre
    refine AtEach.prefixes (Q := fun pre => ((s.afterPackets t pre).tcpSent t).toNat =
      (s.tcpSent t).toNat + (traffic pre).sent) hmatch rfl fun pre e hpre he ih => ?_
    exact tcpSent_concat hname hoff he ((Nat.add_le_add_left (sent_mono hpre) _).trans_lt hlt) ih

/-- One TCP packet is sent while another one is being sent. -/
theorem tcp_count_exact_tcp :
    let events := [.entry (some IPPROTO_TCP), .entry (some IPPROTO_TCP), .exit 0, .exit 0]
    ∀ pre, pre <+: events →
      (((emptyKiller false).1.afterPackets (oompTask 7) pre).tcpSent (oompTask 7)).toNat =
        ((emptyKiller false).1.tcpSent (oompTask 7)).toNat + (traffic pre).sent := by
  intro events
  refine (tcp_count_exact rfl rfl events).mpr ⟨?_, by decide⟩
  simp [events, NotesMatch, lastReadTcp, traffic, Traffic.note, Traffic.tcp]

/-- A UDP packet is sent while a TCP packet is being sent. -/
theorem tcp_count_nested :
    let events := [.entry (some IPPROTO_TCP), .entry (some 17), .exit 0, .exit 0]
    WellNested events ∧ (traffic events).sent = 1 ∧
      ((emptyKiller false).1.afterPackets (oompTask 7) events).tcpSent (oompTask 7) =
        (emptyKiller false).1.tcpSent (oompTask 7) := by
  refine ⟨?_, by decide, by decide +kernel⟩
  simp [WellNested, traffic, Traffic.note]

end Zso.Oomk
