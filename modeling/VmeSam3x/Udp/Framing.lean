import VmeSam3x.Udp.Locals

/-! # What a request leaves alone

Two frame properties of the callback. The reply is the request but for the status byte
and the data field of its version, and packets of another shape are dropped. And a
register write that fails is meant to be the last thing a request puts on the bus.
-/

namespace Udp

open Interact Bytes Fpga

/-! ## The bytes of the reply -/

/-- The positions of the data field. -/
def Version.dataField : Version → Nat → Prop
  | .v1, i => 2 ≤ i ∧ i < 4
  | .v2, i => 12 ≤ i ∧ i < 16

/-- The packets agree but for the status and the data field of the version. -/
structure SameFrame (v : Version) (h h' : Packet) : Prop where
  accessType : h'.accessType = h.accessType
  addr : h'.addr = h.addr
  ref : h'.ref = h.ref
  reserved : v = .v2 → h'.data1 = h.data1

variable {loc : Locals} {v : Version} {h h' : Packet} {tw : List (Event Twi)}

theorem SameFrame.refl : SameFrame v h h := ⟨rfl, rfl, rfl, fun _ => rfl⟩

theorem SameFrame.withStatus (hs : SameFrame v h h') (s : U8) :
    SameFrame v h { h' with status := s } :=
  ⟨hs.accessType, hs.addr, hs.ref, hs.reserved⟩

theorem SameFrame.withData2 (hs : SameFrame .v2 h h') (x : U32) :
    SameFrame .v2 h { h' with data2 := x } :=
  ⟨hs.accessType, hs.addr, hs.ref, hs.reserved⟩

theorem SameFrame.withData16 (hs : SameFrame v h h') (x : U16) : SameFrame v h (h'.withData16 x v) := by
  cases v with
  | v1 => exact ⟨hs.accessType, hs.addr, hs.ref, nofun⟩
  | v2 => exact hs.withData2 _

theorem SameFrame.afterRead16 (hs : SameFrame v h h') (st : TwiStatus) (x : U32) :
    SameFrame v h (h'.afterRead16 v st x) := by
  unfold Packet.afterRead16
  split
  · exact hs.withData16 _
  · exact hs.withStatus _

theorem SameFrame.afterWrite (hs : SameFrame v h h') (st : TwiStatus) :
    SameFrame v h (h'.afterWrite st) := by
  unfold Packet.afterWrite
  split
  · exact hs
  · exact hs.withStatus _

theorem SameFrame.afterRead32 (hs : SameFrame .v2 h h') (st : TwiStatus) (x : U32) :
    SameFrame .v2 h (h'.afterRead32 st x) := by
  unfold Packet.afterRead32
  split
  · exact hs.withData2 x
  · exact ⟨hs.accessType, hs.addr, hs.ref, hs.reserved⟩

/-- Every run of a request keeps the frame. -/
theorem Served.sameFrame (hs : Served loc v h tw h') : SameFrame v h h' := by
  have hcleared : SameFrame v h h.cleared := SameFrame.refl.withStatus _
  cases hs with
  | read16 _ _ => exact hcleared.afterRead16 _ _
  | write16Failed _ _ _ => exact hcleared.afterWrite _
  | write16 _ _ _ => exact hcleared.afterRead16 _ _
  | write16NoReadback _ _ => exact hcleared
  | read32 hv _ _ =>
    subst hv
    exact hcleared.afterRead32 _ _
  | write32 hv _ _ _ =>
    subst hv
    exact (hcleared.afterWrite _).afterRead32 _ _
  | write32NoReadback _ _ _ => exact hcleared.afterWrite _
  | invalid32 _ _ => exact SameFrame.refl.withStatus _
  | invalid _ _ _ _ _ _ => exact SameFrame.refl.withStatus _

/-- The bytes of packets that agree. -/
theorem SameFrame.bytes (hs : SameFrame v h h') {i : Nat} (hstatus : i ≠ 1)
    (hdata : ¬ v.dataField i) : (h'.bytes v)[i]? = (h.bytes v)[i]? := by
  rcases hs with ⟨htype, haddr, href, hreserved⟩
  cases v with
  | v1 =>
    simp only [Version.dataField] at hdata
    rw [Packet.bytes, Packet.bytes, htype, haddr, href]
    rcases i with - | - | - | - | i
    · rfl
    · exact absurd rfl hstatus
    · omega
    · omega
    · rfl
  | v2 =>
    simp only [Version.dataField] at hdata
    rw [Packet.bytes, Packet.bytes, htype, haddr, href, hreserved rfl]
    rcases i with - | - | i
    · rfl
    · exact absurd rfl hstatus
    · have hl : (be16 h.data1 ++ be32 h.addr ++ be32 h.ref).length = 10 := rfl
      simp only [List.getElem?_cons_succ]
      generalize be16 h.data1 ++ be32 h.addr ++ be32 h.ref = l at hl ⊢
      have hlen : ∀ x, (l ++ be32 x).length = 14 := by
        intro x
        rw [List.length_append, hl]
        rfl
      -- before the data field, or beyond the end
      rcases Nat.lt_or_ge i 10 with hi | hi
      · rw [List.getElem?_append_left (hl ▸ hi), List.getElem?_append_left (hl ▸ hi)]
      · have hend : 14 ≤ i := by omega
        rw [List.getElem?_eq_none (hlen _ ▸ hend), List.getElem?_eq_none (hlen _ ▸ hend)]

/-- **Framing.** A chain of one pbuf with 12 or 16 bytes gets one reply, to its sender and of
its own length, that differs from it in the status byte and the data field only; then the
pbuf is freed. For every other chain the callback does nothing but free it. No access is
ever outside the payload. -/
theorem callback_framed (loc : Locals) (p : List (List U8)) (addr : U32) (port : U16)
    (env : Env Net) :
    (∃ (v : Version) (payload : List U8) (tw : List (Event Twi)) (reply : List U8),
      p = [payload] ∧ payload.length = v.length ∧
      Prog.exec env (udpServerCallback loc p addr port) [] =
        (.ok (), tw.map twiHom.event ++ answered reply addr port) ∧
      reply.length = payload.length ∧
      ∀ i, i ≠ 1 → ¬ v.dataField i → reply[i]? = payload[i]?) ∨
    (∀ payload, p = [payload] → payload.length ≠ 12 ∧ payload.length ≠ 16) ∧
      udpServerCallback loc p addr port = pbufFree ∧
      Prog.exec env (udpServerCallback loc p addr port) [] = (.ok (), [⟨UdpOp.free, ()⟩]) := by
  by_cases hframe : ∃ v payload, p = [payload] ∧ payload.length = Version.length v
  · left
    rcases hframe with ⟨v, payload, rfl, hlen⟩
    rcases exists_packet v payload hlen with ⟨h, rfl⟩
    have hpath := (Prog.path_exec env (udpServerCallback loc [h.bytes v] addr port)).1
    rcases path_udpServerCallback hpath with ⟨tw, h', htr, hout, hs⟩
    refine ⟨v, h.bytes v, tw, h'.bytes v, rfl, hlen, Prod.ext hout htr, by simp, ?_⟩
    intro i hstatus hdata
    exact hs.sameFrame.bytes hstatus hdata
  · right
    have hother : ∀ payload, p = [payload] → payload.length ≠ 12 ∧ payload.length ≠ 16 := by
      intro payload hp
      constructor
      · intro hlen
        exact hframe ⟨.v1, payload, hp, hlen⟩
      · intro hlen
        exact hframe ⟨.v2, payload, hp, hlen⟩
    have hfree : udpServerCallback loc p addr port = pbufFree := by
      match p with
      | [] => rfl
      | [payload] =>
        rcases hother payload rfl with ⟨h₁, h₂⟩
        rw [udpServerCallback]
        simp only [if_neg h₁, if_neg h₂]
      | _ :: _ :: _ => rfl
    refine ⟨hother, hfree, ?_⟩
    rw [hfree]
    rfl

/-! ## A failed write -/

/-- The access types whose service has a write part. -/
def Version.Writes : Version → U8 → Prop
  | .v1, t => t = writeAccess16 ∨ t = writeAccess16NoReadback
  | .v2, t => t = writeAccess16 ∨ t = writeAccess16NoReadback ∨ t = writeAccess32 ∨
      t = writeAccess32NoReadback

instance : ∀ (v : Version) (t : U8), Decidable (v.Writes t)
  | .v1, _ => inferInstanceAs (Decidable (_ ∨ _))
  | .v2, _ => inferInstanceAs (Decidable (_ ∨ _))

/-- The driver does not carry out both transactions of a write that starts a request. -/
def WriteFails (answers : Nat → TwiAnswer) : Prop :=
  (answers 0).status ≠ .success ∨ (answers 1).status ≠ .success

/-- The bus calls of a request that stops at a failed transaction of its write part: after
that transaction there is nothing but the reset of the controller. -/
def StopsAtWrite (tw : List (Event Twi)) : Prop :=
  ∃ before failed, tw = before ++ [failed, reset] ∧ before.length < 2 ∧
    (∀ e ∈ before, Succeeded e) ∧ ¬ Succeeded failed

/-- A failed write stops the request: the write part is the last on the bus, and the reply
is the request with the status of a timeout. -/
def StopsOnFailedWrite (loc : Locals) (v : Version) (h : Packet) (addr : U32) (port : U16)
    (answers : Nat → TwiAnswer) : Prop :=
  v.Writes h.accessType → WriteFails answers →
    let run := Prog.exec (answering answers) (udpServerCallback loc [h.bytes v] addr port) []
    StopsAtWrite (twiEvents run.2) ∧
      ∃ h' : Packet, sent run.2 = [(h'.bytes v, addr, port)] ∧ h'.status = statusTimeout ∧
        h'.data v = h.data v

variable {answers : Nat → TwiAnswer} {address : U32} {buffer : List U8} {st : TwiStatus}

theorem not_writes_read (v : Version) : ¬ v.Writes readAccess16 ∧ ¬ v.Writes readAccess32 := by
  cases v <;> decide

theorem writeOutcome_ne_success : writeOutcome answers 0 ≠ .success ↔ WriteFails answers := by
  unfold writeOutcome WriteFails
  split
  · rename_i h₀
    exact ⟨fun _ => .inl h₀, fun _ => h₀⟩
  · rename_i h₀
    exact ⟨.inr, fun hf => hf.resolve_left h₀⟩

theorem stops_of_writeRun (hw : WriteRun address buffer st tw) (hst : st ≠ .success) :
    StopsAtWrite tw := by
  cases hw with
  | done => exact absurd rfl hst
  | addressFailed => exact ⟨[], _, rfl, Nat.two_pos, by simp, by simpa using hst⟩
  | dataFailed => exact ⟨[_], _, rfl, Nat.one_lt_two, by simp, by simpa using hst⟩

theorem StopsAtWrite.length (hs : StopsAtWrite tw) : tw.length < 4 := by
  rcases hs with ⟨before, failed, rfl, hlen, -⟩
  rw [List.length_append]
  exact Nat.add_lt_add_right hlen 2

theorem length_of_writeRun (hw : WriteRun address buffer st tw) : 2 ≤ tw.length := by
  cases hw <;> simp

theorem length_of_readRun {command : U8} {dataFull x : U32}
    (hr : ReadRun command address dataFull st x tw) : 2 ≤ tw.length := by
  cases hr <;> simp

/-- The packet left by a write that failed. -/
theorem afterWrite_of_failed (h : Packet) (v : Version) (hst : st ≠ .success) :
    (h.cleared.afterWrite st).status = statusTimeout ∧
      (h.cleared.afterWrite st).data v = h.data v := by
  rw [Packet.afterWrite, if_neg hst]
  constructor
  · rfl
  · cases v <;> rfl

/-- A run that begins with a failing write stops there, unless it is a 32-bit write with
read-back. -/
theorem Served.stops (hs : Served loc v h tw h')
    (ha : Prog.Answered (answering answers) [] (tw.map twiHom.event))
    (hwrites : v.Writes h.accessType) (hfails : WriteFails answers)
    (hne : ¬ (v = .v2 ∧ h.accessType = writeAccess32)) :
    StopsAtWrite tw ∧ h'.status = statusTimeout ∧ h'.data v = h.data v := by
  have hout : writeOutcome answers 0 ≠ .success := writeOutcome_ne_success.mpr hfails
  have hstops : ∀ {buffer st}, WriteRun h.addr buffer st tw →
      StopsAtWrite tw ∧ (h.cleared.afterWrite st).status = statusTimeout ∧
        (h.cleared.afterWrite st).data v = h.data v := by
    intro buffer st hw
    have hst : st ≠ .success := (outcome_of_write hw ha).1 ▸ hout
    exact ⟨stops_of_writeRun hw hst, afterWrite_of_failed h v hst⟩
  cases hs with
  | read16 ht _ => exact absurd (ht ▸ hwrites) (not_writes_read v).1
  | write16Failed _ _ hw => exact hstops hw
  | write16 _ hw _ =>
    rw [List.map_append, Prog.answered_append] at ha
    exact absurd (outcome_of_write hw ha.1).1.symm hout
  | write16NoReadback _ hw => exact absurd (outcome_of_write hw ha).1.symm hout
  | read32 _ ht _ => exact absurd (ht ▸ hwrites) (not_writes_read v).2
  | write32 hv ht _ _ => exact absurd ⟨hv, ht⟩ hne
  | write32NoReadback _ _ hw => exact hstops hw
  | invalid32 hv ht =>
    subst hv
    rcases ht with ht | ht | ht
    · exact absurd (ht ▸ hwrites) (by decide)
    · exact absurd (ht ▸ hwrites) (by decide)
    · exact absurd (ht ▸ hwrites) (by decide)
  | invalid _ h2 h3 _ h5 h6 =>
    cases v <;> simp [Version.Writes, h2, h3, h5, h6] at hwrites

/-- The 32-bit write with read-back goes on: its arm lacks the jump to the reply that the
16-bit arm has. -/
theorem not_stops_write32 (loc : Locals) (ht : h.accessType = writeAccess32) (addr : U32)
    (port : U16) (hfails : WriteFails answers) :
    ¬ StopsOnFailedWrite loc .v2 h addr port answers := by
  intro hstops
  rcases exec_udpServerCallback loc .v2 h addr port (answering answers) with ⟨tw, h', htr, hs, -⟩
  have hwrites : Version.v2.Writes h.accessType := by
    rw [ht]
    decide
  have hlen := (hstops hwrites hfails).1.length
  rw [htr, twiEvents_answered] at hlen
  cases hs with
  | write32 _ _ hw hr =>
    have h₁ := length_of_writeRun hw
    have h₂ := length_of_readRun hr
    rw [List.length_append] at hlen
    omega
  | read16 ht' _ => exact absurd (ht'.symm.trans ht) (by decide)
  | write16Failed ht' _ _ =>
    rcases ht' with ht' | ht'
    · exact absurd (ht'.symm.trans ht) (by decide)
    · exact absurd (ht'.symm.trans ht) (by decide)
  | write16 ht' _ _ => exact absurd (ht'.symm.trans ht) (by decide)
  | write16NoReadback ht' _ => exact absurd (ht'.symm.trans ht) (by decide)
  | read32 _ ht' _ => exact absurd (ht'.symm.trans ht) (by decide)
  | write32NoReadback _ ht' _ => exact absurd (ht'.symm.trans ht) (by decide)
  | invalid32 hv _ => exact absurd hv (by decide)
  | invalid _ _ _ _ h5 _ => exact absurd ht h5

/-- **A failed register write stops the request**, except in the 32-bit write with
read-back, which reads the register back all the same. -/
theorem stopsOnFailedWrite_iff (loc : Locals) (v : Version) (h : Packet) (addr : U32)
    (port : U16) (answers : Nat → TwiAnswer) :
    StopsOnFailedWrite loc v h addr port answers ↔
      ¬ (v = .v2 ∧ h.accessType = writeAccess32 ∧ WriteFails answers) := by
  constructor
  · intro hstops ⟨hv, ht, hfails⟩
    subst hv
    exact not_stops_write32 loc ht addr port hfails hstops
  · intro hne hwrites hfails
    rcases exec_udpServerCallback loc v h addr port (answering answers) with ⟨tw, h', htr, hs, ha⟩
    have hne' : ¬ (v = .v2 ∧ h.accessType = writeAccess32) := by
      intro ⟨hv, ht⟩
      exact hne ⟨hv, ht, hfails⟩
    simp only [htr, twiEvents_answered, sent_answered]
    rcases hs.stops ha hwrites hfails hne' with ⟨hstops, hstatus, hdata⟩
    exact ⟨hstops, h', rfl, hstatus, hdata⟩

/-- A 32-bit write whose address message the FPGA does not acknowledge. -/
theorem not_stopsOnFailedWrite_write32 :
    ¬ StopsOnFailedWrite ⟨0, 0, 0⟩ .v2 ⟨writeAccess32, 0, 0, 0x80000010, 7, 0x12345678⟩ 1 2000
      fun n => if n = 0 then ⟨.receiveNack, fun _ => 0⟩ else ⟨.success, fun _ => 0⟩ :=
  not_stops_write32 _ rfl _ _ (.inl (by simp))

end Udp
