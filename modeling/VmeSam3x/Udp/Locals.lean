import VmeSam3x.Udp.Reply

/-! # Which reply bytes come from uninitialised locals

The callback and `fpga_read_short` declare locals that a failing read leaves
unassigned. Here the driver's answers are a fixed sequence, so that two runs can
be compared that differ in nothing but the initial contents of those locals.
-/

namespace Udp

open Interact Bytes Fpga

/-- What the driver answers to one bus transaction: the status and, for a read, the
bytes it leaves in the buffer. -/
structure TwiAnswer where
  status : TwiStatus
  bytes : Nat → U8

/-- How many bus transactions a run of the callback has issued. -/
def issued (tr : List (Event Net)) : Nat := (transactions (twiEvents tr)).length

/-- The driver answers the `n`-th bus transaction with `answers n`, whatever it is. -/
def answering (answers : Nat → TwiAnswer) : Env Net
  | tr, .twi (.masterWrite _ _) => (answers (issued tr)).status
  | tr, .twi (.masterRead _ _) =>
    ((answers (issued tr)).status, fun i => (answers (issued tr)).bytes i)
  | _, .twi .masterInit => ()
  | _, .sendto _ _ _ => ()
  | _, .free => ()

/-- Status and value of a read whose first transaction is the `n`-th. -/
def readOutcome (answers : Nat → TwiAnswer) (n : Nat) (dataFull : U32) : TwiStatus × U32 :=
  if (answers n).status ≠ .success then ((answers n).status, dataFull)
  else if (answers (n + 1)).status ≠ .success then ((answers (n + 1)).status, dataFull)
  else if (answers (n + 2)).status = .success ∨ (answers (n + 2)).status = .errorTimeoutComp then
    (.success, dataOf fun i => (answers (n + 2)).bytes i)
  else ((answers (n + 2)).status, dataFull)

/-- Status of a write whose first transaction is the `n`-th. -/
def writeOutcome (answers : Nat → TwiAnswer) (n : Nat) : TwiStatus :=
  if (answers n).status ≠ .success then (answers n).status else (answers (n + 1)).status

/-- The number of transactions of a write that starts with the `n`-th. -/
def writeLength (answers : Nat → TwiAnswer) (n : Nat) : Nat :=
  if (answers n).status ≠ .success then 1 else 2

/-- The read that starts with the `n`-th transaction fails. -/
def ReadFails (answers : Nat → TwiAnswer) (n : Nat) : Prop :=
  ¬ ((answers n).status = .success ∧ (answers (n + 1)).status = .success ∧
    ((answers (n + 2)).status = .success ∨ (answers (n + 2)).status = .errorTimeoutComp))

/-! ## Answered runs -/

variable {answers : Nat → TwiAnswer} {tr : List (Event Net)} {tw : List (Event Twi)}

theorem twiEvents_map (tw : List (Event Twi)) : twiEvents (tw.map twiHom.event) = tw := by
  induction tw with
  | nil => rfl
  | cons e tw ih => exact congrArg (e :: ·) ih

theorem issued_append (tr : List (Event Net)) (tw : List (Event Twi)) :
    issued (tr ++ tw.map twiHom.event) = issued tr + (transactions tw).length := by
  rw [issued, issued, twiEvents, List.filterMap_append, transactions_append, List.length_append]
  congr 2
  exact congrArg transactions (twiEvents_map tw)

/-- A message was answered with the next status of the sequence. -/
theorem answered_wrote {buffer : List U8} {st : TwiStatus} :
    Prog.Answered (answering answers) tr ((wrote buffer st :: tw).map twiHom.event) ↔
      st = (answers (issued tr)).status ∧
        Prog.Answered (answering answers) (tr ++ [wrote buffer st].map twiHom.event)
          (tw.map twiHom.event) :=
  Prog.answered_cons

/-- A read was answered with the next status and bytes of the sequence. -/
theorem answered_got {st : TwiStatus} {bytes : Fin 5 → U8} :
    Prog.Answered (answering answers) tr ((got st bytes :: tw).map twiHom.event) ↔
      (st = (answers (issued tr)).status ∧ bytes = fun i : Fin 5 => (answers (issued tr)).bytes i) ∧
        Prog.Answered (answering answers) (tr ++ [got st bytes].map twiHom.event)
          (tw.map twiHom.event) := by
  rw [← Prod.mk.injEq]
  exact Prog.answered_cons

@[simp] theorem issued_wrote (buffer : List U8) (st : TwiStatus) :
    issued (tr ++ [wrote buffer st].map twiHom.event) = issued tr + 1 :=
  issued_append tr [wrote buffer st]

/-- The answers decide how a read ends. -/
theorem outcome_of_read {command : U8} {address dataFull x : U32} {st : TwiStatus}
    (hr : ReadRun command address dataFull st x tw)
    (ha : Prog.Answered (answering answers) tr (tw.map twiHom.event)) :
    (st, x) = readOutcome answers (issued tr) dataFull := by
  cases hr with
  | done bytes =>
    obtain ⟨h₁, ha⟩ := answered_wrote.mp ha
    obtain ⟨h₂, ha⟩ := answered_wrote.mp ha
    obtain ⟨h₃, -⟩ := answered_got.mp ha
    simp only [issued_wrote] at h₂ h₃
    simp [readOutcome, ← h₁, ← h₂, ← h₃.1, h₃.2]
  | doneLate bytes =>
    obtain ⟨h₁, ha⟩ := answered_wrote.mp ha
    obtain ⟨h₂, ha⟩ := answered_wrote.mp ha
    obtain ⟨h₃, -⟩ := answered_got.mp ha
    simp only [issued_wrote] at h₂ h₃
    simp [readOutcome, ← h₁, ← h₂, ← h₃.1, h₃.2]
  | addressFailed st hst =>
    obtain ⟨h₁, -⟩ := answered_wrote.mp ha
    simp [readOutcome, ← h₁, hst]
  | commandFailed st hst =>
    obtain ⟨h₁, ha⟩ := answered_wrote.mp ha
    obtain ⟨h₂, -⟩ := answered_wrote.mp ha
    simp only [issued_wrote] at h₂
    simp [readOutcome, ← h₁, ← h₂, hst]
  | dataFailed st bytes hst hc =>
    obtain ⟨h₁, ha⟩ := answered_wrote.mp ha
    obtain ⟨h₂, ha⟩ := answered_wrote.mp ha
    obtain ⟨h₃, -⟩ := answered_got.mp ha
    simp only [issued_wrote] at h₂ h₃
    simp [readOutcome, ← h₁, ← h₂, ← h₃.1, hst, hc]

/-- The answers decide how a write ends and how many transactions it takes. -/
theorem outcome_of_write {address : U32} {buffer : List U8} {st : TwiStatus}
    (hw : WriteRun address buffer st tw)
    (ha : Prog.Answered (answering answers) tr (tw.map twiHom.event)) :
    st = writeOutcome answers (issued tr) ∧
      (transactions tw).length = writeLength answers (issued tr) := by
  cases hw with
  | done =>
    obtain ⟨h₁, ha⟩ := answered_wrote.mp ha
    obtain ⟨h₂, -⟩ := answered_wrote.mp ha
    simp only [issued_wrote] at h₂
    simp [writeOutcome, writeLength, ← h₁, ← h₂, transactions, wrote]
  | addressFailed st hst =>
    obtain ⟨h₁, -⟩ := answered_wrote.mp ha
    simp [writeOutcome, writeLength, ← h₁, hst, transactions, wrote, reset]
  | dataFailed st hst =>
    obtain ⟨h₁, ha⟩ := answered_wrote.mp ha
    obtain ⟨h₂, -⟩ := answered_wrote.mp ha
    simp only [issued_wrote] at h₂
    simp [writeOutcome, writeLength, ← h₁, ← h₂, transactions, wrote, reset]

/-- The request is a 32-bit read, or a 32-bit write with read-back, and its read
fails. -/
def LeaksLocal (chain : List (List U8)) (answers : Nat → TwiAnswer) : Prop :=
  ∃ h : Packet, chain = [h.bytes .v2] ∧
    (h.accessType = readAccess32 ∧ ReadFails answers 0 ∨
      h.accessType = writeAccess32 ∧ ReadFails answers (writeLength answers 0))

/-! ## The reply as a function of the answers -/

/-- Only a failing read returns the old content of its output. -/
theorem readOutcome_eq (answers : Nat → TwiAnswer) (n : Nat) (d : U32) :
    ReadFails answers n ∧ (readOutcome answers n d).1 ≠ .success ∧
        (∀ d', readOutcome answers n d' = ((readOutcome answers n d).1, d')) ∨
      ¬ ReadFails answers n ∧ (readOutcome answers n d).1 = .success ∧
        (∀ d', readOutcome answers n d' = readOutcome answers n d) := by
  unfold ReadFails readOutcome
  split
  · rename_i h
    exact .inl ⟨fun hf => h hf.1, h, fun _ => rfl⟩
  · split
    · rename_i h
      exact .inl ⟨fun hf => h hf.2.1, h, fun _ => rfl⟩
    · split
      · rename_i h₁ h₂ h₃
        exact .inr ⟨fun hf => hf ⟨not_not.mp h₁, not_not.mp h₂, h₃⟩, rfl, fun _ => rfl⟩
      · rename_i h
        exact .inl ⟨fun hf => h hf.2.2, fun hs => h (.inl hs), fun _ => rfl⟩

/-- The 16-bit arm guards its output: a failed read leaves the data field alone. -/
theorem afterRead16_outcome (h : Packet) (v : Version) (n : Nat) (d d' : U32) :
    h.afterRead16 v (readOutcome answers n d).1 (readOutcome answers n d).2 =
      h.afterRead16 v (readOutcome answers n d').1 (readOutcome answers n d').2 := by
  rcases readOutcome_eq answers n d with ⟨-, hst, heq⟩ | ⟨-, -, heq⟩
  · rw [heq d']
    simp only [Packet.afterRead16, if_neg hst]
  · rw [heq d']

/-- The packet a request leaves, as a function of the answers. -/
def replyPacket (loc : Locals) (v : Version) (h : Packet) (answers : Nat → TwiAnswer) : Packet :=
  if h.accessType = readAccess16 then
    let r := readOutcome answers 0 loc.dataFull
    h.cleared.afterRead16 v r.1 r.2
  else if h.accessType = writeAccess16 then
    if writeOutcome answers 0 ≠ .success then h.cleared.afterWrite (writeOutcome answers 0)
    else
      let r := readOutcome answers 2 loc.dataFull
      h.cleared.afterRead16 v r.1 r.2
  else if h.accessType = writeAccess16NoReadback then
    h.cleared.afterWrite (writeOutcome answers 0)
  else if v = .v1 then { h with status := statusInvalidCmd }
  else if h.accessType = readAccess32 then
    let r := readOutcome answers 0 loc.data32
    h.cleared.afterRead32 r.1 r.2
  else if h.accessType = writeAccess32 then
    let r := readOutcome answers (writeLength answers 0) loc.data32
    (h.cleared.afterWrite (writeOutcome answers 0)).afterRead32 r.1 r.2
  else if h.accessType = writeAccess32NoReadback then
    h.cleared.afterWrite (writeOutcome answers 0)
  else { h with status := statusInvalidCmd }

theorem writeLength_of_success {n : Nat} (hs : writeOutcome answers n = .success) :
    writeLength answers n = 2 := by
  unfold writeOutcome at hs
  split at hs
  · contradiction
  · rename_i h
    rw [writeLength, if_neg h]

variable {loc : Locals} {v : Version} {h h' : Packet}

theorem replyPacket_of_served (hs : Served loc v h tw h')
    (ha : Prog.Answered (answering answers) [] (tw.map twiHom.event)) :
    h' = replyPacket loc v h answers := by
  have h0 : issued [] = 0 := rfl
  cases hs with
  | read16 ht hr =>
    have ho := outcome_of_read hr ha
    rw [h0] at ho
    simp only [replyPacket, if_pos ht, ← ho]
  | write16Failed ht hst hw =>
    obtain ⟨rfl, -⟩ := outcome_of_write hw ha
    rw [h0] at hst ⊢
    rcases ht with ht | ht
    · simp [replyPacket, ht, hst, show writeAccess16 ≠ readAccess16 by decide]
    · simp [replyPacket, ht, show writeAccess16NoReadback ≠ readAccess16 by decide,
        show writeAccess16NoReadback ≠ writeAccess16 by decide]
  | write16 ht hw hr =>
    -- the read-back starts with the third transaction
    rw [List.map_append, Prog.answered_append] at ha
    obtain ⟨hst, hlen⟩ := outcome_of_write hw ha.1
    have ho := outcome_of_read hr ha.2
    rw [issued_append, hlen, h0, Nat.zero_add, writeLength_of_success (h0 ▸ hst.symm)] at ho
    simp [replyPacket, ht, show writeAccess16 ≠ readAccess16 by decide, ← h0 ▸ hst, ← ho]
  | write16NoReadback ht hw =>
    obtain ⟨hst, -⟩ := outcome_of_write hw ha
    simp [replyPacket, ht, show writeAccess16NoReadback ≠ readAccess16 by decide,
      show writeAccess16NoReadback ≠ writeAccess16 by decide, ← h0 ▸ hst, Packet.afterWrite]
  | read32 hv ht hr =>
    have ho := outcome_of_read hr ha
    rw [h0] at ho
    simp [replyPacket, ht, hv, show readAccess32 ≠ readAccess16 by decide,
      show readAccess32 ≠ writeAccess16 by decide,
      show readAccess32 ≠ writeAccess16NoReadback by decide, ← ho]
  | write32 hv ht hw hr =>
    rw [List.map_append, Prog.answered_append] at ha
    obtain ⟨hst, hlen⟩ := outcome_of_write hw ha.1
    have ho := outcome_of_read hr ha.2
    rw [issued_append, hlen, h0, Nat.zero_add] at ho
    simp [replyPacket, ht, hv, show writeAccess32 ≠ readAccess16 by decide,
      show writeAccess32 ≠ writeAccess16 by decide,
      show writeAccess32 ≠ writeAccess16NoReadback by decide,
      show writeAccess32 ≠ readAccess32 by decide, ← h0 ▸ hst, ← ho]
  | write32NoReadback hv ht hw =>
    obtain ⟨hst, -⟩ := outcome_of_write hw ha
    simp [replyPacket, ht, hv, show writeAccess32NoReadback ≠ readAccess16 by decide,
      show writeAccess32NoReadback ≠ writeAccess16 by decide,
      show writeAccess32NoReadback ≠ writeAccess16NoReadback by decide,
      show writeAccess32NoReadback ≠ readAccess32 by decide,
      show writeAccess32NoReadback ≠ writeAccess32 by decide, ← h0 ▸ hst]
  | invalid32 hv ht =>
    have h1 : h.accessType ≠ readAccess16 := by rcases ht with ht | ht | ht <;> rw [ht] <;> decide
    have h2 : h.accessType ≠ writeAccess16 := by rcases ht with ht | ht | ht <;> rw [ht] <;> decide
    have h3 : h.accessType ≠ writeAccess16NoReadback := by
      rcases ht with ht | ht | ht <;> rw [ht] <;> decide
    simp [replyPacket, h1, h2, h3, hv]
  | invalid h1 h2 h3 h4 h5 h6 => simp [replyPacket, h1, h2, h3, h4, h5, h6]

/-- The datagrams sent in answer to a packet. -/
theorem sent_reply (loc : Locals) (v : Version) (h : Packet) (addr : U32) (port : U16)
    (answers : Nat → TwiAnswer) :
    sent (Prog.exec (answering answers) (udpServerCallback loc [h.bytes v] addr port) []).2 =
      [((replyPacket loc v h answers).bytes v, addr, port)] := by
  obtain ⟨tw, h', htr, hs, ha⟩ := exec_udpServerCallback loc v h addr port (answering answers)
  rw [htr, sent_answered, replyPacket_of_served hs ha]

/-! ## Where the locals show -/

/-- A 32-bit read that does not fail overwrites the local. -/
theorem afterRead32_outcome (h : Packet) {n : Nat} (hn : ¬ ReadFails answers n) (d d' : U32) :
    h.afterRead32 (readOutcome answers n d).1 (readOutcome answers n d).2 =
      h.afterRead32 (readOutcome answers n d').1 (readOutcome answers n d').2 := by
  rcases readOutcome_eq answers n d with ⟨hf, -⟩ | ⟨-, -, heq⟩
  · exact absurd hf hn
  · rw [heq d']

/-- A 32-bit read that fails returns the local in the data field. -/
theorem data2_afterRead32_of_fails (h : Packet) {n : Nat} (hn : ReadFails answers n) (d : U32) :
    (h.afterRead32 (readOutcome answers n d).1 (readOutcome answers n d).2).data2 = d := by
  rcases readOutcome_eq answers n d with ⟨-, hst, heq⟩ | ⟨hf, -⟩
  · rw [heq d, Packet.afterRead32, if_neg hst]
  · exact absurd hn hf

/-- The only exits that put a local into the packet are the 32-bit reads that fail. -/
theorem replyPacket_congr (loc₁ loc₂ : Locals)
    (hno : v = .v2 → (h.accessType = readAccess32 → ¬ ReadFails answers 0) ∧
      (h.accessType = writeAccess32 → ¬ ReadFails answers (writeLength answers 0))) :
    replyPacket loc₁ v h answers = replyPacket loc₂ v h answers := by
  refine ite_congr rfl (fun _ => ?_) fun _ => ?_
  · exact afterRead16_outcome _ _ _ _ _
  refine ite_congr rfl (fun _ => ite_congr rfl (fun _ => rfl) fun _ => ?_) fun _ => ?_
  · exact afterRead16_outcome _ _ _ _ _
  refine ite_congr rfl (fun _ => rfl) fun _ => ite_congr rfl (fun _ => rfl) fun hv => ?_
  -- what is left are the 32-bit types of version 2
  have hv2 : v = .v2 := by
    cases v with
    | v1 => exact absurd rfl hv
    | v2 => rfl
  refine ite_congr rfl (fun ht => ?_) fun _ => ite_congr rfl (fun ht => ?_) fun _ => rfl
  · exact afterRead32_outcome _ ((hno hv2).1 ht) _ _
  · exact afterRead32_outcome _ ((hno hv2).2 ht) _ _

theorem data2_replyPacket (loc : Locals)
    (hl : h.accessType = readAccess32 ∧ ReadFails answers 0 ∨
      h.accessType = writeAccess32 ∧ ReadFails answers (writeLength answers 0)) :
    (replyPacket loc .v2 h answers).data2 = loc.data32 := by
  rcases hl with ⟨ht, hf⟩ | ⟨ht, hf⟩
  · rw [replyPacket, ht, if_neg (by decide), if_neg (by decide), if_neg (by decide),
      if_neg (by decide), if_pos rfl]
    exact data2_afterRead32_of_fails _ hf _
  · rw [replyPacket, ht, if_neg (by decide), if_neg (by decide), if_neg (by decide),
      if_neg (by decide), if_neg (by decide), if_pos rfl]
    exact data2_afterRead32_of_fails _ hf _

theorem bytes_data2 {h₁ h₂ : Packet} (he : h₁.bytes .v2 = h₂.bytes .v2) : h₁.data2 = h₂.data2 := by
  rw [← word32_byteAt h₁.data2, ← word32_byteAt h₂.data2]
  simp only [Packet.bytes, be16, be32, List.cons_append, List.nil_append, List.cons.injEq] at he
  obtain ⟨-, -, -, -, -, -, -, -, -, -, -, -, h3, h2, h1, h0, -⟩ := he
  rw [h3, h2, h1, h0]

/-- Two runs of the callback that differ only in the initial contents of the locals
send the same datagrams. -/
def RepliesWithoutLocals (chain : List (List U8)) (addr : U32) (port : U16)
    (answers : Nat → TwiAnswer) : Prop :=
  ∀ loc₁ loc₂ : Locals,
    sent (Prog.exec (answering answers) (udpServerCallback loc₁ chain addr port) []).2 =
      sent (Prog.exec (answering answers) (udpServerCallback loc₂ chain addr port) []).2

/-- A failing 32-bit read sends whatever the local held. -/
theorem leaks (chain : List (List U8)) (addr : U32) (port : U16) (answers : Nat → TwiAnswer)
    (hl : LeaksLocal chain answers) : ¬ RepliesWithoutLocals chain addr port answers := by
  obtain ⟨h, rfl, hl⟩ := hl
  intro hsame
  -- two runs that differ in `data32` only
  have heq := hsame ⟨0, 0, 0⟩ ⟨0, 1, 0⟩
  rw [sent_reply, sent_reply] at heq
  have hbytes := (Prod.mk.inj (List.cons.inj heq).1).1
  have hdata := bytes_data2 hbytes
  rw [data2_replyPacket _ hl, data2_replyPacket _ hl] at hdata
  exact absurd hdata (by decide)

/-- A datagram that is not a single pbuf of 12 or 16 bytes is dropped. -/
theorem udpServerCallback_cases (chain : List (List U8)) :
    (∃ v h, chain = [Packet.bytes h v]) ∨
      ∀ loc addr port, udpServerCallback loc chain addr port = pbufFree := by
  match chain with
  | [] => exact .inr fun _ _ _ => rfl
  | _ :: _ :: _ => exact .inr fun _ _ _ => rfl
  | [p] =>
    by_cases h12 : p.length = 12
    · obtain ⟨h, rfl⟩ := exists_packet .v1 p h12
      exact .inl ⟨.v1, h, rfl⟩
    by_cases h16 : p.length = 16
    · obtain ⟨h, rfl⟩ := exists_packet .v2 p h16
      exact .inl ⟨.v2, h, rfl⟩
    refine .inr fun loc addr port => ?_
    simp only [udpServerCallback, if_neg h12, if_neg h16]

/-- **No uninitialised memory in replies**, except that a 32-bit read, or read-back,
that fails on the bus returns the local variable it should have filled. -/
theorem repliesWithoutLocals_iff (chain : List (List U8)) (addr : U32) (port : U16)
    (answers : Nat → TwiAnswer) :
    RepliesWithoutLocals chain addr port answers ↔ ¬ LeaksLocal chain answers := by
  refine ⟨fun hsame hl => leaks chain addr port answers hl hsame, fun hno loc₁ loc₂ => ?_⟩
  rcases udpServerCallback_cases chain with ⟨v, h, rfl⟩ | hdrop
  · rw [sent_reply, sent_reply, replyPacket_congr loc₁ loc₂]
    rintro rfl
    exact ⟨fun ht hf => hno ⟨h, rfl, .inl ⟨ht, hf⟩⟩, fun ht hf => hno ⟨h, rfl, .inr ⟨ht, hf⟩⟩⟩
  · rw [hdrop, hdrop]

/-- A 32-bit read while the FPGA does not acknowledge its address. -/
theorem not_repliesWithoutLocals_read32 :
    ¬ RepliesWithoutLocals [Packet.bytes ⟨readAccess32, 0, 0, 0x80000010, 7, 0⟩ .v2] 1 2000
      fun _ => ⟨.receiveNack, fun _ => 0⟩ :=
  leaks _ _ _ _ ⟨_, rfl, .inl ⟨rfl, by simp [ReadFails]⟩⟩

end Udp
