import VmeSam3x.Udp.Packet

/-! # What a UDP reply means

`Served` lists every run of a request once: which accesses it makes, and the
packet it leaves. The statements about status, acceptance and data of the reply
are read off it.
-/

namespace Udp

open Interact Bytes Fpga

/-! ## The runs of a request -/

/-- The packet after a 16-bit read. -/
def Packet.afterRead16 (h : Packet) (v : Version) (st : TwiStatus) (x : U32) : Packet :=
  if st = .success then h.withData16 (((x >>> 16) &&& 0xffff).setWidth 16) v
  else { h with status := statusTimeout }

/-- The packet after a 32-bit read: the data field is overwritten in any case. -/
def Packet.afterRead32 (h : Packet) (st : TwiStatus) (x : U32) : Packet :=
  if st = .success then { h with data2 := x } else { h with status := statusTimeout, data2 := x }

/-- The packet after a write. -/
def Packet.afterWrite (h : Packet) (st : TwiStatus) : Packet :=
  if st = .success then h else { h with status := statusTimeout }

/-- The data message of a 16-bit write. -/
def Packet.message16 (h : Packet) (v : Version) : List U8 :=
  [0x13, byteAt 1 (h.writeData16 v), byteAt 0 (h.writeData16 v)]

/-- The data message of a 32-bit write. -/
def Packet.message32 (h : Packet) : List U8 :=
  [0x33, byteAt 3 h.data2, byteAt 2 h.data2, byteAt 1 h.data2, byteAt 0 h.data2]

/-- The request as the callback sees it after clearing the status. -/
def Packet.cleared (h : Packet) : Packet := { h with status := statusOk }

/-- The runs of a request: the TWI calls with their results, and the packet left. -/
inductive Served (loc : Locals) (v : Version) (h : Packet) : List (Event Twi) → Packet → Prop
  | read16 {st : TwiStatus} {x : U32} {tw : List (Event Twi)} (ht : h.accessType = readAccess16)
      (hr : ReadRun 0x14 h.addr loc.dataFull st x tw) :
      Served loc v h tw (h.cleared.afterRead16 v st x)
  | write16Failed {st : TwiStatus} {tw : List (Event Twi)}
      (ht : h.accessType = writeAccess16 ∨ h.accessType = writeAccess16NoReadback)
      (hst : st ≠ .success) (hw : WriteRun h.addr (h.message16 v) st tw) :
      Served loc v h tw (h.cleared.afterWrite st)
  | write16 {st : TwiStatus} {x : U32} {tw tw' : List (Event Twi)}
      (ht : h.accessType = writeAccess16) (hw : WriteRun h.addr (h.message16 v) .success tw)
      (hr : ReadRun 0x14 h.addr loc.dataFull st x tw') :
      Served loc v h (tw ++ tw') (h.cleared.afterRead16 v st x)
  | write16NoReadback {tw : List (Event Twi)} (ht : h.accessType = writeAccess16NoReadback)
      (hw : WriteRun h.addr (h.message16 v) .success tw) : Served loc v h tw h.cleared
  | read32 {st : TwiStatus} {x : U32} {tw : List (Event Twi)} (hv : v = .v2)
      (ht : h.accessType = readAccess32) (hr : ReadRun 0x34 h.addr loc.data32 st x tw) :
      Served loc v h tw (h.cleared.afterRead32 st x)
  | write32 {st st' : TwiStatus} {x : U32} {tw tw' : List (Event Twi)} (hv : v = .v2)
      (ht : h.accessType = writeAccess32) (hw : WriteRun h.addr h.message32 st tw)
      (hr : ReadRun 0x34 h.addr loc.data32 st' x tw') :
      Served loc v h (tw ++ tw') ((h.cleared.afterWrite st).afterRead32 st' x)
  | write32NoReadback {st : TwiStatus} {tw : List (Event Twi)} (hv : v = .v2)
      (ht : h.accessType = writeAccess32NoReadback) (hw : WriteRun h.addr h.message32 st tw) :
      Served loc v h tw (h.cleared.afterWrite st)
  | invalid32 (hv : v = .v1) (ht : h.accessType = readAccess32 ∨ h.accessType = writeAccess32 ∨
        h.accessType = writeAccess32NoReadback) :
      Served loc v h [] { h with status := statusInvalidCmd }
  | invalid (h1 : h.accessType ≠ readAccess16) (h2 : h.accessType ≠ writeAccess16)
      (h3 : h.accessType ≠ writeAccess16NoReadback) (h4 : h.accessType ≠ readAccess32)
      (h5 : h.accessType ≠ writeAccess32) (h6 : h.accessType ≠ writeAccess32NoReadback) :
      Served loc v h [] { h with status := statusInvalidCmd }

/-- A call into `fpga_twi.c` issues nothing but driver calls, and it does not fail. -/
theorem path_fpga {α : Type} {R : List (Event Twi) → α → Prop} {p : Prog Twi Fault α}
    (hp : ∀ tw y, Prog.Path p tw y → ∃ a, y = .ok a ∧ R tw a) (evs : List (Event Net))
    (y : Except Fault α) (h : Prog.Path (fpga p) evs y) :
    ∃ a, y = .ok a ∧ ∃ tw, evs = tw.map twiHom.event ∧ R tw a := by
  rcases Prog.path_embed.mp h with ⟨tw, rfl, h'⟩
  rcases hp tw y h' with ⟨a, rfl, hR⟩
  exact ⟨a, rfl, tw, rfl, hR⟩

theorem path_fpgaWriteShort {a : U32} {d : U16} {tw : List (Event Twi)} {y : Except Fault TwiStatus}
    (hp : Prog.Path (fpgaWriteShort a d) tw y) :
    ∃ st, y = .ok st ∧ WriteRun a [0x13, byteAt 1 d, byteAt 0 d] st tw :=
  path_fpgaWriteBuffer hp

theorem path_fpgaWriteLong {a d : U32} {tw : List (Event Twi)} {y : Except Fault TwiStatus}
    (hp : Prog.Path (fpgaWriteLong a d) tw y) :
    ∃ st, y = .ok st ∧
      WriteRun a [0x33, byteAt 3 d, byteAt 2 d, byteAt 1 d, byteAt 0 d] st tw :=
  path_fpgaWriteBuffer hp

theorem path_fpgaReadLong {a d : U32} {tw : List (Event Twi)}
    {y : Except Fault (TwiStatus × U32)} (hp : Prog.Path (fpgaReadLong a d) tw y) :
    ∃ r, y = .ok r ∧ ReadRun 0x34 a d r.1 r.2 tw := by
  rcases path_fpgaReadFull hp with ⟨st, v, rfl, hr⟩
  exact ⟨(st, v), rfl, hr⟩

/-- The output of a 16-bit read is assigned only when the read is successful. -/
theorem path_fpgaReadShort {dataFull a : U32} {d : U16} {tw : List (Event Twi)}
    {y : Except Fault (TwiStatus × U16)} (hp : Prog.Path (fpgaReadShort dataFull a d) tw y) :
    ∃ r, y = .ok r ∧ ∃ v, ReadRun 0x14 a dataFull r.1 v tw ∧
      r.2 = if r.1 = .success then ((v >>> 16) &&& 0xffff).setWidth 16 else d := by
  rcases Prog.path_bind.mp hp with ⟨⟨st, v⟩, evs₁, evs₂, rfl, h₁, h₂⟩ | ⟨e, rfl, h₁⟩
  · rcases path_fpgaReadFull h₁ with ⟨st', v', hx, hr⟩
    cases hx
    by_cases hst : st = .success
    · rw [if_pos hst] at h₂
      rcases Prog.path_ret.mp h₂ with ⟨rfl, rfl⟩
      rw [List.append_nil]
      exact ⟨_, rfl, v, hr, (if_pos hst).symm⟩
    · rw [if_neg hst] at h₂
      rcases Prog.path_ret.mp h₂ with ⟨rfl, rfl⟩
      rw [List.append_nil]
      exact ⟨_, rfl, v, hr, (if_neg hst).symm⟩
  · rcases path_fpgaReadFull h₁ with ⟨st, v, hx, -⟩
    cases hx

/-- Every run of the read chain, for a packet with the given access type. -/
theorem path_serveRead {loc : Locals} {v : Version} {h : Packet} {evs : List (Event Net)}
    {x : Except Fault Packet} (hp : Prog.Path (serveRead loc v h) evs x) :
    ∃ tw h', evs = tw.map twiHom.event ∧ x = .ok h' ∧
      ((h.accessType = writeAccess16 ∨ h.accessType = readAccess16) ∧
          (∃ st y, h' = h.afterRead16 v st y ∧ ReadRun 0x14 h.addr loc.dataFull st y tw) ∨
        (h.accessType = writeAccess32 ∨ h.accessType = readAccess32) ∧ v = .v2 ∧
          (∃ st y, h' = h.afterRead32 st y ∧ ReadRun 0x34 h.addr loc.data32 st y tw) ∨
        (h.accessType = writeAccess32 ∨ h.accessType = readAccess32) ∧ v = .v1 ∧ tw = [] ∧
          h' = { h with status := statusInvalidCmd } ∨
        (h.accessType = writeAccess16NoReadback ∨ h.accessType = writeAccess32NoReadback) ∧
          tw = [] ∧ h' = h ∨
        (h.accessType ≠ writeAccess16 ∧ h.accessType ≠ readAccess16 ∧
          h.accessType ≠ writeAccess32 ∧ h.accessType ≠ readAccess32 ∧
          h.accessType ≠ writeAccess16NoReadback ∧ h.accessType ≠ writeAccess32NoReadback) ∧
          tw = [] ∧ h' = { h with status := statusInvalidCmd }) := by
  unfold serveRead at hp
  split at hp
  · rename_i ht
    rcases Prog.path_bind_of_ok (path_fpga fun _ _ => path_fpgaReadShort) hp with
      ⟨⟨st, d⟩, _, evs₂, rfl, ⟨tw, rfl, y, hr, hd⟩, h₂⟩
    rcases Prog.path_ret.mp h₂ with ⟨rfl, rfl⟩
    refine ⟨tw, _, by simp, rfl, .inl ⟨ht, st, y, ?_, hr⟩⟩
    rw [hd]
    by_cases hst : st = .success <;> simp [Packet.afterRead16, hst]
  rename_i ht16
  split at hp
  · rename_i ht
    cases v with
    | v1 =>
      rw [Prog.pure_eq_ret, Prog.path_ret] at hp
      obtain ⟨rfl, rfl⟩ := hp
      exact ⟨[], _, rfl, rfl, .inr (.inr (.inl ⟨ht, rfl, rfl, rfl⟩))⟩
    | v2 =>
      rcases Prog.path_bind_of_ok (path_fpga fun _ _ => path_fpgaReadLong) hp with
        ⟨⟨st, y⟩, _, evs₂, rfl, ⟨tw, rfl, hr⟩, h₂⟩
      rcases Prog.path_ret.mp h₂ with ⟨rfl, rfl⟩
      refine ⟨tw, _, by simp, rfl, .inr (.inl ⟨ht, rfl, st, y, ?_, hr⟩)⟩
      by_cases hst : st = .success <;> simp [Packet.afterRead32, hst]
  rename_i ht32
  push Not at ht16 ht32
  -- the types without read-back, and the unknown ones
  split at hp
  · rename_i ht
    rw [Prog.pure_eq_ret, Prog.path_ret] at hp
    obtain ⟨rfl, rfl⟩ := hp
    exact ⟨[], _, rfl, rfl, .inr (.inr (.inr (.inl ⟨ht, rfl, rfl⟩)))⟩
  · rename_i ht
    push Not at ht
    rw [Prog.pure_eq_ret, Prog.path_ret] at hp
    obtain ⟨rfl, rfl⟩ := hp
    exact ⟨[], _, rfl, rfl, .inr (.inr (.inr (.inr
      ⟨⟨ht16.1, ht16.2, ht32.1, ht32.2, ht.1, ht.2⟩, rfl, rfl⟩)))⟩

/-- Every run of a request is one of those listed by `Served`. -/
theorem path_serve {loc : Locals} {v : Version} {h : Packet} {evs : List (Event Net)}
    {x : Except Fault Packet} (hp : Prog.Path (serve loc v h) evs x) :
    ∃ tw h', evs = tw.map twiHom.event ∧ x = .ok h' ∧ Served loc v h tw h' := by
  unfold serve at hp
  dsimp only at hp
  split at hp
  · -- 16-bit write, with or without read-back
    rename_i ht
    rcases Prog.path_bind_of_ok (path_fpga fun _ _ => path_fpgaWriteShort) hp with
      ⟨st, _, evs₂, rfl, ⟨tw, rfl, hw⟩, h₂⟩
    by_cases hst : st = .success
    · -- the read chain follows; of its cases only the 16-bit ones fit the type
      rw [if_neg (not_not.mpr hst)] at h₂
      subst hst
      obtain ⟨tw', h', rfl, rfl, hr⟩ := path_serveRead h₂
      refine ⟨tw ++ tw', h', by simp, rfl, ?_⟩
      rcases hr with ⟨ha, st, y, rfl, hr⟩ | ⟨ha, -⟩ | ⟨ha, -⟩ | ⟨ha, rfl, rfl⟩ | ⟨ha, -⟩
      · rcases ht with ht | ht
        · exact .write16 ht hw hr
        · rcases ha with ha | ha <;> exact absurd (ha.symm.trans ht) (by decide)
      · rcases ha with ha | ha <;> rcases ht with ht | ht <;>
          exact absurd (ha.symm.trans ht) (by decide)
      · rcases ha with ha | ha <;> rcases ht with ht | ht <;>
          exact absurd (ha.symm.trans ht) (by decide)
      · rcases ha with ha | ha
        · rw [List.append_nil]
          exact .write16NoReadback ha hw
        · rcases ht with ht | ht <;> exact absurd (ha.symm.trans ht) (by decide)
      · exact absurd ht (by simp_all)
    · rw [if_pos hst, Prog.pure_eq_ret, Prog.path_ret] at h₂
      obtain ⟨rfl, rfl⟩ := h₂
      refine ⟨tw, _, by simp, rfl, ?_⟩
      have := @Served.write16Failed loc v h st tw ht hst hw
      simpa [Packet.afterWrite, Packet.cleared, hst] using this
  rename_i ht16
  push Not at ht16
  split at hp
  · -- 32-bit write
    rename_i ht
    cases v with
    | v1 =>
      rw [Prog.pure_eq_ret, Prog.path_ret] at hp
      obtain ⟨rfl, rfl⟩ := hp
      exact ⟨[], _, rfl, rfl, .invalid32 rfl (.inr ht)⟩
    | v2 =>
      rcases Prog.path_bind_of_ok (path_fpga fun _ _ => path_fpgaWriteLong) hp with
        ⟨st, _, evs₂, rfl, ⟨tw, rfl, hw⟩, h₂⟩
      have hh : (if st ≠ .success then { h.cleared with status := statusTimeout } else h.cleared) =
          h.cleared.afterWrite st := by
        by_cases hst : st = .success <;> simp [Packet.afterWrite, hst]
      change Prog.Path (serveRead loc .v2
        (if st ≠ .success then { h.cleared with status := statusTimeout } else h.cleared)) _ _ at h₂
      rw [hh] at h₂
      have hacc : (h.cleared.afterWrite st).accessType = h.accessType := by
        unfold Packet.afterWrite
        split <;> rfl
      have haddr : (h.cleared.afterWrite st).addr = h.addr := by
        unfold Packet.afterWrite
        split <;> rfl
      obtain ⟨tw', h', rfl, rfl, hr⟩ := path_serveRead h₂
      refine ⟨tw ++ tw', h', by simp, rfl, ?_⟩
      rw [hacc, haddr] at hr
      -- it follows a failed write as well
      rcases hr with ⟨ha, -⟩ | ⟨ha, -, st', y, rfl, hr⟩ | ⟨-, hv, -⟩ | ⟨ha, rfl, rfl⟩ | ⟨ha, -⟩
      · rcases ha with ha | ha <;> rcases ht with ht | ht <;>
          exact absurd (ha.symm.trans ht) (by decide)
      · rcases ha with ha | ha
        · exact .write32 rfl ha hw hr
        · rcases ht with ht | ht <;> exact absurd (ha.symm.trans ht) (by decide)
      · cases hv
      · rcases ha with ha | ha
        · rcases ht with ht | ht <;> exact absurd (ha.symm.trans ht) (by decide)
        · rw [List.append_nil]
          exact .write32NoReadback rfl ha hw
      · exact absurd ht (by simp_all)
  · -- no write: the read chain decides
    rename_i ht32
    push Not at ht32
    obtain ⟨tw, h', rfl, rfl, hr⟩ := path_serveRead hp
    refine ⟨tw, h', rfl, rfl, ?_⟩
    change h.accessType ≠ _ ∧ h.accessType ≠ _ at ht16 ht32
    rcases hr with ⟨ha, st, y, rfl, hr⟩ | ⟨ha, rfl, st, y, rfl, hr⟩ | ⟨ha, rfl, rfl, rfl⟩ |
      ⟨ha, -⟩ | ⟨ha, rfl, rfl⟩
    · exact .read16 (ha.resolve_left ht16.1) hr
    · exact .read32 rfl (ha.resolve_left ht32.1) hr
    · exact .invalid32 rfl (.inl (ha.resolve_left ht32.1))
    · rcases ha with ha | ha
      · exact absurd ha ht16.2
      · exact absurd ha ht32.2
    · exact .invalid ha.2.1 ha.1 ht16.2 ha.2.2.2.1 ht32.1 ht32.2

/-! ## The reply -/

/-- The driver calls of a run of the callback. -/
def twiEvents (evs : List (Event Net)) : List (Event Twi) :=
  evs.filterMap fun
    | ⟨.twi o, r⟩ => some ⟨o, r⟩
    | _ => none

/-- The datagrams a run of the callback sends. -/
def sent (evs : List (Event Net)) : List (List U8 × U32 × U16) :=
  evs.filterMap fun
    | ⟨.sendto payload addr port, _⟩ => some (payload, addr, port)
    | _ => none

/-- The end of every run that answers: one datagram, then the pbuf is freed. -/
def answered (payload : List U8) (addr : U32) (port : U16) : List (Event Net) :=
  [⟨UdpOp.sendto payload addr port, ()⟩, ⟨UdpOp.free, ()⟩]

@[simp] theorem twiEvents_answered (tw : List (Event Twi)) (payload : List U8) (addr : U32)
    (port : U16) : twiEvents (tw.map twiHom.event ++ answered payload addr port) = tw := by
  induction tw with
  | nil => rfl
  | cons e tw ih => exact congrArg (e :: ·) ih

@[simp] theorem sent_answered (tw : List (Event Twi)) (payload : List U8) (addr : U32)
    (port : U16) : sent (tw.map twiHom.event ++ answered payload addr port) =
      [(payload, addr, port)] := by
  induction tw with
  | nil => rfl
  | cons e tw ih => exact ih

/-- A packet of either version is served, answered and freed. -/
theorem udpServerCallback_bytes (loc : Locals) (v : Version) (h : Packet) (addr : U32)
    (port : U16) :
    udpServerCallback loc [h.bytes v] addr port = (do
      let h' ← serve loc v h
      udpSendto (h'.bytes v) addr port
      pbufFree) := by
  have hcb : udpServerCallback loc [h.bytes v] addr port = (do
      let reply ← udpRequest loc v (h.bytes v)
      udpSendto reply addr port
      pbufFree) := by
    cases v <;> rfl
  rw [hcb, udpRequest_bytes, bind_map_left]

theorem path_udpServerCallback {loc : Locals} {v : Version} {h : Packet} {addr : U32}
    {port : U16} {evs : List (Event Net)} {x : Except Fault Unit}
    (hp : Prog.Path (udpServerCallback loc [h.bytes v] addr port) evs x) :
    ∃ tw h', evs = tw.map twiHom.event ++ answered (h'.bytes v) addr port ∧ x = .ok () ∧
      Served loc v h tw h' := by
  rw [udpServerCallback_bytes] at hp
  rcases Prog.path_bind.mp hp with ⟨h', evs₁, evs₂, rfl, h₁, h₂⟩ | ⟨e, rfl, h₁⟩
  · obtain ⟨tw, h'', rfl, hx, hs⟩ := path_serve h₁
    cases hx
    obtain ⟨u, evs₃, rfl, h₃⟩ := Prog.path_call.mp h₂
    obtain ⟨u', evs₄, rfl, h₄⟩ := Prog.path_call.mp h₃
    obtain ⟨rfl, rfl⟩ := Prog.path_ret.mp h₄
    exact ⟨tw, h', rfl, rfl, hs⟩
  · obtain ⟨tw, h'', -, hx, -⟩ := path_serve h₁
    cases hx

/-- The same for an execution in an environment. -/
theorem exec_udpServerCallback (loc : Locals) (v : Version) (h : Packet) (addr : U32)
    (port : U16) (env : Env Net) :
    ∃ tw h', (Prog.exec env (udpServerCallback loc [h.bytes v] addr port) []).2 =
        tw.map twiHom.event ++ answered (h'.bytes v) addr port ∧ Served loc v h tw h' ∧
      Prog.Answered env [] (tw.map twiHom.event) := by
  obtain ⟨hp, ha⟩ := Prog.path_exec env (udpServerCallback loc [h.bytes v] addr port)
  obtain ⟨tw, h', htr, -, hs⟩ := path_udpServerCallback hp
  rw [htr, Prog.answered_append] at ha
  exact ⟨tw, h', htr, hs, ha.1⟩

/-! ## Status and data -/

/-- The access types the protocol documents for each version. -/
def Version.Allows : Version → U8 → Prop
  | .v1, t => t = readAccess16 ∨ t = writeAccess16
  | .v2, t => t = readAccess16 ∨ t = writeAccess16 ∨ t = writeAccess16NoReadback ∨
      t = readAccess32 ∨ t = writeAccess32 ∨ t = writeAccess32NoReadback

instance : (v : Version) → (t : U8) → Decidable (v.Allows t)
  | .v1, _ => inferInstanceAs (Decidable (_ ∨ _))
  | .v2, _ => inferInstanceAs (Decidable (_ ∨ _))

/-- The data field of a packet, zero-extended to 32 bits. -/
def Packet.data (h : Packet) : Version → U32
  | .v1 => h.data1.setWidth 32
  | .v2 => h.data2

/-- The bus transactions a request asks for. -/
def requestTransactions (v : Version) (h : Packet) : List TwiOp :=
  if h.accessType = readAccess16 then readTransactions 0x14 h.addr
  else if h.accessType = writeAccess16 then
    writeTransactions h.addr (h.message16 v) ++ readTransactions 0x14 h.addr
  else if h.accessType = writeAccess16NoReadback then writeTransactions h.addr (h.message16 v)
  else if h.accessType = readAccess32 then readTransactions 0x34 h.addr
  else if h.accessType = writeAccess32 then
    writeTransactions h.addr h.message32 ++ readTransactions 0x34 h.addr
  else writeTransactions h.addr h.message32

/-- The data a successful reply carries: the value read, 16-bit values from the high
half of the latch, or the request's own data where nothing is read back. -/
def replyData (v : Version) (h : Packet) (tw : List (Event Twi)) : Option U32 :=
  if h.accessType = readAccess16 ∨ h.accessType = writeAccess16 then
    (valueRead tw).map fun x => (((x >>> 16) &&& 0xffff).setWidth 16).setWidth 32
  else if h.accessType = readAccess32 ∨ h.accessType = writeAccess32 then valueRead tw
  else some (h.data v)

section Fields

variable (h : Packet) (v : Version) (st : TwiStatus) (x : U32)

@[simp] theorem Packet.status_afterRead16 : (h.afterRead16 v st x).status =
    if st = .success then h.status else statusTimeout := by
  unfold Packet.afterRead16
  split
  · cases v <;> rfl
  · rfl

@[simp] theorem Packet.status_afterRead32 : (h.afterRead32 st x).status =
    if st = .success then h.status else statusTimeout := by
  unfold Packet.afterRead32
  split <;> rfl

@[simp] theorem Packet.status_afterWrite : (h.afterWrite st).status =
    if st = .success then h.status else statusTimeout := by
  unfold Packet.afterWrite
  split <;> rfl

@[simp] theorem Packet.status_cleared : h.cleared.status = statusOk := rfl

@[simp] theorem Packet.data_cleared : h.cleared.data v = h.data v := by
  cases v <;> rfl

end Fields

variable {loc : Locals} {v : Version} {h h' : Packet} {tw : List (Event Twi)}

theorem statusTimeout_ne_ok : statusTimeout ≠ statusOk := by decide

theorem statusInvalidCmd_ne_ok : statusInvalidCmd ≠ statusOk := by decide

/-- A request of a documented type is answered with success or with a timeout, and
with success exactly if every driver call succeeded. -/
theorem Served.status_iff (hs : Served loc v h tw h') (hok : v.Allows h.accessType) :
    (h'.status = statusOk ∨ h'.status = statusTimeout) ∧
      (h'.status = statusOk ↔ ∀ e ∈ tw, Succeeded e) := by
  cases hs with
  | @read16 st _ _ ht hr =>
    rw [← hr.success_iff]
    by_cases hst : st = .success <;> simp [hst, statusTimeout_ne_ok]
  | write16Failed ht hst hw =>
    rw [← hw.success_iff]
    simp [hst, statusTimeout_ne_ok]
  | @write16 st _ _ _ ht hw hr =>
    rw [List.forall_mem_append, ← hw.success_iff, ← hr.success_iff]
    by_cases hst : st = .success <;> simp [hst, statusTimeout_ne_ok]
  | write16NoReadback ht hw =>
    rw [← hw.success_iff]
    simp
  | @read32 st _ _ hv ht hr =>
    rw [← hr.success_iff]
    by_cases hst : st = .success <;> simp [hst, statusTimeout_ne_ok]
  | @write32 st st' _ _ _ hv ht hw hr =>
    rw [List.forall_mem_append, ← hw.success_iff, ← hr.success_iff]
    by_cases hst : st = .success <;> by_cases hst' : st' = .success <;>
      simp [hst, hst', statusTimeout_ne_ok]
  | @write32NoReadback st _ hv ht hw =>
    rw [← hw.success_iff]
    by_cases hst : st = .success <;> simp [hst, statusTimeout_ne_ok]
  | invalid32 hv ht =>
    subst hv
    rcases hok with hok | hok <;> rcases ht with ht | ht | ht <;>
      exact absurd (hok.symm.trans ht) (by decide)
  | invalid h1 h2 h3 h4 h5 h6 =>
    cases v with
    | v1 => exact absurd hok (by simp [Version.Allows, h1, h2])
    | v2 => exact absurd hok (by simp [Version.Allows, h1, h2, h3, h4, h5, h6])

theorem transactions_append (tw tw' : List (Event Twi)) :
    transactions (tw ++ tw') = transactions tw ++ transactions tw' := by
  simp [transactions]

theorem Packet.data_withData16 (h : Packet) (x : U16) (v : Version) :
    (h.withData16 x v).data v = x.setWidth 32 := by
  cases v <;> rfl

/-- On success the bus carried the transactions of the request and nothing else, and
the data field is the value read, or the request's own. -/
theorem Served.effect_of_ok (hs : Served loc v h tw h') (hok : v.Allows h.accessType)
    (h0 : h'.status = statusOk) :
    transactions tw = requestTransactions v h ∧ some (h'.data v) = replyData v h tw := by
  have hall := (hs.status_iff hok).2.mp h0
  cases hs with
  | read16 ht hr =>
    obtain rfl := hr.success_iff.mpr hall
    have hx := hr.valueRead []
    rw [List.nil_append] at hx
    rw [requestTransactions, replyData, if_pos ht, if_pos (.inl ht), hx, Packet.afterRead16,
      if_pos rfl, Packet.data_withData16]
    exact ⟨hr.transactions, rfl⟩
  | write16Failed ht hst hw => exact absurd (hw.success_iff.mpr hall) hst
  | write16 ht hw hr =>
    obtain rfl := hr.success_iff.mpr (List.forall_mem_append.mp hall).2
    rw [requestTransactions, replyData, ht, if_neg (by decide), if_pos rfl, if_pos (.inr rfl),
      hr.valueRead, Packet.afterRead16, if_pos rfl, Packet.data_withData16, transactions_append,
      hw.transactions, hr.transactions]
    exact ⟨rfl, rfl⟩
  | write16NoReadback ht hw =>
    rw [requestTransactions, replyData, ht, if_neg (by decide), if_neg (by decide), if_pos rfl,
      if_neg (by decide), if_neg (by decide), Packet.data_cleared]
    exact ⟨hw.transactions, rfl⟩
  | read32 hv ht hr =>
    obtain rfl := hr.success_iff.mpr hall
    have hx := hr.valueRead []
    rw [List.nil_append] at hx
    subst hv
    rw [requestTransactions, replyData, ht, if_neg (by decide), if_neg (by decide),
      if_neg (by decide), if_pos rfl, if_neg (by decide), if_pos (.inl rfl), hx]
    exact ⟨hr.transactions, rfl⟩
  | write32 hv ht hw hr =>
    obtain ⟨hall₁, hall₂⟩ := List.forall_mem_append.mp hall
    obtain rfl := hw.success_iff.mpr hall₁
    obtain rfl := hr.success_iff.mpr hall₂
    subst hv
    rw [requestTransactions, replyData, ht, if_neg (by decide), if_neg (by decide),
      if_neg (by decide), if_neg (by decide), if_pos rfl, if_neg (by decide), if_pos (.inr rfl),
      hr.valueRead, transactions_append, hw.transactions, hr.transactions]
    exact ⟨rfl, rfl⟩
  | write32NoReadback hv ht hw =>
    obtain rfl := hw.success_iff.mpr hall
    rw [requestTransactions, replyData, ht, if_neg (by decide), if_neg (by decide),
      if_neg (by decide), if_neg (by decide), if_neg (by decide), if_neg (by decide),
      if_neg (by decide), Packet.afterWrite, if_pos rfl, Packet.data_cleared]
    exact ⟨hw.transactions, rfl⟩
  | invalid32 hv ht => exact absurd h0 statusInvalidCmd_ne_ok
  | invalid h1 h2 h3 h4 h5 h6 => exact absurd h0 statusInvalidCmd_ne_ok

/-- **Meaning of a reply.** Whatever the driver answers, a request of a documented
access type gets one reply, to its sender. The status is 0 exactly if every driver
call succeeded, and -2 otherwise. With status 0 the bus carried exactly the
transactions of the request, and the data field is the value read, or the request's
own data for the types without read-back. -/
theorem reply_meaning (loc : Locals) (v : Version) (h : Packet) (hok : v.Allows h.accessType)
    (addr : U32) (port : U16) (env : Env Net) :
    let evs := (Prog.exec env (udpServerCallback loc [h.bytes v] addr port) []).2
    ∃ h' : Packet, sent evs = [(h'.bytes v, addr, port)] ∧
      (h'.status = statusOk ∨ h'.status = statusTimeout) ∧
      (h'.status = statusOk ↔ ∀ e ∈ twiEvents evs, Succeeded e) ∧
      (h'.status = statusOk → transactions (twiEvents evs) = requestTransactions v h ∧
        some (h'.data v) = replyData v h (twiEvents evs)) := by
  obtain ⟨tw, h', htr, hs, -⟩ := exec_udpServerCallback loc v h addr port env
  have hst := hs.status_iff hok
  refine ⟨h', ?_⟩
  rw [htr, sent_answered, twiEvents_answered]
  exact ⟨rfl, hst.1, hst.2, hs.effect_of_ok hok⟩

/-- An environment in which every driver call succeeds and every read returns zeros. -/
def quietEnv : Env Net
  | _, .twi (.masterWrite _ _) => TwiStatus.success
  | _, .twi (.masterRead _ _) => (TwiStatus.success, fun _ => 0)
  | _, .twi .masterInit => ()
  | _, .sendto _ _ _ => ()
  | _, .free => ()

/-- A 32-bit write with read-back in that environment. -/
theorem reply_meaning_write32 :
    let h : Packet := ⟨writeAccess32, 0, 0, 0x80000010, 7, 0xdeadbeef⟩
    let evs := (Prog.exec quietEnv (udpServerCallback ⟨0, 0, 0⟩ [h.bytes .v2] 1 2000) []).2
    Version.v2.Allows h.accessType ∧
    ∃ h' : Packet, sent evs = [(h'.bytes .v2, 1, 2000)] ∧
      (h'.status = statusOk ∨ h'.status = statusTimeout) ∧
      (h'.status = statusOk ↔ ∀ e ∈ twiEvents evs, Succeeded e) ∧
      (h'.status = statusOk → transactions (twiEvents evs) = requestTransactions .v2 h ∧
        some (h'.data .v2) = replyData .v2 h (twiEvents evs)) :=
  ⟨by decide, reply_meaning ⟨0, 0, 0⟩ .v2 ⟨writeAccess32, 0, 0, 0x80000010, 7, 0xdeadbeef⟩
    (by decide) 1 2000 quietEnv⟩

/-! ## Acceptance -/

/-- The reply to `h` has status -3 exactly if the access type is not documented for
its version, and then nothing was put on the bus and the data field is unchanged. -/
def RejectsUnsupported (loc : Locals) (v : Version) (h : Packet) (addr : U32) (port : U16)
    (env : Env Net) : Prop :=
  let evs := (Prog.exec env (udpServerCallback loc [h.bytes v] addr port) []).2
  ∃ h' : Packet, sent evs = [(h'.bytes v, addr, port)] ∧
    (h'.status = statusInvalidCmd ↔ ¬ v.Allows h.accessType) ∧
    (h'.status = statusInvalidCmd → transactions (twiEvents evs) = [] ∧ h'.data v = h.data v)

theorem Packet.bytes_status {h₁ h₂ : Packet} {v : Version} (he : h₁.bytes v = h₂.bytes v) :
    h₁.status = h₂.status := by
  cases v <;> simp [Packet.bytes] at he <;> exact he.2.1

/-- Status -3 comes only from the two rejecting exits, before any driver call. -/
theorem Served.of_invalid (hs : Served loc v h tw h') :
    h'.status = statusInvalidCmd ↔
      (tw = [] ∧ h' = { h with status := statusInvalidCmd } ∧ ¬ v.Allows h.accessType) := by
  have hne : statusOk ≠ statusInvalidCmd := by decide
  have hne' : statusTimeout ≠ statusInvalidCmd := by decide
  by_cases hok : v.Allows h.accessType
  · rcases (hs.status_iff hok).1 with hst | hst <;> simp [hst, hok, hne, hne']
  · cases hs with
    | read16 ht hr => cases v <;> simp [Version.Allows, ht] at hok
    | @write16Failed st _ ht hst hw =>
      simp only [Packet.status_afterWrite, hst, if_false, hne', false_iff]
      rintro ⟨-, he, -⟩
      exact hne' (by simpa [hst] using congrArg Packet.status he)
    | write16 ht hw hr => cases v <;> simp [Version.Allows, ht] at hok
    | write16NoReadback ht hw =>
      simp only [Packet.status_cleared, hne, false_iff]
      rintro ⟨-, he, -⟩
      exact hne (by simpa using congrArg Packet.status he)
    | read32 hv ht hr => subst hv; simp [Version.Allows, ht] at hok
    | write32 hv ht hw hr => subst hv; simp [Version.Allows, ht] at hok
    | write32NoReadback hv ht hw => subst hv; simp [Version.Allows, ht] at hok
    | invalid32 hv ht => simp [hok]
    | invalid h1 h2 h3 h4 h5 h6 => simp [hok]

/-- A request of type 3 is served as a write, whatever its version. -/
theorem Served.status_of_noReadback (hs : Served loc v h tw h')
    (ht : h.accessType = writeAccess16NoReadback) : h'.status ≠ statusInvalidCmd := by
  have hne : statusOk ≠ statusInvalidCmd := by decide
  have hne' : statusTimeout ≠ statusInvalidCmd := by decide
  cases hs with
  | write16Failed _ hst _ => simpa [hst] using hne'
  | write16NoReadback _ _ => exact hne
  | read16 ht' _ => exact absurd (ht'.symm.trans ht) (by decide)
  | write16 ht' _ _ => exact absurd (ht'.symm.trans ht) (by decide)
  | read32 _ ht' _ => exact absurd (ht'.symm.trans ht) (by decide)
  | write32 _ ht' _ _ => exact absurd (ht'.symm.trans ht) (by decide)
  | write32NoReadback _ ht' _ => exact absurd (ht'.symm.trans ht) (by decide)
  | invalid32 _ ht' =>
    rcases ht' with ht' | ht' | ht' <;> exact absurd (ht'.symm.trans ht) (by decide)
  | invalid _ _ h3 _ _ _ => exact absurd ht h3

/-- Version 1 does not document type 3, but the callback does not reject it. -/
theorem not_rejects_v1_noReadback (loc : Locals) (h : Packet)
    (ht : h.accessType = writeAccess16NoReadback) (addr : U32) (port : U16) (env : Env Net) :
    ¬ RejectsUnsupported loc .v1 h addr port env := by
  obtain ⟨tw, h', htr, hs, -⟩ := exec_udpServerCallback loc .v1 h addr port env
  simp only [RejectsUnsupported, htr, sent_answered, twiEvents_answered]
  rintro ⟨h'', hsent, hiff, -⟩
  have hbytes : h'.bytes .v1 = h''.bytes .v1 := by simpa using hsent
  have hnot : ¬ Version.v1.Allows h.accessType := by
    rw [ht]
    decide
  refine hs.status_of_noReadback ht ?_
  rw [Packet.bytes_status hbytes]
  exact hiff.mpr hnot

/-- **Acceptance.** The callback rejects as documented for every request except
version 1 packets of type 3, whatever the FPGA does. -/
theorem rejectsUnsupported_iff (loc : Locals) (v : Version) (h : Packet) (addr : U32)
    (port : U16) (env : Env Net) :
    RejectsUnsupported loc v h addr port env ↔
      ¬ (v = .v1 ∧ h.accessType = writeAccess16NoReadback) := by
  constructor
  · rintro hrej ⟨rfl, ht⟩
    exact not_rejects_v1_noReadback loc h ht addr port env hrej
  · intro hcond
    obtain ⟨tw, h', htr, hs, -⟩ := exec_udpServerCallback loc v h addr port env
    have hinv := hs.of_invalid
    simp only [RejectsUnsupported, htr, sent_answered, twiEvents_answered]
    refine ⟨h', rfl, ?_, ?_⟩
    · refine ⟨fun hst => (hinv.mp hst).2.2, fun hnot => ?_⟩
      cases hs with
      | read16 ht _ => cases v <;> simp [Version.Allows, ht] at hnot
      | write16Failed ht _ _ =>
        rcases ht with ht | ht
        · cases v <;> simp [Version.Allows, ht] at hnot
        · cases v with
          | v1 => exact absurd ⟨rfl, ht⟩ hcond
          | v2 => simp [Version.Allows, ht] at hnot
      | write16 ht _ _ => cases v <;> simp [Version.Allows, ht] at hnot
      | write16NoReadback ht _ =>
        cases v with
        | v1 => exact absurd ⟨rfl, ht⟩ hcond
        | v2 => simp [Version.Allows, ht] at hnot
      | read32 hv ht _ => subst hv; simp [Version.Allows, ht] at hnot
      | write32 hv ht _ _ => subst hv; simp [Version.Allows, ht] at hnot
      | write32NoReadback hv ht _ => subst hv; simp [Version.Allows, ht] at hnot
      | invalid32 _ _ => rfl
      | invalid _ _ _ _ _ _ => rfl
    · intro hst
      obtain ⟨rfl, rfl, -⟩ := hinv.mp hst
      exact ⟨rfl, by cases v <;> rfl⟩

/-- A version 1 packet of type 3 is written to the FPGA and answered with success. -/
theorem not_rejectsUnsupported_v1_type3 :
    ¬ RejectsUnsupported ⟨0, 0, 0⟩ .v1 ⟨writeAccess16NoReadback, 0, 0x1234, 0x80000010, 7, 0⟩
      1 2000 quietEnv :=
  not_rejects_v1_noReadback _ _ rfl 1 2000 quietEnv

end Udp
