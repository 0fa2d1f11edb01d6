import SafetyCopro.Firmware.SafetyProtocol

/-!
The receiver over its own memory: the fixed array `rxs.buf`, the two unsigned
counters beside it, and every access `rx_feed_byte` makes to them. No stream of
bytes gets an access out of bounds or a counter below zero, and seen from
outside this is the receiver that keeps the bytes of the frame in a list.
-/

namespace SafetyCopro

/-- `struct rx_state` as it lies in memory; `size_t` has 64 bits on the board. -/
structure RxMemory where
  phase : RxPhase := .huntMagicLo
  buf : Vector U8 safetyMaxFrameSize := Vector.replicate _ 0
  need : BitVec 64 := 0
  got : BitVec 64 := 0
  payloadLen : U16 := 0
deriving DecidableEq

inductive RxAccess
  -- a byte is stored in `buf` at this index
  | stored (index : BitVec 64)
  -- `need` is decremented from this value
  | decremented (need : BitVec 64)
  -- `k_msgq_put` of a message, with the bytes `safety_frame_validate` was given
  | posted (checked : List U8) (msg : SafetyRxFrame)
deriving DecidableEq

namespace RxMemory

def reset (rxs : RxMemory) : RxMemory :=
  { rxs with phase := .huntMagicLo, need := 0, got := 0, payloadLen := 0 }

/-- `rxs.buf[i] = b`. A store outside of the array would be recorded as an
access and change nothing here. -/
def store (rxs : RxMemory) (i : BitVec 64) (b : U8) : RxMemory :=
  { rxs with buf := rxs.buf.setIfInBounds i.toNat b }

/-- `rxs.buf[rxs.got++] = b; rxs.need--;` -/
def push (rxs : RxMemory) (b : U8) : RxMemory :=
  { rxs.store rxs.got b with got := rxs.got + 1, need := rxs.need - 1 }

def pushed (rxs : RxMemory) : List RxAccess := [.stored rxs.got, .decremented rxs.need]

/-- The first `got` bytes of the buffer. -/
def received (rxs : RxMemory) : List U8 := rxs.buf.toList.take rxs.got.toNat

def complete (rxs : RxMemory) : RxMemory × List RxAccess :=
  (rxs.reset,
    if safetyFrameValidate rxs.received = .ok then
      [.posted rxs.received
        ⟨.ofBytes rxs.buf.toList,
          (rxs.buf.toList.drop safetyHeaderSize).take rxs.payloadLen.toNat⟩]
    else [])

def feedByte (rxs : RxMemory) (b : U8) : RxMemory × List RxAccess :=
  match rxs.phase with
  | .huntMagicLo =>
      if b = magicLo then
        ({ rxs.store 0 b with got := 1, phase := .huntMagicHi }, [.stored 0])
      else (rxs, [])
  | .huntMagicHi =>
      if b = magicHi then
        ({ rxs.store 1 b with
            got := 2, need := BitVec.ofNat 64 (safetyHeaderSize - 2), phase := .header },
          [.stored 1])
      else if b = magicLo then ({ rxs.store 0 b with got := 1 }, [.stored 0])
      else (rxs.reset, [])
  | .header =>
      let pushed := rxs.pushed
      let rxs := rxs.push b
      if rxs.need = 0 then
        let hdr := SafetyFrameHeader.ofBytes rxs.buf.toList
        if hdr.payloadLength.toNat > safetyMaxPayload then (rxs.reset, pushed)
        else
          let rxs : RxMemory := { rxs with payloadLen := hdr.payloadLength }
          if rxs.payloadLen = 0 then (rxs.complete.1, pushed ++ rxs.complete.2)
          else ({ rxs with need := rxs.payloadLen.setWidth 64, phase := .payload }, pushed)
      else (rxs, pushed)
  | .payload =>
      let pushed := rxs.pushed
      let rxs := rxs.push b
      if rxs.need = 0 then (rxs.complete.1, pushed ++ rxs.complete.2) else (rxs, pushed)

/-! ### The counters -/

/-- What the counters say of the bytes received, phase by phase. -/
def Counted (rxs : RxMemory) : Prop :=
  match rxs.phase with
  | .huntMagicLo => rxs.got.toNat = 0
  | .huntMagicHi => rxs.got.toNat = 1
  | .header =>
      2 ≤ rxs.got.toNat ∧ 1 ≤ rxs.need.toNat ∧
        rxs.got.toNat + rxs.need.toNat = safetyHeaderSize
  | .payload =>
      safetyHeaderSize ≤ rxs.got.toNat ∧ 1 ≤ rxs.need.toNat ∧
        rxs.got.toNat + rxs.need.toNat = safetyHeaderSize + rxs.payloadLen.toNat ∧
        1 ≤ rxs.payloadLen.toNat ∧ rxs.payloadLen.toNat ≤ safetyMaxPayload ∧
        (SafetyFrameHeader.ofBytes rxs.buf.toList).payloadLength = rxs.payloadLen

theorem counted_reset (rxs : RxMemory) : rxs.reset.Counted := rfl

theorem received_store {rxs : RxMemory} {i : BitVec 64} {n : Nat} (b : U8) (hn : i.toNat = n)
    (hi : n < safetyMaxFrameSize) :
    (rxs.store i b).buf.toList.take (n + 1) = rxs.buf.toList.take n ++ [b] := by
  subst hn
  have hlen : i.toNat < rxs.buf.toList.length := by rwa [Vector.length_toList]
  rw [store, Vector.toList_setIfInBounds, List.take_add_one, List.take_set_of_le (Nat.le_refl _),
    List.getElem?_set_self hlen]
  rfl

/-- A store behind the header leaves the header. -/
theorem header_store {rxs : RxMemory} {i : BitVec 64} (b : U8) (hi : safetyHeaderSize ≤ i.toNat) :
    SafetyFrameHeader.ofBytes (rxs.store i b).buf.toList =
      SafetyFrameHeader.ofBytes rxs.buf.toList := by
  have hfits : ∀ buf : Vector U8 safetyMaxFrameSize, safetyHeaderSize ≤ buf.toList.length :=
    fun buf => by rw [Vector.length_toList]; decide
  rw [← ofBytes_take (Nat.le_refl _) (hfits (rxs.store i b).buf),
    ← ofBytes_take (Nat.le_refl _) (hfits rxs.buf), store, Vector.toList_setIfInBounds,
    List.take_set_of_le hi]

section Push

variable {rxs : RxMemory} (b : U8)

theorem push_got (h : rxs.got.toNat < safetyMaxFrameSize) :
    (rxs.push b).got.toNat = rxs.got.toNat + 1 := by
  have h272 : safetyMaxFrameSize = 272 := rfl
  have hadd : (rxs.push b).got = rxs.got + 1 := rfl
  rw [hadd, BitVec.toNat_add]
  exact Nat.mod_eq_of_lt (by simp; omega)

theorem push_need (h : 1 ≤ rxs.need.toNat) :
    (rxs.push b).need.toNat = rxs.need.toNat - 1 := by
  have hsub : (rxs.push b).need = rxs.need - 1 := rfl
  rw [hsub]
  exact BitVec.toNat_sub_of_le h

theorem received_push (h : rxs.got.toNat < safetyMaxFrameSize) :
    (rxs.push b).received = rxs.received ++ [b] := by
  rw [received, push_got b h]
  exact received_store b rfl h

end Push

/-! ### One byte -/

/-- The receiver without its memory. -/
def view (rxs : RxMemory) : RxState :=
  ⟨rxs.phase, rxs.received, rxs.need.toNat, rxs.payloadLen⟩

end RxMemory

namespace RxAccess

def Sound : RxAccess → Prop
  | .stored index => index.toNat < safetyMaxFrameSize
  | .decremented need => 1 ≤ need.toNat
  | .posted checked msg =>
      safetyFrameValidate checked = .ok ∧
        checked.length = safetyHeaderSize + msg.hdr.payloadLength.toNat ∧
        msg.hdr = .ofBytes checked ∧ msg.payload = checked.drop safetyHeaderSize

def message : RxAccess → List SafetyRxFrame
  | .posted _ msg => [msg]
  | _ => []

end RxAccess

namespace RxMemory

/-- Where the memory ends up, with the accesses on the way, against what the
receiver does. -/
structure Refines (next : RxMemory × List RxAccess) (out : RxState × List SafetyRxFrame) :
    Prop where
  counted : next.1.Counted
  sound : ∀ a ∈ next.2, a.Sound
  state : next.1.view = out.1
  messages : next.2.flatMap RxAccess.message = out.2

theorem view_reset (rxs : RxMemory) : rxs.reset.view = rxReset := rfl

variable {rxs : RxMemory}

theorem sound_pushed (hneed : 1 ≤ rxs.need.toNat) (hgot : rxs.got.toNat < safetyMaxFrameSize) :
    ∀ a ∈ rxs.pushed, a.Sound := by
  intro a ha
  obtain rfl | ha := List.mem_cons.mp ha
  · exact hgot
  · obtain rfl := List.mem_singleton.mp ha
    exact hneed

theorem Refines.push {next : RxMemory × List RxAccess} {out : RxState × List SafetyRxFrame}
    (h : Refines next out) (hneed : 1 ≤ rxs.need.toNat)
    (hgot : rxs.got.toNat < safetyMaxFrameSize) :
    Refines (next.1, rxs.pushed ++ next.2) out where
  counted := h.counted
  sound := by
    intro a ha
    obtain ha | ha := List.mem_append.mp ha
    · exact sound_pushed hneed hgot a ha
    · exact h.sound a ha
  state := h.state
  messages := by
    rw [List.flatMap_append]
    exact h.messages

/-- The buffer holds a frame of exactly the announced length. -/
theorem refines_complete (hfits : rxs.payloadLen.toNat ≤ safetyMaxPayload)
    (hgot : rxs.got.toNat = safetyHeaderSize + rxs.payloadLen.toNat)
    (hlen : (SafetyFrameHeader.ofBytes rxs.buf.toList).payloadLength = rxs.payloadLen) :
    Refines rxs.complete (frameComplete rxs.view) := by
  have h272 : safetyMaxFrameSize = safetyHeaderSize + safetyMaxPayload := rfl
  have hbuf : rxs.buf.toList.length = safetyMaxFrameSize := Vector.length_toList
  have hreceived : rxs.received.length = safetyHeaderSize + rxs.payloadLen.toNat := by
    rw [received, List.length_take]
    omega
  have hhdr : SafetyFrameHeader.ofBytes rxs.received = .ofBytes rxs.buf.toList :=
    ofBytes_take (by omega) (by omega)
  have hdrop : (rxs.buf.toList.drop safetyHeaderSize).take rxs.payloadLen.toNat =
      rxs.received.drop safetyHeaderSize := by
    rw [received, List.drop_take, hgot, Nat.add_sub_cancel_left]
  have htake : (rxs.received.drop safetyHeaderSize).take rxs.payloadLen.toNat =
      rxs.received.drop safetyHeaderSize :=
    List.take_of_length_le (by rw [List.length_drop]; omega)
  have hview : (frameComplete rxs.view).2 =
      if safetyFrameValidate rxs.received = .ok then
        [⟨.ofBytes rxs.received,
          (rxs.received.drop safetyHeaderSize).take rxs.payloadLen.toNat⟩]
      else [] := rfl
  refine ⟨rfl, ?_, rfl, ?_⟩
  · intro a ha
    rw [complete, hdrop] at ha
    split at ha
    · rename_i hok
      obtain rfl := List.mem_singleton.mp ha
      exact ⟨hok, by rw [hreceived, hlen], hhdr.symm, rfl⟩
    · cases ha
  · rw [hview, htake, hhdr, complete, hdrop]
    split
    · rfl
    · rfl

theorem refines_huntMagicLo (b : U8) (hphase : rxs.phase = .huntMagicLo)
    (h : rxs.got.toNat = 0) : Refines (rxs.feedByte b) (rxFeedByte rxs.view b) := by
  have hview : rxs.view.phase = .huntMagicLo := hphase
  simp only [feedByte, rxFeedByte, hphase, hview]
  by_cases hb : b = magicLo
  · rw [if_pos hb, if_pos hb]
    refine ⟨rfl, fun a ha => ?_, ?_, rfl⟩
    · obtain rfl := List.mem_singleton.mp ha
      exact (by decide : 0 < safetyMaxFrameSize)
    · exact congrArg (RxState.mk _ · _ _) (received_store b rfl (by decide))
  · rw [if_neg hb, if_neg hb]
    refine ⟨?_, fun a ha => (List.not_mem_nil ha).elim, rfl, rfl⟩
    rwa [Counted, hphase]

theorem refines_huntMagicHi (b : U8) (hphase : rxs.phase = .huntMagicHi)
    (h : rxs.got.toNat = 1) : Refines (rxs.feedByte b) (rxFeedByte rxs.view b) := by
  have hview : rxs.view.phase = .huntMagicHi := hphase
  have hone : rxs.received = rxs.buf.toList.take 1 := congrArg rxs.buf.toList.take h
  simp only [feedByte, rxFeedByte, hphase, hview]
  by_cases hhi : b = magicHi
  · rw [if_pos hhi, if_pos hhi]
    refine ⟨⟨Nat.le_refl 2, (by decide : 1 ≤ 14), rfl⟩, fun a ha => ?_, ?_, rfl⟩
    · obtain rfl := List.mem_singleton.mp ha
      exact (by decide : 1 < safetyMaxFrameSize)
    · have hbuf : (rxs.store 1 b).buf.toList.take 2 = rxs.received ++ [b] := by
        rw [hone]
        exact received_store b rfl (by decide)
      exact congrArg (RxState.mk _ · _ _) hbuf
  rw [if_neg hhi, if_neg hhi]
  by_cases hlo : b = magicLo
  · rw [if_pos hlo, if_pos hlo]
    refine ⟨?_, fun a ha => ?_, ?_, rfl⟩
    · rw [Counted, store, hphase]
      rfl
    · obtain rfl := List.mem_singleton.mp ha
      exact (by decide : 0 < safetyMaxFrameSize)
    · have hbuf : (rxs.store 0 b).buf.toList.take 1 = [b] :=
        received_store b rfl (by decide)
      rw [view, store, hphase]
      exact congrArg (RxState.mk _ · _ _) hbuf
  · rw [if_neg hlo, if_neg hlo]
    exact ⟨rfl, fun a ha => (List.not_mem_nil ha).elim, rfl, rfl⟩

theorem need_eq_zero_iff {need : BitVec 64} : need = 0 ↔ need.toNat = 0 :=
  BitVec.toNat_eq

theorem refines_header (b : U8) (hphase : rxs.phase = .header) (htwo : 2 ≤ rxs.got.toNat)
    (hneed : 1 ≤ rxs.need.toNat) (hsum : rxs.got.toNat + rxs.need.toNat = safetyHeaderSize) :
    Refines (rxs.feedByte b) (rxFeedByte rxs.view b) := by
  have h16 : safetyHeaderSize = 16 := rfl
  have h272 : safetyMaxFrameSize = 272 := rfl
  have hgot : rxs.got.toNat < safetyMaxFrameSize := by omega
  have hview : rxs.view.phase = .header := hphase
  have hgot' := push_got b hgot
  have hneed' : rxs.view.need - 1 = (rxs.push b).need.toNat := (push_need b hneed).symm
  have hbuf : rxs.view.buf ++ [b] = (rxs.push b).received := (received_push b hgot).symm
  have hsound := sound_pushed hneed hgot
  simp only [feedByte, rxFeedByte, hphase, hview, hneed', hbuf]
  by_cases hlast : (rxs.push b).need.toNat = 0
  · -- the sixteenth byte: the buffer holds a whole header
    have hwhole : (rxs.push b).got.toNat = safetyHeaderSize := by
      have : rxs.view.need = rxs.need.toNat := rfl
      omega
    have hhdr : SafetyFrameHeader.ofBytes (rxs.push b).received =
        .ofBytes (rxs.push b).buf.toList :=
      ofBytes_take (Nat.le_of_eq hwhole.symm) (by rw [Vector.length_toList]; omega)
    rw [if_pos (need_eq_zero_iff.mpr hlast), if_pos hlast, hhdr]
    generalize hlen : (SafetyFrameHeader.ofBytes (rxs.push b).buf.toList).payloadLength = len
    by_cases hlong : len.toNat > safetyMaxPayload
    · rw [if_pos hlong, if_pos hlong]
      exact ⟨rfl, hsound, rfl, rfl⟩
    rw [if_neg hlong, if_neg hlong]
    by_cases hempty : len = 0
    · rw [if_pos hempty, if_pos hempty]
      have hcomplete := @refines_complete { rxs.push b with payloadLen := len }
        (Nat.le_of_not_lt hlong) (by rw [hempty]; exact hwhole) hlen
      exact hcomplete.push hneed hgot
    · rw [if_neg hempty, if_neg hempty]
      have hpos : len.toNat ≠ 0 := fun h => hempty (BitVec.eq_of_toNat_eq h)
      have hwide : (len.setWidth 64).toNat = len.toNat :=
        BitVec.toNat_setWidth_of_le (by decide)
      refine ⟨?_, hsound, ?_, rfl⟩
      · simp only [Counted, hwide]
        refine ⟨Nat.le_of_eq hwhole.symm, by omega, by omega, by omega, by omega, hlen⟩
      · rw [view, hwide]
        rfl
  · rw [if_neg fun h => hlast (need_eq_zero_iff.mp h), if_neg hlast]
    refine ⟨?_, hsound, ?_, rfl⟩
    · have hkeep : (rxs.push b).phase = .header := hphase
      simp only [Counted, hkeep]
      have : rxs.view.need = rxs.need.toNat := rfl
      omega
    · have hkeep : (rxs.push b).phase = .header := hphase
      rw [view, hkeep]
      rfl

theorem refines_payload (b : U8) (hphase : rxs.phase = .payload) (h : rxs.Counted) :
    Refines (rxs.feedByte b) (rxFeedByte rxs.view b) := by
  rw [Counted, hphase] at h
  obtain ⟨hheader, hneed, hsum, hpos, hfits, hlen⟩ := h
  have h272 : safetyMaxFrameSize = safetyHeaderSize + safetyMaxPayload := rfl
  have hgot : rxs.got.toNat < safetyMaxFrameSize := by omega
  have hview : rxs.view.phase = .payload := hphase
  have hgot' := push_got b hgot
  have hneed' : rxs.view.need - 1 = (rxs.push b).need.toNat := (push_need b hneed).symm
  have hbuf : rxs.view.buf ++ [b] = (rxs.push b).received := (received_push b hgot).symm
  have hlen' : (SafetyFrameHeader.ofBytes (rxs.push b).buf.toList).payloadLength =
      rxs.payloadLen := by
    rw [← hlen]
    exact congrArg SafetyFrameHeader.payloadLength (header_store b hheader)
  have hkeep : (rxs.push b).phase = .payload := hphase
  have hneedView : rxs.view.need = rxs.need.toNat := rfl
  simp only [feedByte, rxFeedByte, hphase, hview, hneed', hbuf]
  by_cases hlast : (rxs.push b).need.toNat = 0
  · rw [if_pos (need_eq_zero_iff.mpr hlast), if_pos hlast]
    have hwhole : (rxs.push b).got.toNat = safetyHeaderSize + rxs.payloadLen.toNat := by omega
    have hcomplete := @refines_complete (rxs.push b) hfits hwhole hlen'
    exact hcomplete.push hneed hgot
  · rw [if_neg fun h => hlast (need_eq_zero_iff.mp h), if_neg hlast]
    refine ⟨?_, sound_pushed hneed hgot, ?_, rfl⟩
    · have hpayloadLen : (rxs.push b).payloadLen = rxs.payloadLen := rfl
      simp only [Counted, hkeep, hpayloadLen]
      exact ⟨by omega, by omega, by omega, hpos, hfits, hlen'⟩
    · rw [view, hkeep]
      rfl

/-- Every byte, in every state the counters can be in. -/
theorem refines_feedByte (h : rxs.Counted) (b : U8) :
    Refines (rxs.feedByte b) (rxFeedByte rxs.view b) := by
  have hcounted := h
  cases hphase : rxs.phase with
  | huntMagicLo =>
      rw [Counted, hphase] at h
      exact refines_huntMagicLo b hphase h
  | huntMagicHi =>
      rw [Counted, hphase] at h
      exact refines_huntMagicHi b hphase h
  | header =>
      rw [Counted, hphase] at h
      exact refines_header b hphase h.1 h.2.1 h.2.2
  | payload => exact refines_payload b hphase hcounted

/-! ### Every stream -/

theorem refines_feed (h : rxs.Counted) (bytes : List U8) :
    Refines (Machine.after feedByte rxs bytes, Machine.outputs feedByte rxs bytes)
      (rxFeed rxs.view bytes) := by
  induction bytes generalizing rxs with
  | nil => exact ⟨h, fun a ha => (List.not_mem_nil ha).elim, rfl, rfl⟩
  | cons b bytes ih =>
      have hbyte := refines_feedByte h b
      have hrest := ih hbyte.counted
      rw [hbyte.state] at hrest
      refine ⟨hrest.counted, fun a ha => ?_, hrest.state, ?_⟩
      · obtain ha | ha := List.mem_append.mp ha
        · exact hbyte.sound a ha
        · exact hrest.sound a ha
      · rw [Machine.outputs_cons, List.flatMap_append, hbyte.messages, hrest.messages, rxFeed_cons]

/-- Over its memory the receiver ends where `rxFeed` ends and posts what it posts. -/
theorem feed_eq_rxFeed (rxs : RxMemory) (bytes : List U8) :
    rxFeed rxReset bytes =
      ((Machine.after feedByte rxs.reset bytes).view,
        (Machine.outputs feedByte rxs.reset bytes).flatMap RxAccess.message) := by
  have hfeed := refines_feed rxs.counted_reset bytes
  rw [view_reset] at hfeed
  rw [hfeed.state, hfeed.messages]

theorem feed_safe (rxs : RxMemory) (bytes : List U8) :
    let accesses := Machine.outputs feedByte rxs.reset bytes
    let rxs := Machine.after feedByte rxs.reset bytes
    (∀ index, .stored index ∈ accesses → index.toNat < 272) ∧
    (∀ need, .decremented need ∈ accesses → 1 ≤ need.toNat) ∧
    (rxs.phase = .header → rxs.got.toNat + rxs.need.toNat = 16) ∧
    (rxs.phase = .payload →
      rxs.got.toNat + rxs.need.toNat = 16 + rxs.payloadLen.toNat ∧
        1 ≤ rxs.payloadLen.toNat ∧ rxs.payloadLen.toNat ≤ 256) ∧
    ∀ checked msg, .posted checked msg ∈ accesses →
      safetyFrameValidate checked = .ok ∧ checked.length = 16 + msg.hdr.payloadLength.toNat ∧
        msg.hdr = .ofBytes checked ∧ msg.payload = checked.drop 16 := by
  have hfeed := refines_feed rxs.counted_reset bytes
  have hcounted : (Machine.after feedByte rxs.reset bytes).Counted := hfeed.counted
  refine ⟨fun index h => hfeed.sound _ h, fun need h => hfeed.sound _ h, fun hphase => ?_,
    fun hphase => ?_, fun checked msg h => hfeed.sound _ h⟩
  · rw [Counted, hphase] at hcounted
    exact hcounted.2.2
  · rw [Counted, hphase] at hcounted
    obtain ⟨-, -, hsum, hpos, hfits, -⟩ := hcounted
    exact ⟨hsum, hpos, hfits⟩

/-- An ACK without payload. -/
theorem feed_safe_ack :
    let bytes : List U8 :=
      [0x46, 0x53, 1, 5, 0, 0, 0, 0, 0, 0, 0, 0, 0x65, 0x08, 0x90, 0x8E]
    RxAccess.posted bytes ⟨.ofBytes bytes, []⟩ ∈
        Machine.outputs feedByte ({} : RxMemory).reset bytes ∧
      safetyFrameValidate bytes = .ok := by
  intro bytes
  have hposted : RxAccess.posted bytes ⟨.ofBytes bytes, []⟩ ∈
      Machine.outputs feedByte ({} : RxMemory).reset bytes := by decide +kernel
  exact ⟨hposted, ((feed_safe {} bytes).2.2.2.2 _ _ hposted).1⟩

end RxMemory
end SafetyCopro
