import SafetyCopro.Supervisor.EventLoop

/-!
Corrupt and repeated frames among those that `process_frames` is given. They
write log lines and NACKs, and a NACK takes a number of `tx_seq_`; but neither
the machine nor the set of accepted keys notices them, so every other frame is
treated as if they were not there.
-/

namespace SafetyCopro

namespace Effect

/-- A call on the heartbeat timer or on the recovery worker. -/
def signal : Effect → Option Effect
  | .armHeartbeatTimer => some .armHeartbeatTimer
  | .requestRecovery seq nowMs => some (.requestRecovery seq nowMs)
  | .notifyHeartbeatRestored nowMs => some (.notifyHeartbeatRestored nowMs)
  | _ => none

/-- The number that a frame sent out acknowledges, if it is an `ACK`. -/
def acked : Effect → Option U16
  | .sendOut frame =>
      let f := ParsedFrame.ofBytes frame
      if f.type = safetyFrameAck then some (u16At f.payload 0) else none
  | _ => none

end Effect

def signalsOf (effs : List Effect) : List Effect := effs.filterMap Effect.signal
def acksOf (effs : List Effect) : List U16 := effs.filterMap Effect.acked

theorem acked_buildAck (seq : U16) (tsMs : U32) (ackedSeq : U16) :
    (Effect.sendOut (buildAck seq tsMs ackedSeq)).acked = some ackedSeq := by
  have hpayload : u16At (safetyAckPayload ackedSeq) 0 = ackedSeq := append_extract16 ackedSeq
  simp only [Effect.acked, buildAck, ofBytes_packFrame _ _ _
    (by simp [safetyAckPayload, le16, safetyMaxPayload] : (safetyAckPayload ackedSeq).length ≤ _),
    ParsedFrame.packed_type, ParsedFrame.packed_payload, if_true, hpayload]

theorem acked_buildNack (seq : U16) (tsMs : U32) (nackedSeq : U16) (reason : U8) :
    (Effect.sendOut (buildNack seq tsMs nackedSeq reason)).acked = none := by
  have hne : safetyFrameNack ≠ safetyFrameAck := by decide
  simp only [Effect.acked, buildNack, ofBytes_packFrame _ _ _
    (by simp [safetyNackPayloadBytes, le16, safetyMaxPayload] :
      (safetyNackPayloadBytes nackedSeq reason).length ≤ _),
    ParsedFrame.packed_type, if_neg hne]

/-- The frames of the second list are those of the first, with corrupt frames and
repetitions of accepted ones among them; `accepted` holds the keys accepted so
far. -/
inductive Inserted : List (U8 × U16) → List ParsedFrame → List ParsedFrame → Prop
  | nil {accepted : List (U8 × U16)} : Inserted accepted [] []
  | kept {accepted : List (U8 × U16)} {f : ParsedFrame} {fs fs' : List ParsedFrame} :
      Inserted (if f.ok then f.key :: accepted else accepted) fs fs' →
      Inserted accepted (f :: fs) (f :: fs')
  | corrupt {accepted : List (U8 × U16)} {f : ParsedFrame} {fs fs' : List ParsedFrame} :
      ¬ f.ok → Inserted accepted fs fs' → Inserted accepted fs (f :: fs')
  | repeated {accepted : List (U8 × U16)} {f : ParsedFrame} {fs fs' : List ParsedFrame} :
      f.key ∈ accepted → Inserted accepted fs fs' → Inserted accepted fs (f :: fs')

/-- The effects have the same transitions, signals and acknowledgements. -/
structure Agree (effs effs' : List Effect) : Prop where
  transitions : transitionsOf effs = transitionsOf effs'
  signals : signalsOf effs = signalsOf effs'
  acks : acksOf effs = acksOf effs'

theorem Agree.append {effs effs' more more' : List Effect} (h : Agree effs effs')
    (hmore : Agree more more') : Agree (effs ++ more) (effs' ++ more') := by
  refine ⟨?_, ?_, ?_⟩
  · rw [transitionsOf_append, transitionsOf_append, h.transitions, hmore.transitions]
  · rw [signalsOf, signalsOf, List.filterMap_append, List.filterMap_append]
    exact congrArg₂ (· ++ ·) h.signals hmore.signals
  · rw [acksOf, acksOf, List.filterMap_append, List.filterMap_append]
    exact congrArg₂ (· ++ ·) h.acks hmore.acks

theorem Agree.refl (effs : List Effect) : Agree effs effs := ⟨rfl, rfl, rfl⟩

theorem Agree.symm {effs effs' : List Effect} (h : Agree effs effs') : Agree effs' effs :=
  ⟨h.transitions.symm, h.signals.symm, h.acks.symm⟩

theorem Agree.trans {effs effs' effs'' : List Effect} (h : Agree effs effs')
    (h' : Agree effs' effs'') : Agree effs effs'' :=
  ⟨h.transitions.trans h'.transitions, h.signals.trans h'.signals, h.acks.trans h'.acks⟩

/-- Effects that none of the three shows. -/
theorem agree_nil {effs : List Effect} (hcall : ∀ eff ∈ effs, eff.call = none)
    (hsignal : ∀ eff ∈ effs, eff.signal = none) (hacked : ∀ eff ∈ effs, eff.acked = none) :
    Agree [] effs := by
  refine ⟨?_, (List.filterMap_eq_nil_iff.mpr hsignal).symm,
    (List.filterMap_eq_nil_iff.mpr hacked).symm⟩
  rw [transitionsOf, transitionsOf, callsOf, callsOf, List.filterMap_eq_nil_iff.mpr hcall]
  rfl

/-- The number of the `ACK` itself does not show. -/
theorem agree_buildAck (seq seq' : U16) (tsMs : U32) (ackedSeq : U16) :
    Agree [.sendOut (buildAck seq tsMs ackedSeq)] [.sendOut (buildAck seq' tsMs ackedSeq)] := by
  have hsilent : ∀ frame, transitionsOf [.sendOut frame] = [] ∧ signalsOf [.sendOut frame] = [] :=
    fun frame => ⟨rfl, rfl⟩
  refine ⟨?_, ?_, ?_⟩
  · rw [(hsilent _).1, (hsilent _).1]
  · rw [(hsilent _).2, (hsilent _).2]
  · rw [acksOf, acksOf, List.filterMap_cons, List.filterMap_cons, acked_buildAck, acked_buildAck]

namespace EventLoop

/-- Equal but for `tx_seq_`. -/
structure Similar (el el' : EventLoop) : Prop where
  fsm : el.fsm = el'.fsm
  dup : el.dup = el'.dup

variable {el el' : EventLoop} {f : ParsedFrame}

theorem Similar.dispatch (h : el.Similar el') (f : ParsedFrame) :
    (el.dispatch f).1.Similar (el'.dispatch f).1 ∧ Agree (el.dispatch f).2 (el'.dispatch f).2 := by
  obtain ⟨fsm, dup, txSeq⟩ := el
  obtain ⟨fsm', dup', txSeq'⟩ := el'
  obtain ⟨rfl, rfl⟩ : fsm = fsm' ∧ dup = dup' := ⟨h.fsm, h.dup⟩
  unfold EventLoop.dispatch onFaultEvent onHeartbeat
  split
  · refine ⟨⟨rfl, rfl⟩, ?_⟩
    exact (Agree.refl _).append ((agree_buildAck txSeq txSeq' f.tsMs f.seq).append (.refl [_]))
  split
  · split
    · exact ⟨⟨rfl, rfl⟩, rfl, rfl, rfl⟩
    split <;> exact ⟨⟨rfl, rfl⟩, rfl, rfl, rfl⟩
  · exact ⟨⟨rfl, rfl⟩, rfl, rfl, rfl⟩

theorem Similar.symm (h : el.Similar el') : el'.Similar el := ⟨h.fsm.symm, h.dup.symm⟩

theorem Similar.trans {el'' : EventLoop} (h : el.Similar el') (h' : el'.Similar el'') :
    el.Similar el'' := ⟨h.fsm.trans h'.fsm, h.dup.trans h'.dup⟩

/-- A corrupt frame is logged and refused with a NACK. -/
theorem corrupt_ignored (el : EventLoop) (hok : ¬ f.ok) :
    el.Similar (el.processFrame f).1 ∧ Agree [] (el.processFrame f).2 := by
  rw [processFrame_of_not_ok hok, rejectFrame]
  refine ⟨⟨rfl, rfl⟩, agree_nil ?_ ?_ ?_⟩
  · simp [Effect.call]
  · simp [Effect.signal]
  · simp only [List.forall_mem_cons, acked_buildNack]
    exact ⟨rfl, trivial, rfl, List.forall_mem_nil _⟩

/-- A repeated frame is logged, or refused if it is corrupt on top. -/
theorem repeated_ignored (hseen : f.key ∈ el.dup.seen) :
    el.Similar (el.processFrame f).1 ∧ Agree [] (el.processFrame f).2 := by
  by_cases hok : f.ok
  · rw [processFrame_of_seen hok hseen]
    exact ⟨⟨rfl, rfl⟩, rfl, rfl, rfl⟩
  · exact el.corrupt_ignored hok

/-- A frame does the same to loops that are similar. -/
theorem Similar.processFrame (h : el.Similar el') (f : ParsedFrame) :
    (el.processFrame f).1.Similar (el'.processFrame f).1 ∧
      Agree (el.processFrame f).2 (el'.processFrame f).2 := by
  obtain hok | ⟨hok, hseen⟩ | hacc := el.frame_cases f
  · obtain ⟨hsimilar, hagree⟩ := el.corrupt_ignored hok
    obtain ⟨hsimilar', hagree'⟩ := el'.corrupt_ignored hok
    exact ⟨hsimilar.symm.trans (h.trans hsimilar'), hagree.symm.trans hagree'⟩
  · rw [processFrame_of_seen hok hseen, processFrame_of_seen hok (h.dup ▸ hseen)]
    exact ⟨h, .refl _⟩
  · have hacc' : el'.Accepts f := ⟨hacc.1, h.dup ▸ hacc.2⟩
    rw [processFrame_of_accepts hacc, processFrame_of_accepts hacc']
    have hrecord : (el.record f).Similar (el'.record f) := ⟨h.fsm, by rw [record, record, h.dup]⟩
    obtain ⟨hsimilar, hagree⟩ := hrecord.dispatch f
    exact ⟨hsimilar, (Agree.refl [.log (rxFrameEvent f)]).append hagree⟩

theorem agree_of_inserted {accepted : List (U8 × U16)} {frames frames' : List ParsedFrame}
    (h : Inserted accepted frames frames') (haccepted : ∀ k, k ∈ accepted ↔ k ∈ el.dup.seen)
    (hsimilar : el.Similar el') :
    Agree (Machine.outputs EventLoop.processFrame el frames)
      (Machine.outputs EventLoop.processFrame el' frames') := by
  induction h generalizing el el' with
  | nil => exact .refl []
  | @kept accepted f frames frames' h ih =>
      obtain ⟨hnext, hagree⟩ := hsimilar.processFrame f
      refine hagree.append (ih (fun k => ?_) hnext)
      rw [mem_processFrame_seen, ← haccepted]
      split
      · rename_i hok
        simp [hok, or_comm]
      · rename_i hok
        simp [hok]
  | corrupt hok h ih =>
      obtain ⟨hnext, hagree⟩ := el'.corrupt_ignored hok
      exact hagree.append (ih haccepted (hsimilar.trans hnext))
  | repeated hkey h ih =>
      have hseen := (haccepted _).mp hkey
      rw [hsimilar.dup] at hseen
      obtain ⟨hnext, hagree⟩ := repeated_ignored hseen
      exact hagree.append (ih haccepted (hsimilar.trans hnext))

/-- Corrupt frames and repetitions of accepted ones, anywhere and any number of
them, change no transition, no call on the timer or the worker and no
acknowledged number. -/
theorem processFrames_inserted (el : EventLoop) {frames frames' : List ParsedFrame}
    (h : Inserted el.dup.seen frames frames') :
    transitionsOf (Machine.outputs EventLoop.processFrame el frames) =
        transitionsOf (Machine.outputs EventLoop.processFrame el frames') ∧
      signalsOf (Machine.outputs EventLoop.processFrame el frames) =
        signalsOf (Machine.outputs EventLoop.processFrame el frames') ∧
      acksOf (Machine.outputs EventLoop.processFrame el frames) =
        acksOf (Machine.outputs EventLoop.processFrame el frames') := by
  have hagree := agree_of_inserted h (fun _ => Iff.rfl) ⟨rfl, rfl⟩
  exact ⟨hagree.transitions, hagree.signals, hagree.acks⟩

/-- A corrupt frame in front of a heartbeat, and the heartbeat twice. -/
theorem processFrames_inserted_two :
    let hb := ParsedFrame.packed safetyFrameHeartbeat 1 0 []
    let bad : ParsedFrame := { hb with validateResult := .badChecksum }
    Inserted [] [hb] [bad, hb, hb] ∧
      acksOf (Machine.outputs EventLoop.processFrame {} [hb]) =
        acksOf (Machine.outputs EventLoop.processFrame {} [bad, hb, hb]) :=
  have h := .corrupt (by decide) (.kept (.repeated (by decide) .nil))
  ⟨h, (processFrames_inserted {} h).2.2⟩

end EventLoop

end SafetyCopro
