import SafetyCopro.System.Duplex

/-!
When a `NACK` is sent over intact streams. The supervisor never has cause to,
and the firmware answers every frame that is no command with one. The
supervisor's `ACK`s are such frames.
-/

namespace SafetyCopro

namespace Duplex

/-- The command handler takes a frame that is no command. -/
def TakesStray (d : Duplex) : DuplexAction → Prop
  | .task t _ => ∃ m ∈ d.firmware.takes t, m.hdr.type ≠ safetyFrameCommand
  | _ => False

instance (d : Duplex) : (a : DuplexAction) → Decidable (d.TakesStray a)
  | .task _ _ => inferInstanceAs (Decidable (∃ m ∈ _, _))
  | .inject _ | .receive _ | .read _ | .frame | .heartbeatTimeout _ | .drain | .worker _ _ =>
      .isFalse id

/-- No `NACK` is about to be sent, and no byte on the way can lead to one. -/
structure Sound (d : Duplex) : Prop where
  tx : d.firmware.TxSound
  ops : ∀ t, ∀ op ∈ d.firmware.ops t, ¬ op.IsNack
  msgq : ∀ m ∈ d.firmware.rxMsgq, Welcome m
  inbox : ∀ f ∈ d.inbox, f.ok
  up : Upstream d.buf (d.up ++ d.firmware.remaining)
  down : Downstream d.firmware.rxs d.down

theorem sound_init : Sound {} where
  tx := Firmware.txSound_init
  ops := nofun
  msgq := nofun
  inbox := nofun
  up := ⟨[], rfl, nofun⟩
  down := ⟨[], rfl, nofun⟩

variable {deadlineMs : U32} {d : Duplex}

theorem Sound.task (h : d.Sound) {t : Task} {nowMs : U32}
    (hstray : ¬ d.TakesStray (.task t nowMs)) :
    (d.firmwareStep (d.firmware.run t nowMs)).1.Sound := by
  obtain ⟨htx, new, hnew, hstream⟩ := h.tx.run t nowMs
  refine ⟨htx, fun t' op hop hnack => ?_, fun m hm => h.msgq m (Firmware.mem_run_rxMsgq hm),
    h.inbox, ?_, ?_⟩
  · obtain hop | ⟨m, htakes, hop⟩ := Firmware.nack_of_mem_run_ops hop hnack
    · exact h.ops t' op hop hnack
    · have hcommand : m.hdr.type = safetyFrameCommand := by
        by_contra hne
        exact hstray ⟨m, htakes, hne⟩
      exact h.msgq m (Firmware.mem_of_takes htakes) hcommand op hop hnack
  · have hbytes : d.up ++ pollOuts (d.firmware.run t nowMs).2 ++
        (d.firmware.run t nowMs).1.remaining = d.up ++ d.firmware.remaining ++ new := by
      rw [List.append_assoc, hstream, List.append_assoc]
    rw [firmwareStep]
    dsimp only
    rw [hbytes]
    obtain rfl | hpacked := hnew
    · rw [List.append_nil]
      exact h.up
    · exact h.up.append hpacked
  · rw [firmwareStep]
    dsimp only
    rw [Firmware.run_rxs]
    exact h.down

theorem Sound.supervisorStep (h : d.Sound) {a : LiveAction} (hok : ∀ f, a = .frame f → f.ok) :
    (d.supervisorStep (d.supervisor.step deadlineMs a)).1.Sound := by
  refine ⟨h.tx, h.ops, h.msgq, h.inbox, h.up, h.down.flatten fun frame hframe => ?_⟩
  exact Supervisor.hostFrame_of_sendOut hok (mem_sendOuts.mp hframe)

theorem Sound.step (h : d.Sound) {a : DuplexAction} (hstray : ¬ d.TakesStray a) :
    (d.step deadlineMs a).1.Sound := by
  cases a with
  | task t nowMs => exact h.task hstray
  | inject flag => exact ⟨h.tx.congr rfl rfl, h.ops, h.msgq, h.inbox, h.up, h.down⟩
  | receive n =>
      have hdown := h.down
      rw [← List.take_append_drop n d.down] at hdown
      obtain ⟨hposted, hrest⟩ := hdown.receive
      refine ⟨h.tx.congr rfl rfl, h.ops, fun m hm => ?_, h.inbox, h.up, hrest⟩
      obtain hm | hm := Firmware.mem_foldl_msgqPut hm
      · exact h.msgq m hm
      · exact hposted m hm
  | read n =>
      rw [Duplex.step]
      split
      · have hup := h.up
        rw [← List.take_append_drop n d.up, List.append_assoc] at hup
        obtain ⟨hread, hrest⟩ := hup.read
        exact ⟨h.tx, h.ops, h.msgq, hread, hrest, h.down⟩
      · exact h
  | frame =>
      rw [Duplex.step]
      split
      · exact h
      · rename_i f fs hinbox
        have hok : ∀ f' ∈ f :: fs, f'.ok := hinbox ▸ h.inbox
        have hrest : Sound { d with inbox := fs } :=
          ⟨h.tx, h.ops, h.msgq, fun f' hf' => hok f' (List.mem_cons_of_mem _ hf'), h.up, h.down⟩
        refine hrest.supervisorStep fun f' hf' => ?_
        obtain rfl := LiveAction.frame.inj hf'
        exact hok f List.mem_cons_self
  | heartbeatTimeout nowMs =>
      rw [Duplex.step]
      split
      · exact h.supervisorStep nofun
      · exact h
  | drain =>
      rw [Duplex.step]
      split
      · exact h.supervisorStep nofun
      · exact h
  | worker nowMs sent => exact h.supervisorStep nofun

theorem Sound.firmware_not_nack (h : d.Sound) (t : Task) (nowMs : U32) :
    ∀ sent ∈ (d.firmwareStep (d.firmware.run t nowMs)).2, ¬ sent.IsNack := by
  intro sent hsent
  obtain ⟨ev, hev, hsome⟩ := List.mem_filterMap.mp hsent
  cases ev with
  | sendFrame type payload =>
      obtain rfl := Option.some.inj hsome
      exact h.ops t _ (Firmware.send_mem_of_sendFrame hev)
  | pollOut b => cases hsome

theorem supervisor_not_nack {a : LiveAction} (hok : ∀ f, a = .frame f → f.ok) :
    ∀ sent ∈ (d.supervisorStep (d.supervisor.step deadlineMs a)).2, ¬ sent.IsNack := by
  intro sent hsent
  obtain ⟨frame, hframe, rfl⟩ := List.mem_map.mp hsent
  exact (Supervisor.hostFrame_of_sendOut hok (mem_sendOuts.mp hframe)).type_ne_nack

theorem Sound.not_nack (h : d.Sound) (a : DuplexAction) :
    ∀ sent ∈ (d.step deadlineMs a).2, ¬ sent.IsNack := by
  cases a with
  | task t nowMs => exact h.firmware_not_nack t nowMs
  | inject flag => exact nofun
  | receive n => exact nofun
  | read n =>
      rw [Duplex.step]
      split <;> exact nofun
  | frame =>
      rw [Duplex.step]
      split
      · exact nofun
      · rename_i f fs hinbox
        refine supervisor_not_nack (d := { d with inbox := fs }) fun f' hf' => ?_
        obtain rfl := LiveAction.frame.inj hf'
        exact h.inbox f (hinbox ▸ List.mem_cons_self)
  | heartbeatTimeout nowMs =>
      rw [Duplex.step]
      split
      · exact supervisor_not_nack nofun
      · exact nofun
  | drain =>
      rw [Duplex.step]
      split
      · exact supervisor_not_nack nofun
      · exact nofun
  | worker nowMs sent => exact supervisor_not_nack nofun

/-- Neither side sends a `NACK` in a run in which the command handler takes
commands only. -/
theorem not_nack_of_no_stray (deadlineMs : U32) {acts : List DuplexAction}
    (hstray : Machine.Along (step deadlineMs) (fun d a => ¬ d.TakesStray a) {} acts) :
    ∀ sent ∈ Machine.outputs (step deadlineMs) {} acts, ¬ sent.IsNack := by
  have hrun := Machine.outputs_of_along
    (P := fun sents (d : Duplex) => d.Sound ∧ ∀ sent ∈ sents, ¬ Sent.IsNack sent)
    (fun sents d a ⟨hsound, hsents⟩ hstray => ⟨hsound.step hstray, fun sent hsent => ?_⟩)
    ⟨sound_init, nofun⟩ hstray
  · exact hrun.2
  · obtain hsent | hsent := List.mem_append.mp hsent
    · exact hsents sent hsent
    · exact hsound.not_nack a sent hsent

/-- The next step of the command handler answers a stray frame with a `NACK`. -/
theorem nack_of_takesStray {t : Task} {nowMs nowMs' : U32}
    (h : d.TakesStray (.task t nowMs)) :
    ∃ sent ∈ ((d.step deadlineMs (.task t nowMs)).1.step deadlineMs (.task t nowMs')).2,
      sent.IsNack := by
  obtain ⟨m, htakes, htype⟩ := h
  obtain ⟨hidle, hops⟩ := Firmware.run_of_takes htakes nowMs
  rw [handleFrame, if_neg htype] at hops
  have hsent := Firmware.run_send hidle hops (by decide : 4 ≤ 256) nowMs'
  refine ⟨.firmware safetyFrameNack
    (safetyNackPayloadBytes m.hdr.sequenceId safetyNackUnknownType), ?_, rfl⟩
  refine List.mem_filterMap.mpr ⟨.sendFrame safetyFrameNack _, ?_, rfl⟩
  exact hsent ▸ List.mem_singleton.mpr rfl

/-- A heartbeat of the firmware, from the head of the loop to the release of the
mutex, and its way to the event loop. -/
def heartbeatActs : List DuplexAction :=
  List.replicate 29 (.task .heartbeat 0) ++ [.read 24, .frame]

theorem not_nack_heartbeat :
    Machine.outputs (step 350) {} heartbeatActs ≠ [] ∧
    ∀ sent ∈ Machine.outputs (step 350) {} heartbeatActs, ¬ sent.IsNack :=
  ⟨by decide +kernel, not_nack_of_no_stray 350 (by decide +kernel)⟩

/-- The firmware answers the supervisor's `ACK` of its first heartbeat with a
`NACK`. -/
theorem nack_of_ack :
    ∃ sent ∈ Machine.outputs (step 350) {}
      (heartbeatActs ++ [.receive 20, .task .commandHandler 0, .task .commandHandler 0]),
      sent.IsNack := by
  decide +kernel

end Duplex

end SafetyCopro
