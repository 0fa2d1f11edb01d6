import SafetyCopro.Firmware.Operations

/-!
Leaving safe mode. The command handler clears the flags one after the other; the
fault monitor reads a flag, sends its event and sets safe mode only then. What
an acknowledged recovery promises hangs on what the monitor still has to do when
the handler clears safe mode.
-/

namespace SafetyCopro

namespace Firmware

variable {fw : Firmware} {t : Task} {nowMs : U32}

/-- No fault is injected, and the monitor is not about to set safe mode. -/
structure Settled (fw : Firmware) : Prop where
  flags : ∀ flag, fw.faults.get flag = false
  monitor : .store .inSafeMode true ∉ fw.ops .faultMonitor

theorem Settled.run (h : fw.Settled) (howned : fw.Owned) (ht : t ≠ .commandHandler) :
    (fw.run t nowMs).1.Settled := by
  refine ⟨fun flag => ?_, fun hmem => ?_⟩
  · obtain hget | ⟨-, hmem⟩ := @Owned.run_get _ _ nowMs howned ht flag
    · rw [hget, h.flags flag]
    · exact absurd hmem h.monitor
  · obtain hmem | hcritical := store_mem_run hmem
    · exact h.monitor hmem
    · rw [h.flags] at hcritical
      cases hcritical

/-- A recovery that is still being handled: a flag is clear or will be cleared,
and once safe mode is cleared all is settled. -/
structure Clearing (fw : Firmware) : Prop where
  flags : ∀ flag, .store flag false ∈ fw.ops .commandHandler ∨ fw.faults.get flag = false
  settled : .store .inSafeMode false ∈ fw.ops .commandHandler ∨ fw.Settled

theorem Clearing.run (h : fw.Clearing) (howned : fw.Owned) (ht : t ≠ .commandHandler) :
    (fw.run t nowMs).1.Clearing := by
  have hops := @run_ops_of_ne fw t nowMs _ (Ne.symm ht)
  constructor
  · intro flag
    rw [hops]
    obtain hget | ⟨rfl, hmem⟩ := @Owned.run_get _ _ nowMs howned ht flag
    · rw [hget]
      exact h.flags flag
    · exact Or.inl (h.settled.resolve_right fun hsettled => hsettled.monitor hmem)
  · rw [hops]
    exact h.settled.imp_right fun hsettled => hsettled.run howned ht

/-- A step that sets no flag. -/
theorem Settled.clear {fw' : Firmware} (h : fw.Settled)
    (hget : ∀ flag, fw'.faults.get flag = fw.faults.get flag ∨ fw'.faults.get flag = false)
    (hmonitor : fw'.ops .faultMonitor = fw.ops .faultMonitor) : fw'.Settled := by
  refine ⟨fun flag => ?_, hmonitor ▸ h.monitor⟩
  obtain hget | hget := hget flag
  · rw [hget, h.flags]
  · exact hget

/-- The handler does an operation of a recovery. -/
theorem Clearing.clear {fw' : Firmware} {op : TaskOp} {rest : List TaskOp} (h : fw.Clearing)
    (hops : fw.ops .commandHandler = op :: rest)
    (hget : ∀ flag, fw'.faults.get flag = fw.faults.get flag ∨ fw'.faults.get flag = false)
    (hmonitor : fw'.ops .faultMonitor = fw.ops .faultMonitor)
    (hrest : ∀ op' ∈ rest, op' ∈ fw'.ops .commandHandler)
    (hdone : ∀ flag, op = .store flag false → fw'.faults.get flag = false)
    (hlast : op = .store .inSafeMode false →
      (∀ op' ∈ rest, ¬ op'.IsStore) ∧ .store .inSafeMode true ∉ fw.ops .faultMonitor) :
    fw'.Clearing := by
  obtain ⟨hflags, hsettled⟩ := h
  rw [hops] at hflags hsettled
  have hflag : ∀ flag, .store flag false ∈ rest ∨ fw'.faults.get flag = false := by
    intro flag
    obtain hmem | hclear := hflags flag
    · obtain rfl | hmem := List.mem_cons.mp hmem
      · exact Or.inr (hdone flag rfl)
      · exact Or.inl hmem
    · obtain hget | hget := hget flag
      · exact Or.inr (hget.trans hclear)
      · exact Or.inr hget
  refine ⟨fun flag => (hflag flag).imp_left (hrest _), ?_⟩
  obtain hmem | hsettled := hsettled
  · obtain rfl | hmem := List.mem_cons.mp hmem
    · obtain ⟨hstores, hnot⟩ := hlast rfl
      refine Or.inr ⟨fun flag => (hflag flag).resolve_left fun hmem => ?_, hmonitor ▸ hnot⟩
      exact hstores _ hmem trivial
    · exact Or.inl (hrest _ hmem)
  · exact Or.inr (hsettled.clear hget hmonitor)

/-- The heartbeat task, with no more than `n` steps to go until it sends. -/
def BeatsIn (fw : Firmware) (n : Nat) : Prop :=
  fw.tx .heartbeat = .idle ∧
    (n = 3 ∧ fw.ops .heartbeat = [] ∨ n = 2 ∧ fw.ops .heartbeat = [.beat false] ∨
      n = 1 ∧ ∃ uptimeMs beatSeq, fw.ops .heartbeat =
        [.send safetyFrameHeartbeat (safetyHeartbeatPayload uptimeMs beatSeq)])

theorem BeatsIn.other {n : Nat} (h : fw.BeatsIn n) (ht : t ≠ .heartbeat) :
    (fw.run t nowMs).1.BeatsIn n := by
  rwa [BeatsIn, run_tx_of_ne (Ne.symm ht), run_ops_of_ne (Ne.symm ht)]

theorem BeatsIn.run {n : Nat} (h : fw.BeatsIn n) (hsettled : fw.Settled) (nowMs : U32) :
    (∃ payload, .sendFrame safetyFrameHeartbeat payload ∈ (fw.run .heartbeat nowMs).2) ∨
      ∃ m, n = m + 1 ∧ (fw.run .heartbeat nowMs).1.BeatsIn m := by
  have hhang : fw.faults.injectTaskHang = false := hsettled.flags .injectTaskHang
  have hsafe : fw.faults.inSafeMode = false := hsettled.flags .inSafeMode
  obtain ⟨hidle, ⟨rfl, hops⟩ | ⟨rfl, hops⟩ | ⟨rfl, uptimeMs, beatSeq, hops⟩⟩ := h
  · refine Or.inr ⟨2, rfl, ?_, Or.inr (Or.inl ⟨rfl, ?_⟩)⟩ <;>
      simp [Firmware.run, hidle, hops, turn, hhang]
  · refine Or.inr ⟨1, rfl, ?_, Or.inr (Or.inr ⟨rfl, nowMs, fw.beatSeq, ?_⟩)⟩ <;>
      simp [Firmware.run, hidle, hops, exec, hsafe]
  · refine Or.inl ⟨safetyHeartbeatPayload uptimeMs beatSeq, ?_⟩
    rw [run_send hidle hops (by decide : 8 ≤ 256)]
    exact List.mem_singleton.mpr rfl

/-- What the handler's next operation does. -/
structure HandlerStep (fw : Firmware) (op : TaskOp) (rest : List TaskOp)
    (next : Firmware × List FirmwareEvent) : Prop where
  ordered : (next.1.ops .commandHandler).Pairwise TaskOp.Before
  stores : ∀ flag value, .store flag value ∈ next.1.ops .commandHandler → .store flag value ∈ rest
  kept : ∀ op' ∈ rest, op' ∈ next.1.ops .commandHandler
  get : ∀ flag, next.1.faults.get flag = op.stored flag (fw.faults.get flag)
  acked : next.2.any FirmwareEvent.isAck → next.1.ops .commandHandler = []

theorem handlerStep (howned : fw.Owned)
    (hordered : (fw.ops .commandHandler).Pairwise TaskOp.Before)
    (hidle : fw.tx .commandHandler = .idle) {op : TaskOp} {rest : List TaskOp}
    (hops : fw.ops .commandHandler = op :: rest) (nowMs : U32) :
    HandlerStep fw op rest (fw.run .commandHandler nowMs) := by
  have hop : op.Of .commandHandler := howned _ op (hops ▸ List.mem_cons_self)
  rw [hops] at hordered
  have hhead := (List.pairwise_cons.mp hordered).1
  rw [run_of_ops hidle hops]
  constructor <;> dsimp only <;> try rw [Function.update_self]
  case ordered => exact exec_ordered hop hordered
  case stores =>
      intro flag value hmem
      obtain hmem | hmem := List.mem_append.mp hmem
      · obtain ⟨⟨checksum, rfl⟩, -⟩ := store_mem_exec hmem
        cases hop
      · exact hmem
  case kept => exact fun op' hmem => List.mem_append_right _ hmem
  case get => exact exec_get op
  case acked =>
      intro hack
      obtain ⟨ev, hev, hisAck⟩ := List.any_eq_true.mp hack
      cases ev with
      | sendFrame type payload =>
          have hsend := sendFrame_mem_exec hev
          subst hsend
          have hrest : rest = [] := by
            refine List.eq_nil_iff_forall_not_mem.mpr fun op' hmem => ?_
            exact (hhead op' hmem).1 (beq_iff_eq.mp hisAck)
          have hdone : (fw.exec .commandHandler nowMs (.send type payload)).2.1 = [] := by
            rw [exec]
            split <;> rfl
          rw [hdone, hrest, List.append_nil]
      | pollOut b => cases hisAck

end Firmware

/-! ### What an acknowledged recovery promises -/

/-- The firmware, the frame its command handler works on, and whether a recovery
has been acknowledged with no injection handled since. -/
structure RecoveryWatch where
  fw : Firmware := {}
  serving : Option SafetyRxFrame := none
  recovered : Bool := false

namespace RecoveryWatch

def step (s : RecoveryWatch) : FirmwareInput → RecoveryWatch × List FirmwareEvent
  | .receive bytes => ({ s with fw := s.fw.receive bytes }, [])
  | .task t nowMs =>
      let (fw, evs) := s.fw.run t nowMs
      match s.fw.takes t with
      | some frame =>
          ({ fw, serving := some frame,
             recovered := s.recovered && !decide frame.IsInjection }, evs)
      | none =>
          let acked := t = .commandHandler ∧ evs.any FirmwareEvent.isAck ∧
            ∃ frame ∈ s.serving, frame.IsRecovery
          ({ s with fw, recovered := s.recovered || decide acked }, evs)

/-- The handler clears safe mode, and the monitor is about to set it again. -/
def ClearsLate (s : RecoveryWatch) : FirmwareInput → Prop
  | .task t _ =>
      t = .commandHandler ∧ s.fw.tx t = .idle ∧
        (s.fw.ops t).head? = some (.store .inSafeMode false) ∧
        .store .inSafeMode true ∈ s.fw.ops .faultMonitor
  | .receive _ => False

instance (s : RecoveryWatch) : (a : FirmwareInput) → Decidable (s.ClearsLate a)
  | .task _ _ => inferInstanceAs (Decidable (_ ∧ _ ∧ _ ∧ _))
  | .receive _ => .isFalse id

structure Sound (s : RecoveryWatch) : Prop where
  owned : s.fw.Owned
  ordered : (s.fw.ops .commandHandler).Pairwise TaskOp.Before
  injecting : ∀ flag, .store flag true ∈ s.fw.ops .commandHandler →
    s.recovered = false ∧ ∃ frame ∈ s.serving, frame.IsInjection
  clearing : ∀ frame ∈ s.serving, frame.IsRecovery → s.fw.Clearing
  recovered : s.recovered = true → s.fw.Settled

theorem sound_init : Sound {} := ⟨nofun, .nil, nofun, nofun, nofun⟩

variable {s : RecoveryWatch}

theorem Sound.receive (h : s.Sound) (bytes : List U8) :
    Sound { s with fw := s.fw.receive bytes } := by
  refine ⟨h.owned, h.ordered, h.injecting, fun frame hframe hrecovery => ?_, fun hrec => ?_⟩
  · obtain ⟨hflags, hsettled⟩ := h.clearing frame hframe hrecovery
    exact ⟨hflags, hsettled.imp_right fun hsettled => ⟨hsettled.flags, hsettled.monitor⟩⟩
  · exact ⟨(h.recovered hrec).flags, (h.recovered hrec).monitor⟩

theorem step_of_takes_none {t : Task} {nowMs : U32} (h : s.fw.takes t = none) :
    (s.step (.task t nowMs)).1 =
      { s with
        fw := (s.fw.run t nowMs).1
        recovered := s.recovered || decide (t = .commandHandler ∧
          (s.fw.run t nowMs).2.any FirmwareEvent.isAck ∧
          ∃ frame ∈ s.serving, frame.IsRecovery) } := by
  rw [step, h]

/-- A step in which nothing is acknowledged. -/
theorem step_quiet {t : Task} {nowMs : U32} (h : s.fw.takes t = none)
    (hack : ¬ (t = .commandHandler ∧ (s.fw.run t nowMs).2.any FirmwareEvent.isAck)) :
    (s.step (.task t nowMs)).1 = { s with fw := (s.fw.run t nowMs).1 } := by
  rw [step_of_takes_none h, decide_eq_false fun hat => hack ⟨hat.1, hat.2.1⟩, Bool.or_false]

theorem Sound.other (h : s.Sound) {t : Task} (ht : t ≠ .commandHandler) (nowMs : U32) :
    (s.step (.task t nowMs)).1.Sound := by
  have hops := @Firmware.run_ops_of_ne s.fw t nowMs _ (Ne.symm ht)
  rw [step_quiet (Firmware.takes_of_ne ht) fun hat => ht hat.1]
  refine ⟨h.owned.run t nowMs, ?_, ?_, fun frame hframe hrecovery => ?_, fun hrec => ?_⟩
  · dsimp only
    rw [hops]
    exact h.ordered
  · dsimp only
    rw [hops]
    exact h.injecting
  · exact (h.clearing frame hframe hrecovery).run h.owned ht
  · exact (h.recovered hrec).run h.owned ht

theorem Sound.sending (h : s.Sound) {nowMs : U32} (hbusy : s.fw.tx .commandHandler ≠ .idle)
    (hfaults : (s.fw.run .commandHandler nowMs).1.faults = s.fw.faults)
    (hops : (s.fw.run .commandHandler nowMs).1.ops = s.fw.ops)
    (hevs : ∀ type payload, .sendFrame type payload ∉ (s.fw.run .commandHandler nowMs).2) :
    (s.step (.task .commandHandler nowMs)).1.Sound := by
  rw [step_quiet (Firmware.takes_of_busy hbusy)]
  · generalize (s.fw.run .commandHandler nowMs).1 = fw' at hfaults hops
    have hsettled : s.fw.Settled → fw'.Settled := fun hsettled =>
      hsettled.clear (fun flag => Or.inl (by rw [hfaults])) (by rw [hops])
    refine ⟨?_, ?_, ?_, fun frame hframe hrecovery => ?_, fun hrec => hsettled (h.recovered hrec)⟩
    · rw [Firmware.Owned, hops]
      exact h.owned
    · rw [hops]
      exact h.ordered
    · dsimp only
      rw [hops]
      exact h.injecting
    · obtain ⟨hflags, hclear⟩ := h.clearing frame hframe hrecovery
      rw [← hops] at hflags hclear
      rw [← hfaults] at hflags
      exact ⟨hflags, hclear.imp_right hsettled⟩
  · rintro ⟨-, hack⟩
    obtain ⟨ev, hev, hack⟩ := List.any_eq_true.mp hack
    cases ev with
    | sendFrame type payload => exact hevs type payload hev
    | pollOut b => cases hack

/-- The handler is at the head of its loop. -/
theorem Sound.turned (h : s.Sound) {nowMs : U32} (hidle : s.fw.tx .commandHandler = .idle)
    (hops : s.fw.ops .commandHandler = []) :
    (s.step (.task .commandHandler nowMs)).1.Sound := by
  have howned := h.owned.run .commandHandler nowMs
  have hmonitor := @Firmware.run_ops_of_ne s.fw .commandHandler nowMs .faultMonitor (by decide)
  cases hq : s.fw.rxMsgq with
  | nil =>
      have hturn : s.fw.turn .commandHandler = (s.fw, []) := by rw [Firmware.turn, hq]
      have hrun : s.fw.run .commandHandler nowMs = (s.fw, []) := by
        simp only [Firmware.run, hidle, hops, hturn]
        rw [← hops, Function.update_eq_self]
      have htakes : s.fw.takes .commandHandler = none := by
        rw [Firmware.takes_at_head hidle hops, hq]
        rfl
      rw [step_quiet htakes (by simp [hrun]), hrun]
      exact h
  | cons frame rest =>
      have htakes : s.fw.takes .commandHandler = some frame := by
        rw [Firmware.takes_at_head hidle hops, hq]
        rfl
      have hfaults : (s.fw.run .commandHandler nowMs).1.faults = s.fw.faults := by
        simp only [Firmware.run, hidle, hops, Firmware.turn, hq]
      have hnew := (Firmware.run_of_takes htakes nowMs).2
      have hhandled := handleFrame_handled frame
      rw [step, htakes]
      dsimp only
      generalize (s.fw.run .commandHandler nowMs).1 = fw' at *
      rw [← hnew] at hhandled
      refine ⟨howned, hhandled.ordered, fun flag hmem => ?_, fun frame' hframe hrecovery => ?_,
        fun hrec => ?_⟩
      · have hinjection := hhandled.injection hmem
        exact ⟨by simp [hinjection], frame, rfl, hinjection⟩
      · obtain rfl := Option.some.inj hframe
        exact ⟨fun flag => Or.inl (hhandled.clears hrecovery flag),
          Or.inl (hhandled.clears hrecovery _)⟩
      · have hsettled := h.recovered (Bool.and_eq_true _ _ ▸ hrec).1
        exact hsettled.clear (fun flag => Or.inl (by rw [hfaults])) hmonitor

theorem Sound.executed (h : s.Sound) {nowMs : U32} (hidle : s.fw.tx .commandHandler = .idle)
    {op : TaskOp} {rest : List TaskOp} (hops : s.fw.ops .commandHandler = op :: rest)
    (hlate : ¬ s.ClearsLate (.task .commandHandler nowMs)) :
    (s.step (.task .commandHandler nowMs)).1.Sound := by
  have howned := h.owned.run .commandHandler nowMs
  have hmonitor := @Firmware.run_ops_of_ne s.fw .commandHandler nowMs .faultMonitor (by decide)
  have hstep := Firmware.handlerStep h.owned h.ordered hidle hops nowMs
  have hhead := (List.pairwise_cons.mp (hops ▸ h.ordered)).1
  rw [step_of_takes_none (Firmware.takes_of_ops hops)]
  generalize s.fw.run .commandHandler nowMs = next at howned hmonitor hstep ⊢
  -- a flag that is set belongs to an injection, and an injection is no recovery
  have hset : ∀ {flag}, op = .store flag true → s.recovered = false ∧
      ∀ frame ∈ s.serving, ¬ frame.IsRecovery := by
    rintro flag rfl
    obtain ⟨hrec, frame, hframe, hinjection⟩ := h.injecting flag (hops ▸ List.mem_cons_self)
    refine ⟨hrec, fun frame' hframe' hrecovery => hrecovery.not_injection ?_⟩
    obtain rfl := Option.some.inj (hframe.symm.trans hframe')
    exact hinjection
  have hget : ∀ flag, op ≠ .store flag true →
      next.1.faults.get flag = s.fw.faults.get flag ∨ next.1.faults.get flag = false := by
    intro flag hne
    rw [hstep.get]
    obtain hkept | hstore := op.stored_cases flag (s.fw.faults.get flag)
    · exact Or.inl hkept
    · exact Or.inr (Bool.eq_false_iff.mpr fun hvalue => hne (hvalue ▸ hstore))
  have hclearing : ∀ frame ∈ s.serving, frame.IsRecovery → next.1.Clearing := by
    intro frame hframe hrecovery
    refine (h.clearing frame hframe hrecovery).clear hops (fun flag => hget flag fun hop => ?_)
      hmonitor hstep.kept (fun flag hop => ?_) ?_
    · exact (hset hop).2 frame hframe hrecovery
    · rw [hstep.get, hop, TaskOp.stored, if_pos rfl]
    · rintro rfl
      refine ⟨fun op' hmem => (hhead op' hmem).2 rfl, fun hmem => hlate ?_⟩
      exact ⟨rfl, hidle, by rw [hops]; rfl, hmem⟩
  refine ⟨howned, hstep.ordered, fun flag hmem => ?_, hclearing, fun hrec => ?_⟩
  · have hrest := hstep.stores flag true hmem
    obtain ⟨hrec, hserving⟩ := h.injecting flag (hops ▸ List.mem_cons_of_mem _ hrest)
    refine ⟨?_, hserving⟩
    have hack : ¬ next.2.any FirmwareEvent.isAck := by
      intro hack
      rw [hstep.acked hack] at hmem
      cases hmem
    simp [hrec, hack]
  · obtain hrec | hacked := (Bool.or_eq_true _ _).mp hrec
    · refine (h.recovered hrec).clear (fun flag => hget flag fun hop => ?_) hmonitor
      rw [(hset hop).1] at hrec
      cases hrec
    · obtain ⟨-, hack, frame, hframe, hrecovery⟩ := of_decide_eq_true hacked
      have hsettled := (hclearing frame hframe hrecovery).settled
      rw [hstep.acked hack] at hsettled
      exact hsettled.resolve_left List.not_mem_nil

theorem Sound.step (h : s.Sound) {a : FirmwareInput} (hlate : ¬ s.ClearsLate a) :
    (s.step a).1.Sound := by
  cases a with
  | receive bytes => exact h.receive bytes
  | task t nowMs =>
      by_cases ht : t = .commandHandler
      · subst ht
        by_cases hidle : s.fw.tx .commandHandler = .idle
        · cases hops : s.fw.ops .commandHandler with
          | nil => exact h.turned hidle hops
          | cons op rest => exact h.executed hidle hops hlate
        · have hran := s.fw.run_ran .commandHandler nowMs
          generalize hnext : s.fw.run .commandHandler nowMs = next at hran
          cases hran with
          | sending hbusy hevs =>
              refine h.sending hbusy ?_ ?_ ?_ <;> rw [hnext]
              exact hevs
          | turned hat hops => exact absurd hat hidle
          | executed hat hops => exact absurd hat hidle
      · exact h.other ht nowMs

theorem step_fw (s : RecoveryWatch) (t : Task) (nowMs : U32) :
    (s.step (.task t nowMs)).1.fw = (s.fw.run t nowMs).1 ∧
      (s.step (.task t nowMs)).2 = (s.fw.run t nowMs).2 := by
  rw [step]
  dsimp only
  split <;> exact ⟨rfl, rfl⟩

end RecoveryWatch

def FirmwareInput.isHeartbeat : FirmwareInput → Bool
  | .task t _ => t == .heartbeat
  | .receive _ => false

namespace RecoveryWatch

theorem heartbeat_sent {s : RecoveryWatch} {inputs : List FirmwareInput} {n : Nat}
    (h : s.Sound) (hbeats : s.fw.BeatsIn n)
    (hlate : Machine.Along step (fun s a => ¬ s.ClearsLate a) s inputs)
    (hrecovered : Machine.Always step (fun s => s.recovered = true) s inputs)
    (hcount : n ≤ inputs.countP FirmwareInput.isHeartbeat) :
    ∃ payload, .sendFrame safetyFrameHeartbeat payload ∈ Machine.outputs step s inputs := by
  have hsettled := h.recovered hrecovered.head
  induction inputs generalizing s n with
  | nil =>
      obtain ⟨-, ⟨rfl, -⟩ | ⟨rfl, -⟩ | ⟨rfl, -⟩⟩ := hbeats <;> cases hcount
  | cons a inputs ih =>
      have hnext := h.step hlate.1
      have hnextSettled := hnext.recovered hrecovered.2.head
      have hgo : ∀ {m}, (s.step a).1.fw.BeatsIn m →
          m ≤ inputs.countP FirmwareInput.isHeartbeat →
          ∃ payload, .sendFrame safetyFrameHeartbeat payload ∈
            Machine.outputs step s (a :: inputs) := by
        intro m hbeats hcount
        obtain ⟨payload, hmem⟩ := ih hnext hbeats hlate.2 hrecovered.2 hcount hnextSettled
        exact ⟨payload, List.mem_append_right _ hmem⟩
      cases a with
      | receive bytes => exact hgo hbeats hcount
      | task t nowMs =>
          obtain ⟨hfw, hevs⟩ := s.step_fw t nowMs
          rw [hfw] at hgo
          by_cases ht : t = .heartbeat
          · subst ht
            obtain ⟨payload, hmem⟩ | ⟨m, rfl, hless⟩ := hbeats.run hsettled nowMs
            · exact ⟨payload, List.mem_append_left _ (hevs ▸ hmem)⟩
            · refine hgo hless ?_
              rw [List.countP_cons_of_pos rfl] at hcount
              exact Nat.le_of_succ_le_succ hcount
          · refine hgo (hbeats.other ht) ?_
            rwa [List.countP_cons_of_neg (by simpa [FirmwareInput.isHeartbeat] using ht)] at hcount

/-- When the monitor never sits on a stale fault while the handler clears safe
mode, an acknowledged recovery leaves safe mode until the next injection, and
the heartbeat task, from the head of its loop, sends again. -/
theorem recovery_leaves_safe_mode {inputs : List FirmwareInput}
    (hlate : Machine.Along step (fun s a => ¬ s.ClearsLate a) {} inputs) :
    Machine.Always step (fun s => s.recovered = true → s.fw.faults.inSafeMode = false) {} inputs ∧
    ∀ before since, inputs = before ++ since →
      Machine.Always step (fun s => s.recovered = true) (Machine.after step {} before) since →
      (Machine.after step {} before).fw.tx .heartbeat = .idle →
      (Machine.after step {} before).fw.ops .heartbeat = [] →
      3 ≤ since.countP FirmwareInput.isHeartbeat →
      ∃ payload, .sendFrame safetyFrameHeartbeat payload ∈
        Machine.outputs step (Machine.after step {} before) since := by
  have hstep : ∀ (s : RecoveryWatch) a, s.Sound → ¬ s.ClearsLate a → (s.step a).1.Sound :=
    fun s a h hlate => h.step hlate
  have hsound := Machine.always_of_along hstep sound_init hlate
  refine ⟨hsound.imp fun s h hrec => (h.recovered hrec).flags .inSafeMode, ?_⟩
  rintro before since rfl hrecovered hidle hops hcount
  have hafter := Machine.after_of_along hstep sound_init hlate
  exact heartbeat_sent hafter ⟨hidle, Or.inl ⟨rfl, hops⟩⟩ (Machine.along_append.mp hlate).2
    hrecovered hcount

/-- A fault, the scan that finds it, the recovery and a heartbeat, one after the
other. -/
def orderly : List FirmwareInput :=
  injectCritical :: List.replicate 30 (.task .commandHandler 0) ++
    List.replicate 40 (.task .faultMonitor 0) ++
    requestRecovery :: List.replicate 60 (.task .commandHandler 0)

theorem recovery_leaves_safe_mode_orderly :
    (Machine.after step {} orderly).recovered = true ∧
    ∃ payload, .sendFrame safetyFrameHeartbeat payload ∈
      Machine.outputs step (Machine.after step {} orderly)
        (List.replicate 3 (.task .heartbeat 0)) := by
  refine ⟨by decide +kernel, ?_⟩
  have hlate : Machine.Along step (fun s a => ¬ s.ClearsLate a) {}
      (orderly ++ List.replicate 3 (.task .heartbeat 0)) := by decide +kernel
  exact (recovery_leaves_safe_mode hlate).2 orderly (List.replicate 3 (.task .heartbeat 0)) rfl
    (by decide +kernel) (by decide +kernel) (by decide +kernel) (by decide)

/-- The monitor has seen the fault, but sets safe mode only after the handler
has reported and acknowledged the recovery. -/
theorem recovery_in_safe_mode :
    let s := Machine.after step {}
      (injectCritical :: List.replicate 30 (.task .commandHandler 0) ++
        List.replicate 2 (.task .faultMonitor 0) ++
        requestRecovery :: List.replicate 60 (.task .commandHandler 0) ++
        List.replicate 40 (.task .faultMonitor 0))
    s.recovered = true ∧ s.fw.faults.inSafeMode = true := by
  decide +kernel

end RecoveryWatch

end SafetyCopro
