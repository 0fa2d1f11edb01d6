import SafetyCopro.Driver.Interleaving

/-!
What `SAFETY_IOC_GET_STATS` tells while other calls run beside it. The counters
under the lock are those of one moment. The frames are added up behind it, one
CPU after the other and without the lock, and the queues are measured last.
-/

namespace SafetyCopro

namespace SafetyCoproDev
open Interleave (Pool Move)

/-! ### The frames that are counted meanwhile -/

/-- The frames of each CPU. -/
def rxCells (dev : SafetyCoproDev) : List U64 := dev.pcpu.map SafetyCoproPcpu.rxFrames

/-- The CPU the next section of a call counts a frame for. -/
def countsOn (env : SectionEnv) : List Section → List Nat
  | .incRx _ :: _ => [env.ctx.cpu]
  | _ => []

def countStep (p : Pool SafetyCoproDev Section) (m : Move SectionEnv Section) :
    Pool SafetyCoproDev Section × List Nat :=
  ((Interleave.step exec p m).1,
    match m with
    | .start _ => []
    | .run i env => countsOn env (p.calls[i]?.getD []))

/-- The CPUs of the frames that are counted in a run, one for each. -/
def counted (p : Pool SafetyCoproDev Section) (moves : List (Move SectionEnv Section)) : List Nat :=
  Machine.outputs countStep p moves

section Counted
variable {p : Pool SafetyCoproDev Section} {dev : SafetyCoproDev} {env : SectionEnv}
variable {moves : List (Move SectionEnv Section)} {m : Move SectionEnv Section}

theorem after_countStep (p : Pool SafetyCoproDev Section) (moves : List (Move SectionEnv Section)) :
    Machine.after countStep p moves = Machine.after (Interleave.step exec) p moves := by
  induction moves generalizing p with
  | nil => rfl
  | cons m moves ih => exact ih _

theorem counted_concat : counted p (moves ++ [m]) =
    counted p moves ++ (countStep (Machine.after (Interleave.step exec) p moves) m).2 := by
  rw [counted, Machine.outputs_append, after_countStep, Machine.outputs_cons, Machine.outputs_nil,
    List.append_nil]
  rfl

/-- A section counts no frame, or one for its CPU. -/
theorem exec_rx {a : Section} (ha : a.Counts) (rest : List Section) :
    (countsOn env (a :: rest) = [] ∧ (exec a env dev).shared.rxCells = dev.rxCells) ∨
      (countsOn env (a :: rest) = [env.ctx.cpu] ∧
        (exec a env dev).shared.rxCells = dev.rxCells.modify env.ctx.cpu (· + 1)) := by
  have hkeep (hw : a.writesCounters = false) :
      (exec a env dev).shared.rxCells = dev.rxCells := by
    have hpcpu := congrArg Prod.fst ((exec_frame a env dev).2.1 hw)
    exact congrArg (List.map SafetyCoproPcpu.rxFrames) hpcpu
  cases a with
  | incRx bytes =>
      refine Or.inr ⟨rfl, List.ext_getElem? fun cpu => ?_⟩
      rw [exec, percpuIncRx, rxCells, rxCells, List.getElem?_map, List.getElem?_modify,
        List.getElem?_modify, List.getElem?_map]
      cases dev.pcpu[cpu]? with
      | none => rfl
      | some p => exact congrArg some (apply_ite SafetyCoproPcpu.rxFrames _ _ _)
  | protoError vres => exact Or.inl ⟨rfl, by cases vres <;> rfl⟩
  | countDrop seq type => exact Or.inl ⟨rfl, rfl⟩
  | incDropped => exact Or.inl ⟨rfl, map_modify_of_eq (by intro p; rfl) _ _⟩
  | resetLocked | resetCpu _ => exact ha.elim
  | _ => exact Or.inl ⟨rfl, hkeep rfl⟩

theorem step_rx (hcounts : ∀ a ∈ p.pending, a.Counts) (m : Move SectionEnv Section) :
    ((countStep p m).2 = [] ∧ (Interleave.step exec p m).1.shared.rxCells = p.shared.rxCells) ∨
      ∃ i env, m = .run i env ∧ (countStep p m).2 = [env.ctx.cpu] ∧
        (Interleave.step exec p m).1.shared.rxCells =
          p.shared.rxCells.modify env.ctx.cpu (· + 1) := by
  cases m with
  | start call => exact Or.inl ⟨rfl, rfl⟩
  | run i env =>
      cases hi : p.calls[i]? with
      | none => exact Or.inl (by rw [countStep, Interleave.step, hi]; exact ⟨rfl, rfl⟩)
      | some call =>
          cases call with
          | nil => exact Or.inl (by rw [countStep, Interleave.step, hi]; exact ⟨rfl, rfl⟩)
          | cons a rest =>
              have hstep := @Interleave.step_of_call _ _ _ _ exec p i a rest hi env
              rw [countStep, hstep, hi]
              obtain hquiet | hcount :=
                @exec_rx p.shared env a (hcounts a (Interleave.mem_pending hi)) rest
              · exact Or.inl hquiet
              · exact Or.inr ⟨i, env, rfl, hcount⟩

/-- The frames of every CPU, and all of them, have grown by those counted. -/
structure Counting (start : SafetyCoproDev) (cpus : List Nat) (dev : SafetyCoproDev) : Prop where
  cells : ∀ cpu : Nat, dev.rxCells[cpu]? =
    start.rxCells[cpu]?.map (· + BitVec.ofNat 64 (cpus.count cpu))
  sum : dev.rxCells.sum = start.rxCells.sum + BitVec.ofNat 64 cpus.length

theorem Counting.nil : Counting dev [] dev := by
  refine ⟨fun cpu => ?_, (BitVec.add_zero _).symm⟩
  cases dev.rxCells[cpu]? with
  | none => rfl
  | some n => exact congrArg some (BitVec.add_zero n).symm

theorem Counting.count {start dev' : SafetyCoproDev} {cpus : List Nat} {cpu : Nat}
    (h : Counting start cpus dev) (hcpu : cpu < dev.pcpu.length)
    (hcells : dev'.rxCells = dev.rxCells.modify cpu (· + 1)) :
    Counting start (cpus ++ [cpu]) dev' := by
  refine ⟨fun cpu' => ?_, ?_⟩
  · rw [hcells, List.getElem?_modify, h.cells, List.count_append, List.count_singleton]
    cases start.rxCells[cpu']? with
    | none => rfl
    | some n =>
        refine congrArg some ?_
        dsimp only
        by_cases heq : cpu = cpu'
        · rw [if_pos heq, if_pos (beq_iff_eq.mpr heq), BitVec.ofNat_add, ← BitVec.add_assoc]
          rfl
        · rw [if_neg heq, if_neg (mt beq_iff_eq.mp heq), Nat.add_zero]
  · have hlt : cpu < dev.rxCells.length := by rwa [rxCells, List.length_map]
    have hsum : (dev.rxCells.modify cpu (· + 1)).sum = dev.rxCells.sum + 1 := by
      have hmap := @sum_map_modify U64 U64 _ (· + 1) id 1 (fun _ => rfl) dev.rxCells cpu hlt
      rwa [List.map_id, List.map_id] at hmap
    rw [hcells, hsum, h.sum, List.length_append, BitVec.ofNat_add, ← BitVec.add_assoc]
    rfl

end Counted

section Run
variable {hbTimeoutMs : U32} {fifoDepth cpus : Nat} {dev : SafetyCoproDev}
variable {before moves : List (Move SectionEnv Section)} {p : Pool SafetyCoproDev Section}

theorem counting_run (hinit : safetyCoproInit hbTimeoutMs fifoDepth cpus = some dev)
    (hp : p = Machine.after (Interleave.step exec) { shared := dev } before)
    (hmoves : ∀ m ∈ before ++ moves, StartedCounting cpus m) :
    Counting p.shared (counted p moves)
      (Machine.after (Interleave.step exec) p moves).shared := by
  induction moves using List.reverseRecOn with
  | nil => exact Counting.nil
  | append_singleton ms m ih =>
      rw [← List.append_assoc] at hmoves
      have hbefore : ∀ m ∈ before ++ ms, StartedCounting cpus m :=
        fun m hm => hmoves m (List.mem_append_left _ hm)
      have howed := owed_run hinit hbefore
      rw [Machine.after_append, ← hp] at howed
      have hcount := ih hbefore
      rw [counted_concat, Machine.after_append]
      obtain ⟨hnone, hcells⟩ | ⟨i, env, rfl, hone, hcells⟩ := step_rx howed.counts m
      · rw [hnone, List.append_nil]
        refine ⟨fun cpu => ?_, ?_⟩
        · rw [Machine.after_cons, Machine.after_nil, hcells]
          exact hcount.cells cpu
        · rw [Machine.after_cons, Machine.after_nil, hcells]
          exact hcount.sum
      · have hcpu : env.ctx.cpu < cpus := hmoves _ (List.mem_append_right _ List.mem_cons_self)
        rw [hone]
        exact hcount.count (howed.cpus.symm ▸ hcpu) hcells

end Run

/-! ### The call -/

/-- The device behind some moves. -/
def seenAt (p : Pool SafetyCoproDev Section) (ms : List (Move SectionEnv Section)) :
    SafetyCoproDev :=
  (Machine.after (Interleave.step exec) p ms).shared

/-- The counters that are copied under the lock. -/
def lockedStats (dev : SafetyCoproDev) : SafetyCoproStats :=
  { dev.stats with rxFramesTotal := 0, rxQueueDepth := 0, txQueueDepth := 0 }

/-- How far a call of `ioc_get_stats` has come, and what it has in its hands: the
counters of the first moment, `k` of the frames that were counted since it began,
and the lengths of the queues at two later ones. -/
inductive StatsCall (p : Pool SafetyCoproDev Section) (fault : Bool) :
    List (Move SectionEnv Section) → List Section → Prop
  | begun (ms : List (Move SectionEnv Section)) : StatsCall p fault ms [.copyStats fault]
  | adding {m₁ ms : List (Move SectionEnv Section)} (h₁ : m₁ <+: ms) {sum : SafetyCoproPcpu}
      {cpu k : Nat} (hk : k ≤ (counted p ms).countP (· < cpu))
      (hsum : sum.rxFrames = (p.shared.rxCells.take cpu).sum + BitVec.ofNat 64 k) :
      StatsCall p fault ms [.sumCpu (seenAt p m₁).lockedStats sum cpu fault]
  | added {m₁ ms : List (Move SectionEnv Section)} (h₁ : m₁ <+: ms) {total : U32} {k : Nat}
      (hk : k ≤ (counted p ms).length)
      (htotal : total = (p.shared.rxCells.sum + BitVec.ofNat 64 k).setWidth 32) :
      StatsCall p fault ms
        [.rxDepth { (seenAt p m₁).lockedStats with rxFramesTotal := total } fault]
  | measured {m₁ m₂ ms : List (Move SectionEnv Section)} (h₁ : m₁ <+: m₂) (h₂ : m₂ <+: ms)
      {total : U32} {k : Nat} (hk : k ≤ (counted p ms).length)
      (htotal : total = (p.shared.rxCells.sum + BitVec.ofNat 64 k).setWidth 32) :
      StatsCall p fault ms
        [.txDepth { (seenAt p m₁).lockedStats with
          rxFramesTotal := total
          rxQueueDepth := BitVec.ofNat 32 (seenAt p m₂).rxFifo.length } fault]
  | filled {m₁ m₂ m₃ ms : List (Move SectionEnv Section)} (h₁ : m₁ <+: m₂) (h₂ : m₂ <+: m₃)
      (h₃ : m₃ <+: ms) {total : U32} {k : Nat} (hk : k ≤ (counted p ms).length)
      (htotal : total = (p.shared.rxCells.sum + BitVec.ofNat 64 k).setWidth 32) :
      StatsCall p fault ms
        [.ret (if fault then .error .efault
          else .ok (.stats { (seenAt p m₁).lockedStats with
            rxFramesTotal := total
            rxQueueDepth := BitVec.ofNat 32 (seenAt p m₂).rxFifo.length
            txQueueDepth := BitVec.ofNat 32 (seenAt p m₃).txFifo.length }))]
  | ended (ms : List (Move SectionEnv Section)) : StatsCall p fault ms []

namespace StatsCall
variable {p : Pool SafetyCoproDev Section} {fault : Bool}
variable {ms : List (Move SectionEnv Section)} {m : Move SectionEnv Section}

theorem later {call : List Section} (h : StatsCall p fault ms call) (m : Move SectionEnv Section) :
    StatsCall p fault (ms ++ [m]) call := by
  have hpre : ms <+: ms ++ [m] := List.prefix_append _ _
  have hlen : (counted p ms).length ≤ (counted p (ms ++ [m])).length := by
    rw [counted_concat, List.length_append]
    exact Nat.le_add_right _ _
  cases h with
  | begun => exact .begun _
  | adding h₁ hk hsum =>
      refine .adding (h₁.trans hpre) (hk.trans ?_) hsum
      rw [counted_concat, List.countP_append]
      exact Nat.le_add_right _ _
  | added h₁ hk htotal => exact .added (h₁.trans hpre) (hk.trans hlen) htotal
  | measured h₁ h₂ hk htotal => exact .measured h₁ (h₂.trans hpre) (hk.trans hlen) htotal
  | filled h₁ h₂ h₃ hk htotal => exact .filled h₁ h₂ (h₃.trans hpre) (hk.trans hlen) htotal
  | ended => exact .ended _

/-- The CPUs below the next one are those below this one, and this one. -/
theorem countP_lt_succ (cpus : List Nat) (cpu : Nat) :
    cpus.countP (· < cpu + 1) = cpus.countP (· < cpu) + cpus.count cpu := by
  induction cpus with
  | nil => rfl
  | cons c cpus ih =>
      rw [List.countP_cons, List.countP_cons, List.count_cons, ih]
      simp only [decide_eq_true_eq, beq_iff_eq]
      split <;> split <;> split <;> omega

theorem own {a : Section} {rest : List Section} {env : SectionEnv}
    (hcount : Counting p.shared (counted p ms) (seenAt p ms))
    (h : StatsCall p fault ms (a :: rest)) :
    StatsCall p fault (ms ++ [m]) ((exec a env (seenAt p ms)).next ++ rest) := by
  refine StatsCall.later ?_ m
  cases h with
  | begun =>
      exact .adding (List.prefix_refl ms) (Nat.zero_le _) (BitVec.add_zero _).symm
  | @adding m₁ ms h₁ sum cpu k hk hsum =>
      have hcell := hcount.cells cpu
      rw [rxCells, List.getElem?_map] at hcell
      rw [exec]
      cases hread : (seenAt p ms).pcpu[cpu]? with
      | none =>
          have hnone : p.shared.rxCells[cpu]? = none := by
            rw [hread] at hcell
            exact Option.map_eq_none_iff.mp hcell.symm
          refine .added h₁ (hk.trans List.countP_le_length) ?_
          rw [hsum, List.take_of_length_le (List.getElem?_eq_none_iff.mp hnone)]
      | some q =>
          rw [hread] at hcell
          obtain ⟨n, hn, hrx⟩ := Option.map_eq_some_iff.mp hcell.symm
          have hcpus : k + (counted p ms).count cpu ≤ (counted p ms).countP (· < cpu + 1) := by
            rw [countP_lt_succ]
            exact Nat.add_le_add_right hk _
          refine .adding h₁ hcpus ?_
          rw [List.take_add_one, hn, Option.toList_some, List.sum_append, List.sum_singleton, hsum,
            ← hrx, BitVec.ofNat_add]
          ac_rfl
  | added h₁ hk htotal => exact .measured h₁ (List.prefix_refl ms) hk htotal
  | measured h₁ h₂ hk htotal => exact .filled h₁ h₂ (List.prefix_refl ms) hk htotal
  | filled => exact .ended ms

end StatsCall

/-- However other calls come between, a `GET_STATS` tells counters of one moment of its
own, lengths of the queues at two later ones, and a number of frames between those
counted when it began and when it ended. -/
theorem stats_within_call {hbTimeoutMs : U32} {fifoDepth cpus : Nat} {dev : SafetyCoproDev}
    (hinit : safetyCoproInit hbTimeoutMs fifoDepth cpus = some dev)
    {before during : List (Move SectionEnv Section)}
    (hmoves : ∀ m ∈ before ++ during, StartedCounting cpus m) {fault : Bool}
    {p : Pool SafetyCoproDev Section}
    (hp : p = Machine.after (Interleave.step exec) { shared := dev }
      (before ++ [.start (sections (.ioctl (.getStats fault)))]))
    {q : Pool SafetyCoproDev Section}
    (hq : q = Machine.after (Interleave.step exec) p during) {env : SectionEnv}
    {st : SafetyCoproStats}
    (hret : (Interleave.step exec q (.run (p.calls.length - 1) env)).2 =
      [.seen (.returned (.ok (.stats st)))]) :
    q.shared.percpuSum.rxFrames =
        p.shared.percpuSum.rxFrames + BitVec.ofNat 64 (counted p during).length ∧
      ∃ k ≤ (counted p during).length, ∃ m₁ m₂ m₃, m₁ <+: m₂ ∧ m₂ <+: m₃ ∧ m₃ <+: during ∧
        st = { (seenAt p m₁).stats with
          rxFramesTotal := (p.shared.percpuSum.rxFrames + BitVec.ofNat 64 k).setWidth 32
          rxQueueDepth := BitVec.ofNat 32 (seenAt p m₂).rxFifo.length
          txQueueDepth := BitVec.ofNat 32 (seenAt p m₃).txFifo.length } := by
  have hall : ∀ m ∈ (before ++ [.start (sections (.ioctl (.getStats fault)))]) ++ during,
      StartedCounting cpus m := by
    intro m hm
    rw [List.append_assoc] at hm
    obtain hm | hm := List.mem_append.mp hm
    · exact hmoves m (List.mem_append_left _ hm)
    · obtain rfl | hm := List.mem_cons.mp hm
      · exact ⟨.ioctl (.getStats fault), by simp, rfl⟩
      · exact hmoves m (List.mem_append_right _ hm)
  have hcounting {ms : List (Move SectionEnv Section)} (hms : ms <+: during) :
      Counting p.shared (counted p ms) (seenAt p ms) := by
    refine counting_run hinit hp fun m hm => hall m ?_
    exact (List.mem_append.mp hm).elim (List.mem_append_left _)
      fun hm => List.mem_append_right _ (hms.subset hm)
  have hcall : p.calls[p.calls.length - 1]? = some [.copyStats fault] := by
    rw [← List.getLast?_eq_getElem?, hp, Machine.after_append]
    exact List.getLast?_concat
  obtain ⟨call, hi, hstats⟩ := Interleave.call_history (Q := StatsCall p fault) hcall (.begun [])
    (fun ms m c h => h.later m)
    (fun ms env a rest hpre h => h.own (hcounting ((List.prefix_append _ _).trans hpre)))
  rw [← hq] at hi
  have hsum := (hcounting (List.prefix_refl during)).sum
  rw [seenAt, ← hq] at hsum
  rw [percpuSum_eq, percpuSum_eq]
  refine ⟨hsum, ?_⟩
  cases hstats with
  | @filled m₁ m₂ m₃ _ h₁ h₂ h₃ total k hk htotal =>
      rw [Interleave.step_of_call hi] at hret
      cases fault with
      | true => cases hret
      | false =>
          cases hret
          refine ⟨k, hk, m₁, m₂, m₃, h₁, h₂, h₃, ?_⟩
          rw [htotal]
          rfl
  | ended =>
      rw [Interleave.step, hi] at hret
      cases hret
  | _ =>
      rw [Interleave.step_of_call hi] at hret
      cases hret

/-- Two faults are injected, one on each CPU, while the call is between the first CPU
and the second. -/
def betweenCpus : List (Move SectionEnv Section) :=
  let inject : Move SectionEnv Section := .start (sections (.ioctl (.injectFault (some 1))))
  [.run 0 {}, .run 0 {}, inject, .run 1 {}, .run 1 {}, .run 1 {}, .run 1 {}, inject, .run 2 {},
    .run 2 {}, .run 2 {}, .run 2 { ctx := { cpu := 1 } }, .run 0 {}, .run 0 {}, .run 0 {},
    .run 0 {}]

/-- The call tells of the second frame and not of the first, which it finds in the
queue. -/
def statsBetweenCpus : SafetyCoproStats where
  currentState := .booting
  heartbeatCount := 0
  faultCount := 0
  droppedFrameCount := 0
  timeoutCount := 0
  retryCount := 0
  protocolErrorCount := 0
  rxFramesTotal := 1
  rxQueueDepth := 2
  txQueueDepth := 0

theorem stats_within_call_betweenCpus :
    ∃ dev p q, safetyCoproInit 350 64 2 = some dev ∧
      p = Machine.after (Interleave.step exec) { shared := dev }
        ([] ++ [.start (sections (.ioctl (.getStats false)))]) ∧
      q = Machine.after (Interleave.step exec) p betweenCpus ∧
      (Interleave.step exec q (.run (p.calls.length - 1) {})).2 =
        [.seen (.returned (.ok (.stats statsBetweenCpus)))] ∧
      (counted p betweenCpus).length = 2 ∧
      ∃ k ≤ (counted p betweenCpus).length,
        statsBetweenCpus.rxFramesTotal =
          (p.shared.percpuSum.rxFrames + BitVec.ofNat 64 k).setWidth 32 := by
  obtain ⟨dev, hdev⟩ : ∃ dev, safetyCoproInit 350 64 2 = some dev := ⟨_, rfl⟩
  have hstart : StartedCounting 2 (.start (sections (.ioctl (.injectFault (some 1))))) :=
    ⟨_, by decide, rfl⟩
  have hrun (i : Nat) : StartedCounting 2 (.run i {}) := (by decide : 0 < 2)
  have hmoves : ∀ m ∈ [] ++ betweenCpus, StartedCounting 2 m := by
    simp only [betweenCpus, List.nil_append, List.forall_mem_cons, hstart, hrun, true_and]
    exact ⟨(by decide : 1 < 2), List.forall_mem_nil _⟩
  have hret : (Interleave.step exec (Machine.after (Interleave.step exec)
      (Machine.after (Interleave.step exec) { shared := dev }
        ([] ++ [.start (sections (.ioctl (.getStats false)))])) betweenCpus) (.run 0 {})).2 =
        [.seen (.returned (.ok (.stats statsBetweenCpus)))] := by
    obtain rfl := Option.some.inj hdev
    rfl
  obtain ⟨-, k, hk, m₁, m₂, m₃, -, -, -, hst⟩ := stats_within_call hdev hmoves rfl rfl hret
  refine ⟨dev, _, _, hdev, rfl, rfl, hret, ?_, k, hk, ?_⟩
  · obtain rfl := Option.some.inj hdev
    rfl
  · exact congrArg SafetyCoproStats.rxFramesTotal hst

end SafetyCoproDev

end SafetyCopro
