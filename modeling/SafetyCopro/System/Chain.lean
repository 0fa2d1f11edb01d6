import SafetyCopro.Firmware.Operations
import SafetyCopro.Firmware.Transmitter
import SafetyCopro.System.LinkDaemon

/-!
The whole chain: the tasks of the firmware, a UART that loses nothing, the link
daemon, the driver and the reads of the supervisor. Any of them may take its next
step at any time. What the supervisor parses are calls of `safety_send_frame`, and
what the firmware parses are writes to the device.
-/

namespace SafetyCopro

/-! ### Calls of `safety_send_frame` -/

/-- All but one of the lists stay. -/
theorem perm_flatMap_update {ι β : Type} [DecidableEq ι] (f : ι → List β) {i : ι} (b : List β)
    {is : List ι} (hnodup : is.Nodup) (hi : i ∈ is) :
    (is.flatMap f ++ b).Perm (f i ++ is.flatMap (Function.update f i b)) := by
  induction is with
  | nil => cases hi
  | cons j is ih =>
      obtain ⟨hj, hnodup⟩ := List.nodup_cons.mp hnodup
      rw [List.flatMap_cons, List.flatMap_cons]
      by_cases hij : i = j
      · subst hij
        have hrest : is.flatMap (Function.update f i b) = is.flatMap f :=
          List.flatMap_congr fun k hk => Function.update_of_ne (ne_of_mem_of_not_mem hk hj) _ _
        rw [hrest, Function.update_self, List.append_assoc]
        exact List.perm_append_comm.append_left _
      · have hmem := (List.mem_cons.mp hi).resolve_left hij
        rw [Function.update_of_ne (Ne.symm hij), List.append_assoc]
        refine ((ih hnodup hmem).append_left _).trans ?_
        rw [← List.append_assoc, ← List.append_assoc]
        exact List.perm_append_comm.append_right _

/-- The frame that a task has packed and no mutex for. -/
def TxPhase.locked : TxPhase → List (List U8)
  | .locking frame => [frame]
  | _ => []

namespace Firmware

/-- The frames of calls that wait for the mutex. -/
def waiting (fw : Firmware) : List (List U8) := Task.all.flatMap fun t => (fw.tx t).locked

/-- The frame whose task gets the mutex in its next step. -/
def locks (fw : Firmware) (t : Task) : Option (List U8) :=
  match fw.tx t with
  | .locking frame => if fw.txMutex = none then some frame else none
  | _ => none

/-- The frame that a call packs, in a step taken at this time. -/
def packs (fw : Firmware) (nowMs : U32) : FirmwareEvent → List (List U8)
  | .sendFrame type payload => [packFrame type (BitVec.ofNat 16 fw.txSequence) nowMs payload]
  | .pollOut _ => []

theorem waiting_update {fw fw' : Firmware} {t : Task} {phase : TxPhase}
    (htx : fw'.tx = Function.update fw.tx t phase) :
    (fw.waiting ++ phase.locked).Perm ((fw.tx t).locked ++ fw'.waiting) := by
  have hlocked : (fun t => (fw'.tx t).locked) =
      Function.update (fun t => (fw.tx t).locked) t phase.locked := by
    funext t'
    rw [htx, Function.apply_update fun _ => TxPhase.locked]
  rw [waiting, waiting, hlocked]
  exact perm_flatMap_update _ _ (by decide) t.mem_all

theorem waiting_congr {fw fw' : Firmware} (htx : fw'.tx = fw.tx) : fw'.waiting = fw.waiting := by
  rw [waiting, waiting, htx]

/-- A step of a task: a frame whose task gets the mutex is no longer waiting and comes
on the wire. -/
structure Balanced (fw : Firmware) (t : Task) (nowMs : U32) (fw' : Firmware)
    (evs : List FirmwareEvent) : Prop where
  packed : ∀ frame ∈ fw.locks t, IsPacked frame
  wire : pollOuts evs ++ fw'.remaining = fw.remaining ++ (fw.locks t).toList.flatten
  calls : (fw.waiting ++ evs.flatMap (fw.packs nowMs)).Perm ((fw.locks t).toList ++ fw'.waiting)

variable {fw : Firmware} {t : Task} {nowMs : U32}

/-- The mutex is what stands between a frame and the wire. -/
theorem run_locks (fw : Firmware) (t : Task) (nowMs : U32) :
    fw.locks t = match fw.tx t, (fw.run t nowMs).1.tx t with
      | .locking frame, .putting _ => some frame
      | _, _ => none := by
  unfold Firmware.run
  rw [locks]
  cases hat : fw.tx t with
  | locking frame =>
      dsimp only
      split
      · dsimp only
        rw [Function.update_self]
      · rw [hat]
  | putting bytes => rfl
  | idle => rfl

/-- A call is told in the step that packs its frame. -/
theorem run_packs (fw : Firmware) (t : Task) (nowMs : U32) :
    (fw.run t nowMs).2.flatMap (fw.packs nowMs) =
      if fw.tx t = .idle then ((fw.run t nowMs).1.tx t).locked else [] := by
  unfold Firmware.run
  cases hat : fw.tx t with
  | locking frame =>
      dsimp only
      split <;> rfl
  | putting bytes => cases bytes <;> rfl
  | idle =>
      rw [if_pos rfl]
      dsimp only
      split
      · obtain ⟨-, -, htx, -, -⟩ := fw.turn_fields t
        dsimp only
        rw [htx, hat]
        rfl
      · rename_i op rest hops
        dsimp only
        cases op with
        | send type payload =>
            rw [exec]
            split
            · rw [hat]
              rfl
            · rename_i seq frame hsend
              have hfits : payload.length ≤ safetyMaxPayload := by
                by_contra hlong
                rw [safetySendFrame, if_pos (Nat.not_le.mp hlong)] at hsend
                cases hsend
              rw [safetySendFrame_eq _ _ _ hfits] at hsend
              obtain ⟨rfl, hframe⟩ := Prod.mk.inj hsend
              obtain rfl := Option.some.inj hframe
              dsimp only
              rw [Function.update_self]
              rfl
        | beat hang =>
            rw [exec]
            split <;> rw [hat] <;> rfl
        | _ =>
            simp only [exec, hat]
            rfl

theorem TxSound.balanced (h : fw.TxSound) (t : Task) (nowMs : U32) :
    fw.Balanced t nowMs (fw.run t nowMs).1 (fw.run t nowMs).2 := by
  have hstep := fw.run_transmits t nowMs
  have hsound := h.transmits hstep
  have hpacks := fw.run_packs t nowMs
  have hlocks := fw.run_locks t nowMs
  generalize (fw.run t nowMs).1 = fw', (fw.run t nowMs).2 = evs at hstep hsound hpacks hlocks ⊢
  generalize hout : pollOuts evs = out at hstep
  -- a step that moves the task on tells the frame it packs
  have hcalls : ∀ phase, fw'.tx = Function.update fw.tx t phase →
      (fw.tx t ≠ .idle → phase.locked = []) →
      (fw.waiting ++ evs.flatMap (fw.packs nowMs)).Perm ((fw.tx t).locked ++ fw'.waiting) := by
    intro phase htx hlocked
    have hpacked : evs.flatMap (fw.packs nowMs) = phase.locked := by
      rw [hpacks, htx, Function.update_self]
      split
      · rfl
      · rename_i hbusy
        exact (hlocked hbusy).symm
    rw [hpacked]
    exact waiting_update htx
  -- a step that puts no new frame on the wire
  have hnone : fw.locks t = none → out ++ fw'.remaining = fw.remaining →
      (fw.waiting ++ evs.flatMap (fw.packs nowMs)).Perm fw'.waiting →
      fw.Balanced t nowMs fw' evs := by
    intro hlocked hwire hperm
    refine ⟨?_, ?_, ?_⟩
    · rw [hlocked]
      exact fun frame hframe => absurd hframe (Option.not_mem_none frame)
    · rw [hout, hwire, hlocked]
      exact (List.append_nil _).symm
    · rw [hlocked]
      exact hperm
  cases hstep with
  | kept htx hmutex hseq =>
      refine hnone ?_ (remaining_congr htx hmutex) ?_
      · rw [hlocks, htx]
        cases fw.tx t <;> rfl
      · have hquiet : evs.flatMap (fw.packs nowMs) = [] := by
          rw [hpacks, htx]
          split
          · rename_i hidle
            rw [hidle]
            rfl
          · rfl
        rw [hquiet, List.append_nil, waiting_congr htx]
  | @called type payload hidle hfits htx hmutex hseq =>
      refine hnone ?_ (h.call hidle ⟨_, _, _, _, hfits, rfl⟩ htx hmutex).2 ?_
      · rw [locks, hidle]
      · have hmoved := hcalls _ htx fun hbusy => absurd hidle hbusy
        rwa [hidle] at hmoved
  | @locked frame hat hfree htx hmutex hseq =>
      have hlocked : fw.locks t = some frame := by
        rw [locks, hat, hfree]
        rfl
      refine ⟨?_, ?_, ?_⟩
      · rw [hlocked]
        intro frame' hframe
        obtain rfl := Option.some.inj hframe
        exact h.packed t _ hat
      · rw [hout, hsound.remaining_of_putting (htx ▸ Function.update_self ..),
          remaining_of_free hfree, hlocked]
        exact (List.append_nil _).symm
      · have hmoved := hcalls _ htx fun _ => rfl
        rw [hlocked]
        rwa [hat] at hmoved
  | @put b bytes hat htx hmutex hseq =>
      refine hnone ?_ ?_ ?_
      · rw [locks, hat]
      · rw [hsound.remaining_of_putting (htx ▸ Function.update_self ..),
          h.remaining_of_putting hat]
        rfl
      · have hmoved := hcalls _ htx fun _ => rfl
        rwa [hat] at hmoved
  | unlocked hat htx hmutex hseq =>
      refine hnone ?_ ?_ ?_
      · rw [locks, hat]
      · rw [remaining_of_free hmutex, h.remaining_of_putting hat]
        rfl
      · have hmoved := hcalls _ htx fun _ => rfl
        rwa [hat] at hmoved

end Firmware

/-! ### The chain -/

structure Chain where
  firmware : Firmware := {}
  host : LinkdHost
  /-- The bytes on the way to the daemon, and to the firmware. -/
  up : List U8 := []
  down : List U8 := []

inductive ChainInput
  | task (t : Task) (nowMs : U32)
  -- the UART interrupt of the firmware with the next `n` bytes
  | receive (n : Nat)
  -- a step of the host; where it reads the UART it finds the bytes on the way
  | host (input : LinkdInput)

inductive ChainEvent
  | sent (frame : List U8)
  -- the task that called with the frame has got `tx_mutex`
  | locked (frame : List U8)
  | received (frames : List SafetyRxFrame)
  | host (e : LinkdEvent)

def LinkdInput.onWire (up : List U8) : LinkdInput → LinkdInput
  | .uartRead (.ok data) => .uartRead (.ok (up.take data.length))
  | input => input

namespace Chain

def step (c : Chain) : ChainInput → Chain × List ChainEvent
  | .task t nowMs =>
      let (firmware, evs) := c.firmware.run t nowMs
      ({ c with firmware, up := c.up ++ pollOuts evs },
        (evs.flatMap (c.firmware.packs nowMs)).map .sent ++
          (c.firmware.locks t).toList.map .locked)
  | .receive n =>
      ({ c with firmware := c.firmware.receive (c.down.take n), down := c.down.drop n },
        [.received (rxFeed c.firmware.rxs (c.down.take n)).2])
  | .host input =>
      let (host, events) := c.host.step (input.onWire c.up)
      ({ c with host
                up := c.up.drop (events.flatMap LinkdEvent.chunk).flatten.length
                down := c.down ++ events.flatMap LinkdEvent.bytesOut },
        events.map .host)

end Chain

/-- What the daemon and the device get to do. -/
def Chain.linkdInputs (c : Chain) : ChainInput → List LinkdInput
  | .host input => [input.onWire c.up]
  | _ => []

namespace ChainEvent

def calls : ChainEvent → List (List U8)
  | .sent frame => [frame]
  | _ => []

def locks : ChainEvent → List (List U8)
  | .locked frame => [frame]
  | _ => []

def messages : ChainEvent → List SafetyRxFrame
  | .received frames => frames
  | _ => []

def linkd : ChainEvent → List LinkdEvent
  | .host e => [e]
  | _ => []

section OfTask
variable (sent locked : List (List U8))

theorem task_calls :
    (sent.map ChainEvent.sent ++ locked.map ChainEvent.locked).flatMap calls = sent := by
  rw [List.flatMap_append, flatMap_map_self fun _ => rfl, flatMap_map_nil fun _ => rfl,
    List.append_nil]

theorem task_locks :
    (sent.map ChainEvent.sent ++ locked.map ChainEvent.locked).flatMap locks = locked := by
  rw [List.flatMap_append, flatMap_map_nil fun _ => rfl, flatMap_map_self fun _ => rfl,
    List.nil_append]

theorem task_messages :
    (sent.map ChainEvent.sent ++ locked.map ChainEvent.locked).flatMap messages = [] := by
  rw [List.flatMap_append, flatMap_map_nil fun _ => rfl, flatMap_map_nil fun _ => rfl,
    List.append_nil]

theorem task_linkd :
    (sent.map ChainEvent.sent ++ locked.map ChainEvent.locked).flatMap linkd = [] := by
  rw [List.flatMap_append, flatMap_map_nil fun _ => rfl, flatMap_map_nil fun _ => rfl,
    List.append_nil]

end OfTask

end ChainEvent

/-- What the daemon reads has been on the way. -/
theorem LinkdHost.step_onWire (s : LinkdHost) (up : List U8) (input : LinkdInput) :
    ((s.step (input.onWire up)).2.flatMap LinkdEvent.chunk).flatten <+: up := by
  rw [← (s.stepped (input.onWire up)).chunk]
  cases input with
  | uartRead reply =>
      cases reply with
      | error e => exact List.nil_prefix
      | ok data =>
          simp only [LinkdInput.onWire, rxInputs]
          split
          · rw [List.flatMap_singleton, RxInput.chunk, List.flatten_singleton]
            exact (List.take_prefix _ _).trans (List.take_prefix _ _)
          · exact List.nil_prefix
  | push ctx =>
      simp only [LinkdInput.onWire, rxInputs]
      split <;> exact List.nil_prefix
  | pop =>
      simp only [LinkdInput.onWire, rxInputs]
      split <;> exact List.nil_prefix
  | _ => exact List.nil_prefix

namespace Chain

/-- The host of the chain runs as it does on its own. -/
theorem linkd_run (c : Chain) (inputs : List ChainInput) :
    Machine.after LinkdHost.step c.host (Machine.translated step linkdInputs c inputs) =
        (Machine.after step c inputs).host ∧
      Machine.outputs LinkdHost.step c.host (Machine.translated step linkdInputs c inputs) =
        (Machine.outputs step c inputs).flatMap ChainEvent.linkd := by
  refine @Machine.simulates _ _ _ step _ _ _ LinkdHost.step linkdInputs (fun _ => True)
    (fun _ _ _ => trivial) Chain.host ChainEvent.linkd ?_ ?_ c trivial inputs
  · intro c input _
    cases input <;> rfl
  · intro c input _
    cases input with
    | task t nowMs =>
        rw [step, ChainEvent.task_linkd]
        rfl
    | receive n => rfl
    | host input =>
        rw [step, flatMap_map_self fun _ => rfl]
        exact List.append_nil _

/-- What is on the wire up are the frames whose tasks got the mutex, and what is on the
wire down the daemon has written. -/
structure Conveys (events : List ChainEvent) (c : Chain) : Prop where
  sound : c.firmware.TxSound
  packed : ∀ frame ∈ events.flatMap ChainEvent.locks, Firmware.IsPacked frame
  calls : (events.flatMap ChainEvent.calls).Perm
    (events.flatMap ChainEvent.locks ++ c.firmware.waiting)
  up : ((events.flatMap ChainEvent.linkd).flatMap LinkdEvent.chunk).flatten ++ c.up ++
    c.firmware.remaining = (events.flatMap ChainEvent.locks).flatten
  down : ∃ bytes, bytes ++ c.down = (events.flatMap ChainEvent.linkd).flatMap LinkdEvent.bytesOut ∧
    rxFeed {} bytes = (c.firmware.rxs, events.flatMap ChainEvent.messages)

theorem conveys_init (host : LinkdHost) : Conveys [] { host } where
  sound := Firmware.txSound_init
  packed := List.forall_mem_nil _
  calls := List.Perm.refl _
  up := rfl
  down := ⟨[], rfl, rfl⟩

namespace Conveys
variable {events : List ChainEvent} {c : Chain}

theorem task (h : Conveys events c) (t : Task) (nowMs : U32) :
    Conveys (events ++ (c.step (.task t nowMs)).2) (c.step (.task t nowMs)).1 := by
  obtain ⟨hpacked, hwire, hcalls⟩ := h.sound.balanced t nowMs
  rw [step]
  refine ⟨(h.sound.run t nowMs).1, ?_, ?_, ?_, ?_⟩
  · rw [List.flatMap_append, ChainEvent.task_locks]
    refine List.forall_mem_append.mpr ⟨h.packed, fun frame hframe => hpacked frame ?_⟩
    exact Option.mem_toList.mp hframe
  · rw [List.flatMap_append, ChainEvent.task_calls, List.flatMap_append, ChainEvent.task_locks,
      List.append_assoc]
    refine (h.calls.append_right _).trans ?_
    rw [List.append_assoc]
    exact hcalls.append_left _
  · rw [List.flatMap_append, ChainEvent.task_linkd, List.append_nil, List.flatMap_append,
      ChainEvent.task_locks, List.flatten_append, ← h.up]
    simp only [List.append_assoc, hwire]
  · obtain ⟨bytes, hbytes, hfeed⟩ := h.down
    refine ⟨bytes, ?_, ?_⟩
    · rw [List.flatMap_append, ChainEvent.task_linkd, List.append_nil]
      exact hbytes
    · rw [List.flatMap_append, ChainEvent.task_messages, List.append_nil]
      simp only [Firmware.run_rxs]
      exact hfeed

theorem receive (h : Conveys events c) (n : Nat) :
    Conveys (events ++ (c.step (.receive n)).2) (c.step (.receive n)).1 := by
  have hquiet : ∀ {γ : Type} (f : ChainEvent → List γ), (∀ frames, f (.received frames) = []) →
      ∀ frames, (events ++ [ChainEvent.received frames]).flatMap f = events.flatMap f := by
    intro γ f hf frames
    rw [List.flatMap_append, List.flatMap_singleton, hf, List.append_nil]
  rw [step]
  refine ⟨h.sound.congr rfl rfl, ?_, ?_, ?_, ?_⟩
  · rw [hquiet _ fun _ => rfl]
    exact h.packed
  · rw [hquiet _ fun _ => rfl, hquiet _ fun _ => rfl]
    exact h.calls
  · rw [hquiet _ fun _ => rfl, hquiet _ fun _ => rfl]
    exact h.up
  · obtain ⟨bytes, hbytes, hfeed⟩ := h.down
    refine ⟨bytes ++ c.down.take n, ?_, ?_⟩
    · rw [hquiet _ fun _ => rfl, List.append_assoc, List.take_append_drop]
      exact hbytes
    · rw [rxFeed_append, hfeed, List.flatMap_append, List.flatMap_singleton]
      rfl

theorem host (h : Conveys events c) (input : LinkdInput) :
    Conveys (events ++ (c.step (.host input)).2) (c.step (.host input)).1 := by
  obtain ⟨left, hleft⟩ := c.host.step_onWire c.up input
  generalize hstep : c.host.step (input.onWire c.up) = r at hleft
  have hquiet : ∀ {γ : Type} (f : ChainEvent → List γ), (∀ e, f (.host e) = []) →
      (events ++ r.2.map ChainEvent.host).flatMap f = events.flatMap f := by
    intro γ f hf
    rw [List.flatMap_append, flatMap_map_nil hf, List.append_nil]
  have hlinkd : (events ++ r.2.map ChainEvent.host).flatMap ChainEvent.linkd =
      events.flatMap ChainEvent.linkd ++ r.2 := by
    rw [List.flatMap_append, flatMap_map_self fun _ => rfl]
  have hevents : (c.step (.host input)).2 = r.2.map ChainEvent.host := by rw [step, hstep]
  have hup : (c.step (.host input)).1.up = left := by
    rw [step, hstep]
    dsimp only
    rw [← hleft, List.drop_left]
  rw [hevents]
  refine ⟨h.sound, ?_, ?_, ?_, ?_⟩
  · rw [hquiet _ fun _ => rfl]
    exact h.packed
  · rw [hquiet _ fun _ => rfl, hquiet _ fun _ => rfl]
    exact h.calls
  · rw [hlinkd, hquiet _ fun _ => rfl, List.flatMap_append, List.flatten_append, hup, ← h.up,
      ← hleft, ← List.append_assoc _ _ left]
    rfl
  · obtain ⟨bytes, hbytes, hfeed⟩ := h.down
    refine ⟨bytes, ?_, ?_⟩
    · rw [hlinkd, List.flatMap_append, ← hbytes, step, hstep, List.append_assoc]
    · rw [hquiet _ fun _ => rfl]
      exact hfeed

end Conveys

theorem conveys_run (host : LinkdHost) (inputs : List ChainInput) :
    Conveys (Machine.outputs step { host } inputs) (Machine.after step { host } inputs) := by
  refine Machine.run_history (P := fun _ events c => Conveys events c) ?_ (conveys_init host) inputs
  intro _ events c input h
  cases input with
  | task t nowMs => exact h.task t nowMs
  | receive n => exact h.receive n
  | host input => exact h.host input

end Chain

theorem Firmware.IsPacked.valid {frame : List U8} (h : Firmware.IsPacked frame) :
    ValidFrame frame := by
  obtain ⟨type, seq, tsMs, payload, hfits, rfl⟩ := h
  exact validFrame_packFrame type seq tsMs hfits

theorem Synthesised.valid {frame : List U8} (h : Synthesised frame) : ValidFrame frame := by
  obtain ⟨s, seq, tsMs, rfl⟩ := h
  exact validFrame_packFrame s.type seq tsMs s.payload_fits

/-- The daemon finds the frames in what it has read of whole frames, and the last one
when all is read. -/
theorem linkFramer_feed_prefix {bytes more : List U8} {frames : List (List U8)}
    (hframes : ∀ frame ∈ frames, IsFrame frame) (h : bytes ++ more = frames.flatten) :
    (LinkFramer.feed [] bytes).1 <+: frames ∧
      (more = [] → (LinkFramer.feed [] bytes).1 = frames) := by
  have hwhole : (frames.map Token.frame).flatMap (fun t => t.wholeFrame.toList) = frames :=
    flatMap_map_self (fun _ => rfl) frames
  have htokens := tokens_frames incremental_host hframes
  rw [LinkFramer.feed_eq_tokens, List.nil_append]
  constructor
  · rw [← h, incremental_host.tokens_append] at htokens
    rw [← hwhole, ← (Prod.mk.inj htokens).1, List.flatMap_append]
    exact List.prefix_append _ _
  · rintro rfl
    rw [← h, List.append_nil] at htokens
    rw [htokens]
    exact hwhole

theorem RxEvent.valid_of_accepted {rx : List RxEvent} (hproper : ∀ e ∈ rx, e.Proper)
    (hpushes : ∀ frame ∈ rx.flatMap RxEvent.pushes, ValidFrame frame) :
    ∀ frame ∈ rx.flatMap RxEvent.accepted, ValidFrame frame := by
  intro frame hframe
  obtain ⟨e, he, haccepted⟩ := List.mem_flatMap.mp hframe
  cases e with
  | pushed frame' accepted =>
      cases accepted with
      | false => cases haccepted
      | true => exact hpushes frame (List.mem_flatMap.mpr ⟨_, he, haccepted⟩)
  | made frame' =>
      obtain rfl := List.mem_singleton.mp haccepted
      exact (hproper _ he).valid
  | read frames => cases haccepted

/-- Up: the tasks get the mutex once for each call of `safety_send_frame` that no longer
waits for it. The daemon pushes the frames of these calls, once each and in this order,
and all of them when nothing is left on the way. The supervisor parses intact frames
only: those that the RX queue took, between frames the driver made. -/
theorem tasks_reach_supervisor {hbTimeoutMs : U32} {fifoDepth cpus : Nat} {dev : SafetyCoproDev}
    (h : safetyCoproInit hbTimeoutMs fifoDepth cpus = some dev) (inputs : List ChainInput) :
    let c := Machine.after Chain.step { host := { dev } } inputs
    let events := Machine.outputs Chain.step { host := { dev } } inputs
    let locks := events.flatMap ChainEvent.locks
    let rx := (events.flatMap ChainEvent.linkd).flatMap LinkdEvent.rx
    (events.flatMap ChainEvent.calls).Perm (locks ++ c.firmware.waiting) ∧
      rx.flatMap RxEvent.pushes ++ c.host.pc.pending <+: locks ∧
      (c.up ++ c.firmware.remaining = [] →
        rx.flatMap RxEvent.pushes ++ c.host.pc.pending = locks) ∧
      rx.flatMap RxEvent.parsed ++ c.host.dev.rxFifo.map ParsedFrame.ofBytes =
        (rx.flatMap RxEvent.accepted).map ParsedFrame.ofBytes ∧
      ∀ f ∈ rx.flatMap RxEvent.parsed, f.ok := by
  intro c events locks rx
  have hinv := Chain.conveys_run { dev } inputs
  obtain ⟨hafter, houtputs⟩ := Chain.linkd_run { host := { dev } } inputs
  have hhost := LinkdHost.rxInv (SafetyCoproDev.init_fifos h).1
    (Machine.translated Chain.step Chain.linkdInputs { host := { dev } } inputs)
  simp only [hafter, houtputs] at hhost
  obtain ⟨hframed, -, hparsed, hproper⟩ := hhost
  have hvalid : ∀ frame ∈ locks, ValidFrame frame := fun frame hframe =>
    (hinv.packed frame hframe).valid
  have hup := hinv.up
  rw [List.append_assoc] at hup
  obtain ⟨hfront, hall⟩ :=
    linkFramer_feed_prefix (fun frame hframe => (hvalid frame hframe).isFrame) hup
  rw [linkFramer_feeds_flatten] at hframed
  rw [hframed] at hfront hall
  refine ⟨hinv.calls, hfront, hall, hparsed, fun f hf => ?_⟩
  have haccepted := RxEvent.valid_of_accepted hproper fun frame hframe =>
    hvalid frame (hfront.subset (List.mem_append_left _ hframe))
  have hmem := List.mem_append_left (c.host.dev.rxFifo.map ParsedFrame.ofBytes) hf
  rw [hparsed] at hmem
  obtain ⟨frame, hframe, rfl⟩ := List.mem_map.mp hmem
  exact (haccepted frame hframe).valid

/-- The heartbeat task packs a frame, and the telemetry task another, for which it gets
the mutex first. -/
def telemetryFirst : List ChainInput :=
  List.replicate 3 (.task .heartbeat 5) ++ List.replicate 29 (.task .telemetry 7) ++
    List.replicate 26 (.task .heartbeat 9) ++
    [.host (.poll (.ready true)), .host (.uartRead (.ok (List.replicate 30 0))),
      .host (.push {}), .host (.uartRead (.ok (List.replicate 30 0))), .host (.push {}),
      .host (.uartRead (.error .eagain)), .host .supervisorRead, .host .supervisorRead]

theorem tasks_reach_supervisor_telemetryFirst :
    ∃ dev, safetyCoproInit 0 0 1 = some dev ∧
      let c := Machine.after Chain.step { host := { dev } } telemetryFirst
      let events := Machine.outputs Chain.step { host := { dev } } telemetryFirst
      let locks := events.flatMap ChainEvent.locks
      let rx := (events.flatMap ChainEvent.linkd).flatMap LinkdEvent.rx
      locks = (events.flatMap ChainEvent.calls).reverse ∧
        (rx.flatMap RxEvent.parsed).length = 2 ∧
        (events.flatMap ChainEvent.calls).Perm (locks ++ c.firmware.waiting) ∧
        rx.flatMap RxEvent.pushes ++ c.host.pc.pending = locks ∧
        ∀ f ∈ rx.flatMap RxEvent.parsed, f.ok := by
  refine ⟨_, rfl, by decide +kernel, by decide +kernel, ?_⟩
  obtain ⟨hcalls, -, hall, -, hok⟩ := @tasks_reach_supervisor 0 0 1 _ rfl telemetryFirst
  exact ⟨hcalls, hall (by decide +kernel), hok⟩

/-- Down: what the firmware takes from the UART are the frames written to the device,
once each and in order, and all of them when nothing is left on the way, if no write of
the daemon failed and nothing stands behind the frames in their slots. -/
theorem writes_reach_firmware {hbTimeoutMs : U32} {fifoDepth cpus : Nat} {dev : SafetyCoproDev}
    (h : safetyCoproInit hbTimeoutMs fifoDepth cpus = some dev) (inputs : List ChainInput) :
    let c := Machine.after Chain.step { host := { dev } } inputs
    let events := Machine.outputs Chain.step { host := { dev } } inputs
    let linkd := events.flatMap ChainEvent.linkd
    let written := linkd.flatMap LinkdEvent.written
    (∀ line ∈ linkd.flatMap LinkdEvent.line, line.kind ≠ .uartTxFailed) →
    (∀ frame ∈ written, ValidFrame frame) →
      events.flatMap ChainEvent.messages <+: written.map SafetyRxFrame.ofBytes ∧
      (c.down = [] → c.host.pc.current = [] → c.host.dev.txFifo = [] →
        events.flatMap ChainEvent.messages = written.map SafetyRxFrame.ofBytes) := by
  intro c events linkd written hreport hvalid
  have hinv := Chain.conveys_run { dev } inputs
  obtain ⟨hafter, houtputs⟩ := Chain.linkd_run { host := { dev } } inputs
  have hrelayed := relayed_run (SafetyCoproDev.init_fifos h).2
    (Machine.translated Chain.step Chain.linkdInputs { host := { dev } } inputs)
  rw [hafter, houtputs] at hrelayed
  obtain ⟨bytes, hbytes, hfeed⟩ := hinv.down
  have hreceived := hrelayed.received hreport hvalid
  rw [← hbytes, List.append_assoc, rxFeed_append, hfeed] at hreceived
  have hmessages : events.flatMap ChainEvent.messages ++
        (rxFeed c.firmware.rxs (c.down ++ c.host.pc.unsent)).2 =
      ((linkd.flatMap LinkdEvent.done).map Prod.fst ++ c.host.pc.current).map
        SafetyRxFrame.ofBytes := (Prod.mk.inj hreceived).2
  have hwritten : written.map SafetyRxFrame.ofBytes = events.flatMap ChainEvent.messages ++
      ((rxFeed c.firmware.rxs (c.down ++ c.host.pc.unsent)).2 ++
        c.host.dev.txFifo.map SafetyRxFrame.ofBytes) := by
    rw [← List.append_assoc, hmessages, ← List.map_append]
    exact congrArg _ hrelayed.conserved
  refine ⟨hwritten ▸ List.prefix_append _ _, fun hdown hcurrent hfifo => ?_⟩
  have hsent := c.host.pc.sent_append_unsent
  rw [hcurrent, List.flatten_nil] at hsent
  rw [hwritten, hdown, hfifo, (List.append_eq_nil_iff.mp hsent).2]
  exact (List.append_nil _).symm

/-- The heartbeat task sends a frame, which goes all the way up, and an `ACK` comes
down. -/
def heartbeatAndAck : List ChainInput :=
  List.replicate 28 (.task .heartbeat 5) ++
    [.host (.poll (.ready true)), .host (.uartRead (.ok (List.replicate 10 0))),
      .host (.uartRead (.ok (List.replicate 100 0))), .host (.push {}),
      .host (.uartRead (.error .eagain)), .host .supervisorRead,
      .host (.other ⟨.write (buildAck 1 0 0) false, trivial⟩ {}), .host .pop,
      .host (.uartWrite (.ok 20)), .receive 7, .receive 13]

theorem writes_reach_firmware_ack :
    ∃ dev, safetyCoproInit 0 0 1 = some dev ∧
      let events := Machine.outputs Chain.step { host := { dev } } heartbeatAndAck
      let written := (events.flatMap ChainEvent.linkd).flatMap LinkdEvent.written
      written = [buildAck 1 0 0] ∧
        events.flatMap ChainEvent.messages = written.map SafetyRxFrame.ofBytes :=
  ⟨_, rfl, by decide +kernel,
    (@writes_reach_firmware 0 0 1 _ rfl heartbeatAndAck (by decide +kernel)
      (by decide +kernel)).2 (by decide +kernel) (by decide +kernel) (by decide +kernel)⟩

end SafetyCopro
