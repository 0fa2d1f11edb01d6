import SafetyCopro.Supervisor.LiveReplay

/-!
A log that ends anywhere, as a crash of the supervisor leaves it. Of the line in
which it ends the reader may find some fields, and of one field a piece. It takes
the line for what it would have been, or for nothing.
-/

namespace SafetyCopro
open FlatRecord

/-! ### A piece of a line -/

/-- A piece of a text as the reader has it: with the backslash of an escape whose other
half is missing. -/
def Torn (piece whole : Text) : Prop :=
  ∃ u, u <+: whole ∧ (piece = u ∨ piece = u ++ [backslash])

namespace Torn
variable {piece whole pat : Text}

theorem nil : Torn [] whole := ⟨[], List.nil_prefix, Or.inl rfl⟩

theorem backslash_only : Torn [backslash] whole := ⟨[], List.nil_prefix, Or.inr rfl⟩

theorem cons (c : U8) (h : Torn piece whole) : Torn (c :: piece) (c :: whole) := by
  obtain ⟨u, hu, hpiece⟩ := h
  refine ⟨c :: u, List.cons_prefix_cons.mpr ⟨rfl, hu⟩, ?_⟩
  obtain rfl | rfl := hpiece
  · exact Or.inl rfl
  · exact Or.inr rfl

theorem isPrefix (h : Torn piece whole) (hb : backslash ∉ piece) : piece <+: whole := by
  obtain ⟨u, hu, rfl | rfl⟩ := h
  · exact hu
  · exact absurd (List.mem_append_right u List.mem_cons_self) hb

theorem contains (h : Torn piece whole) (hb : backslash ∉ pat)
    (hpat : Text.contains piece pat = true) : Text.contains whole pat = true := by
  obtain ⟨u, ⟨w, rfl⟩, rfl | rfl⟩ := h
  · exact Text.contains_append hpat w
  · exact Text.contains_append (Text.contains_concat hb hpat) w

end Torn

theorem readString_torn {t w : Text} (h : t <+: w) : Torn (readString t) (readString w) := by
  cases t with
  | nil => exact .nil
  | cons c t =>
      induction w using readString.induct generalizing c t with
      | case1 => exact absurd (List.prefix_nil.mp h) (List.cons_ne_nil c t)
      | case2 =>
          obtain ⟨rfl, -⟩ := List.cons_prefix_cons.mp h
          rw [readString_quote]
          exact .nil
      | case3 d hq =>
          obtain ⟨rfl, ht⟩ := List.cons_prefix_cons.mp h
          obtain rfl := List.prefix_nil.mp ht
          exact ⟨_, List.prefix_refl _, Or.inl rfl⟩
      | case4 nx w ih =>
          obtain ⟨rfl, ht⟩ := List.cons_prefix_cons.mp h
          cases t with
          | nil => exact .backslash_only
          | cons d t =>
              obtain ⟨rfl, hrest⟩ := List.cons_prefix_cons.mp ht
              rw [readString_pair, readString_pair]
              refine Torn.cons _ ?_
              cases t with
              | nil => exact .nil
              | cons e t => exact ih e t hrest
      | case5 nx w hne =>
          obtain ⟨rfl, -⟩ := List.cons_prefix_cons.mp h
          rw [readString_quote]
          exact .nil
      | case6 d nx w hb hq ih =>
          obtain ⟨rfl, ht⟩ := List.cons_prefix_cons.mp h
          rw [readString_plain hq hb, readString_plain hq hb]
          refine Torn.cons _ ?_
          cases t with
          | nil => exact .nil
          | cons e t => exact ih e t ht

/-- A field that is found in a piece of a line is found in the line, and read in part. -/
theorem extractString_torn {t line key v : Text} (ht : t <+: line)
    (h : extractString t key = some v) : ∃ w, extractString line key = some w ∧ Torn v w := by
  obtain ⟨s, hs, rfl⟩ := Option.map_eq_some_iff.mp h
  obtain ⟨w, rfl⟩ := ht
  refine ⟨readString (s ++ w), ?_, readString_torn (List.prefix_append s w)⟩
  rw [extractString, Text.behind_append hs, Option.map_some]

theorem extractString_getD_torn {t line key w : Text} (ht : t <+: line)
    (h : extractString line key = some w) : Torn ((extractString t key).getD []) w := by
  cases hv : extractString t key with
  | none => exact .nil
  | some v =>
      obtain ⟨w', hw', htorn⟩ := extractString_torn ht hv
      rw [h] at hw'
      obtain rfl := Option.some.inj hw'
      exact htorn

/-- A number behind its key, in front of which only the brace stands. -/
theorem extractInt_front (key : Text) {z : Int} (hlo : -(2 ^ 63) ≤ z) (hhi : z < 2 ^ 63) {c : U8}
    (hc : Text.isDigit c = false) (u : Text) :
    extractInt ([openBrace] ++ (keyPattern key [] ++ (Text.decimal z ++ c :: u))) key =
      .ok (some z) := by
  have hskip : Text.Skips (keyPattern key []) [openBrace]
      (keyPattern key [] ++ (Text.decimal z ++ c :: u)) :=
    ⟨fun h => absurd (List.cons_prefix_cons.mp h).1 (by decide), trivial⟩
  have hhead : (Text.decimal z ++ c :: u).head? ≠ some quote := by
    intro h
    rw [List.head?_append_of_ne_nil _ (Text.decimal_ne_nil z)] at h
    exact quote_not_mem_decimal z (List.mem_of_head? h)
  rw [extractInt, Text.behind_first _ hskip]
  simp only [hhead, if_false, Text.numberPrefix_decimal _ hc, Text.decimal_ne_nil,
    Text.stol_decimal hlo hhi]
  rfl

/-- The line up to its kind. -/
theorem serializeEvent_kind (e : LogEvent) :
    ∃ more, serializeEvent e = [openBrace] ++ (keyPattern (Text.lit "ts_ms") [] ++
        (Text.decimal e.tsMs.toInt ++ comma :: (keyPattern (Text.lit "kind") [quote] ++ more))) ∧
      Text.behind (keyPattern (Text.lit "kind") [quote]) (serializeEvent e) = some more := by
  obtain ⟨ms, hmembers⟩ : ∃ ms, e.members =
      [(Text.lit "ts_ms", .num (Text.decimal e.tsMs.toInt))] ++
        (Text.lit "kind", .str (logKindName e.kind)) :: ms := ⟨_, rfl⟩
  have hne : ∀ m ∈ [(Text.lit "ts_ms", Value.num (Text.decimal e.tsMs.toInt))],
      Text.lit "kind" ≠ m.1 :=
    List.forall_mem_singleton.mpr (by decide : Text.lit "kind" ≠ Text.lit "ts_ms")
  have hrender : (Value.str (logKindName e.kind)).render =
      [quote] ++ (logKindName e.kind ++ [quote]) := rfl
  refine ⟨_, ?_, behind_serializeEvent _ _ hmembers hne hrender⟩
  rw [serializeEvent_eq_render, hmembers, render_append, render_cons]
  simp only [List.flatMap_cons, List.flatMap_nil, member, keyPattern, Value.render,
    List.append_assoc, List.cons_append, List.nil_append]

/-- Where the kind of a line is found, its time is whole. -/
theorem extractInt_torn {e : LogEvent} {t : Text} (ht : t <+: serializeEvent e) {kind : Text}
    (hkind : extractString t (Text.lit "kind") = some kind) :
    extractInt t (Text.lit "ts_ms") = .ok (some e.tsMs.toInt) := by
  obtain ⟨more, hline, hbehind⟩ := serializeEvent_kind e
  obtain ⟨w, hw⟩ := ht
  obtain ⟨s, hs, -⟩ := Option.map_eq_some_iff.mp hkind
  have hmore : more = s ++ w := by
    have happend := Text.behind_append hs w
    rw [hw, hbehind] at happend
    exact Option.some.inj happend
  have hfront : t = [openBrace] ++ (keyPattern (Text.lit "ts_ms") [] ++
      (Text.decimal e.tsMs.toInt ++ comma :: (keyPattern (Text.lit "kind") [quote] ++ s))) := by
    refine (List.append_left_inj w).mp ?_
    rw [hw, hline, hmore]
    simp only [List.append_assoc, List.cons_append]
  have hlo := BitVec.le_two_mul_toInt (x := e.tsMs)
  have hhi := BitVec.two_mul_toInt_lt (x := e.tsMs)
  rw [hfront]
  exact extractInt_front _ (by omega) (by omega) (by decide) _

/-! ### What the reader makes of it -/

/-- A received frame stands in the log by the name of its type. -/
def LogEvent.Named (e : LogEvent) : Prop :=
  e.kind = .rxFrame → ∃ type, e.frameType = frameTypeName type

def frameTypeNames : List Text :=
  [Text.lit "HEARTBEAT", Text.lit "TELEMETRY", Text.lit "FAULT_EVENT", Text.lit "COMMAND",
   Text.lit "ACK", Text.lit "NACK", Text.lit "RECOVERY_REPORT", []]

theorem frameTypeName_mem (type : U8) : frameTypeName type ∈ frameTypeNames := by
  unfold frameTypeName
  repeat' split
  all_goals simp only [frameTypeNames, List.mem_cons, true_or, or_true]

/-- No name of a type begins with one that the reader looks for. -/
theorem frameTypeName_of_isPrefix {name : Text}
    (hname : name = Text.lit "HEARTBEAT" ∨ name = Text.lit "FAULT_EVENT") {type : U8}
    (h : name <+: frameTypeName type) : frameTypeName type = name := by
  obtain rfl | rfl := hname
  · have hall : ∀ w ∈ frameTypeNames, Text.lit "HEARTBEAT" <+: w →
        w = Text.lit "HEARTBEAT" := by decide
    exact hall _ (frameTypeName_mem type) h
  · have hall : ∀ w ∈ frameTypeNames, Text.lit "FAULT_EVENT" <+: w →
        w = Text.lit "FAULT_EVENT" := by decide
    exact hall _ (frameTypeName_mem type) h

theorem LogEvent.Named.of_torn {e : LogEvent} (h : e.Named) (hkind : e.kind = .rxFrame)
    {name : Text} (hname : name = Text.lit "HEARTBEAT" ∨ name = Text.lit "FAULT_EVENT")
    (htorn : Torn name e.frameType) : e.frameType = name := by
  obtain ⟨type, htype⟩ := h hkind
  have hb : backslash ∉ name := by obtain rfl | rfl := hname <;> decide
  rw [htype] at htorn ⊢
  exact frameTypeName_of_isPrefix hname (htorn.isPrefix hb)

theorem kind_of_isPrefix {kind : LogKind} :
    (Text.lit "rx_frame" <+: logKindName kind → kind = .rxFrame) ∧
      (Text.lit "timeout" <+: logKindName kind → kind = .timeout) ∧
      (Text.lit "tx_command" <+: logKindName kind → kind = .txCommand) := by
  cases kind <;> decide

namespace Replay

/-- The line counts for nothing, or for what it would have been. -/
def TakesFor (r : Replay) (e : LogEvent) (out : Replay × List TransitionResult) : Prop :=
  (out.1.fsm, out.2) = (r.fsm, []) ∨ (out.1.fsm, out.2) = r.fsm.replay e

variable {r : Replay} {e : LogEvent}

theorem dispatch_torn (hnamed : e.Named) {kind frameType detail : Text}
    (hkind : Torn kind (logKindName e.kind)) (hframeType : Torn frameType e.frameType)
    (hdetail : Torn detail e.detail) : r.TakesFor e (r.dispatch kind frameType detail) := by
  obtain ⟨hrx, htimeout, htx⟩ := @kind_of_isPrefix e.kind
  unfold dispatch
  split
  · rename_i hk
    subst hk
    have hkind := hrx (hkind.isPrefix (by decide))
    split
    · rename_i hname
      subst hname
      have hname := hnamed.of_torn hkind (Or.inl rfl) hframeType
      refine Or.inr ?_
      rw [HealthState.replay, LogEvent.drives, hkind, hname, if_pos rfl]
      rfl
    split
    · rename_i hname
      subst hname
      have hname := hnamed.of_torn hkind (Or.inr rfl) hframeType
      have hne : Text.lit "FAULT_EVENT" ≠ Text.lit "HEARTBEAT" := by decide
      split
      · rename_i hcritical
        have hwhole : Text.contains e.detail (Text.lit "critical") ∨
            Text.contains e.detail (Text.lit "severity=2") :=
          hcritical.imp (hdetail.contains (by decide)) (hdetail.contains (by decide))
        refine Or.inr ?_
        rw [HealthState.replay, LogEvent.drives, hkind, hname, if_neg hne, if_pos ⟨rfl, hwhole⟩]
        rfl
      · exact Or.inl rfl
    · exact Or.inl rfl
  split
  · rename_i hk
    subst hk
    refine Or.inr ?_
    rw [HealthState.replay, LogEvent.drives, htimeout (hkind.isPrefix (by decide))]
    rfl
  split
  · rename_i hk
    subst hk
    split
    · rename_i hrequest
      have hwhole := hdetail.contains (by decide) hrequest
      refine Or.inr ?_
      rw [HealthState.replay, LogEvent.drives, htx (hkind.isPrefix (by decide)), if_pos hwhole]
      rfl
    · exact Or.inl rfl
  · exact Or.inl rfl

theorem line_torn (r : Replay) (hread : e.Readable) (hnamed : e.Named) {t : Text}
    (ht : t <+: serializeEvent e) : ∃ out, r.line t = .ok out ∧ r.TakesFor e out := by
  have hkind : extractString (serializeEvent e) (Text.lit "kind") = some (logKindName e.kind) :=
    extractString_of_printable e .kind (printable_logKindName e.kind)
  have hframeType : extractString (serializeEvent e) (Text.lit "frame_type") =
      some e.frameType := extractString_of_printable e .frameType hread.frameType
  have hdetail : extractString (serializeEvent e) (Text.lit "detail") = some e.detail :=
    extractString_of_printable e .detail hread.detail
  unfold line
  split
  · exact ⟨_, rfl, Or.inl rfl⟩
  cases hfound : extractString t (Text.lit "kind") with
  | none => exact ⟨_, rfl, Or.inl rfl⟩
  | some kind =>
      have hpiece : Torn kind (logKindName e.kind) := by
        have hgetD := extractString_getD_torn ht hkind
        rwa [hfound] at hgetD
      simp only [extractInt_torn ht hfound]
      exact ⟨_, rfl, dispatch_torn hnamed hpiece (extractString_getD_torn ht hframeType)
        (extractString_getD_torn ht hdetail)⟩

theorem lines_append (r : Replay) (ls : List Text) {ls' : List Text} {r' r'' : Replay}
    {ts ts' : List TransitionResult} (h : r.lines ls = .ok (r', ts))
    (h' : r'.lines ls' = .ok (r'', ts')) : r.lines (ls ++ ls') = .ok (r'', ts ++ ts') := by
  induction ls generalizing r ts with
  | nil =>
      obtain ⟨rfl, rfl⟩ := Prod.mk.inj (Except.ok.inj h)
      exact h'
  | cons l ls ih =>
      rw [lines] at h
      rw [List.cons_append, lines]
      cases hl : r.line l with
      | error err => rw [hl] at h; cases h
      | ok out =>
          rw [hl] at h
          cases hls : out.1.lines ls with
          | error err => simp [bind, Except.bind, hls] at h
          | ok outs =>
              simp only [bind, Except.bind, hls, pure, Except.pure, Except.ok.injEq,
                Prod.mk.injEq] at h ⊢
              obtain ⟨rfl, rfl⟩ := h
              rw [ih _ hls, List.append_assoc]

end Replay

/-- The reader of a log that ends anywhere has read the log up to some line. -/
theorem runReplay_torn {log : List LogEvent} (hread : ∀ e ∈ log, e.Readable)
    (hnamed : ∀ e ∈ log, e.Named) {cut : Text} (hcut : cut <+: eventsJsonl log) :
    ∃ k n piece r ts, cut = eventsJsonl (log.take k) ++ piece ∧ Text.newline ∉ piece ∧
      (n = k ∨ n = k + 1) ∧ runReplay cut = .ok (r, ts) ∧
      r.fsm = Machine.after HealthState.replay .booting (log.take n) ∧
      ts = Machine.outputs HealthState.replay .booting (log.take n) := by
  obtain ⟨k, piece, hpieces, hpiece, htorn⟩ : ∃ k piece,
      cut = eventsJsonl (log.take k) ++ piece ∧ Text.newline ∉ piece ∧
        (piece = [] ∨ ∃ e, log[k]? = some e ∧ piece <+: serializeEvent e) :=
    Text.exists_torn serializeEvent newline_not_mem_serializeEvent hcut
  subst hpieces
  have hwhole := Replay.lines_serializeEvent {}
    fun e he => hread e (List.mem_of_mem_take (i := k) he)
  obtain ⟨hfsm, hts⟩ := Prod.mk.inj (Replay.run_eq {} (log.take k))
  have hlines : Text.getLines (eventsJsonl (log.take k) ++ piece) =
      (log.take k).map serializeEvent ++ if piece = [] then [] else [piece] :=
    Text.getLines_torn serializeEvent newline_not_mem_serializeEvent _ hpiece
  by_cases hnil : piece = []
  · refine ⟨k, k, piece, _, _, rfl, hpiece, Or.inl rfl, ?_, hfsm, hts⟩
    rw [runReplay, hlines, if_pos hnil, List.append_nil, hwhole]
  · obtain ⟨e, he, hfront⟩ := htorn.resolve_left hnil
    have hmem := List.mem_of_getElem? he
    obtain ⟨out, hline, htakes⟩ :=
      (Machine.after Replay.event {} (log.take k)).line_torn (hread e hmem) (hnamed e hmem) hfront
    have hout : runReplay (eventsJsonl (log.take k) ++ piece) =
        .ok (out.1, Machine.outputs Replay.event {} (log.take k) ++ out.2) := by
      rw [runReplay, hlines, if_neg hnil]
      refine Replay.lines_append {} _ hwhole ?_
      simp only [Replay.lines, hline, bind, Except.bind, pure, Except.pure, List.append_nil]
    obtain hstay | hmove := htakes
    · obtain ⟨hfsm', hts'⟩ := Prod.mk.inj hstay
      refine ⟨k, k, piece, _, _, rfl, hpiece, Or.inl rfl, hout, hfsm'.trans hfsm, ?_⟩
      rw [hts', List.append_nil, hts]
    · obtain ⟨hfsm', hts'⟩ := Prod.mk.inj hmove
      have htake : log.take (k + 1) = log.take k ++ [e] := by rw [List.take_add_one, he]; rfl
      refine ⟨k, k + 1, piece, _, _, rfl, hpiece, Or.inr rfl, hout, ?_, ?_⟩
      · rw [htake, Machine.after_append, hfsm', hfsm]
        rfl
      · rw [htake, Machine.outputs_append, hts', hfsm, hts, Machine.outputs_cons,
          Machine.outputs_nil, List.append_nil]
        rfl

namespace EventLoop

def liveLog (ins : List LiveInput) : List LogEvent := logOf (Machine.outputs step {} ins)

theorem named_of_log_mem {el : EventLoop} {i : LiveInput} {e : LogEvent}
    (h : .log e ∈ (el.step i).2) : e.Named := by
  intro hkind
  cases i with
  | frame f =>
      refine ⟨f.type, ?_⟩
      obtain hok | ⟨hok, hseen⟩ | hacc := el.frame_cases f
      · rw [step, processFrame_of_not_ok hok] at h
        simp only [rejectFrame, List.mem_cons, Effect.log.injEq, List.not_mem_nil, or_false,
          reduceCtorEq, false_or] at h
        obtain rfl | rfl := h <;> cases hkind
      · rw [step, processFrame_of_seen hok hseen, List.mem_singleton] at h
        obtain rfl := Effect.log.inj h
        cases hkind
      · rw [step, processFrame_of_accepts hacc] at h
        obtain h | h := List.mem_cons.mp h
        · obtain rfl := Effect.log.inj h
          rfl
        · obtain rfl := log_mem_dispatch h
          cases hkind
  | heartbeatTimeout nowMs =>
      obtain rfl : e = _ := by simpa [step, onHeartbeatTimeout] using h
      cases hkind
  | report rep =>
      obtain ⟨outcome, seq, ts⟩ := rep
      cases outcome with
      | sent =>
          simp only [step, drainReport, List.mem_cons, Effect.log.injEq, List.not_mem_nil,
            or_false, reduceCtorEq, false_or] at h
          obtain rfl | rfl := h <;> cases hkind
      | _ =>
          obtain rfl : e = _ := by simpa [step, drainReport] using h
          cases hkind

theorem named_liveLog (ins : List LiveInput) : ∀ e ∈ liveLog ins, e.Named := by
  intro e he
  obtain he | ⟨r, -, -, rfl⟩ := mem_logOf he
  · have hall : ∀ eff ∈ Machine.outputs step {} ins, ∀ e, eff = .log e → e.Named := by
      refine Machine.mem_outputs (fun el i eff heff e hlog => ?_) _ _
      exact named_of_log_mem (hlog ▸ heff)
    exact hall _ he e rfl
  · intro hkind
    cases hkind

theorem readable_liveLog (ins : List LiveInput) : ∀ e ∈ liveLog ins, e.Readable :=
  readable_logOf (Machine.mem_outputs readable_step _ _)

/-- Wherever the log of a run ends, it replays as its whole lines do, or as they do
with the one after them. In a run that replays at all, that is a run which stopped
early. -/
theorem torn_log_replay (ins : List LiveInput) {cut : Text}
    (hcut : cut <+: eventsJsonl (liveLog ins)) :
    ∃ k n piece r ts, cut = eventsJsonl ((liveLog ins).take k) ++ piece ∧
      Text.newline ∉ piece ∧ (n = k ∨ n = k + 1) ∧ runReplay cut = .ok (r, ts) ∧
      r.fsm = Machine.after HealthState.replay .booting ((liveLog ins).take n) ∧
      ts = Machine.outputs HealthState.replay .booting ((liveLog ins).take n) ∧
      ((∀ i ∈ ins, ¬ i.IsFaultEvent) → Machine.Along step (fun el i => ¬ el.Unlogged i) {} ins →
        ts <+: transitionsOf (Machine.outputs step {} ins)) := by
  obtain ⟨k, n, piece, r, ts, hpieces, hnewline, hn, hrun, hfsm, hts⟩ :=
    runReplay_torn (readable_liveLog ins) (named_liveLog ins) hcut
  refine ⟨k, n, piece, r, ts, hpieces, hnewline, hn, hrun, hfsm, hts, fun hfault hlogged => ?_⟩
  have hlive : Machine.outputs HealthState.replay .booting (liveLog ins) =
      transitionsOf (Machine.outputs step {} ins) := (replay_run hfault hlogged).2
  rw [← hlive, ← List.take_append_drop n (liveLog ins), Machine.outputs_append, hts]
  exact List.prefix_append _ _

/-- The log ends behind the last letter of `timeout`, and the reader has a timeout. -/
theorem torn_log_replay_midKind :
    (runReplay ((eventsJsonl (liveLog (recoveryInputs .success))).take 390)).map (·.1.fsm) =
        .ok .degraded ∧
      ∃ k n piece r ts,
        (eventsJsonl (liveLog (recoveryInputs .success))).take 390 =
          eventsJsonl ((liveLog (recoveryInputs .success)).take k) ++ piece ∧
        Text.newline ∉ piece ∧ (n = k ∨ n = k + 1) ∧
        runReplay ((eventsJsonl (liveLog (recoveryInputs .success))).take 390) = .ok (r, ts) ∧
        r.fsm = Machine.after HealthState.replay .booting
          ((liveLog (recoveryInputs .success)).take n) ∧
        ts = Machine.outputs HealthState.replay .booting
          ((liveLog (recoveryInputs .success)).take n) ∧
        ts <+: transitionsOf (Machine.outputs step {} (recoveryInputs .success)) := by
  refine ⟨by decide +kernel, ?_⟩
  obtain ⟨k, n, piece, r, ts, hpieces, hnewline, hn, hrun, hfsm, hts, hfront⟩ :=
    torn_log_replay (recoveryInputs .success) (List.take_prefix 390 _)
  exact ⟨k, n, piece, r, ts, hpieces, hnewline, hn, hrun, hfsm, hts,
    hfront (by decide) (by decide)⟩

end EventLoop

end SafetyCopro
