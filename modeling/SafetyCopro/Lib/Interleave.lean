import Mathlib.Data.List.Induction
import Mathlib.Data.Multiset.AddSub
import SafetyCopro.Lib.Machine

/-!
Calls side by side on a shared state. A call is a sequence of sections that
nothing interrupts; any number of calls can be under way, and any of them goes on
next. What holds whichever it is speaks of the shared state and of the sections
that are still to come, in whatever calls they stand.
-/

namespace Interleave
variable {σ κ α ω : Type*}

/-- What a section leaves: the shared state, the sections its call goes on with,
and what it puts out. -/
structure Effect (σ α ω : Type*) where
  shared : σ
  next : List α := []
  out : List ω := []

/-- The shared state, and what is left of every call. -/
structure Pool (σ α : Type*) where
  shared : σ
  calls : List (List α) := []

/-- A call begins, or the `i`-th goes on, with what it reads of its surroundings. -/
inductive Move (κ α : Type*) where
  | start (call : List α)
  | run (i : Nat) (env : κ)

def Pool.pending (p : Pool σ α) : Multiset α := p.calls.flatten

variable (exec : α → κ → σ → Effect σ α ω)

def step (p : Pool σ α) : Move κ α → Pool σ α × List ω
  | .start call => ({ p with calls := p.calls ++ [call] }, [])
  | .run i env =>
      match p.calls[i]? with
      | some (a :: rest) =>
          ({ shared := (exec a env p.shared).shared
             calls := p.calls.set i ((exec a env p.shared).next ++ rest) },
            (exec a env p.shared).out)
      | _ => (p, [])

/-! ### Any order -/

section Order
variable {exec} {p : Pool σ α} {i : Nat} {a : α} {rest : List α}

theorem step_of_call (h : p.calls[i]? = some (a :: rest)) (env : κ) :
    step exec p (.run i env) =
      ({ shared := (exec a env p.shared).shared
         calls := p.calls.set i ((exec a env p.shared).next ++ rest) },
        (exec a env p.shared).out) := by
  rw [step, h]

theorem mem_pending (h : p.calls[i]? = some (a :: rest)) : a ∈ p.pending :=
  List.mem_flatten.mpr ⟨a :: rest, List.mem_of_getElem? h, List.mem_cons_self⟩

theorem exists_call (h : p.pending ≠ 0) :
    ∃ (i : Nat) (a : α) (rest : List α), p.calls[i]? = some (a :: rest) := by
  obtain ⟨a, ha⟩ := Multiset.exists_mem_of_ne_zero h
  obtain ⟨call, hcall, ha⟩ := List.mem_flatten.mp ha
  obtain ⟨i, hi⟩ := List.getElem?_of_mem hcall
  cases call with
  | nil => cases ha
  | cons b rest => exact ⟨i, b, rest, hi⟩

theorem pending_start (call : List α) :
    (step exec p (.start call)).1.pending = p.pending + (call : Multiset α) := by
  rw [step, Pool.pending, List.flatten_append, List.flatten_singleton, ← Multiset.coe_add]
  rfl

theorem flatten_set {calls : List (List α)} (h : calls[i]? = some (a :: rest)) (next : List α) :
    ∃ M : Multiset α, (calls.flatten : Multiset α) = a ::ₘ M ∧
      ((calls.set i (next ++ rest)).flatten : Multiset α) = (next : Multiset α) + M := by
  induction calls generalizing i with
  | nil => cases h
  | cons call calls ih =>
      cases i with
      | zero =>
          obtain rfl := Option.some.inj h
          refine ⟨(rest ++ calls.flatten : List α), rfl, ?_⟩
          rw [List.set_cons_zero, List.flatten_cons, List.append_assoc, Multiset.coe_add]
      | succ i =>
          obtain ⟨M, hbefore, hafter⟩ := ih h
          refine ⟨(call : Multiset α) + M, ?_, ?_⟩
          · rw [List.flatten_cons, ← Multiset.coe_add, hbefore, Multiset.add_cons]
          · rw [List.set_cons_succ, List.flatten_cons, ← Multiset.coe_add, hafter,
              ← Multiset.add_assoc, ← Multiset.add_assoc, Multiset.add_comm (call : Multiset α)]

/-- A call that goes on takes one section out of those to come and puts in those
that follow it. -/
theorem pending_run (h : p.calls[i]? = some (a :: rest)) (env : κ) :
    ∃ M, p.pending = a ::ₘ M ∧
      (step exec p (.run i env)).1.pending = ((exec a env p.shared).next : Multiset α) + M := by
  obtain ⟨M, hbefore, hafter⟩ := flatten_set h (exec a env p.shared).next
  refine ⟨M, hbefore, ?_⟩
  rw [step_of_call h]
  exact hafter

theorem step_run (i : Nat) (env : κ) :
    step exec p (.run i env) = (p, []) ∨
      ∃ a M, p.pending = a ::ₘ M ∧
        (step exec p (.run i env)).1.shared = (exec a env p.shared).shared ∧
        (step exec p (.run i env)).1.pending = ((exec a env p.shared).next : Multiset α) + M ∧
        (step exec p (.run i env)).2 = (exec a env p.shared).out := by
  cases hcall : p.calls[i]? with
  | none => exact Or.inl (by rw [step, hcall])
  | some call =>
      cases call with
      | nil => exact Or.inl (by rw [step, hcall])
      | cons a rest =>
          obtain ⟨M, hbefore, hafter⟩ := @pending_run _ _ _ _ exec p i a rest hcall env
          refine Or.inr ⟨a, M, hbefore, ?_, hafter, ?_⟩
          · rw [step_of_call hcall]
          · rw [step_of_call hcall]

/-- The moves of a run: the calls that begin, and the surroundings they meet. -/
def Allowed (starts : List α → Prop) (meets : κ → Prop) : Move κ α → Prop
  | .start call => starts call
  | .run _ env => meets env

/-- What every section keeps, with whatever else is to come, holds in every order. -/
theorem invariant {P : List ω → σ → Multiset α → Prop} {starts : List α → Prop}
    {meets : κ → Prop}
    (hstart : ∀ out s M call, starts call → P out s M → P out s (M + (call : Multiset α)))
    (hexec : ∀ out s M a env, meets env → P out s (a ::ₘ M) →
      P (out ++ (exec a env s).out) (exec a env s).shared ((exec a env s).next + M))
    (h : P [] p.shared p.pending) {moves : List (Move κ α)}
    (hmoves : ∀ m ∈ moves, Allowed starts meets m) :
    P (Machine.outputs (step exec) p moves) (Machine.after (step exec) p moves).shared
      (Machine.after (step exec) p moves).pending := by
  refine Machine.outputs_of_along (P := fun out (p : Pool σ α) => P out p.shared p.pending)
    (G := fun _ m => Allowed starts meets m) (fun out p m hp hm => ?_) h
    (Machine.along_of_forall hmoves)
  cases m with
  | start call =>
      rw [pending_start]
      exact (List.append_nil out).symm ▸ hstart out p.shared p.pending call hm hp
  | run i env =>
      obtain hidle | ⟨a, M, hbefore, hshared, hafter, hout⟩ := @step_run _ _ _ _ exec p i env
      · rw [hidle, List.append_nil]
        exact hp
      · rw [hshared, hafter, hout]
        exact hexec out p.shared M a env hm (hbefore ▸ hp)

end Order

/-! ### One call among others -/

section Among
variable {exec} {p : Pool σ α} {i : Nat} {call : List α}

/-- Only its own sections move a call on. -/
theorem step_calls (h : p.calls[i]? = some call) (m : Move κ α) :
    (step exec p m).1.calls[i]? = some call ∨
      ∃ env a rest, m = .run i env ∧ call = a :: rest ∧
        (step exec p m).1.calls[i]? = some ((exec a env p.shared).next ++ rest) := by
  have hlt := (List.getElem?_eq_some_iff.mp h).1
  cases m with
  | start call' => exact Or.inl ((List.getElem?_append_left hlt).trans h)
  | run j env =>
      cases hj : p.calls[j]? with
      | none => exact Or.inl (by rw [step, hj]; exact h)
      | some callj =>
          cases callj with
          | nil => exact Or.inl (by rw [step, hj]; exact h)
          | cons a rest =>
              rw [step_of_call hj]
              by_cases hij : j = i
              · subst hij
                refine Or.inr ⟨env, a, rest, rfl, Option.some.inj (h.symm.trans hj), ?_⟩
                exact List.getElem?_set_self hlt
              · exact Or.inl ((List.getElem?_set_ne hij).trans h)

/-- What no move of another call can break, and every section of its own keeps, holds
of a call wherever it has come to. -/
theorem call_history (hcall : p.calls[i]? = some call) {Q : List (Move κ α) → List α → Prop}
    (hbegin : Q [] call) (hstable : ∀ ms m c, Q ms c → Q (ms ++ [m]) c)
    {moves : List (Move κ α)}
    (hown : ∀ ms env a rest, ms ++ [.run i env] <+: moves → Q ms (a :: rest) →
      Q (ms ++ [.run i env])
        ((exec a env (Machine.after (step exec) p ms).shared).next ++ rest)) :
    ∃ c, (Machine.after (step exec) p moves).calls[i]? = some c ∧ Q moves c := by
  induction moves using List.reverseRecOn with
  | nil => exact ⟨call, hcall, hbegin⟩
  | append_singleton ms m ih =>
      obtain ⟨c, hc, hQ⟩ := ih fun ms' env a rest hpre =>
        hown ms' env a rest (hpre.trans (List.prefix_append _ _))
      rw [Machine.after_append]
      obtain hsame | ⟨env, a, rest, rfl, rfl, hnext⟩ := @step_calls σ κ α ω exec _ i c hc m
      · exact ⟨c, hsame, hstable ms m c hQ⟩
      · exact ⟨_, hnext, hown ms env a rest (List.prefix_refl _) hQ⟩

end Among

/-! ### One call without interruption -/

/-- Up to `n` sections of a call, with nothing in between. -/
def alone (env : κ) : Nat → σ → List α → Effect σ α ω
  | 0, s, call => { shared := s, next := call }
  | _ + 1, s, [] => { shared := s }
  | n + 1, s, a :: rest =>
      let e := exec a env s
      let r := alone env n e.shared (e.next ++ rest)
      { r with out := e.out ++ r.out }

section Alone
variable {exec} {env : κ}

@[simp] theorem alone_nil (n : Nat) (s : σ) : alone exec env n s [] = { shared := s } := by
  cases n <;> rfl

theorem alone_cons (n : Nat) (s : σ) (a : α) (rest : List α) :
    alone exec env (n + 1) s (a :: rest) =
      { alone exec env n (exec a env s).shared ((exec a env s).next ++ rest) with
        out := (exec a env s).out ++
          (alone exec env n (exec a env s).shared ((exec a env s).next ++ rest)).out } := rfl

/-- The other calls of the pool stay where they are. -/
theorem run_alone {p : Pool σ α} {i : Nat} {call : List α} (h : p.calls[i]? = some call) (n : Nat) :
    Machine.after (step exec) p (List.replicate n (.run i env)) =
        { shared := (alone exec env n p.shared call).shared
          calls := p.calls.set i (alone exec env n p.shared call).next } ∧
      Machine.outputs (step exec) p (List.replicate n (.run i env)) =
        (alone exec env n p.shared call).out := by
  induction n generalizing p call with
  | zero =>
      obtain ⟨hlt, rfl⟩ := List.getElem?_eq_some_iff.mp h
      refine ⟨?_, rfl⟩
      rw [alone, List.set_getElem_self hlt]
      rfl
  | succ n ih =>
      rw [List.replicate_succ, Machine.after_cons, Machine.outputs_cons]
      cases call with
      | nil =>
          have hidle : step exec p (.run i env) = (p, []) := by rw [step, h]
          obtain ⟨hafter, hout⟩ := ih h
          rw [hidle, hafter, hout]
          simp only [alone_nil, List.nil_append, and_self]
      | cons a rest =>
          have hlt := (List.getElem?_eq_some_iff.mp h).1
          have hstep := @step_of_call _ _ _ _ exec p i a rest h env
          have hcall : (step exec p (.run i env)).1.calls[i]? =
              some ((exec a env p.shared).next ++ rest) := by
            rw [hstep]
            exact List.getElem?_set_self hlt
          obtain ⟨hafter, hout⟩ := ih hcall
          rw [hafter, hout, hstep, alone_cons, List.set_set]
          exact ⟨rfl, rfl⟩

end Alone

/-- A call that nothing interrupts comes to its end. -/
def Completes (env : κ) (s : σ) (call : List α) (s' : σ) (out : List ω) : Prop :=
  ∃ n, alone exec env n s call = { shared := s', out }

section Completes
variable {exec} {env : κ} {s s' s'' : σ}

theorem completes_nil : Completes exec env s [] s [] := ⟨0, rfl⟩

theorem completes_cons {a : α} {rest : List α} {out : List ω}
    (h : Completes exec env (exec a env s).shared ((exec a env s).next ++ rest) s' out) :
    Completes exec env s (a :: rest) s' ((exec a env s).out ++ out) := by
  obtain ⟨n, hn⟩ := h
  exact ⟨n + 1, by rw [alone_cons, hn]⟩

theorem alone_append {n : Nat} {call rest : List α} {out : List ω}
    (h : alone exec env n s call = { shared := s', out }) (m : Nat) :
    ∃ k, alone exec env k s (call ++ rest) =
      { alone exec env m s' rest with out := out ++ (alone exec env m s' rest).out } := by
  induction n generalizing s call out with
  | zero =>
      obtain ⟨rfl, rfl, rfl⟩ := Effect.mk.inj h
      exact ⟨m, rfl⟩
  | succ n ih =>
      cases call with
      | nil =>
          obtain ⟨rfl, -, rfl⟩ := Effect.mk.inj h
          exact ⟨m, rfl⟩
      | cons a call =>
          rw [alone_cons] at h
          obtain ⟨hs, hnext, rfl⟩ := Effect.mk.inj h
          have hrest : alone exec env n (exec a env s).shared ((exec a env s).next ++ call) =
              { shared := s'
                out := (alone exec env n (exec a env s).shared
                  ((exec a env s).next ++ call)).out } := by rw [← hs, ← hnext]
          obtain ⟨k, hk⟩ := ih hrest
          refine ⟨k + 1, ?_⟩
          rw [List.cons_append, alone_cons, ← List.append_assoc, hk]
          simp only [List.append_assoc]

theorem Completes.append {call rest : List α} {out out' : List ω}
    (h : Completes exec env s call s' out) (h' : Completes exec env s' rest s'' out') :
    Completes exec env s (call ++ rest) s'' (out ++ out') := by
  obtain ⟨n, hn⟩ := h
  obtain ⟨m, hm⟩ := h'
  obtain ⟨k, hk⟩ := @alone_append _ _ _ _ exec env _ _ n call rest out hn m
  exact ⟨k, by rw [hk, hm]⟩

end Completes

/-! ### One call after the other -/

/-- The call that the move begins. -/
def Move.begun : Move κ α → Option (List α)
  | .start call => some call
  | .run .. => none

section Serial
variable {ι : Type*}

/-- One call after the other, the first of them the `i`-th: each begins and is moved on
as often as it says, in its own surroundings. -/
def serial (call : ι → List α) (env : ι → κ) : Nat → List (ι × Nat) → List (Move κ α)
  | _, [] => []
  | i, (x, n) :: turns =>
      .start (call x) :: (List.replicate n (.run i (env x)) ++ serial call env (i + 1) turns)

variable {call : ι → List α} {env : ι → κ}

theorem serial_begun (i : Nat) (turns : List (ι × Nat)) :
    (serial call env i turns).filterMap Move.begun = turns.map fun turn => call turn.1 := by
  induction turns generalizing i with
  | nil => rfl
  | cons turn turns ih =>
      have hmoves : (List.replicate turn.2 (Move.run i (env turn.1) : Move κ α)).filterMap
          Move.begun = [] := List.filterMap_replicate_of_none rfl
      rw [serial, List.filterMap_cons, Move.begun, List.filterMap_append, hmoves,
        List.nil_append, ih]
      rfl

theorem serial_allowed {starts : List α → Prop} {meets : κ → Prop} {turns : List (ι × Nat)}
    (hstarts : ∀ turn ∈ turns, starts (call turn.1)) (hmeets : ∀ turn ∈ turns, meets (env turn.1))
    (i : Nat) : ∀ m ∈ serial call env i turns, Allowed starts meets m := by
  induction turns generalizing i with
  | nil => exact List.forall_mem_nil _
  | cons turn turns ih =>
      obtain ⟨hstart, hstarts⟩ := List.forall_mem_cons.mp hstarts
      obtain ⟨hmeet, hmeets⟩ := List.forall_mem_cons.mp hmeets
      refine List.forall_mem_cons.mpr ⟨hstart, List.forall_mem_append.mpr ⟨?_, ih hstarts hmeets _⟩⟩
      intro m hm
      obtain rfl := List.eq_of_mem_replicate hm
      exact hmeet

/-- A machine whose steps are calls that nothing interrupts: its runs are the runs
of the pool in which every call ends before the next begins. -/
theorem exists_serial {ω' : Type*} {exec : α → κ → σ → Effect σ α ω}
    {atomic : σ → ι → σ × List ω'} {see : ω → Option ω'} {P : σ → Prop}
    (hP : ∀ s x, P s → P (atomic s x).1)
    (hcall : ∀ s x, P s → ∃ out, Completes exec (env x) s (call x) (atomic s x).1 out ∧
      out.filterMap see = (atomic s x).2)
    {p : Pool σ α} (hp : P p.shared) (inputs : List ι) :
    ∃ turns : List (ι × Nat), turns.map Prod.fst = inputs ∧
      (Machine.after (step exec) p (serial call env p.calls.length turns)).shared =
        Machine.after atomic p.shared inputs ∧
      (Machine.after (step exec) p (serial call env p.calls.length turns)).pending = p.pending ∧
      (Machine.outputs (step exec) p (serial call env p.calls.length turns)).filterMap see =
        Machine.outputs atomic p.shared inputs := by
  induction inputs generalizing p with
  | nil => exact ⟨[], rfl, rfl, rfl, rfl⟩
  | cons x inputs ih =>
      obtain ⟨out, ⟨n, hn⟩, hsee⟩ := hcall p.shared x hp
      have hi : (p.calls ++ [call x])[p.calls.length]? = some (call x) :=
        List.getElem?_concat_length
      obtain ⟨hafter, hout⟩ := @run_alone σ κ α ω exec (env x)
        { p with calls := p.calls ++ [call x] } p.calls.length (call x) hi n
      have hset : (p.calls ++ [call x]).set p.calls.length [] = p.calls ++ [[]] := by
        rw [List.set_append_right _ _ le_rfl, Nat.sub_self]
        rfl
      rw [hn, hset] at hafter
      rw [hn] at hout
      obtain ⟨turns, rfl, hshared, hpending, hseen⟩ :=
        @ih { shared := (atomic p.shared x).1, calls := p.calls ++ [[]] } (hP _ _ hp)
      rw [List.length_append, List.length_singleton] at hshared hpending hseen
      refine ⟨(x, n) :: turns, rfl, ?_⟩
      rw [serial, Machine.after_cons, Machine.after_append, Machine.outputs_cons,
        Machine.outputs_append, Machine.after_cons, Machine.outputs_cons]
      simp only [step, hafter, hout, List.nil_append, List.filterMap_append, hsee, hseen]
      refine ⟨hshared, hpending.trans ?_, trivial⟩
      rw [Pool.pending, Pool.pending, List.flatten_append, List.flatten_singleton, List.append_nil]

end Serial

end Interleave
