import Mathlib.Data.List.Basic

/-!
Deterministic machines that read a list of inputs and emit a list of outputs.
Every choice a scheduler or an environment makes is an input, so a run is the
list of its inputs and the state and outputs it leads to are functions of it.
-/

namespace Machine

universe u v w
variable {σ : Type u} {α : Type v} {ω : Type w}

section Runs
variable (step : σ → α → σ × List ω)

def after (s : σ) : List α → σ
  | [] => s
  | a :: as => after (step s a).1 as

def outputs (s : σ) : List α → List ω
  | [] => []
  | a :: as => (step s a).2 ++ outputs (step s a).1 as

@[simp] theorem after_nil (s : σ) : after step s [] = s := rfl

@[simp] theorem after_cons (s : σ) (a : α) (as : List α) :
    after step s (a :: as) = after step (step s a).1 as := rfl

@[simp] theorem outputs_nil (s : σ) : outputs step s [] = [] := rfl

@[simp] theorem outputs_cons (s : σ) (a : α) (as : List α) :
    outputs step s (a :: as) = (step s a).2 ++ outputs step (step s a).1 as := rfl

theorem after_append (s : σ) (as bs : List α) :
    after step s (as ++ bs) = after step (after step s as) bs := by
  induction as generalizing s with
  | nil => rfl
  | cons a as ih => exact ih _

theorem outputs_append (s : σ) (as bs : List α) :
    outputs step s (as ++ bs) = outputs step s as ++ outputs step (after step s as) bs := by
  induction as generalizing s with
  | nil => rfl
  | cons a as ih => simp only [List.cons_append, outputs_cons, after_cons, ih, List.append_assoc]

/-- `P` holds in the first state of the run and in every state it passes through. -/
def Always (P : σ → Prop) (s : σ) : List α → Prop
  | [] => P s
  | a :: as => P s ∧ Always P (step s a).1 as

/-- `G` holds of every step of the run, read in the state before the step. -/
def Along (G : σ → α → Prop) (s : σ) : List α → Prop
  | [] => True
  | a :: as => G s a ∧ Along G (step s a).1 as

instance decidableAlong {G : σ → α → Prop} [∀ s a, Decidable (G s a)] (s : σ) :
    (as : List α) → Decidable (Along step G s as)
  | [] => inferInstanceAs (Decidable True)
  | a :: as => @instDecidableAnd _ _ _ (decidableAlong (step s a).1 as)

instance decidableAlways {P : σ → Prop} [DecidablePred P] (s : σ) :
    (as : List α) → Decidable (Always step P s as)
  | [] => inferInstanceAs (Decidable (P s))
  | a :: as => @instDecidableAnd _ _ _ (decidableAlways (step s a).1 as)

def Sometime (G : σ → α → Prop) (s : σ) : List α → Prop
  | [] => False
  | a :: as => G s a ∨ Sometime G (step s a).1 as

end Runs

variable {step : σ → α → σ × List ω}

theorem Always.head {P : σ → Prop} {s : σ} {as : List α} (h : Always step P s as) : P s := by
  cases as with
  | nil => exact h
  | cons a as => exact h.1

/-- A step-wise invariant holds in every state of a run that meets the guard. -/
theorem always_of_along {P : σ → Prop} {G : σ → α → Prop}
    (hstep : ∀ s a, P s → G s a → P (step s a).1) {s : σ} {as : List α}
    (hs : P s) (hg : Along step G s as) : Always step P s as := by
  induction as generalizing s with
  | nil => exact hs
  | cons a as ih => exact ⟨hs, ih (hstep s a hs hg.1) hg.2⟩

/-- A step keeps the property exactly when it meets the guard; so does a run. -/
theorem always_iff_along {P : σ → Prop} {G : σ → α → Prop}
    (hstep : ∀ s a, P s → (P (step s a).1 ↔ G s a)) {s : σ} (hs : P s) (as : List α) :
    Always step P s as ↔ Along step G s as := by
  induction as generalizing s with
  | nil => exact ⟨fun _ => trivial, fun _ => hs⟩
  | cons a as ih =>
      constructor
      · intro h
        have hnext := h.2.head
        exact ⟨(hstep s a hs).mp hnext, (ih hnext).mp h.2⟩
      · intro h
        exact ⟨hs, (ih ((hstep s a hs).mpr h.1)).mpr h.2⟩

/-- Guards that agree where the invariant holds agree along a run. -/
theorem along_congr {P : σ → Prop} {G H : σ → α → Prop} (hstep : ∀ s a, P s → P (step s a).1)
    {s : σ} (hs : P s) (as : List α) (hiff : ∀ s, ∀ a ∈ as, P s → (G s a ↔ H s a)) :
    Along step G s as ↔ Along step H s as := by
  induction as generalizing s with
  | nil => exact Iff.rfl
  | cons a as ih =>
      obtain ⟨hhead, htail⟩ : (∀ s, P s → (G s a ↔ H s a)) ∧
          ∀ s, ∀ a ∈ as, P s → (G s a ↔ H s a) :=
        ⟨fun s => hiff s a List.mem_cons_self, fun s b hb => hiff s b (List.mem_cons_of_mem _ hb)⟩
      exact and_congr (hhead s hs) (ih (hstep s a hs) htail)

/-- A guard that only looks at the inputs. -/
theorem along_of_forall {G : α → Prop} {s : σ} {as : List α} (h : ∀ a ∈ as, G a) :
    Along step (fun _ a => G a) s as := by
  induction as generalizing s with
  | nil => trivial
  | cons a as ih =>
      obtain ⟨ha, has⟩ := List.forall_mem_cons.mp h
      exact ⟨ha, ih has⟩

theorem along_append {G : σ → α → Prop} {s : σ} {pre post : List α} :
    Along step G s (pre ++ post) ↔ Along step G s pre ∧ Along step G (after step s pre) post := by
  induction pre generalizing s with
  | nil => exact (and_iff_right trivial).symm
  | cons a pre ih => exact (and_congr_right fun _ => ih).trans and_assoc.symm

theorem after_of_along {P : σ → Prop} {G : σ → α → Prop}
    (hstep : ∀ s a, P s → G s a → P (step s a).1) {s : σ} {pre post : List α}
    (hs : P s) (hg : Along step G s (pre ++ post)) : P (after step s pre) := by
  induction pre generalizing s with
  | nil => exact hs
  | cons a pre ih => exact ih (hstep s a hs hg.1) hg.2

theorem after_invariant {P : σ → Prop} (hstep : ∀ s a, P s → P (step s a).1)
    {s : σ} (hs : P s) (as : List α) : P (after step s as) := by
  induction as generalizing s with
  | nil => exact hs
  | cons a as ih => exact ih (hstep s a hs)

/-- A machine that gets the same input over and over, with less to do each time. -/
theorem after_replicate_of_work {P : σ → Prop} {work : σ → Nat} {a : α}
    (hstep : ∀ s, P s →
      P (step s a).1 ∧ (work (step s a).1 < work s ∨ work (step s a).1 = 0))
    {s : σ} (hs : P s) {n : Nat} (hn : work s ≤ n) :
    work (after step s (List.replicate n a)) = 0 := by
  induction n generalizing s with
  | zero => exact Nat.le_zero.mp hn
  | succ n ih =>
      obtain ⟨hnext, hwork⟩ := hstep s hs
      rw [List.replicate_succ, after_cons]
      refine ih hnext ?_
      obtain hless | hzero := hwork
      · exact Nat.le_of_lt_succ (Nat.lt_of_lt_of_le hless hn)
      · exact Nat.le_trans (Nat.le_of_eq hzero) (Nat.zero_le n)

/-- What holds of every output of every step holds of every output of a run. -/
theorem mem_outputs {P : ω → Prop} (hstep : ∀ s a, ∀ o ∈ (step s a).2, P o) (s : σ)
    (as : List α) : ∀ o ∈ outputs step s as, P o := by
  induction as generalizing s with
  | nil => exact nofun
  | cons a as ih =>
      intro o ho
      obtain ho | ho := List.mem_append.mp ho
      · exact hstep s a o ho
      · exact ih _ o ho

theorem along_of_outputs {P : ω → Prop} {G : σ → α → Prop}
    (hstep : ∀ s a, (∀ o ∈ (step s a).2, P o) → G s a) {s : σ} {as : List α}
    (h : ∀ o ∈ outputs step s as, P o) : Along step G s as := by
  induction as generalizing s with
  | nil => trivial
  | cons a as ih =>
      refine ⟨hstep s a fun o ho => h o (List.mem_append_left _ ho), ih fun o ho => ?_⟩
      exact h o (List.mem_append_right _ ho)

/-- An invariant that relates the state to the outputs made so far. -/
theorem outputs_extend {P : List ω → σ → Prop} {G : σ → α → Prop}
    (hstep : ∀ os s a, P os s → G s a → P (os ++ (step s a).2) (step s a).1)
    {os : List ω} {s : σ} (hs : P os s) {as : List α} (hg : Along step G s as) :
    P (os ++ outputs step s as) (after step s as) := by
  induction as generalizing os s with
  | nil => rwa [outputs_nil, List.append_nil]
  | cons a as ih =>
      rw [outputs_cons, ← List.append_assoc]
      exact ih (hstep os s a hs hg.1) hg.2

theorem outputs_of_along {P : List ω → σ → Prop} {G : σ → α → Prop}
    (hstep : ∀ os s a, P os s → G s a → P (os ++ (step s a).2) (step s a).1)
    {s : σ} (hs : P [] s) {as : List α} (hg : Along step G s as) :
    P (outputs step s as) (after step s as) :=
  outputs_extend hstep hs hg

/-- What each output of a log owes to those before it, it owes in a longer log. -/
theorem forall_split_append {Q : List ω → ω → Prop} {log more : List ω}
    (h : ∀ pre o post, log = pre ++ o :: post → Q pre o)
    (hmore : ∀ pre o post, more = pre ++ o :: post → Q (log ++ pre) o) :
    ∀ pre o post, log ++ more = pre ++ o :: post → Q pre o := by
  intro pre o post hsplit
  obtain ⟨as, rfl, has⟩ | ⟨bs, hlog, hbs⟩ := List.append_eq_append_iff.mp hsplit
  · exact hmore as o post has
  · cases bs with
    | nil =>
        rw [List.append_nil] at hlog
        rw [← hlog, ← List.append_nil log]
        exact hmore [] o post hbs.symm
    | cons b bs =>
        obtain ⟨rfl, -⟩ := List.cons.inj hbs
        exact h pre o bs hlog

theorem exists_split_concat {Q : List α → α → Prop} {as : List α} {a : α} :
    (∃ pre b post, as ++ [a] = pre ++ b :: post ∧ Q pre b) ↔
      (∃ pre b post, as = pre ++ b :: post ∧ Q pre b) ∨ Q as a := by
  constructor
  · rintro ⟨pre, b, post, hsplit, hQ⟩
    obtain rfl | ⟨post, c, rfl⟩ := post.eq_nil_or_concat'
    · obtain ⟨rfl, hb⟩ := List.append_inj' hsplit rfl
      obtain rfl := List.singleton_inj.mp hb
      exact Or.inr hQ
    · rw [← List.cons_append, ← List.append_assoc] at hsplit
      exact Or.inl ⟨pre, b, post, (List.append_inj' hsplit rfl).1, hQ⟩
  · rintro (⟨pre, b, post, rfl, hQ⟩ | hQ)
    · exact ⟨pre, b, post ++ [a], by simp, hQ⟩
    · exact ⟨as, a, [], rfl, hQ⟩

/-- A property of a run so far holds throughout exactly when every step meets
the guard: the invariant gives the property, a step that meets the guard keeps
the invariant, and one that does not breaks the property. -/
theorem throughout_iff_along {I P : List ω → σ → Prop} {G : σ → α → Prop}
    (hprop : ∀ os s, I os s → P os s)
    (hstep : ∀ os s a, I os s → G s a → I (os ++ (step s a).2) (step s a).1)
    (hbreach : ∀ os s a, I os s → ¬ G s a → ¬ P (os ++ (step s a).2) (step s a).1)
    {s : σ} (hs : I [] s) (as : List α) :
    (∀ pre, pre <+: as → P (outputs step s pre) (after step s pre)) ↔ Along step G s as := by
  have hgen : ∀ os s, I os s →
      ((∀ pre, pre <+: as → P (os ++ outputs step s pre) (after step s pre)) ↔
        Along step G s as) := by
    induction as with
    | nil =>
        intro os s h
        refine ⟨fun _ => trivial, fun _ pre hpre => ?_⟩
        rw [List.prefix_nil.mp hpre, outputs_nil, List.append_nil]
        exact hprop os s h
    | cons a as ih =>
        intro os s h
        have hmore : ∀ pre, os ++ outputs step s (a :: pre) =
            os ++ (step s a).2 ++ outputs step (step s a).1 pre := fun pre =>
          (List.append_assoc ..).symm
        constructor
        · intro hall
          have hnext := hall [a] (List.cons_prefix_cons.mpr ⟨rfl, List.nil_prefix⟩)
          rw [hmore, outputs_nil, List.append_nil] at hnext
          have hguard : G s a := by
            by_contra hnot
            exact hbreach os s a h hnot hnext
          refine ⟨hguard, (ih _ _ (hstep os s a h hguard)).mp fun pre hpre => ?_⟩
          have hpre := hall (a :: pre) (List.cons_prefix_cons.mpr ⟨rfl, hpre⟩)
          rwa [hmore] at hpre
        · intro halong pre hpre
          cases pre with
          | nil =>
              rw [outputs_nil, List.append_nil]
              exact hprop os s h
          | cons b pre =>
              obtain ⟨rfl, htail⟩ := List.cons_prefix_cons.mp hpre
              rw [hmore]
              exact (ih _ _ (hstep os s b h halong.1)).mpr halong.2 pre htail
  exact hgen [] s hs

/-- An invariant that relates the state to the inputs read and the outputs made
so far. -/
theorem run_history {P : List α → List ω → σ → Prop}
    (hstep : ∀ as os s a, P as os s → P (as ++ [a]) (os ++ (step s a).2) (step s a).1)
    {s : σ} (hs : P [] [] s) (as : List α) : P as (outputs step s as) (after step s as) := by
  have hgen : ∀ pre os s, P pre os s →
      P (pre ++ as) (os ++ outputs step s as) (after step s as) := by
    induction as with
    | nil =>
        intro pre os s h
        rwa [List.append_nil, outputs_nil, List.append_nil]
    | cons a as ih =>
        intro pre os s h
        rw [List.append_cons, outputs_cons, ← List.append_assoc]
        exact ih _ _ _ (hstep pre os s a h)
  exact hgen [] [] s hs

/-- An invariant that relates the state to the inputs read so far. -/
theorem after_history {P : List α → σ → Prop}
    (hstep : ∀ as a s, P as s → P (as ++ [a]) (step s a).1)
    {s : σ} (hs : P [] s) (as : List α) : P as (after step s as) :=
  run_history (P := fun as _ s => P as s) (fun as _ s a => hstep as a s) hs as

theorem Always.imp {P Q : σ → Prop} (hPQ : ∀ s, P s → Q s) {s : σ} {as : List α}
    (h : Always step P s as) : Always step Q s as := by
  induction as generalizing s with
  | nil => exact hPQ _ h
  | cons a as ih => exact ⟨hPQ _ h.1, ih h.2⟩

/-! ### Simulation -/

section Simulation
universe u' v' w'
variable {τ : Type u'} {β : Type v'} {υ : Type w'}

/-- What a second machine reads while this one runs: every step stands for a list
of its inputs. -/
def translated (step : σ → α → σ × List ω) (translate : σ → α → List β) (s : σ) :
    List α → List β
  | [] => []
  | a :: as => translate s a ++ translated step translate (step s a).1 as

variable {step' : τ → β → τ × List υ} {translate : σ → α → List β}

/-- A machine whose steps are runs of another, seen through `abs` and `view`, has
only runs of the other. -/
theorem simulates {P : σ → Prop} (hinv : ∀ s a, P s → P (step s a).1) {abs : σ → τ}
    {view : ω → List υ}
    (hafter : ∀ s a, P s → after step' (abs s) (translate s a) = abs (step s a).1)
    (houtputs : ∀ s a, P s → outputs step' (abs s) (translate s a) = (step s a).2.flatMap view)
    {s : σ} (hs : P s) (as : List α) :
    after step' (abs s) (translated step translate s as) = abs (after step s as) ∧
      outputs step' (abs s) (translated step translate s as) =
        (outputs step s as).flatMap view := by
  induction as generalizing s with
  | nil => exact ⟨rfl, rfl⟩
  | cons a as ih =>
      obtain ⟨ihafter, ihoutputs⟩ := ih (hinv s a hs)
      rw [translated, after_append, outputs_append, hafter s a hs, houtputs s a hs, ihafter,
        ihoutputs, outputs_cons, List.flatMap_append]
      exact ⟨rfl, rfl⟩

/-- What is read off the inputs of the second machine can be read off the outputs
of the first. -/
theorem translated_flatMap {γ : Type*} {f : β → List γ} {g : ω → List γ}
    (hstep : ∀ s a, (translate s a).flatMap f = (step s a).2.flatMap g) (s : σ) (as : List α) :
    (translated step translate s as).flatMap f = (outputs step s as).flatMap g := by
  induction as generalizing s with
  | nil => rfl
  | cons a as ih =>
      rw [translated, outputs_cons, List.flatMap_append, List.flatMap_append, hstep, ih]

end Simulation

end Machine
