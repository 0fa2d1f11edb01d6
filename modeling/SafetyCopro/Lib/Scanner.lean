import Mathlib.Data.List.Basic

/-!
Scanners over a growing buffer. A step function looks at the front of the
buffer and either asks for more data or finds a token and says how many
elements it takes. A scanner that is incremental, in that further data never
changes a decision, reads the same tokens however its input is cut into chunks.
-/

namespace Scanner

variable {α τ ω : Type}

/-- Tokens are read as long as the step function finds one; the rest of the
buffer is kept. -/
def scan (step : List α → Option (τ × Nat)) : Nat → List α → List τ × List α
  | 0, buf => ([], buf)
  | fuel + 1, buf =>
      match step buf with
      | none => ([], buf)
      | some (t, n) =>
          let r := scan step fuel (buf.drop n)
          (t :: r.1, r.2)

def tokens (step : List α → Option (τ × Nat)) (buf : List α) : List τ × List α :=
  scan step (buf.length + 1) buf

/-- A reader with a buffer, called once for every chunk: all it puts out, and
the buffer it ends with. -/
def feeds (feed : List α → List α → List ω × List α) (buf : List α) :
    List (List α) → List ω × List α
  | [] => ([], buf)
  | c :: cs =>
      let r := feed buf c
      let rest := feeds feed r.2 cs
      (r.1 ++ rest.1, rest.2)

theorem feeds_concat (feed : List α → List α → List ω × List α) (buf : List α)
    (chunks : List (List α)) (c : List α) :
    feeds feed buf (chunks ++ [c]) =
      ((feeds feed buf chunks).1 ++ (feed (feeds feed buf chunks).2 c).1,
        (feed (feeds feed buf chunks).2 c).2) := by
  induction chunks generalizing buf with
  | nil => simp only [List.nil_append, feeds, List.append_nil]
  | cons d chunks ih => simp only [List.cons_append, feeds, ih, List.append_assoc]

/-- A reader that looks at the same bytes and keeps something else of a token. -/
theorem scan_map {step : List α → Option (τ × Nat)} {step' : List α → Option (ω × Nat)}
    {f : τ → ω} (hstep : ∀ buf, step' buf = (step buf).map fun r => (f r.1, r.2)) (fuel : Nat)
    (buf : List α) :
    scan step' fuel buf = ((scan step fuel buf).1.map f, (scan step fuel buf).2) := by
  induction fuel generalizing buf with
  | zero => rfl
  | succ fuel ih =>
      simp only [scan, hstep]
      cases step buf with
      | none => rfl
      | some r => simp only [Option.map_some, ih, List.map_cons]

structure Incremental (step : List α → Option (τ × Nat)) : Prop where
  progress : ∀ {buf t n}, step buf = some (t, n) → 0 < n ∧ n ≤ buf.length
  stable : ∀ {buf r}, step buf = some r → ∀ more, step (buf ++ more) = some r

namespace Incremental

variable {step : List α → Option (τ × Nat)}

theorem tokens_wait {buf : List α} (hstep : step buf = none) : tokens step buf = ([], buf) := by
  simp only [tokens, scan, hstep]

variable (h : Incremental step)
include h

/-- The induction along a scan: one case for each answer of the step function. -/
@[elab_as_elim]
theorem induction {motive : List α → Prop} (buf : List α)
    (wait : ∀ buf, step buf = none → motive buf)
    (found : ∀ buf t n, step buf = some (t, n) → motive (buf.drop n) → motive buf) :
    motive buf := by
  induction hlen : buf.length using Nat.strongRecOn generalizing buf with
  | ind len ih =>
      cases hstep : step buf with
      | none => exact wait buf hstep
      | some r =>
          obtain ⟨t, n⟩ := r
          obtain ⟨hpos, hle⟩ := h.progress hstep
          refine found buf t n hstep (ih (buf.drop n).length ?_ (buf.drop n) rfl)
          rw [List.length_drop]
          omega

theorem scan_fuel {buf : List α} {n m : Nat} (hn : buf.length < n) (hm : buf.length < m) :
    scan step n buf = scan step m buf := by
  induction n generalizing m buf with
  | zero => omega
  | succ n ih =>
      cases m with
      | zero => omega
      | succ m =>
          simp only [scan]
          cases hstep : step buf with
          | none => rfl
          | some r =>
              obtain ⟨t, k⟩ := r
              obtain ⟨hpos, hle⟩ := h.progress hstep
              have hlen : (buf.drop k).length = buf.length - k := List.length_drop
              simp only [ih (m := m) (by omega : (buf.drop k).length < n) (by omega)]

theorem tokens_found {buf : List α} {t : τ} {n : Nat} (hstep : step buf = some (t, n)) :
    tokens step buf =
      (t :: (tokens step (buf.drop n)).1, (tokens step (buf.drop n)).2) := by
  obtain ⟨hpos, hle⟩ := h.progress hstep
  have hlen : (buf.drop n).length = buf.length - n := List.length_drop
  have hfuel := h.scan_fuel (by omega : (buf.drop n).length < buf.length)
    (Nat.lt_succ_self (buf.drop n).length)
  simp only [tokens, scan, hstep, hfuel]

/-- What is kept asks for more data. -/
theorem step_rest (buf : List α) : step (tokens step buf).2 = none := by
  induction buf using h.induction with
  | wait buf hstep => rw [tokens_wait hstep, hstep]
  | found buf t n hstep ih =>
      rw [h.tokens_found hstep]
      exact ih

/-- What holds of every token found holds of all of them. -/
theorem forall_mem_tokens {P : τ → Prop} (hP : ∀ buf t n, step buf = some (t, n) → P t)
    (buf : List α) : ∀ t ∈ (tokens step buf).1, P t := by
  induction buf using h.induction with
  | wait buf hstep =>
      rw [tokens_wait hstep]
      exact List.forall_mem_nil _
  | found buf t n hstep ih =>
      rw [h.tokens_found hstep]
      exact List.forall_mem_cons.mpr ⟨hP buf t n hstep, ih⟩

/-- Tokens that keep the elements they take lose nothing. -/
theorem flatMap_tokens {content : τ → List α}
    (hcontent : ∀ {buf t n}, step buf = some (t, n) → content t = buf.take n) (buf : List α) :
    (tokens step buf).1.flatMap content ++ (tokens step buf).2 = buf := by
  induction buf using h.induction with
  | wait buf hstep =>
      rw [tokens_wait hstep]
      rfl
  | found buf t n hstep ih =>
      rw [h.tokens_found hstep, List.flatMap_cons, List.append_assoc, ih, hcontent hstep,
        List.take_append_drop]

/-- Data that comes later is looked at as if it had come at once. -/
theorem tokens_append (buf more : List α) :
    tokens step (buf ++ more) =
      ((tokens step buf).1 ++ (tokens step ((tokens step buf).2 ++ more)).1,
        (tokens step ((tokens step buf).2 ++ more)).2) := by
  induction buf using h.induction with
  | wait buf hstep =>
      rw [tokens_wait hstep]
      rfl
  | found buf t n hstep ih =>
      have hdrop : (buf ++ more).drop n = buf.drop n ++ more :=
        List.drop_append_of_le_length (h.progress hstep).2
      rw [h.tokens_found (h.stable hstep more), hdrop, ih, h.tokens_found hstep]
      rfl

/-- A relation between tokens and what a reader puts out holds for any way of
cutting the data, if it holds for every call and can be put together. -/
theorem feeds_rel {feed : List α → List α → List ω × List α} {R : List τ → List ω → Prop}
    (hnil : R [] []) (happend : ∀ {ts ts' os os'}, R ts os → R ts' os' → R (ts ++ ts') (os ++ os'))
    (hfeed : ∀ buf data, R (tokens step (buf ++ data)).1 (feed buf data).1 ∧
      (feed buf data).2 = (tokens step (buf ++ data)).2)
    (chunks : List (List α)) {buf : List α} (hbuf : step buf = none) :
    R (tokens step (buf ++ chunks.flatten)).1 (feeds feed buf chunks).1 ∧
      (feeds feed buf chunks).2 = (tokens step (buf ++ chunks.flatten)).2 := by
  induction chunks generalizing buf with
  | nil =>
      rw [List.flatten_nil, List.append_nil, tokens_wait hbuf]
      exact ⟨hnil, rfl⟩
  | cons c cs ih =>
      obtain ⟨hout, hrest⟩ := hfeed buf c
      obtain ⟨houts, hrests⟩ := ih (h.step_rest (buf ++ c))
      rw [List.flatten_cons, ← List.append_assoc, h.tokens_append (buf ++ c)]
      simp only [feeds, hrest]
      exact ⟨happend hout houts, hrests⟩

/-- A reader that puts out something for each token. -/
theorem feeds_eq {feed : List α → List α → List ω × List α} {out : τ → List ω}
    (hfeed : ∀ buf data, feed buf data =
      ((tokens step (buf ++ data)).1.flatMap out, (tokens step (buf ++ data)).2))
    (chunks : List (List α)) {buf : List α} (hbuf : step buf = none) :
    feeds feed buf chunks =
      ((tokens step (buf ++ chunks.flatten)).1.flatMap out,
        (tokens step (buf ++ chunks.flatten)).2) := by
  obtain ⟨houts, hrest⟩ := h.feeds_rel (R := fun ts os => os = ts.flatMap out) rfl
    (fun hos hos' => by rw [hos, hos', List.flatMap_append])
    (fun buf data => ⟨congrArg Prod.fst (hfeed buf data), congrArg Prod.snd (hfeed buf data)⟩)
    chunks hbuf
  exact Prod.ext houts hrest

end Incremental

end Scanner
