import Mathlib.Data.Finset.Basic
import SafetyCopro.Lib.Machine

/-!
The use of resources as a log. It is legal where nothing is allocated that is
there already, and nothing freed or touched that is not.
-/

namespace Resources
variable {ρ : Type*} [DecidableEq ρ]

inductive Use (ρ : Type*) where
  | alloc (r : ρ)
  | free (r : ρ)
  | touch (r : ρ)
deriving DecidableEq, Repr

def Use.step (live : Finset ρ) : Use ρ → Finset ρ × List Empty
  | .alloc r => (insert r live, [])
  | .free r => (live.erase r, [])
  | .touch _ => (live, [])

def Use.Allowed (live : Finset ρ) : Use ρ → Prop
  | .alloc r => r ∉ live
  | .free r | .touch r => r ∈ live

/-- The log is legal from some resources on, and leaves others. -/
def Leads (live : Finset ρ) (log : List (Use ρ)) (live' : Finset ρ) : Prop :=
  Machine.Along Use.step Use.Allowed live log ∧ Machine.after Use.step live log = live'

instance (live : Finset ρ) (u : Use ρ) : Decidable (u.Allowed live) :=
  match u with
  | .alloc r => inferInstanceAs (Decidable (r ∉ live))
  | .free r | .touch r => inferInstanceAs (Decidable (r ∈ live))

instance (live live' : Finset ρ) (log : List (Use ρ)) : Decidable (Leads live log live') :=
  inferInstanceAs (Decidable (_ ∧ _))

variable {live live' live'' : Finset ρ} {log log' : List (Use ρ)} {r : ρ}

theorem leads_nil : Leads live [] live := ⟨trivial, rfl⟩

theorem Leads.append (h : Leads live log live') (h' : Leads live' log' live'') :
    Leads live (log ++ log') live'' := by
  obtain ⟨halong, rfl⟩ := h
  exact ⟨Machine.along_append.mpr ⟨halong, h'.1⟩, (Machine.after_append ..).trans h'.2⟩

theorem Leads.touch (hr : r ∈ live) (h : Leads live log live') :
    Leads live (.touch r :: log) live' :=
  ⟨⟨hr, h.1⟩, h.2⟩

theorem leads_touches {rs : List ρ} (h : ∀ r ∈ rs, r ∈ live) :
    Leads live (rs.map .touch) live := by
  induction rs with
  | nil => exact leads_nil
  | cons r rs ih =>
      obtain ⟨hr, hrs⟩ := List.forall_mem_cons.mp h
      exact (ih hrs).touch hr

end Resources
