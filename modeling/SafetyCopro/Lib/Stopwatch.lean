import Mathlib.Data.List.AList
import Mathlib.Data.List.Dedup
import Mathlib.Data.List.Induction
import Mathlib.Data.List.Infix

/-!
Stopwatches kept in a map of bounded size. An event starts the watch of a key,
stops it or has nothing to do with it. Which start a stop belongs to is a fact
about the sequence of events alone; a map that never overflows knows the starts
no event of the same key has followed yet.
-/

/-- A map of at most `cap` entries. -/
structure BoundedMap (κ ν : Type) (cap : Nat) where
  map : AList fun _ : κ => ν
  bounded : map.keys.length ≤ cap

namespace BoundedMap
variable {κ ν : Type} [DecidableEq κ] {cap : Nat}

def empty : BoundedMap κ ν cap := ⟨∅, Nat.zero_le cap⟩

def lookup (m : BoundedMap κ ν cap) (k : κ) : Option ν := m.map.lookup k

/-- A key that is there is set anew; a new one is refused by a full map. -/
def update (m : BoundedMap κ ν cap) (k : κ) (v : ν) : BoundedMap κ ν cap :=
  if h : k ∈ m.map ∨ m.map.keys.length < cap then
    ⟨m.map.insert k v, by
      have hbounded := m.bounded
      rw [AList.keys_insert, List.length_cons]
      obtain hmem | hroom := h
      · rw [List.length_erase_of_mem (AList.mem_keys.mp hmem)]
        have hpos := List.length_pos_of_mem (AList.mem_keys.mp hmem)
        omega
      · exact Nat.lt_of_le_of_lt List.length_erase_le hroom⟩
  else m

def delete (m : BoundedMap κ ν cap) (k : κ) : BoundedMap κ ν cap :=
  ⟨m.map.erase k, by
    rw [AList.keys_erase]
    exact Nat.le_trans List.length_erase_le m.bounded⟩

/-- There is room for `k` when it and the keys of the map are all on a list of at most
`cap` keys. -/
theorem lookup_update {m : BoundedMap κ ν cap} {ks : List κ} {k : κ}
    (hkeys : ∀ k', (m.lookup k').isSome → k' ∈ ks) (hk : k ∈ ks) (hcap : ks.length ≤ cap) (v : ν)
    (k' : κ) :
    (m.update k v).lookup k' = if k' = k then some v else m.lookup k' := by
  have hroom : k ∈ m.map ∨ m.map.keys.length < cap := by
    by_cases hmem : k ∈ m.map
    · exact Or.inl hmem
    · right
      have hnodup : (k :: m.map.keys).Nodup :=
        List.nodup_cons.mpr ⟨fun h => hmem (AList.mem_keys.mpr h), m.map.keys_nodup⟩
      have hsub : k :: m.map.keys ⊆ ks := by
        intro x hx
        obtain rfl | hx := List.mem_cons.mp hx
        · exact hk
        · exact hkeys x (AList.lookup_isSome.mpr (AList.mem_keys.mpr hx))
      exact Nat.lt_of_lt_of_le (List.subperm_of_subset hnodup hsub).length_le hcap
  rw [update, dif_pos hroom, lookup]
  split
  · rename_i heq
    rw [heq]
    exact AList.lookup_insert _
  · rename_i hne
    exact AList.lookup_insert_ne hne

theorem lookup_delete (m : BoundedMap κ ν cap) (k k' : κ) :
    (m.delete k).lookup k' = if k' = k then none else m.lookup k' := by
  rw [delete, lookup]
  split
  · rename_i heq
    rw [heq]
    exact AList.lookup_erase _ _
  · rename_i hne
    exact AList.lookup_erase_ne hne

theorem delete_of_lookup_none {m : BoundedMap κ ν cap} {k : κ} (h : m.lookup k = none) :
    m.delete k = m := by
  obtain ⟨map, bounded⟩ := m
  rw [delete, mk.injEq]
  exact AList.ext (List.kerase_of_notMem_keys (AList.lookup_eq_none.mp h))

end BoundedMap

namespace Stopwatch

inductive Role (κ : Type)
  | start (k : κ)
  | stop (k : κ)
  | none
deriving DecidableEq, Repr

def Role.key {κ : Type} : Role κ → Option κ
  | .start k | .stop k => some k
  | .none => .none

theorem key_ne {κ : Type} {r : Role κ} {k k' : κ} (h : r.key = some k) (hne : k' ≠ k) :
    r.key ≠ some k' := by
  rw [h]
  exact fun hkey => hne (Option.some.inj hkey).symm

variable {α κ : Type} [DecidableEq κ] (role : α → Role κ)

/-- The stop at `j` belongs to the start at `i`: no event of the key lies between. -/
def Completes (run : List α) (i j : Nat) : Prop :=
  i < j ∧ ∃ k, run[i]?.map role = some (.start k) ∧ run[j]?.map role = some (.stop k) ∧
    ∀ m, i < m → m < j → run[m]?.bind (Role.key ∘ role) ≠ some k

/-- The start at `i` has not been followed by another event of its key. -/
def Running (run : List α) (k : κ) (i : Nat) : Prop :=
  run[i]?.map role = some (.start k) ∧
    ∀ m, i < m → m < run.length → run[m]?.bind (Role.key ∘ role) ≠ some k

def openedBack (k : κ) : List α → Option Nat
  | [] => none
  | a :: before =>
      match role a with
      | .start k' => if k' = k then some before.length else openedBack k before
      | .stop k' => if k' = k then none else openedBack k before
      | .none => openedBack k before

/-- The place of the start that is running, if there is one. -/
def opened (k : κ) (run : List α) : Option Nat := openedBack role k run.reverse

/-- The starts and stops that belong together, in the order of the stops. -/
def laps (run : List α) : List (Nat × Nat) :=
  (List.range run.length).filterMap fun j =>
    match run[j]?.map role with
    | some (.stop k) => (opened role k (run.take j)).map (·, j)
    | _ => none

variable {role}

theorem opened_snoc (k : κ) (run : List α) (a : α) :
    opened role k (run ++ [a]) =
      if (role a).key = some k then
        match role a with
        | .start _ => some run.length
        | _ => none
      else opened role k run := by
  rw [opened, List.reverse_append, List.reverse_singleton, List.singleton_append, openedBack,
    List.length_reverse]
  cases role a with
  | start k' => simp only [Role.key, Option.some.injEq]; rfl
  | stop k' => simp only [Role.key, Option.some.injEq]; rfl
  | none => simp only [Role.key, reduceCtorEq, if_false]; rfl

theorem opened_start {run : List α} {a : α} {k : κ} (h : role a = .start k) :
    opened role k (run ++ [a]) = some run.length := by
  simp only [opened_snoc, h, Role.key, if_true]

theorem opened_stop {run : List α} {a : α} {k : κ} (h : role a = .stop k) :
    opened role k (run ++ [a]) = none := by
  simp only [opened_snoc, h, Role.key, if_true]

omit [DecidableEq κ] in
theorem running_snoc_lt {run : List α} {a : α} {k : κ} {i : Nat} (hi : i < run.length) :
    Running role (run ++ [a]) k i ↔ (role a).key ≠ some k ∧ Running role run k i := by
  have hlast : (run ++ [a])[run.length]? = some a := by simp
  have hsame : ∀ m, m < run.length → (run ++ [a])[m]? = run[m]? := fun m hm =>
    List.getElem?_append_left hm
  rw [Running, Running, hsame i hi]
  refine ⟨fun ⟨hstart, hrest⟩ => ⟨fun hkey => ?_, hstart, fun m him hm => ?_⟩,
    fun ⟨hkey, hstart, hrest⟩ => ⟨hstart, fun m him hm => ?_⟩⟩
  · refine hrest run.length hi (by simp) ?_
    rw [hlast]
    exact hkey
  · rw [← hsame m hm]
    exact hrest m him (by simp; omega)
  · rw [List.length_append, List.length_singleton] at hm
    obtain hm | rfl := Nat.lt_or_eq_of_le (Nat.le_of_lt_succ hm)
    · rw [hsame m hm]
      exact hrest m him hm
    · rw [hlast]
      exact hkey

omit [DecidableEq κ] in
theorem lt_of_running {run : List α} {k : κ} {i : Nat} (h : Running role run k i) :
    i < run.length := by
  by_contra hlen
  have hnone : run[i]? = none := List.getElem?_eq_none (Nat.not_lt.mp hlen)
  rw [Running, hnone] at h
  cases h.1

omit [DecidableEq κ] in
theorem running_last {run : List α} {a : α} {k : κ} :
    Running role (run ++ [a]) k run.length ↔ role a = .start k := by
  have hlast : (run ++ [a])[run.length]? = some a := by simp
  rw [Running, hlast]
  refine ⟨fun h => Option.some.inj h.1, fun h => ⟨congrArg some h, fun m hlt hm => ?_⟩⟩
  rw [List.length_append, List.length_singleton] at hm
  omega

/-- At most one start of a key is running, and `opened` finds it. -/
theorem opened_eq_some_iff {run : List α} {k : κ} {i : Nat} :
    opened role k run = some i ↔ Running role run k i := by
  induction run using List.reverseRecOn generalizing i with
  | nil =>
      refine iff_of_false (fun h => ?_) fun h => ?_
      · cases h
      · exact absurd (lt_of_running h) (Nat.not_lt_zero i)
  | append_singleton run a ih =>
      rw [opened_snoc]
      obtain hlt | rfl | hgt := Nat.lt_trichotomy i run.length
      · rw [running_snoc_lt hlt, ← ih]
        split
        · rename_i hkey
          refine iff_of_false (fun h => ?_) fun h => h.1 hkey
          split at h
          · exact absurd (Option.some.inj h) (Nat.ne_of_gt hlt)
          · cases h
        · rename_i hkey
          exact (and_iff_right hkey).symm
      · rw [running_last]
        cases hrole : role a with
        | start k' =>
            simp only [Role.key, Option.some.injEq, Role.start.injEq]
            split
            · exact iff_of_true rfl (by assumption)
            · rename_i hne
              refine iff_of_false (fun h => ?_) hne
              exact absurd (lt_of_running (ih.mp h)) (Nat.lt_irrefl _)
        | stop k' =>
            refine iff_of_false (fun h => ?_) (by simp)
            split at h
            · cases h
            · exact absurd (lt_of_running (ih.mp h)) (Nat.lt_irrefl _)
        | none =>
            refine iff_of_false (fun h => ?_) (by simp)
            simp only [Role.key, reduceCtorEq, if_false] at h
            exact absurd (lt_of_running (ih.mp h)) (Nat.lt_irrefl _)
      · refine iff_of_false (fun h => ?_) fun h => ?_
        · split at h
          · split at h
            · exact absurd (Option.some.inj h) (Nat.ne_of_lt hgt)
            · cases h
          · exact absurd (lt_of_running (ih.mp h)) (Nat.not_lt.mpr (Nat.le_of_lt hgt))
        · have hlen := lt_of_running h
          rw [List.length_append, List.length_singleton] at hlen
          omega

theorem laps_snoc (run : List α) (a : α) :
    laps role (run ++ [a]) = laps role run ++
      match role a with
      | .stop k => ((opened role k run).map (·, run.length)).toList
      | _ => [] := by
  have hlast : (run ++ [a])[run.length]? = some a := by simp
  have hbefore : ∀ j ∈ List.range run.length,
      (match (run ++ [a])[j]?.map role with
        | some (.stop k) => (opened role k ((run ++ [a]).take j)).map (·, j)
        | _ => none) =
      match run[j]?.map role with
        | some (.stop k) => (opened role k (run.take j)).map (·, j)
        | _ => none := by
    intro j hj
    have hlt := List.mem_range.mp hj
    rw [List.getElem?_append_left hlt, List.take_append_of_le_length (Nat.le_of_lt hlt)]
  rw [laps, List.length_append, List.length_singleton, List.range_succ, List.filterMap_append,
    List.filterMap_congr hbefore, laps, List.filterMap_cons, List.filterMap_nil, hlast,
    List.take_left, Option.map_some]
  cases role a with
  | stop k => cases opened role k run <;> rfl
  | _ => rfl

theorem mem_laps {run : List α} {i j : Nat} : (i, j) ∈ laps role run ↔ Completes role run i j := by
  rw [laps, List.mem_filterMap]
  constructor
  · rintro ⟨j', hj, hlap⟩
    have hlen := List.mem_range.mp hj
    split at hlap
    · rename_i k hstop
      obtain ⟨i', hopened, hpair⟩ := Option.map_eq_some_iff.mp hlap
      obtain ⟨rfl, rfl⟩ := Prod.mk.inj hpair
      have hrunning := opened_eq_some_iff.mp hopened
      have htake := lt_of_running hrunning
      rw [List.length_take, Nat.min_eq_left (Nat.le_of_lt hlen)] at htake
      have hsame : ∀ m, m < j' → (run.take j')[m]? = run[m]? := fun m hm =>
        List.getElem?_take_of_lt hm
      obtain ⟨hstart, hrest⟩ := hrunning
      rw [hsame i' htake] at hstart
      refine ⟨htake, k, hstart, hstop, fun m him hm => ?_⟩
      rw [← hsame m hm]
      exact hrest m him (by rw [List.length_take]; omega)
    · cases hlap
  · rintro ⟨hij, k, hstart, hstop, hrest⟩
    have hlen : j < run.length := by
      by_contra hge
      rw [List.getElem?_eq_none (Nat.not_lt.mp hge)] at hstop
      cases hstop
    refine ⟨j, List.mem_range.mpr hlen, ?_⟩
    have hsame : ∀ m, m < j → (run.take j)[m]? = run[m]? := fun m hm =>
      List.getElem?_take_of_lt hm
    have hrunning : Running role (run.take j) k i := by
      refine ⟨by rwa [hsame i hij], fun m him hm => ?_⟩
      rw [List.length_take] at hm
      rw [hsame m (by omega)]
      exact hrest m him (by omega)
    simp only [hstop, opened_eq_some_iff.mpr hrunning, Option.map_some]

theorem nodup_laps (run : List α) : (laps role run).Nodup := by
  refine List.Nodup.filterMap (fun j j' lap hj hj' => ?_) List.nodup_range
  have hsnd : ∀ j, lap ∈ (match run[j]?.map role with
      | some (.stop k) => (opened role k (run.take j)).map (·, j)
      | _ => none) → lap.2 = j := by
    intro j h
    split at h
    · obtain ⟨i, -, rfl⟩ := Option.map_eq_some_iff.mp h
      rfl
    · cases h
  exact (hsnd j hj).symm.trans (hsnd j' hj')

/-! ### The map of the running watches -/

variable (role)

def started (a : α) : Option κ :=
  match role a with
  | .start k => some k
  | _ => none

/-- The keys whose watch is running. -/
def live (run : List α) : List κ :=
  (run.filterMap (started role)).dedup.filter fun k => (opened role k run).isSome

/-- At no moment of the run are more than `cap` watches running. -/
def FitsIn (cap : Nat) (run : List α) : Prop :=
  ∀ before ∈ run.inits, (live role before).length ≤ cap

instance (cap : Nat) (run : List α) : Decidable (FitsIn role cap run) :=
  inferInstanceAs (Decidable (∀ before ∈ run.inits, (live role before).length ≤ cap))

/-- The events that belong together, in the order of the stops. -/
def lapEvents (run : List α) : List (α × α) :=
  (laps role run).filterMap fun lap => do
    let a ← run[lap.1]?
    let b ← run[lap.2]?
    some (a, b)

section Map
variable {τ : Type} {cap : Nat} (time : α → τ)

def advance (m : BoundedMap κ τ cap) (a : α) : BoundedMap κ τ cap :=
  match role a with
  | .start k => m.update k (time a)
  | .stop k => m.delete k
  | .none => m

/-- The map has the time of every watch that is running. -/
def Holds (run : List α) (m : BoundedMap κ τ cap) : Prop :=
  ∀ k, m.lookup k = (opened role k run).bind fun i => run[i]?.map time

variable {role} {time}

theorem holds_nil : Holds role time [] (.empty : BoundedMap κ τ cap) := fun _ => rfl

theorem mem_live {run : List α} {k : κ} :
    k ∈ live role run ↔ (opened role k run).isSome = true := by
  rw [live, List.mem_filter, List.mem_dedup]
  refine and_iff_right_of_imp fun h => ?_
  obtain ⟨i, hi⟩ := Option.isSome_iff_exists.mp h
  obtain ⟨a, ha, hrole⟩ := Option.map_eq_some_iff.mp (opened_eq_some_iff.mp hi).1
  refine List.mem_filterMap.mpr ⟨a, List.mem_of_getElem? ha, ?_⟩
  rw [started, hrole]

theorem FitsIn.of_snoc {run : List α} {a : α} (h : FitsIn role cap (run ++ [a])) :
    FitsIn role cap run ∧ (live role (run ++ [a])).length ≤ cap := by
  refine ⟨fun before hbefore => h before ?_, h _ ((List.mem_inits _ _).mpr (List.prefix_refl _))⟩
  have hfront := (List.mem_inits _ _).mp hbefore
  exact (List.mem_inits _ _).mpr (hfront.trans (List.prefix_append run [a]))

/-- A watch that is started goes on the list, and none goes off it. -/
theorem live_start {run : List α} {a : α} {k k' : κ} (h : role a = .start k)
    (hk' : k' = k ∨ k' ∈ live role run) : k' ∈ live role (run ++ [a]) := by
  by_cases heq : k' = k
  · rw [heq, mem_live, opened_start h]
    rfl
  · rw [mem_live, opened_snoc, if_neg (key_ne (congrArg Role.key h) heq)]
    exact mem_live.mp (hk'.resolve_left heq)

theorem Holds.live_of_isSome {run : List α} {m : BoundedMap κ τ cap}
    (h : Holds role time run m) {k : κ} (hk : (m.lookup k).isSome) : k ∈ live role run := by
  rw [h k, Option.isSome_bind] at hk
  exact mem_live.mpr (Option.isSome_of_any hk)

theorem opened_bind_snoc {run : List α} {a : α} {k : κ} (h : (role a).key ≠ some k) :
    ((opened role k (run ++ [a])).bind fun i => (run ++ [a])[i]?.map time) =
      (opened role k run).bind fun i => run[i]?.map time := by
  rw [opened_snoc, if_neg h]
  cases hopened : opened role k run with
  | none => rfl
  | some i =>
      have hlt := lt_of_running (opened_eq_some_iff.mp hopened)
      simp only [Option.bind_some, List.getElem?_append_left hlt]

theorem Holds.snoc {run : List α} {m : BoundedMap κ τ cap} (h : Holds role time run m) {a : α}
    (hcap : (live role (run ++ [a])).length ≤ cap) :
    Holds role time (run ++ [a]) (advance role time m a) := by
  have hlast : (run ++ [a])[run.length]? = some a := by simp
  intro k'
  cases hrole : role a with
  | start k =>
      have hkeys : ∀ k', (m.lookup k').isSome → k' ∈ live role (run ++ [a]) := fun _ hk' =>
        live_start hrole (Or.inr (h.live_of_isSome hk'))
      rw [advance, hrole]
      dsimp only
      rw [BoundedMap.lookup_update hkeys (live_start hrole (Or.inl rfl)) hcap]
      by_cases heq : k' = k
      · rw [if_pos heq, heq, opened_start hrole]
        simp only [Option.bind_some, hlast, Option.map_some]
      · rw [if_neg heq, opened_bind_snoc (key_ne (congrArg Role.key hrole) heq), h]
  | stop k =>
      rw [advance, hrole]
      dsimp only
      rw [BoundedMap.lookup_delete]
      by_cases heq : k' = k
      · rw [if_pos heq, heq, opened_stop hrole]
        rfl
      · rw [if_neg heq, opened_bind_snoc (key_ne (congrArg Role.key hrole) heq), h]
  | none =>
      rw [advance, hrole]
      dsimp only
      have hne : (role a).key ≠ some k' := by
        rw [hrole]
        simp [Role.key]
      rw [opened_bind_snoc hne, h]

end Map

variable {role}

theorem lapEvents_snoc (run : List α) (a : α) :
    lapEvents role (run ++ [a]) = lapEvents role run ++
      match role a with
      | .stop k => (((opened role k run).bind fun i => run[i]?).map (·, a)).toList
      | _ => [] := by
  have hlast : (run ++ [a])[run.length]? = some a := by simp
  have hsame : ∀ lap ∈ laps role run,
      (do let b ← (run ++ [a])[lap.1]?; let c ← (run ++ [a])[lap.2]?; some (b, c)) =
        (do let b ← run[lap.1]?; let c ← run[lap.2]?; some (b, c)) := by
    rintro ⟨i, j⟩ hlap
    obtain ⟨hij, k, -, hstop, -⟩ := mem_laps.mp hlap
    have hj : j < run.length := by
      by_contra hge
      rw [List.getElem?_eq_none (Nat.not_lt.mp hge)] at hstop
      cases hstop
    simp only [List.getElem?_append_left hj, List.getElem?_append_left (Nat.lt_trans hij hj)]
  rw [lapEvents, laps_snoc, List.filterMap_append, List.filterMap_congr hsame, lapEvents]
  congr 1
  cases role a with
  | stop k =>
      dsimp only
      cases hopened : opened role k run with
      | none => rfl
      | some i =>
          have hlt := lt_of_running (opened_eq_some_iff.mp hopened)
          simp [List.getElem?_append_left hlt, hlt]
  | _ => rfl

theorem mem_of_mem_lapEvents {run : List α} {lap : α × α} (h : lap ∈ lapEvents role run) :
    lap.1 ∈ run ∧ lap.2 ∈ run := by
  obtain ⟨⟨i, j⟩, -, hpair⟩ := List.mem_filterMap.mp h
  simp only [Option.bind_eq_bind, Option.bind_eq_some_iff] at hpair
  obtain ⟨a, ha, b, hb, hab⟩ := hpair
  obtain rfl := Option.some.inj hab
  exact ⟨List.mem_of_getElem? ha, List.mem_of_getElem? hb⟩

theorem length_lapEvents_le (run : List α) : (lapEvents role run).length ≤ run.length := by
  refine Nat.le_trans (List.length_filterMap_le _ _) ?_
  refine Nat.le_trans (List.length_filterMap_le _ _) (Nat.le_of_eq List.length_range)

end Stopwatch
