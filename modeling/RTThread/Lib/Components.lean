import Mathlib.Data.List.Basic
import Mathlib.Tactic.Common

/-!
# Paths and their components

A path is a text cut into components at a separator; empty components do not count. From
the root, `rooted` writes the components as a path again and `components` reads them back.

A component `up` leaves the innermost directory and a component `dot` stays. `resolve`
walks down the components from a directory and fails where `up` would leave the root;
`climbs` counts how often that happens to a walker who then stays at the root.
-/

namespace Components

variable {α : Type*} {sep : α} {s t as bs : List α} {n c : List α}
variable {cs ns stack : List (List α)}

/-- The path from the root through the given components. -/
def rooted (sep : α) (cs : List (List α)) : List α :=
  match cs with
  | [] => [sep]
  | cs => cs.flatMap fun c => sep :: c

/-- The components one after the other, a separator behind each. -/
def trail (sep : α) (cs : List (List α)) : List α := cs.flatMap fun c => c ++ [sep]

theorem rooted_of_ne_nil (h : cs ≠ []) : rooted sep cs = cs.flatMap fun c => sep :: c := by
  cases cs with
  | nil => cases h rfl
  | cons c cs => rfl

theorem trail_snoc : trail sep (cs ++ [n]) = trail sep cs ++ n ++ [sep] := by
  rw [trail, List.flatMap_append, List.flatMap_singleton, ← List.append_assoc]
  rfl

theorem sep_cons_trail : sep :: trail sep cs = (cs.flatMap fun c => sep :: c) ++ [sep] := by
  induction cs with
  | nil => rfl
  | cons c cs ih =>
    rw [trail] at ih
    rw [trail, List.flatMap_cons, List.flatMap_cons, List.append_assoc, List.singleton_append, ih,
      ← List.append_assoc]
    rfl

theorem rooted_snoc : rooted sep (cs ++ [n]) = sep :: (trail sep cs ++ n) := by
  rw [rooted_of_ne_nil (by simp), List.flatMap_append, List.flatMap_singleton, ← List.cons_append,
    sep_cons_trail, List.append_assoc]
  rfl

-- --------
-- Reading components
-- --------

variable [DecidableEq α]

/-- The components of a text. -/
def components (sep : α) (s : List α) : List (List α) :=
  (s.splitOn sep).filter fun c => c ≠ []

theorem components_nil : components sep [] = [] := rfl

theorem components_append_sep :
    components sep (as ++ sep :: bs) = components sep as ++ components sep bs := by
  rw [components, List.splitOn_append_cons_self, List.filter_append]
  rfl

theorem components_sep_cons : components sep (sep :: s) = components sep s :=
  @components_append_sep _ _ [] _ _

theorem components_name (hn : n ≠ []) (hsep : sep ∉ n) : components sep n = [n] := by
  rw [components, List.splitOn_eq_singleton hsep, List.filter_singleton, decide_eq_true hn]
  rfl

theorem components_name_append (hn : n ≠ []) (hsep : sep ∉ n)
    (ht : t = [] ∨ ∃ u, t = sep :: u) : components sep (n ++ t) = n :: components sep t := by
  obtain rfl | ⟨u, rfl⟩ := ht
  · rw [List.append_nil, components_name hn hsep, components_nil]
  · rw [components_append_sep, components_name hn hsep, components_sep_cons]
    rfl

/-- The pieces of a text have no separator and are made of its letters. -/
theorem of_mem_splitOn (h : c ∈ s.splitOn sep) : sep ∉ c ∧ c ⊆ s := by
  induction s generalizing c with
  | nil =>
    rw [List.splitOn_nil, List.mem_singleton] at h
    rw [h]
    exact ⟨List.not_mem_nil, List.Subset.refl _⟩
  | cons x s ih =>
    rw [List.splitOn_cons_eq_if_modifyHead] at h
    by_cases hx : x = sep
    · rw [if_pos (beq_iff_eq.mpr hx), List.mem_cons] at h
      obtain rfl | h := h
      · exact ⟨List.not_mem_nil, List.nil_subset _⟩
      · exact ⟨(ih h).1, List.subset_cons_of_subset _ (ih h).2⟩
    · rw [if_neg (by rwa [beq_iff_eq])] at h
      obtain ⟨d, ds, hds⟩ := List.exists_cons_of_ne_nil (List.splitOn_ne_nil sep s)
      rw [hds] at h ih
      rw [List.modifyHead_cons, List.mem_cons] at h
      obtain rfl | h := h
      · obtain ⟨hsep, hsub⟩ := ih (List.mem_cons_self ..)
        rw [List.mem_cons, not_or]
        exact ⟨⟨Ne.symm hx, hsep⟩, List.cons_subset_cons x hsub⟩
      · obtain ⟨hsep, hsub⟩ := ih (List.mem_cons_of_mem _ h)
        exact ⟨hsep, List.subset_cons_of_subset _ hsub⟩

theorem of_mem_components (h : c ∈ components sep s) : c ≠ [] ∧ sep ∉ c ∧ c ⊆ s := by
  rw [components, List.mem_filter, decide_eq_true_eq] at h
  exact ⟨h.2, of_mem_splitOn h.1⟩

/-- **Reading a path back.** -/
theorem components_rooted (h : ∀ c ∈ cs, c ≠ [] ∧ sep ∉ c) :
    components sep (rooted sep cs) = cs := by
  have hflat : components sep (cs.flatMap fun c => sep :: c) = cs := by
    induction cs with
    | nil => rfl
    | cons c cs ih =>
      obtain ⟨⟨hne, hsep⟩, hcs⟩ := List.forall_mem_cons.mp h
      rw [List.flatMap_cons, List.cons_append, components_sep_cons,
        components_name_append hne hsep, ih hcs]
      cases cs with
      | nil => exact .inl rfl
      | cons d ds => exact .inr ⟨_, List.flatMap_cons ..⟩
  by_cases hcs : cs = []
  · subst hcs
    exact components_sep_cons
  · rw [rooted_of_ne_nil hcs, hflat]

-- --------
-- Walking down
-- --------

variable {dot up : List α}

/-- One component, from the directory `stack`. -/
def enter (dot up : List α) (stack : List (List α)) (c : List α) : Option (List (List α)) :=
  if c = dot then some stack
  else if c = up then if stack = [] then none else some stack.dropLast
  else some (stack ++ [c])

/-- The directory that the components lead to. -/
def resolve (dot up : List α) : List (List α) → List (List α) → Option (List (List α))
  | stack, [] => some stack
  | stack, c :: cs => (enter dot up stack c).bind fun stack => resolve dot up stack cs

/-- How often `up` is met at the root, where it stays. -/
def climbs (dot up : List α) : List (List α) → List (List α) → Nat
  | _, [] => 0
  | stack, c :: cs =>
    match enter dot up stack c with
    | some stack => climbs dot up stack cs
    | none => climbs dot up [] cs + 1

theorem enter_dot : enter dot up stack dot = some stack := if_pos rfl

theorem enter_up (h : up ≠ dot) :
    enter dot up stack up = if stack = [] then none else some stack.dropLast := by
  rw [enter, if_neg h, if_pos rfl]

theorem enter_name (hdot : c ≠ dot) (hup : c ≠ up) :
    enter dot up stack c = some (stack ++ [c]) := by
  rw [enter, if_neg hdot, if_neg hup]

theorem resolve_isSome_iff : (resolve dot up stack cs).isSome ↔ climbs dot up stack cs = 0 := by
  induction cs generalizing stack with
  | nil => simp [resolve, climbs]
  | cons c cs ih =>
    rw [resolve, climbs]
    cases henter : enter dot up stack c with
    | none => simp
    | some stack' => exact ih

theorem resolve_names (h : ∀ c ∈ cs, c ≠ dot ∧ c ≠ up) :
    resolve dot up stack cs = some (stack ++ cs) := by
  induction cs generalizing stack with
  | nil => rw [resolve, List.append_nil]
  | cons c cs ih =>
    obtain ⟨hc, hcs⟩ := List.forall_mem_cons.mp h
    rw [resolve, enter_name hc.1 hc.2, Option.bind_some, ih hcs, List.append_assoc]
    rfl

/-- Names lead down, and the rest goes on from there. -/
theorem resolve_names_append (h : ∀ c ∈ cs, c ≠ dot ∧ c ≠ up) :
    resolve dot up stack (cs ++ ns) = resolve dot up (stack ++ cs) ns := by
  induction cs generalizing stack with
  | nil => rw [List.nil_append, List.append_nil]
  | cons c cs ih =>
    obtain ⟨hc, hcs⟩ := List.forall_mem_cons.mp h
    rw [List.cons_append, resolve, enter_name hc.1 hc.2, Option.bind_some, ih hcs,
      List.append_assoc]
    rfl

theorem climbs_names_append (h : ∀ c ∈ cs, c ≠ dot ∧ c ≠ up) :
    climbs dot up stack (cs ++ ns) = climbs dot up (stack ++ cs) ns := by
  induction cs generalizing stack with
  | nil => rw [List.nil_append, List.append_nil]
  | cons c cs ih =>
    obtain ⟨hc, hcs⟩ := List.forall_mem_cons.mp h
    rw [List.cons_append, climbs, enter_name hc.1 hc.2]
    dsimp only
    rw [ih hcs, List.append_assoc]
    rfl

/-- Only names are entered. -/
theorem enter_mem {stack' : List (List α)} (h : enter dot up stack c = some stack')
    (hn : n ∈ stack') : n ∈ stack ∨ n = c ∧ c ≠ dot ∧ c ≠ up := by
  rw [enter] at h
  by_cases hdot : c = dot
  · rw [if_pos hdot, Option.some.injEq] at h
    rw [h]
    exact .inl hn
  · rw [if_neg hdot] at h
    by_cases hup : c = up
    · rw [if_pos hup] at h
      by_cases hroot : stack = []
      · rw [if_pos hroot] at h
        cases h
      · rw [if_neg hroot, Option.some.injEq] at h
        rw [← h] at hn
        exact .inl (List.dropLast_subset _ hn)
    · rw [if_neg hup, Option.some.injEq] at h
      rw [← h, List.mem_append, List.mem_singleton] at hn
      exact hn.imp_right fun hn => ⟨hn, hdot, hup⟩

theorem resolve_mem (h : resolve dot up stack cs = some ns) (hn : n ∈ ns) :
    n ∈ stack ∨ n ∈ cs ∧ n ≠ dot ∧ n ≠ up := by
  induction cs generalizing stack with
  | nil =>
    rw [resolve, Option.some.injEq] at h
    rw [h]
    exact .inl hn
  | cons c cs ih =>
    rw [resolve, Option.bind_eq_some_iff] at h
    obtain ⟨stack', henter, h⟩ := h
    rcases ih h with hmem | ⟨hmem, hname⟩
    · rcases enter_mem henter hmem with hmem | ⟨rfl, hname⟩
      · exact .inl hmem
      · exact .inr ⟨List.mem_cons_self .., hname⟩
    · exact .inr ⟨List.mem_cons_of_mem _ hmem, hname⟩

end Components
