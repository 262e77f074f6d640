import Mathlib.Data.List.Chain
import Mathlib.Data.List.Nodup
import Mathlib.Algebra.BigOperators.Group.List.Basic
import Mathlib.Tactic.Linarith

/-!
# Tiled regions

A region of memory cut into consecutive segments, each in use or free: what a
boundary-tag allocator keeps. The region is the list of its segments in address
order; a segment starts where the one before it ends, so overlaps and gaps
cannot be expressed. The operations an allocator performs are list surgery:
`carve` hands out the front of a free segment, `release` gives a segment back
and joins it with free neighbours.

`Laid H` ties a tiled region to the headers in memory: `H prev off s` says what
the header of a segment `s` at `off` looks like when its predecessor's header
is at `prev`. It is stated for any header format; `laid_append` and `Laid.imp`
are what surgery on the headers needs.

Main results:

* `coalesced_release`, `release_eq`: giving a segment back keeps free segments
  apart, keeps the region's extent, and changes the accounting as expected;
* `addresses_used`, `addresses_cut`, `addresses_carve`: what these do to the
  addresses of the blocks;
* `laid_append`, `Laid.imp`: splitting and transporting a header layout.
-/

/-- A segment: its length, header included, and whether it is in use. -/
structure Seg where
  len : Nat
  used : Bool
deriving DecidableEq

namespace Tiling

-- --------
-- Extent and accounting
-- --------

/-- Bytes covered by a list of segments. -/
def span : List Seg → Nat
  | [] => 0
  | s :: ss => s.len + span ss

/-- Bytes covered by the segments in use. -/
def usedSpan : List Seg → Nat
  | [] => 0
  | s :: ss => (if s.used then s.len else 0) + usedSpan ss

/-- Start of the first free segment, the end of the region if there is none. -/
def firstFree (off : Nat) : List Seg → Nat
  | [] => off
  | s :: ss => if s.used then firstFree (off + s.len) ss else off

/-- Start of the last segment, `prev` if there is none. -/
def lastStart (prev off : Nat) : List Seg → Nat
  | [] => prev
  | s :: ss => lastStart off (off + s.len) ss

/-- No two neighbouring segments are both free. -/
def Coalesced (l : List Seg) : Prop := l.IsChain fun a b => a.used = true ∨ b.used = true

/-- Starts of the segments. -/
def starts (off : Nat) : List Seg → List Nat
  | [] => []
  | s :: ss => off :: starts (off + s.len) ss

@[simp] theorem span_nil : span [] = 0 := rfl
@[simp] theorem span_cons (s : Seg) (ss : List Seg) : span (s :: ss) = s.len + span ss := rfl
@[simp] theorem usedSpan_nil : usedSpan [] = 0 := rfl
@[simp] theorem usedSpan_cons (s : Seg) (ss : List Seg) :
    usedSpan (s :: ss) = (if s.used then s.len else 0) + usedSpan ss := rfl
@[simp] theorem lastStart_nil (prev off : Nat) : lastStart prev off [] = prev := rfl
@[simp] theorem lastStart_cons (prev off : Nat) (s : Seg) (ss : List Seg) :
    lastStart prev off (s :: ss) = lastStart off (off + s.len) ss := rfl

@[simp] theorem span_append (a b : List Seg) : span (a ++ b) = span a + span b := by
  induction a with
  | nil => simp
  | cons s ss ih => simp [ih, Nat.add_assoc]

@[simp] theorem usedSpan_append (a b : List Seg) :
    usedSpan (a ++ b) = usedSpan a + usedSpan b := by
  induction a with
  | nil => simp
  | cons s ss ih => simp [ih, Nat.add_assoc]

theorem usedSpan_le_span (l : List Seg) : usedSpan l ≤ span l := by
  induction l with
  | nil => simp
  | cons s ss ih =>
    simp only [usedSpan_cons, span_cons]
    split <;> omega

@[simp] theorem lastStart_append (prev off : Nat) (a b : List Seg) :
    lastStart prev off (a ++ b) = lastStart (lastStart prev off a) (off + span a) b := by
  induction a generalizing prev off with
  | nil => simp
  | cons s ss ih => simp [ih, Nat.add_assoc]

theorem lastStart_concat (prev off : Nat) (a : List Seg) (s : Seg) :
    lastStart prev off (a ++ [s]) = off + span a := by
  simp

@[simp] theorem starts_nil (off : Nat) : starts off [] = [] := rfl
@[simp] theorem starts_cons (off : Nat) (s : Seg) (ss : List Seg) :
    starts off (s :: ss) = off :: starts (off + s.len) ss := rfl

@[simp] theorem starts_append (off : Nat) (a b : List Seg) :
    starts off (a ++ b) = starts off a ++ starts (off + span a) b := by
  induction a generalizing off with
  | nil => simp
  | cons s ss ih => simp [ih, Nat.add_assoc]

/-- Start and length of every segment in use. -/
def blocks (off : Nat) : List Seg → List (Nat × Nat)
  | [] => []
  | s :: ss => (if s.used then [(off, s.len)] else []) ++ blocks (off + s.len) ss

@[simp] theorem blocks_nil (off : Nat) : blocks off [] = [] := rfl
@[simp] theorem blocks_cons (off : Nat) (s : Seg) (ss : List Seg) :
    blocks off (s :: ss) =
      (if s.used then [(off, s.len)] else []) ++ blocks (off + s.len) ss := rfl

@[simp] theorem blocks_append (off : Nat) (a b : List Seg) :
    blocks off (a ++ b) = blocks off a ++ blocks (off + span a) b := by
  induction a generalizing off with
  | nil => simp
  | cons s ss ih => simp [ih, Nat.add_assoc]

/-- A block is a place in the list. -/
theorem mem_blocks {off o n : Nat} {l : List Seg} :
    (o, n) ∈ blocks off l ↔ ∃ pre post, l = pre ++ ⟨n, true⟩ :: post ∧ o = off + span pre := by
  constructor
  · intro h
    induction l generalizing off with
    | nil => simp at h
    | cons s ss ih =>
      obtain ⟨k, u⟩ := s
      rcases List.mem_append.mp h with h | h
      · cases u with
        | false => simp at h
        | true =>
          simp only [if_true, List.mem_singleton, Prod.mk.injEq] at h
          obtain ⟨rfl, rfl⟩ := h
          exact ⟨[], ss, rfl, by simp⟩
      · obtain ⟨pre, post, rfl, rfl⟩ := ih h
        exact ⟨⟨k, u⟩ :: pre, post, rfl, by simp [Nat.add_assoc]⟩
  · rintro ⟨pre, post, rfl, rfl⟩
    simp

theorem le_of_mem_blocks {off : Nat} {l : List Seg} {b : Nat × Nat} (h : b ∈ blocks off l) :
    off ≤ b.1 ∧ b.1 + b.2 ≤ off + span l := by
  obtain ⟨pre, post, rfl, ho⟩ := mem_blocks.mp h
  simp only [span_append, span_cons]
  omega

theorem nodup_blocks (off : Nat) {l : List Seg} (hpos : ∀ s ∈ l, 0 < s.len) :
    ((blocks off l).map Prod.fst).Nodup := by
  induction l generalizing off with
  | nil => simp
  | cons s ss ih =>
    have hs := hpos s (by simp)
    have hss : ((blocks (off + s.len) ss).map Prod.fst).Nodup :=
      ih _ fun t ht => hpos t (by simp [ht])
    rw [blocks_cons]
    split
    · rw [List.singleton_append, List.map_cons, List.nodup_cons]
      refine ⟨fun h => ?_, hss⟩
      obtain ⟨b, hb, hoff⟩ := List.mem_map.mp h
      have := (le_of_mem_blocks hb).1
      omega
    · simpa using hss

theorem blocks_pairwise (off : Nat) (l : List Seg) :
    (blocks off l).Pairwise fun b b' => b.1 + b.2 ≤ b'.1 := by
  induction l generalizing off with
  | nil => exact List.Pairwise.nil
  | cons s ss ih =>
    rw [blocks_cons]
    split
    · exact List.pairwise_cons.mpr ⟨fun b hb => (le_of_mem_blocks hb).1, ih _⟩
    · exact ih _

/-- **Two blocks** do not overlap. -/
theorem blocks_apart {off : Nat} {l : List Seg} {b b' : Nat × Nat} (hb : b ∈ blocks off l)
    (hb' : b' ∈ blocks off l) (hne : b ≠ b') : b.1 + b.2 ≤ b'.1 ∨ b'.1 + b'.2 ≤ b.1 := by
  have hsymm : Std.Symm fun b b' : Nat × Nat => b.1 + b.2 ≤ b'.1 ∨ b'.1 + b'.2 ≤ b.1 :=
    ⟨fun _ _ => Or.symm⟩
  have hpair : (blocks off l).Pairwise fun b b' => b.1 + b.2 ≤ b'.1 ∨ b'.1 + b'.2 ≤ b.1 :=
    (blocks_pairwise off l).imp Or.inl
  exact hpair.forall hb hb' hne

/-- A block next to a segment that is none. -/
theorem block_beside {pre post : List Seg} {n o c : Nat} {u : Bool}
    (hb : (o, c) ∈ blocks 0 (pre ++ ⟨n, u⟩ :: post)) (hu : u = true → o ≠ span pre) :
    o + c ≤ span pre ∨ span pre + n ≤ o := by
  rw [blocks_append, blocks_cons] at hb
  rcases List.mem_append.mp hb with hb | hb
  · have := (le_of_mem_blocks hb).2
    dsimp only at this
    omega
  · rcases List.mem_append.mp hb with hb | hb
    · cases u with
      | false => simp at hb
      | true =>
        rw [if_pos rfl, List.mem_singleton, Prod.mk.injEq] at hb
        exact absurd (by omega) (hu rfl)
    · have := (le_of_mem_blocks hb).1
      dsimp only at this
      omega

/-- Start and length of every free segment. -/
def gaps (off : Nat) : List Seg → List (Nat × Nat)
  | [] => []
  | s :: ss => (if s.used then [] else [(off, s.len)]) ++ gaps (off + s.len) ss

@[simp] theorem gaps_nil (off : Nat) : gaps off [] = [] := rfl
@[simp] theorem gaps_cons (off : Nat) (s : Seg) (ss : List Seg) :
    gaps off (s :: ss) = (if s.used then [] else [(off, s.len)]) ++ gaps (off + s.len) ss := rfl

@[simp] theorem gaps_append (off : Nat) (a b : List Seg) :
    gaps off (a ++ b) = gaps off a ++ gaps (off + span a) b := by
  induction a generalizing off with
  | nil => simp
  | cons s ss ih => simp [ih, Nat.add_assoc]

/-- A gap is a place in the list. -/
theorem mem_gaps {off o n : Nat} {l : List Seg} :
    (o, n) ∈ gaps off l ↔ ∃ pre post, l = pre ++ ⟨n, false⟩ :: post ∧ o = off + span pre := by
  constructor
  · intro h
    induction l generalizing off with
    | nil => simp at h
    | cons s ss ih =>
      obtain ⟨k, u⟩ := s
      rcases List.mem_append.mp h with h | h
      · cases u with
        | true => simp at h
        | false =>
          simp only [Bool.false_eq_true, if_false, List.mem_singleton, Prod.mk.injEq] at h
          obtain ⟨rfl, rfl⟩ := h
          exact ⟨[], ss, rfl, by simp⟩
      · obtain ⟨pre, post, rfl, rfl⟩ := ih h
        exact ⟨⟨k, u⟩ :: pre, post, rfl, by simp [Nat.add_assoc]⟩
  · rintro ⟨pre, post, rfl, rfl⟩
    simp

/-- The starts of the segments and the end of the region, for a region that begins at `off`. -/
def edges (off : Nat) : List Seg → List Nat
  | [] => [off]
  | s :: ss => off :: edges (off + s.len) ss

@[simp] theorem edges_nil (off : Nat) : edges off [] = [off] := rfl
@[simp] theorem edges_cons (off : Nat) (s : Seg) (ss : List Seg) :
    edges off (s :: ss) = off :: edges (off + s.len) ss := rfl

@[simp] theorem edges_append (off : Nat) (a b : List Seg) :
    edges off (a ++ b) = starts off a ++ edges (off + span a) b := by
  induction a generalizing off with
  | nil => simp
  | cons s ss ih => simp [ih, Nat.add_assoc]

theorem edges_eq (off : Nat) (l : List Seg) : edges off l = starts off l ++ [off + span l] := by
  have h := edges_append off l []
  rwa [List.append_nil] at h

theorem edges_head (off : Nat) (l : List Seg) : ∃ t, edges off l = off :: t := by
  cases l with
  | nil => exact ⟨[], rfl⟩
  | cons s ss => exact ⟨_, rfl⟩

theorem gaps_sublist (off : Nat) (l : List Seg) :
    ((gaps off l).map Prod.fst).Sublist (starts off l) := by
  induction l generalizing off with
  | nil => exact List.Sublist.refl _
  | cons s ss ih =>
    rw [gaps_cons, starts_cons]
    split
    · exact (ih _).cons _
    · exact (ih _).cons_cons _

theorem edge_bounds {off o : Nat} {l : List Seg} (h : o ∈ edges off l) :
    off ≤ o ∧ o ≤ off + span l := by
  induction l generalizing off with
  | nil => simpa [Nat.le_antisymm_iff, and_comm] using h
  | cons s ss ih =>
    rw [span_cons]
    rcases List.mem_cons.mp h with rfl | h
    · omega
    · have := ih h
      omega

theorem edges_pairwise {k off : Nat} {l : List Seg} (h : ∀ s ∈ l, k ≤ s.len) :
    (edges off l).Pairwise fun a b => a + k ≤ b := by
  induction l generalizing off with
  | nil => exact List.pairwise_singleton _ _
  | cons s ss ih =>
    refine List.pairwise_cons.mpr ⟨fun o ho => ?_, ih fun t ht => h t (by simp [ht])⟩
    have hlen := h s (by simp)
    have := (edge_bounds ho).1
    omega

/-- The starts of the segments and the end of the region. -/
def boundaries (l : List Seg) : List Nat := starts 0 l ++ [span l]

theorem boundary_mem (pre post : List Seg) : span pre ∈ boundaries (pre ++ post) := by
  unfold boundaries
  cases post with
  | nil => simp
  | cons s ss => simp

theorem boundaries_join (pre post : List Seg) (a b : Nat) (u v w : Bool) :
    boundaries (pre ++ ⟨a + b, u⟩ :: post) ⊆ boundaries (pre ++ ⟨a, v⟩ :: ⟨b, w⟩ :: post) := by
  intro o ho
  simp only [boundaries, starts_append, starts_cons, span_append, span_cons, List.mem_append,
    List.mem_cons, Nat.add_assoc] at ho ⊢
  tauto

theorem boundaries_use (pre post : List Seg) (n : Nat) (u v : Bool) :
    boundaries (pre ++ ⟨n, u⟩ :: post) = boundaries (pre ++ ⟨n, v⟩ :: post) := by
  simp [boundaries]

/-- A boundary lies at or before the start of a segment, or at or behind its end. -/
theorem boundary_apart {pre post : List Seg} {s : Seg} {o : Nat}
    (ho : o ∈ boundaries (pre ++ s :: post)) : o ≤ span pre ∨ span pre + s.len ≤ o := by
  have hlow : ∀ (l : List Seg) (off : Nat), ∀ b ∈ starts off l, off ≤ b ∧ b ≤ off + span l := by
    intro l
    induction l with
    | nil => simp
    | cons t ts ih =>
      intro off b hb
      rw [span_cons]
      rcases List.mem_cons.mp hb with rfl | hb
      · omega
      · have := ih _ b hb
        omega
  simp only [boundaries, starts_append, starts_cons, span_append, span_cons, List.mem_append,
    List.mem_cons, List.not_mem_nil, or_false, Nat.zero_add] at ho
  rcases ho with (h | rfl | h) | rfl
  · have := hlow pre 0 o h
    omega
  · omega
  · have := hlow post _ o h
    omega
  · omega

-- --------
-- The first free segment
-- --------

theorem firstFree_append_used {off : Nat} {a b : List Seg} (ha : ∀ s ∈ a, s.used = true) :
    firstFree off (a ++ b) = firstFree (off + span a) b := by
  induction a generalizing off with
  | nil => simp
  | cons s ss ih =>
    rw [List.cons_append, firstFree, if_pos (ha s (by simp)),
      ih fun t ht => ha t (by simp [ht]), span_cons, Nat.add_assoc]

/-- A free segment in front decides the search. -/
theorem firstFree_append_free {off : Nat} {a b : List Seg} (ha : ∃ s ∈ a, s.used = false) :
    firstFree off (a ++ b) = firstFree off a := by
  induction a generalizing off with
  | nil => simp at ha
  | cons s ss ih =>
    rw [List.cons_append, firstFree, firstFree]
    by_cases hs : s.used = true
    · rw [if_pos hs, if_pos hs]
      refine ih ?_
      obtain ⟨t, ht, hf⟩ := ha
      rcases List.mem_cons.mp ht with rfl | ht
      · simp [hs] at hf
      · exact ⟨t, ht, hf⟩
    · rw [if_neg hs, if_neg hs]

theorem firstFree_le (off : Nat) (l : List Seg) : firstFree off l ≤ off + span l := by
  induction l generalizing off with
  | nil => simp [firstFree]
  | cons s ss ih =>
    rw [firstFree, span_cons]
    split
    · have := ih (off + s.len)
      omega
    · omega

theorem le_firstFree (off : Nat) (l : List Seg) : off ≤ firstFree off l := by
  induction l generalizing off with
  | nil => simp [firstFree]
  | cons s ss ih =>
    rw [firstFree]
    split
    · have := ih (off + s.len)
      omega
    · omega

/-- A free segment in the list is found before the list ends. -/
theorem firstFree_lt {off : Nat} {l : List Seg} (hl : ∃ s ∈ l, s.used = false)
    (hpos : ∀ s ∈ l, 0 < s.len) : firstFree off l < off + span l := by
  induction l generalizing off with
  | nil => simp at hl
  | cons s ss ih =>
    rw [firstFree, span_cons]
    have hs := hpos s (by simp)
    split
    · rename_i hu
      obtain ⟨t, ht, hf⟩ := hl
      rcases List.mem_cons.mp ht with rfl | ht
      · simp [hu] at hf
      · have hlt : firstFree (off + s.len) ss < off + s.len + span ss :=
          ih ⟨t, ht, hf⟩ fun t ht => hpos t (by simp [ht])
        omega
    · omega

/-- The first free start is the start of a free segment, if there is one. -/
theorem firstFree_split {l : List Seg} (hl : ∃ s ∈ l, s.used = false) :
    ∃ a s b, l = a ++ s :: b ∧ s.used = false ∧ firstFree 0 l = span a := by
  have hgen : ∀ (l : List Seg) (off : Nat), (∃ s ∈ l, s.used = false) →
      ∃ a s b, l = a ++ s :: b ∧ s.used = false ∧ firstFree off l = off + span a := by
    intro l
    induction l with
    | nil => simp
    | cons t ts ih =>
      rintro off ⟨s, hs, hf⟩
      rw [firstFree]
      by_cases ht : t.used = true
      · rw [if_pos ht]
        have hex : ∃ s ∈ ts, s.used = false := by
          rcases List.mem_cons.mp hs with rfl | hs
          · simp [ht] at hf
          · exact ⟨s, hs, hf⟩
        obtain ⟨a, u, b, rfl, hu, hoff⟩ := ih (off + t.len) hex
        exact ⟨t :: a, u, b, rfl, hu, by rw [hoff, span_cons, Nat.add_assoc]⟩
      · rw [if_neg ht]
        exact ⟨[], t, ts, rfl, by simpa using ht, rfl⟩
  obtain ⟨a, s, b, h, hs, hoff⟩ := hgen l 0 hl
  exact ⟨a, s, b, h, hs, by rw [hoff, Nat.zero_add]⟩

theorem exists_free_or_all_used (l : List Seg) :
    (∃ s ∈ l, s.used = false) ∨ ∀ s ∈ l, s.used = true := by
  by_cases h : ∃ s ∈ l, s.used = false
  · exact Or.inl h
  · refine Or.inr fun s hs => ?_
    by_contra hf
    exact h ⟨s, hs, by simpa using hf⟩

/-- Freeing a segment lowers the first free start to it, unless an earlier one is free. -/
theorem firstFree_free {off n m : Nat} {pre post : List Seg} (hm : 0 < m)
    (hpos : ∀ s ∈ pre, 0 < s.len) :
    firstFree off (pre ++ ⟨n, false⟩ :: post) =
      if off + span pre < firstFree off (pre ++ ⟨m, true⟩ :: post) then off + span pre
      else firstFree off (pre ++ ⟨m, true⟩ :: post) := by
  rcases exists_free_or_all_used pre with h | h
  · have hlt : firstFree off pre < off + span pre := firstFree_lt h hpos
    rw [firstFree_append_free h, firstFree_append_free h, if_neg (by omega)]
  · rw [firstFree_append_used h, firstFree_append_used h]
    simp only [firstFree, if_true, Bool.false_eq_true, if_false]
    have := le_firstFree (off + span pre + m) post
    rw [if_pos (by omega)]

theorem firstFree_at_free (off a b : Nat) (pre x y : List Seg) :
    firstFree off (pre ++ ⟨a, false⟩ :: x) = firstFree off (pre ++ ⟨b, false⟩ :: y) := by
  rcases exists_free_or_all_used pre with h | h
  · rw [firstFree_append_free h, firstFree_append_free h]
  · rw [firstFree_append_used h, firstFree_append_used h]
    simp [firstFree]

theorem firstFree_of_free_before {off : Nat} {pre l l' : List Seg}
    (h : ∃ s ∈ pre, s.used = false) : firstFree off (pre ++ l) = firstFree off (pre ++ l') := by
  rw [firstFree_append_free h, firstFree_append_free h]

theorem firstFree_cut {off a b : Nat} {pre post : List Seg} :
    firstFree off (pre ++ ⟨a, true⟩ :: ⟨b, true⟩ :: post) =
      firstFree off (pre ++ ⟨a + b, true⟩ :: post) := by
  rcases exists_free_or_all_used pre with h | h
  · rw [firstFree_append_free h, firstFree_append_free h]
  · rw [firstFree_append_used h, firstFree_append_used h]
    simp [firstFree, Nat.add_assoc]

/-- The first free start is a segment's own start exactly when nothing before it is free. -/
theorem firstFree_eq_iff {off : Nat} {pre post : List Seg} {s : Seg} (hs : s.used = false)
    (hpos : ∀ t ∈ pre, 0 < t.len) :
    off + span pre = firstFree off (pre ++ s :: post) ↔ ∀ t ∈ pre, t.used = true := by
  constructor
  · intro h
    rcases exists_free_or_all_used pre with hf | hu
    · have hlt : firstFree off pre < off + span pre := firstFree_lt hf hpos
      rw [firstFree_append_free hf] at h
      omega
    · exact hu
  · intro h
    rw [firstFree_append_used h, firstFree, if_neg (by simp [hs])]

-- --------
-- Coalescing
-- --------

theorem coalesced_append {a b : List Seg} :
    Coalesced (a ++ b) ↔ Coalesced a ∧ Coalesced b ∧
      ∀ x ∈ a.getLast?, ∀ y ∈ b.head?, x.used = true ∨ y.used = true :=
  List.isChain_append

/-- Around a segment in use the two halves are independent. -/
theorem coalesced_used {a b : List Seg} {s : Seg} (hs : s.used = true) :
    Coalesced (a ++ s :: b) ↔ Coalesced a ∧ Coalesced b := by
  rw [coalesced_append]
  constructor
  · rintro ⟨ha, hb, _⟩
    exact ⟨ha, hb.tail⟩
  · rintro ⟨ha, hb⟩
    refine ⟨ha, ?_, fun _ _ y hy => Or.inr ?_⟩
    · cases b with
      | nil => exact List.isChain_singleton _
      | cons t ts => exact List.isChain_cons_cons.mpr ⟨Or.inl hs, hb⟩
    · simp only [List.head?_cons, Option.mem_def, Option.some.injEq] at hy
      rw [← hy, hs]

theorem coalesced_free {a b : List Seg} {s : Seg} (ha : Coalesced a) (hb : Coalesced b)
    (hl : ∀ x ∈ a.getLast?, x.used = true) (hr : ∀ y ∈ b.head?, y.used = true) :
    Coalesced (a ++ s :: b) := by
  rw [coalesced_append]
  refine ⟨ha, ?_, fun x hx _ _ => Or.inl (hl x hx)⟩
  cases b with
  | nil => exact List.isChain_singleton _
  | cons t ts => exact List.isChain_cons_cons.mpr ⟨Or.inr (hr t (by simp)), hb⟩

/-- The neighbours of a free segment are in use. -/
theorem Coalesced.neighbours {a b : List Seg} {s : Seg} (h : Coalesced (a ++ s :: b))
    (hs : s.used = false) :
    (∀ x ∈ a.getLast?, x.used = true) ∧ ∀ y ∈ b.head?, y.used = true := by
  obtain ⟨_, hb, hl⟩ := coalesced_append.mp h
  constructor
  · intro x hx
    have := hl x hx s (by simp)
    simpa [hs] using this
  · intro y hy
    cases b with
    | nil => simp at hy
    | cons t ts =>
      have := (List.isChain_cons_cons.mp hb).1
      simp only [List.head?_cons, Option.mem_def, Option.some.injEq] at hy
      simpa [hs, ← hy] using this

theorem Coalesced.sides {a b : List Seg} {s : Seg} (h : Coalesced (a ++ s :: b)) :
    Coalesced a ∧ Coalesced b := by
  obtain ⟨ha, hb, _⟩ := coalesced_append.mp h
  exact ⟨ha, hb.tail⟩

-- --------
-- Handing out a segment
-- --------

/-- The front `need` bytes of a free segment of length `n`, the rest staying free when at
least `minRest` bytes of it remain. -/
def carve (need minRest n : Nat) : List Seg :=
  if need + minRest ≤ n then [⟨need, true⟩, ⟨n - need, false⟩] else [⟨n, true⟩]

theorem span_carve (need minRest n : Nat) : span (carve need minRest n) = n := by
  unfold carve
  split
  · simp only [span_cons, span_nil]
    omega
  · simp

@[simp] theorem blocks_carve (off need minRest n : Nat) :
    blocks off (carve need minRest n) = [(off, if need + minRest ≤ n then need else n)] := by
  unfold carve
  split
  · rfl
  · rfl

theorem blocks_carve_perm (pre : List Seg) (need minRest n : Nat) (post : List Seg) :
    (blocks 0 (pre ++ carve need minRest n ++ post)).Perm
      ((span pre, if need + minRest ≤ n then need else n) ::
        blocks 0 (pre ++ ⟨n, false⟩ :: post)) := by
  simp only [blocks_append, blocks_carve, span_carve, blocks_cons, Bool.false_eq_true, if_false,
    List.nil_append, Nat.zero_add, List.append_assoc]
  exact List.perm_middle

theorem carve_keeps (need minRest : Nat) {k o c : Nat} {pre post : List Seg}
    (hb : (o, c) ∈ blocks 0 (pre ++ ⟨k, false⟩ :: post)) :
    ∃ pre₁ post₁, pre ++ carve need minRest k ++ post = pre₁ ++ ⟨c, true⟩ :: post₁ ∧
      o = span pre₁ := by
  have hmem : (o, c) ∈ blocks 0 (pre ++ carve need minRest k ++ post) :=
    (blocks_carve_perm ..).mem_iff.mpr (List.mem_cons_of_mem _ hb)
  obtain ⟨pre₁, post₁, hl, ho⟩ := mem_blocks.mp hmem
  exact ⟨pre₁, post₁, hl, by rw [ho, Nat.zero_add]⟩

theorem carve_head (minRest : Nat) {need k : Nat} (hk : need ≤ k) :
    ∃ c ts, carve need minRest k = ⟨c, true⟩ :: ts ∧ need ≤ c := by
  unfold carve
  split
  · exact ⟨need, _, rfl, Nat.le_refl _⟩
  · exact ⟨k, [], rfl, hk⟩

theorem coalesced_carve {pre post : List Seg} (need minRest : Nat) {n : Nat}
    (h : Coalesced (pre ++ ⟨n, false⟩ :: post)) :
    Coalesced (pre ++ carve need minRest n ++ post) := by
  obtain ⟨hpre, hpost⟩ := h.sides
  obtain ⟨_, hr⟩ := h.neighbours rfl
  unfold carve
  split
  · have hrest : Coalesced ([] ++ ⟨n - need, false⟩ :: post) :=
      coalesced_free List.isChain_nil hpost (by simp) hr
    simpa using (coalesced_used rfl).mpr ⟨hpre, hrest⟩
  · simpa using (coalesced_used rfl).mpr ⟨hpre, hpost⟩

-- --------
-- Giving a segment back
-- --------

/-- Put a free segment in front of a list, joined with a free first segment. -/
def joinRight (n : Nat) : List Seg → List Seg
  | ⟨k, false⟩ :: ts => ⟨n + k, false⟩ :: ts
  | ts => ⟨n, false⟩ :: ts

/-- Append a list, joining a free last segment with a free first one. -/
def joinLeft (pre l : List Seg) : List Seg :=
  match pre.getLast?, l with
  | some ⟨k, false⟩, ⟨n, false⟩ :: ts => pre.dropLast ++ ⟨k + n, false⟩ :: ts
  | _, l => pre ++ l

/-- A free segment of length `n` between `pre` and `post`, joined with free neighbours. -/
def release (pre : List Seg) (n : Nat) (post : List Seg) : List Seg :=
  joinLeft pre (joinRight n post)

@[simp] theorem joinRight_free (n k : Nat) (ts : List Seg) :
    joinRight n (⟨k, false⟩ :: ts) = ⟨n + k, false⟩ :: ts := rfl

theorem span_joinRight (n : Nat) (post : List Seg) :
    span (joinRight n post) = n + span post := by
  match post with
  | [] => rfl
  | ⟨k, true⟩ :: ts => rfl
  | ⟨k, false⟩ :: ts => exact Nat.add_assoc ..

theorem joinRight_eq (n : Nat) (post : List Seg) (h : Coalesced post) :
    ∃ k ts, joinRight n post = ⟨n + k, false⟩ :: ts ∧ span post = k + span ts ∧
      usedSpan ts = usedSpan post ∧ Coalesced ts ∧ ∀ y ∈ ts.head?, y.used = true := by
  match post, h with
  | [], _ => exact ⟨0, [], rfl, by simp, rfl, List.isChain_nil, by simp⟩
  | ⟨k, true⟩ :: ts, h => exact ⟨0, ⟨k, true⟩ :: ts, rfl, by simp, rfl, h, by simp⟩
  | ⟨k, false⟩ :: ts, h =>
    refine ⟨k, ts, rfl, rfl, by simp, h.tail, ?_⟩
    exact (Coalesced.neighbours (a := []) h rfl).2

theorem joinLeft_free (pre ts : List Seg) (k n : Nat) :
    joinLeft (pre ++ [⟨k, false⟩]) (⟨n, false⟩ :: ts) = pre ++ ⟨k + n, false⟩ :: ts := by
  simp [joinLeft]

theorem joinLeft_used {pre l : List Seg} (h : ∀ x ∈ pre.getLast?, x.used = true) :
    joinLeft pre l = pre ++ l := by
  unfold joinLeft
  split
  · rename_i k n ts heq
    exact absurd (h ⟨k, false⟩ (by simp [heq])) (by simp)
  · rfl

theorem release_free (pre post : List Seg) (k n : Nat) :
    release (pre ++ [⟨k, false⟩]) n post = pre ++ joinRight (k + n) post := by
  match post with
  | [] => exact joinLeft_free ..
  | ⟨j, true⟩ :: ts => exact joinLeft_free ..
  | ⟨j, false⟩ :: ts =>
    rw [release, joinRight_free, joinRight_free, joinLeft_free, Nat.add_assoc]

theorem release_used {pre : List Seg} (h : ∀ x ∈ pre.getLast?, x.used = true) (n : Nat)
    (post : List Seg) : release pre n post = pre ++ joinRight n post :=
  joinLeft_used h

/-- Joining a free segment to the left. -/
theorem joinLeft_eq (pre ts : List Seg) (n : Nat) (h : Coalesced pre) :
    ∃ pre' k, joinLeft pre (⟨n, false⟩ :: ts) = pre' ++ ⟨k + n, false⟩ :: ts ∧
      span pre = span pre' + k ∧ usedSpan pre' = usedSpan pre ∧ Coalesced pre' ∧
      ∀ x ∈ pre'.getLast?, x.used = true := by
  rcases List.eq_nil_or_concat pre with rfl | ⟨pre', ⟨k, used⟩, rfl⟩
  · exact ⟨[], 0, by simp [joinLeft], by simp, rfl, List.isChain_nil, by simp⟩
  · cases used with
    | true =>
      rw [List.concat_eq_append] at h ⊢
      refine ⟨pre' ++ [⟨k, true⟩], 0, ?_, by simp, rfl, h, by simp⟩
      rw [joinLeft_used (by simp), Nat.zero_add]
    | false =>
      rw [List.concat_eq_append] at h ⊢
      refine ⟨pre', k, joinLeft_free .., by simp, by simp, h.sides.1, ?_⟩
      exact (h.neighbours rfl).1

/-- **Giving a segment back**: the shape of the result, its extent and accounting. -/
theorem release_eq (pre : List Seg) (n : Nat) (post : List Seg) (hpre : Coalesced pre)
    (hpost : Coalesced post) :
    ∃ pre' k post', release pre n post = pre' ++ ⟨k, false⟩ :: post' ∧
      span pre' + k + span post' = span pre + n + span post ∧
      usedSpan pre' = usedSpan pre ∧ usedSpan post' = usedSpan post ∧
      Coalesced pre' ∧ Coalesced post' ∧
      (∀ x ∈ pre'.getLast?, x.used = true) ∧ ∀ y ∈ post'.head?, y.used = true := by
  obtain ⟨k, ts, hr, hs, hu, hc, hy⟩ := joinRight_eq n post hpost
  obtain ⟨pre', j, hl, hs', hu', hc', hx⟩ := joinLeft_eq pre ts (n + k) hpre
  refine ⟨pre', j + (n + k), ts, ?_, by omega, hu', hu, hc', hc, hx, hy⟩
  rw [release, hr, hl]

theorem coalesced_release {pre post : List Seg} {n : Nat} (hpre : Coalesced pre)
    (hpost : Coalesced post) : Coalesced (release pre n post) := by
  obtain ⟨pre', k, post', h, _, _, _, hc, hc', hx, hy⟩ := release_eq pre n post hpre hpost
  rw [h]
  exact coalesced_free hc hc' hx hy

/-- Joining free segments leaves the segments in use where they are. -/
theorem blocks_release (off : Nat) (pre : List Seg) (n : Nat) (post : List Seg) :
    blocks off (release pre n post) = blocks off pre ++ blocks (off + span pre + n) post := by
  obtain ⟨j, ts, hj, hb⟩ : ∃ j ts, joinRight n post = ⟨j, false⟩ :: ts ∧
      ∀ o, blocks (o + j) ts = blocks (o + n) post := by
    match post with
    | [] => exact ⟨n, [], rfl, by simp⟩
    | ⟨k, true⟩ :: ts => exact ⟨n, ⟨k, true⟩ :: ts, rfl, fun _ => rfl⟩
    | ⟨k, false⟩ :: ts => exact ⟨n + k, ts, rfl, fun o => by simp [Nat.add_assoc]⟩
  rw [release, hj]
  rcases List.eq_nil_or_concat pre with rfl | ⟨pre', ⟨k, used⟩, rfl⟩
  · rw [joinLeft_used (by simp)]
    simp [hb]
  · rw [List.concat_eq_append]
    cases used with
    | true =>
      rw [joinLeft_used (by simp)]
      simp [hb, ← Nat.add_assoc]
    | false =>
      rw [joinLeft_free]
      simp only [blocks_append, blocks_cons, blocks_nil, Bool.false_eq_true, if_false,
        List.nil_append, List.append_nil, span_append, span_cons, span_nil, Nat.add_zero,
        ← Nat.add_assoc, hb]

theorem release_keeps {pre post : List Seg} {n o c : Nat}
    (hb : (o, c) ∈ blocks 0 (pre ++ ⟨n, true⟩ :: post)) (hne : o ≠ span pre) :
    (o, c) ∈ blocks 0 (release pre n post) := by
  rw [blocks_release]
  rw [blocks_append, blocks_cons, if_pos rfl] at hb
  simp only [List.singleton_append, List.mem_append, List.mem_cons, Prod.mk.injEq] at hb ⊢
  rcases hb with hb | ⟨ho, _⟩ | hb
  · exact Or.inl hb
  · exact absurd (by omega) hne
  · exact Or.inr hb

theorem cut_keeps {pre post : List Seg} {n d o c : Nat} (hd : d ≤ n)
    (hb : (o, c) ∈ blocks 0 (pre ++ ⟨n, true⟩ :: post)) (hne : o ≠ span pre) :
    (o, c) ∈ blocks 0 (pre ++ ⟨d, true⟩ :: ⟨n - d, false⟩ :: post) := by
  have hend : 0 + span pre + d + (n - d) = 0 + span pre + n := by omega
  simp only [blocks_append, blocks_cons, if_true, Bool.false_eq_true, if_false, List.nil_append,
    List.singleton_append, List.mem_append, List.mem_cons, Prod.mk.injEq, hend] at hb ⊢
  rcases hb with hb | ⟨ho, _⟩ | hb
  · exact Or.inl hb
  · exact absurd (by omega) hne
  · exact Or.inr (Or.inr hb)

theorem blocks_cut (off : Nat) (pre : List Seg) (n d : Nat) (post : List Seg) :
    blocks off (release (pre ++ [⟨d, true⟩]) (n - d) post) =
      blocks off (pre ++ ⟨d, true⟩ :: ⟨n - d, false⟩ :: post) := by
  rw [blocks_release]
  simp [Nat.add_assoc]

theorem cut_block (pre : List Seg) (d m : Nat) (post : List Seg) :
    (span pre, d) ∈ blocks 0 (release (pre ++ [⟨d, true⟩]) (m - d) post) := by
  rw [blocks_cut]
  simp

-- --------
-- Addresses
-- --------

/-- Where the payloads of the blocks begin, in a region at `base` with headers of `hdr` bytes. -/
def addresses (base hdr : Nat) (l : List Seg) : List Nat :=
  (blocks 0 l).map fun b => base + b.1 + hdr

section Addresses

variable {base hdr p : Nat} {l : List Seg}

theorem mem_addresses : p ∈ addresses base hdr l ↔
    ∃ o c, (o, c) ∈ blocks 0 l ∧ p = base + o + hdr := by
  rw [addresses, List.mem_map]
  constructor
  · rintro ⟨⟨o, c⟩, hb, rfl⟩
    exact ⟨o, c, hb, rfl⟩
  · rintro ⟨o, c, hb, rfl⟩
    exact ⟨(o, c), hb, rfl⟩

theorem exists_of_mem_addresses (hp : p ∈ addresses base hdr l) :
    ∃ pre n post, l = pre ++ ⟨n, true⟩ :: post ∧ p = base + span pre + hdr := by
  obtain ⟨o, n, hb, rfl⟩ := mem_addresses.mp hp
  obtain ⟨pre, post, hl, ho⟩ := mem_blocks.mp hb
  exact ⟨pre, n, post, hl, by rw [ho, Nat.zero_add]⟩

theorem nodup_addresses (hl : ∀ s ∈ l, 0 < s.len) : (addresses base hdr l).Nodup := by
  have hfst := nodup_blocks 0 hl
  refine List.Nodup.map_on (fun b hb b' hb' heq => ?_) (List.Nodup.of_map _ hfst)
  exact List.inj_on_of_nodup_map hfst hb hb' (by omega)

theorem addresses_used (base hdr n : Nat) (pre post : List Seg) :
    (addresses base hdr (pre ++ ⟨n, true⟩ :: post)).Perm
      ((base + span pre + hdr) :: addresses base hdr (release pre n post)) := by
  rw [addresses, addresses, blocks_release]
  simp only [blocks_append, blocks_cons, if_true, List.map_append, List.singleton_append,
    List.map_cons, Nat.zero_add]
  exact List.perm_middle

theorem addresses_cut (base hdr : Nat) {c n : Nat} (pre post : List Seg) (hc : c ≤ n) :
    addresses base hdr (release (pre ++ [⟨c, true⟩]) (n - c) post) =
      addresses base hdr (pre ++ ⟨n, true⟩ :: post) := by
  have hend : span pre + c + (n - c) = span pre + n := by omega
  rw [addresses, addresses, blocks_release]
  simp only [blocks_append, blocks_cons, blocks_nil, if_true, List.map_append, List.map_cons,
    List.map_nil, span_append, span_cons, span_nil, Nat.zero_add, Nat.add_zero, hend,
    List.append_nil, List.append_assoc]

theorem addresses_carve (base hdr minRest : Nat) (pre : List Seg) (need k : Nat)
    (post : List Seg) :
    (addresses base hdr (pre ++ carve need minRest k ++ post)).Perm
      ((base + span pre + hdr) :: addresses base hdr (pre ++ ⟨k, false⟩ :: post)) :=
  (blocks_carve_perm ..).map _

end Addresses

-- --------
-- Header layouts
-- --------

/-- Every segment's header satisfies `H`, which sees the start of the segment before it. -/
def Laid (H : Nat → Nat → Seg → Prop) : Nat → Nat → List Seg → Prop
  | _, _, [] => True
  | prev, off, s :: ss => H prev off s ∧ Laid H off (off + s.len) ss

variable {H H' : Nat → Nat → Seg → Prop} {prev off : Nat}

@[simp] theorem laid_nil : Laid H prev off [] := trivial

@[simp] theorem laid_cons {s : Seg} {ss : List Seg} :
    Laid H prev off (s :: ss) ↔ H prev off s ∧ Laid H off (off + s.len) ss := Iff.rfl

theorem laid_append {a b : List Seg} :
    Laid H prev off (a ++ b) ↔
      Laid H prev off a ∧ Laid H (lastStart prev off a) (off + span a) b := by
  induction a generalizing prev off with
  | nil => simp
  | cons s ss ih => simp [ih, and_assoc, Nat.add_assoc]

theorem Laid.imp {l : List Seg} (h : Laid H prev off l)
    (hH : ∀ p o, ∀ s ∈ l, off ≤ o → o + s.len ≤ off + span l → H p o s → H' p o s) :
    Laid H' prev off l := by
  induction l generalizing prev off with
  | nil => trivial
  | cons s ss ih =>
    obtain ⟨hs, hss⟩ := h
    refine ⟨hH _ _ _ (by simp) (Nat.le_refl _) (by simp) hs, ih hss fun p o t ht h1 h2 => ?_⟩
    exact hH p o t (by simp [ht]) (by omega) (by rw [span_cons]; omega)

theorem Laid.imp_starts {l : List Seg} (h : Laid H prev off l)
    (hH : ∀ p, ∀ o ∈ starts off l, ∀ s, H p o s → H' p o s) : Laid H' prev off l := by
  induction l generalizing prev off with
  | nil => trivial
  | cons s ss ih =>
    obtain ⟨hs, hss⟩ := h
    exact ⟨hH _ _ (by simp) _ hs, ih hss fun p o ho t => hH p o (by simp [ho]) t⟩

theorem Laid.header {pre post : List Seg} {s : Seg} (h : Laid H prev off (pre ++ s :: post)) :
    H (lastStart prev off pre) (off + span pre) s :=
  (laid_append.mp h).2.1

end Tiling
