import Mathlib.Data.List.Basic
import Mathlib.Tactic.Common

/-!
# Extents

A set of numbers written as the list of its maximal runs of consecutive ones: what an
allocator of pages, blocks or identifiers keeps of what is free. `Spaced lo l` says that the
runs are in order, not empty, and apart by at least one number that is not in the set, so that
the list is determined by the set (`Spaced.ext`).

## Main results

* `take_least`, `take_none` : taking from the first run that is long enough takes the least
  numbers in a row the set has, and fails only if it has none.
* `spaced_give` : giving numbers back joins the runs they touch.
-/

/-- The numbers from `start` on, `len` of them. -/
structure Extent where
  start : Nat
  len : Nat
deriving DecidableEq

/-- The number behind the last one. -/
def Extent.stop (e : Extent) : Nat := e.start + e.len

/-- The number is in the run. -/
def Extent.Has (e : Extent) (x : Nat) : Prop := e.start ≤ x ∧ x < e.stop

instance (e : Extent) (x : Nat) : Decidable (e.Has x) := inferInstanceAs (Decidable (_ ∧ _))

namespace Extents

/-- Runs in order from `lo` on, none of them empty, with a gap before each of the later ones. -/
def Spaced : Nat → List Extent → Prop
  | _, [] => True
  | lo, e :: l => lo ≤ e.start ∧ 0 < e.len ∧ Spaced (e.stop + 1) l

/-- The numbers of the set. -/
def Covers (l : List Extent) (x : Nat) : Prop := ∃ e ∈ l, e.Has x

/-- `n` numbers in a row from `a` on. -/
def Room (l : List Extent) (a n : Nat) : Prop := ∀ x, a ≤ x → x < a + n → Covers l x

/-- Take `n` numbers from the first run that is long enough. -/
def take (n : Nat) : List Extent → Option (Nat × List Extent)
  | [] => none
  | e :: l =>
    if n < e.len then some (e.start, ⟨e.start + n, e.len - n⟩ :: l)
    else if e.len = n then some (e.start, l)
    else (take n l).map fun p => (p.1, e :: p.2)

/-- A run joined with the next one if it ends there. -/
def join (e : Extent) : List Extent → List Extent
  | [] => [e]
  | f :: l => if e.stop = f.start then ⟨e.start, e.len + f.len⟩ :: l else e :: f :: l

/-- Give the `n` numbers from `a` on back. -/
def give (a n : Nat) : List Extent → List Extent
  | [] => [⟨a, n⟩]
  | e :: l =>
    if e.stop = a then join ⟨e.start, e.len + n⟩ l
    else if e.start = a + n then ⟨a, e.len + n⟩ :: l
    else if a + n < e.start then ⟨a, n⟩ :: e :: l
    else e :: give a n l

variable {lo lo' hi a n x : Nat} {e : Extent} {l l' : List Extent}

theorem covers_cons : Covers (e :: l) x ↔ e.Has x ∨ Covers l x := by
  simp [Covers]

theorem not_covers_nil : ¬ Covers [] x := by
  simp [Covers]

theorem Spaced.mono (h : Spaced lo l) (hle : lo' ≤ lo) : Spaced lo' l := by
  cases l with
  | nil => exact trivial
  | cons e l => exact ⟨Nat.le_trans hle h.1, h.2⟩

theorem Spaced.le (h : Spaced lo l) (hx : Covers l x) : lo ≤ x := by
  induction l generalizing lo with
  | nil => exact absurd hx not_covers_nil
  | cons e l ih =>
    rcases covers_cons.mp hx with hx | hx
    · exact Nat.le_trans h.1 hx.1
    · have hlo := h.1
      have := ih h.2.2 hx
      unfold Extent.stop at this
      omega

theorem Spaced.length_le (h : Spaced lo l) (hhi : ∀ x, Covers l x → x < hi) :
    l = [] ∨ lo + l.length ≤ hi := by
  induction l generalizing lo with
  | nil => exact Or.inl rfl
  | cons e l ih =>
    obtain ⟨hle, hpos, h⟩ := h
    have hlast := hhi (e.stop - 1) (covers_cons.mpr (Or.inl ⟨by unfold Extent.stop; omega,
      by unfold Extent.stop; omega⟩))
    right
    rw [List.length_cons]
    rcases ih h (fun x hx => hhi x (covers_cons.mpr (Or.inr hx))) with rfl | hlen
    · rw [List.length_nil]
      unfold Extent.stop at hlast
      omega
    · unfold Extent.stop at hlen
      omega

/-- Numbers in a row are in one run, since the runs are apart. -/
theorem Spaced.room (h : Spaced lo (e :: l)) (hn : 0 < n) (hroom : Room (e :: l) a n) :
    e.start ≤ a ∧ a + n ≤ e.stop ∨ e.stop < a ∧ Room l a n := by
  have hat : ∀ y, a ≤ y → y < a + n → e.Has y ∨ e.stop < y ∧ Covers l y := by
    intro y hle hlt
    rcases covers_cons.mp (hroom y hle hlt) with hy | hy
    · exact Or.inl hy
    · exact Or.inr ⟨h.2.2.le hy, hy⟩
  rcases hat a (Nat.le_refl _) (by omega) with ⟨hle, hlt⟩ | ⟨hlt, -⟩
  · -- the number behind the run is not in the set
    refine Or.inl ⟨hle, ?_⟩
    by_contra hnot
    rcases hat e.stop (by omega) (by omega) with ⟨-, hself⟩ | ⟨hself, -⟩ <;>
      exact absurd hself (Nat.lt_irrefl _)
  · refine Or.inr ⟨hlt, fun y hle hylt => ?_⟩
    rcases hat y hle hylt with ⟨-, hy⟩ | ⟨-, hy⟩
    · omega
    · exact hy

/-- **The set determines the list.** -/
theorem Spaced.ext (h : Spaced lo l) (h' : Spaced lo' l') (heq : ∀ x, Covers l x ↔ Covers l' x) :
    l = l' := by
  induction l generalizing lo lo' l' with
  | nil =>
    cases l' with
    | nil => rfl
    | cons e l' =>
      have hlen := h'.2.1
      exact absurd ((heq e.start).mpr (covers_cons.mpr (Or.inl ⟨Nat.le_refl _, by
        unfold Extent.stop; omega⟩))) not_covers_nil
  | cons e l ih =>
    have hlen := h.2.1
    have hroom : ∀ {f : Extent} {m : List Extent}, Room (f :: m) f.start f.len :=
      fun y hle hlt => covers_cons.mpr (Or.inl ⟨hle, hlt⟩)
    cases l' with
    | nil =>
      exact absurd ((heq e.start).mp (covers_cons.mpr (Or.inl ⟨Nat.le_refl _, by
        unfold Extent.stop; omega⟩))) not_covers_nil
    | cons f l' =>
      have hlen' := h'.2.1
      -- each of the first runs is a part of the other
      have hef : e = f := by
        have h1 := h'.room hlen fun y hle hlt => (heq y).mp (hroom y hle hlt)
        have h2 := h.room hlen' fun y hle hlt => (heq y).mpr (hroom y hle hlt)
        obtain ⟨es, en⟩ := e
        obtain ⟨fs, fn⟩ := f
        simp only [Extent.stop] at *
        obtain ⟨rfl, rfl⟩ : es = fs ∧ en = fn := by omega
        rfl
      subst hef
      congr 1
      refine ih h.2.2 h'.2.2 fun y => ?_
      have hout : ∀ {m : List Extent}, Spaced (e.stop + 1) m → Covers m y → ¬ e.Has y := by
        intro m hm hy hhas
        have hle := hm.le hy
        have hlt := hhas.2
        omega
      have hy := heq y
      rw [covers_cons, covers_cons] at hy
      constructor
      · intro hc
        exact (hy.mp (Or.inr hc)).resolve_left (hout h.2.2 hc)
      · intro hc
        exact (hy.mpr (Or.inr hc)).resolve_left (hout h'.2.2 hc)

-- --------
-- Taking
-- --------

/-- **First fit is least fit.** The numbers that are taken are in the set, they are the least
ones in a row, and the others stay. -/
theorem take_least (h : Spaced lo l) (hn : 0 < n) (ht : take n l = some (a, l')) :
    Room l a n ∧ (∀ b, Room l b n → a ≤ b) ∧ Spaced lo l' ∧
      ∀ x, Covers l' x ↔ Covers l x ∧ ¬ (a ≤ x ∧ x < a + n) := by
  induction l generalizing lo l' with
  | nil => cases ht
  | cons e l ih =>
    obtain ⟨hlo, hpos, hl⟩ := h
    have hfirst : ∀ b, Room (e :: l) b n → e.start ≤ b := by
      intro b hb
      rcases Spaced.room ⟨hlo, hpos, hl⟩ hn hb with ⟨hle, -⟩ | ⟨hlt, -⟩
      · exact hle
      · unfold Extent.stop at hlt
        omega
    have hbehind : ∀ x, Covers l x → e.stop < x := fun x hx => hl.le hx
    unfold take at ht
    split_ifs at ht with hlt heq
    · obtain ⟨rfl, rfl⟩ := Prod.mk.inj (Option.some.inj ht)
      refine ⟨fun x hle hx => covers_cons.mpr (Or.inl ⟨hle, ?_⟩), hfirst, ⟨?_, ?_, ?_⟩, fun x => ?_⟩
      · unfold Extent.stop
        omega
      · dsimp only
        omega
      · dsimp only
        omega
      · refine hl.mono ?_
        unfold Extent.stop
        dsimp only
        omega
      · have := hbehind x
        rw [covers_cons, covers_cons]
        unfold Extent.Has Extent.stop at *
        constructor
        · rintro (hx | hx)
          · dsimp only at hx
            exact ⟨Or.inl (by omega), by omega⟩
          · exact ⟨Or.inr hx, by have := this hx; omega⟩
        · rintro ⟨hx | hx, hnot⟩
          · exact Or.inl ⟨by dsimp only; omega, by dsimp only; omega⟩
          · exact Or.inr hx
    · obtain ⟨rfl, rfl⟩ := Prod.mk.inj (Option.some.inj ht)
      refine ⟨fun x hle hx => covers_cons.mpr (Or.inl ⟨hle, ?_⟩), hfirst, hl.mono ?_, fun x => ?_⟩
      · unfold Extent.stop
        omega
      · unfold Extent.stop
        omega
      · have := hbehind x
        rw [covers_cons]
        unfold Extent.Has Extent.stop at *
        constructor
        · intro hx
          exact ⟨Or.inr hx, by have := this hx; omega⟩
        · rintro ⟨hx | hx, hnot⟩
          · omega
          · exact hx
    · obtain ⟨p, hp, hpair⟩ := Option.map_eq_some_iff.mp ht
      obtain ⟨rfl, rfl⟩ := Prod.mk.inj hpair
      obtain ⟨hroom, hleast, hsp, hcov⟩ := ih hl hp
      have hfit : ∀ b, Room (e :: l) b n → Room l b n := by
        intro b hb
        rcases Spaced.room ⟨hlo, hpos, hl⟩ hn hb with ⟨hle, hstop⟩ | ⟨-, hb⟩
        · unfold Extent.stop at hstop
          omega
        · exact hb
      refine ⟨fun x hle hx => covers_cons.mpr (Or.inr (hroom x hle hx)),
        fun b hb => hleast b (hfit b hb), ⟨hlo, hpos, hsp⟩, fun x => ?_⟩
      have hstart := hbehind p.1 (hroom p.1 (Nat.le_refl _) (by omega))
      rw [covers_cons, covers_cons, hcov]
      unfold Extent.Has
      constructor
      · rintro (hx | ⟨hx, hnot⟩)
        · exact ⟨Or.inl hx, by omega⟩
        · exact ⟨Or.inr hx, hnot⟩
      · rintro ⟨hx | hx, hnot⟩
        · exact Or.inl hx
        · exact Or.inr ⟨hx, hnot⟩

/-- Taking fails only if the set has no `n` numbers in a row. -/
theorem take_none (h : Spaced lo l) (hn : 0 < n) (ht : take n l = none) (a : Nat) :
    ¬ Room l a n := by
  induction l generalizing lo with
  | nil =>
    intro hroom
    exact not_covers_nil (hroom a (Nat.le_refl _) (by omega))
  | cons e l ih =>
    unfold take at ht
    split_ifs at ht with hlt heq
    intro hroom
    rcases h.room hn hroom with ⟨hle, hstop⟩ | ⟨-, hroom⟩
    · unfold Extent.stop at hstop
      omega
    · exact ih h.2.2 (Option.map_eq_none_iff.mp ht) hroom

-- --------
-- Giving back
-- --------

theorem spaced_join (hlo : lo ≤ e.start) (hpos : 0 < e.len) (hl : Spaced e.stop l) :
    Spaced lo (join e l) ∧ ∀ x, Covers (join e l) x ↔ e.Has x ∨ Covers l x := by
  cases l with
  | nil => exact ⟨⟨hlo, hpos, trivial⟩, fun x => covers_cons⟩
  | cons f l =>
    obtain ⟨hle, hf, hl⟩ := hl
    rw [join]
    split_ifs with heq
    · refine ⟨⟨hlo, Nat.add_pos_left hpos _, hl.mono ?_⟩, fun x => ?_⟩
      · unfold Extent.stop at *
        dsimp only
        omega
      · rw [covers_cons, covers_cons, ← or_assoc]
        unfold Extent.Has Extent.stop at *
        dsimp only
        refine or_congr ?_ Iff.rfl
        omega
    · exact ⟨⟨hlo, hpos, by omega, hf, hl⟩, fun x => covers_cons⟩

/-- **Giving back.** Numbers that were not in the set join it, and the runs they touch are one. -/
theorem spaced_give (h : Spaced lo l) (hlo : lo ≤ a) (hn : 0 < n)
    (hout : ∀ x, a ≤ x → x < a + n → ¬ Covers l x) :
    Spaced lo (give a n l) ∧ ∀ x, Covers (give a n l) x ↔ Covers l x ∨ a ≤ x ∧ x < a + n := by
  induction l generalizing lo with
  | nil =>
    refine ⟨⟨hlo, hn, trivial⟩, fun x => ?_⟩
    unfold give
    rw [covers_cons, or_comm]
    rfl
  | cons e l ih =>
    obtain ⟨hle, hpos, hl⟩ := h
    have hnot : ∀ x, a ≤ x → x < a + n → ¬ Covers l x :=
      fun x hx hx' hc => hout x hx hx' (covers_cons.mpr (Or.inr hc))
    -- the numbers are on one side of the first run
    have hside : e.stop ≤ a ∨ a + n ≤ e.start := by
      have h1 := hout (max a e.start)
      rw [covers_cons] at h1
      unfold Extent.Has Extent.stop at *
      by_contra hno
      exact h1 (Nat.le_max_left _ _) (by omega) (Or.inl (by omega))
    unfold give
    split_ifs with hend hstart hbefore
    · have hnext : Spaced (e.start + (e.len + n)) l := by
        cases l with
        | nil => exact trivial
        | cons f l =>
          obtain ⟨hfle, hf, hl⟩ := hl
          refine ⟨?_, hf, hl⟩
          have h1 := hnot f.start
          rw [covers_cons] at h1
          unfold Extent.Has Extent.stop at *
          by_contra hno
          exact h1 (by omega) (by omega) (Or.inl (by omega))
      obtain ⟨hsp, hcov⟩ := @spaced_join lo ⟨e.start, e.len + n⟩ l hle
        (Nat.add_pos_left hpos n) hnext
      refine ⟨hsp, fun x => ?_⟩
      rw [hcov, covers_cons, or_right_comm]
      unfold Extent.Has Extent.stop at *
      dsimp only
      refine or_congr ?_ Iff.rfl
      omega
    · refine ⟨⟨hlo, Nat.add_pos_left hpos n, hl.mono ?_⟩, fun x => ?_⟩
      · unfold Extent.stop
        dsimp only
        omega
      · rw [covers_cons, covers_cons, or_right_comm]
        unfold Extent.Has Extent.stop
        dsimp only
        refine or_congr ?_ Iff.rfl
        omega
    · refine ⟨⟨hlo, hn, ?_, hpos, hl⟩, fun x => ?_⟩
      · exact hbefore
      · rw [covers_cons, or_comm]
        rfl
    · obtain ⟨hsp, hcov⟩ := ih hl (by omega) hnot
      refine ⟨⟨hle, hpos, hsp⟩, fun x => ?_⟩
      rw [covers_cons, covers_cons, hcov, or_assoc]

end Extents
