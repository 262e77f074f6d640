import Mathlib.Data.List.Basic
import Mathlib.Data.List.Nodup
import Mathlib.Tactic.Common

/-!
# Skip-list rows

A skip list with `L` rows is a family `rows : Nat → List α`: row `0` is the
sparsest, row `L - 1` holds every node, and each row is a sublist of the row
below it. A search goes down the rows; in each row it walks on from the node
where the row above stopped, until the test `stop` holds of the next node.

Whatever the test is, linking a node where the search ended keeps the rows
nested. The rows also stay in order as soon as the test is *late*: once it holds
of a node it holds of every node behind it.

## Main results

* `Cut.down` : one row further down the search cuts the row at or behind the
  node where it came from, so nothing ahead of it is overtaken.
* `Rows.insert`, `Rows.erase` : the rows keep their shape.
* `Rows.pairwise_insertAfter` : the rows keep an order that a late test agrees with.
* `Rows.rowHead_eq` : a test that stops too early at some nodes at the beginning
  does no harm as long as the search does not start with one of them.
-/

namespace SkipList

variable {α : Type*}

/-- The part of a row behind a node; `none` stands for the head of the row. -/
def after [DecidableEq α] : Option α → List α → List α
  | none, row => row
  | some x, row => (row.dropWhile (· != x)).tail

/-- Link `x` into a row right behind a node. -/
def insertAfter [DecidableEq α] : Option α → α → List α → List α
  | none, x, row => x :: row
  | some _, _, [] => []
  | some y, x, z :: zs => if z = y then z :: x :: zs else z :: insertAfter (some y) x zs

/-- Go on from a node over the nodes behind it, up to the first that stops the search. -/
def advance (stop : α → Bool) : Option α → List α → Option α
  | h, [] => h
  | h, t :: ts => if stop t then h else advance stop (some t) ts

/-- The node of each row where the search ends. -/
def rowHead [DecidableEq α] (stop : α → Bool) (rows : Nat → List α) : Nat → Option α
  | 0 => advance stop none (rows 0)
  | r + 1 => advance stop (rowHead stop rows r) (after (rowHead stop rows r) (rows (r + 1)))

/-- Once the test holds it holds of everything behind. -/
def Late (stop : α → Bool) (row : List α) : Prop :=
  row.Pairwise fun a b => stop a = true → stop b = true

/-- Every row is a sublist of the next one, and the last one has no node twice. -/
structure Rows (L : Nat) (rows : Nat → List α) : Prop where
  nested : ∀ r, r + 1 < L → (rows r).Sublist (rows (r + 1))
  nodup : (rows (L - 1)).Nodup

-- --------
-- Rows and their bottom
-- --------

section Shape

variable {L r : Nat} {rows : Nat → List α}

theorem Rows.sublist_of_le (h : Rows L rows) {r' : Nat} (hle : r ≤ r') (hr : r' < L) :
    (rows r).Sublist (rows r') := by
  induction r' with
  | zero =>
    obtain rfl : r = 0 := by omega
    exact List.Sublist.refl _
  | succ n ih =>
    by_cases hn : r = n + 1
    · subst hn
      exact List.Sublist.refl _
    · exact (ih (by omega) (by omega)).trans (h.nested n hr)

theorem Rows.sublist_bottom (h : Rows L rows) (hr : r < L) :
    (rows r).Sublist (rows (L - 1)) :=
  h.sublist_of_le (by omega) (by omega)

theorem Rows.nodup_row (h : Rows L rows) (hr : r < L) : (rows r).Nodup :=
  h.nodup.sublist (h.sublist_bottom hr)

theorem Rows.erase [DecidableEq α] (h : Rows L rows) (x : α) :
    Rows L fun r => (rows r).erase x where
  nested r hr := (h.nested r hr).erase x
  nodup := h.nodup.erase x

end Shape

-- --------
-- The search
-- --------

/-- A row cut in two at the node where the search ended: the search walked over or started
at that node, and the node behind it, if any, stopped the search. -/
structure Cut (stop : α → Bool) (h : Option α) (row pre suf : List α) : Prop where
  split : row = pre ++ suf
  last : pre.getLast? = h
  walked : ∀ y ∈ h, stop y = false
  stopped : ∀ b ∈ suf.head?, stop b = true

section Search

variable {stop : α → Bool} {row row' pre suf : List α} {x y : α} {h : Option α}

theorem advance_eq (h : Option α) :
    advance stop h row = ((row.takeWhile fun a => !stop a).getLast?).or h := by
  induction row generalizing h with
  | nil => rfl
  | cons a as ih =>
    by_cases ha : stop a = true
    · simp [advance, ha]
    · rw [advance, if_neg ha, ih, List.takeWhile_cons_of_pos (by simpa using ha),
        List.getLast?_cons]
      cases (as.takeWhile fun b => !stop b).getLast? <;> rfl

theorem after_append [DecidableEq α] (hy : y ∉ pre) : after (some y) (pre ++ y :: suf) = suf := by
  induction pre with
  | nil => simp [after]
  | cons a as ih =>
    have hne : a ≠ y := fun h => hy (by simp [h])
    have hrest := ih fun h => hy (by simp [h])
    simpa [after, hne] using hrest

theorem insertAfter_append [DecidableEq α] (hy : y ∉ pre) :
    insertAfter (some y) x (pre ++ y :: suf) = pre ++ y :: x :: suf := by
  induction pre with
  | nil => simp [insertAfter]
  | cons a as ih =>
    have hne : a ≠ y := fun h => hy (by simp [h])
    have hrest := ih fun h => hy (by simp [h])
    simpa [insertAfter, hne] using hrest

theorem Cut.insertAfter_eq [DecidableEq α] (hcut : Cut stop h row pre suf) (hnd : row.Nodup) :
    insertAfter h x row = pre ++ x :: suf := by
  obtain ⟨rfl, rfl, -, -⟩ := hcut
  rcases List.eq_nil_or_concat' pre with rfl | ⟨pre', y, rfl⟩
  · simp [insertAfter]
  · have hy : y ∉ pre' := by
      have hnd := (List.nodup_append.mp hnd).1
      exact fun hmem => (List.nodup_append.mp hnd).2.2 y hmem y (by simp) rfl
    have hins : insertAfter (some y) x (pre' ++ y :: suf) = _ := insertAfter_append hy
    simpa using hins

theorem sublist_of_head {l : List α} (h : l.Sublist (pre ++ suf)) (hl : ∀ b ∈ l.head?, b ∉ pre) :
    l.Sublist suf := by
  induction pre with
  | nil => exact h
  | cons a as ih =>
    rw [List.cons_append] at h
    cases h with
    | cons _ h => exact ih h fun b hb hmem => hl b hb (by simp [hmem])
    | cons_cons _ h => exact absurd (hl a rfl) (by simp)

/-- What is before and behind a node stays so in a list with more items. -/
theorem sublist_split {pre' suf' : List α} (h : (pre ++ y :: suf).Sublist (pre' ++ y :: suf'))
    (hpre : y ∉ pre') (hsuf : y ∉ suf') : pre.Sublist pre' ∧ suf.Sublist suf' := by
  induction pre' generalizing pre with
  | nil =>
    rw [List.nil_append] at h
    cases pre with
    | nil => exact ⟨List.Sublist.refl _, by simpa using h⟩
    | cons a as =>
      -- then `y` would occur behind itself
      cases h with
      | cons _ h => exact absurd (h.subset (by simp)) hsuf
      | cons_cons _ h => exact absurd (h.subset (by simp)) hsuf
  | cons b bs ih =>
    rw [List.cons_append] at h
    have hb : y ∉ bs := fun hmem => hpre (by simp [hmem])
    cases pre with
    | nil =>
      cases h with
      | cons _ h =>
        have := @ih [] h hb
        exact ⟨List.nil_sublist _, this.2⟩
      | cons_cons _ h => exact absurd (by simp) hpre
    | cons a as =>
      cases h with
      | cons _ h =>
        have := @ih (a :: as) h hb
        exact ⟨this.1.cons b, this.2⟩
      | cons_cons _ h =>
        have := ih h hb
        exact ⟨this.1.cons_cons _, this.2⟩

/-- Walking on over a list: what was walked over and the rest. -/
theorem cut_advance (pre row : List α) (hh : ∀ y ∈ h, stop y = false) (hlast : pre.getLast? = h) :
    Cut stop (advance stop h row) (pre ++ row) (pre ++ row.takeWhile fun a => !stop a)
      (row.dropWhile fun a => !stop a) where
  split := by rw [List.append_assoc, List.takeWhile_append_dropWhile]
  last := by rw [List.getLast?_append, advance_eq, hlast]
  walked y hy := by
    rw [advance_eq] at hy
    rcases Option.or_eq_some_iff.mp hy with hy | ⟨-, hy⟩
    · have := List.all_eq_true.mp List.all_takeWhile y (List.mem_of_getLast? hy)
      simpa using this
    · exact hh y hy
  stopped b hb := by
    have := List.head?_dropWhile_not (fun a => !stop a) row
    rw [show (row.dropWhile fun a => !stop a).head? = some b from hb] at this
    simpa using this

/-- **One row down.** The search goes on in the row below, and what it has walked over and
what is still ahead only grow. -/
theorem Cut.down [DecidableEq α] (hcut : Cut stop h row pre suf) (hsub : row.Sublist row')
    (hnd : row'.Nodup) :
    ∃ pre' suf', Cut stop (advance stop h (after h row')) row' pre' suf' ∧
      pre.Sublist pre' ∧ suf.Sublist suf' := by
  obtain ⟨rfl, hlast, hwalked, hstopped⟩ := hcut
  -- the node that stopped the search in this row stops it in the next row too
  have hahead : ∀ {l : List α}, suf.Sublist l → suf.Sublist (l.dropWhile fun a => !stop a) := by
    intro l hl
    rw [← List.takeWhile_append_dropWhile (p := fun a => !stop a) (l := l)] at hl
    apply sublist_of_head hl
    intro b hb hmem
    have hb' := List.all_eq_true.mp List.all_takeWhile b hmem
    simp [hstopped b hb] at hb'
  rcases List.eq_nil_or_concat' pre with rfl | ⟨pre₀, y, rfl⟩
  · obtain rfl : none = h := by simpa using hlast
    have hnext := cut_advance [] row' hwalked rfl
    exact ⟨_, _, hnext, List.nil_sublist _, hahead hsub⟩
  · obtain rfl : some y = h := by simpa using hlast
    obtain ⟨p, q, rfl⟩ := List.append_of_mem (hsub.subset (by simp : y ∈ (pre₀ ++ [y]) ++ suf))
    have hp : y ∉ p := fun hin => (List.nodup_append.mp hnd).2.2 y hin y (by simp) rfl
    have hq : y ∉ q := (List.nodup_cons.mp (List.nodup_append.mp hnd).2.1).1
    rw [List.append_assoc, List.singleton_append] at hsub
    obtain ⟨hsub1, hsub2⟩ := sublist_split hsub hp hq
    have hnext := cut_advance (p ++ [y]) q hwalked (by simp)
    rw [List.append_assoc, List.singleton_append] at hnext
    rw [after_append hp]
    refine ⟨_, _, hnext, ?_, hahead hsub2⟩
    exact (hsub1.append (List.Sublist.refl [y])).trans (List.sublist_append_left _ _)

variable {L k r : Nat} {rows rows' : Nat → List α}

theorem Rows.cut [DecidableEq α] (stop : α → Bool) (hrows : Rows L rows) (hr : r < L) :
    ∃ pre suf, Cut stop (rowHead stop rows r) (rows r) pre suf := by
  induction r with
  | zero => exact ⟨_, _, cut_advance [] _ (by simp) rfl⟩
  | succ n ih =>
    obtain ⟨pre, suf, hcut⟩ := ih (by omega)
    obtain ⟨pre', suf', hcut', -, -⟩ := hcut.down (hrows.nested n hr) (hrows.nodup_row hr)
    exact ⟨pre', suf', hcut'⟩

theorem Rows.mem_insertAfter [DecidableEq α] (hrows : Rows L rows) (hr : r < L) :
    y ∈ insertAfter (rowHead stop rows r) x (rows r) ↔ y = x ∨ y ∈ rows r := by
  obtain ⟨pre, suf, hcut⟩ := hrows.cut stop hr
  rw [hcut.insertAfter_eq (hrows.nodup_row hr), hcut.split]
  simp only [List.mem_append, List.mem_cons]
  tauto

/-- **The rows keep their shape** when a new node goes into the rows from `k` on. -/
theorem Rows.insert [DecidableEq α] (hrows : Rows L rows) (hk : k < L) (hx : x ∉ rows (L - 1))
    (hin : ∀ r, k ≤ r → r < L → rows' r = insertAfter (rowHead stop rows r) x (rows r))
    (hout : ∀ r, r < k → rows' r = rows r) : Rows L rows' where
  nested r hr := by
    have hnd := hrows.nodup_row hr
    obtain ⟨pre, suf, hcut⟩ := hrows.cut stop (show r < L by omega)
    obtain ⟨pre', suf', hcut', hpre, hsuf⟩ := hcut.down (hrows.nested r hr) hnd
    have hbelow : insertAfter (rowHead stop rows (r + 1)) x (rows (r + 1)) = pre' ++ x :: suf' :=
      hcut'.insertAfter_eq hnd
    by_cases hkr : k ≤ r
    · rw [hin r hkr (by omega), hin (r + 1) (by omega) hr, hbelow,
        hcut.insertAfter_eq (hrows.nodup_row (by omega))]
      exact hpre.append (hsuf.cons_cons x)
    · rw [hout r (by omega)]
      by_cases hkr' : k ≤ r + 1
      · -- the lowest row that is left alone
        rw [hin (r + 1) hkr' hr, hbelow, hcut.split]
        exact hpre.append (hsuf.cons x)
      · rw [hout (r + 1) (by omega)]
        exact hrows.nested r hr
  nodup := by
    obtain ⟨pre, suf, hcut⟩ := hrows.cut stop (show L - 1 < L by omega)
    rw [hin (L - 1) (by omega) (by omega), hcut.insertAfter_eq hrows.nodup]
    have hsplit := hcut.split
    rw [hsplit] at hx
    apply List.nodup_middle.mpr
    exact List.nodup_cons.mpr ⟨hx, hsplit ▸ hrows.nodup⟩

/-- With a late test the cut separates what stops the search from what does not. -/
theorem Cut.of_late (hcut : Cut stop h row pre suf) (hlate : Late stop row) :
    (∀ a ∈ pre, stop a = false) ∧ ∀ b ∈ suf, stop b = true := by
  obtain ⟨rfl, hlast, hwalked, hstopped⟩ := hcut
  obtain ⟨hlate1, hlate2, -⟩ := List.pairwise_append.mp hlate
  constructor
  · rcases List.eq_nil_or_concat' pre with rfl | ⟨pre₀, y, rfl⟩
    · simp
    · have hy : stop y = false := hwalked y (by rw [← hlast]; simp)
      intro a ha
      rcases List.mem_append.mp ha with ha | ha
      · -- else the test would hold of `y`, which is behind
        have himp := (List.pairwise_append.mp hlate1).2.2 a ha y (by simp)
        by_contra hcon
        rw [himp (by simpa using hcon)] at hy
        exact Bool.noConfusion hy
      · rw [List.mem_singleton.mp ha, hy]
  · cases suf with
    | nil => simp
    | cons c cs =>
      have hc : stop c = true := hstopped c rfl
      intro b hb
      rcases List.mem_cons.mp hb with rfl | hb
      · exact hc
      · exact (List.pairwise_cons.mp hlate2).1 b hb hc

/-- **Order.** If what does not stop the search comes before `x` and what stops it comes
behind, a row stays in order. -/
theorem Rows.pairwise_insertAfter [DecidableEq α] {R : α → α → Prop} (hrows : Rows L rows)
    (hr : r < L) (hlate : Late stop (rows r)) (hrow : (rows r).Pairwise R)
    (hbefore : ∀ a ∈ rows r, stop a = false → R a x)
    (hbehind : ∀ b ∈ rows r, stop b = true → R x b) :
    (insertAfter (rowHead stop rows r) x (rows r)).Pairwise R := by
  obtain ⟨pre, suf, hcut⟩ := hrows.cut stop hr
  obtain ⟨hpre, hsuf⟩ := hcut.of_late hlate
  rw [hcut.insertAfter_eq (hrows.nodup_row hr)]
  rw [hcut.split] at hrow hbefore hbehind
  obtain ⟨h1, h2, h3⟩ := List.pairwise_append.mp hrow
  rw [List.pairwise_append, List.pairwise_cons]
  refine ⟨h1, ⟨fun b hb => hbehind b (by simp [hb]) (hsuf b hb), h2⟩, ?_⟩
  intro a ha b hb
  rcases List.mem_cons.mp hb with rfl | hb
  · exact hbefore a (by simp [ha]) (hpre a ha)
  · exact h3 a ha b hb

end Search

-- --------
-- A test that also stops too early
-- --------

section Early

variable {stop stop' : α → Bool} {row : List α} {h : Option α} {L : Nat} {rows : Nat → List α}

theorem advance_congr (hsame : ∀ u ∈ row, stop u = stop' u) :
    advance stop h row = advance stop' h row := by
  induction row generalizing h with
  | nil => rfl
  | cons a as ih =>
    rw [advance, advance, hsame a (by simp), ih fun u hu => hsame u (by simp [hu])]

theorem mem_of_advance {y : α} (hy : y ∈ advance stop h row) : y ∈ h ∨ y ∈ row := by
  rw [advance_eq] at hy
  rcases Option.or_eq_some_iff.mp hy with hy | ⟨-, hy⟩
  · exact Or.inr ((List.takeWhile_sublist _).subset (List.mem_of_getLast? hy))
  · exact Or.inl hy

theorem advance_some {y : α} : ∃ z, advance stop (some y) row = some z := by
  rw [advance_eq]
  cases (row.takeWhile fun a => !stop a).getLast? with
  | none => exact ⟨y, rfl⟩
  | some z => exact ⟨z, rfl⟩

/-- The test `stop` stops at a node that `stop'` walks over. -/
def Mistake (stop stop' : α → Bool) (u : α) : Prop := stop u = true ∧ stop' u = false

/-- Two tests on a row: `stop` stops wherever `stop'` does, and what it mistakes is at the
beginning. -/
structure Early (stop stop' : α → Bool) (row : List α) : Prop where
  le : ∀ u ∈ row, stop' u = true → stop u = true
  front : row.Pairwise fun a b => Mistake stop stop' b → Mistake stop stop' a

theorem Early.sublist {row' : List α} (h : Early stop stop' row) (hsub : row'.Sublist row) :
    Early stop stop' row' :=
  ⟨fun u hu => h.le u (hsub.subset hu), List.Pairwise.sublist hsub h.front⟩

theorem Early.same (h : Early stop stop' row) {u : α} (hu : u ∈ row)
    (hno : ¬ Mistake stop stop' u) : stop u = stop' u := by
  have hle := h.le u hu
  unfold Mistake at hno
  cases hs : stop u <;> cases hs' : stop' u <;> simp_all

theorem Early.behind {p q : List α} {y : α} (h : Early stop stop' (p ++ y :: q))
    (hy : ¬ Mistake stop stop' y) : ∀ u ∈ q, stop u = stop' u := by
  intro u hu
  have hyu := (List.pairwise_cons.mp (List.pairwise_append.mp h.front).2.1).1 u hu
  exact h.same (by simp [hu]) fun hm => hy (hyu hm)

/-- The two searches are at the same node of a row, which is no mistake. -/
structure Agree (stop stop' : α → Bool) (row : List α) (h h' : Option α) : Prop where
  eq : h = h'
  good : ∀ y ∈ h', y ∈ row ∧ ¬ Mistake stop stop' y

/-- A row searched from its head. -/
theorem Early.agree_head (he : Early stop stop' row)
    (hok : ∀ f ∈ row.head?, stop' f = false → stop f = false) :
    Agree stop stop' row (advance stop none row) (advance stop' none row) ∧
      (advance stop' none row = none → ∀ g ∈ row.head?, stop' g = true) := by
  cases row with
  | nil => exact ⟨⟨rfl, by simp [advance]⟩, by simp⟩
  | cons f fs =>
    by_cases hsf : stop' f = true
    · have hstop := he.le f (by simp) hsf
      refine ⟨⟨?_, ?_⟩, ?_⟩ <;> simp [advance, hsf, hstop]
    · have hsf : stop' f = false := by simpa using hsf
      have hgood : stop f = false := hok f rfl hsf
      have hno : ¬ Mistake stop stop' f := by simp [Mistake, hgood]
      have htail : ∀ u ∈ fs, stop u = stop' u := @Early.behind _ _ _ [] fs f he hno
      simp only [advance, hgood, hsf, Bool.false_eq_true, if_false]
      refine ⟨⟨advance_congr htail, fun y hy => ?_⟩, fun hnone => ?_⟩
      · rcases mem_of_advance hy with hy | hy
        · obtain rfl : f = y := Option.some.inj hy
          exact ⟨by simp, hno⟩
        · refine ⟨by simp [hy], fun hm => ?_⟩
          rw [Mistake, htail y hy, hm.2] at hm
          exact Bool.noConfusion hm.1
      · obtain ⟨z, hz⟩ := @advance_some _ stop' fs f
        rw [hz] at hnone
        cases hnone

/-- A row searched from a node that is no mistake. -/
theorem Early.agree_after [DecidableEq α] {y : α} (he : Early stop stop' row) (hnd : row.Nodup)
    (hmem : y ∈ row) (hy : ¬ Mistake stop stop' y) :
    Agree stop stop' row (advance stop (some y) (after (some y) row))
      (advance stop' (some y) (after (some y) row)) := by
  obtain ⟨p, q, rfl⟩ := List.append_of_mem hmem
  have hp : y ∉ p := fun hin => (List.nodup_append.mp hnd).2.2 y hin y (by simp) rfl
  have htail := he.behind hy
  rw [after_append hp]
  refine ⟨advance_congr htail, fun z hz => ?_⟩
  rcases mem_of_advance hz with hz | hz
  · obtain rfl : y = z := Option.some.inj hz
    exact ⟨by simp, hy⟩
  · refine ⟨by simp [hz], fun hm => ?_⟩
    rw [Mistake, htail z hz, hm.2] at hm
    exact Bool.noConfusion hm.1

/-- **Stopping too early.** The search with `stop` is the one with `stop'` if `stop` makes no
mistake at the first node of the topmost row that starts with a node to walk over: all other
nodes it looks at are behind that one. -/
theorem Rows.rowHead_eq [DecidableEq α] (hrows : Rows L rows)
    (he : Early stop stop' (rows (L - 1)))
    (hok : ∀ r < L, (∀ r' < r, ∀ g ∈ (rows r').head?, stop' g = true) →
      ∀ f ∈ (rows r).head?, stop' f = false → stop f = false) {r : Nat} (hr : r < L) :
    rowHead stop rows r = rowHead stop' rows r := by
  have hrow : ∀ {r}, r < L → Early stop stop' (rows r) :=
    fun hr => he.sublist (hrows.sublist_bottom hr)
  -- as long as the search is at a head, all rows so far start with a node to stop at
  have hall : ∀ r < L, Agree stop stop' (rows r) (rowHead stop rows r) (rowHead stop' rows r) ∧
      (rowHead stop' rows r = none → ∀ r' ≤ r, ∀ g ∈ (rows r').head?, stop' g = true) := by
    intro r
    induction r with
    | zero =>
      intro hr
      obtain ⟨h1, h2⟩ := (hrow hr).agree_head (hok 0 hr (by simp))
      refine ⟨h1, fun hnone r' hr' => ?_⟩
      obtain rfl : r' = 0 := by omega
      exact h2 hnone
    | succ n ih =>
      intro hr
      obtain ⟨ih1, ih2⟩ := ih (by omega)
      simp only [rowHead]
      rw [ih1.eq]
      cases hy : rowHead stop' rows n with
      | none =>
        have habove := ih2 hy
        obtain ⟨h1, h2⟩ := (hrow hr).agree_head
          (hok (n + 1) hr fun r' hr' => habove r' (by omega))
        refine ⟨h1, fun hnone r' hr' => ?_⟩
        by_cases hrn : r' = n + 1
        · subst hrn
          exact h2 hnone
        · exact habove r' (by omega)
      | some y =>
        obtain ⟨hmem, hgood⟩ := ih1.good y hy
        refine ⟨(hrow hr).agree_after (hrows.nodup_row hr) ((hrows.nested n hr).subset hmem)
          hgood, fun hnone => ?_⟩
        obtain ⟨z, hz⟩ := @advance_some _ stop' (after (some y) (rows (n + 1))) y
        rw [hz] at hnone
        cases hnone
  exact (hall r hr).1.eq

end Early

end SkipList
