import RTThread.Lib.Extents
import RTThread.Lib.Runs
import RTThread.Rtdef
import Mathlib.Logic.Function.Basic

/-!
# The page allocator of the slab heap (`slab.c`)

The free pages of a heap are kept in a list of runs in the order of their
addresses; the first page of a run holds its length and the address of the next
run. The structure `rt_slab_page` is as large as a page, so the pointer
arithmetic of the code counts pages, and an address is the number of a page
here. The pointer `prev` of the loops is the list head or the link in a page.

A client may write to the pages it was given, so the pages of the heap that are
not the first ones of a free run hold anything.

## Main results

* `page_alloc_least` : in every run of allocations, releases and writes no
  assertion fails, an allocation gives the first pages in a row that are free
  and fails only if there are none, the pages of two live blocks differ, and
  when all blocks are given back the list is the one run it was at the start.
-/

namespace RTThread

/-- `struct rt_slab_page`. -/
structure SlabPage where
  next : Nat
  page : Nat

/-- What the page allocator uses of `struct rt_slab`, and the pages. `0` is `RT_NULL`. -/
structure SlabPages where
  heapStart : Nat
  heapEnd : Nat
  pageList : Nat
  pages : Nat → SlabPage

namespace SlabPages

/-- `*prev`: the list head or the link of a page. -/
def link (s : SlabPages) : Option Nat → Nat
  | none => s.pageList
  | some p => (s.pages p).next

def setPage (s : SlabPages) (a : Nat) (p : SlabPage) : SlabPages :=
  { s with pages := Function.update s.pages a p }

/-- `*prev = a`. -/
def setLink (s : SlabPages) (prev : Option Nat) (a : Nat) : SlabPages :=
  match prev with
  | none => { s with pageList := a }
  | some p => s.setPage p { s.pages p with next := a }

end SlabPages

/-- The loop of `rt_slab_page_alloc`. -/
def pageAllocLoop (npages : Nat) :
    Nat → Option Nat → SlabPages → Except Fault (Nat × SlabPages)
  | 0, _, _ => .error .divergence
  | fuel + 1, prev, s =>
    let b := s.link prev
    if b = 0 then .ok (b, s)
    else if (s.pages b).page > npages then
      let n := b + npages
      let s := s.setPage n ⟨(s.pages b).next, (s.pages b).page - npages⟩
      .ok (b, s.setLink prev n)
    else if (s.pages b).page = npages then .ok (b, s.setLink prev (s.pages b).next)
    else pageAllocLoop npages fuel (some b) s

/-- `rt_slab_page_alloc`. -/
def rtSlabPageAlloc (s : SlabPages) (npages : Nat) : Except Fault (Nat × SlabPages) :=
  if npages = 0 then .ok (0, s)
  else pageAllocLoop npages (s.heapEnd - s.heapStart + 1) none s

/-- The loop of `rt_slab_page_free`. -/
def pageFreeLoop (n npages : Nat) : Nat → Option Nat → SlabPages → Except Fault SlabPages
  | 0, _, _ => .error .divergence
  | fuel + 1, prev, s => do
    let b := s.link prev
    if b = 0 then return (s.setPage n ⟨b, npages⟩).setLink prev n
    rtAssert ((s.pages b).page > 0)
    rtAssert (b > n ∨ b + (s.pages b).page ≤ n)
    if b + (s.pages b).page = n then
      let s := s.setPage b { s.pages b with page := (s.pages b).page + npages }
      let next := (s.pages b).next
      if b + (s.pages b).page = next then
        return s.setPage b ⟨(s.pages next).next, (s.pages b).page + (s.pages next).page⟩
      else return s
    else if b = n + npages then
      return (s.setPage n ⟨(s.pages b).next, (s.pages b).page + npages⟩).setLink prev n
    else if b > n + npages then return (s.setPage n ⟨b, npages⟩).setLink prev n
    else pageFreeLoop n npages fuel (some b) s

/-- `rt_slab_page_free`. -/
def rtSlabPageFree (s : SlabPages) (addr npages : Nat) : Except Fault SlabPages := do
  rtAssert (addr ≠ 0)
  rtAssert (npages ≠ 0)
  pageFreeLoop addr npages (s.heapEnd - s.heapStart + 1) none s

/-- `rt_slab_page_init`. -/
def rtSlabPageInit (s : SlabPages) (addr npages : Nat) : Except Fault SlabPages := do
  rtAssert (addr ≠ 0)
  rtAssert (npages ≠ 0)
  rtSlabPageFree { s with pageList := 0 } addr npages

-- --------
-- The list and the runs
-- --------

open Extents

/-- From the address on the pages are linked as the runs say. -/
def Chained (pages : Nat → SlabPage) : Nat → List Extent → Prop
  | a, [] => a = 0
  | a, e :: l => a = e.start ∧ a ≠ 0 ∧ (pages a).page = e.len ∧ Chained pages (pages a).next l

section Loop

variable {s s' : SlabPages} {prev : Option Nat} {a b lo n x fuel : Nat} {l l' : List Extent}
  {pages pages' : Nat → SlabPage}

theorem Chained.congr (h : Chained pages a l) (hsp : Spaced lo l)
    (heq : ∀ x, Covers l x → pages' x = pages x) : Chained pages' a l := by
  induction l generalizing a lo with
  | nil => exact h
  | cons e l ih =>
    obtain ⟨rfl, hne, hlen, hl⟩ := h
    have hself : pages' e.start = pages e.start := by
      apply heq
      refine covers_cons.mpr (Or.inl ⟨Nat.le_refl _, ?_⟩)
      have hpos := hsp.2.1
      unfold Extent.stop
      omega
    refine ⟨rfl, hne, by rw [hself, hlen], ?_⟩
    rw [hself]
    exact ih hl hsp.2.2 fun x hx => heq x (covers_cons.mpr (Or.inr hx))

/-- What an operation leaves alone that works on the list from `prev` on and on the pages of
`P`: the other pages, and in the page of `prev` all but its link. -/
structure Untouched (prev : Option Nat) (P : Nat → Prop) (s s' : SlabPages) : Prop where
  pages : ∀ x, ¬ P x → prev ≠ some x → s'.pages x = s.pages x
  page : ∀ p, prev = some p → (s'.pages p).page = (s.pages p).page
  head : prev ≠ none → s'.pageList = s.pageList
  bounds : s'.heapStart = s.heapStart ∧ s'.heapEnd = s.heapEnd

theorem link_setLink (s : SlabPages) (prev : Option Nat) (a : Nat) :
    (s.setLink prev a).link prev = a := by
  cases prev with
  | none => rfl
  | some p => simp [SlabPages.setLink, SlabPages.link, SlabPages.setPage]

theorem link_setPage {p : SlabPage} (s : SlabPages) (h : prev ≠ some b) :
    (s.setPage b p).link prev = s.link prev := by
  cases hq : prev with
  | none => rfl
  | some q =>
    have hne : q ≠ b := fun heq => h (by rw [hq, heq])
    exact congrArg SlabPage.next (Function.update_of_ne hne ..)

theorem setLink_pages (s : SlabPages) (a : Nat) (h : prev ≠ some x) :
    (s.setLink prev a).pages x = s.pages x := by
  cases prev with
  | none => rfl
  | some p =>
    have hne : x ≠ p := fun heq => h (by rw [heq])
    exact Function.update_of_ne hne ..

theorem untouched_setLink {P : Nat → Prop} (h : Untouched prev P s s') (a : Nat) :
    Untouched prev P s (s'.setLink prev a) where
  pages x hx hp := (setLink_pages s' a hp).trans (h.pages x hx hp)
  page p hp := by
    subst hp
    rw [← h.page p rfl]
    simp [SlabPages.setLink, SlabPages.setPage]
  head hp := by
    cases prev with
    | none => exact absurd rfl hp
    | some p => exact h.head hp
  bounds := by
    cases prev with
    | none => exact h.bounds
    | some p => exact h.bounds

theorem untouched_setPage {P : Nat → Prop} {y : Nat} {p : SlabPage} (h : Untouched prev P s s')
    (hy : P y) (hp : prev ≠ some y) : Untouched prev P s (s'.setPage y p) where
  pages x hx hpx := by
    have hne : x ≠ y := by
      rintro rfl
      exact hx hy
    exact (Function.update_of_ne hne ..).trans (h.pages x hx hpx)
  page q hq := by
    have hne : q ≠ y := fun heq => hp (by rw [hq, heq])
    rw [← h.page q hq]
    exact congrArg SlabPage.page (Function.update_of_ne hne ..)
  head := h.head
  bounds := h.bounds

theorem Untouched.refl (prev : Option Nat) (P : Nat → Prop) (s : SlabPages) :
    Untouched prev P s s :=
  ⟨fun _ _ _ => rfl, fun _ _ => rfl, fun _ => rfl, rfl, rfl⟩

/-- The list from a run on, when the list behind the run has changed. -/
theorem Untouched.cons {e : Extent} {P Q : Nat → Prop} (h : Untouched (some e.start) P s s')
    (hlink : s.link prev = e.start) (hne : e.start ≠ 0) (hlen : (s.pages e.start).page = e.len)
    (hl : Chained s'.pages (s'.link (some e.start)) l)
    (hP : ∀ x, P x → Q x) (he : Q e.start) (hprev : ∀ p, prev = some p → ¬ P p ∧ p ≠ e.start) :
    Chained s'.pages (s'.link prev) (e :: l) ∧ Untouched prev Q s s' := by
  have hsame : ∀ p, prev = some p → s'.pages p = s.pages p := fun p hp =>
    h.pages p (hprev p hp).1 fun heq => (hprev p hp).2 (Option.some.inj heq).symm
  have hlink' : s'.link prev = e.start := by
    rw [← hlink]
    cases hp : prev with
    | none => exact h.head (by simp)
    | some p => exact congrArg SlabPage.next (hsame p hp)
  refine ⟨?_, ⟨?_, ?_, ?_, h.bounds⟩⟩
  · rw [hlink']
    exact ⟨rfl, hne, (h.page _ rfl).trans hlen, hl⟩
  · intro x hx hpx
    refine h.pages x (fun hp => hx (hP x hp)) ?_
    rintro heq
    rw [← Option.some.inj heq] at hx
    exact hx he
  · intro p hp
    rw [hsame p hp]
  · intro _
    exact h.head (by simp)

/-- A run is put behind `prev`: its first page is written and linked. -/
theorem chained_insert {p : SlabPage} (ha : a ≠ 0) (hl : Chained s.pages p.next l)
    (hsp : Spaced (a + 1) l) (hprev : ∀ q, prev = some q → q < a) :
    Chained ((s.setPage a p).setLink prev a).pages (((s.setPage a p).setLink prev a).link prev)
      (⟨a, p.page⟩ :: l) := by
  have hself : prev ≠ some a := fun hp => Nat.lt_irrefl a (hprev a hp)
  have hpage : ((s.setPage a p).setLink prev a).pages a = p := by
    rw [setLink_pages _ _ hself]
    exact Function.update_self ..
  rw [link_setLink]
  refine ⟨rfl, ha, by rw [hpage], ?_⟩
  rw [hpage]
  refine hl.congr hsp fun y hy => ?_
  have hle := hsp.le hy
  have hne : prev ≠ some y := by
    intro hp
    have hlt := hprev y hp
    omega
  rw [setLink_pages _ _ hne]
  exact Function.update_of_ne (by omega) ..

/-- The first page of the run behind `prev` is written. -/
theorem chained_update {p : SlabPage} (hlink : s.link prev = b) (hb : b ≠ 0)
    (hl : Chained s.pages p.next l) (hsp : Spaced (b + 1) l) (hprev : prev ≠ some b) :
    Chained (s.setPage b p).pages ((s.setPage b p).link prev) (⟨b, p.page⟩ :: l) := by
  have hpage : (s.setPage b p).pages b = p := Function.update_self ..
  rw [link_setPage _ hprev, hlink]
  refine ⟨rfl, hb, by rw [hpage], ?_⟩
  rw [hpage]
  refine hl.congr hsp fun y hy => ?_
  have hle := hsp.le hy
  exact Function.update_of_ne (by omega) ..

theorem pageAllocLoop_none (hfuel : l.length < fuel) (hl : Chained s.pages (s.link prev) l)
    (ht : take n l = none) : pageAllocLoop n fuel prev s = .ok (0, s) := by
  induction l generalizing prev fuel with
  | nil =>
    obtain ⟨k, rfl⟩ := Nat.exists_eq_succ_of_ne_zero (Nat.ne_of_gt hfuel)
    have hl : s.link prev = 0 := hl
    simp [pageAllocLoop, hl]
  | cons e l ih =>
    obtain ⟨k, rfl⟩ := Nat.exists_eq_succ_of_ne_zero (Nat.ne_of_gt (Nat.lt_of_le_of_lt
      (Nat.zero_le _) hfuel))
    obtain ⟨hlink, hne, hlen, hl⟩ := hl
    unfold take at ht
    split_ifs at ht with hlt heq
    rw [hlink] at hne hlen hl
    have hmore : ¬ (s.pages e.start).page > n := by omega
    have hsame : ¬ (s.pages e.start).page = n := by omega
    rw [pageAllocLoop, hlink]
    dsimp only
    rw [if_neg hne, if_neg hmore, if_neg hsame]
    exact ih (Nat.lt_of_succ_lt_succ hfuel) hl (Option.map_eq_none_iff.mp ht)

/-- **The loop of the allocation** takes from the first run that is long enough. -/
theorem pageAllocLoop_some (hfuel : l.length < fuel) (hn : 0 < n) (hsp : Spaced lo l)
    (hl : Chained s.pages (s.link prev) l) (hprev : ∀ p, prev = some p → p < lo)
    (ht : take n l = some (a, l')) : ∃ s', pageAllocLoop n fuel prev s = .ok (a, s') ∧ a ≠ 0 ∧
      Chained s'.pages (s'.link prev) l' ∧ Untouched prev (Covers l) s s' := by
  induction l generalizing prev fuel lo l' with
  | nil => cases ht
  | cons e l ih =>
    obtain ⟨k, rfl⟩ := Nat.exists_eq_succ_of_ne_zero (Nat.ne_of_gt (Nat.lt_of_le_of_lt
      (Nat.zero_le _) hfuel))
    obtain ⟨hlink, hne, hlen, hl⟩ := hl
    obtain ⟨hlo, hpos, hsl⟩ := hsp
    rw [hlink] at hne hlen hl
    have hbefore : ∀ y, Covers (e :: l) y → prev ≠ some y := by
      intro y hy hp
      have hsp : Spaced lo (e :: l) := ⟨hlo, hpos, hsl⟩
      have hle := hsp.le hy
      have hlt := hprev y hp
      omega
    have hstart : Covers (e :: l) e.start := covers_cons.mpr (Or.inl ⟨Nat.le_refl _, by
      unfold Extent.stop
      omega⟩)
    rw [pageAllocLoop, hlink]
    dsimp only
    rw [if_neg hne, hlen]
    unfold take at ht
    split_ifs at ht with hlt heq
    · -- the run is split, its second part is a new run
      obtain ⟨rfl, rfl⟩ := Prod.mk.inj (Option.some.inj ht)
      have hnew : Covers (e :: l) (e.start + n) := covers_cons.mpr (Or.inl ⟨by omega, by
        unfold Extent.stop
        omega⟩)
      rw [if_pos hlt]
      refine ⟨_, rfl, hne, chained_insert (by omega) hl (hsl.mono ?_) ?_, untouched_setLink
        (untouched_setPage (Untouched.refl prev _ s) hnew (hbefore _ hnew)) _⟩
      · unfold Extent.stop
        omega
      · intro q hq
        have := hprev q hq
        omega
    · obtain ⟨rfl, rfl⟩ := Prod.mk.inj (Option.some.inj ht)
      rw [if_neg hlt, if_pos heq]
      refine ⟨_, rfl, hne, ?_, untouched_setLink (Untouched.refl prev _ s) _⟩
      rw [link_setLink]
      exact hl.congr hsl fun y hy =>
        setLink_pages _ _ (hbefore _ (covers_cons.mpr (Or.inr hy)))
    · obtain ⟨q, hq, hpair⟩ := Option.map_eq_some_iff.mp ht
      obtain ⟨rfl, rfl⟩ := Prod.mk.inj hpair
      rw [if_neg hlt, if_neg heq]
      have hl : Chained s.pages (s.link (some e.start)) l := hl
      obtain ⟨s', hs', ha, hchain, hun⟩ := ih (Nat.lt_of_succ_lt_succ hfuel) hsl hl
        (fun p hp => by
          rw [← Option.some.inj hp]
          unfold Extent.stop
          omega) hq
      refine ⟨s', hs', ha, hun.cons hlink hne hlen hchain
        (fun y hy => covers_cons.mpr (Or.inr hy)) hstart fun p hp => ⟨fun hy => ?_, ?_⟩⟩
      · exact hbefore p (covers_cons.mpr (Or.inr hy)) hp
      · rintro rfl
        exact hbefore _ hstart hp

/-- **The loop of the release** gives the pages back to the runs. -/
theorem pageFreeLoop_eq (hfuel : l.length < fuel) (hn : 0 < n) (ha : a ≠ 0) (hsp : Spaced lo l)
    (hlo : lo ≤ a) (hout : ∀ x, a ≤ x → x < a + n → ¬ Covers l x)
    (hl : Chained s.pages (s.link prev) l) (hprev : ∀ p, prev = some p → p < lo) :
    ∃ s', pageFreeLoop a n fuel prev s = .ok s' ∧ Chained s'.pages (s'.link prev) (give a n l) ∧
      Untouched prev (fun x => Covers l x ∨ x = a) s s' := by
  induction l generalizing prev fuel lo with
  | nil =>
    obtain ⟨k, rfl⟩ := Nat.exists_eq_succ_of_ne_zero (Nat.ne_of_gt hfuel)
    have hl : s.link prev = 0 := hl
    have hpa : prev ≠ some a := by
      intro hp
      have := hprev a hp
      omega
    rw [pageFreeLoop, hl]
    dsimp only
    rw [if_pos rfl]
    exact ⟨_, rfl, chained_insert ha rfl trivial fun q hq => Nat.lt_of_lt_of_le (hprev q hq) hlo,
      untouched_setLink (untouched_setPage (Untouched.refl prev _ s) (Or.inr rfl) hpa) _⟩
  | cons e l ih =>
    obtain ⟨k, rfl⟩ := Nat.exists_eq_succ_of_ne_zero (Nat.ne_of_gt (Nat.lt_of_le_of_lt
      (Nat.zero_le _) hfuel))
    obtain ⟨hlink, hne, hlen, hl⟩ := hl
    obtain ⟨hle, hpos, hsl⟩ := hsp
    rw [hlink] at hne hlen hl
    have hnot : ∀ x, a ≤ x → x < a + n → ¬ Covers l x :=
      fun x hx hx' hc => hout x hx hx' (covers_cons.mpr (Or.inr hc))
    have hstart : Covers (e :: l) e.start := covers_cons.mpr (Or.inl ⟨Nat.le_refl _, by
      unfold Extent.stop
      omega⟩)
    have hside : a + n ≤ e.start ∨ e.start + e.len ≤ a := by
      have h1 := hout (max a e.start) (Nat.le_max_left _ _)
      rw [covers_cons] at h1
      by_contra hno
      refine h1 (by omega) (Or.inl ⟨Nat.le_max_right _ _, ?_⟩)
      unfold Extent.stop
      omega
    have hgt : ∀ q, prev = some q → q < e.start := fun q hq => Nat.lt_of_lt_of_le (hprev q hq) hle
    have hga : ∀ q, prev = some q → q < a := fun q hq => Nat.lt_of_lt_of_le (hprev q hq) hlo
    have hpb : prev ≠ some e.start := fun hp => Nat.lt_irrefl _ (hgt _ hp)
    have hpa : prev ≠ some a := fun hp => Nat.lt_irrefl _ (hga _ hp)
    have hrefl := Untouched.refl prev (fun x => Covers (e :: l) x ∨ x = a) s
    rw [pageFreeLoop, hlink]
    dsimp only
    rw [if_neg hne, rtAssert_bind (by omega), rtAssert_bind (by omega), hlen]
    rw [give]
    by_cases hend : e.start + e.len = a
    · -- the run in front grows, and may reach the next one
      have hup : ∀ q, (s.setPage e.start q).pages e.start = q := fun q => Function.update_self ..
      have hgrown := untouched_setPage (p := ⟨(s.pages e.start).next, e.len + n⟩) hrefl
        (Or.inl hstart) hpb
      rw [if_pos hend, if_pos (show e.stop = a from hend), hup]
      dsimp only
      cases l with
      | nil =>
        have hl : (s.pages e.start).next = 0 := hl
        rw [hl, if_neg (by omega), join]
        rw [hl] at hgrown
        exact ⟨_, rfl, chained_update (p := ⟨0, e.len + n⟩) hlink hne rfl trivial hpb, hgrown⟩
      | cons f l =>
        obtain ⟨hf, hfne, hflen, hrest⟩ := hl
        obtain ⟨hfle, hfpos, hfsp⟩ := hsl
        unfold Extent.stop at hfle
        have hfe : f.start ≠ e.start := by omega
        have hnext : (s.setPage e.start ⟨f.start, e.len + n⟩).pages f.start = s.pages f.start :=
          Function.update_of_ne hfe ..
        rw [hf] at hgrown hflen hrest
        rw [hf, join, Extent.stop, ← Nat.add_assoc]
        by_cases hjoin : e.start + e.len + n = f.start
        · rw [if_pos hjoin, if_pos hjoin, hnext, hflen]
          refine ⟨_, rfl, ?_, untouched_setPage hgrown (Or.inl hstart) hpb⟩
          refine chained_update (p := ⟨(s.pages f.start).next, e.len + n + f.len⟩) ?_ hne ?_
            (hfsp.mono ?_) hpb
          · rw [link_setPage _ hpb, hlink]
          · refine hrest.congr hfsp fun y hy => Function.update_of_ne ?_ ..
            have := hfsp.le hy
            unfold Extent.stop at this
            omega
          · unfold Extent.stop
            omega
        · rw [if_neg hjoin, if_neg hjoin]
          have hchain : Chained s.pages f.start (f :: l) := ⟨rfl, by omega, hflen, hrest⟩
          have hspaced : Spaced (e.start + 1) (f :: l) := ⟨by omega, hfpos, hfsp⟩
          exact ⟨_, rfl, chained_update (p := ⟨f.start, e.len + n⟩) hlink hne hchain hspaced hpb,
            hgrown⟩
    rw [if_neg hend, if_neg (show ¬ e.stop = a from hend)]
    by_cases hahead : e.start = a + n
    · rw [if_pos hahead, if_pos hahead]
      refine ⟨_, rfl, chained_insert (p := ⟨(s.pages e.start).next, e.len + n⟩) ha hl
        (hsl.mono ?_) hga, untouched_setLink (untouched_setPage hrefl (Or.inr rfl) hpa) _⟩
      unfold Extent.stop
      omega
    rw [if_neg hahead, if_neg hahead]
    by_cases hbefore : a + n < e.start
    · rw [if_pos hbefore, if_pos hbefore]
      have hchain : Chained s.pages e.start (e :: l) := ⟨rfl, hne, hlen, hl⟩
      have hspaced : Spaced (a + 1) (e :: l) := ⟨by omega, hpos, hsl⟩
      exact ⟨_, rfl, chained_insert (p := ⟨e.start, n⟩) ha hchain hspaced hga,
        untouched_setLink (untouched_setPage hrefl (Or.inr rfl) hpa) _⟩
    · rw [if_neg hbefore, if_neg hbefore]
      have hl : Chained s.pages (s.link (some e.start)) l := hl
      obtain ⟨s', hs', hchain, hun⟩ := ih (Nat.lt_of_succ_lt_succ hfuel) hsl
        (by unfold Extent.stop; omega) hnot hl (fun p hp => by
          rw [← Option.some.inj hp]
          unfold Extent.stop
          omega)
      refine ⟨s', hs', hun.cons (Q := fun x => Covers (e :: l) x ∨ x = a) hlink hne hlen hchain ?_
        (Or.inl hstart) fun p hp => ⟨?_, ?_⟩⟩
      · rintro y (hy | hy)
        · exact Or.inl (covers_cons.mpr (Or.inr hy))
        · exact Or.inr hy
      · rintro (hy | hy)
        · have := hsl.le hy
          have := hgt p hp
          unfold Extent.stop at *
          omega
        · have := hga p hp
          omega
      · rintro rfl
        exact hpb hp

end Loop

-- --------
-- The heap and its clients
-- --------

/-- The heap, and the blocks of pages its clients hold. -/
structure PagePool where
  slab : SlabPages
  live : List Extent

inductive PageAct
  | alloc (npages : Nat)
  | free (e : Extent)
  /-- A client writes to a page. -/
  | write (a : Nat) (p : SlabPage)

/-- The steps: clients allocate any number of pages, give back blocks that they hold, and write
to the pages of these. -/
inductive PageStep : PagePool → PageAct → PagePool → Prop
  | alloc {p : PagePool} {npages b : Nat} {slab : SlabPages}
      (h : rtSlabPageAlloc p.slab npages = .ok (b, slab)) :
      PageStep p (.alloc npages) ⟨slab, if b = 0 then p.live else ⟨b, npages⟩ :: p.live⟩
  | free {p : PagePool} {e : Extent} {slab : SlabPages} (he : e ∈ p.live)
      (h : rtSlabPageFree p.slab e.start e.len = .ok slab) :
      PageStep p (.free e) ⟨slab, p.live.erase e⟩
  | write {p : PagePool} {e : Extent} {a : Nat} {x : SlabPage} (he : e ∈ p.live) (ha : e.Has a) :
      PageStep p (.write a x) ⟨p.slab.setPage a x, p.live⟩

namespace PagePool

/-- The page is in the heap and in no block of a client. -/
def Free (p : PagePool) (x : Nat) : Prop :=
  p.slab.heapStart ≤ x ∧ x < p.slab.heapEnd ∧ ∀ e ∈ p.live, ¬ e.Has x

/-- `n` free pages in a row from `a` on. -/
def FreeRow (p : PagePool) (a n : Nat) : Prop := ∀ x, a ≤ x → x < a + n → p.Free x

/-- No page is in both. -/
def Apart (e f : Extent) : Prop := ∀ x, e.Has x → ¬ f.Has x

/-- The list holds the free pages, and the blocks are apart. -/
structure Inv (p : PagePool) (l : List Extent) : Prop where
  start : 0 < p.slab.heapStart
  chained : Chained p.slab.pages p.slab.pageList l
  spaced : Spaced p.slab.heapStart l
  covers : ∀ x, Covers l x ↔ p.Free x
  inside : ∀ e ∈ p.live, 0 < e.len ∧ p.slab.heapStart ≤ e.start ∧ e.stop ≤ p.slab.heapEnd
  apart : p.live.Pairwise Apart

variable {p q : PagePool} {l : List Extent} {a b n : Nat} {e : Extent} {slab : SlabPages}

theorem Inv.fuel (h : p.Inv l) : l.length < p.slab.heapEnd - p.slab.heapStart + 1 := by
  rcases h.spaced.length_le fun x hx => ((h.covers x).mp hx).2.1 with rfl | hlen
  · exact Nat.succ_pos _
  · omega

theorem Inv.room (h : p.Inv l) : Room l a n ↔ p.FreeRow a n := by
  constructor <;> intro hroom x hle hlt
  · exact (h.covers x).mp (hroom x hle hlt)
  · exact (h.covers x).mpr (hroom x hle hlt)

/-- What an allocation gives. -/
theorem Inv.alloc (h : p.Inv l) (hn : 0 < n) :
    (∃ slab, rtSlabPageAlloc p.slab n = .ok (0, slab) ∧ p.Inv l ∧ slab = p.slab ∧
      ∀ a, ¬ p.FreeRow a n) ∨
    ∃ b slab l', rtSlabPageAlloc p.slab n = .ok (b, slab) ∧ b ≠ 0 ∧ p.FreeRow b n ∧
      (∀ a, p.FreeRow a n → b ≤ a) ∧ Inv ⟨slab, ⟨b, n⟩ :: p.live⟩ l' ∧
      slab.heapStart = p.slab.heapStart ∧ slab.heapEnd = p.slab.heapEnd := by
  rw [rtSlabPageAlloc, if_neg (Nat.ne_of_gt hn)]
  have hnone : ∀ q, (none : Option Nat) = some q → q < p.slab.heapStart := by simp
  cases ht : take n l with
  | none =>
    refine Or.inl ⟨_, pageAllocLoop_none h.fuel h.chained ht, h, rfl, fun a ha => ?_⟩
    exact take_none h.spaced hn ht a (h.room.mpr ha)
  | some r =>
    obtain ⟨b, l'⟩ := r
    obtain ⟨slab, hslab, hb, hchain, hun⟩ :=
      pageAllocLoop_some h.fuel hn h.spaced h.chained hnone ht
    obtain ⟨hroom, hleast, hsp, hcov⟩ := take_least h.spaced hn ht
    have hrow := h.room.mp hroom
    obtain ⟨hhs, hhe⟩ := hun.bounds
    refine Or.inr ⟨b, slab, l', hslab, hb, hrow, fun a ha => hleast a (h.room.mpr ha), ?_, hhs, hhe⟩
    constructor
    · show 0 < slab.heapStart
      rw [hhs]
      exact h.start
    · exact hchain
    · show Spaced slab.heapStart l'
      rw [hhs]
      exact hsp
    · intro x
      rw [hcov, h.covers]
      unfold Free
      dsimp only
      rw [hhs, hhe, List.forall_mem_cons]
      unfold Extent.Has Extent.stop
      tauto
    · intro f hf
      dsimp only at hf ⊢
      rw [hhs, hhe]
      rcases List.mem_cons.mp hf with rfl | hf
      · have hfirst := hrow b (Nat.le_refl _) (by omega)
        have hlast := (hrow (b + n - 1) (by omega) (by omega)).2.1
        refine ⟨hn, hfirst.1, ?_⟩
        unfold Extent.stop
        dsimp only
        omega
      · exact h.inside f hf
    · refine List.pairwise_cons.mpr ⟨fun f hf x hx => ?_, h.apart⟩
      exact (hrow x hx.1 hx.2).2.2 f hf

/-- What a release does. -/
theorem Inv.release (h : p.Inv l) (he : e ∈ p.live) :
    ∃ slab l', rtSlabPageFree p.slab e.start e.len = .ok slab ∧ Inv ⟨slab, p.live.erase e⟩ l' ∧
      slab.heapStart = p.slab.heapStart ∧ slab.heapEnd = p.slab.heapEnd := by
  obtain ⟨hlen, hstart, hstop⟩ := h.inside e he
  have hpos := h.start
  have hout : ∀ x, e.start ≤ x → x < e.start + e.len → ¬ Covers l x :=
    fun x hx hx' hc => ((h.covers x).mp hc).2.2 e he ⟨hx, hx'⟩
  have hnone : ∀ q, (none : Option Nat) = some q → q < p.slab.heapStart := by simp
  obtain ⟨slab, hslab, hchain, hun⟩ := pageFreeLoop_eq h.fuel hlen (by omega) h.spaced hstart hout
    h.chained hnone
  obtain ⟨hsp, hcov⟩ := spaced_give h.spaced hstart hlen hout
  obtain ⟨hhs, hhe⟩ := hun.bounds
  have hperm := List.perm_cons_erase he
  have hapart : (e :: p.live.erase e).Pairwise Apart :=
    (hperm.pairwise_iff fun hef x hx hx' => hef x hx' hx).mp h.apart
  have hrest := (List.pairwise_cons.mp hapart).1
  refine ⟨slab, _, ?_, ⟨?_, hchain, ?_, ?_, ?_, (List.pairwise_cons.mp hapart).2⟩, hhs, hhe⟩
  · rw [rtSlabPageFree, rtAssert_bind (by omega), rtAssert_bind (by omega), hslab]
  · exact hhs ▸ hpos
  · dsimp only
    rw [hhs]
    exact hsp
  · intro x
    have hall : (∀ f ∈ p.live, ¬ f.Has x) ↔ ¬ e.Has x ∧ ∀ f ∈ p.live.erase e, ¬ f.Has x := by
      constructor
      · intro hall
        exact ⟨hall e he, fun f hf => hall f (List.mem_of_mem_erase hf)⟩
      · rintro ⟨hx, hall⟩ f hf
        rcases List.mem_cons.mp (hperm.mem_iff.mp hf) with rfl | hf
        · exact hx
        · exact hall f hf
    rw [hcov, h.covers]
    unfold Free
    rw [hall, hhs, hhe]
    constructor
    · rintro (⟨h1, h2, -, h3⟩ | hx)
      · exact ⟨h1, h2, h3⟩
      · have hx : e.Has x := hx
        refine ⟨Nat.le_trans hstart hx.1, Nat.lt_of_lt_of_le hx.2 hstop, fun f hf => ?_⟩
        exact hrest f hf x hx
    · rintro ⟨h1, h2, h3⟩
      by_cases hx : e.Has x
      · exact Or.inr hx
      · exact Or.inl ⟨h1, h2, hx, h3⟩
  · intro f hf
    dsimp only
    rw [hhs, hhe]
    exact h.inside f (List.mem_of_mem_erase hf)

/-- A client writes to its pages: the free runs are as they were. -/
theorem Inv.write {x : SlabPage} (h : p.Inv l) (he : e ∈ p.live) (ha : e.Has a) :
    Inv ⟨p.slab.setPage a x, p.live⟩ l := by
  refine ⟨h.start, h.chained.congr h.spaced fun y hy => Function.update_of_ne ?_ .., h.spaced,
    h.covers, h.inside, h.apart⟩
  rintro rfl
  exact ((h.covers y).mp hy).2.2 e he ha

/-- The state of a run: the heap is where it was, and the list holds its free pages. -/
def Good (p₀ p : PagePool) : Prop :=
  (∃ l, p.Inv l) ∧ p.slab.heapStart = p₀.slab.heapStart ∧ p.slab.heapEnd = p₀.slab.heapEnd

/-- **A step** keeps the free pages in order and apart. -/
theorem Good.step {p₀ : PagePool} {act : PageAct} (h : Good p₀ p) (hs : PageStep p act q) :
    Good p₀ q := by
  obtain ⟨⟨l, hl⟩, hhs, hhe⟩ := h
  cases hs with
  | @alloc npages b slab hslab =>
    rcases Nat.eq_zero_or_pos npages with rfl | hn
    · obtain ⟨rfl, rfl⟩ := Prod.mk.inj (Except.ok.inj hslab)
      exact ⟨⟨l, hl⟩, hhs, hhe⟩
    · rcases hl.alloc hn with ⟨slab', hslab', -, rfl, -⟩ |
        ⟨b', slab', l', hslab', hb, -, -, hl', h1, h2⟩
      · obtain ⟨rfl, rfl⟩ := Prod.mk.inj (Except.ok.inj (hslab.symm.trans hslab'))
        exact ⟨⟨l, hl⟩, hhs, hhe⟩
      · obtain ⟨rfl, rfl⟩ := Prod.mk.inj (Except.ok.inj (hslab.symm.trans hslab'))
        rw [if_neg hb]
        exact ⟨⟨l', hl'⟩, h1.trans hhs, h2.trans hhe⟩
  | free he hslab =>
    obtain ⟨slab', l', hslab', hl', h1, h2⟩ := hl.release he
    obtain rfl := Except.ok.inj (hslab.symm.trans hslab')
    exact ⟨⟨l', hl'⟩, h1.trans hhs, h2.trans hhe⟩
  | write he ha => exact ⟨⟨l, hl.write he ha⟩, hhs, hhe⟩

/-- `rt_slab_page_init` leaves one run. -/
theorem Inv.init {s : SlabPages}
    (h : rtSlabPageInit s s.heapStart (s.heapEnd - s.heapStart) = .ok slab) :
    Inv ⟨slab, []⟩ [⟨s.heapStart, s.heapEnd - s.heapStart⟩] := by
  obtain ⟨_, hstart, h⟩ := except_bind_ok h
  obtain ⟨_, hsize, h⟩ := except_bind_ok h
  have hstart := of_rtAssert hstart
  have hsize := of_rtAssert hsize
  have hnone : ∀ q, (none : Option Nat) = some q → q < 0 := by simp
  obtain ⟨slab', hslab, hchain, hun⟩ := @pageFreeLoop_eq { s with pageList := 0 } none s.heapStart 0
    (s.heapEnd - s.heapStart) (s.heapEnd - s.heapStart + 1) [] (Nat.succ_pos _) (by omega) hstart
    trivial (Nat.zero_le _) (fun _ _ _ => not_covers_nil) rfl hnone
  rw [rtSlabPageFree, rtAssert_bind hstart, rtAssert_bind hsize] at h
  obtain rfl := Except.ok.inj (h.symm.trans hslab)
  obtain ⟨hhs, hhe⟩ := hun.bounds
  have hhs : slab.heapStart = s.heapStart := hhs
  have hhe : slab.heapEnd = s.heapEnd := hhe
  refine ⟨?_, hchain, ⟨?_, Nat.pos_of_ne_zero hsize, trivial⟩, fun x => ?_, by simp,
    List.Pairwise.nil⟩
  · dsimp only
    omega
  · exact Nat.le_of_eq hhs
  · rw [covers_cons]
    unfold Free Extent.Has Extent.stop
    dsimp only
    rw [hhs, hhe]
    have := @not_covers_nil x
    constructor
    · rintro (hx | hx)
      · exact ⟨hx.1, by omega, by simp⟩
      · exact absurd hx this
    · rintro ⟨h1, h2, -⟩
      exact Or.inl ⟨h1, by omega⟩

end PagePool

/-- **The page allocator.** Clients allocate, give back and write to their pages, in any order.
Then an allocation gives the first pages in a row that are free, and `RT_NULL` only if there are
none; a release of a block that is held goes through; two blocks have no page in common; and
when no block is held, the free pages are the one run they were at the start. -/
theorem page_alloc_least {s slab : SlabPages}
    (hinit : rtSlabPageInit s s.heapStart (s.heapEnd - s.heapStart) = .ok slab) (p : PagePool)
    (hrun : Runs PageStep Runs.always ⟨slab, []⟩ p) :
    (∀ n, 0 < n → ∃ b slab', rtSlabPageAlloc p.slab n = .ok (b, slab') ∧
      (b = 0 → ∀ a, ¬ p.FreeRow a n) ∧
      (b ≠ 0 → p.FreeRow b n ∧ ∀ a, p.FreeRow a n → b ≤ a)) ∧
    (∀ e ∈ p.live, ∃ slab', rtSlabPageFree p.slab e.start e.len = .ok slab') ∧
    p.live.Pairwise PagePool.Apart ∧
    (p.live = [] → p.slab.pageList = s.heapStart ∧
      p.slab.pages s.heapStart = ⟨0, s.heapEnd - s.heapStart⟩) := by
  have hstart := PagePool.Inv.init hinit
  have hfirst := hstart.chained.1
  obtain ⟨⟨l, hl⟩, hhs, hhe⟩ : PagePool.Good ⟨slab, []⟩ p := by
    refine @Runs.invariant _ _ _ _ _ _ (PagePool.Good ⟨slab, []⟩) ?_ hrun ⟨⟨_, hstart⟩, rfl, rfl⟩
    intro p act q h _ hs
    exact h.step hs
  refine ⟨fun n hn => ?_, fun e he => ?_, hl.apart, fun hlive => ?_⟩
  · rcases hl.alloc hn with ⟨slab', hslab, -, -, hnone⟩ | ⟨b, slab', l', hslab, hb, hrow, hleast, -⟩
    · exact ⟨0, slab', hslab, fun _ => hnone, fun hb => absurd rfl hb⟩
    · exact ⟨b, slab', hslab, fun hb' => absurd hb' hb, fun _ => ⟨hrow, hleast⟩⟩
  · obtain ⟨slab', l', hslab, -⟩ := hl.release he
    exact ⟨slab', hslab⟩
  · -- the free pages are those of the start, and they determine the list
    have hall : ∀ x, Covers l x ↔ Covers [⟨s.heapStart, s.heapEnd - s.heapStart⟩] x := by
      intro x
      rw [hl.covers, hstart.covers]
      unfold PagePool.Free
      rw [hlive, hhs, hhe]
    obtain rfl := hl.spaced.ext hstart.spaced hall
    obtain ⟨h1, h2, h3, h4⟩ := hl.chained
    have h1 : p.slab.pageList = s.heapStart := h1
    have h4 : (p.slab.pages p.slab.pageList).next = 0 := h4
    have h3 : (p.slab.pages p.slab.pageList).page = s.heapEnd - s.heapStart := h3
    rw [h1] at h3 h4
    refine ⟨h1, ?_⟩
    rw [← h3, ← h4]

/-- Four pages: two blocks are taken, and given back in the other order. -/
theorem page_alloc_least_run : ∃ p : PagePool,
    p.slab.pageList = 8 ∧ p.slab.pages 8 = ⟨0, 4⟩ := by
  have hrun : Runs PageStep Runs.always
      ⟨⟨8, 12, 8, Function.update (fun _ => ⟨0, 0⟩) 8 ⟨0, 4⟩⟩, []⟩ _ :=
    (((Runs.refl.snoc trivial (@PageStep.alloc _ 1 _ _ rfl)).snoc
      trivial (@PageStep.alloc _ 2 _ _ rfl)).snoc
      trivial (.free (e := ⟨8, 1⟩) (by decide) rfl)).snoc
      trivial (.free (e := ⟨9, 2⟩) (by decide) rfl)
  obtain ⟨-, -, -, hwhole⟩ := page_alloc_least (s := ⟨8, 12, 0, fun _ => ⟨0, 0⟩⟩) rfl _ hrun
  exact ⟨_, hwhole rfl⟩

end RTThread
