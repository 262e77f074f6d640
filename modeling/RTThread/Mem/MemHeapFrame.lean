import RTThread.Mem.MemHeapRun

/-!
# Payloads in a memory heap

What the allocator may touch of the clients' data. A block's payload reaches
from its header to the next item (`InPayload`).

Two kinds of resizing do not keep it: a request that wraps the test for growing
while the item behind the block is free, and a request beyond the last multiple
of four, which is rounded to twelve bytes and cuts down every block of more than
fifty-two (`CutsDown`). Main results:

* `rtMemheap_frames`: in every state of a run without such calls, the payloads of
  the live blocks are disjoint from each other and from every item and lie inside
  the pool, a step leaves alone the payload of every live block it was not given,
  and a resized block starts with the bytes of the old one;
* `rtMemheap_realloc_cuts`: one call of the second kind loses bytes it returns as
  kept.
-/

namespace RTThread.Memheap

open ByteMem Tiling CircularList

variable {h h' : Memheap} {l l' pre post : List Seg} {fl : List Nat} {n o c x : Nat}

-- --------
-- What the calls leave alone
-- --------

/-- The blocks of `l` at the offsets `P` are still there, with the bytes they hold. -/
def Spares (h h' : Memheap) (l : List Seg) (P : Nat → Prop) : Prop :=
  ∃ l' fl', Layout h' l' fl' ∧ h'.startAddr = h.startAddr ∧
    ∀ o c, (o, c) ∈ blocks 0 l → P o → (o, c) ∈ blocks 0 l' ∧ SamePayload h h' o c

theorem Spares.refl {P : Nat → Prop} (L : Layout h l fl) : Spares h h l P :=
  ⟨l, fl, L, rfl, fun _ _ hb _ => ⟨hb, fun _ _ _ => rfl⟩⟩

theorem Spares.mono {P Q : Nat → Prop} (S : Spares h h' l P) (hQ : ∀ o, Q o → P o) :
    Spares h h' l Q := by
  obtain ⟨l', fl', L', hstart, hspare⟩ := S
  exact ⟨l', fl', L', hstart, fun o c hb ho => hspare o c hb (hQ o ho)⟩

theorem alloc_spares {self : Option (List UInt8)} {size : Nat} {r : Option Nat}
    (L : Layout h l fl) (hcall : h.rtMemheapAlloc self size = .ok (r, h')) :
    Spares h h' l fun _ => True := by
  rcases rtMemheapAlloc_spec L self size with ⟨halloc, _⟩ |
    ⟨_, pre, n, post, p, h₁, rfl, halloc, A⟩
  all_goals
    rw [halloc] at hcall
    cases hcall
  · exact Spares.refl L
  · obtain ⟨fl', L'⟩ := A.layout
    refine ⟨_, fl', L', A.touch.startAddr_eq, fun o c hb _ => ?_⟩
    have hb' : (o, c) ∈ blocks 0 (pre ++ carve (roundSize size + 28) 40 n ++ post) :=
      (blocks_carve_perm ..).mem_iff.mpr (List.mem_cons_of_mem _ hb)
    exact ⟨hb', Touch.block_after A.touch L'.toGeometry hb'⟩

theorem Freed.spares (F : Freed h pre n post h') (L : Layout h (pre ++ ⟨n, true⟩ :: post) fl) :
    Spares h h' (pre ++ ⟨n, true⟩ :: post) (· ≠ span pre) := by
  obtain ⟨fl', L'⟩ := F.layout
  exact ⟨_, fl', L', F.touch.startAddr_eq, fun o c hb hne =>
    ⟨release_keeps hb hne, Touch.block F.touch L.toGeometry hb⟩⟩

theorem free_spares (L : Layout h (pre ++ ⟨n, true⟩ :: post) fl)
    (hcall : h.rtMemheapFree (some (h.startAddr + span pre + 28)) = .ok h') :
    Spares h h' (pre ++ ⟨n, true⟩ :: post) (· ≠ span pre) := by
  obtain ⟨h₁, hfree, F⟩ := rtMemheapFree_spec L rfl
  rw [hfree] at hcall
  cases hcall
  exact F.spares L

/-- The blocks beside the end that was cut off hold the same bytes. -/
theorem Shrunk.block {d : Nat} (S : Shrunk h h' pre n c post)
    (L : Layout h (pre ++ ⟨n, true⟩ :: post) fl) (hc : 40 ≤ c)
    (hb : (o, d) ∈ blocks 0 (pre ++ ⟨c, true⟩ :: ⟨n - c, false⟩ :: post)) :
    SamePayload h h' o d := by
  have hroom := S.room
  refine Touch.block S.touch (L.toGeometry.of_eq (fun s hs => ?_) ?_) hb
  · rcases List.mem_append.mp hs with hs | hs
    · exact L.sized s (by simp [hs])
    · rcases List.mem_cons.mp hs with rfl | hs
      · exact hc
      · rcases List.mem_cons.mp hs with rfl | hs
        · dsimp only
          omega
        · exact L.sized s (by simp [hs])
  · simp only [span_append, span_cons]
    omega

/-- A block that is in the list before and after growing holds the same bytes. -/
theorem Grown.block {k d d' : Nat} (G : Grown h h' pre n c k post)
    (L : Layout h (pre ++ ⟨n, true⟩ :: ⟨k, false⟩ :: post) fl)
    (hb : (o, d) ∈ blocks 0 (pre ++ ⟨n, true⟩ :: ⟨k, false⟩ :: post))
    (hb' : (o, d') ∈ blocks 0 (grown pre n c k post)) (hd : d ≤ d') : SamePayload h h' o d := by
  obtain ⟨fl', L'⟩ := G.layout
  obtain ⟨pre₁, post₁, hl, ho⟩ := mem_blocks.mp hb
  obtain ⟨pre₂, post₂, hl', ho'⟩ := mem_blocks.mp hb'
  have hL := L.toGeometry
  have hL' := L'.toGeometry
  rw [hl] at hL
  rw [hl'] at hL'
  intro x h1 h2
  refine G.touch.frame x fun a ha => ?_
  rcases List.mem_append.mp ha with ha | ha
  · rw [hl] at ha
    exact hL.item_payload (by omega) (by omega) a ha
  · rw [← G.touch.items_eq, hl'] at ha
    have hstart := G.touch.startAddr_eq
    exact hL'.item_payload (by omega) (by omega) a ha

theorem grown_keeps {k d : Nat} (hc : c ≤ n + k)
    (hb : (o, d) ∈ blocks 0 (pre ++ ⟨n, true⟩ :: ⟨k, false⟩ :: post)) (hne : o ≠ span pre) :
    (o, d) ∈ blocks 0 (grown pre n c k post) := by
  have hend : 0 + span pre + c + (n + k - c) = 0 + span pre + n + k := by omega
  rw [grown]
  simp only [blocks_append, blocks_cons, if_true, Bool.false_eq_true, if_false, List.nil_append,
    List.singleton_append, List.mem_append, List.mem_cons, Prod.mk.injEq, hend] at hb ⊢
  rcases hb with hb | ⟨ho, _⟩ | hb
  · exact Or.inl hb
  · exact absurd (by omega) hne
  · exact Or.inr (Or.inr hb)

theorem realloc_spares {self : Option (List UInt8)} {newsize : Nat} {r : Option Nat}
    (L : Layout h (pre ++ ⟨n, true⟩ :: post) fl)
    (hno : roundSize newsize + 12 < 2 ^ 32 ∨ (post.head?.map Seg.used).getD true = true)
    (hcall : h.rtMemheapRealloc self (some (h.startAddr + span pre + 28)) newsize =
      .ok (r, h')) : Spares h h' (pre ++ ⟨n, true⟩ :: post) (· ≠ span pre) := by
  rcases rtMemheapRealloc_spec L self newsize hno with ⟨_, h₁, hres, F⟩ | ⟨_, hspec⟩
  · rw [hres] at hcall
    cases hcall
    exact F.spares L
  rcases hspec with ⟨_, hres⟩ | ⟨h₁, hres, S⟩ | ⟨h₁, k, ts, rfl, hres, G⟩ | ⟨_, hres⟩ |
    ⟨_, q, h₁, pre', k, post', pre₁, post₁, hres, hl, M⟩
  all_goals
    rw [hres] at hcall
    cases hcall
  · exact Spares.refl L
  · obtain ⟨fl', L'⟩ := S.layout
    have hroom := S.room
    refine ⟨_, fl', L', S.touch.startAddr_eq, fun o c hb hne => ?_⟩
    have hb' := cut_keeps (d := roundSize newsize + 28) (by omega) hb hne
    exact ⟨by rwa [blocks_cut], S.block L (by have := roundSize_ge newsize; omega) hb'⟩
  · obtain ⟨fl', L'⟩ := G.layout
    have hroom := G.room
    refine ⟨_, fl', L', G.touch.startAddr_eq, fun o c hb hne => ?_⟩
    have hb' := grown_keeps (c := roundSize newsize + 28) (by omega) hb hne
    exact ⟨hb', G.block L hb hb' (Nat.le_refl _)⟩
  · exact Spares.refl L
  · obtain ⟨fl', L'⟩ := M.layout
    refine ⟨_, fl', L', M.startAddr_eq, fun o c hb hne => ?_⟩
    rw [hl] at hb
    have hb' : (o, c) ∈ blocks 0 (pre₁ ++ ⟨n, true⟩ :: post₁) := by
      rw [← M.split_eq]
      exact (blocks_carve_perm ..).mem_iff.mpr (List.mem_cons_of_mem _ hb)
    exact ⟨release_keeps hb' (by rwa [M.span_eq]), M.kept o c hb hne⟩

-- --------
-- Payloads
-- --------

/-- `x` is a byte of the block at `p`. -/
def InPayload (h : Memheap) (p x : Nat) : Prop := p ≤ x ∧ x < h.get .next (p - memheapSize)

/-- Bytes of the block at `p`. -/
def blockSize (h : Memheap) (p : Nat) : Nat := h.get .next (p - memheapSize) - p

theorem Layout.next_block (L : Layout h l fl) (hb : (o, c) ∈ blocks 0 l) :
    h.get .next (h.startAddr + o + 28 - memheapSize) = h.startAddr + o + c := by
  obtain ⟨pre, post, rfl, ho⟩ := mem_blocks.mp hb
  rw [Nat.zero_add] at ho
  rw [Nat.add_sub_cancel, ho, L.next_eq]

theorem Layout.inPayload (L : Layout h l fl) (hb : (o, c) ∈ blocks 0 l) :
    InPayload h (h.startAddr + o + 28) x ↔ h.startAddr + o + 28 ≤ x ∧ x < h.startAddr + o + c := by
  rw [InPayload, L.next_block hb]

theorem Layout.blockSize_eq (L : Layout h l fl) (hb : (o, c) ∈ blocks 0 l) :
    blockSize h (h.startAddr + o + 28) = c - 28 := by
  rw [blockSize, L.next_block hb]
  omega

/-- The payloads of the live blocks, in a heap tiled by `l`. -/
structure Separated (st : State) (l : List Seg) (fl : List Nat) : Prop where
  heap : WellFormed st.heap l fl
  nodup : st.live.Nodup
  nonempty : ∀ p ∈ st.live, InPayload st.heap p p
  disjoint : ∀ p ∈ st.live, ∀ q ∈ st.live, p ≠ q → ∀ x, InPayload st.heap p x →
    ¬ InPayload st.heap q x
  items : ∀ p ∈ st.live, ∀ a ∈ st.heap.items l, ∀ x, a ≤ x → x < a + memheapSize →
    ¬ InPayload st.heap p x
  inside : ∀ p ∈ st.live, ∀ x, InPayload st.heap p x →
    st.heap.startAddr ≤ x ∧ x < st.heap.startAddr + st.heap.poolSize

theorem live_iff {st : State} {p : Nat} (hlive : st.live.Perm (payloads st.heap.startAddr l)) :
    p ∈ st.live ↔ ∃ o c, (o, c) ∈ blocks 0 l ∧ p = st.heap.startAddr + o + 28 := by
  rw [hlive.mem_iff]
  exact mem_addresses

theorem Inv.separated {st : State} (hI : Inv st) : ∃ l fl, Separated st l fl := by
  obtain ⟨l, fl, L, hlive⟩ := hI
  have hspan := L.span_eq
  have hsized : ∀ {o c}, (o, c) ∈ blocks 0 l → 40 ≤ c := by
    intro o c hb
    obtain ⟨pre, post, rfl, _⟩ := mem_blocks.mp hb
    exact L.sized ⟨c, true⟩ (by simp)
  refine ⟨l, fl,
    { heap := L.wellFormed
      nodup := hlive.nodup_iff.mpr (nodup_addresses fun s hs => ?_)
      nonempty := fun p hp => ?_
      disjoint := fun p hp q hq hne x hx hx' => ?_
      items := fun p hp a ha x h1 h2 hx => ?_
      inside := fun p hp x hx => ?_ }⟩
  · have := L.sized s hs
    omega
  · obtain ⟨o, c, hb, rfl⟩ := (live_iff hlive).mp hp
    have := hsized hb
    exact (L.inPayload hb).mpr (by omega)
  · obtain ⟨o, c, hb, rfl⟩ := (live_iff hlive).mp hp
    obtain ⟨o', c', hb', rfl⟩ := (live_iff hlive).mp hq
    have hx := (L.inPayload hb).mp hx
    have hx' := (L.inPayload hb').mp hx'
    have hne' : (o, c) ≠ (o', c') := fun heq => hne (by rw [(Prod.mk.inj heq).1])
    have := blocks_apart hb hb' hne'
    dsimp only at this
    omega
  · obtain ⟨o, c, hb, rfl⟩ := (live_iff hlive).mp hp
    have hx := (L.inPayload hb).mp hx
    obtain ⟨pre, post, rfl, ho⟩ := mem_blocks.mp hb
    rw [Nat.zero_add] at ho
    subst ho
    rw [show memheapSize = 28 from rfl] at h2
    have := L.toGeometry.item_payload hx.1 hx.2 a ha
    omega
  · obtain ⟨o, c, hb, rfl⟩ := (live_iff hlive).mp hp
    have hx := (L.inPayload hb).mp hx
    have := (le_of_mem_blocks hb).2
    dsimp only at this
    omega

-- --------
-- Steps
-- --------

/-- A request beyond the last multiple of four, which is rounded to twelve bytes, for a block
that is large enough to be cut down to them. -/
def CutsDown (h : Memheap) (p newsize : Nat) : Prop :=
  2 ^ 32 - 4 < newsize ∧ 2 * memheapMinialloc + memheapSize < h.memitemSize (p - memheapSize)

/-- No live block is resized to a size that wraps the test for growing while the item behind it
is free, or is cut down by a request beyond the last multiple of four. -/
def Intact (st : State) (a : Action) : Prop :=
  Allowed st a ∧ ∀ self p newsize, a = .realloc self (some p) newsize →
    ¬ CutsDown st.heap p newsize

/-- The block a step was given: the one resized, given back or written. -/
def Action.given : Action → Option Nat
  | .alloc _ _ => none
  | .realloc _ ptr _ => ptr
  | .free ptr => ptr
  | .write p _ _ => some p

/-- The block at `q` is still live, of the same extent and with the same bytes. -/
structure Kept (st st' : State) (q : Nat) : Prop where
  live : q ∈ st'.live
  extent : ∀ x, InPayload st'.heap q x ↔ InPayload st.heap q x
  bytes : ∀ x, InPayload st.heap q x → st'.heap.mem x = st.heap.mem x

/-- **One step** spares the blocks it was not given. -/
theorem step_spares {st st' : State} {a : Action} (L : Layout st.heap l fl)
    (hlive : st.live.Perm (payloads st.heap.startAddr l)) (hok : Allowed st a)
    (hs : Step st a st') :
    Spares st.heap st'.heap l fun o => st.heap.startAddr + o + 28 ∉ a.given := by
  cases hs with
  | alloc hcall => exact (alloc_spares L hcall).mono fun _ _ => trivial
  | @free ptr h' hmem hcall =>
    cases ptr with
    | none =>
      cases hcall
      exact Spares.refl L
    | some p =>
      obtain ⟨pre, n, post, rfl, rfl⟩ := live_block hlive (hmem p rfl)
      exact (free_spares L hcall).mono fun o hne ho => hne (by rw [ho]; rfl)
  | @realloc self ptr newsize r h' hmem hcall =>
    cases ptr with
    | some p =>
      obtain ⟨pre, n, post, rfl, rfl⟩ := live_block hlive (hmem p rfl)
      have hno := allowed_realloc L hok
      exact (realloc_spares L hno hcall).mono fun o hne ho => hne (by rw [ho]; rfl)
    | none =>
      rcases rtMemheapRealloc_null hcall with ⟨rfl, rfl⟩ | halloc
      · exact Spares.refl L
      · exact (alloc_spares L halloc).mono fun _ _ => trivial
  | @write p y b hp h1 h2 =>
    obtain ⟨pre, n, post, rfl, rfl⟩ := live_block hlive hp
    have hb₁ : (span pre, n) ∈ blocks 0 (pre ++ ⟨n, true⟩ :: post) := by simp
    rw [L.next_block hb₁] at h2
    have hwrite := L.write (fun z => if z = y then b else st.heap.mem z) fun z hz =>
      if_neg (by omega)
    refine ⟨_, _, hwrite, rfl, fun o c hb hne => ⟨hb, fun z h3 h4 => if_neg ?_⟩⟩
    have := block_beside hb fun _ ho => hne (by rw [ho]; rfl)
    omega

theorem mem_without {st : State} {ptr : Option Nat} {q : Nat} (hq : q ∈ st.live)
    (hne : q ∉ ptr) : q ∈ st.without ptr := by
  cases ptr with
  | none => exact hq
  | some p => exact (List.mem_erase_of_ne fun heq => hne (by rw [heq]; rfl)).mpr hq

/-- A live block that a step was not given stays live. -/
theorem step_live {st st' : State} {a : Action} {q : Nat} (hs : Step st a st')
    (hq : q ∈ st.live) (hne : q ∉ a.given) : q ∈ st'.live := by
  cases hs with
  | alloc _ => exact List.mem_append_right _ hq
  | free _ _ => exact mem_without hq hne
  | @realloc self ptr newsize r h' _ _ =>
    cases r with
    | some p => exact List.mem_cons_of_mem _ (mem_without hq hne)
    | none =>
      dsimp only
      rw [State.resized]
      split
      · exact mem_without hq hne
      · exact hq
  | write _ _ _ => exact hq

/-- **One step** keeps every live block it was not given. -/
theorem step_keeps {st st' : State} {a : Action} (hI : Inv st) (hok : Allowed st a)
    (hs : Step st a st') : ∀ q ∈ st.live, q ∉ a.given → Kept st st' q := by
  obtain ⟨l, fl, L, hlive⟩ := hI
  intro q hq hne
  obtain ⟨l', fl', L', hstart, hspare⟩ := step_spares L hlive hok hs
  have hq' := step_live hs hq hne
  obtain ⟨o, c, hb, rfl⟩ := (live_iff hlive).mp hq
  obtain ⟨hb', hsame⟩ := hspare o c hb hne
  refine ⟨hq', fun x => ?_, fun x hx => ?_⟩
  · rw [L.inPayload hb, ← hstart, L'.inPayload hb']
  · obtain ⟨h1, h2⟩ := (L.inPayload hb).mp hx
    exact hsame x h1 h2

-- --------
-- Resizing
-- --------

/-- The block that was moved to, in the layout the call leaves. -/
theorem Moved.block {k q size : Nat} {pre' post' pre₁ post₁ : List Seg}
    (M : Moved h h' pre n q size pre' k post' pre₁ post₁)
    (hl : pre ++ ⟨n, true⟩ :: post = pre' ++ ⟨k, false⟩ :: post') (hn : 0 < n) :
    ∃ b, (span pre', b) ∈ blocks 0 (release pre₁ n post₁) ∧ size + 28 ≤ b ∧
      q = h'.startAddr + span pre' + 28 := by
  have hfits := M.fits
  obtain ⟨b, ts, hcarve, hle⟩ := carve_head 40 M.fits
  have hnew : (span pre', b) ∈ blocks 0 (pre₁ ++ ⟨n, true⟩ :: post₁) := by
    rw [← M.split_eq, hcarve]
    simp
  -- it is not where the old one was
  have hb : (span pre, n) ∈ blocks 0 (pre' ++ ⟨k, false⟩ :: post') := by
    rw [← hl]
    simp
  have hbeside := block_beside hb (by simp)
  refine ⟨b, release_keeps hnew (by rw [M.span_eq]; omega), hle, ?_⟩
  rw [M.ptr_eq, M.startAddr_eq]

/-- **A resized block** starts with the bytes of the old one. -/
theorem rtMemheapRealloc_copied {self : Option (List UInt8)} {newsize q i : Nat}
    (L : Layout h (pre ++ ⟨n, true⟩ :: post) fl) (hlt : newsize < 2 ^ 32)
    (hno : roundSize newsize + 12 < 2 ^ 32 ∨ (post.head?.map Seg.used).getD true = true)
    (hcut : ¬ CutsDown h (h.startAddr + span pre + 28) newsize)
    (hcall : h.rtMemheapRealloc self (some (h.startAddr + span pre + 28)) newsize =
      .ok (some q, h')) (hi : i < n - 28) (hi' : i < newsize) :
    InPayload h' q (q + i) ∧ h'.mem (q + i) = h.mem (h.startAddr + span pre + 28 + i) := by
  have hb : (span pre, n) ∈ blocks 0 (pre ++ ⟨n, true⟩ :: post) := by simp
  rw [CutsDown, Nat.add_sub_cancel, L.size_eq,
    show 2 * memheapMinialloc + memheapSize = 52 from rfl] at hcut
  -- what is rounded down is rounded to twelve
  have hround : newsize ≤ roundSize newsize ∨ roundSize newsize = 12 ∧ n ≤ 80 := by
    by_cases hle : newsize ≤ 2 ^ 32 - 4
    · exact Or.inl (roundSize_of_le hle)
    · exact Or.inr ⟨roundSize_wrap (by omega) hlt, by omega⟩
  rcases rtMemheapRealloc_spec L self newsize hno with ⟨h0, _⟩ | ⟨_, hspec⟩
  · omega
  rcases hspec with ⟨_, hres⟩ | ⟨h₁, hres, S⟩ | ⟨h₁, k, ts, rfl, hres, G⟩ | ⟨_, hres⟩ |
    ⟨hsmall, q, h₁, pre', k, post', pre₁, post₁, hres, hl, M⟩
  all_goals
    rw [hres] at hcall
    cases hcall
  · exact ⟨(L.inPayload hb).mpr (by omega), rfl⟩
  · -- shrunk: the new item stands behind the new payload
    obtain ⟨fl', L'⟩ := S.layout
    have hroom := S.room
    have hstart := S.touch.startAddr_eq
    have hge := roundSize_ge newsize
    have hb' : (span pre, roundSize newsize + 28) ∈ blocks 0
        (pre ++ ⟨roundSize newsize + 28, true⟩ ::
          ⟨n - (roundSize newsize + 28), false⟩ :: post) := by simp
    refine ⟨?_, S.block L (by omega) hb' _ (by omega) (by omega)⟩
    rw [← hstart, L'.inPayload (cut_block ..)]
    omega
  · -- grown: neither the old nor the new items reach into the old payload
    obtain ⟨fl', L'⟩ := G.layout
    have hroom := G.room
    have hstart := G.touch.startAddr_eq
    have hb' : (span pre, roundSize newsize + 28) ∈
        blocks 0 (grown pre n (roundSize newsize + 28) k ts) := by simp [grown]
    refine ⟨?_, G.block L hb hb' (by omega) _ (by omega) (by omega)⟩
    rw [← hstart, L'.inPayload hb']
    omega
  · -- moved: the new block is not where the old one was
    obtain ⟨fl', L'⟩ := M.layout
    obtain ⟨hn, _⟩ := L.extent
    obtain ⟨b, hnew, hle', hq⟩ := M.block hl (by omega)
    refine ⟨?_, M.copied i hi (by omega)⟩
    rw [hq, L'.inPayload hnew]
    omega

/-- **Payloads along a run**: where they are, what a step may change, what resizing copies. -/
theorem rtMemheap_frames {m : ByteMem} {memheap startAddr size : Nat} {st : State}
    (hplace : Placement memheap startAddr size)
    (hrun : Runs Step Intact ⟨rtMemheapInit m memheap startAddr size, []⟩ st) :
    (∃ l fl, Separated st l fl) ∧
      (∀ a st', Intact st a → Step st a st' → ∀ q ∈ st.live, q ∉ a.given → Kept st st' q) ∧
      ∀ self newsize, ∀ p ∈ st.live, ∀ q h', newsize < 2 ^ 32 →
        Intact st (.realloc self (some p) newsize) →
        st.heap.rtMemheapRealloc self (some p) newsize = .ok (some q, h') →
        ∀ i, i < blockSize st.heap p → i < newsize →
          InPayload h' q (q + i) ∧ h'.mem (q + i) = st.heap.mem (p + i) := by
  have hI : Inv st := hrun.invariant (fun s a s' hs hok h => inv_step s a s' hs hok.1 h)
    ⟨_, _, rtMemheapInit_spec hplace, by simp [payloads]⟩
  refine ⟨hI.separated, fun a st' hok hs => step_keeps hI hok.1 hs, ?_⟩
  intro self newsize p hp q h' hlt hok hcall i hi hi'
  obtain ⟨l, fl, L, hlive⟩ := hI
  obtain ⟨pre, n, post, rfl, rfl⟩ := live_block hlive hp
  rw [L.blockSize_eq (o := span pre) (c := n) (by simp)] at hi
  exact rtMemheapRealloc_copied L hlt (allowed_realloc L hok.1) (hok.2 _ _ _ rfl) hcall hi hi'

/-- A pool of 256 bytes with three blocks: a byte is written into the first one, which moves to
grow, and the second one is given back. -/
theorem rtMemheap_frames_moved :
    ∃ st, Runs Step Intact ⟨rtMemheapInit (fun _ => 0) 1024 4096 256, []⟩ st ∧
      st.live = [4248, 4208] ∧ st.heap.mem 4251 = 9 ∧ ∃ l fl, Separated st l fl := by
  obtain ⟨h, hh⟩ : ∃ h, h = rtMemheapInit (fun _ => 0) 1024 4096 256 := ⟨_, rfl⟩
  have hcalls : (h.rtMemheapAlloc none 12).toOption.any fun r₁ =>
      r₁.1 = some 4124 ∧ (r₁.2.rtMemheapAlloc none 16).toOption.any fun r₂ =>
      r₂.1 = some 4164 ∧ (r₂.2.rtMemheapAlloc none 8).toOption.any fun r₃ =>
      r₃.1 = some 4208 ∧ 4127 < r₃.2.get .next 4096 ∧
        (({ r₃.2 with mem := fun y => if y = 4127 then 9 else r₃.2.mem y } :
          Memheap).rtMemheapRealloc none (some 4124) 20).toOption.any fun r₄ =>
      r₄.1 = some 4248 ∧
        (r₄.2.rtMemheapFree (some 4164)).toOption.any fun h₅ => h₅.mem 4251 = 9 := by
    rw [hh]
    decide +kernel
  obtain ⟨⟨_, h₁⟩, hc₁, hcalls⟩ := exists_ok hcalls
  obtain ⟨rfl, hcalls⟩ := of_decide_eq_true hcalls
  obtain ⟨⟨_, h₂⟩, hc₂, hcalls⟩ := exists_ok hcalls
  obtain ⟨rfl, hcalls⟩ := of_decide_eq_true hcalls
  obtain ⟨⟨_, h₃⟩, hc₃, hcalls⟩ := exists_ok hcalls
  obtain ⟨rfl, hroom, hcalls⟩ := of_decide_eq_true hcalls
  obtain ⟨⟨_, h₄⟩, hc₄, hcalls⟩ := exists_ok hcalls
  obtain ⟨rfl, hcalls⟩ := of_decide_eq_true hcalls
  obtain ⟨h₅, hc₅, hcalls⟩ := exists_ok hcalls
  have hrun₁ := (@Runs.refl _ _ Step Intact ⟨h, []⟩).snoc (a := Action.alloc none 12)
    ⟨trivial, nofun⟩ (Step.alloc hc₁)
  have hrun₂ := hrun₁.snoc (a := Action.alloc none 16) ⟨trivial, nofun⟩ (Step.alloc hc₂)
  have hrun₃ := hrun₂.snoc (a := Action.alloc none 8) ⟨trivial, nofun⟩ (Step.alloc hc₃)
  have hrun₄ := hrun₃.snoc (a := Action.write 4124 4127 9) ⟨trivial, nofun⟩
    (Step.write (by simp) (by decide) hroom)
  have hintact : ∀ st, Intact st (.realloc none (some 4124) 20) := by
    refine fun st => ⟨fun hwrap => absurd hwrap.1 (by unfold Wraps; decide), ?_⟩
    intro _ _ _ heq hcut
    cases heq
    exact absurd hcut.1 (by decide)
  have hrun₅ := hrun₄.snoc (hintact _) (Step.realloc (by simp) hc₄)
  have hrun := hrun₅.snoc (a := Action.free (some 4164)) ⟨trivial, nofun⟩
    (Step.free (by simp [State.resized, State.without]) hc₅)
  rw [hh] at hrun
  exact ⟨_, hrun, rfl, of_decide_eq_true hcalls, (rtMemheap_frames placement_example hrun).1⟩

/-- **The defect**: resizing a block of 60 bytes to `0xffffffff` bytes returns it, cut down to
twelve: the byte behind these, which its owner had set to zero, is part of a new item. -/
theorem rtMemheap_realloc_cuts :
    ∃ st h', Runs Step Runs.always ⟨rtMemheapInit (fun _ => 0) 1024 4096 256, []⟩ st ∧
      st.live = [4124] ∧
      st.heap.rtMemheapRealloc none (some 4124) 0xffffffff = .ok (some 4124, h') ∧
      12 < min (blockSize st.heap 4124) 0xffffffff ∧
      h'.mem (4124 + 12) ≠ st.heap.mem (4124 + 12) := by
  obtain ⟨h, fl, L, halloc, hstart, _⟩ := alloc_example (show roundSize 60 ≤ 160 by decide)
  have L : Layout h ([] ++ ⟨88, true⟩ :: [⟨140, false⟩]) fl := L
  have hnext : h.get .next 4096 = 4184 := by
    have := L.next_eq
    rwa [hstart] at this
  -- the owner writes a zero
  obtain ⟨g, hg⟩ : ∃ g : Memheap, g = { h with mem := fun y => if y = 4136 then 0 else h.mem y } :=
    ⟨_, rfl⟩
  have hgstart : g.startAddr = 4096 := by rw [hg, ← hstart]
  have hwrite : Step ⟨h, [4124]⟩ (.write 4124 4136 0) ⟨g, [4124]⟩ := by
    rw [hg]
    refine Step.write (by simp) (by decide) ?_
    rw [show 4124 - memheapSize = 4096 from rfl, hnext]
    decide
  have L₁ : Layout g ([] ++ ⟨88, true⟩ :: [⟨140, false⟩]) fl := by
    rw [hg]
    refine L.write _ fun y hy => if_neg ?_
    rw [hstart, span_nil] at hy
    omega
  have hzero : g.mem 4136 = 0 := by
    rw [hg]
    rfl
  -- the block is cut down to twelve bytes
  have hround : roundSize 0xffffffff = 12 := by decide
  obtain ⟨h₁, hh₁⟩ : ∃ h₁, h₁ = g.shrinkBlock 4096 12 := ⟨_, rfl⟩
  obtain ⟨fl', e, L'⟩ := shrinkBlock_spec L₁ hgstart.symm (show 12 ≤ 12 by decide)
    (show 40 = 12 + 28 from rfl) (by decide)
  rw [← hh₁] at e L'
  have hcall : g.rtMemheapRealloc none (some 4124) 0xffffffff = .ok (some 4124, h₁) := by
    have hlive := rtMemheapRealloc_live L₁ none (show 0xffffffff ≠ 0 by decide)
    rw [hround, hgstart, span_nil, if_neg (by decide), if_neg (by decide), ← hh₁] at hlive
    exact hlive
  -- the item behind it is marked
  have hmark : h₁.get .magic 4136 = 0x1ea01ea0 := by
    have T : Tiled h₁ ([⟨40, true⟩] ++ ⟨188, false⟩ :: []) := L'.toTiled
    have hm := (Laid.header T.marks).1
    rw [show h₁.startAddr = 4096 from e.startAddr_eq.trans hgstart] at hm
    exact hm
  refine ⟨⟨g, [4124]⟩, h₁, (alloc_step (P := Runs.always) halloc trivial).snoc trivial hwrite, rfl,
    hcall, ?_, ?_⟩
  · have hb : (0, 88) ∈ blocks 0 ([] ++ ⟨88, true⟩ :: [⟨140, false⟩]) := by decide
    have hsize := L₁.blockSize_eq hb
    rw [hgstart] at hsize
    rw [show blockSize g 4124 = 60 from hsize]
    decide
  · intro hsame
    have hbyte : (h₁.mem 4136).toNat = 0 := by
      rw [show h₁.mem 4136 = g.mem 4136 from hsame, hzero]
      rfl
    rw [Memheap.get, load32, show 4136 + Field.offset .magic = 4136 from rfl, hbyte] at hmark
    omega

end RTThread.Memheap
