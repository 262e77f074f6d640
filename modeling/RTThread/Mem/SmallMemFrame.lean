import RTThread.Mem.SmallMemRun

/-!
# Payloads in the small-memory heap

What the allocator may touch of the clients' data. A block's payload reaches
from its header to the next item (`InPayload`).

Main result, `rtSmem_frames`: in every state a run reaches

* the payloads of the live blocks are disjoint from each other and from every
  item header, and lie inside the heap (`Separated`);
* a step leaves alone the payload of every live block it was not given (`Kept`);
* a resized block starts with the bytes of the old one, up to the smaller of the
  two sizes (`rtSmemRealloc_copied`).

Each call is first described by the segments: `Spares` says which blocks it
leaves where they are, with the bytes they hold.
-/

namespace RTThread.SmallMem

open ByteMem Tiling

variable {h h' : SmallMem} {l l' pre post : List Seg} {n o c x : Nat}

-- --------
-- What the calls leave alone
-- --------

/-- The blocks of `l` at the offsets `P` are still there, with the bytes they hold. -/
def Spares (h h' : SmallMem) (l : List Seg) (P : Nat → Prop) : Prop :=
  ∃ l', Layout h' l' ∧ h'.heapPtr = h.heapPtr ∧
    ∀ o c, (o, c) ∈ blocks 0 l → P o → (o, c) ∈ blocks 0 l' ∧ SamePayload h h' o c

theorem Spares.refl {P : Nat → Prop} (L : Layout h l) : Spares h h l P :=
  ⟨l, L, rfl, fun _ _ hb _ => ⟨hb, fun _ _ _ => rfl⟩⟩

theorem Spares.mono {P Q : Nat → Prop} (S : Spares h h' l P) (hQ : ∀ o, Q o → P o) :
    Spares h h' l Q := by
  obtain ⟨l', L', hheap, hspare⟩ := S
  exact ⟨l', L', hheap, fun o c hb ho => hspare o c hb (hQ o ho)⟩

theorem alloc_spares {self : Option (List UInt8)} {size : Nat} {r : Option Nat}
    (L : Layout h l) (hcall : h.rtSmemAlloc self size = .ok (r, h')) :
    Spares h h' l fun _ => True := by
  rcases rtSmemAlloc_spec L self size with ⟨halloc, _⟩ | ⟨halloc, _⟩ |
    ⟨p, h₁, pre, k, post, rfl, _, _, halloc, A⟩
  all_goals
    rw [halloc] at hcall
    cases hcall
  · exact Spares.refl L
  · refine ⟨_, A.layout, A.same.heap_eq, fun o c hb _ => ?_⟩
    have hb' : (o, c) ∈ blocks 0 (pre ++ carve (roundSize size + 16) 28 k ++ post) :=
      (blocks_carve_perm ..).mem_iff.mpr (List.mem_cons_of_mem _ hb)
    exact ⟨hb', A.frame.block hb'⟩

theorem free_spares (L : Layout h (pre ++ ⟨n, true⟩ :: post))
    (hcall : h.rtSmemFree (some (h.item (span pre) + 16)) = .ok h') :
    Spares h h' (pre ++ ⟨n, true⟩ :: post) (· ≠ span pre) := by
  obtain ⟨h₁, hfree, L₁, hsame, hf⟩ := rtSmemFree_spec L
  rw [hfree] at hcall
  cases hcall
  exact ⟨_, L₁, hsame.heap_eq, fun o c hb hne => ⟨release_keeps hb hne, hf.block hb⟩⟩

theorem realloc_spares {self : Option (List UInt8)} {newsize : Nat} {r : Option Nat}
    (L : Layout h (pre ++ ⟨n, true⟩ :: post))
    (hcall : h.rtSmemRealloc self (some (h.item (span pre) + 16)) newsize = .ok (r, h')) :
    Spares h h' (pre ++ ⟨n, true⟩ :: post) (· ≠ span pre) := by
  rcases rtSmemRealloc_spec L self newsize with ⟨hres, _⟩ | ⟨_, h₁, hres, F⟩ | ⟨_, hres⟩ |
    ⟨_, hroom, h₁, hres, S⟩ | ⟨hres, _⟩ | ⟨_, q, h₁, pre', k, post', pre₁, post₁, hres, hl, M⟩
  all_goals
    rw [hres] at hcall
    cases hcall
  · exact Spares.refl L
  · exact ⟨_, F.layout, F.same.heap_eq, fun o c hb hne => ⟨release_keeps hb hne, F.frame.block hb⟩⟩
  · exact Spares.refl L
  · refine ⟨_, S.layout, S.same.heap_eq, fun o c hb hne => ?_⟩
    have hb' := cut_keeps (d := rtAlign newsize + 16) (by omega) hb hne
    refine ⟨by rwa [blocks_cut], S.frame.block ?_⟩
    simpa [cutBlock] using hb'
  · refine ⟨_, M.layout, M.same.heap_eq, fun o c hb hne => ?_⟩
    rw [hl] at hb
    have hb' : (o, c) ∈ blocks 0 (pre₁ ++ ⟨n, true⟩ :: post₁) := by
      rw [← M.split_eq]
      exact (blocks_carve_perm ..).mem_iff.mpr (List.mem_cons_of_mem _ hb)
    exact ⟨release_keeps hb' (by rwa [M.span_eq]), M.kept o c hb hne⟩

-- --------
-- Payloads
-- --------

/-- `x` is a byte of the block at `p`. -/
def InPayload (h : SmallMem) (p x : Nat) : Prop :=
  p ≤ x ∧ x < h.item (h.next (p - sizeofStructMem))

/-- Bytes of the block at `p`. -/
def blockSize (h : SmallMem) (p : Nat) : Nat := h.item (h.next (p - sizeofStructMem)) - p

theorem Layout.next_block (L : Layout h l) (hb : (o, c) ∈ blocks 0 l) :
    h.item (h.next (h.item o + 16 - sizeofStructMem)) = h.item o + c := by
  obtain ⟨pre, post, rfl, ho⟩ := mem_blocks.mp hb
  rw [Nat.zero_add] at ho
  rw [Nat.add_sub_cancel, ho, L.toTiled.next_item, item, item, Nat.add_assoc]

theorem Layout.inPayload (L : Layout h l) (hb : (o, c) ∈ blocks 0 l) :
    InPayload h (h.item o + 16) x ↔ h.item o + 16 ≤ x ∧ x < h.item o + c := by
  rw [InPayload, L.next_block hb]

theorem Layout.blockSize_eq (L : Layout h l) (hb : (o, c) ∈ blocks 0 l) :
    blockSize h (h.item o + 16) = c - 16 := by
  rw [blockSize, L.next_block hb]
  omega

/-- The payloads of the live blocks, in a heap with items at the offsets `offs`. -/
structure Separated (st : State) (offs : List Nat) : Prop where
  heap : WellFormed st.heap offs
  nodup : st.live.Nodup
  nonempty : ∀ p ∈ st.live, InPayload st.heap p p
  disjoint : ∀ p ∈ st.live, ∀ q ∈ st.live, p ≠ q → ∀ x, InPayload st.heap p x →
    ¬ InPayload st.heap q x
  headers : ∀ p ∈ st.live, ∀ a ∈ offs.map st.heap.item ++ [st.heap.heapEnd], ∀ x, a ≤ x →
    x < a + sizeofStructMem → ¬ InPayload st.heap p x
  inside : ∀ p ∈ st.live, ∀ x, InPayload st.heap p x → st.heap.heapPtr ≤ x ∧ x < st.heap.heapEnd

theorem live_iff {st : State} {p : Nat} (hlive : st.live.Perm (payloads st.heap.heapPtr l)) :
    p ∈ st.live ↔ ∃ o c, (o, c) ∈ blocks 0 l ∧ p = st.heap.item o + 16 := by
  rw [hlive.mem_iff]
  exact mem_addresses

theorem Inv.separated {st : State} (hI : Inv st) : ∃ offs, Separated st offs := by
  obtain ⟨l, L, hlive⟩ := hI
  have hend := L.end_eq
  have hspan := L.span_eq
  refine ⟨starts 0 l,
    { heap := L.wellFormed
      nodup := hlive.nodup_iff.mpr (nodup_addresses fun s hs => ?_)
      nonempty := fun p hp => ?_
      disjoint := fun p hp q hq hne x hx hx' => ?_
      headers := fun p hp a ha x h1 h2 hx => ?_
      inside := fun p hp x hx => ?_ }⟩
  · have := (L.sized s hs).1
    omega
  · obtain ⟨o, c, hb, rfl⟩ := (live_iff hlive).mp hp
    have := L.payload (o, c) hb
    exact (L.inPayload hb).mpr (by omega)
  · obtain ⟨o, c, hb, rfl⟩ := (live_iff hlive).mp hp
    obtain ⟨o', c', hb', rfl⟩ := (live_iff hlive).mp hq
    have hx := (L.inPayload hb).mp hx
    have hx' := (L.inPayload hb').mp hx'
    have hne' : (o, c) ≠ (o', c') := fun heq => hne (by rw [(Prod.mk.inj heq).1])
    have := blocks_apart hb hb' hne'
    unfold item at hx hx'
    dsimp only at this
    omega
  · obtain ⟨o, c, hb, rfl⟩ := (live_iff hlive).mp hp
    have hx := (L.inPayload hb).mp hx
    obtain ⟨pre, post, rfl, ho⟩ := mem_blocks.mp hb
    -- headers stand at the boundaries of the segments
    have hbound : ∃ d ∈ boundaries (pre ++ ⟨c, true⟩ :: post), a = st.heap.item d := by
      rcases List.mem_append.mp ha with ha | ha
      · obtain ⟨d, hd, rfl⟩ := List.mem_map.mp ha
        exact ⟨d, List.mem_append_left _ hd, rfl⟩
      · rw [List.mem_singleton.mp ha, L.toTiled.end_item]
        exact ⟨_, List.mem_append_right _ (by simp), rfl⟩
    obtain ⟨d, hd, rfl⟩ := hbound
    have := boundary_apart hd
    rw [show sizeofStructMem = 16 from rfl] at h2
    unfold item at *
    dsimp only at this
    omega
  · obtain ⟨o, c, hb, rfl⟩ := (live_iff hlive).mp hp
    have hx := (L.inPayload hb).mp hx
    have := (le_of_mem_blocks hb).2
    unfold item at hx
    dsimp only at this
    omega

-- --------
-- Steps
-- --------

/-- The block a step was given: the one resized, given back or written. -/
def Action.given : Action → Option Nat
  | .alloc _ _ => none
  | .realloc _ rmem _ => rmem
  | .free rmem => rmem
  | .write p _ _ => some p

/-- The block at `q` is still live, of the same extent and with the same bytes. -/
structure Kept (st st' : State) (q : Nat) : Prop where
  live : q ∈ st'.live
  extent : ∀ x, InPayload st'.heap q x ↔ InPayload st.heap q x
  bytes : ∀ x, InPayload st.heap q x → st'.heap.mem x = st.heap.mem x

/-- **One step** spares the blocks it was not given. -/
theorem step_spares {st st' : State} {a : Action} (L : Layout st.heap l)
    (hlive : st.live.Perm (payloads st.heap.heapPtr l)) (hs : Step st a st') :
    Spares st.heap st'.heap l fun o => st.heap.item o + 16 ∉ a.given := by
  cases hs with
  | alloc hcall => exact (alloc_spares L hcall).mono fun _ _ => trivial
  | @free rmem h' hmem hcall =>
    cases rmem with
    | none =>
      cases hcall
      exact Spares.refl L
    | some p =>
      obtain ⟨pre, n, post, rfl, rfl⟩ := live_block hlive (hmem p rfl)
      exact (free_spares L hcall).mono fun o hne ho => hne (by rw [ho]; rfl)
  | @realloc self rmem newsize r h' hmem hcall =>
    cases rmem with
    | some p =>
      obtain ⟨pre, n, post, rfl, rfl⟩ := live_block hlive (hmem p rfl)
      exact (realloc_spares L hcall).mono fun o hne ho => hne (by rw [ho]; rfl)
    | none =>
      rcases rtSmemRealloc_null hcall with ⟨rfl, rfl⟩ | halloc
      · exact Spares.refl L
      · exact (alloc_spares L halloc).mono fun _ _ => trivial
  | @write p y b hp h1 h2 =>
    obtain ⟨pre, n, post, rfl, rfl⟩ := live_block hlive hp
    have hb₁ : (span pre, n) ∈ blocks 0 (pre ++ ⟨n, true⟩ :: post) := by simp
    rw [L.next_block hb₁] at h2
    have hwrite := L.write (fun z => if z = y then b else st.heap.mem z) fun z hz =>
      if_neg (by omega)
    refine ⟨_, hwrite, rfl, fun o c hb hne => ⟨hb, fun z h3 h4 => if_neg ?_⟩⟩
    have := block_beside hb fun _ ho => hne (by rw [ho]; rfl)
    unfold item at *
    omega

theorem mem_without {st : State} {rmem : Option Nat} {q : Nat} (hq : q ∈ st.live)
    (hne : q ∉ rmem) : q ∈ st.without rmem := by
  cases rmem with
  | none => exact hq
  | some p => exact (List.mem_erase_of_ne fun heq => hne (by rw [heq]; rfl)).mpr hq

/-- A live block that a step was not given stays live. -/
theorem step_live {st st' : State} {a : Action} {q : Nat} (hs : Step st a st')
    (hq : q ∈ st.live) (hne : q ∉ a.given) : q ∈ st'.live := by
  cases hs with
  | alloc _ => exact List.mem_append_right _ hq
  | free _ _ => exact mem_without hq hne
  | @realloc self rmem newsize r h' _ _ =>
    cases r with
    | some p => exact List.mem_cons_of_mem _ (mem_without hq hne)
    | none =>
      dsimp only
      rw [State.resized]
      split
      · exact mem_without hq hne
      · exact hq
  | write _ _ _ => exact hq

/-- **One step** keeps every live block it was not given. -/
theorem step_keeps {st st' : State} {a : Action} (hI : Inv st) (hs : Step st a st') :
    ∀ q ∈ st.live, q ∉ a.given → Kept st st' q := by
  obtain ⟨l, L, hlive⟩ := hI
  intro q hq hne
  obtain ⟨l', L', hheap, hspare⟩ := step_spares L hlive hs
  have hq' := step_live hs hq hne
  obtain ⟨o, c, hb, rfl⟩ := (live_iff hlive).mp hq
  obtain ⟨hb', hsame⟩ := hspare o c hb hne
  have hitem : st'.heap.item o = st.heap.item o := by rw [item, item, hheap]
  refine ⟨hq', fun x => ?_, fun x hx => ?_⟩
  · rw [L.inPayload hb, ← hitem, L'.inPayload hb']
  · obtain ⟨h1, h2⟩ := (L.inPayload hb).mp hx
    exact hsame x h1 h2

-- --------
-- Resizing
-- --------

/-- The block that was moved to, in the layout the call leaves. -/
theorem Moved.block {k q size : Nat} {pre' post' pre₁ post₁ : List Seg}
    (M : Moved h h' pre n q size pre' k post' pre₁ post₁)
    (hl : pre ++ ⟨n, true⟩ :: post = pre' ++ ⟨k, false⟩ :: post') (hn : 0 < n) :
    ∃ b, (span pre', b) ∈ blocks 0 (release pre₁ n post₁) ∧ roundSize size + 16 ≤ b ∧
      q = h'.item (span pre') + 16 := by
  have hfits := M.fits
  obtain ⟨b, ts, hcarve, hle⟩ := carve_head 28 M.fits
  have hnew : (span pre', b) ∈ blocks 0 (pre₁ ++ ⟨n, true⟩ :: post₁) := by
    rw [← M.split_eq, hcarve]
    simp
  -- it is not where the old one was
  have hb : (span pre, n) ∈ blocks 0 (pre' ++ ⟨k, false⟩ :: post') := by
    rw [← hl]
    simp
  have hbeside := block_beside hb (by simp)
  refine ⟨b, release_keeps hnew (by rw [M.span_eq]; omega), hle, ?_⟩
  rw [M.ptr_eq, item, item, M.same.heap_eq]

/-- **A resized block** starts with the bytes of the old one. -/
theorem rtSmemRealloc_copied {self : Option (List UInt8)} {newsize q i : Nat}
    (L : Layout h (pre ++ ⟨n, true⟩ :: post)) (hlt : newsize < 2 ^ 32)
    (hcall : h.rtSmemRealloc self (some (h.item (span pre) + 16)) newsize = .ok (some q, h'))
    (hi : i < n - 16) (hi' : i < newsize) :
    InPayload h' q (q + i) ∧ h'.mem (q + i) = h.mem (h.item (span pre) + 16 + i) := by
  -- a request that wraps rounds to zero, and has a null result
  have hround : rtAlign newsize ≠ 0 → newsize ≤ rtAlign newsize := by
    intro hne
    by_contra hcon
    refine hne (rtAlign_wrap ?_ hlt)
    by_contra hle
    exact hcon (rtAlign_of_le (by omega)).1
  have hb : (span pre, n) ∈ blocks 0 (pre ++ ⟨n, true⟩ :: post) := by simp
  rcases rtSmemRealloc_spec L self newsize with ⟨hres, _⟩ | ⟨_, h₁, hres, F⟩ | ⟨_, hres⟩ |
    ⟨h0, hroom, h₁, hres, S⟩ | ⟨hres, _⟩ | ⟨h0, q, h₁, pre', k, post', pre₁, post₁, hres, hl, M⟩
  all_goals
    rw [hres] at hcall
    cases hcall
  · exact ⟨(L.inPayload hb).mpr (by omega), rfl⟩
  · -- in place: the header of what was cut off stands behind the new payload
    have hle := hround (by omega)
    have hb' : (span pre, rtAlign newsize + 16) ∈
        blocks 0 (cutBlock pre (rtAlign newsize + 16) n post) := by simp [cutBlock]
    have hitem : h'.item (span pre) = h.item (span pre) := by rw [item, item, S.same.heap_eq]
    refine ⟨?_, S.frame.block hb' _ (by omega) (by omega)⟩
    rw [← hitem, S.layout.inPayload (cut_block ..)]
    omega
  · have hle := hround (by omega)
    refine ⟨?_, M.copied i hi (by omega)⟩
    have hn := L.payload _ hb
    have hsize := rtAlign_le_roundSize (rtAlign newsize)
    rw [rtAlign_of_mod (rtAlign_mod newsize) (rtAlign_lt newsize)] at hsize
    obtain ⟨b, hnew, hle', hitem⟩ := M.block hl (by dsimp only at hn; omega)
    rw [hitem, M.layout.inPayload hnew]
    omega

/-- **Payloads along a run**: where they are, what a step may change, what resizing copies. -/
theorem rtSmem_frames {m : ByteMem} {beginAddr size : Nat} {st : State}
    (hinit : rtSmemInit m beginAddr size = some h) (hrun : Runs Step Runs.always ⟨h, []⟩ st) :
    (∃ offs, Separated st offs) ∧
      (∀ a st', Step st a st' → ∀ q ∈ st.live, q ∉ a.given → Kept st st' q) ∧
      ∀ self newsize, ∀ p ∈ st.live, ∀ q h', newsize < 2 ^ 32 →
        st.heap.rtSmemRealloc self (some p) newsize = .ok (some q, h') →
        ∀ i, i < blockSize st.heap p → i < newsize →
          InPayload h' q (q + i) ∧ h'.mem (q + i) = st.heap.mem (p + i) := by
  have hI : Inv st := by
    obtain ⟨n, L⟩ := rtSmemInit_spec hinit
    exact hrun.invariant (fun s a s' hs _ h => inv_step s a s' hs h)
      ⟨_, L, by simp [payloads]⟩
  refine ⟨hI.separated, fun a st' hs => step_keeps hI hs, ?_⟩
  intro self newsize p hp q h' hlt hcall i hi hi'
  obtain ⟨l, L, hlive⟩ := hI
  obtain ⟨pre, n, post, rfl, rfl⟩ := live_block hlive hp
  rw [L.blockSize_eq (o := span pre) (c := n) (by simp)] at hi
  exact rtSmemRealloc_copied L hlt hcall hi hi'

/-- Two blocks of a heap of one kilobyte: the second one keeps clear of the first. -/
theorem rtSmem_frames_two :
    ∃ h st, rtSmemInit (fun _ => 0) 4096 1024 = some h ∧ Runs Step Runs.always ⟨h, []⟩ st ∧
      st.live = [4292, 4176] ∧ ∀ x, InPayload st.heap 4292 x → ¬ InPayload st.heap 4176 x := by
  have hinit : rtSmemInit (fun _ => 0) 4096 1024 =
      some ((rtSmemInit (fun _ => 0) 4096 1024).get rfl) := rfl
  have hrun : Runs Step Runs.always
      ⟨(rtSmemInit (fun _ => 0) 4096 1024).get rfl, []⟩ ⟨_, [4292, 4176]⟩ :=
    (Runs.refl.snoc trivial (@Step.alloc _ none 100 (some 4176) _ rfl)).snoc trivial
      (@Step.alloc _ none 20 (some 4292) _ rfl)
  obtain ⟨⟨offs, hsep⟩, _⟩ := rtSmem_frames hinit hrun
  exact ⟨_, _, hinit, hrun, rfl,
    hsep.disjoint 4292 (by simp) 4176 (by simp) (by decide)⟩

end RTThread.SmallMem
