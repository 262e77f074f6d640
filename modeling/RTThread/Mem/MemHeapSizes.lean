import RTThread.Mem.MemHeapFrame

/-!
# Sizes of memory-heap blocks

Which requests get as many bytes as they ask for, as in the small-memory heap:
a non-null result must be a block of at least that size, and a resizing with a
null result must leave the block as it is (`AllocMeets`, `ReallocMeets`).

A request above `2^32 - 4` is rounded to twelve bytes: an allocation hands them
out when it can (`rtMemheapAlloc_meets`), a resizing always returns the block
(`rtMemheapRealloc_meets`). The twelve sizes below these wrap the test for
growing, which then succeeds with any free item behind the block.
-/

namespace RTThread.Memheap

open ByteMem Tiling CircularList

variable {h h' : Memheap} {l pre post : List Seg} {fl : List Nat} {n o c p size : Nat}

/-- A block was handed out at `p`: its header is that of a used item. -/
def IsBlock (h : Memheap) (p : Nat) : Prop :=
  ∃ l fl, WellFormed h l fl ∧ ∃ o c, (o, c) ∈ blocks 0 l ∧ p = h.startAddr + o + memheapSize

/-- The result `r` of a request for `n` bytes is null or a block of at least that size. -/
def Serves (h : Memheap) (r : Option Nat) (n : Nat) : Prop :=
  ∀ p ∈ r, IsBlock h p ∧ n ≤ blockSize h p

/-- The block at `p` is still allocated, with the bytes it held. -/
def StillThere (h h' : Memheap) (p : Nat) : Prop :=
  IsBlock h' p ∧ ∀ x, InPayload h p x → InPayload h' p x ∧ h'.mem x = h.mem x

/-- `rt_memheap_alloc` returns, and serves the request. -/
def AllocMeets (h : Memheap) (self : Option (List UInt8)) (size : Nat) : Prop :=
  ∃ r h', h.rtMemheapAlloc self size = .ok (r, h') ∧ Serves h' r size

/-- `rt_memheap_realloc` returns, and serves the request or leaves the block alone. -/
def ReallocMeets (h : Memheap) (self : Option (List UInt8)) (ptr : Option Nat)
    (newsize : Nat) : Prop :=
  ∃ r h', h.rtMemheapRealloc self ptr newsize = .ok (r, h') ∧ Serves h' r newsize ∧
    (r = none → newsize ≠ 0 → ∀ p ∈ ptr, StillThere h h' p)

theorem serves_none : Serves h none n := by simp [Serves]

theorem Layout.serves (L : Layout h l fl) (hb : (o, c) ∈ blocks 0 l) (hn : n + 28 ≤ c)
    (hp : p = h.startAddr + o + 28) : Serves h (some p) n := by
  subst hp
  rintro q hq
  cases hq
  refine ⟨⟨l, fl, L.wellFormed, o, c, hb, rfl⟩, ?_⟩
  rw [L.blockSize_eq hb]
  omega

theorem not_serves (hp : 28 ≤ p) (hn : 2 ^ 32 - 28 ≤ n) : ¬ Serves h (some p) n := by
  intro hs
  have hsize := (hs p rfl).2
  have hlt := get_lt h .next (p - memheapSize)
  rw [blockSize] at hsize
  omega

-- --------
-- Allocation
-- --------

theorem Allocated.serves (A : Allocated h pre n post size p h') : Serves h' (some p) size := by
  obtain ⟨fl', L'⟩ := A.layout
  obtain ⟨b, ts, hcarve, hb⟩ := carve_head 40 A.room
  have hmem : (span pre, b) ∈ blocks 0 (pre ++ carve (size + 28) 40 n ++ post) := by
    rw [hcarve]
    simp
  exact L'.serves hmem hb (by rw [A.ptr_eq, A.touch.startAddr_eq])

theorem Serves.mono {r : Option Nat} {m : Nat} (hs : Serves h r n) (hle : m ≤ n) :
    Serves h r m :=
  fun p hp => ⟨(hs p hp).1, Nat.le_trans hle (hs p hp).2⟩

/-- Every free item has room for twelve bytes. -/
theorem rtMemheapAlloc_twelve (L : Layout h l fl) (self : Option (List UInt8))
    (hround : roundSize size = 12) (hfree : 12 < h.availableSize) :
    ∃ p h', h.rtMemheapAlloc self size = .ok (some p, h') ∧ 28 ≤ p := by
  rcases rtMemheapAlloc_spec L self size with ⟨_, hfull | hsmall⟩ |
    ⟨_, pre, n, post, p, h', rfl, halloc, A⟩
  · omega
  · -- a heap with free bytes has a free item
    rw [L.available_eq] at hfree
    cases hg : gaps h.startAddr l with
    | nil =>
      rw [hg, gapBytes_nil] at hfree
      omega
    | cons g gs =>
      have hmem : (g.1, g.2) ∈ gaps h.startAddr l := by simp [hg]
      obtain ⟨pre, post, rfl, _⟩ := mem_gaps.mp hmem
      have hlen : 40 ≤ g.2 := L.sized ⟨g.2, false⟩ (by simp)
      have := hsmall _ hmem
      dsimp only at this
      omega
  · exact ⟨p, h', halloc, by rw [A.ptr_eq]; omega⟩

/-- **Allocation** serves a request unless it is rounded to twelve bytes that are there. -/
theorem rtMemheapAlloc_meets (L : Layout h l fl) (self : Option (List UInt8))
    (hsize : size < 2 ^ 32) :
    AllocMeets h self size ↔ size ≤ 2 ^ 32 - 4 ∨ h.availableSize ≤ 12 := by
  by_cases hle : size ≤ 2 ^ 32 - 4
  · refine iff_of_true ?_ (Or.inl hle)
    rcases rtMemheapAlloc_spec L self size with ⟨hnull, _⟩ |
      ⟨_, pre, n, post, p, h', rfl, halloc, A⟩
    · exact ⟨none, h, hnull, serves_none⟩
    · exact ⟨some p, h', halloc, A.serves.mono (roundSize_of_le hle)⟩
  have hround := roundSize_wrap (show 2 ^ 32 - 4 < size by omega) hsize
  by_cases hfree : h.availableSize ≤ 12
  · refine iff_of_true ⟨none, h, ?_, serves_none⟩ (Or.inr hfree)
    rw [rtMemheapAlloc, hround]
    exact if_neg (by omega)
  · refine iff_of_false ?_ (by omega)
    obtain ⟨p, h', halloc, hp⟩ := rtMemheapAlloc_twelve L self hround (by omega)
    rintro ⟨r, h₁, hcall, hserves⟩
    rw [halloc] at hcall
    cases hcall
    exact not_serves hp (by omega) hserves

-- --------
-- Resizing
-- --------

/-- **Resizing the null pointer** is an allocation of the rounded size. -/
theorem rtMemheapRealloc_meets_null (L : Layout h l fl) (self : Option (List UInt8))
    (hsize : size < 2 ^ 32) :
    ReallocMeets h self none size ↔ size ≤ 2 ^ 32 - 4 ∨ h.availableSize ≤ 12 := by
  by_cases h0 : size = 0
  · refine iff_of_true ⟨none, h, ?_, serves_none, by simp⟩ (Or.inl (by omega))
    rw [rtMemheapRealloc, if_pos h0]
    rfl
  have hcall : h.rtMemheapRealloc self none size = h.rtMemheapAlloc self (roundSize size) := by
    rw [rtMemheapRealloc, if_neg h0]
  have hidem := roundSize_idem size
  rw [ReallocMeets, hcall]
  rcases rtMemheapAlloc_spec L self (roundSize size) with ⟨hnull, hwhy⟩ |
    ⟨hroom, pre, n, post, p, h', rfl, halloc, A⟩
  · refine iff_of_true ⟨none, h, hnull, serves_none, by simp⟩ ?_
    by_contra hcon
    rw [not_or] at hcon
    have hround := roundSize_wrap (show 2 ^ 32 - 4 < size by omega) hsize
    obtain ⟨p, h', halloc, _⟩ :=
      rtMemheapAlloc_twelve L self (hidem.trans hround) (by omega)
    rw [hnull] at halloc
    cases halloc
  · rw [hidem] at A hroom
    have hge := roundSize_ge size
    constructor
    · rintro ⟨r, h₁, hres, hserves, _⟩
      rw [halloc] at hres
      cases hres
      by_contra hcon
      exact not_serves (by rw [A.ptr_eq]; omega) (by omega) hserves
    · rintro (hle | hfull)
      · exact ⟨some p, h', halloc, A.serves.mono (roundSize_of_le hle), by simp⟩
      · omega

/-- **Resizing a block** serves a request, or leaves the block alone, unless the request is rounded
to twelve bytes, or wraps the test for growing into a free item behind the block. -/
theorem rtMemheapRealloc_meets (L : Layout h (pre ++ ⟨n, true⟩ :: post) fl)
    (self : Option (List UInt8)) (hsize : size < 2 ^ 32) :
    ReallocMeets h self (some (h.startAddr + span pre + 28)) size ↔
      size ≤ 2 ^ 32 - 4 ∧
        ¬ (Wraps size ∧ h.memheapIsUsed (h.get .next (h.startAddr + span pre)) = false) := by
  have hb : (span pre, n) ∈ blocks 0 (pre ++ ⟨n, true⟩ :: post) := by simp
  obtain ⟨hn, _⟩ := L.extent
  have hge := roundSize_ge size
  rw [L.next_eq, L.next_used, Wraps, show memheapMinialloc = 12 from rfl]
  by_cases hwrap : 2 ^ 32 ≤ roundSize size + 12 ∧ (post.head?.map Seg.used).getD true = false
  · -- grown by wrapping: the new `next` does not lie behind the header
    refine iff_of_false ?_ fun hc => hc.2 hwrap
    obtain ⟨hneed, hfree⟩ := hwrap
    obtain ⟨k, ts, rfl⟩ : ∃ k ts, post = ⟨k, false⟩ :: ts := by
      cases post with
      | nil => cases hfree
      | cons s ts =>
        obtain ⟨k, used⟩ := s
        obtain rfl : used = false := hfree
        exact ⟨k, ts, rfl⟩
    have hcall := rtMemheapRealloc_wraps L self hneed
    have hlt := roundSize_lt size
    have hnext := (growBlock_wraps L rfl hneed hlt (roundSize_mod size)).1
    rintro ⟨r, h₁, hres, hserves, _⟩
    rw [hcall] at hres
    cases hres
    have hsize' := (hserves _ rfl).2
    rw [blockSize, Nat.add_sub_cancel, hnext] at hsize'
    have hpos : size ≠ 0 := by
      rintro rfl
      exact absurd hneed (by decide)
    omega
  rw [and_iff_left hwrap]
  have hno : roundSize size + 12 < 2 ^ 32 ∨ (post.head?.map Seg.used).getD true = true := by
    by_contra hcon
    rw [not_or] at hcon
    exact hwrap ⟨by omega, by simpa using hcon.2⟩
  by_cases hle : size ≤ 2 ^ 32 - 4
  swap
  · -- rounded to twelve: every block has as many bytes
    refine iff_of_false ?_ hle
    have hround := roundSize_wrap (show 2 ^ 32 - 4 < size by omega) hsize
    rintro ⟨r, h₁, hres, hserves, _⟩
    rcases rtMemheapRealloc_spec L self size hno with ⟨h0, _⟩ | ⟨_, hspec⟩
    · omega
    rcases hspec with ⟨_, hcall⟩ | ⟨h₂, hcall, S⟩ | ⟨h₂, k, ts, rfl, hcall, G⟩ | ⟨hsmall, _⟩ |
      ⟨hsmall, _⟩
    · rw [hcall] at hres
      cases hres
      exact not_serves (by omega) (by omega) hserves
    · rw [hcall] at hres
      cases hres
      exact not_serves (by omega) (by omega) hserves
    · have := G.room
      omega
    · omega
    · omega
  refine iff_of_true ?_ hle
  have hround := roundSize_of_le hle
  rcases rtMemheapRealloc_spec L self size hno with ⟨h0, h₁, hcall, _⟩ | ⟨_, hspec⟩
  · exact ⟨_, _, hcall, serves_none, fun _ hne => absurd h0 hne⟩
  rcases hspec with ⟨hkeep, hcall⟩ | ⟨h₁, hcall, S⟩ | ⟨h₁, k, ts, rfl, hcall, G⟩ | ⟨_, hcall⟩ |
    ⟨_, q, h₁, pre', k, post', pre₁, post₁, hcall, hl, M⟩
  · exact ⟨_, _, hcall, L.serves hb (by omega) rfl, by simp⟩
  · obtain ⟨fl', L'⟩ := S.layout
    exact ⟨_, _, hcall, L'.serves (cut_block ..) (by omega) (by rw [S.touch.startAddr_eq]),
      by simp⟩
  · obtain ⟨fl', L'⟩ := G.layout
    have hb' : (span pre, roundSize size + 28) ∈ blocks 0
        (grown pre n (roundSize size + 28) k ts) := by simp [grown]
    exact ⟨_, _, hcall, L'.serves hb' (by omega) (by rw [G.touch.startAddr_eq]), by simp⟩
  · refine ⟨_, _, hcall, serves_none, fun _ _ p hp => ?_⟩
    cases hp
    exact ⟨⟨_, fl, L.wellFormed, _, _, hb, rfl⟩, fun _ hx => ⟨hx, rfl⟩⟩
  · obtain ⟨fl', L'⟩ := M.layout
    obtain ⟨b, hnew, hle', hq⟩ := M.block hl (by omega)
    exact ⟨_, _, hcall, L'.serves hnew (by omega) hq, by simp⟩

end RTThread.Memheap
