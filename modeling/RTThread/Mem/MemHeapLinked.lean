import RTThread.Mem.MemHeapEdit

/-!
# Block list and free list together

`Linked h l fl` says that both lists of the heap are in order, the free list
being any list of items: between the stores of a call the free list is behind
the block list or ahead of it. The lemmas chain: each takes a linked heap to a
linked heap, and `Touch` records that only items were written.
-/

namespace RTThread.Memheap

open ByteMem Tiling CircularList

variable {h h' h'' : Memheap} {f : Field} {v x p : Nat} {l pre post : List Seg}
  {S S' fl : List Nat}

theorem mem_middle {a b : List Nat} {y : Nat} (h : y ∈ a ++ b) : y ∈ a ++ x :: b := by
  simp only [List.mem_append, List.mem_cons] at h ⊢
  tauto

/-- Any word of the items `S` may differ, nothing else. -/
abbrev Touch (S : List Nat) (h h' : Memheap) : Prop :=
  Edit [.magic, .poolPtr, .next, .prev, .nextFree, .prevFree] S h h'

theorem Touch.comp (e : Touch S h h') (e' : Touch S h' h'') : Touch S h h'' :=
  (Edit.trans e e').mono (by decide)

theorem Touch.widen (e : Touch S h h') (hsub : S ⊆ S') : Touch S' h h' :=
  { e with
    keep := fun b hb f hf => absurd (by cases f <;> decide) hf
    frame := fun x hx => e.frame x fun a ha => hx a (hsub ha) }

/-- Both lists are in order, the free list being any list of items. -/
structure Linked (h : Memheap) (l : List Seg) (fl : List Nat) : Prop extends Tiled h l where
  free : FreeRing h fl
  nodup : fl.Nodup
  sub : ∀ y ∈ fl, y ∈ edges h.startAddr l

theorem Linked.header_notMem (K : Linked h l fl) : h.freeHeader ∉ fl := fun hmem =>
  K.toGeometry.header_notMem (K.sub _ hmem)

theorem Linked.ring_nodup (K : Linked h l fl) : (h.freeHeader :: fl).Nodup :=
  List.nodup_cons.mpr ⟨K.header_notMem, K.nodup⟩

theorem Linked.ring_sub (K : Linked h l fl) : ∀ y ∈ h.freeHeader :: fl, y ∈ h.items l := by
  intro y hy
  rcases List.mem_cons.mp hy with rfl | hy
  · exact List.mem_cons_self
  · exact edge_mem_items (K.sub y hy)

theorem Linked.edit (K : Linked h l fl) (e : Edit [] S h h') (hsub : h.items l ⊆ S) :
    Linked h' l fl where
  toTiled := K.toTiled.edit (e.mono (by simp)) hsub
  free := K.free.edit (e.mono (by simp)) fun y hy => hsub (K.ring_sub y hy)
  nodup := K.nodup
  sub := by
    rw [e.startAddr_eq]
    exact K.sub

theorem Linked.name (K : Linked h l fl) (name : List UInt8) (hx : x ∈ h.items l) :
    Touch (h.items l) h (h.setOwnerThreadName x name) ∧
      Linked (h.setOwnerThreadName x name) l fl := by
  have e : Edit [] (h.items l) h (h.setOwnerThreadName x name) :=
    edit_name K.toGeometry.items_apart hx
  exact ⟨e.mono (by simp), K.edit e (fun y hy => hy)⟩

theorem Linked.available (K : Linked h l fl) :
    Touch (h.items l) h { h with availableSize := v } ∧
      Linked { h with availableSize := v } l fl :=
  ⟨edit_available.mono (by simp), K.edit (S := h.items l) edit_available fun y hy => hy⟩

theorem Linked.setAvailable (K : Linked h l fl) :
    Touch (h.items l) h (h.setAvailable v) ∧ Linked (h.setAvailable v) l fl :=
  ⟨edit_setAvailable.mono (by simp), K.edit (S := h.items l) edit_setAvailable fun y hy => hy⟩

theorem Linked.mark {n : Nat} {u : Bool} (w : Bool) (K : Linked h (pre ++ ⟨n, u⟩ :: post) fl)
    (hp : p = h.startAddr + span pre) :
    Touch (h.items (pre ++ ⟨n, u⟩ :: post)) h (h.set .magic p (magicWord w)) ∧
      Linked (h.set .magic p (magicWord w)) (pre ++ ⟨n, w⟩ :: post) fl := by
  subst hp
  obtain ⟨e, T⟩ := mark_spec w K.toTiled
  refine ⟨e.mono (by decide), T, K.free.edit (e.mono (by decide)) K.ring_sub, K.nodup, ?_⟩
  intro y hy
  have := K.sub y hy
  rwa [edges_item] at this ⊢

theorem Linked.removeFree {u w : List Nat} (K : Linked h l (u ++ x :: w)) :
    Touch (h.items l) h (h.removeFree x) ∧ Linked (h.removeFree x) l (u ++ w) := by
  obtain ⟨e, F⟩ := removeFree_spec K.toGeometry.items_apart K.free K.ring_nodup K.ring_sub
  refine ⟨e.mono (by decide), K.toTiled.edit e (fun y hy => hy), F, ?_, ?_⟩
  · exact (List.nodup_middle.mp K.nodup).of_cons
  · rw [e.startAddr_eq]
    exact fun y hy => K.sub y (mem_middle hy)

/-- Clearing a link of an item that is in no free list. -/
theorem Linked.clear (K : Linked h l fl) (hx : x ∈ edges h.startAddr l) (hxn : x ∉ fl)
    (hf : f = .nextFree ∨ f = .prevFree) :
    Touch (h.items l) h (h.set f x 0) ∧ Linked (h.set f x 0) l fl := by
  have hS := K.toGeometry.items_apart
  have hxS : x ∈ h.items l := edge_mem_items hx
  have e : Edit [f] (h.items l) h (h.set f x 0) := edit_set hS hxS (by decide)
  have hxh : x ≠ h.freeHeader := by
    rintro rfl
    exact K.toGeometry.header_notMem hx
  have hkeep : ∀ g, ∀ y ∈ h.freeHeader :: fl, (h.set f x 0).get g y = h.get g y := by
    intro g y hy
    rw [get_set_mem hS hxS (K.ring_sub y hy) (by decide), if_neg]
    rintro ⟨_, rfl⟩
    rcases List.mem_cons.mp hy with hy | hy
    · exact hxh hy
    · exact hxn hy
  refine ⟨e.mono ?_, K.toTiled.edit (e.mono ?_) (fun y hy => hy), ?_, K.nodup, K.sub⟩
  · rcases hf with rfl | rfl <;> decide
  · rcases hf with rfl | rfl <;> decide
  · exact Circular.congr K.free (hkeep _) (hkeep _)

/-- Both insertions. -/
theorem Linked.inserted (K : Linked h l fl) (I : Inserted (h.items l) h h' x)
    (hx : x ∈ edges h.startAddr l) (hxn : x ∉ fl) :
    Touch (h.items l) h h' ∧ Linked h' l (x :: fl) := by
  have hxring : x ∉ h.freeHeader :: fl := by
    intro hmem
    rcases List.mem_cons.mp hmem with rfl | hmem
    · exact K.toGeometry.header_notMem hx
    · exact hxn hmem
  refine ⟨I.edit.mono (by decide), K.toTiled.edit I.edit (fun y hy => hy),
    I.free K.free K.ring_nodup K.ring_sub (edge_mem_items hx) hxring,
    List.nodup_cons.mpr ⟨hxn, K.nodup⟩, ?_⟩
  rw [I.edit.startAddr_eq]
  intro y hy
  rcases List.mem_cons.mp hy with rfl | hy
  · exact hx
  · exact K.sub y hy

theorem Linked.insertFree (K : Linked h l fl) (hx : x ∈ edges h.startAddr l) (hxn : x ∉ fl) :
    Touch (h.items l) h (h.insertFree x) ∧ Linked (h.insertFree x) l (x :: fl) := by
  obtain ⟨hnm, _⟩ := Circular.next_mem K.free (a := h.freeHeader) (by simp)
  have hx32 := K.toGeometry.item_lt (edge_mem_items hx)
  have hh32 := K.toGeometry.header_top
  refine K.inserted (insertFree_spec K.toGeometry.items_apart K.freeList_eq ?_
    (edge_mem_items hx) (K.ring_sub _ hnm) ?_ (by omega) (by omega)) hx hxn
  · exact K.ring_sub _ (by simp)
  · rintro rfl
    exact K.toGeometry.header_notMem hx

theorem Linked.insertHeader (K : Linked h l fl) (hx : x ∈ edges h.startAddr l) (hxn : x ∉ fl) :
    Touch (h.items l) h (h.insertHeader x) ∧ Linked (h.insertHeader x) l (x :: fl) := by
  obtain ⟨hnm, hback⟩ := Circular.next_mem K.free (a := h.freeHeader) (by simp)
  have hx32 := K.toGeometry.item_lt (edge_mem_items hx)
  have hh32 := K.toGeometry.header_top
  refine K.inserted (insertHeader_spec K.toGeometry.items_apart K.freeList_eq ?_
    (edge_mem_items hx) (K.ring_sub _ hnm) hback ?_ (by omega) (by omega)) hx hxn
  · exact K.ring_sub _ (by simp)
  · intro he
    rw [← he] at hnm
    rcases List.mem_cons.mp hnm with rfl | hmem
    · exact K.toGeometry.header_notMem hx
    · exact hxn hmem

theorem edges_split {off n c : Nat} {u w : Bool} (u' : Bool) (hc : c ≤ n) :
    ∀ y, y ∈ edges off (pre ++ ⟨c, u⟩ :: ⟨n - c, w⟩ :: post) ↔
      y = off + span pre + c ∨ y ∈ edges off (pre ++ ⟨n, u'⟩ :: post) := by
  intro y
  rw [edges_item, edges_item, edges_cons]
  dsimp only
  rw [show off + span pre + c + (n - c) = off + span pre + n by omega]
  simp only [List.mem_append, List.mem_cons]
  tauto

/-- The new edge was inside the segment. -/
theorem split_notMem {off n c : Nat} {u : Bool} (hc : 0 < c) (hcn : c < n) :
    off + span pre + c ∉ edges off (pre ++ ⟨n, u⟩ :: post) := by
  rw [edges_item]
  intro hmem
  rcases List.mem_append.mp hmem with hmem | hmem
  · have hb : off + span pre + c ∈ edges off pre := by
      rw [edges_eq]
      exact List.mem_append_left _ hmem
    have := (edge_bounds hb).2
    omega
  · rcases List.mem_cons.mp hmem with hmem | hmem
    · omega
    · have := (edge_bounds hmem).1
      omega

theorem Linked.split {n c : Nat} {u : Bool} (K : Linked h (pre ++ ⟨n, u⟩ :: post) fl)
    (hp : p = h.startAddr + span pre) (hc : 40 ≤ c) (hr : c + 40 ≤ n) :
    Touch (h.items (pre ++ ⟨c, u⟩ :: ⟨n - c, false⟩ :: post)) h (h.splitBlock p (p + c)) ∧
      Linked (h.splitBlock p (p + c)) (pre ++ ⟨c, u⟩ :: ⟨n - c, false⟩ :: post) fl := by
  subst hp
  obtain ⟨e, T⟩ := splitBlock_spec K.toTiled hc hr
  have hsub : ∀ y ∈ edges h.startAddr (pre ++ ⟨n, u⟩ :: post),
      y ∈ edges h.startAddr (pre ++ ⟨c, u⟩ :: ⟨n - c, false⟩ :: post) := fun y hy =>
    (edges_split _ (by omega) y).mpr (Or.inr hy)
  refine ⟨e.mono (by decide), T, K.free.edit e ?_, K.nodup, ?_⟩
  · intro y hy
    rcases List.mem_cons.mp hy with rfl | hy
    · exact List.mem_cons_self
    · exact edge_mem_items (hsub y (K.sub y hy))
  · rw [e.startAddr_eq]
    exact fun y hy => hsub y (K.sub y hy)

theorem edges_join {off n k : Nat} {u w u' : Bool} :
    ∀ y, y ∈ edges off (pre ++ ⟨n, u⟩ :: ⟨k, w⟩ :: post) ↔
      y = off + span pre + n ∨ y ∈ edges off (pre ++ ⟨n + k, u'⟩ :: post) := by
  intro y
  rw [edges_item, edges_item, edges_cons, ← Nat.add_assoc]
  simp only [List.mem_append, List.mem_cons]
  tauto

theorem items_join (h : Memheap) (pre : List Seg) (n k : Nat) (u w u' : Bool) (post : List Seg) :
    h.items (pre ++ ⟨n + k, u'⟩ :: post) ⊆ h.items (pre ++ ⟨n, u⟩ :: ⟨k, w⟩ :: post) := by
  intro y hy
  rcases List.mem_cons.mp hy with rfl | hy
  · exact List.mem_cons_self
  · exact edge_mem_items ((edges_join y).mpr (Or.inr hy))

section Join

variable {n k : Nat} {u w : Bool} {fa fb : List Nat}

theorem Linked.joined_sub (K : Linked h (pre ++ ⟨n, u⟩ :: ⟨k, w⟩ :: post)
      (fa ++ (h.startAddr + span pre + n) :: fb)) :
    ∀ y ∈ fa ++ fb, y ∈ edges h.startAddr (pre ++ ⟨n + k, u⟩ :: post) := by
  intro y hy
  rcases (edges_join y).mp (K.sub y (mem_middle hy)) with rfl | h
  · -- the list names an item once
    exact absurd hy (List.nodup_cons.mp (List.nodup_middle.mp K.nodup)).1
  · exact h

/-- Merging with a free neighbour behind, which leaves the free list. -/
theorem Linked.mergeRight
    (K : Linked h (pre ++ ⟨n, u⟩ :: ⟨k, w⟩ :: post) (fa ++ (p + n) :: fb))
    (hp : p = h.startAddr + span pre) :
    Touch (h.items (pre ++ ⟨n, u⟩ :: ⟨k, w⟩ :: post)) h
        ((h.mergeBlock p (p + n)).removeFree (p + n)) ∧
      Linked ((h.mergeBlock p (p + n)).removeFree (p + n)) (pre ++ ⟨n + k, u⟩ :: post)
        (fa ++ fb) := by
  subst hp
  obtain ⟨e, T⟩ := mergeBlock_spec K.toTiled
  have F := K.free.edit (e.mono (by decide)) K.ring_sub
  have hheader : ∀ g : Memheap, g.memheap = h.memheap → g.freeHeader = h.freeHeader :=
    fun g hg => by rw [freeHeader, hg]; rfl
  have hhead := hheader _ e.memheap_eq
  obtain ⟨e', F'⟩ := removeFree_spec K.toGeometry.items_apart F (hhead ▸ K.ring_nodup)
    (hhead ▸ K.ring_sub)
  have hsub : (h.mergeBlock (h.startAddr + span pre) (h.startAddr + span pre + n)).items
      (pre ++ ⟨n + k, u⟩ :: post) ⊆ h.items (pre ++ ⟨n, u⟩ :: ⟨k, w⟩ :: post) := by
    rw [e.items_eq]
    exact items_join ..
  refine ⟨Touch.comp (e.mono (by decide)) (e'.mono (by decide)), T.edit e' hsub, F', ?_, ?_⟩
  · exact (List.nodup_middle.mp K.nodup).of_cons
  · rw [e'.startAddr_eq, e.startAddr_eq]
    exact K.joined_sub

/-- `_remove_next_ptr` on a free neighbour behind. -/
theorem Linked.removeNextPtr
    (K : Linked h (pre ++ ⟨n, u⟩ :: ⟨k, w⟩ :: post) (fa ++ (p + n) :: fb))
    (hp : p = h.startAddr + span pre) :
    Touch (h.items (pre ++ ⟨n, u⟩ :: ⟨k, w⟩ :: post)) h (h.removeNextPtr (p + n)) ∧
      Linked (h.removeNextPtr (p + n)) (pre ++ ⟨n + k, u⟩ :: post) (fa ++ fb) := by
  subst hp
  obtain ⟨e, K₁⟩ := K.removeFree
  obtain ⟨h₁, hh₁⟩ : ∃ h₁, h₁ = h.removeFree (h.startAddr + span pre + n) := ⟨_, rfl⟩
  have hsub := K.joined_sub
  have hstart : h₁.startAddr = h.startAddr := by rw [hh₁, e.startAddr_eq]
  rw [← hh₁] at e K₁
  obtain ⟨hpS, hxS, hqS⟩ := K₁.toTiled.items_pair
  have hS := K₁.toGeometry.items_apart
  have hp32 := K₁.toGeometry.item_lt hpS
  have hnext := K₁.toTiled.next_second
  have hprev := K₁.toTiled.prev_eq
  have hn := K₁.extent.1
  have hk := K₁.second.1.extent.1
  have hread : ∀ g, (h₁.set .prev (h₁.startAddr + span pre + n + k) (h₁.startAddr + span pre)).get
      g (h₁.startAddr + span pre + n) = h₁.get g (h₁.startAddr + span pre + n) := by
    intro g
    rw [get_set_mem hS hqS hxS (by omega), if_neg]
    rintro ⟨_, hne⟩
    omega
  obtain ⟨e', T', _⟩ := join_spec K₁.toTiled (Or.inl rfl)
  have heq : h.removeNextPtr (h.startAddr + span pre + n) =
      (h₁.set .prev (h₁.startAddr + span pre + n + k) (h₁.startAddr + span pre)).set .next
        (h₁.startAddr + span pre) (h₁.startAddr + span pre + n + k) := by
    rw [Memheap.removeNextPtr, ← hh₁, ← hstart]
    rw [hprev, hnext, hread, hread, hprev, hnext]
  rw [e.items_eq] at e'
  rw [heq]
  refine ⟨Touch.comp e (e'.mono (by decide)), T', ?_, K₁.nodup, ?_⟩
  · refine K₁.free.edit (e'.mono (by decide)) fun y hy => ?_
    rw [← e.items_eq]
    exact K₁.ring_sub y hy
  · rw [e'.startAddr_eq, hstart]
    exact hsub

/-- Merging with a free neighbour in front, which stays in the free list. -/
theorem Linked.mergeLeft (K : Linked h (pre ++ ⟨n, u⟩ :: ⟨k, w⟩ :: post) fl)
    (hp : p = h.startAddr + span pre) (hx : p + n ∉ fl) :
    Touch (h.items (pre ++ ⟨n, u⟩ :: ⟨k, w⟩ :: post)) h (h.mergeLeft (p + n)) ∧
      Linked (h.mergeLeft (p + n)) (pre ++ ⟨n + k, u⟩ :: post) fl := by
  subst hp
  obtain ⟨e, T, _⟩ := mergeLeft_spec K.toTiled
  refine ⟨e.mono (by decide), T, K.free.edit (e.mono (by decide)) K.ring_sub, K.nodup, ?_⟩
  rw [e.startAddr_eq]
  intro y hy
  rcases (edges_join y).mp (K.sub y hy) with rfl | hmem
  · exact absurd hy hx
  · exact hmem

end Join

end RTThread.Memheap
