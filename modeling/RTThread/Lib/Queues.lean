import Mathlib.Data.List.Nodup
import Mathlib.Data.List.Perm.Basic
import Mathlib.Logic.Function.Basic

/-!
# Queues that share their entries

An intrusive list node is in one list at a time. `Apart` says so of a family of queues: no
queue holds an entry twice and no two queues share one. Taking an entry out of whatever queue
it is in (`unlink`) and putting a free entry anywhere into one queue keep the queues apart.
-/

namespace Queues

variable {ι τ : Type*} {Q : ι → List τ} {q q' : ι} {t u : τ}

/-- Every entry is in at most one queue, and there once. -/
structure Apart (Q : ι → List τ) : Prop where
  nodup (q : ι) : (Q q).Nodup
  same {q q' : ι} {t : τ} : t ∈ Q q → t ∈ Q q' → q = q'

theorem head_mem {α : Type*} {l r : List α} {x : α} (h : l = x :: r) : x ∈ l := by
  rw [h]
  exact List.mem_cons_self

/-- The entry is in no queue. -/
def Free (Q : ι → List τ) (t : τ) : Prop := ∀ q, t ∉ Q q

section Unlink

variable [DecidableEq τ]

/-- The entry leaves the queue it is in. -/
def unlink (Q : ι → List τ) (t : τ) : ι → List τ := fun q => (Q q).erase t

theorem Apart.mem_unlink (h : Apart Q) : u ∈ unlink Q t q ↔ u ≠ t ∧ u ∈ Q q :=
  (h.nodup q).mem_erase_iff

theorem Apart.free_unlink (h : Apart Q) (t : τ) : Free (unlink Q t) t :=
  fun _ ht => (h.mem_unlink.1 ht).1 rfl

theorem Apart.unlink (h : Apart Q) (t : τ) : Apart (unlink Q t) where
  nodup q := (h.nodup q).erase t
  same hq hq' := h.same (h.mem_unlink.1 hq).2 (h.mem_unlink.1 hq').2

theorem unlink_of_not_mem (h : t ∉ Q q) : unlink Q t q = Q q := List.erase_of_not_mem h

theorem unlink_of_free (h : Free Q t) : unlink Q t = Q :=
  funext fun q => unlink_of_not_mem (h q)

theorem Apart.unlink_of_ne (h : Apart Q) (ht : t ∈ Q q) (hne : q' ≠ q) :
    Queues.unlink Q t q' = Q q' :=
  unlink_of_not_mem fun ht' => hne (h.same ht' ht)

end Unlink

section Put

variable [DecidableEq ι]

theorem mem_put {l : List τ} (hp : l.Perm (t :: Q q)) :
    u ∈ Function.update Q q l q' ↔ (u = t ∧ q' = q) ∨ u ∈ Q q' := by
  by_cases hq : q' = q
  · subst hq
    rw [Function.update_self, hp.mem_iff, List.mem_cons]
    tauto
  · rw [Function.update_of_ne hq]
    tauto

/-- A free entry goes anywhere into a queue. -/
theorem Apart.put (h : Apart Q) (hfree : Free Q t) {l : List τ} (hp : l.Perm (t :: Q q)) :
    Apart (Function.update Q q l) where
  nodup q' := by
    by_cases hq : q' = q
    · subst hq
      rw [Function.update_self, hp.nodup_iff, List.nodup_cons]
      exact ⟨hfree q', h.nodup q'⟩
    · rw [Function.update_of_ne hq]
      exact h.nodup q'
  same hu hu' := by
    rw [mem_put hp] at hu hu'
    rcases hu with ⟨rfl, hq⟩ | hu
    · rcases hu' with ⟨-, hq'⟩ | hu'
      · exact hq.trans hq'.symm
      · exact absurd hu' (hfree _)
    · rcases hu' with ⟨rfl, -⟩ | hu'
      · exact absurd hu (hfree _)
      · exact h.same hu hu'

section Relink

variable [DecidableEq τ] {l : List τ}

theorem Apart.relink (h : Apart Q) (hp : l.Perm (t :: Queues.unlink Q t q)) :
    Apart (Function.update (Queues.unlink Q t) q l) :=
  (h.unlink t).put (h.free_unlink t) hp

theorem Apart.mem_relink (h : Apart Q) (hp : l.Perm (t :: Queues.unlink Q t q)) :
    u ∈ Function.update (Queues.unlink Q t) q l q' ↔ (u = t ∧ q' = q) ∨ (u ≠ t ∧ u ∈ Q q') := by
  rw [mem_put hp, h.mem_unlink]

end Relink

end Put

section Move

variable [DecidableEq ι] {l l' : List τ}

/-- The first entry of a queue goes to another one. -/
def move (Q : ι → List τ) (q : ι) (l : List τ) (q' : ι) (l' : List τ) : ι → List τ :=
  Function.update (Function.update Q q l) q' l'

@[simp] theorem move_to : move Q q l q' l' q' = l' := Function.update_self _ _ _

theorem move_from (hne : q ≠ q') : move Q q l q' l' q = l :=
  (Function.update_of_ne hne _ _).trans (Function.update_self _ _ _)

theorem move_other {p : ι} (hq : p ≠ q) (hq' : p ≠ q') : move Q q l q' l' p = Q p :=
  (Function.update_of_ne hq' _ _).trans (Function.update_of_ne hq _ _)

/-- Where the entries are after one has moved. -/
theorem Apart.mem_move (h : Apart Q) (hq : Q q = t :: l) (hl' : l'.Perm (t :: Q q'))
    (hne : q ≠ q') {p : ι} :
    u ∈ move Q q l q' l' p ↔ (u = t ∧ p = q') ∨ (u ≠ t ∧ u ∈ Q p) := by
  have ht : t ∈ Q q := Queues.head_mem hq
  have hnd : (t :: l).Nodup := hq ▸ h.nodup q
  by_cases hp' : p = q'
  · subst hp'
    have hnot : t ∉ Q p := fun ht' => hne (h.same ht ht')
    rw [move_to, hl'.mem_iff, List.mem_cons]
    constructor
    · rintro (rfl | hu)
      · exact Or.inl ⟨rfl, rfl⟩
      · refine Or.inr ⟨?_, hu⟩
        rintro rfl
        exact hnot hu
    · rintro (⟨rfl, -⟩ | ⟨-, hu⟩)
      · exact Or.inl rfl
      · exact Or.inr hu
  · have hleft : ¬ (u = t ∧ p = q') := fun hu => hp' hu.2
    rw [or_iff_right hleft]
    by_cases hp : p = q
    · subst hp
      rw [move_from hne, hq, List.mem_cons]
      constructor
      · intro hu
        refine ⟨?_, Or.inr hu⟩
        rintro rfl
        exact (List.nodup_cons.1 hnd).1 hu
      · rintro ⟨hut, hu⟩
        exact hu.resolve_left hut
    · rw [move_other hp hp']
      refine (and_iff_right_of_imp ?_).symm
      rintro hu rfl
      exact hp (h.same hu ht)

theorem Apart.move (h : Apart Q) (hq : Q q = t :: l) (hl' : l'.Perm (t :: Q q')) (hne : q ≠ q') :
    Apart (move Q q l q' l') where
  nodup p := by
    have ht : t ∈ Q q := Queues.head_mem hq
    by_cases hp' : p = q'
    · subst hp'
      rw [move_to, hl'.nodup_iff, List.nodup_cons]
      exact ⟨fun ht' => hne (h.same ht ht'), h.nodup p⟩
    · by_cases hp : p = q
      · subst hp
        rw [move_from hne]
        exact (List.nodup_cons.1 (hq ▸ h.nodup p)).2
      · rw [move_other hp hp']
        exact h.nodup p
  same hu hu' := by
    rcases (h.mem_move hq hl' hne).1 hu with ⟨rfl, hp⟩ | ⟨hut, hu⟩
    · rcases (h.mem_move hq hl' hne).1 hu' with ⟨-, hp'⟩ | ⟨hut', -⟩
      · exact hp.trans hp'.symm
      · exact absurd rfl hut'
    · rcases (h.mem_move hq hl' hne).1 hu' with ⟨rfl, -⟩ | ⟨-, hu'⟩
      · exact absurd rfl hut
      · exact h.same hu hu'

/-- Nothing leaves the queues. -/
theorem Apart.exists_mem_move (h : Apart Q) (hq : Q q = t :: l) (hl' : l'.Perm (t :: Q q'))
    (hne : q ≠ q') : (∃ p, u ∈ Queues.move Q q l q' l' p) ↔ ∃ p, u ∈ Q p := by
  constructor
  · rintro ⟨p, hu⟩
    rcases (h.mem_move hq hl' hne).1 hu with ⟨rfl, -⟩ | ⟨-, hu⟩
    · exact ⟨q, by rw [hq]; exact List.mem_cons_self⟩
    · exact ⟨p, hu⟩
  · rintro ⟨p, hu⟩
    by_cases hut : u = t
    · exact ⟨q', (h.mem_move hq hl' hne).2 (Or.inl ⟨hut, rfl⟩)⟩
    · exact ⟨p, (h.mem_move hq hl' hne).2 (Or.inr ⟨hut, hu⟩)⟩

end Move

end Queues
