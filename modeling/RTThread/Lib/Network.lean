import Mathlib.Logic.Relation
import Mathlib.Tactic.Common

/-!
# Two machines and the channels between them

A machine moves alone: it puts an item into its outgoing channel, waits for an item of its incoming
one, goes on by itself, or halts. Two of them with a channel in each direction make a network
(`Net`). A step takes from the front of one channel and adds to the end of the other, so steps of
different sides commute (`Net.diamond`). Whatever the order of the steps, the network comes to the
same end in the same number of steps (`Net.unique`), and a side that has halted in one run has not
halted otherwise in another (`Net.left_unique`, `Net.right_unique`).

`Solo` is a machine that runs alone on the items it has; `Solo.left` and `Solo.right` play it in a
network.
-/

variable {ι S T : Type}

/-- What a machine does next. -/
inductive Move (ι S : Type)
  | put (c : ι) (s : S)
  | get (k : ι → S)
  | go (s : S)
  | halt

-- --------
-- One machine
-- --------

/-- A step of a machine: from `s` with the items `ins` to `s'` with `ins'`, with `outs` put. -/
inductive Acts (m : S → Move ι S) : S → List ι → S → List ι → List ι → Prop
  | put {s s' : S} {c : ι} {ins : List ι} (hm : m s = .put c s') : Acts m s ins s' ins [c]
  | get {s : S} {k : ι → S} {c : ι} {ins : List ι} (hm : m s = .get k) :
      Acts m s (c :: ins) (k c) ins []
  | go {s s' : S} {ins : List ι} (hm : m s = .go s') : Acts m s ins s' ins []

/-- A run of a machine on its own. -/
inductive Solo (m : S → Move ι S) : S → List ι → S → List ι → List ι → Prop
  | refl (s : S) (ins : List ι) : Solo m s ins s ins []
  | step {s s' s'' : S} {ins ins' ins'' out outs : List ι} (h : Acts m s ins s' ins' out)
      (hs : Solo m s' ins' s'' ins'' outs) : Solo m s ins s'' ins'' (out ++ outs)

section Machine

variable {m : S → Move ι S} {s s' s'' t : S} {ins ins' ins'' ins₂ out out₂ outs outs' : List ι}

/-- A machine is deterministic. -/
theorem Acts.det (h : Acts m s ins s' ins' out) (h' : Acts m s ins t ins₂ out₂) :
    s' = t ∧ ins' = ins₂ ∧ out = out₂ := by
  cases h with
  | put hm =>
    cases h' with
    | put hm' => rw [hm] at hm'; cases hm'; exact ⟨rfl, rfl, rfl⟩
    | get hm' => rw [hm] at hm'; cases hm'
    | go hm' => rw [hm] at hm'; cases hm'
  | get hm =>
    cases h' with
    | put hm' => rw [hm] at hm'; cases hm'
    | get hm' => rw [hm] at hm'; cases hm'; exact ⟨rfl, rfl, rfl⟩
    | go hm' => rw [hm] at hm'; cases hm'
  | go hm =>
    cases h' with
    | put hm' => rw [hm] at hm'; cases hm'
    | get hm' => rw [hm] at hm'; cases hm'
    | go hm' => rw [hm] at hm'; cases hm'; exact ⟨rfl, rfl, rfl⟩

theorem Acts.more (h : Acts m s ins s' ins' out) (rest : List ι) :
    Acts m s (ins ++ rest) s' (ins' ++ rest) out := by
  cases h with
  | put hm => exact .put hm
  | get hm => exact .get hm
  | go hm => exact .go hm

theorem Acts.not_halt (h : Acts m s ins s' ins' out) : m s ≠ .halt := by
  cases h with
  | put hm => rw [hm]; nofun
  | get hm => rw [hm]; nofun
  | go hm => rw [hm]; nofun

theorem Acts.not_get {k : ι → S} (hm : m s = .get k) : ¬ Acts m s [] s' ins' out := by
  intro h
  cases h with
  | put hm' => rw [hm] at hm'; cases hm'
  | go hm' => rw [hm] at hm'; cases hm'

theorem Solo.trans (h : Solo m s ins s' ins' outs) (h' : Solo m s' ins' s'' ins'' outs') :
    Solo m s ins s'' ins'' (outs ++ outs') := by
  induction h with
  | refl s ins => exact h'
  | step hs _ ih =>
    rw [List.append_assoc]
    exact .step hs (ih h')

theorem Solo.put {c : ι} (hm : m s = .put c s') (h : Solo m s' ins s'' ins' outs) :
    Solo m s ins s'' ins' (c :: outs) := Solo.step (.put hm) h

theorem Solo.get {k : ι → S} {c : ι} (hm : m s = .get k) (h : Solo m (k c) ins s'' ins' outs) :
    Solo m s (c :: ins) s'' ins' outs := Solo.step (.get hm) h

theorem Solo.go (hm : m s = .go s') (h : Solo m s' ins s'' ins' outs) :
    Solo m s ins s'' ins' outs := Solo.step (.go hm) h

theorem Solo.more (h : Solo m s ins s' ins' outs) (rest : List ι) :
    Solo m s (ins ++ rest) s' (ins' ++ rest) outs := by
  induction h with
  | refl s ins => exact .refl s _
  | step hs _ ih => exact .step (hs.more rest) ih

/-- Of two runs on the same items, one that ends in a halt goes on from where the other ends. -/
theorem Solo.to_halt (h : Solo m s ins s' ins' outs) (h' : Solo m s ins t ins₂ outs')
    (hhalt : m s' = .halt) : ∃ rest, Solo m t ins₂ s' ins' rest ∧ outs = outs' ++ rest := by
  induction h' generalizing outs with
  | refl s ins => exact ⟨outs, h, rfl⟩
  | step hs _ ih =>
    cases h with
    | refl => exact absurd hhalt hs.not_halt
    | step hs₂ h =>
      obtain ⟨rfl, rfl, rfl⟩ := hs.det hs₂
      obtain ⟨rest, hrest, rfl⟩ := ih h
      exact ⟨rest, hrest, (List.append_assoc _ _ _).symm⟩

theorem Solo.rest {more : List ι} (h' : Solo m s ins t [] outs')
    (h : Solo m s (ins ++ more) s' ins' outs) (hhalt : m s' = .halt) :
    ∃ rest, Solo m t more s' ins' rest ∧ outs = outs' ++ rest :=
  h.to_halt (h'.more more) hhalt

/-- A move with its states put into those of another machine. -/
def Move.map {S' : Type} (g : S → S') : Move ι S → Move ι S'
  | put c s => put c (g s)
  | get k => get fun c => g (k c)
  | go s => go (g s)
  | halt => halt

theorem Acts.map {S' : Type} {m' : S' → Move ι S'} {g : S → S'}
    (hm : ∀ s, m s ≠ .halt → m' (g s) = (m s).map g) (h : Acts m s ins s' ins' out) :
    Acts m' (g s) ins (g s') ins' out := by
  have heq := hm s h.not_halt
  cases h with
  | put hs => exact .put (by rw [heq, hs]; rfl)
  | @get k _ _ hs => exact @Acts.get _ _ _ _ (fun c => g (k c)) _ _ (by rw [heq, hs]; rfl)
  | go hs => exact .go (by rw [heq, hs]; rfl)

theorem Solo.map {S' : Type} {m' : S' → Move ι S'} {g : S → S'}
    (hm : ∀ s, m s ≠ .halt → m' (g s) = (m s).map g) (h : Solo m s ins s' ins' outs) :
    Solo m' (g s) ins (g s') ins' outs := by
  induction h with
  | refl s ins => exact .refl _ _
  | step hs _ ih => exact .step (hs.map hm) ih

end Machine

-- --------
-- Relations with a diamond
-- --------

/-- `n` steps. -/
inductive StepsN {α : Type} (r : α → α → Prop) : Nat → α → α → Prop
  | refl (a : α) : StepsN r 0 a a
  | step {n : Nat} {a b c : α} (h : r a b) (hs : StepsN r n b c) : StepsN r (n + 1) a c

section Diamond

variable {α : Type} {r : α → α → Prop} {a b c d : α} {n k : Nat}

theorem StepsN.trans (h : StepsN r n a b) (h' : StepsN r k b c) : StepsN r (n + k) a c := by
  induction h with
  | refl a => rwa [Nat.zero_add]
  | step h _ ih =>
    rw [Nat.add_right_comm]
    exact .step h (ih h')

theorem StepsN.strip (hr : ∀ {a b c}, r a b → r a c → b = c ∨ ∃ d, r b d ∧ r c d)
    (h : StepsN r n a b) (hend : ∀ c, ¬ r b c) (hc : r a c) :
    ∃ k, n = k + 1 ∧ StepsN r k c b := by
  induction h generalizing c with
  | refl a => exact absurd hc (hend c)
  | step h hs ih =>
    rcases hr h hc with rfl | ⟨d, hd, hd'⟩
    · exact ⟨_, rfl, hs⟩
    · obtain ⟨k, rfl, hk⟩ := ih hend hd
      exact ⟨k + 1, rfl, .step hd' hk⟩

/-- **One end.** What reaches an end in `n` steps takes at most `n` steps in any way, and still
reaches that end. -/
theorem StepsN.unique (hr : ∀ {a b c}, r a b → r a c → b = c ∨ ∃ d, r b d ∧ r c d)
    (h : StepsN r n a b) (hend : ∀ c, ¬ r b c) (hc : StepsN r k a c) :
    k ≤ n ∧ StepsN r (n - k) c b := by
  induction hc generalizing n with
  | refl a => exact ⟨Nat.zero_le n, h⟩
  | step hc _ ih =>
    obtain ⟨j, rfl, hj⟩ := h.strip hr hend hc
    obtain ⟨hle, hsteps⟩ := ih hj
    exact ⟨Nat.succ_le_succ hle, by rwa [Nat.add_sub_add_right]⟩

end Diamond

-- --------
-- Networks
-- --------

/-- Two machines and what is in the channels. -/
structure Net (ι S T : Type) where
  left : S
  right : T
  toRight : List ι
  toLeft : List ι

namespace Net

variable {ml : S → Move ι S} {mr : T → Move ι T} {n a b c : Net ι S T}

/-- A step of one of the machines. -/
inductive Step (ml : S → Move ι S) (mr : T → Move ι T) : Net ι S T → Net ι S T → Prop
  | left {s s' : S} {t : T} {r l l' out : List ι} (h : Acts ml s l s' l' out) :
      Step ml mr ⟨s, t, r, l⟩ ⟨s', t, r ++ out, l'⟩
  | right {s : S} {t t' : T} {r r' l out : List ι} (h : Acts mr t r t' r' out) :
      Step ml mr ⟨s, t, r, l⟩ ⟨s, t', r', l ++ out⟩

/-- **The diamond.** Two steps are the same, or each can still be taken after the other. -/
theorem diamond (ha : Step ml mr n a) (hb : Step ml mr n b) :
    a = b ∨ ∃ c, Step ml mr a c ∧ Step ml mr b c := by
  cases ha with
  | left h =>
    cases hb with
    | left h' =>
      obtain ⟨rfl, rfl, rfl⟩ := h.det h'
      exact Or.inl rfl
    | right h' => exact Or.inr ⟨_, .right (h'.more _), .left (h.more _)⟩
  | right h =>
    cases hb with
    | left h' => exact Or.inr ⟨_, .left (h'.more _), .right (h.more _)⟩
    | right h' =>
      obtain ⟨rfl, rfl, rfl⟩ := h.det h'
      exact Or.inl rfl

/-- **One end**, whatever the order of the steps. -/
theorem unique {k j : Nat} (h : StepsN (Step ml mr) k n a) (hend : ∀ c, ¬ Step ml mr a c)
    (hb : StepsN (Step ml mr) j n b) : j ≤ k ∧ StepsN (Step ml mr) (k - j) b a :=
  h.unique diamond hend hb

/-- Some order of the steps comes from one to the other. -/
def Reaches (ml : S → Move ι S) (mr : T → Move ι T) (n a : Net ι S T) : Prop :=
  ∃ k, StepsN (Step ml mr) k n a

theorem Reaches.refl (n : Net ι S T) : Reaches ml mr n n := ⟨0, .refl n⟩

theorem Reaches.trans (h : Reaches ml mr n a) (h' : Reaches ml mr a b) : Reaches ml mr n b := by
  obtain ⟨k, hk⟩ := h
  obtain ⟨j, hj⟩ := h'
  exact ⟨k + j, hk.trans hj⟩

/-- **Every order** of the steps comes to the one end `a`, after as many steps. -/
def Settles (ml : S → Move ι S) (mr : T → Move ι T) (n a : Net ι S T) : Prop :=
  ∃ k, ∀ j b, StepsN (Step ml mr) j n b → j ≤ k ∧ StepsN (Step ml mr) (k - j) b a

theorem Settles.reaches (h : Settles ml mr n a) : Reaches ml mr n a := by
  obtain ⟨k, hk⟩ := h
  exact ⟨k, (hk 0 n (.refl n)).2⟩

theorem Reaches.settles (h : Reaches ml mr n a) (hend : ∀ c, ¬ Step ml mr a c) :
    Settles ml mr n a := by
  obtain ⟨k, hk⟩ := h
  exact ⟨k, fun j b hb => unique hk hend hb⟩

theorem not_step (hl : ∀ s l out, ¬ Acts ml a.left a.toLeft s l out)
    (hr : ∀ t r out, ¬ Acts mr a.right a.toRight t r out) (c : Net ι S T) : ¬ Step ml mr a c := by
  intro h
  cases h with
  | left h => exact hl _ _ _ h
  | right h => exact hr _ _ _ h

theorem not_step_of_halt (hl : ml a.left = .halt) (hr : mr a.right = .halt) (c : Net ι S T) :
    ¬ Step ml mr a c :=
  not_step (fun _ _ _ h => h.not_halt hl) (fun _ _ _ h => h.not_halt hr) c

/-- Runs that part come together again. -/
theorem join {k j : Nat} (ha : StepsN (Step ml mr) k n a) (hb : StepsN (Step ml mr) j n b) :
    ∃ c i i', StepsN (Step ml mr) i a c ∧ StepsN (Step ml mr) i' b c := by
  -- one step against a run
  have hone : ∀ {k n a b}, Step ml mr n b → StepsN (Step ml mr) k n a →
      ∃ c i, StepsN (Step ml mr) i b c ∧ (a = c ∨ Step ml mr a c) := by
    intro k n a b hb ha
    induction ha generalizing b with
    | refl n => exact ⟨b, 0, .refl b, Or.inr hb⟩
    | step h hs ih =>
      rcases diamond h hb with rfl | ⟨d, hd, hd'⟩
      · exact ⟨_, _, hs, Or.inl rfl⟩
      · obtain ⟨c, i, hi, hc⟩ := ih hd
        exact ⟨c, i + 1, .step hd' hi, hc⟩
  induction hb generalizing k a with
  | refl n => exact ⟨a, 0, k, .refl a, ha⟩
  | step h _ ih =>
    obtain ⟨c, i, hi, hc⟩ := hone h ha
    obtain ⟨d, i₁, i₂, h₁, h₂⟩ := ih hi
    rcases hc with rfl | hc
    · exact ⟨d, i₁, i₂, h₁, h₂⟩
    · exact ⟨d, i₁ + 1, i₂, .step hc h₁, h₂⟩

theorem left_halted {k : Nat} (h : StepsN (Step ml mr) k n a) (hhalt : ml n.left = .halt) :
    a.left = n.left := by
  induction h with
  | refl n => rfl
  | step h _ ih =>
    cases h with
    | left h => exact absurd hhalt h.not_halt
    | right _ => exact ih hhalt

theorem right_halted {k : Nat} (h : StepsN (Step ml mr) k n a) (hhalt : mr n.right = .halt) :
    a.right = n.right := by
  induction h with
  | refl n => rfl
  | step h _ ih =>
    cases h with
    | left _ => exact ih hhalt
    | right h => exact absurd hhalt h.not_halt

theorem left_unique (ha : Reaches ml mr n a) (hb : Reaches ml mr n b)
    (hhalt : ml a.left = .halt) (hhalt' : ml b.left = .halt) : a.left = b.left := by
  obtain ⟨_, ha⟩ := ha
  obtain ⟨_, hb⟩ := hb
  obtain ⟨c, _, _, h, h'⟩ := join ha hb
  rw [← left_halted h hhalt, ← left_halted h' hhalt']

theorem right_unique (ha : Reaches ml mr n a) (hb : Reaches ml mr n b)
    (hhalt : mr a.right = .halt) (hhalt' : mr b.right = .halt) : a.right = b.right := by
  obtain ⟨_, ha⟩ := ha
  obtain ⟨_, hb⟩ := hb
  obtain ⟨c, _, _, h, h'⟩ := join ha hb
  rw [← right_halted h hhalt, ← right_halted h' hhalt']

end Net

theorem Solo.left {ml : S → Move ι S} {mr : T → Move ι T} {s s' : S} {l l' out : List ι}
    (h : Solo ml s l s' l' out) (t : T) (r : List ι) :
    Net.Reaches ml mr ⟨s, t, r, l⟩ ⟨s', t, r ++ out, l'⟩ := by
  induction h generalizing r with
  | refl s ins => exact ⟨0, by rw [List.append_nil]; exact .refl _⟩
  | step h _ ih =>
    obtain ⟨k, hk⟩ := ih (r ++ _)
    exact ⟨k + 1, .step (.left h) (by rwa [List.append_assoc] at hk)⟩

theorem Solo.right {ml : S → Move ι S} {mr : T → Move ι T} {t t' : T} {r r' out : List ι}
    (h : Solo mr t r t' r' out) (s : S) (l : List ι) :
    Net.Reaches ml mr ⟨s, t, r, l⟩ ⟨s, t', r', l ++ out⟩ := by
  induction h generalizing l with
  | refl t ins => exact ⟨0, by rw [List.append_nil]; exact .refl _⟩
  | step h _ ih =>
    obtain ⟨k, hk⟩ := ih (l ++ _)
    exact ⟨k + 1, .step (.right h) (by rwa [List.append_assoc] at hk)⟩
