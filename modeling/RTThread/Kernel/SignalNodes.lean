import RTThread.Kernel.Signal

/-!
# The signal nodes (`signal.c`)

A pending signal is kept twice, as a bit of `sig_pending` and as a node on `si_list`. `Sound` is
what holds in every run: each node is in one place, and a pending bit has a node. That the node is
the only one, and that no node is left without its bit, is the part that needs
`InsertsFresh`: `rt_thread_kill` looks for a node in one section and puts its own in in
another, so a second call can put in a node between the two.
-/

namespace RTThread

namespace SigSys

variable {cfg : SigCfg} {s s' : SigSys} {c : SigCtx} {t : ThreadId}

/-- No node goes on a list for a signal that is pending already. -/
def InsertsFresh (s : SigSys) : SigAct → Prop
  | .next c =>
    match s.pc c with
    | .insert t sig => (s.thread t).sigPending.getLsbD sig = false
    | _ => True
  | _ => True

instance (s : SigSys) (a : SigAct) : Decidable (s.InsertsFresh a) := by
  cases a <;> simp only [InsertsFresh] <;> try infer_instance
  split <;> infer_instance

-- --------
-- What the lists say
-- --------

/-- The nodes on the lists against the pending bits. With `fresh`, every node so far was put in for
a signal that was not pending. -/
structure Lists (fresh : Prop) (s : SigSys) : Prop where
  valid {t : ThreadId} {n : SigNode} : n ∈ s.nodes (.list t) → s.si n < 32
  shown {t : ThreadId} {sig : Nat} : (s.thread t).sigPending.getLsbD sig = true →
    ∃ n ∈ s.nodes (.list t), s.si n = sig
  pending (hf : fresh) {t : ThreadId} {n : SigNode} : n ∈ s.nodes (.list t) →
    (s.thread t).sigPending.getLsbD (s.si n) = true
  single (hf : fresh) {t : ThreadId} {n m : SigNode} : n ∈ s.nodes (.list t) →
    m ∈ s.nodes (.list t) → s.si n = s.si m → n = m

/-- What a call has in its hand. -/
def Hand (s : SigSys) (c : SigCtx) : SigPc → Prop
  | .lookup _ sig | .alloc _ sig => s.nodes (.hand c) = [] ∧ sig < 32
  | .insert _ sig => sig < 32 ∧ ∃ n, s.nodes (.hand c) = [n] ∧ s.si n = sig
  | .handling _ => ∃ n, s.nodes (.hand c) = [n]
  | _ => s.nodes (.hand c) = []

/-- **What holds in every run.** -/
structure Sound (fresh : Prop) (poolSize : Nat) (s : SigSys) : Prop where
  apart : Queues.Apart s.nodes
  pool (n : SigNode) : (∃ p, n ∈ s.nodes p) ↔ n < poolSize
  hand (c : SigCtx) : s.Hand c (s.pc c)
  lists : s.Lists fresh

variable {fresh : Prop} {poolSize : Nat}

namespace Lists

/-- The lists and the bits stay. -/
theorem frame (h : s.Lists fresh) (hnodes : ∀ t, s'.nodes (.list t) = s.nodes (.list t))
    (hsi : ∀ t, ∀ n ∈ s.nodes (.list t), s'.si n = s.si n)
    (hp : ∀ t, (s'.thread t).sigPending = (s.thread t).sigPending) : s'.Lists fresh where
  valid {t n} hn := by
    rw [hnodes t] at hn
    rw [hsi t n hn]
    exact h.valid hn
  shown {t sig} hsig := by
    rw [hp t] at hsig
    obtain ⟨n, hn, rfl⟩ := h.shown hsig
    exact ⟨n, (hnodes t).symm ▸ hn, hsi t n hn⟩
  pending hf {t n} hn := by
    rw [hnodes t] at hn
    rw [hsi t n hn, hp t]
    exact h.pending hf hn
  single hf {t n m} hn hm hnm := by
    rw [hnodes t] at hn hm
    rw [hsi t n hn, hsi t m hm] at hnm
    exact h.single hf hn hm hnm

theorem setThread (h : s.Lists fresh) {th : SigThread}
    (hp : th.sigPending = (s.thread t).sigPending) : (s.setThread t th).Lists fresh := by
  refine h.frame (fun _ => rfl) (fun _ _ _ => rfl) fun t' => ?_
  by_cases ht : t' = t
  · subst ht
    have hat : (s.setThread t' th).thread t' = th := Function.update_self _ _ _
    rw [hat, hp]
  · have hat : (s.setThread t th).thread t' = s.thread t' := Function.update_of_ne ht _ _
    rw [hat]

/-- A node leaves its list, and its bit goes. -/
theorem erase (h : s.Lists fresh) (hapart : Queues.Apart s.nodes) {n : SigNode}
    (hn : n ∈ s.nodes (.list t))
    (hnodes : ∀ t' m, m ∈ s'.nodes (.list t') ↔ m ≠ n ∧ m ∈ s.nodes (.list t'))
    (hsi : s'.si = s.si)
    (hp : ∀ t' sig, (s'.thread t').sigPending.getLsbD sig = true ↔
      (s.thread t').sigPending.getLsbD sig = true ∧ ¬ (t' = t ∧ sig = s.si n)) :
    s'.Lists fresh where
  valid {t' m} hm := by
    rw [hsi]
    exact h.valid ((hnodes t' m).1 hm).2
  shown {t' sig} hsig := by
    obtain ⟨hsig, hne⟩ := (hp t' sig).1 hsig
    obtain ⟨m, hm, rfl⟩ := h.shown hsig
    refine ⟨m, (hnodes t' m).2 ⟨?_, hm⟩, by rw [hsi]⟩
    rintro rfl
    have hplace : SigPlace.list t' = .list t := hapart.same hm hn
    exact hne ⟨SigPlace.list.inj hplace, rfl⟩
  pending hf {t' m} hm := by
    obtain ⟨hmn, hm⟩ := (hnodes t' m).1 hm
    rw [hsi]
    refine (hp t' _).2 ⟨h.pending hf hm, ?_⟩
    rintro ⟨rfl, heq⟩
    exact hmn (h.single hf hm hn heq)
  single hf {t' m m'} hm hm' hmm' := by
    rw [hsi] at hmm'
    exact h.single hf ((hnodes t' m).1 hm).2 ((hnodes t' m').1 hm').2 hmm'

/-- A node joins a list, and its bit is set. -/
theorem add (h : s.Lists fresh) {n : SigNode} (hvalid : s.si n < 32)
    (hfresh : fresh → (s.thread t).sigPending.getLsbD (s.si n) = false)
    (hnodes : ∀ t' m, m ∈ s'.nodes (.list t') ↔ (m = n ∧ t' = t) ∨ m ∈ s.nodes (.list t'))
    (hsi : s'.si = s.si)
    (hp : ∀ t' sig, (s'.thread t').sigPending.getLsbD sig = true ↔
      (s.thread t').sigPending.getLsbD sig = true ∨ (t' = t ∧ sig = s.si n)) :
    s'.Lists fresh := by
  have hnew : fresh → ∀ m ∈ s.nodes (.list t), s.si m ≠ s.si n := by
    intro hf m hm heq
    have hset := h.pending hf hm
    rw [heq, hfresh hf] at hset
    cases hset
  refine ⟨?_, ?_, ?_, ?_⟩
  · intro t' m hm
    rw [hsi]
    rcases (hnodes t' m).1 hm with ⟨rfl, -⟩ | hm
    · exact hvalid
    · exact h.valid hm
  · intro t' sig hsig
    rcases (hp t' sig).1 hsig with hsig | ⟨rfl, rfl⟩
    · obtain ⟨m, hm, rfl⟩ := h.shown hsig
      exact ⟨m, (hnodes t' m).2 (Or.inr hm), by rw [hsi]⟩
    · exact ⟨n, (hnodes t' n).2 (Or.inl ⟨rfl, rfl⟩), by rw [hsi]⟩
  · intro hf t' m hm
    rw [hsi]
    rcases (hnodes t' m).1 hm with ⟨rfl, ht⟩ | hm
    · exact (hp t' _).2 (Or.inr ⟨ht, rfl⟩)
    · exact (hp t' _).2 (Or.inl (h.pending hf hm))
  · intro hf t' m m' hm hm' heq
    rw [hsi] at heq
    rcases (hnodes t' m).1 hm with ⟨rfl, rfl⟩ | hm
    · rcases (hnodes t' m').1 hm' with ⟨rfl, -⟩ | hm'
      · rfl
      · exact absurd heq.symm (hnew hf m' hm')
    · rcases (hnodes t' m').1 hm' with ⟨rfl, rfl⟩ | hm'
      · exact absurd heq (hnew hf m hm)
      · exact h.single hf hm hm' heq

end Lists

-- --------
-- Steps that move no node
-- --------

/-- What a call has in its hand depends on its hand only. -/
theorem Hand.frame {pc : SigPc} (h : s.Hand c pc)
    (hnodes : s'.nodes (.hand c) = s.nodes (.hand c))
    (hsi : ∀ n ∈ s.nodes (.hand c), s'.si n = s.si n) : s'.Hand c pc := by
  cases pc with
  | insert t sig =>
    obtain ⟨hsig, n, hn, rfl⟩ := h
    have hmem : n ∈ s.nodes (.hand c) := by
      rw [hn]
      exact List.mem_singleton_self n
    exact ⟨hsig, n, hnodes.trans hn, hsi n hmem⟩
  | lookup t sig => exact ⟨hnodes.trans h.1, h.2⟩
  | alloc t sig => exact ⟨hnodes.trans h.1, h.2⟩
  | handling cleanState =>
    obtain ⟨n, hn⟩ := h
    exact ⟨n, hnodes.trans hn⟩
  | idle => exact hnodes.trans h
  | deliver t => exact hnodes.trans h
  | waiting set => exact hnodes.trans h
  | handle cleanState => exact hnodes.trans h
  | fault => exact hnodes.trans h

namespace Sound

theorem goto (h : s.Sound fresh poolSize) {pc : SigPc} (hpc : s.Hand c pc) :
    (s.goto c pc).Sound fresh poolSize where
  apart := h.apart
  pool := h.pool
  hand c' := by
    by_cases hc : c' = c
    · subst hc
      have hat : (s.goto c' pc).pc c' = pc := Function.update_self _ _ _
      rw [hat]
      exact hpc.frame rfl fun _ _ => rfl
    · have hat : (s.goto c pc).pc c' = s.pc c' := Function.update_of_ne hc _ _
      rw [hat]
      exact (h.hand c').frame rfl fun _ _ => rfl
  lists := h.lists.frame (fun _ => rfl) (fun _ _ _ => rfl) fun _ => rfl

theorem setThread (h : s.Sound fresh poolSize) {th : SigThread}
    (hp : th.sigPending = (s.thread t).sigPending) : (s.setThread t th).Sound fresh poolSize where
  apart := h.apart
  pool := h.pool
  hand c := (h.hand c).frame rfl fun _ _ => rfl
  lists := h.lists.setThread hp

theorem setGoto (h : s.Sound fresh poolSize) {th : SigThread} {pc : SigPc}
    (hp : th.sigPending = (s.thread t).sigPending) (hpc : s.Hand c pc) :
    ((s.setThread t th).goto c pc).Sound fresh poolSize :=
  (h.setThread hp).goto (hpc.frame rfl fun _ _ => rfl)

theorem killLookup (h : s.Sound fresh poolSize) {sig : Nat} (hpc : s.pc c = .lookup t sig) :
    (s.killLookup c t sig).Sound fresh poolSize := by
  have hhand : s.Hand c (.lookup t sig) := hpc ▸ h.hand c
  unfold SigSys.killLookup
  split
  · exact h.goto hhand.1
  · exact h.goto hhand

theorem deliver (h : s.Sound fresh poolSize) (hhand : s.nodes (.hand c) = []) :
    (s.deliver cfg c t).Sound fresh poolSize := by
  simp only [SigSys.deliver]
  split
  · exact h.goto hhand
  split
  · exact h.setGoto (by rfl) hhand
  split
  · refine h.setGoto (by rfl) ?_
    split
    · exact hhand
    · exact hhand
  split
  · exact h.setGoto (by rfl) hhand
  · exact h.goto hhand

theorem handled (h : s.Sound fresh poolSize) (hhand : s.nodes (.hand c) = []) {cleanState : Bool} :
    (s.handled c t cleanState).Sound fresh poolSize := by
  simp only [SigSys.handled]
  split
  · exact h.setGoto (by rfl) hhand
  · exact h.setGoto (by rfl) hhand

-- --------
-- Steps that move a node
-- --------

/-- The first node of a place goes to another one. No call but `c` has to do with it. -/
theorem move (h : s.Sound fresh poolSize) {p p' : SigPlace} {n : SigNode} {l l' : List SigNode}
    (hl : s.nodes p = n :: l) (hl' : l'.Perm (n :: s.nodes p')) (hne : p ≠ p')
    (hother : ∀ c' ≠ c, .hand c' ≠ p ∧ .hand c' ≠ p')
    (hnodes : s'.nodes = Queues.move s.nodes p l p' l') (hsi : ∀ m ≠ n, s'.si m = s.si m)
    (hpc : ∀ c' ≠ c, s'.pc c' = s.pc c') (hhand : s'.Hand c (s'.pc c))
    (hlists : s'.Lists fresh) : s'.Sound fresh poolSize where
  apart := by
    rw [hnodes]
    exact h.apart.move hl hl' hne
  pool m := by
    rw [hnodes]
    exact (h.apart.exists_mem_move hl hl' hne).trans (h.pool m)
  hand c' := by
    by_cases hc : c' = c
    · subst hc
      exact hhand
    · obtain ⟨hp, hp'⟩ := hother c' hc
      rw [hpc c' hc]
      refine (h.hand c').frame ?_ fun m hm => hsi m ?_
      · rw [hnodes]
        exact Queues.move_other hp hp'
      · rintro rfl
        exact hp (h.apart.same hm (Queues.head_mem hl))
  lists := hlists

theorem hand_ne {c' : SigCtx} (hc : c' ≠ c) : SigPlace.hand c' ≠ .hand c :=
  fun h => hc (SigPlace.hand.inj h)

theorem killAlloc (h : s.Sound fresh poolSize) {sig : Nat} (hpc : s.pc c = .alloc t sig) :
    (s.killAlloc c t sig).Sound fresh poolSize := by
  have hhand : s.Hand c (.alloc t sig) := hpc ▸ h.hand c
  obtain ⟨hempty, hsig⟩ := hhand
  unfold SigSys.killAlloc
  split
  case h_1 => exact h.goto hempty
  case h_2 n rest hfree =>
    have hn : n ∈ s.nodes .free := Queues.head_mem hfree
    have hsi (m : SigNode) (hm : m ≠ n) : Function.update s.si n sig m = s.si m :=
      Function.update_of_ne hm _ _
    have hne : SigPlace.free ≠ .hand c := nofun
    refine h.move hfree (List.Perm.refl _) hne (fun c' hc => ⟨nofun, hand_ne hc⟩) rfl hsi
      (fun c' hc => Function.update_of_ne hc _ _) ?_ ?_
    · change Hand _ c (Function.update s.pc c (.insert t sig) c)
      rw [Function.update_self]
      refine ⟨hsig, n, ?_, Function.update_self _ _ _⟩
      rw [← hempty]
      exact Queues.move_to
    · have hlist (t' : ThreadId) : Queues.move s.nodes .free rest (.hand c)
          (n :: s.nodes (.hand c)) (.list t') = s.nodes (.list t') := Queues.move_other nofun nofun
      refine h.lists.frame hlist (fun t' m hm => hsi m ?_) fun _ => rfl
      rintro rfl
      have hplace := h.apart.same hm hn
      cases hplace

theorem killInsert (h : s.Sound fresh poolSize) {sig : Nat} (hpc : s.pc c = .insert t sig)
    (hfresh : fresh → (s.thread t).sigPending.getLsbD sig = false)
    (hs : s.killInsert c t sig = some s') : s'.Sound fresh poolSize := by
  have hhand : s.Hand c (.insert t sig) := hpc ▸ h.hand c
  obtain ⟨hsig, n, hn, rfl⟩ := hhand
  have hne : SigPlace.hand c ≠ .list t := nofun
  have hperm : (s.nodes (.list t) ++ [n]).Perm (n :: s.nodes (.list t)) :=
    List.perm_append_singleton _ _
  simp only [SigSys.killInsert, hn] at hs
  obtain rfl := Option.some.inj hs
  refine h.move hn hperm hne (fun c' hc => ⟨hand_ne hc, nofun⟩) rfl (fun _ _ => rfl)
    (fun c' hc => Function.update_of_ne hc _ _) ?_ ?_
  · have hempty : Queues.move s.nodes (.hand c) [] (.list t) (s.nodes (.list t) ++ [n])
        (.hand c) = [] := Queues.move_from hne
    change Hand _ c (Function.update s.pc c (.deliver t) c)
    rw [Function.update_self]
    exact hempty
  · have hmem (t' : ThreadId) (m : SigNode) :
        m ∈ Queues.move s.nodes (.hand c) [] (.list t) (s.nodes (.list t) ++ [n]) (.list t') ↔
          (m = n ∧ t' = t) ∨ m ∈ s.nodes (.list t') := by
      rw [h.apart.mem_move hn hperm hne, SigPlace.list.injEq]
      refine or_congr_right (and_iff_right_of_imp ?_)
      rintro hm rfl
      have hplace := h.apart.same hm (Queues.head_mem hn)
      cases hplace
    refine h.lists.add hsig hfresh hmem rfl fun t' sig => ?_
    · by_cases ht : t' = t
      · subst ht
        change (Function.update s.thread t' _ t').sigPending.getLsbD sig = true ↔ _
        rw [Function.update_self, BitSet.getLsbD_insert _ hsig]
        simp only [true_and]
      · change (Function.update s.thread t _ t').sigPending.getLsbD sig = true ↔ _
        rw [Function.update_of_ne ht]
        simp only [ht, false_and, or_false]

/-- The handler has returned: the call has nothing in its hand for its next round. -/
theorem handlerReturn (h : s.Sound fresh poolSize) {cleanState : Bool}
    (hpc : s.pc c = .handling cleanState) :
    ((s.handlerReturn c).goto c .idle).Sound fresh poolSize := by
  have hhand : s.Hand c (.handling cleanState) := hpc ▸ h.hand c
  obtain ⟨n, hn⟩ := hhand
  have hne : SigPlace.hand c ≠ .free := nofun
  simp only [SigSys.handlerReturn, hn]
  refine h.move hn (List.Perm.refl _) hne (fun c' hc => ⟨hand_ne hc, nofun⟩) rfl (fun _ _ => rfl)
    (fun c' hc => Function.update_of_ne hc _ _) ?_ ?_
  · have hempty : Queues.move s.nodes (.hand c) [] .free (n :: s.nodes .free) (.hand c) = [] :=
      Queues.move_from hne
    change Hand _ c (Function.update s.pc c .idle c)
    rw [Function.update_self]
    exact hempty
  · have hlist (t' : ThreadId) : Queues.move s.nodes (.hand c) [] .free (n :: s.nodes .free)
        (.list t') = s.nodes (.list t') := Queues.move_other nofun nofun
    exact h.lists.frame hlist (fun _ _ _ => rfl) fun _ => rfl

/-- A thread with the bit of a signal cleared. -/
theorem pending_erase {t' : ThreadId} {th : SigThread} {i sig : Nat} (hi : i < 32)
    (hth : th.sigPending = (s.thread t).sigPending &&& ~~~BitSet.mask 32 i) :
    ((s.setThread t th).thread t').sigPending.getLsbD sig = true ↔
      (s.thread t').sigPending.getLsbD sig = true ∧ ¬ (t' = t ∧ sig = i) := by
  by_cases ht : t' = t
  · subst ht
    change (Function.update s.thread t' _ t').sigPending.getLsbD sig = true ↔ _
    rw [Function.update_self, hth, BitSet.getLsbD_erase _ hi]
    simp only [true_and, ne_eq]
  · change (Function.update s.thread t _ t').sigPending.getLsbD sig = true ↔ _
    rw [Function.update_of_ne ht]
    simp only [ht, false_and, not_false_eq_true, and_true]

theorem handleRound (h : s.Sound fresh poolSize) (hhand : s.nodes (.hand c) = [])
    {cleanState : Bool} : (s.handleRound c t cleanState).Sound fresh poolSize := by
  simp only [SigSys.handleRound]
  split
  · exact h.handled hhand
  split
  case h_1 => exact h.handled hhand
  case h_2 n rest hlist =>
    split
    case h_1 => exact h.goto hhand
    case h_2 =>
      have hn : n ∈ s.nodes (.list t) := Queues.head_mem hlist
      have hne : SigPlace.list t ≠ .hand c := nofun
      have hperm : (n :: s.nodes (.hand c)).Perm (n :: s.nodes (.hand c)) := List.Perm.refl _
      refine h.move hlist hperm hne (fun c' hc => ⟨nofun, hand_ne hc⟩) rfl (fun _ _ => rfl)
        (fun c' hc => Function.update_of_ne hc _ _) ?_ ?_
      · change Hand _ c (Function.update s.pc c (.handling cleanState) c)
        rw [Function.update_self]
        refine ⟨n, ?_⟩
        rw [← hhand]
        exact Queues.move_to
      · have hmem (t' : ThreadId) (m : SigNode) :
            m ∈ Queues.move s.nodes (.list t) rest (.hand c) (n :: s.nodes (.hand c)) (.list t') ↔
              m ≠ n ∧ m ∈ s.nodes (.list t') := by
          refine (h.apart.mem_move hlist hperm hne).trans (or_iff_right ?_)
          rintro ⟨-, hplace⟩
          cases hplace
        exact h.lists.erase h.apart hn hmem rfl fun t' sig => pending_erase (h.lists.valid hn) rfl

/-- The waiting thread takes a node from its list and frees it. -/
theorem takeWaited (h : s.Sound fresh poolSize) {set : BitVec 32} :
    (s.takeWaited t set).Sound fresh poolSize := by
  simp only [SigSys.takeWaited]
  split
  case h_1 => exact h
  case h_2 n hfind =>
    have hn : n ∈ s.nodes (.list t) := List.mem_of_find?_eq_some hfind
    have hperm := List.Perm.refl (n :: Queues.unlink s.nodes n .free)
    refine ⟨h.apart.relink hperm, fun m => ?_, fun c => ?_, ?_⟩
    · rw [← h.pool m]
      constructor
      · rintro ⟨p, hm⟩
        rcases (h.apart.mem_relink hperm).1 hm with ⟨rfl, -⟩ | ⟨-, hm⟩
        · exact ⟨_, hn⟩
        · exact ⟨p, hm⟩
      · rintro ⟨p, hm⟩
        by_cases hmn : m = n
        · exact ⟨.free, (h.apart.mem_relink hperm).2 (Or.inl ⟨hmn, rfl⟩)⟩
        · exact ⟨p, (h.apart.mem_relink hperm).2 (Or.inr ⟨hmn, hm⟩)⟩
    · have hne : SigPlace.hand c ≠ .free := nofun
      have hhand : Function.update (Queues.unlink s.nodes n) .free
          (n :: Queues.unlink s.nodes n .free) (.hand c) = s.nodes (.hand c) := by
        rw [Function.update_of_ne hne]
        exact h.apart.unlink_of_ne hn nofun
      exact (h.hand c).frame hhand fun _ _ => rfl
    · have hmem (t' : ThreadId) (m : SigNode) :
          m ∈ Function.update (Queues.unlink s.nodes n) .free
              (n :: Queues.unlink s.nodes n .free) (.list t') ↔
            m ≠ n ∧ m ∈ s.nodes (.list t') := by
        refine (h.apart.mem_relink hperm).trans (or_iff_right ?_)
        rintro ⟨-, hplace⟩
        cases hplace
      exact h.lists.erase h.apart hn hmem rfl fun t' sig => pending_erase (h.lists.valid hn) rfl

-- --------
-- The calls
-- --------

/-- A round says itself where the call goes on. -/
theorem handleRound_goto (pc : SigPc) {cleanState : Bool} :
    (s.goto c pc).handleRound c t cleanState = s.handleRound c t cleanState := by
  cases hlist : s.nodes (.list t) with
  | nil =>
    simp only [SigSys.handleRound, SigSys.handled, SigSys.goto, SigSys.setThread, deliverable, hlist,
      Function.update_idem]
  | cons n rest =>
    cases hvec : (s.thread t).sigVectors with
    | none =>
      simp only [SigSys.handleRound, SigSys.handled, SigSys.goto, SigSys.setThread, deliverable,
        hlist, hvec, Function.update_idem]
    | some vectors =>
      simp only [SigSys.handleRound, SigSys.handled, SigSys.goto, SigSys.setThread, deliverable,
        hlist, hvec, Function.update_idem]

theorem handleStart (h : s.Sound fresh poolSize) (hhand : s.nodes (.hand c) = [])
    {cleanState : Bool} : (s.handleStart c t cleanState).Sound fresh poolSize := by
  simp only [SigSys.handleStart]
  split
  · exact h.handleRound hhand
  split
  · exact h.goto hhand
  · exact h.handled hhand

theorem next (h : s.Sound fresh poolSize) (hok : fresh → s.InsertsFresh (.next c))
    (hs : s.next cfg c = some s') : s'.Sound fresh poolSize := by
  have hhand := h.hand c
  unfold SigSys.next at hs
  cases hpc : s.pc c with
  | lookup t sig =>
    rw [hpc] at hs
    obtain rfl := Option.some.inj hs
    exact h.killLookup hpc
  | alloc t sig =>
    rw [hpc] at hs
    obtain rfl := Option.some.inj hs
    exact h.killAlloc hpc
  | insert t sig =>
    rw [hpc] at hs
    refine h.killInsert hpc (fun hf => ?_) hs
    have hfresh := hok hf
    simp only [InsertsFresh, hpc] at hfresh
    exact hfresh
  | deliver t =>
    rw [hpc] at hs hhand
    obtain rfl := Option.some.inj hs
    exact h.deliver hhand
  | handle cleanState =>
    rw [hpc] at hs hhand
    obtain rfl := Option.some.inj hs
    exact h.handleStart hhand
  | handling cleanState =>
    rw [hpc] at hs
    obtain rfl := Option.some.inj hs
    -- the node goes back to the pool, and the next round starts with an empty hand
    have hreturn := h.handlerReturn hpc
    have hempty := hreturn.hand c
    have hidle : ((s.handlerReturn c).goto c .idle).pc c = .idle := Function.update_self _ _ _
    rw [hidle] at hempty
    rw [← handleRound_goto .idle]
    exact hreturn.handleRound hempty
  | idle =>
    rw [hpc] at hs
    cases hs
  | waiting set =>
    rw [hpc] at hs
    cases hs
  | fault =>
    rw [hpc] at hs
    cases hs

theorem wait (h : s.Sound fresh poolSize) (hhand : s.nodes (.hand c) = []) {set : BitVec 32}
    {timeout : Int} : (s.wait cfg c set timeout).Sound fresh poolSize := by
  simp only [SigSys.wait]
  split
  · exact h
  split
  · exact h.takeWaited
  split
  · exact h
  · exact h.setGoto (by rfl) hhand

theorem woken (h : s.Sound fresh poolSize) (hhand : s.nodes (.hand c) = []) {set : BitVec 32}
    {timedOut : Bool} : (s.woken cfg c set timedOut).Sound fresh poolSize := by
  have hback : ((s.setThread (cfg.self c) { s.thread (cfg.self c) with signalWait := false }).goto c
      .idle).Sound fresh poolSize := h.setGoto rfl hhand
  simp only [SigSys.woken]
  split
  · exact hback
  · exact hback.takeWaited

/-- **A step.** -/
theorem step {a : SigAct} (h : s.Sound fresh poolSize) (hok : fresh → s.InsertsFresh a)
    (hs : step cfg s a = some s') : s'.Sound fresh poolSize := by
  -- a call that begins has nothing in its hand
  have hidle (c : SigCtx) (hpc : s.pc c = .idle) : s.nodes (.hand c) = [] := by
    have hhand := h.hand c
    rw [hpc] at hhand
    exact hhand
  cases a with
  | kill c t sig =>
    obtain ⟨hpc, rfl⟩ := Runs.takeIf_eq_some.1 hs
    split
    case isTrue hsig => exact h.goto ⟨hidle c hpc, hsig⟩
    case isFalse => exact h
  | mask c signo =>
    obtain ⟨hpc, rfl⟩ := Runs.takeIf_eq_some.1 hs
    exact h.setThread rfl
  | unmask c signo =>
    obtain ⟨hpc, rfl⟩ := Runs.takeIf_eq_some.1 hs
    split
    · exact h.setGoto (by rfl) (hidle c hpc)
    · exact h.setThread rfl
  | install c signo handler =>
    obtain ⟨hpc, rfl⟩ := Runs.takeIf_eq_some.1 hs
    simp only [SigSys.install]
    split
    · exact h.setThread rfl
    · exact h
  | wait c set timeout =>
    obtain ⟨hpc, rfl⟩ := Runs.takeIf_eq_some.1 hs
    exact h.wait (hidle c hpc)
  | woken c timedOut =>
    simp only [SigSys.step] at hs
    split at hs
    case h_1 set hpc =>
      obtain ⟨-, rfl⟩ := Runs.takeIf_eq_some.1 hs
      have hhand := h.hand c
      rw [hpc] at hhand
      exact h.woken hhand
    case h_2 => cases hs
  | next c => exact h.next hok hs
  | entry c =>
    simp only [SigSys.step] at hs
    split at hs
    · obtain ⟨hpc, rfl⟩ := Runs.takeIf_eq_some.1 hs
      exact h.goto (hidle c hpc)
    · cases hs
  | schedule c =>
    simp only [SigSys.step] at hs
    split at hs
    · obtain ⟨hpc, rfl⟩ := Runs.takeIf_eq_some.1 hs
      exact h.setGoto (by rfl) (hidle c hpc)
    · cases hs
  | suspend t suspended =>
    obtain rfl := Option.some.inj hs
    exact h.setThread rfl

/-- It holds before anything happens. -/
theorem start : (init poolSize).Sound fresh poolSize where
  apart := by
    refine ⟨fun p => ?_, fun {p p' n} hn hn' => ?_⟩
    · simp only [init]
      split
      · exact List.nodup_range
      · exact List.nodup_nil
    · simp only [init] at hn hn'
      split at hn
      case isTrue hp =>
        split at hn'
        case isTrue hp' => exact hp.trans hp'.symm
        case isFalse => cases hn'
      case isFalse => cases hn
  pool n := by
    rw [← List.mem_range]
    constructor
    · rintro ⟨p, hn⟩
      simp only [init] at hn
      split at hn
      · exact hn
      · cases hn
    · intro hn
      exact ⟨.free, hn⟩
  hand c := rfl
  lists := by
    refine ⟨nofun, fun {t sig} hsig => ?_, nofun, nofun⟩
    have hzero : (0#32).getLsbD sig = false := BitVec.getLsbD_zero
    exact absurd (hsig.symm.trans hzero) nofun

end Sound

-- --------
-- Whole runs
-- --------

/-- A run in which the signals are handled at will. -/
abbrev SigRuns (cfg : SigCfg) (Ok : SigSys → SigAct → Prop) : SigSys → Prop :=
  Runs (Runs.Exec (step cfg)) Ok (init cfg.poolSize)

/-- What a call has in its hand, whatever it does. -/
theorem Hand.holds {pc : SigPc} (h : s.Hand c pc) : s.nodes (.hand c) = [] ∨
    (∃ n, s.nodes (.hand c) = [n]) ∧
      ((∃ t sig, pc = .insert t sig) ∨ ∃ cleanState, pc = .handling cleanState) := by
  cases pc with
  | insert t sig =>
    obtain ⟨-, n, hn, -⟩ := h
    exact Or.inr ⟨⟨n, hn⟩, Or.inl ⟨t, sig, rfl⟩⟩
  | handling cleanState => exact Or.inr ⟨h, Or.inr ⟨cleanState, rfl⟩⟩
  | lookup t sig => exact Or.inl h.1
  | alloc t sig => exact Or.inl h.1
  | idle | deliver t | waiting set | handle cleanState | fault => exact Or.inl h

/-- **The nodes.** Every node is free, on the list of one thread, or in the hand of one call that
is to put it in or runs its handler, and a pending signal has a node. In a run in which no node is
put in for a signal that is pending, that node is the only one, and no node is left without its
pending bit. -/
theorem signal_nodes (hrun : SigRuns cfg Runs.always s) :
    (∀ n < cfg.poolSize, ∃! p, n ∈ s.nodes p) ∧ (∀ p, (s.nodes p).Nodup) ∧
    (∀ c, s.nodes (.hand c) = [] ∨ (∃ n, s.nodes (.hand c) = [n]) ∧
      ((∃ t sig, s.pc c = .insert t sig) ∨ ∃ cleanState, s.pc c = .handling cleanState)) ∧
    (∀ t sig, (s.thread t).sigPending.getLsbD sig = true → ∃ n ∈ s.nodes (.list t), s.si n = sig) ∧
    (SigRuns cfg InsertsFresh s →
      (∀ t sig, (s.thread t).sigPending.getLsbD sig = true ↔
        ∃! n, n ∈ s.nodes (.list t) ∧ s.si n = sig) ∧
      ∀ t, ∀ n ∈ s.nodes (.list t), (s.thread t).sigPending.getLsbD (s.si n) = true) := by
  have h : s.Sound False cfg.poolSize :=
    Runs.invariant (fun s a s' hinv _ hs => hinv.step False.elim hs) hrun Sound.start
  refine ⟨fun n hn => ?_, h.apart.nodup, fun c => (h.hand c).holds, fun t sig => h.lists.shown,
    fun hfresh => ?_⟩
  · obtain ⟨p, hp⟩ := (h.pool n).2 hn
    exact ⟨p, hp, fun p' hp' => h.apart.same hp' hp⟩
  · have hone : s.Sound True cfg.poolSize :=
      Runs.invariant (fun s a s' hinv hok hs => hinv.step (fun _ => hok) hs) hfresh Sound.start
    refine ⟨fun t sig => ⟨fun hsig => ?_, ?_⟩, fun t n hn => hone.lists.pending trivial hn⟩
    · obtain ⟨n, hn, hnsig⟩ := hone.lists.shown hsig
      refine ⟨n, ⟨hn, hnsig⟩, fun m hm => ?_⟩
      exact hone.lists.single trivial hm.1 hn (hm.2.trans hnsig.symm)
    · rintro ⟨n, ⟨hn, rfl⟩, -⟩
      exact hone.lists.pending trivial hn

/-- Every thread makes its own calls. -/
def calls : SigCfg := ⟨32, id, fun _ => false⟩

theorem replayed {Ok : SigSys → SigAct → Prop} [∀ s a, Decidable (Ok s a)] {acts : List SigAct}
    {p : SigSys → Bool}
    (h : (Runs.replay (Runs.execOk (step calls) Ok) (init 32) acts).any p = true) :
    ∃ s, SigRuns calls Ok s ∧ p s = true := by
  obtain ⟨s, -, hrun, hp⟩ := Runs.exec_of_replay h
  exact ⟨s, hrun, hp⟩

/-- The second of two calls finds the node of the first and brings none of its own. -/
theorem signal_nodes_found : ∃ s, SigRuns calls InsertsFresh s ∧
    (s.thread 0).sigPending.getLsbD 10 = true ∧
    ∃! n, n ∈ s.nodes (.list 0) ∧ s.si n = 10 := by
  obtain ⟨s, hrun, hp⟩ := @replayed InsertsFresh _
    [.kill 1 0 10, .next 1, .next 1, .next 1, .kill 2 0 10, .next 2]
    (fun s => (s.thread 0).sigPending.getLsbD 10) (by decide)
  have hall : SigRuns calls Runs.always s := @Runs.mono _ _ _ _ _ _ _ (fun _ => True)
    (fun _ _ _ _ => trivial) (fun _ _ _ _ _ _ => trivial) hrun trivial
  obtain ⟨-, -, -, -, hnodes⟩ := signal_nodes hall
  exact ⟨s, hrun, hp, ((hnodes hrun).1 0 10).1 hp⟩

/-- Two calls look for a node before either puts one in: there are two nodes for one bit, and the
thread takes one of them and clears the bit. In between, a node is in the hand of a call. -/
theorem kill_races :
    (∃ s, SigRuns calls Runs.always s ∧ (s.thread 0).sigPending.getLsbD 10 = true ∧
      ¬ ∃! n, n ∈ s.nodes (.list 0) ∧ s.si n = 10) ∧
    (∃ s, SigRuns calls Runs.always s ∧ (s.thread 0).sigPending.getLsbD 10 = false ∧
      ∃ n ∈ s.nodes (.list 0), s.si n = 10) ∧
    ∃ s, SigRuns calls Runs.always s ∧ ∃ n < calls.poolSize,
      n ∉ s.nodes .free ∧ ∀ t, n ∉ s.nodes (.list t) := by
  refine ⟨?_, ?_, ?_⟩
  · obtain ⟨s, hrun, hp⟩ := @replayed Runs.always _
      [.kill 1 0 10, .next 1, .kill 2 0 10, .next 2, .next 1, .next 1, .next 2, .next 2]
      (fun s => decide ((s.thread 0).sigPending.getLsbD 10 = true ∧ s.nodes (.list 0) = [0, 1] ∧
        s.si 0 = 10 ∧ s.si 1 = 10)) (by decide)
    obtain ⟨hbit, hlist, h0, h1⟩ := of_decide_eq_true hp
    refine ⟨s, hrun, hbit, ?_⟩
    rintro ⟨n, -, hone⟩
    have hzero := hone 0 ⟨by rw [hlist]; exact List.mem_cons_self, h0⟩
    have hnext := hone 1 ⟨by rw [hlist]; exact List.mem_cons_of_mem _ List.mem_cons_self, h1⟩
    have hsame : (0 : SigNode) = 1 := hzero.trans hnext.symm
    exact absurd hsame (by decide)
  · obtain ⟨s, hrun, hp⟩ := @replayed Runs.always _
      [.kill 1 0 10, .next 1, .kill 2 0 10, .next 2, .next 1, .next 1, .next 2, .next 2,
        .wait 0 (BitSet.mask 32 10) 0]
      (fun s => decide ((s.thread 0).sigPending.getLsbD 10 = false ∧
        ∃ n ∈ s.nodes (.list 0), s.si n = 10)) (by decide)
    exact ⟨s, hrun, of_decide_eq_true hp⟩
  · obtain ⟨s, hrun, hp⟩ := @replayed Runs.always _ [.kill 1 0 10, .next 1, .next 1]
      (fun s => decide (0 ∈ s.nodes (.hand 1))) (by decide)
    have hhand : 0 ∈ s.nodes (.hand 1) := of_decide_eq_true hp
    have h : s.Sound False calls.poolSize :=
      Runs.invariant (fun s a s' hinv _ hs => hinv.step False.elim hs) hrun Sound.start
    refine ⟨s, hrun, 0, by decide, fun hfree => ?_, fun t hlist => ?_⟩
    · have hplace := h.apart.same hfree hhand
      cases hplace
    · have hplace := h.apart.same hlist hhand
      cases hplace

end SigSys

end RTThread
