import RTThread.Kernel.SignalNodes

/-!
# The delivery of the signals (`signal.c`)

`rt_thread_handle_sig` goes on while an unmasked signal is pending, and takes the first node of
`si_list` in each round. That one may be for a masked signal: its handler runs, and it is not
pending any more. `signal_delivery`: a run meets what `rt_signal_mask` promises if and only if no
round finds a masked signal at the head.
-/

namespace RTThread

namespace SigSys

variable {cfg : SigCfg} {s s' : SigSys} {c : SigCtx} {t : ThreadId}

/-- The signal is pending, and the thread takes it. -/
def Pending (s : SigSys) (t : ThreadId) (sig : Nat) : Prop :=
  (s.thread t).sigPending.getLsbD sig = true

def Unmasked (s : SigSys) (t : ThreadId) (sig : Nat) : Prop :=
  (s.thread t).sigMask.getLsbD sig = true

instance (s : SigSys) (t : ThreadId) (sig : Nat) : Decidable (s.Pending t sig) :=
  inferInstanceAs (Decidable (_ = _))

instance (s : SigSys) (t : ThreadId) (sig : Nat) : Decidable (s.Unmasked t sig) :=
  inferInstanceAs (Decidable (_ = _))

/-- `rt_thread_handle_sig` is in the handler of the signal. -/
structure Invokes (cfg : SigCfg) (s : SigSys) (c : SigCtx) (sig : Nat) : Prop where
  handling : ∃ cleanState, s.pc c = .handling cleanState
  node : ∃ n, s.nodes (.hand c) = [n] ∧ s.si n = sig
  handler : ∃ handlers ∈ (s.thread (cfg.self c)).sigVectors, handlers sig = true

/-- The step is one of `rt_signal_wait` for the signal. -/
def Waits (cfg : SigCfg) (s : SigSys) (t : ThreadId) (sig : Nat) : SigAct → Prop
  | .wait c set _ => cfg.self c = t ∧ set.getLsbD sig = true
  | .woken c _ => cfg.self c = t ∧ ∃ set, s.pc c = .waiting set ∧ set.getLsbD sig = true
  | _ => False

/-- **What a step is to do.** A handler is called for an unmasked signal only.
`rt_thread_handle_sig` does not return with an unmasked signal pending, unless its thread is in a
signal wait. A masked signal stays pending unless it is waited for. -/
structure Delivers (cfg : SigCfg) (s : SigSys) (a : SigAct) (s' : SigSys) : Prop where
  invokes {c : SigCtx} {sig : Nat} (ha : a = .next c) (h : s'.Invokes cfg c sig) :
    s'.Unmasked (cfg.self c) sig
  drains {c : SigCtx} (ha : a = .next c) (hidle : s'.pc c = .idle) :
    (∀ cleanState, s.pc c = .handle cleanState →
      (s.thread (cfg.self c)).signalWait = false → s'.deliverable (cfg.self c) = 0#32) ∧
    ∀ cleanState, s.pc c = .handling cleanState → s'.deliverable (cfg.self c) = 0#32
  keeps {t : ThreadId} {sig : Nat} (hsig : s.Pending t sig) (hmask : ¬ s.Unmasked t sig) :
    s'.Pending t sig ∨ s.Waits cfg t sig a

/-- If a round takes a node, it is for an unmasked signal: or for one that is ignored, and that is
not pending. -/
def HeadUnmasked (s : SigSys) (t : ThreadId) : Prop :=
  s.deliverable t ≠ 0#32 → ∀ n ∈ (s.nodes (.list t)).head?, ∀ handlers ∈ (s.thread t).sigVectors,
    s.Unmasked t (s.si n) ∨ handlers (s.si n) = false ∧ ¬ s.Pending t (s.si n)

instance (s : SigSys) (t : ThreadId) : Decidable (s.HeadUnmasked t) := by
  unfold HeadUnmasked
  infer_instance

/-- The steps of `rt_thread_handle_sig` that do not take a masked signal. -/
def TakesUnmasked (cfg : SigCfg) (s : SigSys) : SigAct → Prop
  | .next c =>
    match s.pc c with
    | .handle _ => (s.thread (cfg.self c)).signalWait = false → s.HeadUnmasked (cfg.self c)
    | .handling _ => s.HeadUnmasked (cfg.self c)
    | _ => True
  | _ => True

instance (s : SigSys) : ∀ a : SigAct, Decidable (s.TakesUnmasked cfg a)
  | .next c =>
    let each : ∀ pc : SigPc, Decidable (match pc with
        | .handle _ => (s.thread (cfg.self c)).signalWait = false → s.HeadUnmasked (cfg.self c)
        | .handling _ => s.HeadUnmasked (cfg.self c)
        | _ => True)
      | .handle _ => inferInstanceAs (Decidable (_ = false → s.HeadUnmasked (cfg.self c)))
      | .handling _ => inferInstanceAs (Decidable (s.HeadUnmasked (cfg.self c)))
      | .idle | .lookup .. | .alloc .. | .insert .. | .deliver _ | .waiting _ | .fault =>
        isTrue trivial
    each (s.pc c)
  | .kill .. | .mask .. | .unmask .. | .install .. | .wait .. | .woken .. | .entry _ | .schedule _
  | .suspend .. => isTrue trivial

-- --------
-- The pending bits
-- --------

/-- No pending bit is cleared. -/
def KeepsPending (s s' : SigSys) : Prop := ∀ t sig, s.Pending t sig → s'.Pending t sig

theorem KeepsPending.goto (pc : SigPc) : s.KeepsPending (s.goto c pc) := fun _ _ hsig => hsig

theorem KeepsPending.setThread {th : SigThread} (hp : th.sigPending = (s.thread t).sigPending) :
    s.KeepsPending (s.setThread t th) := by
  intro t' sig hsig
  by_cases ht : t' = t
  · subst ht
    change (Function.update s.thread t' th t').sigPending.getLsbD sig = true
    rw [Function.update_self, hp]
    exact hsig
  · change (Function.update s.thread t th t').sigPending.getLsbD sig = true
    rw [Function.update_of_ne ht]
    exact hsig

theorem KeepsPending.setGoto {th : SigThread} {pc : SigPc}
    (hp : th.sigPending = (s.thread t).sigPending) :
    s.KeepsPending ((s.setThread t th).goto c pc) := KeepsPending.setThread hp

/-- The node that is waited for takes its own bit along. -/
theorem takeWaited_keeps (h : s.Lists False) {set : BitVec 32} {t' : ThreadId} {sig : Nat}
    (hsig : s.Pending t' sig) :
    (s.takeWaited t set).Pending t' sig ∨ t = t' ∧ set.getLsbD sig = true := by
  simp only [takeWaited]
  split
  case h_1 => exact Or.inl hsig
  case h_2 n hfind =>
    have hn : n ∈ s.nodes (.list t) := List.mem_of_find?_eq_some hfind
    have hset : set.getLsbD (s.si n) = true := @List.find?_some _ _ n _ hfind
    by_cases hthis : t' = t ∧ sig = s.si n
    · obtain ⟨rfl, rfl⟩ := hthis
      exact Or.inr ⟨rfl, hset⟩
    · exact Or.inl ((Sound.pending_erase (h.valid hn) rfl).2 ⟨hsig, hthis⟩)

theorem killInsert_keeps {sig : Nat} (hs : s.killInsert c t sig = some s') :
    s.KeepsPending s' := by
  intro t' sig' hsig'
  unfold killInsert at hs
  split at hs
  · cases hs
  · obtain rfl := Option.some.inj hs
    by_cases ht : t' = t
    · subst ht
      change (Function.update s.thread t' _ t').sigPending.getLsbD sig' = true
      rw [Function.update_self, BitVec.getLsbD_or, hsig', Bool.true_or]
    · change (Function.update s.thread t _ t').sigPending.getLsbD sig' = true
      rw [Function.update_of_ne ht]
      exact hsig'

theorem deliver_keeps : s.KeepsPending (s.deliver cfg c t) := by
  simp only [deliver]
  split
  · exact KeepsPending.goto _
  split
  · exact KeepsPending.setGoto (by rfl)
  split
  · exact KeepsPending.setGoto (by rfl)
  split
  · exact KeepsPending.setGoto (by rfl)
  · exact KeepsPending.goto _

theorem killLookup_keeps {sig : Nat} : s.KeepsPending (s.killLookup c t sig) := by
  unfold killLookup
  split
  · exact KeepsPending.goto _
  · exact KeepsPending.goto _

theorem killAlloc_keeps {sig : Nat} : s.KeepsPending (s.killAlloc c t sig) := by
  unfold killAlloc
  split
  · exact KeepsPending.goto _
  · exact fun _ _ hsig' => hsig'

-- --------
-- A round
-- --------

/-- A round that takes the node `n` and calls the handler. -/
def taken (s : SigSys) (c : SigCtx) (t : ThreadId) (n : SigNode) (rest : List SigNode)
    (cleanState : Bool) : SigSys :=
  let th := s.thread t
  let s := s.setThread t { th with sigPending := th.sigPending &&& ~~~BitSet.mask 32 (s.si n) }
  let nodes := Queues.move s.nodes (.list t) rest (.hand c) (n :: s.nodes (.hand c))
  { s.goto c (.handling cleanState) with nodes := nodes }

/-- What a round does. -/
theorem handleRound_cases (s : SigSys) (c : SigCtx) (t : ThreadId) (cleanState : Bool) :
    (s.deliverable t = 0#32 ∨ s.nodes (.list t) = []) ∧
      s.handleRound c t cleanState = s.handled c t cleanState ∨
    s.deliverable t ≠ 0#32 ∧ ∃ n rest, s.nodes (.list t) = n :: rest ∧
      ((s.thread t).sigVectors = none ∧ s.handleRound c t cleanState = s.goto c .fault ∨
        ∃ handlers, (s.thread t).sigVectors = some handlers ∧
          s.handleRound c t cleanState = s.taken c t n rest cleanState) := by
  by_cases hzero : s.deliverable t = 0#32
  · exact Or.inl ⟨Or.inl hzero, if_pos hzero⟩
  · cases hlist : s.nodes (.list t) with
    | nil =>
      refine Or.inl ⟨Or.inr rfl, ?_⟩
      simp only [handleRound, if_neg hzero, hlist]
    | cons n rest =>
      refine Or.inr ⟨hzero, n, rest, rfl, ?_⟩
      cases hvec : (s.thread t).sigVectors with
      | none =>
        refine Or.inl ⟨rfl, ?_⟩
        simp only [handleRound, if_neg hzero, hlist, hvec]
      | some handlers =>
        refine Or.inr ⟨handlers, rfl, ?_⟩
        simp only [handleRound, if_neg hzero, hlist, hvec, taken]

theorem handled_pc {cleanState : Bool} : (s.handled c t cleanState).pc c = .idle := by
  simp only [handled]
  split
  · exact Function.update_self _ _ _
  · exact Function.update_self _ _ _

theorem handled_keeps {cleanState : Bool} : s.KeepsPending (s.handled c t cleanState) := by
  simp only [handled]
  split
  · exact KeepsPending.setGoto (by rfl)
  · exact KeepsPending.setGoto (by rfl)

theorem handled_deliverable {cleanState : Bool} :
    (s.handled c t cleanState).deliverable t = s.deliverable t := by
  simp only [handled, deliverable]
  split
  · simp only [goto, setThread, Function.update_self]
  · simp only [goto, setThread, Function.update_self]

theorem Lists.deliverable_of_nil (h : s.Lists False) (hlist : s.nodes (.list t) = []) :
    s.deliverable t = 0#32 := by
  by_contra hne
  obtain ⟨sig, hsig⟩ := (BitSet.ne_zero_iff _).1 hne
  rw [deliverable, BitVec.getLsbD_and, Bool.and_eq_true] at hsig
  obtain ⟨n, hn, -⟩ := h.shown hsig.1
  rw [hlist] at hn
  cases hn

/-- What a round is to do. -/
structure RoundDelivers (cfg : SigCfg) (s : SigSys) (c : SigCtx) (s' : SigSys) : Prop where
  invokes {sig : Nat} (h : s'.Invokes cfg c sig) : s'.Unmasked (cfg.self c) sig
  drains (hidle : s'.pc c = .idle) : s'.deliverable (cfg.self c) = 0#32
  keeps {t : ThreadId} {sig : Nat} (hsig : s.Pending t sig) (hmask : ¬ s.Unmasked t sig) :
    s'.Pending t sig

theorem Invokes.absurd {sig : Nat} (h : s.Invokes cfg c sig) {pc : SigPc} (hpc : s.pc c = pc)
    (hne : ∀ cleanState, pc ≠ .handling cleanState) : False := by
  obtain ⟨cleanState, hhandling⟩ := h.handling
  exact hne cleanState (hpc.symm.trans hhandling)

/-- A round that takes a node. -/
theorem taken_delivers_iff (h : s.Lists False) (hhand : s.nodes (.hand c) = []) {n : SigNode}
    {rest : List SigNode} (hlist : s.nodes (.list (cfg.self c)) = n :: rest)
    {handlers : Nat → Bool} (hvec : (s.thread (cfg.self c)).sigVectors = some handlers)
    {cleanState : Bool} :
    RoundDelivers cfg s c (s.taken c (cfg.self c) n rest cleanState) ↔
      s.Unmasked (cfg.self c) (s.si n) ∨
        handlers (s.si n) = false ∧ ¬ s.Pending (cfg.self c) (s.si n) := by
  have hn : n ∈ s.nodes (.list (cfg.self c)) := Queues.head_mem hlist
  have hthread : (s.taken c (cfg.self c) n rest cleanState).thread (cfg.self c) =
      { s.thread (cfg.self c) with sigPending :=
        (s.thread (cfg.self c)).sigPending &&& ~~~BitSet.mask 32 (s.si n) } :=
    Function.update_self _ _ _
  have hpc : (s.taken c (cfg.self c) n rest cleanState).pc c = .handling cleanState :=
    Function.update_self _ _ _
  have hnode : (s.taken c (cfg.self c) n rest cleanState).nodes (.hand c) = [n] := by
    rw [← hhand]
    exact Queues.move_to
  have hunmasked (sig : Nat) : (s.taken c (cfg.self c) n rest cleanState).Unmasked (cfg.self c) sig ↔
      s.Unmasked (cfg.self c) sig := by
    rw [Unmasked, hthread]
    exact Iff.rfl
  have hpending (t : ThreadId) (sig : Nat) :
      (s.taken c (cfg.self c) n rest cleanState).Pending t sig ↔
        s.Pending t sig ∧ ¬ (t = cfg.self c ∧ sig = s.si n) :=
    Sound.pending_erase (h.valid hn) rfl
  constructor
  · intro hround
    by_cases hmask : s.Unmasked (cfg.self c) (s.si n)
    · exact Or.inl hmask
    · refine Or.inr ⟨?_, fun hsig => ?_⟩
      · rw [← Bool.not_eq_true]
        intro hcalled
        have hinvokes : (s.taken c (cfg.self c) n rest cleanState).Invokes cfg c (s.si n) := by
          refine ⟨⟨cleanState, hpc⟩, ⟨n, hnode, rfl⟩, handlers, ?_, hcalled⟩
          rw [hthread]
          exact hvec
        exact hmask ((hunmasked _).1 (hround.invokes hinvokes))
      · exact ((hpending _ _).1 (hround.keeps hsig hmask)).2 ⟨rfl, rfl⟩
  · intro hhead
    refine ⟨fun {sig} hinvokes => ?_, fun hidle => ?_, fun {t sig} hsig hmask => ?_⟩
    · obtain ⟨m, hm, rfl⟩ := hinvokes.node
      rw [hnode] at hm
      obtain rfl : n = m := List.head_eq_of_cons_eq hm
      rcases hhead with hmask | ⟨hignored, -⟩
      · exact (hunmasked _).2 hmask
      · obtain ⟨handlers', hvec', hcalled⟩ := hinvokes.handler
        rw [hthread] at hvec'
        obtain rfl := Option.some.inj (hvec.symm.trans hvec')
        exact absurd (hignored.symm.trans hcalled) nofun
    · exact absurd (hpc.symm.trans hidle) nofun
    · refine (hpending t sig).2 ⟨hsig, ?_⟩
      rintro ⟨rfl, rfl⟩
      rcases hhead with hunm | ⟨-, hnot⟩
      · exact hmask hunm
      · exact hnot hsig

/-- **A round** does what it is to do if and only if it does not take a masked signal. -/
theorem handleRound_delivers_iff (h : s.Lists False) (hhand : s.nodes (.hand c) = [])
    {cleanState : Bool} :
    RoundDelivers cfg s c (s.handleRound c (cfg.self c) cleanState) ↔
      s.HeadUnmasked (cfg.self c) := by
  rcases handleRound_cases s c (cfg.self c) cleanState with
    ⟨hnone, hround⟩ | ⟨hsome, n, rest, hlist, hround⟩
  · have hzero : s.deliverable (cfg.self c) = 0#32 := hnone.elim id h.deliverable_of_nil
    rw [hround]
    refine iff_of_true ⟨fun hinvokes => ?_, fun _ => ?_, fun hsig _ => ?_⟩ fun hne => ?_
    · exact (hinvokes.absurd handled_pc nofun).elim
    · exact handled_deliverable.trans hzero
    · exact handled_keeps _ _ hsig
    · exact absurd hzero hne
  · have hhead : s.HeadUnmasked (cfg.self c) ↔ ∀ handlers ∈ (s.thread (cfg.self c)).sigVectors,
        s.Unmasked (cfg.self c) (s.si n) ∨
          handlers (s.si n) = false ∧ ¬ s.Pending (cfg.self c) (s.si n) := by
      rw [HeadUnmasked, hlist]
      constructor
      · intro hhead
        exact hhead hsome n rfl
      · rintro hhead - m hm
        obtain rfl := Option.some.inj hm
        exact hhead
    rw [hhead]
    rcases hround with ⟨hvec, hround⟩ | ⟨handlers, hvec, hround⟩
    · have hpc : (s.goto c .fault).pc c = .fault := Function.update_self _ _ _
      rw [hround, hvec]
      refine iff_of_true ⟨fun hinvokes => ?_, fun hidle => ?_, fun hsig _ => hsig⟩ nofun
      · exact (hinvokes.absurd hpc nofun).elim
      · exact absurd (hpc.symm.trans hidle) nofun
    · rw [hround, taken_delivers_iff h hhand hlist hvec, hvec]
      constructor
      · rintro hone handlers' hvec'
        obtain rfl := Option.some.inj hvec'
        exact hone
      · intro hall
        exact hall handlers rfl

-- --------
-- A step
-- --------

/-- A step outside of `rt_thread_handle_sig`. -/
theorem Delivers.of_keeps {a : SigAct}
    (hout : ∀ c, a = .next c → ∀ cleanState,
      s'.pc c ≠ .handling cleanState ∧ s.pc c ≠ .handle cleanState ∧ s.pc c ≠ .handling cleanState)
    (hkeeps : ∀ t sig, s.Pending t sig → s'.Pending t sig ∨ s.Waits cfg t sig a) :
    Delivers cfg s a s' where
  invokes {c sig} ha h := by
    obtain ⟨cleanState, hpc⟩ := h.handling
    exact absurd hpc (hout c ha cleanState).1
  drains {c} ha _ :=
    ⟨fun cleanState hpc => absurd hpc (hout c ha cleanState).2.1,
      fun cleanState hpc => absurd hpc (hout c ha cleanState).2.2⟩
  keeps {t sig} hsig _ := hkeeps t sig hsig

/-- Where a call goes on that is not in `rt_thread_handle_sig`. -/
theorem next_pc (hs : s.next cfg c = some s') (cleanState : Bool)
    (hhandle : ∀ cleanState, s.pc c ≠ .handle cleanState)
    (hhandling : ∀ cleanState, s.pc c ≠ .handling cleanState) :
    s'.pc c ≠ .handling cleanState ∧ s.KeepsPending s' := by
  have hgo (s : SigSys) (pc : SigPc) (hpc : pc ≠ .handling cleanState) :
      (s.goto c pc).pc c ≠ .handling cleanState := by
    have hat : (s.goto c pc).pc c = pc := Function.update_self _ _ _
    rw [hat]
    exact hpc
  unfold SigSys.next at hs
  cases hpc : s.pc c with
  | lookup t sig =>
    rw [hpc] at hs
    obtain rfl := Option.some.inj hs
    refine ⟨?_, killLookup_keeps⟩
    unfold killLookup
    split
    · exact hgo s _ (by rintro ⟨⟩)
    · exact hgo s _ (by rintro ⟨⟩)
  | alloc t sig =>
    rw [hpc] at hs
    obtain rfl := Option.some.inj hs
    refine ⟨?_, killAlloc_keeps⟩
    unfold killAlloc
    split
    · exact hgo s _ (by rintro ⟨⟩)
    · exact hgo s (.insert t sig) (by rintro ⟨⟩)
  | insert t sig =>
    rw [hpc] at hs
    refine ⟨?_, killInsert_keeps hs⟩
    simp only [killInsert] at hs
    split at hs
    · cases hs
    · obtain rfl := Option.some.inj hs
      exact hgo s (.deliver t) (by rintro ⟨⟩)
  | deliver t =>
    rw [hpc] at hs
    obtain rfl := Option.some.inj hs
    refine ⟨?_, deliver_keeps⟩
    simp only [deliver]
    split
    · exact hgo _ _ (by rintro ⟨⟩)
    split
    · exact hgo _ _ (by rintro ⟨⟩)
    split
    · refine hgo _ _ ?_
      split
      · rintro ⟨⟩
      · rintro ⟨⟩
    split
    · exact hgo _ _ (by rintro ⟨⟩)
    · exact hgo _ _ (by rintro ⟨⟩)
  | handle cleanState => exact absurd hpc (hhandle cleanState)
  | handling cleanState => exact absurd hpc (hhandling cleanState)
  | idle | waiting set | fault =>
    rw [hpc] at hs
    cases hs

/-- A step of `rt_thread_handle_sig` that is a round, also when it has freed the last node before. -/
theorem delivers_iff_round (s₁ : SigSys) (hthread : s₁.thread = s.thread)
    (hpc : (∃ cleanState, s.pc c = .handle cleanState ∧
        (s.thread (cfg.self c)).signalWait = false) ∨
      ∃ cleanState, s.pc c = .handling cleanState) :
    Delivers cfg s (.next c) s' ↔ RoundDelivers cfg s₁ c s' := by
  have hsame (t : ThreadId) (sig : Nat) : (s₁.Pending t sig ↔ s.Pending t sig) ∧
      (s₁.Unmasked t sig ↔ s.Unmasked t sig) := by
    rw [Pending, Unmasked, hthread]
    exact ⟨Iff.rfl, Iff.rfl⟩
  constructor
  · intro h
    refine ⟨fun hinvokes => h.invokes rfl hinvokes, fun hidle => ?_, fun {t sig} hsig hmask => ?_⟩
    · obtain ⟨hhandle, hhandling⟩ := h.drains rfl hidle
      rcases hpc with ⟨cleanState, hat, hwait⟩ | ⟨cleanState, hat⟩
      · exact hhandle cleanState hat hwait
      · exact hhandling cleanState hat
    · obtain ⟨hpending, hunmasked⟩ := hsame t sig
      rcases h.keeps (hpending.1 hsig) (fun hu => hmask (hunmasked.2 hu)) with hkept | hwaits
      · exact hkept
      · exact hwaits.elim
  · intro h
    refine ⟨fun {c' sig} ha hinvokes => ?_, fun {c'} ha hidle => ?_, fun {t sig} hsig hmask => ?_⟩
    · obtain rfl := SigAct.next.inj ha
      exact h.invokes hinvokes
    · obtain rfl := SigAct.next.inj ha
      exact ⟨fun _ _ _ => h.drains hidle, fun _ _ => h.drains hidle⟩
    · obtain ⟨hpending, hunmasked⟩ := hsame t sig
      exact Or.inl (h.keeps (hpending.2 hsig) fun hu => hmask (hunmasked.1 hu))

/-- The start of `rt_thread_handle_sig`. -/
theorem handleStart_delivers_iff (h : s.Lists False) (hhand : s.nodes (.hand c) = [])
    {cleanState : Bool} (hpc : s.pc c = .handle cleanState) :
    Delivers cfg s (.next c) (s.handleStart c (cfg.self c) cleanState) ↔
      ((s.thread (cfg.self c)).signalWait = false → s.HeadUnmasked (cfg.self c)) := by
  by_cases hloop : s.deliverable (cfg.self c) ≠ 0#32 ∧ (s.thread (cfg.self c)).signalWait = false
  · have hwait := hloop.2
    have hstart : s.handleStart c (cfg.self c) cleanState =
        s.handleRound c (cfg.self c) cleanState := if_pos hloop
    rw [hstart, delivers_iff_round s rfl (Or.inl ⟨cleanState, hpc, hwait⟩),
      handleRound_delivers_iff h hhand]
    exact ⟨fun hhead _ => hhead, fun hhead => hhead hwait⟩
  · have hquiet : (s.thread (cfg.self c)).signalWait = false → s.deliverable (cfg.self c) = 0#32 :=
      fun hwait => not_not.1 fun hne => hloop ⟨hne, hwait⟩
    -- nothing to do, or the thread waits: the call returns at once
    have hreturns : (s.handleStart c (cfg.self c) cleanState).pc c = .idle ∧
        s.KeepsPending (s.handleStart c (cfg.self c) cleanState) ∧
        (s.handleStart c (cfg.self c) cleanState).deliverable (cfg.self c) =
          s.deliverable (cfg.self c) := by
      simp only [handleStart, if_neg hloop]
      split
      · exact ⟨Function.update_self _ _ _, KeepsPending.goto _, rfl⟩
      · exact ⟨handled_pc, handled_keeps, handled_deliverable⟩
    obtain ⟨hidle, hkeeps, hdel⟩ := hreturns
    refine iff_of_true ⟨fun {c' sig} ha hinvokes => ?_, fun {c'} ha _ => ?_, fun {t sig} hsig _ => ?_⟩
      fun hwait hne => ?_
    · obtain rfl := SigAct.next.inj ha
      exact (hinvokes.absurd hidle (by rintro _ ⟨⟩)).elim
    · obtain rfl := SigAct.next.inj ha
      refine ⟨fun _ _ hwait => hdel.trans (hquiet hwait), fun cleanState' hat => ?_⟩
      exact absurd (hpc.symm.trans hat) (by rintro ⟨⟩)
    · exact Or.inl (hkeeps t sig hsig)
    · exact absurd (hquiet hwait) hne

/-- The handler has returned, and the next round comes. -/
theorem handling_delivers_iff (h : s.Sound False cfg.poolSize) {cleanState : Bool}
    (hpc : s.pc c = .handling cleanState) :
    Delivers cfg s (.next c) ((s.handlerReturn c).handleRound c (cfg.self c) cleanState) ↔
      s.HeadUnmasked (cfg.self c) := by
  have hreturn := h.handlerReturn hpc
  have hempty := hreturn.hand c
  have hidle : ((s.handlerReturn c).goto c .idle).pc c = .idle := Function.update_self _ _ _
  rw [hidle] at hempty
  obtain ⟨n, hn⟩ : ∃ n, s.nodes (.hand c) = [n] := by
    have hhand := h.hand c
    rw [hpc] at hhand
    exact hhand
  have hthread : ((s.handlerReturn c).goto c .idle).thread = s.thread := by
    simp only [handlerReturn, hn, goto]
  have hsi : ((s.handlerReturn c).goto c .idle).si = s.si := by
    simp only [handlerReturn, hn, goto]
  have hlist : ((s.handlerReturn c).goto c .idle).nodes (.list (cfg.self c)) =
      s.nodes (.list (cfg.self c)) := by
    simp only [handlerReturn, hn, goto]
    exact Queues.move_other (by rintro ⟨⟩) (by rintro ⟨⟩)
  rw [← Sound.handleRound_goto .idle, delivers_iff_round _ hthread (Or.inr ⟨cleanState, hpc⟩),
    handleRound_delivers_iff hreturn.lists hempty]
  simp only [HeadUnmasked, deliverable, Unmasked, Pending, hthread, hlist, hsi]

/-- The steps of the other calls do what they are to do. -/
theorem delivers_of_not_next (h : s.Lists False) {a : SigAct} (hs : step cfg s a = some s')
    (hnext : ∀ c, a ≠ .next c) : Delivers cfg s a s' := by
  refine Delivers.of_keeps (fun c ha => absurd ha (hnext c)) fun t sig hsig => ?_
  cases a with
  | next c => exact absurd rfl (hnext c)
  | kill c t' sig' =>
    obtain ⟨-, rfl⟩ := Runs.takeIf_eq_some.1 hs
    split
    · exact Or.inl hsig
    · exact Or.inl hsig
  | mask c signo =>
    obtain ⟨-, rfl⟩ := Runs.takeIf_eq_some.1 hs
    exact Or.inl (KeepsPending.setThread (by rfl) _ _ hsig)
  | unmask c signo =>
    obtain ⟨-, rfl⟩ := Runs.takeIf_eq_some.1 hs
    split
    · exact Or.inl (KeepsPending.setGoto (by rfl) _ _ hsig)
    · exact Or.inl (KeepsPending.setThread (by rfl) _ _ hsig)
  | install c signo handler =>
    obtain ⟨-, rfl⟩ := Runs.takeIf_eq_some.1 hs
    simp only [SigSys.install]
    split
    · exact Or.inl (KeepsPending.setThread (by rfl) _ _ hsig)
    · exact Or.inl hsig
  | wait c set timeout =>
    obtain ⟨-, rfl⟩ := Runs.takeIf_eq_some.1 hs
    simp only [SigSys.wait]
    split
    · exact Or.inl hsig
    split
    · exact takeWaited_keeps h hsig
    split
    · exact Or.inl hsig
    · exact Or.inl (KeepsPending.setGoto (by rfl) _ _ hsig)
  | woken c timedOut =>
    simp only [SigSys.step] at hs
    split at hs
    case h_1 set hpc =>
      obtain ⟨-, rfl⟩ := Runs.takeIf_eq_some.1 hs
      have hback : ((s.setThread (cfg.self c) { s.thread (cfg.self c) with
          signalWait := false }).goto c .idle).Pending t sig :=
        KeepsPending.setGoto (by rfl) t sig hsig
      simp only [SigSys.woken]
      split
      · exact Or.inl hback
      · refine (takeWaited_keeps ?_ hback).imp_right fun hdone => ⟨hdone.1, set, hpc, hdone.2⟩
        exact (h.setThread (by rfl)).frame (fun _ => rfl) (fun _ _ _ => rfl) fun _ => rfl
    case h_2 => cases hs
  | entry c =>
    simp only [SigSys.step] at hs
    split at hs
    · obtain ⟨-, rfl⟩ := Runs.takeIf_eq_some.1 hs
      exact Or.inl hsig
    · cases hs
  | schedule c =>
    simp only [SigSys.step] at hs
    split at hs
    · obtain ⟨-, rfl⟩ := Runs.takeIf_eq_some.1 hs
      exact Or.inl (KeepsPending.setGoto (by rfl) _ _ hsig)
    · cases hs
  | suspend t' suspended =>
    obtain rfl := Option.some.inj hs
    exact Or.inl (KeepsPending.setThread (by rfl) _ _ hsig)

/-- **A step** of a run does what it is to do if and only if it takes no masked signal. -/
theorem delivers_iff (h : s.Sound False cfg.poolSize) {a : SigAct} (hs : step cfg s a = some s') :
    Delivers cfg s a s' ↔ s.TakesUnmasked cfg a := by
  by_cases hnext : ∃ c, a = .next c
  · obtain ⟨c, rfl⟩ := hnext
    have hs : s.next cfg c = some s' := hs
    have hhand := h.hand c
    by_cases hin : (∃ cleanState, s.pc c = .handle cleanState) ∨
        ∃ cleanState, s.pc c = .handling cleanState
    · rcases hin with ⟨cleanState, hpc⟩ | ⟨cleanState, hpc⟩
      · rw [hpc] at hhand
        simp only [next, hpc] at hs
        obtain rfl := Option.some.inj hs
        rw [handleStart_delivers_iff h.lists hhand hpc]
        simp only [TakesUnmasked, hpc]
      · simp only [next, hpc] at hs
        obtain rfl := Option.some.inj hs
        rw [handling_delivers_iff h hpc]
        simp only [TakesUnmasked, hpc]
    · rw [not_or, not_exists, not_exists] at hin
      obtain ⟨hhandle, hhandling⟩ := hin
      refine iff_of_true (Delivers.of_keeps (fun c' ha cleanState => ?_) fun t sig hsig => ?_) ?_
      · obtain rfl := SigAct.next.inj ha
        exact ⟨(next_pc hs cleanState hhandle hhandling).1, hhandle cleanState, hhandling cleanState⟩
      · exact Or.inl ((next_pc hs false hhandle hhandling).2 t sig hsig)
      · simp only [TakesUnmasked]
  · have hother : s.TakesUnmasked cfg a := by
      cases a
      case next c => exact absurd ⟨c, rfl⟩ hnext
      all_goals trivial
    exact iff_of_true (delivers_of_not_next h.lists hs fun c ha => hnext ⟨c, ha⟩) hother

-- --------
-- Whole runs
-- --------

/-- A run of the system, with its steps. -/
abbrev SigSteps (cfg : SigCfg) (s : SigSys) (log : List (SigSys × SigAct)) : Prop :=
  Runs (Runs.Observed (Runs.Exec (step cfg)) Runs.steps) Runs.always
    (init cfg.poolSize, []) (s, log)

/-- **The delivery of the signals.** All the steps of a run do what they are to do if and only if
none of them takes a masked signal. -/
theorem signal_delivery {log : List (SigSys × SigAct)} (hrun : SigSteps cfg s log) :
    (∀ p ∈ log, ∃ s', step cfg p.1 p.2 = some s' ∧ Delivers cfg p.1 p.2 s') ↔
      ∀ p ∈ log, p.1.TakesUnmasked cfg p.2 := by
  have hsteps := Runs.mem_steps hrun
  refine forall₂_congr fun p hp => ?_
  obtain ⟨hreach, s', hs⟩ := hsteps p hp
  have h : p.1.Sound False cfg.poolSize :=
    Runs.invariant (fun s a s' hinv _ hs => hinv.step False.elim hs) hreach Sound.start
  rw [← delivers_iff h hs]
  constructor
  · rintro ⟨s'', hs'', hdel⟩
    obtain rfl := Option.some.inj (hs.symm.trans hs'')
    exact hdel
  · intro hdel
    exact ⟨s', hs, hdel⟩

theorem replayed_steps {acts : List SigAct} {p : SigSys × List (SigSys × SigAct) → Bool}
    (h : (Runs.replay (Runs.execOk (Runs.execObserved (step calls) Runs.steps) Runs.always)
      (init 32, []) acts).any p = true) :
    ∃ s log, SigSteps calls s log ∧ p (s, log) = true := by
  obtain ⟨⟨s, log⟩, hrun, hp⟩ := Runs.observed_of_replay h
  exact ⟨s, log, hrun, hp⟩

/-- A signal that is not masked: it is sent by another thread and handled. -/
theorem signal_delivery_one : ∃ s log, SigSteps calls s log ∧
    (∃ p ∈ log, p.1.Invokes calls 0 10) ∧
    ∀ p ∈ log, ∃ s', step calls p.1 p.2 = some s' ∧ Delivers calls p.1 p.2 s' := by
  obtain ⟨s, log, hrun, hp⟩ := @replayed_steps
    [.install 0 10 true, .unmask 0 10, .kill 1 0 10, .next 1, .next 1, .next 1, .next 1, .entry 0,
      .next 0, .next 0]
    (fun q => decide ((∃ p ∈ q.2, p.1.pc 0 = .handling false ∧ p.1.nodes (.hand 0) = [0] ∧
      p.1.si 0 = 10 ∧ (p.1.thread 0).sigVectors.any (· 10) = true) ∧
      ∀ p ∈ q.2, p.1.TakesUnmasked calls p.2)) (by decide +kernel)
  obtain ⟨⟨p, hp, hpc, hnode, hsi, hvec⟩, hok⟩ := of_decide_eq_true hp
  obtain ⟨handlers, hvec, hcalled⟩ := (Option.any_eq_true _ _).1 hvec
  exact ⟨s, log, hrun, ⟨p, hp, ⟨false, hpc⟩, ⟨0, hnode, hsi⟩, handlers, hvec, hcalled⟩,
    (signal_delivery hrun).2 hok⟩

/-- Signal 12 is masked and was sent before signal 10, which is not: its handler runs, and it is
not pending any more. -/
theorem masked_signal_handled : ∃ s log, SigSteps calls s log ∧
    (∃ p ∈ log, p.1.Pending 0 12 ∧ ¬ p.1.Unmasked 0 12) ∧
    s.Invokes calls 0 12 ∧ ¬ s.Unmasked 0 12 ∧ ¬ s.Pending 0 12 ∧
    ¬ ∀ p ∈ log, ∃ s', step calls p.1 p.2 = some s' ∧ Delivers calls p.1 p.2 s' := by
  obtain ⟨s, log, hrun, hp⟩ := @replayed_steps
    [.install 0 10 true, .unmask 0 10, .kill 1 0 12, .next 1, .next 1, .next 1, .next 1,
      .kill 1 0 10, .next 1, .next 1, .next 1, .next 1, .entry 0]
    (fun q => decide (q.1.Pending 0 12 ∧ ¬ q.1.Unmasked 0 12 ∧
      (step calls q.1 (.next 0)).any (fun s' => decide (s'.pc 0 = .handling false ∧
        s'.nodes (.hand 0) = [0] ∧ s'.si 0 = 12 ∧
        (s'.thread 0).sigVectors.any (· 12) = true ∧ ¬ s'.Unmasked 0 12 ∧
        ¬ s'.Pending 0 12)) = true)) (by decide +kernel)
  obtain ⟨hpending, hmasked, hstep⟩ := of_decide_eq_true hp
  obtain ⟨s', hs, hall⟩ := (Option.any_eq_true _ _).1 hstep
  obtain ⟨hpc, hnode, hsi, hvec, hmask', hgone⟩ := of_decide_eq_true hall
  obtain ⟨handlers, hvec, hcalled⟩ := (Option.any_eq_true _ _).1 hvec
  have hinvokes : s'.Invokes calls 0 12 := ⟨⟨false, hpc⟩, ⟨0, hnode, hsi⟩, handlers, hvec, hcalled⟩
  have hlast : (s, SigAct.next 0) ∈ (s, SigAct.next 0) :: log := List.mem_cons_self
  refine ⟨s', (s, .next 0) :: log, hrun.snoc trivial ⟨hs, rfl⟩, ⟨_, hlast, hpending, hmasked⟩,
    hinvokes, hmask', hgone, fun hall => ?_⟩
  obtain ⟨s'', hs'', hdel⟩ := hall _ hlast
  obtain rfl := Option.some.inj (hs.symm.trans hs'')
  exact hmask' (hdel.invokes rfl hinvokes)

end SigSys

end RTThread
