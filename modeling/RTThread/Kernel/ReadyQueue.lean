import RTThread.Kernel.Thread
import RTThread.Lib.Runs

/-!
# The ready queues

`ReadyQueues` says what the scheduler keeps of its lists and of the ready bits: a thread is in
the ready list of its priority exactly when it is `READY`, only suspended threads wait and only
closed threads are defunct, and a bit is set exactly when the ready list it stands for holds a
thread.

Every call that moves a thread takes it out of its list first and puts it into another one or
into none at the end. In between nothing is known of this one thread, and `Loose` says that all
is well with the others. So each call is proved in two steps, out of `ReadyQueues` and back.

## Main results

* `ReadyQueues.remove`, `ReadyQueues.unlink` — a thread taken out of its list is loose.
* `Loose.insert`, `Loose.settle`, `Loose.enqueue` — the three ways back.
* `highestReadyPriority_spec` — the search finds the most urgent ready list that is not empty.
-/

namespace RTThread

variable {cfg : SchedCfg}

-- --------
-- Masks
-- --------

/-- The masks of the thread belong to its priority. -/
def Thread.Masked (cfg : SchedCfg) (x : Thread) : Prop := x.withPriority cfg x.currentPriority = x

section Masks

variable (x : Thread) (p : Nat)

@[simp] theorem Thread.withPriority_stat : (x.withPriority cfg p).stat = x.stat := by
  unfold Thread.withPriority
  split <;> rfl

@[simp] theorem Thread.withPriority_error : (x.withPriority cfg p).error = x.error := by
  unfold Thread.withPriority
  split <;> rfl

@[simp] theorem Thread.withPriority_timer : (x.withPriority cfg p).timer = x.timer := by
  unfold Thread.withPriority
  split <;> rfl

@[simp] theorem Thread.withPriority_currentPriority :
    (x.withPriority cfg p).currentPriority = p := by
  unfold Thread.withPriority
  split <;> rfl

theorem Thread.masked_withPriority : (x.withPriority cfg p).Masked cfg := by
  unfold Thread.Masked
  rw [Thread.withPriority_currentPriority]
  unfold Thread.withPriority
  split <;> rfl

end Masks

theorem Thread.masked_iff {x : Thread} :
    x.Masked cfg ↔
      if cfg.wide then
        x.number = x.currentPriority >>> 3 ∧
          x.numberMask = BitSet.mask 32 (x.currentPriority >>> 3) ∧
          x.highMask = BitSet.mask 8 (x.currentPriority &&& 7)
      else x.numberMask = BitSet.mask 32 x.currentPriority := by
  unfold Thread.Masked Thread.withPriority
  split
  · constructor
    · intro h
      have hn := congrArg Thread.number h
      have hm := congrArg Thread.numberMask h
      have hh := congrArg Thread.highMask h
      exact ⟨hn.symm, hm.symm, hh.symm⟩
    · rintro ⟨hn, hm, hh⟩
      rw [← hn, ← hh, hn, ← hm, ← hn]
  · constructor
    · intro h
      exact (congrArg Thread.numberMask h).symm
    · intro h
      rw [← h]

theorem Thread.Masked.of_same {x y : Thread} (h : x.Masked cfg)
    (hp : y.currentPriority = x.currentPriority) (hn : y.number = x.number)
    (hm : y.numberMask = x.numberMask) (hh : y.highMask = x.highMask) : y.Masked cfg := by
  rw [Thread.masked_iff] at h ⊢
  rw [hp, hn, hm, hh]
  exact h

theorem Thread.Masked.narrow {x : Thread} (h : x.Masked cfg) (hw : cfg.wide = false) :
    x.numberMask = BitSet.mask 32 x.currentPriority := by
  rw [Thread.masked_iff, hw] at h
  exact h

theorem Thread.Masked.wide {x : Thread} (h : x.Masked cfg) (hw : cfg.wide = true) :
    x.number = x.currentPriority / 8 ∧ x.numberMask = BitSet.mask 32 (x.currentPriority / 8) ∧
      x.highMask = BitSet.mask 8 (x.currentPriority % 8) := by
  have hshift : x.currentPriority >>> 3 = x.currentPriority / 8 :=
    Nat.shiftRight_eq_div_pow x.currentPriority 3
  have hand : x.currentPriority &&& 7 = x.currentPriority % 8 :=
    Nat.and_two_pow_sub_one_eq_mod x.currentPriority 3
  rw [Thread.masked_iff, hw, hshift, hand] at h
  exact h

-- --------
-- The ready bits
-- --------

/-- The bits are those of the levels that are `occupied`. -/
structure Bitmap (cfg : SchedCfg) (group : BitVec 32) (table : Nat → BitVec 8)
    (occupied : Nat → Prop) : Prop where
  /-- Up to 32 priorities a level has its bit in the group word. -/
  narrow : cfg.wide = false → ∀ p, group.getLsbD p = true ↔ occupied p
  /-- Above, it has one in its byte of the table. -/
  level : cfg.wide = true → ∀ p, (table (p / 8)).getLsbD (p % 8) = true ↔ occupied p
  /-- The group word has a bit for each byte that is not zero. -/
  groups : cfg.wide = true → ∀ n, group.getLsbD n = true ↔ table n ≠ 0#8

theorem SchedCfg.narrow_le (cfg : SchedCfg) (hw : cfg.wide = false) : cfg.priorityMax ≤ 32 := by
  unfold SchedCfg.wide at hw
  have hle := of_decide_eq_false hw
  omega

namespace Bitmap

variable {group : BitVec 32} {table : Nat → BitVec 8} {occ occ' : Nat → Prop} {x : Thread}

theorem level_eq {p p' : Nat} (hd : p' / 8 = p / 8) (hm : p' % 8 = p % 8) : p' = p := by
  omega

/-- **A level becomes occupied** and its bits are set. -/
theorem set (h : Bitmap cfg group table occ) (hx : x.Masked cfg)
    (hp : x.currentPriority < cfg.priorityMax) (hocc : occ' x.currentPriority)
    (hother : ∀ p, p ≠ x.currentPriority → (occ' p ↔ occ p)) :
    Bitmap cfg (group ||| x.numberMask)
      (if cfg.wide then Function.update table x.number (table x.number ||| x.highMask) else table)
      occ' where
  narrow hw p := by
    have hlt : x.currentPriority < 32 := Nat.lt_of_lt_of_le hp (cfg.narrow_le hw)
    rw [hx.narrow hw, BitSet.getLsbD_insert _ hlt, h.narrow hw]
    by_cases hpx : p = x.currentPriority
    · subst hpx
      simp [hocc]
    · rw [hother p hpx]
      simp [hpx]
  level hw p := by
    obtain ⟨hn, -, hh⟩ := hx.wide hw
    rw [if_pos hw, hn, hh]
    by_cases hd : p / 8 = x.currentPriority / 8
    · rw [hd, Function.update_self, BitSet.getLsbD_insert _ (Nat.mod_lt _ (by decide)), ← hd,
        h.level hw]
      by_cases hpx : p = x.currentPriority
      · subst hpx
        simp [hocc]
      · have hm : p % 8 ≠ x.currentPriority % 8 := fun hm => hpx (level_eq hd hm)
        rw [hother p hpx]
        simp [hm]
    · have hpx : p ≠ x.currentPriority := fun hpx => hd (congrArg (· / 8) hpx)
      rw [Function.update_of_ne hd, h.level hw, hother p hpx]
  groups hw n := by
    obtain ⟨hn, hm, hh⟩ := hx.wide hw
    have hle := cfg.le
    have hlt : x.currentPriority / 8 < 32 := by omega
    rw [if_pos hw, hn, hm, hh, BitSet.getLsbD_insert _ hlt, h.groups hw]
    by_cases hnx : n = x.currentPriority / 8
    · subst hnx
      -- the byte holds the bit that was just set
      have hset :
          table (x.currentPriority / 8) ||| BitSet.mask 8 (x.currentPriority % 8) ≠ 0#8 := by
        rw [BitSet.ne_zero_iff]
        refine ⟨x.currentPriority % 8, ?_⟩
        rw [BitSet.getLsbD_insert _ (Nat.mod_lt _ (by decide))]
        exact Or.inr rfl
      rw [Function.update_self]
      simp [hset]
    · rw [Function.update_of_ne hnx]
      simp [hnx]

/-- **A level becomes empty** and its bits are cleared. -/
theorem clear (h : Bitmap cfg group table occ) (hx : x.Masked cfg)
    (hp : x.currentPriority < cfg.priorityMax) (hocc : ¬ occ' x.currentPriority)
    (hother : ∀ p, p ≠ x.currentPriority → (occ' p ↔ occ p)) :
    Bitmap cfg
      (if cfg.wide then
        if table x.number &&& ~~~x.highMask = 0#8 then group &&& ~~~x.numberMask else group
      else group &&& ~~~x.numberMask)
      (if cfg.wide then Function.update table x.number (table x.number &&& ~~~x.highMask)
      else table)
      occ' where
  narrow hw p := by
    have hlt : x.currentPriority < 32 := Nat.lt_of_lt_of_le hp (cfg.narrow_le hw)
    rw [if_neg (by rw [hw]; decide), hx.narrow hw, BitSet.getLsbD_erase _ hlt, h.narrow hw]
    by_cases hpx : p = x.currentPriority
    · subst hpx
      simp [hocc]
    · rw [hother p hpx]
      simp [hpx]
  level hw p := by
    obtain ⟨hn, -, hh⟩ := hx.wide hw
    rw [if_pos hw, hn, hh]
    by_cases hd : p / 8 = x.currentPriority / 8
    · rw [hd, Function.update_self, BitSet.getLsbD_erase _ (Nat.mod_lt _ (by decide)), ← hd,
        h.level hw]
      by_cases hpx : p = x.currentPriority
      · subst hpx
        simp [hocc]
      · have hm : p % 8 ≠ x.currentPriority % 8 := fun hm => hpx (level_eq hd hm)
        rw [hother p hpx]
        simp [hm]
    · have hpx : p ≠ x.currentPriority := fun hpx => hd (congrArg (· / 8) hpx)
      rw [Function.update_of_ne hd, h.level hw, hother p hpx]
  groups hw n := by
    obtain ⟨hn, hm, hh⟩ := hx.wide hw
    have hle := cfg.le
    have hlt : x.currentPriority / 8 < 32 := by omega
    rw [if_pos hw, if_pos hw, hn, hm, hh]
    by_cases hnx : n = x.currentPriority / 8
    · subst hnx
      rw [Function.update_self]
      split
      case isTrue hz =>
        rw [BitSet.getLsbD_erase _ hlt]
        simp [hz]
      case isFalse hz =>
        -- a byte that keeps a bit was not zero before
        have hne : table (x.currentPriority / 8) ≠ 0#8 := fun h0 => hz (by rw [h0]; simp)
        rw [h.groups hw]
        simp [hz, hne]
    · rw [Function.update_of_ne hnx, ← h.groups hw]
      split
      · rw [BitSet.getLsbD_erase _ hlt]
        simp [hnx]
      · rfl

theorem congr (h : Bitmap cfg group table occ) (hocc : ∀ p, occ' p ↔ occ p) :
    Bitmap cfg group table occ' where
  narrow hw p := by rw [h.narrow hw, hocc]
  level hw p := by rw [h.level hw, hocc]
  groups := h.groups

theorem empty (hocc : ∀ p, ¬ occ p) : Bitmap cfg 0#32 (fun _ => 0#8) occ where
  narrow _ p := by simp [hocc p]
  level _ p := by simp [hocc p]
  groups _ n := by simp

end Bitmap

-- --------
-- The fields the small operations leave alone
-- --------

section Frame

variable (s : Sys) (t u : ThreadId)

@[simp] theorem Sys.setThread_self (x : Thread) : (s.setThread t x).thread t = x := by
  simp [Sys.setThread]

@[simp] theorem Sys.setThread_of_ne {t u : ThreadId} (x : Thread) (h : u ≠ t) :
    (s.setThread t x).thread u = s.thread u := by
  simp [Sys.setThread, h]

@[simp] theorem Sys.setThread_queue (x : Thread) : (s.setThread t x).queue = s.queue := rfl

@[simp] theorem Sys.setThread_current (x : Thread) : (s.setThread t x).current = s.current := rfl

@[simp] theorem Sys.setThread_lockNest (x : Thread) : (s.setThread t x).lockNest = s.lockNest :=
  rfl

@[simp] theorem Sys.setQueue_of_ne {q q' : QueueId} (l : List ThreadId) (h : q' ≠ q) :
    (s.setQueue q l).queue q' = s.queue q' := by
  simp [Sys.setQueue, h]

theorem Sys.listRemove_queue : (s.listRemove t).queue = Queues.unlink s.queue t := rfl

@[simp] theorem Sys.clearPriorityMask_thread :
    (s.clearPriorityMask cfg t).thread = s.thread := by
  unfold Sys.clearPriorityMask
  split <;> rfl

@[simp] theorem Sys.clearPriorityMask_queue : (s.clearPriorityMask cfg t).queue = s.queue := by
  unfold Sys.clearPriorityMask
  split <;> rfl

@[simp] theorem Sys.clearPriorityMask_current :
    (s.clearPriorityMask cfg t).current = s.current := by
  unfold Sys.clearPriorityMask
  split <;> rfl

@[simp] theorem Sys.clearPriorityMask_lockNest :
    (s.clearPriorityMask cfg t).lockNest = s.lockNest := by
  unfold Sys.clearPriorityMask
  split <;> rfl

theorem Sys.clearPriorityMask_group :
    (s.clearPriorityMask cfg t).group =
      if cfg.wide then
        if s.table (s.thread t).number &&& ~~~(s.thread t).highMask = 0#8 then
          s.group &&& ~~~(s.thread t).numberMask
        else s.group
      else s.group &&& ~~~(s.thread t).numberMask := by
  unfold Sys.clearPriorityMask
  split <;> rfl

theorem Sys.clearPriorityMask_table :
    (s.clearPriorityMask cfg t).table =
      if cfg.wide then
        Function.update s.table (s.thread t).number
          (s.table (s.thread t).number &&& ~~~(s.thread t).highMask)
      else s.table := by
  unfold Sys.clearPriorityMask
  split <;> rfl

@[simp] theorem rtScheduleRemoveThread_thread :
    (rtScheduleRemoveThread cfg s t).thread = s.thread := by
  unfold rtScheduleRemoveThread
  dsimp only
  split
  · exact Sys.clearPriorityMask_thread _ _
  · rfl

@[simp] theorem rtScheduleRemoveThread_queue :
    (rtScheduleRemoveThread cfg s t).queue = Queues.unlink s.queue t := by
  unfold rtScheduleRemoveThread
  dsimp only
  split
  · exact Sys.clearPriorityMask_queue _ _
  · rfl

@[simp] theorem rtScheduleRemoveThread_current :
    (rtScheduleRemoveThread cfg s t).current = s.current := by
  unfold rtScheduleRemoveThread
  dsimp only
  split
  · exact Sys.clearPriorityMask_current _ _
  · rfl

@[simp] theorem rtScheduleRemoveThread_lockNest :
    (rtScheduleRemoveThread cfg s t).lockNest = s.lockNest := by
  unfold rtScheduleRemoveThread
  dsimp only
  split
  · exact Sys.clearPriorityMask_lockNest _ _
  · rfl

@[simp] theorem rtScheduleInsertThread_current :
    (rtScheduleInsertThread cfg s t).current = s.current := by
  unfold rtScheduleInsertThread
  split <;> rfl

@[simp] theorem rtScheduleInsertThread_lockNest :
    (rtScheduleInsertThread cfg s t).lockNest = s.lockNest := by
  unfold rtScheduleInsertThread
  split <;> rfl

/-- The status a thread gets that is made ready. -/
def Sys.readyStat : ThreadStat := if s.current = some t then .running else .ready

theorem rtScheduleInsertThread_thread :
    (rtScheduleInsertThread cfg s t).thread =
      Function.update s.thread t { s.thread t with stat := s.readyStat t } := by
  unfold rtScheduleInsertThread Sys.readyStat
  split <;> rfl

theorem rtScheduleInsertThread_queue_of_current (h : s.current = some t) :
    (rtScheduleInsertThread cfg s t).queue = s.queue := by
  unfold rtScheduleInsertThread
  rw [if_pos h]
  rfl

theorem rtScheduleInsertThread_queue (h : s.current ≠ some t) :
    (rtScheduleInsertThread cfg s t).queue =
      Function.update s.queue (.ready (s.thread t).currentPriority)
        (s.queue (.ready (s.thread t).currentPriority) ++ [t]) := by
  unfold rtScheduleInsertThread
  rw [if_neg h]
  rfl

end Frame

-- --------
-- The lists
-- --------

/-- The ready list of the priority holds a thread. -/
def Sys.Occupied (s : Sys) (p : Nat) : Prop := s.queue (.ready p) ≠ []

/-- The lists, the status of the threads and the ready bits agree. -/
structure ReadyQueues (cfg : SchedCfg) (s : Sys) : Prop where
  apart : Queues.Apart s.queue
  ready : ∀ t p, t ∈ s.queue (.ready p) ↔
    (s.thread t).stat = .ready ∧ (s.thread t).currentPriority = p
  wait : ∀ {t o}, t ∈ s.queue (.wait o) → (s.thread t).stat = .suspend
  defunct : ∀ {t}, t ∈ s.queue .defunct → (s.thread t).stat = .close
  masked : ∀ {t}, (s.thread t).stat ≠ .init → (s.thread t).stat ≠ .close →
    (s.thread t).Masked cfg
  bounded : ∀ t, (s.thread t).currentPriority < cfg.priorityMax
  bits : Bitmap cfg s.group s.table s.Occupied

/-- The thread `t` is in no list; of its status and priority nothing is known. The other threads
are as in `ReadyQueues`. -/
structure Loose (cfg : SchedCfg) (t : ThreadId) (s : Sys) : Prop where
  apart : Queues.Apart s.queue
  free : Queues.Free s.queue t
  ready : ∀ u, u ≠ t → ∀ p, u ∈ s.queue (.ready p) ↔
    (s.thread u).stat = .ready ∧ (s.thread u).currentPriority = p
  wait : ∀ {u o}, u ∈ s.queue (.wait o) → (s.thread u).stat = .suspend
  defunct : ∀ {u}, u ∈ s.queue .defunct → (s.thread u).stat = .close
  masked : ∀ {u}, u ≠ t → (s.thread u).stat ≠ .init → (s.thread u).stat ≠ .close →
    (s.thread u).Masked cfg
  bounded : ∀ u, u ≠ t → (s.thread u).currentPriority < cfg.priorityMax
  bits : Bitmap cfg s.group s.table s.Occupied

section Lists

variable {s : Sys} {t u : ThreadId}

theorem ReadyQueues.free (h : ReadyQueues cfg s) (hr : (s.thread t).stat ≠ .ready)
    (hs : (s.thread t).stat ≠ .suspend) (hc : (s.thread t).stat ≠ .close) :
    Queues.Free s.queue t := by
  intro q hq
  cases q with
  | ready p => exact hr ((h.ready t p).1 hq).1
  | wait o => exact hs (h.wait hq)
  | defunct => exact hc (h.defunct hq)

theorem ReadyQueues.loose (h : ReadyQueues cfg s) (hfree : Queues.Free s.queue t) :
    Loose cfg t s where
  apart := h.apart
  free := hfree
  ready u _ p := h.ready u p
  wait := h.wait
  defunct := h.defunct
  masked _ := h.masked
  bounded u _ := h.bounded u
  bits := h.bits

theorem ReadyQueues.unlink_ready (h : ReadyQueues cfg s) {p : Nat}
    (hp : (s.thread t).stat = .ready → p ≠ (s.thread t).currentPriority) :
    Queues.unlink s.queue t (.ready p) = s.queue (.ready p) := by
  apply Queues.unlink_of_not_mem
  intro ht
  obtain ⟨hstat, hprio⟩ := (h.ready t p).1 ht
  exact hp hstat hprio.symm

/-- **`rt_schedule_remove_thread`** takes a thread out of its list, and the last one of a
priority takes the ready bits with it. -/
theorem ReadyQueues.remove (h : ReadyQueues cfg s) (hm : (s.thread t).Masked cfg) :
    Loose cfg t (rtScheduleRemoveThread cfg s t) where
  apart := by
    rw [rtScheduleRemoveThread_queue]
    exact h.apart.unlink t
  free := by
    rw [rtScheduleRemoveThread_queue]
    exact h.apart.free_unlink t
  ready u hu p := by
    rw [rtScheduleRemoveThread_queue, rtScheduleRemoveThread_thread, h.apart.mem_unlink, h.ready]
    simp [hu]
  wait hu := by
    rw [rtScheduleRemoveThread_queue, h.apart.mem_unlink] at hu
    rw [rtScheduleRemoveThread_thread]
    exact h.wait hu.2
  defunct hu := by
    rw [rtScheduleRemoveThread_queue, h.apart.mem_unlink] at hu
    rw [rtScheduleRemoveThread_thread]
    exact h.defunct hu.2
  masked _ := by
    rw [rtScheduleRemoveThread_thread]
    exact h.masked
  bounded u _ := by
    rw [rtScheduleRemoveThread_thread]
    exact h.bounded u
  bits := by
    have hother : ∀ p, p ≠ (s.thread t).currentPriority →
        ((s.listRemove t).Occupied p ↔ s.Occupied p) := by
      intro p hp
      have heq := h.unlink_ready (t := t) (fun _ => hp)
      unfold Sys.Occupied
      rw [Sys.listRemove_queue, heq]
    unfold rtScheduleRemoveThread
    dsimp only
    split
    case isTrue hempty =>
      have hclear := h.bits.clear hm (h.bounded t) (not_not_intro hempty) hother
      rw [Sys.clearPriorityMask_group, Sys.clearPriorityMask_table]
      unfold Sys.Occupied
      rw [Sys.clearPriorityMask_queue]
      exact hclear
    case isFalse hne =>
      refine h.bits.congr fun p => ?_
      by_cases hp : p = (s.thread t).currentPriority
      · -- what is left of the list was in it before
        have hocc : s.Occupied p := by
          intro hnil
          apply hne
          show (s.queue (.ready (s.thread t).currentPriority)).erase t = []
          rw [← hp, hnil]
          rfl
        refine iff_of_true ?_ hocc
        rw [hp]
        exact hne
      · exact hother p hp

/-- `rt_list_remove` is enough for a thread that is in no ready list. -/
theorem ReadyQueues.unlink (h : ReadyQueues cfg s) (hr : (s.thread t).stat ≠ .ready) :
    Loose cfg t (s.listRemove t) where
  apart := h.apart.unlink t
  free := h.apart.free_unlink t
  ready u hu p := by
    show u ∈ Queues.unlink s.queue t _ ↔ _
    rw [h.apart.mem_unlink, h.ready]
    simp [Sys.listRemove, hu]
  wait hu := h.wait (h.apart.mem_unlink.1 hu).2
  defunct hu := h.defunct (h.apart.mem_unlink.1 hu).2
  masked _ := h.masked
  bounded u _ := h.bounded u
  bits := by
    refine h.bits.congr fun p => ?_
    have heq := h.unlink_ready (t := t) (p := p) (fun hstat => absurd hstat hr)
    unfold Sys.Occupied
    rw [Sys.listRemove_queue, heq]

/-- The loose thread may be edited. -/
theorem Loose.setThread (h : Loose cfg t s) (x : Thread) : Loose cfg t (s.setThread t x) where
  apart := h.apart
  free := h.free
  ready u hu p := by
    rw [Sys.setThread_of_ne s x hu]
    exact h.ready u hu p
  wait {u o} hu := by
    have hne : u ≠ t := fun heq => h.free (.wait o) (heq ▸ hu)
    rw [Sys.setThread_of_ne s x hne]
    exact h.wait hu
  defunct {u} hu := by
    have hne : u ≠ t := fun heq => h.free .defunct (heq ▸ hu)
    rw [Sys.setThread_of_ne s x hne]
    exact h.defunct hu
  masked {u} hu := by
    rw [Sys.setThread_of_ne s x hu]
    exact h.masked hu
  bounded u hu := by
    rw [Sys.setThread_of_ne s x hu]
    exact h.bounded u hu
  bits := h.bits

/-- **The thread stays out of the lists**: it is not ready. -/
theorem Loose.settle (h : Loose cfg t s) (hr : (s.thread t).stat ≠ .ready)
    (hm : (s.thread t).stat ≠ .close → (s.thread t).Masked cfg ∨ (s.thread t).stat = .init)
    (hp : (s.thread t).currentPriority < cfg.priorityMax) : ReadyQueues cfg s where
  apart := h.apart
  ready u p := by
    by_cases hu : u = t
    · subst hu
      exact iff_of_false (h.free _) fun hstat => hr hstat.1
    · exact h.ready u hu p
  wait := h.wait
  defunct := h.defunct
  masked {u} hu hc := by
    by_cases hut : u = t
    · subst hut
      exact (hm hc).resolve_right hu
    · exact h.masked hut hu hc
  bounded u := by
    by_cases hu : u = t
    · subst hu
      exact hp
    · exact h.bounded u hu
  bits := h.bits

/-- **`rt_schedule_insert_thread`** puts a thread at the end of the ready list of its priority
and sets its ready bits; the current thread runs on. -/
theorem Loose.insert (h : Loose cfg t s) (hm : (s.thread t).Masked cfg)
    (hp : (s.thread t).currentPriority < cfg.priorityMax) :
    ReadyQueues cfg (rtScheduleInsertThread cfg s t) := by
  by_cases hcur : s.current = some t
  · have heq : rtScheduleInsertThread cfg s t = s.setStat t .running := by
      unfold rtScheduleInsertThread
      rw [if_pos hcur]
    rw [heq]
    have hedit := h.setThread { s.thread t with stat := .running }
    refine hedit.settle ?_ ?_ ?_
    · simp
    · intro _
      rw [Sys.setThread_self]
      exact Or.inl (hm.of_same rfl rfl rfl rfl)
    · rw [Sys.setThread_self]
      exact hp
  · have hperm : (s.queue (.ready (s.thread t).currentPriority) ++ [t]).Perm
        (t :: s.queue (.ready (s.thread t).currentPriority)) := List.perm_append_singleton _ _
    have hqueue := @rtScheduleInsertThread_queue cfg s t hcur
    have hthread := @rtScheduleInsertThread_thread cfg s t
    have hstat : s.readyStat t = .ready := if_neg hcur
    rw [hstat] at hthread
    have hother : ∀ u, u ≠ t →
        (rtScheduleInsertThread cfg s t).thread u = s.thread u := by
      intro u hu
      rw [hthread, Function.update_of_ne hu]
    refine ⟨?_, ?_, ?_, ?_, ?_, ?_, ?_⟩
    · rw [hqueue]
      exact h.apart.put h.free hperm
    · intro u p
      rw [hqueue, Queues.mem_put hperm]
      by_cases hu : u = t
      · subst hu
        rw [hthread, Function.update_self]
        have hnot := h.free (.ready p)
        simp only [hnot, QueueId.ready.injEq, true_and, or_false]
        exact eq_comm
      · rw [hother u hu, ← h.ready u hu p]
        simp [hu]
    · intro u o hu
      rw [hqueue, Queues.mem_put hperm] at hu
      rcases hu with ⟨-, hq⟩ | hu
      · cases hq
      · have hne : u ≠ t := fun heq => h.free (.wait o) (heq ▸ hu)
        rw [hother u hne]
        exact h.wait hu
    · intro u hu
      rw [hqueue, Queues.mem_put hperm] at hu
      rcases hu with ⟨-, hq⟩ | hu
      · cases hq
      · have hne : u ≠ t := fun heq => h.free .defunct (heq ▸ hu)
        rw [hother u hne]
        exact h.defunct hu
    · intro u hu hc
      by_cases hut : u = t
      · subst hut
        rw [hthread, Function.update_self]
        exact hm.of_same rfl rfl rfl rfl
      · rw [hother u hut] at hu hc ⊢
        exact h.masked hut hu hc
    · intro u
      by_cases hut : u = t
      · subst hut
        rw [hthread, Function.update_self]
        exact hp
      · rw [hother u hut]
        exact h.bounded u hut
    · have hset : Bitmap cfg (s.group ||| (s.thread t).numberMask)
          (if cfg.wide then
            Function.update s.table (s.thread t).number
              (s.table (s.thread t).number ||| (s.thread t).highMask)
          else s.table)
          (rtScheduleInsertThread cfg s t).Occupied := by
        refine h.bits.set hm hp ?_ ?_
        · unfold Sys.Occupied
          rw [hqueue, Function.update_self]
          simp
        · intro p hne
          have hq : QueueId.ready p ≠ .ready (s.thread t).currentPriority :=
            fun heq => hne (QueueId.ready.inj heq)
          unfold Sys.Occupied
          rw [hqueue, Function.update_of_ne hq]
      have hx : ((s.setStat t .ready).thread t).numberMask = (s.thread t).numberMask := by
        unfold Sys.setStat
        rw [Sys.setThread_self]
      unfold rtScheduleInsertThread at hset ⊢
      rw [if_neg hcur] at hset ⊢
      unfold Sys.setPriorityMask Sys.setQueue Sys.setStat Sys.setThread at hset ⊢
      simpa only [Function.update_self] using hset

/-- **A suspended thread goes into a suspend list, a closed one to the defunct threads.** -/
theorem Loose.enqueue (h : Loose cfg t s) {q : QueueId} {l : List ThreadId}
    (hl : l.Perm (t :: s.queue q))
    (hq : (∃ o, q = .wait o) ∧ (s.thread t).stat = .suspend ∨
      q = .defunct ∧ (s.thread t).stat = .close)
    (hm : (s.thread t).stat = .suspend → (s.thread t).Masked cfg)
    (hp : (s.thread t).currentPriority < cfg.priorityMax) : ReadyQueues cfg (s.setQueue q l) where
  apart := h.apart.put h.free hl
  ready u p := by
    have hne : QueueId.ready p ≠ q := by
      rintro rfl
      rcases hq with ⟨⟨o, ho⟩, -⟩ | ⟨ho, -⟩ <;> cases ho
    have hr : (s.thread t).stat ≠ .ready := by
      rcases hq with ⟨-, hstat⟩ | ⟨-, hstat⟩ <;> rw [hstat] <;> decide
    rw [Sys.setQueue_of_ne s l hne]
    by_cases hu : u = t
    · subst hu
      exact iff_of_false (h.free _) fun hstat => hr hstat.1
    · exact h.ready u hu p
  wait {u o} hu := by
    rcases (Queues.mem_put hl).1 hu with ⟨rfl, hqo⟩ | hu
    · rcases hq with ⟨-, hstat⟩ | ⟨hqd, -⟩
      · exact hstat
      · cases hqo.trans hqd
    · exact h.wait hu
  defunct {u} hu := by
    rcases (Queues.mem_put hl).1 hu with ⟨rfl, hqo⟩ | hu
    · rcases hq with ⟨⟨o, ho⟩, -⟩ | ⟨-, hstat⟩
      · cases hqo.trans ho
      · exact hstat
    · exact h.defunct hu
  masked {u} hu hc := by
    by_cases hut : u = t
    · subst hut
      rcases hq with ⟨-, hstat⟩ | ⟨-, hstat⟩
      · exact hm hstat
      · exact absurd hstat hc
    · exact h.masked hut hu hc
  bounded u := by
    by_cases hut : u = t
    · subst hut
      exact hp
    · exact h.bounded u hut
  bits := by
    refine h.bits.congr fun p => ?_
    have hne : QueueId.ready p ≠ q := by
      rintro rfl
      rcases hq with ⟨⟨o, ho⟩, -⟩ | ⟨ho, -⟩ <;> cases ho
    unfold Sys.Occupied
    rw [Sys.setQueue_of_ne s l hne]

/-- An edit that keeps the status, and the priority of a thread that is ready: a thread in
another list keeps its place there. -/
theorem ReadyQueues.revise (h : ReadyQueues cfg s) {x : Thread}
    (hstat : x.stat = (s.thread t).stat)
    (hr : (s.thread t).stat = .ready → x.currentPriority = (s.thread t).currentPriority)
    (hm : (s.thread t).stat ≠ .init → (s.thread t).stat ≠ .close → x.Masked cfg)
    (hp : x.currentPriority < cfg.priorityMax) : ReadyQueues cfg (s.setThread t x) := by
  have hall : ∀ u, ((s.setThread t x).thread u).stat = (s.thread u).stat := by
    intro u
    by_cases hu : u = t
    · subst hu
      rw [Sys.setThread_self]
      exact hstat
    · rw [Sys.setThread_of_ne s x hu]
  refine ⟨h.apart, ?_, ?_, ?_, ?_, ?_, h.bits⟩
  · intro u p
    rw [hall, Sys.setThread_queue, h.ready]
    refine and_congr_right fun hu => ?_
    by_cases hut : u = t
    · subst hut
      rw [Sys.setThread_self, hr hu]
    · rw [Sys.setThread_of_ne s x hut]
  · intro u o hu
    rw [hall]
    exact h.wait hu
  · intro u hu
    rw [hall]
    exact h.defunct hu
  · intro u hu hc
    rw [hall] at hu hc
    by_cases hut : u = t
    · subst hut
      rw [Sys.setThread_self]
      exact hm hu hc
    · rw [Sys.setThread_of_ne s x hut]
      exact h.masked hu hc
  · intro u
    by_cases hut : u = t
    · subst hut
      rw [Sys.setThread_self]
      exact hp
    · rw [Sys.setThread_of_ne s x hut]
      exact h.bounded u

theorem ReadyQueues.edit (h : ReadyQueues cfg s) {x : Thread}
    (hstat : x.stat = (s.thread t).stat)
    (hp : x.currentPriority = (s.thread t).currentPriority) (hn : x.number = (s.thread t).number)
    (hm : x.numberMask = (s.thread t).numberMask) (hh : x.highMask = (s.thread t).highMask) :
    ReadyQueues cfg (s.setThread t x) := by
  refine h.revise hstat (fun _ => hp) (fun hi hc => (h.masked hi hc).of_same hp hn hm hh) ?_
  rw [hp]
  exact h.bounded t

theorem ReadyQueues.with_current (h : ReadyQueues cfg s) (c : Option ThreadId) :
    ReadyQueues cfg { s with current := c } :=
  ⟨h.apart, h.ready, h.wait, h.defunct, h.masked, h.bounded, h.bits⟩

theorem ReadyQueues.with_lockNest (h : ReadyQueues cfg s) (n : Nat) :
    ReadyQueues cfg { s with lockNest := n } :=
  ⟨h.apart, h.ready, h.wait, h.defunct, h.masked, h.bounded, h.bits⟩

end Lists

-- --------
-- The highest ready priority
-- --------

/-- A bit of the group word is set as soon as one level is occupied. -/
theorem Bitmap.group_ne_zero_iff {group : BitVec 32} {table : Nat → BitVec 8} {occ : Nat → Prop}
    (h : Bitmap cfg group table occ) : group ≠ 0#32 ↔ ∃ p, occ p := by
  rw [BitSet.ne_zero_iff]
  cases hw : cfg.wide with
  | false => exact exists_congr (h.narrow hw)
  | true =>
    constructor
    · rintro ⟨n, hn⟩
      obtain ⟨i, hi⟩ := (BitSet.ne_zero_iff _).1 ((h.groups hw n).1 hn)
      have hi8 : i < 8 := BitVec.lt_of_getLsbD hi
      refine ⟨n * 8 + i, (h.level hw _).1 ?_⟩
      have hd : (n * 8 + i) / 8 = n := by omega
      have hm : (n * 8 + i) % 8 = i := by omega
      rw [hd, hm]
      exact hi
    · rintro ⟨p, hp⟩
      refine ⟨p / 8, (h.groups hw _).2 ?_⟩
      rw [BitSet.ne_zero_iff]
      exact ⟨p % 8, (h.level hw p).2 hp⟩

/-- **The search through the ready bits** finds the most urgent level that is occupied. -/
theorem highestReadyPriority_spec {s : Sys} {occ : Nat → Prop} (h : Bitmap cfg s.group s.table occ)
    (hg : s.group ≠ 0#32) :
    occ (highestReadyPriority cfg s) ∧ ∀ p, occ p → highestReadyPriority cfg s ≤ p := by
  have hlow := rtFfs_isLowest hg
  unfold highestReadyPriority
  cases hw : cfg.wide with
  | false => exact ⟨(h.narrow hw _).1 hlow.mem, fun p hp => hlow.le ((h.narrow hw p).2 hp)⟩
  | true =>
    simp only [if_true]
    generalize rtFfs s.group - 1 = number at hlow ⊢
    have hbyte : s.table number ≠ 0#8 := (h.groups hw number).1 hlow.mem
    have hword : (s.table number).setWidth 32 ≠ 0#32 := by
      obtain ⟨i, hi⟩ := (BitSet.ne_zero_iff _).1 hbyte
      have hi8 : i < 8 := BitVec.lt_of_getLsbD hi
      have hi32 : i < 32 := by omega
      rw [BitSet.ne_zero_iff]
      refine ⟨i, ?_⟩
      rw [BitVec.getLsbD_setWidth, hi, decide_eq_true hi32]
      rfl
    have hbit := (rtFfs_isLowest hword).of_setWidth
    have hpos := rtFfs_pos hword
    have hbit8 := hbit.lt
    generalize rtFfs ((s.table number).setWidth 32) = f at hbit hpos hbit8 ⊢
    have hshift : number <<< 3 = number * 8 := Nat.shiftLeft_eq number 3
    have hd : (number <<< 3 + f - 1) / 8 = number := by omega
    have hm : (number <<< 3 + f - 1) % 8 = f - 1 := by omega
    constructor
    · rw [← h.level hw, hd, hm]
      exact hbit.mem
    · intro p hp
      have hlevel := (h.level hw p).2 hp
      -- the byte of `p` is not zero, so it is not below the first one
      have hgroup : s.group.getLsbD (p / 8) = true := by
        rw [h.groups hw, BitSet.ne_zero_iff]
        exact ⟨p % 8, hlevel⟩
      have hle := hlow.le hgroup
      rcases Nat.eq_or_lt_of_le hle with heq | hlt
      · rw [← heq] at hlevel
        have hlow8 := hbit.le hlevel
        omega
      · omega

section Highest

variable {s : Sys}

theorem ReadyQueues.group_ne_zero_iff (h : ReadyQueues cfg s) :
    s.group ≠ 0#32 ↔ ∃ t, (s.thread t).stat = .ready := by
  rw [h.bits.group_ne_zero_iff]
  constructor
  · rintro ⟨p, hp⟩
    obtain ⟨t, ht⟩ := List.exists_mem_of_ne_nil _ hp
    exact ⟨t, ((h.ready t p).1 ht).1⟩
  · rintro ⟨t, ht⟩
    exact ⟨_, List.ne_nil_of_mem ((h.ready t _).2 ⟨ht, rfl⟩)⟩

/-- `_scheduler_get_highest_priority_thread` returns the first of the most urgent threads that
are ready. -/
theorem ReadyQueues.getHighest (h : ReadyQueues cfg s) (hg : s.group ≠ 0#32) :
    ∃ t, schedulerGetHighestPriorityThread cfg s = some t ∧
      (∃ rest, s.queue (.ready (s.thread t).currentPriority) = t :: rest) ∧
      (s.thread t).stat = .ready ∧ (s.thread t).currentPriority = highestReadyPriority cfg s ∧
      ∀ u, (s.thread u).stat = .ready →
        (s.thread t).currentPriority ≤ (s.thread u).currentPriority := by
  obtain ⟨hocc, hleast⟩ := highestReadyPriority_spec h.bits hg
  obtain ⟨t, rest, hq⟩ := List.exists_cons_of_ne_nil hocc
  have hmem : t ∈ s.queue (.ready (highestReadyPriority cfg s)) := Queues.head_mem hq
  obtain ⟨hstat, hprio⟩ := (h.ready _ _).1 hmem
  refine ⟨t, ?_, ⟨rest, ?_⟩, hstat, hprio, ?_⟩
  · rw [schedulerGetHighestPriorityThread, hq]
    rfl
  · rw [hprio]
    exact hq
  · intro u hu
    rw [hprio]
    exact hleast _ (List.ne_nil_of_mem ((h.ready u _).2 ⟨hu, rfl⟩))

end Highest

end RTThread
