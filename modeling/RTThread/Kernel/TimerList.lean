import RTThread.Kernel.Timer

/-!
# Timers: nodes, rows and objects

`TimerInv` is what every step keeps without any assumption on ticks, time-outs
or callbacks: the rows are nested, a linked timer is an activated timer object
in the list of its kind, and the stack variable of a check holds at most the
timer whose timeout function is running, which is then linked nowhere.

## Main results

* `TimerInv.stopped`, `TimerInv.timerStart`, `TimerInv.checkHead`,
  `TimerInv.checkReturn` : the pieces of the interface keep it.
* `TimerInv.step` : so does every step.
-/

namespace RTThread

open SkipList (Rows)

-- --------
-- Reading a changed state
-- --------

namespace TimerSys

variable (s : TimerSys) (t : TimerId) (x : Timer) (b : Bool)

@[simp] theorem setTimer_timer_self : (s.setTimer t x).timer t = x := Function.update_self ..

theorem setTimer_timer_of_ne {u : TimerId} (h : u ≠ t) : (s.setTimer t x).timer u = s.timer u :=
  Function.update_of_ne h ..

@[simp] theorem setTimer_list : (s.setTimer t x).list = s.list := rfl
@[simp] theorem setTimer_held : (s.setTimer t x).held = s.held := rfl
@[simp] theorem setTimer_running : (s.setTimer t x).running = s.running := rfl
@[simp] theorem setTimer_ticks : (s.setTimer t x).ticks = s.ticks := rfl
@[simp] theorem setTimer_starts : (s.setTimer t x).starts = s.starts := rfl

@[simp] theorem setActivated_timer_self : (s.setActivated t b).timer t =
    { s.timer t with flag := { (s.timer t).flag with activated := b } } :=
  setTimer_timer_self ..

theorem setActivated_timer_of_ne {u : TimerId} (h : u ≠ t) :
    (s.setActivated t b).timer u = s.timer u :=
  setTimer_timer_of_ne s t _ h

@[simp] theorem setActivated_list : (s.setActivated t b).list = s.list := rfl
@[simp] theorem setActivated_held : (s.setActivated t b).held = s.held := rfl
@[simp] theorem setActivated_running : (s.setActivated t b).running = s.running := rfl
@[simp] theorem setActivated_ticks : (s.setActivated t b).ticks = s.ticks := rfl
@[simp] theorem setActivated_starts : (s.setActivated t b).starts = s.starts := rfl

@[simp] theorem timerRemove_timer : (s.timerRemove t).timer = s.timer := rfl
@[simp] theorem timerRemove_running : (s.timerRemove t).running = s.running := rfl
@[simp] theorem timerRemove_list (k : TimerKind) (r : Nat) :
    (s.timerRemove t).list k r = (s.list k r).erase t := rfl
@[simp] theorem timerRemove_held (k : TimerKind) : (s.timerRemove t).held k = (s.held k).erase t :=
  rfl

@[simp] theorem bottomRemove_timer (cfg : SkipListCfg) :
    (s.bottomRemove cfg t).timer = s.timer := rfl
@[simp] theorem bottomRemove_held (cfg : SkipListCfg) (k : TimerKind) :
    (s.bottomRemove cfg t).held k = (s.held k).erase t := rfl

@[simp] theorem stopped_list (k : TimerKind) (r : Nat) :
    (s.stopped t).list k r = (s.list k r).erase t := rfl
@[simp] theorem stopped_held (k : TimerKind) : (s.stopped t).held k = (s.held k).erase t := rfl
@[simp] theorem stopped_running : (s.stopped t).running = s.running := rfl
@[simp] theorem stopped_ticks : (s.stopped t).ticks = s.ticks := rfl
@[simp] theorem stopped_starts : (s.stopped t).starts = s.starts := rfl

@[simp] theorem stopped_timer_self : (s.stopped t).timer t =
    { s.timer t with flag := { (s.timer t).flag with activated := false } } :=
  setActivated_timer_self ..

theorem stopped_timer_of_ne {u : TimerId} (h : u ≠ t) : (s.stopped t).timer u = s.timer u :=
  setActivated_timer_of_ne _ t _ h

end TimerSys

-- --------
-- The rows `rt_timer_start` links into
-- --------

theorem SkipListCfg.bottom_succ (cfg : SkipListCfg) : cfg.bottom + 1 = cfg.level :=
  Nat.sub_add_cancel cfg.level_pos

/-- The timer is linked into the rows from some row `k` on. -/
theorem linkRows_spec (cfg : SkipListCfg) (head : Nat → Option TimerId) (t : TimerId)
    (n tst : Nat) (rows : Nat → List TimerId) : ∃ k ≤ n,
    (∀ r, k ≤ r → r < n → linkRows cfg head t n tst rows r =
      SkipList.insertAfter (head r) t (rows r)) ∧
    ∀ r, r < k ∨ n ≤ r → linkRows cfg head t n tst rows r = rows r := by
  induction n generalizing tst rows with
  | zero => exact ⟨0, le_refl 0, by omega, fun r _ => rfl⟩
  | succ n ih =>
    rw [linkRows]
    split
    · obtain ⟨k, hk, hin, hout⟩ := ih (tst >>> ((cfg.mask + 1) >>> 1))
        (Function.update rows n (SkipList.insertAfter (head n) t (rows n)))
      refine ⟨k, by omega, fun r hr hr' => ?_, fun r hr => ?_⟩
      · by_cases hrn : r = n
        · subst hrn
          rw [hout r (Or.inr (le_refl r)), Function.update_self]
        · rw [hin r hr (by omega), Function.update_of_ne hrn]
      · rw [hout r (by omega), Function.update_of_ne (by omega)]
    · exact ⟨n + 1, le_refl _, by omega, fun r _ => rfl⟩

/-- It is linked into the lowest row and into some of those above it. -/
theorem insertRows_spec (cfg : SkipListCfg) (s : TimerSys) (t : TimerId)
    (rows : Nat → List TimerId) : ∃ k < cfg.level,
    (∀ r, k ≤ r → r < cfg.level → s.insertRows cfg t rows r =
      SkipList.insertAfter (SkipList.rowHead (s.stopsAt t) rows r) t (rows r)) ∧
    ∀ r, r < k → s.insertRows cfg t rows r = rows r := by
  have hbot := cfg.bottom_succ
  obtain ⟨k, hk, hin, hout⟩ := linkRows_spec cfg (SkipList.rowHead (s.stopsAt t) rows) t cfg.bottom
    ((s.starts + 1) % 2 ^ 32) (Function.update rows cfg.bottom
      (SkipList.insertAfter (SkipList.rowHead (s.stopsAt t) rows cfg.bottom) t (rows cfg.bottom)))
  refine ⟨k, by omega, fun r hr hr' => ?_, fun r hr => ?_⟩
  · rw [TimerSys.insertRows]
    by_cases hrb : r = cfg.bottom
    · subst hrb
      rw [hout _ (Or.inr (le_refl _)), Function.update_self]
    · rw [hin r hr (by omega), Function.update_of_ne hrb]
  · rw [TimerSys.insertRows, hout r (Or.inl hr), Function.update_of_ne (by omega)]

/-- Linking a timer keeps the rows sublists of each other. -/
theorem insertRows_rows {cfg : SkipListCfg} (s : TimerSys) {t : TimerId}
    {rows : Nat → List TimerId} (h : Rows cfg.level rows) (ht : t ∉ rows cfg.bottom) :
    Rows cfg.level (s.insertRows cfg t rows) ∧
    ∀ u, u ∈ s.insertRows cfg t rows cfg.bottom ↔ u = t ∨ u ∈ rows cfg.bottom := by
  have hbot := cfg.bottom_succ
  obtain ⟨k, hk, hin, hout⟩ := insertRows_spec cfg s t rows
  refine ⟨h.insert hk ht hin hout, fun u => ?_⟩
  rw [hin cfg.bottom (by omega) (by omega)]
  exact h.mem_insertAfter (by omega)

-- --------
-- The invariant
-- --------

/-- The timer is in the list of its kind. -/
def TimerSys.Linked (cfg : SkipListCfg) (s : TimerSys) (t : TimerId) : Prop :=
  ∃ k r, r < cfg.level ∧ t ∈ s.list k r

/-- Nodes, rows and objects fit together. -/
structure TimerInv (cfg : SkipListCfg) (s : TimerSys) : Prop where
  rows : ∀ k, Rows cfg.level (s.list k)
  kind : ∀ {t k}, t ∈ s.list k cfg.bottom → (s.timer t).kind = k
  activated : ∀ {t k}, t ∈ s.list k cfg.bottom → (s.timer t).flag.activated = true
  object : ∀ {t k}, t ∈ s.list k cfg.bottom → (s.timer t).object = true
  held_nodup : ∀ k, (s.held k).Nodup
  held_running : ∀ {t k}, t ∈ s.held k → s.running k = some t
  held_kind : ∀ {t k}, t ∈ s.held k → (s.timer t).kind = k
  held_object : ∀ {t k}, t ∈ s.held k → (s.timer t).object = true
  held_unlinked : ∀ {t k k'}, t ∈ s.held k → t ∉ s.list k' cfg.bottom
  initTick : ∀ {t}, (s.timer t).object = true → (s.timer t).initTick < rtTickMax / 2

namespace TimerInv

variable {cfg : SkipListCfg} {s s' : TimerSys} {t u : TimerId} {k : TimerKind} {x : Timer}

/-- There are no timers at the start. -/
theorem initial (cfg : SkipListCfg) : TimerInv cfg TimerSys.initial := by
  constructor <;> intros <;> simp_all [TimerSys.initial]
  exact ⟨fun _ _ => List.Sublist.refl _, List.nodup_nil⟩

/-- A timer is in the lowest row once. -/
theorem bottom_nodup (h : TimerInv cfg s) (k : TimerKind) : (s.list k cfg.bottom).Nodup :=
  (h.rows k).nodup

/-- A timer is linked if it is in the lowest row of its kind. -/
theorem linked_iff (h : TimerInv cfg s) :
    s.Linked cfg t ↔ t ∈ s.list (s.timer t).kind cfg.bottom := by
  constructor
  · rintro ⟨k, r, hr, hmem⟩
    have hbottom := ((h.rows k).sublist_bottom hr).subset hmem
    rwa [h.kind hbottom]
  · intro hmem
    exact ⟨_, cfg.bottom, Nat.sub_lt cfg.level_pos Nat.one_pos, hmem⟩

/-- Rewriting a timer object in a way that fits its nodes. -/
theorem setTimer (h : TimerInv cfg s)
    (hlinked : ∀ k, t ∈ s.list k cfg.bottom →
      x.kind = k ∧ x.flag.activated = true ∧ x.object = true)
    (hheld : ∀ k, t ∈ s.held k → x.kind = k ∧ x.object = true)
    (hinit : x.object = true → x.initTick < rtTickMax / 2) : TimerInv cfg (s.setTimer t x) where
  rows := h.rows
  kind {u k} hmem := by
    by_cases hu : u = t
    · subst hu
      simpa using (hlinked k hmem).1
    · rw [s.setTimer_timer_of_ne t x hu]
      exact h.kind hmem
  activated {u k} hmem := by
    by_cases hu : u = t
    · subst hu
      simpa using (hlinked k hmem).2.1
    · rw [s.setTimer_timer_of_ne t x hu]
      exact h.activated hmem
  object {u k} hmem := by
    by_cases hu : u = t
    · subst hu
      simpa using (hlinked k hmem).2.2
    · rw [s.setTimer_timer_of_ne t x hu]
      exact h.object hmem
  held_nodup := h.held_nodup
  held_running := h.held_running
  held_kind {u k} hmem := by
    by_cases hu : u = t
    · subst hu
      simpa using (hheld k hmem).1
    · rw [s.setTimer_timer_of_ne t x hu]
      exact h.held_kind hmem
  held_object {u k} hmem := by
    by_cases hu : u = t
    · subst hu
      simpa using (hheld k hmem).2
    · rw [s.setTimer_timer_of_ne t x hu]
      exact h.held_object hmem
  held_unlinked := h.held_unlinked
  initTick {u} hu := by
    by_cases hut : u = t
    · subst hut
      simpa using hinit (by simpa using hu)
    · rw [s.setTimer_timer_of_ne t x hut] at hu ⊢
      exact h.initTick hu

/-- A timer that is in no row may change. -/
theorem setTimer_free (h : TimerInv cfg s) (hl : ∀ k, t ∉ s.list k cfg.bottom)
    (hh : ∀ k, t ∉ s.held k) (hinit : x.object = true → x.initTick < rtTickMax / 2) :
    TimerInv cfg (s.setTimer t x) :=
  h.setTimer (fun k hk => absurd hk (hl k)) (fun k hk => absurd hk (hh k)) hinit

/-- `_timer_remove` keeps the invariant. -/
theorem timerRemove (h : TimerInv cfg s) (t : TimerId) : TimerInv cfg (s.timerRemove t) where
  rows k := (h.rows k).erase t
  kind hmem := h.kind (List.mem_of_mem_erase hmem)
  activated hmem := h.activated (List.mem_of_mem_erase hmem)
  object hmem := h.object (List.mem_of_mem_erase hmem)
  held_nodup k := (h.held_nodup k).erase t
  held_running hmem := h.held_running (List.mem_of_mem_erase hmem)
  held_kind hmem := h.held_kind (List.mem_of_mem_erase hmem)
  held_object hmem := h.held_object (List.mem_of_mem_erase hmem)
  held_unlinked hmem hmem' :=
    h.held_unlinked (List.mem_of_mem_erase hmem) (List.mem_of_mem_erase hmem')
  initTick := h.initTick

/-- A timer that was removed is in no row. -/
theorem not_linked_erase (h : TimerInv cfg s) (t : TimerId) (k : TimerKind) :
    t ∉ (s.list k cfg.bottom).erase t := (h.bottom_nodup k).not_mem_erase

theorem not_held_erase (h : TimerInv cfg s) (t : TimerId) (k : TimerKind) :
    t ∉ (s.held k).erase t := (h.held_nodup k).not_mem_erase

/-- Stopping a timer keeps the invariant. -/
theorem stopped (h : TimerInv cfg s) (t : TimerId) : TimerInv cfg (s.stopped t) :=
  (h.timerRemove t).setTimer_free (h.not_linked_erase t) (h.not_held_erase t) h.initTick

/-- `rt_timer_start` up to the search keeps the invariant. -/
theorem timerArm (h : TimerInv cfg s) (t : TimerId) : TimerInv cfg (timerArm s t) := by
  apply (h.stopped t).setTimer_free (h.not_linked_erase t) (h.not_held_erase t)
  intro hobj
  exact (h.stopped t).initTick hobj

/-- A timer that is in no list enters the rows the search found. -/
theorem link (h : TimerInv cfg s) (hl : ∀ k, t ∉ s.list k cfg.bottom) (hh : ∀ k, t ∉ s.held k)
    (hobj : (s.timer t).object = true) (n : Nat) :
    TimerInv cfg ({ s with
      list := Function.update s.list (s.timer t).kind (s.insertRows cfg t (s.list (s.timer t).kind))
      starts := n }.setActivated t true) := by
  obtain ⟨k₀, hk₀⟩ : ∃ k, k = (s.timer t).kind := ⟨_, rfl⟩
  rw [← hk₀]
  obtain ⟨hrows, hmem⟩ := insertRows_rows s (h.rows k₀) (hl k₀)
  -- who is linked afterwards
  have hin : ∀ {u k}, u ∈ Function.update s.list k₀ (s.insertRows cfg t (s.list k₀)) k cfg.bottom →
      u = t ∧ k = k₀ ∨ u ≠ t ∧ u ∈ s.list k cfg.bottom := by
    intro u k hu
    by_cases hk : k = k₀
    · subst hk
      rw [Function.update_self] at hu
      rcases (hmem u).mp hu with rfl | hu
      · exact Or.inl ⟨rfl, rfl⟩
      · exact Or.inr ⟨fun hut => hl k (hut ▸ hu), hu⟩
    · rw [Function.update_of_ne hk] at hu
      exact Or.inr ⟨fun hut => hl k (hut ▸ hu), hu⟩
  have hself : ∀ b, ({ s.timer t with flag := { (s.timer t).flag with activated := b } } :
      Timer).kind = k₀ := fun b => hk₀.symm
  constructor
  · intro k
    by_cases hk : k = k₀
    · subst hk
      simpa using hrows
    · simpa [Function.update_of_ne hk] using h.rows k
  · intro u k hu
    rcases hin hu with ⟨rfl, rfl⟩ | ⟨hut, hu⟩
    · simpa using hself true
    · rw [TimerSys.setActivated_timer_of_ne _ t true hut]
      exact h.kind hu
  · intro u k hu
    rcases hin hu with ⟨rfl, rfl⟩ | ⟨hut, hu⟩
    · simp
    · rw [TimerSys.setActivated_timer_of_ne _ t true hut]
      exact h.activated hu
  · intro u k hu
    rcases hin hu with ⟨rfl, rfl⟩ | ⟨hut, hu⟩
    · simpa using hobj
    · rw [TimerSys.setActivated_timer_of_ne _ t true hut]
      exact h.object hu
  · exact h.held_nodup
  · exact h.held_running
  · intro u k hu
    have hut : u ≠ t := fun hut => hh k (hut ▸ hu)
    rw [TimerSys.setActivated_timer_of_ne _ t true hut]
    exact h.held_kind hu
  · intro u k hu
    have hut : u ≠ t := fun hut => hh k (hut ▸ hu)
    rw [TimerSys.setActivated_timer_of_ne _ t true hut]
    exact h.held_object hu
  · intro u k k' hu hlink
    rcases hin hlink with ⟨rfl, rfl⟩ | ⟨-, hlink⟩
    · exact hh k hu
    · exact h.held_unlinked hu hlink
  · intro u hu
    by_cases hut : u = t
    · subst hut
      simpa using h.initTick hobj
    · rw [TimerSys.setActivated_timer_of_ne _ t true hut] at hu ⊢
      exact h.initTick hu

/-- `rt_timer_start` keeps the invariant. -/
theorem timerStart (h : TimerInv cfg s) (hobj : (s.timer t).object = true) :
    TimerInv cfg (timerStart cfg s t) := by
  have hl : ∀ k, t ∉ (RTThread.timerArm s t).list k cfg.bottom := h.not_linked_erase t
  have hh : ∀ k, t ∉ (RTThread.timerArm s t).held k := h.not_held_erase t
  have haobj : ((RTThread.timerArm s t).timer t).object = true := by
    simpa [RTThread.timerArm] using hobj
  exact (h.timerArm t).link hl hh haobj _

-- --------
-- The checks
-- --------

/-- The invariant is about the timers, the rows and who is running. -/
theorem of_eq (h : TimerInv cfg s) (ht : s'.timer = s.timer) (hl : s'.list = s.list)
    (hh : s'.held = s.held) (hr : s'.running = s.running) : TimerInv cfg s' := by
  obtain ⟨t', l', h', r', n, m⟩ := s'
  obtain rfl : t' = s.timer := ht
  obtain rfl : l' = s.list := hl
  obtain rfl : h' = s.held := hh
  obtain rfl : r' = s.running := hr
  exact ⟨h.rows, h.kind, h.activated, h.object, h.held_nodup, h.held_running, h.held_kind,
    h.held_object, h.held_unlinked, h.initTick⟩

/-- A check ends with nothing in its stack variable. -/
theorem leave (h : TimerInv cfg s) (hk : s.held k = []) : TimerInv cfg (s.leave k) where
  rows := h.rows
  kind := h.kind
  activated := h.activated
  object := h.object
  held_nodup := h.held_nodup
  held_running {u k'} hu := by
    have hne : k' ≠ k := by
      rintro rfl
      have hu : u ∈ s.held k' := hu
      rw [hk] at hu
      cases hu
    simpa [TimerSys.leave, Function.update_of_ne hne] using h.held_running hu
  held_kind := h.held_kind
  held_object := h.held_object
  held_unlinked := h.held_unlinked
  initTick := h.initTick

/-- A timer that is in no list goes to the stack variable of the check of its kind. -/
theorem hold (h : TimerInv cfg s) (hk : s.held k = []) (hl : ∀ k, t ∉ s.list k cfg.bottom)
    (hkind : (s.timer t).kind = k) (hobj : (s.timer t).object = true) :
    TimerInv cfg (s.hold k t) := by
  have hin : ∀ {u k'}, u ∈ Function.update s.held k (t :: s.held k) k' →
      u = t ∧ k' = k ∨ k' ≠ k ∧ u ∈ s.held k' := by
    intro u k' hu
    by_cases hkk : k' = k
    · subst hkk
      rw [Function.update_self, hk] at hu
      exact Or.inl ⟨List.mem_singleton.mp hu, rfl⟩
    · rw [Function.update_of_ne hkk] at hu
      exact Or.inr ⟨hkk, hu⟩
  constructor
  · exact h.rows
  · exact h.kind
  · exact h.activated
  · exact h.object
  · intro k'
    by_cases hkk : k' = k
    · subst hkk
      simp [TimerSys.hold, hk]
    · simpa [TimerSys.hold, Function.update_of_ne hkk] using h.held_nodup k'
  · intro u k' hu
    rcases hin hu with ⟨rfl, rfl⟩ | ⟨hkk, hu⟩
    · simp [TimerSys.hold]
    · simpa [TimerSys.hold, Function.update_of_ne hkk] using h.held_running hu
  · intro u k' hu
    rcases hin hu with ⟨rfl, rfl⟩ | ⟨-, hu⟩
    · exact hkind
    · exact h.held_kind hu
  · intro u k' hu
    rcases hin hu with ⟨rfl, rfl⟩ | ⟨-, hu⟩
    · exact hobj
    · exact h.held_object hu
  · intro u k' k'' hu
    rcases hin hu with ⟨rfl, rfl⟩ | ⟨-, hu⟩
    · exact hl k''
    · exact h.held_unlinked hu
  · exact h.initTick

/-- A timer that fires is taken out of the rows. -/
theorem fired (h : TimerInv cfg s) (t : TimerId) : TimerInv cfg (s.fired t) := by
  rw [TimerSys.fired]
  split
  · exact h.timerRemove t
  · exact h.stopped t

/-- The rows without it. -/
theorem fired_list (s : TimerSys) (t : TimerId) (k : TimerKind) (r : Nat) :
    (s.fired t).list k r = (s.list k r).erase t := by
  rw [TimerSys.fired]
  split <;> rfl

theorem fired_held (s : TimerSys) (t : TimerId) (k : TimerKind) :
    (s.fired t).held k = (s.held k).erase t := by
  rw [TimerSys.fired]
  split <;> rfl

theorem fired_timer_self (s : TimerSys) (t : TimerId) : (s.fired t).timer t =
    { s.timer t with flag :=
      { (s.timer t).flag with
        activated := (s.timer t).flag.activated && (s.timer t).flag.periodic } } := by
  rw [TimerSys.fired]
  split
  · rename_i hp
    rw [TimerSys.timerRemove_timer] at hp ⊢
    generalize s.timer t = x at hp ⊢
    obtain ⟨_, ⟨_, p, _⟩, _, _, _, _⟩ := x
    obtain rfl : p = true := hp
    simp
  · rename_i hp
    rw [TimerSys.timerRemove_timer] at hp
    simp [hp]

theorem fired_timer_of_ne (s : TimerSys) (h : u ≠ t) : (s.fired t).timer u = s.timer u := by
  rw [TimerSys.fired]
  split
  · rfl
  · exact TimerSys.setActivated_timer_of_ne _ t false h

/-- What the loop of a check does next: it ends, since its list is empty or the first timer
has not run out, or it takes the first timer out. -/
theorem checkHead_cases (cfg : SkipListCfg) (s : TimerSys) (k : TimerKind) :
    (checkHead cfg s k = s.leave k ∧ ∀ t ∈ (s.list k cfg.bottom).head?, s.isDue t = false) ∨
    ∃ t rest, s.list k cfg.bottom = t :: rest ∧ s.isDue t = true ∧
      checkHead cfg s k = (s.fired t).hold k t := by
  rw [checkHead]
  cases hl : s.list k cfg.bottom with
  | nil => exact Or.inl ⟨rfl, by simp⟩
  | cons t rest =>
    by_cases hd : s.isDue t = true
    · exact Or.inr ⟨t, rest, rfl, hd, if_pos hd⟩
    · exact Or.inl ⟨if_neg hd, by simpa using hd⟩

/-- A check of the first timer keeps the invariant. -/
theorem checkHead (h : TimerInv cfg s) (hk : s.held k = []) :
    TimerInv cfg (checkHead cfg s k) := by
  rcases checkHead_cases cfg s k with ⟨heq, -⟩ | ⟨t, rest, hl, -, heq⟩
  · rw [heq]
    exact h.leave hk
  · have hmem : t ∈ s.list k cfg.bottom := by rw [hl]; simp
    rw [heq]
    apply (h.fired t).hold
    · rw [fired_held, hk]
      rfl
    · intro k'
      rw [fired_list]
      exact h.not_linked_erase t k'
    · rw [fired_timer_self]
      exact h.kind hmem
    · rw [fired_timer_self]
      exact h.object hmem

/-- A stack variable holds nothing but the running timer. -/
theorem held_cases (h : TimerInv cfg s) (hrun : s.running k = some t) :
    s.held k = [] ∨ s.held k = [t] := by
  have hall : ∀ u ∈ s.held k, u = t := by
    intro u hu
    have hu := h.held_running hu
    rw [hrun] at hu
    exact (Option.some.inj hu).symm
  have hnd := h.held_nodup k
  cases hheld : s.held k with
  | nil => exact Or.inl rfl
  | cons a as =>
    rw [hheld] at hall hnd
    obtain rfl := hall a (by simp)
    have has : as = [] := by
      apply List.eq_nil_iff_forall_not_mem.mpr
      intro b hb
      exact (List.nodup_cons.mp hnd).1 (hall b (by simp [hb]) ▸ hb)
    exact Or.inr (by rw [has])

/-- Letting go of a timer that is held leaves the rows alone. -/
theorem bottomRemove_list (h : TimerInv cfg s) (ht : t ∈ s.held k) :
    (s.bottomRemove cfg t).list = s.list := by
  funext k' r
  show (if r = cfg.bottom then (s.list k' r).erase t else s.list k' r) = s.list k' r
  split
  · rename_i hr
    rw [hr]
    exact List.erase_of_not_mem (h.held_unlinked ht)
  · rfl

/-- A timer that is held leaves the list of the check. -/
theorem bottomRemove (h : TimerInv cfg s) (ht : t ∈ s.held k) :
    TimerInv cfg (s.bottomRemove cfg t) := by
  have hl := h.bottomRemove_list ht
  constructor
  · rw [hl]
    exact h.rows
  · rw [hl]
    exact h.kind
  · rw [hl]
    exact h.activated
  · rw [hl]
    exact h.object
  · intro k
    exact (h.held_nodup k).erase t
  · intro u k hu
    exact h.held_running (List.mem_of_mem_erase hu)
  · intro u k hu
    exact h.held_kind (List.mem_of_mem_erase hu)
  · intro u k hu
    exact h.held_object (List.mem_of_mem_erase hu)
  · rw [hl]
    intro u k k' hu
    exact h.held_unlinked (List.mem_of_mem_erase hu)
  · exact h.initTick

/-- How a check goes on when a timeout function returns. -/
theorem checkReturn_cases (h : TimerInv cfg s) (hrun : s.running k = some t)
    (hret : checkReturn cfg s k t = .ok s') :
    (s.held k = [] ∧ s' = RTThread.checkHead cfg s k) ∨
    (s.held k = [t] ∧ (s.timer t).flag.periodic = true ∧ (s.timer t).flag.activated = true ∧
      s' = RTThread.checkHead cfg
        (RTThread.timerStart cfg ((s.bottomRemove cfg t).setActivated t false) t) k) ∨
    (s.held k = [t] ∧ ¬ ((s.timer t).flag.periodic = true ∧ (s.timer t).flag.activated = true) ∧
      s' = RTThread.checkHead cfg (s.bottomRemove cfg t) k) := by
  rw [checkReturn] at hret
  rcases h.held_cases hrun with hk | hk
  · rw [if_pos hk] at hret
    exact Or.inl ⟨hk, (Except.ok.inj hret).symm⟩
  · have hmem : t ∈ s.held k := by rw [hk]; simp
    rw [if_neg (by simp [hk])] at hret
    dsimp only at hret
    split at hret
    · rename_i hf
      have hobj : (((s.bottomRemove cfg t).setActivated t false).timer t).object = true := by
        simpa using h.held_object hmem
      rw [rtTimerStart, rtAssert_bind hobj] at hret
      exact Or.inr (Or.inl ⟨hk, hf.1, hf.2, (Except.ok.inj hret).symm⟩)
    · rename_i hf
      exact Or.inr (Or.inr ⟨hk, hf, (Except.ok.inj hret).symm⟩)

/-- A timer that was fired once is released. -/
theorem released (h : TimerInv cfg s) (ht : t ∈ s.held k) :
    TimerInv cfg ((s.bottomRemove cfg t).setActivated t false) := by
  apply (h.bottomRemove ht).setTimer_free
  · intro k'
    rw [h.bottomRemove_list ht]
    exact h.held_unlinked ht
  · exact h.not_held_erase t
  · exact h.initTick

/-- The return of a timeout function keeps the invariant. -/
theorem checkReturn (h : TimerInv cfg s) (hrun : s.running k = some t)
    (hret : checkReturn cfg s k t = .ok s') : TimerInv cfg s' := by
  rcases h.checkReturn_cases hrun hret with ⟨hk, rfl⟩ | ⟨hk, -, -, rfl⟩ | ⟨hk, -, rfl⟩
  · exact h.checkHead hk
  · -- the timer is in no list when it is started again
    have hmem : t ∈ s.held k := by rw [hk]; simp
    have hobj : (((s.bottomRemove cfg t).setActivated t false).timer t).object = true := by
      simpa using h.held_object hmem
    apply ((h.released hmem).timerStart hobj).checkHead
    show ((s.held k).erase t).erase t = []
    simp [hk]
  · have hmem : t ∈ s.held k := by rw [hk]; simp
    apply (h.bottomRemove hmem).checkHead
    simp [hk]

-- --------
-- Every step
-- --------

/-- What is no timer object is in no row. -/
theorem free_of_object (h : TimerInv cfg s) (hobj : (s.timer t).object = false) :
    (∀ k, t ∉ s.list k cfg.bottom) ∧ ∀ k, t ∉ s.held k := by
  constructor
  · intro k hmem
    rw [h.object hmem] at hobj
    cases hobj
  · intro k hmem
    rw [h.held_object hmem] at hobj
    cases hobj

/-- `rt_timer_init` keeps the invariant. -/
theorem init (h : TimerInv cfg s) {time : Nat} {flag : TimerFlag}
    (hinit : rtTimerInit s t time flag = .ok s') : TimerInv cfg s' := by
  obtain ⟨_, htime, hinit⟩ := except_bind_ok hinit
  obtain ⟨_, hobj, hinit⟩ := except_bind_ok hinit
  obtain ⟨hl, hh⟩ := h.free_of_object (of_rtAssert hobj)
  obtain rfl := Except.ok.inj hinit
  exact h.setTimer_free hl hh fun _ => of_rtAssert htime

/-- `rt_timer_detach` keeps the invariant. -/
theorem detach (h : TimerInv cfg s) (hdet : rtTimerDetach s t = .ok s') : TimerInv cfg s' := by
  obtain ⟨_, _, hdet⟩ := except_bind_ok hdet
  obtain rfl := Except.ok.inj hdet
  exact (h.stopped t).setTimer_free (h.not_linked_erase t) (h.not_held_erase t) (by simp)

/-- What `rt_timer_control` changes of a timer. -/
theorem control_cases {cmd : TimerCtrl} {out : Option Nat}
    (hctl : rtTimerControl s t cmd = .ok (out, s')) : (s.timer t).object = true ∧
    (s' = s ∨ ∃ x, s' = s.setTimer t x ∧ x.kind = (s.timer t).kind ∧
      x.flag.activated = (s.timer t).flag.activated ∧ x.object = (s.timer t).object ∧
      x.timeoutTick = (s.timer t).timeoutTick ∧ x.expiry = (s.timer t).expiry ∧
      x.startNo = (s.timer t).startNo ∧
      (x.initTick = (s.timer t).initTick ∨ x.initTick < rtTickMax / 2)) := by
  obtain ⟨_, hobj, hctl⟩ := except_bind_ok hctl
  refine ⟨of_rtAssert hobj, ?_⟩
  cases cmd with
  | setTime tick =>
    obtain ⟨_, htick, hctl⟩ := except_bind_ok hctl
    obtain ⟨-, rfl⟩ := Prod.mk.inj (Except.ok.inj hctl)
    exact Or.inr ⟨_, rfl, rfl, rfl, rfl, rfl, rfl, rfl, Or.inr (of_rtAssert htick)⟩
  | setOneshot =>
    obtain ⟨-, rfl⟩ := Prod.mk.inj (Except.ok.inj hctl)
    exact Or.inr ⟨_, rfl, rfl, rfl, rfl, rfl, rfl, rfl, Or.inl rfl⟩
  | setPeriodic =>
    obtain ⟨-, rfl⟩ := Prod.mk.inj (Except.ok.inj hctl)
    exact Or.inr ⟨_, rfl, rfl, rfl, rfl, rfl, rfl, rfl, Or.inl rfl⟩
  | getTime | getState | getRemainTime | unknown =>
    obtain ⟨-, rfl⟩ := Prod.mk.inj (Except.ok.inj hctl)
    exact Or.inl rfl

/-- `rt_timer_control` keeps the invariant. -/
theorem control (h : TimerInv cfg s) {cmd : TimerCtrl} {out : Option Nat}
    (hctl : rtTimerControl s t cmd = .ok (out, s')) : TimerInv cfg s' := by
  obtain ⟨hobj, rfl | ⟨x, rfl, hkind, hact, hx, -, -, -, hinit⟩⟩ := control_cases hctl
  · exact h
  · apply h.setTimer
    · intro k hmem
      rw [hkind, hact, hx]
      exact ⟨h.kind hmem, h.activated hmem, hobj⟩
    · intro k hmem
      rw [hkind, hx]
      exact ⟨h.held_kind hmem, hobj⟩
    · intro _
      rcases hinit with hinit | hinit
      · rw [hinit]
        exact h.initTick hobj
      · exact hinit

/-- `rt_timer_stop` stops an active timer and nothing else. -/
theorem stop_cases {ok : Bool} (hstop : rtTimerStop s t = .ok (ok, s')) :
    (ok = true ∧ s' = s.stopped t) ∨
      (ok = false ∧ s' = s ∧ (s.timer t).flag.activated = false) := by
  obtain ⟨_, _, hstop⟩ := except_bind_ok hstop
  split at hstop
  · obtain ⟨rfl, rfl⟩ := Prod.mk.inj (Except.ok.inj hstop)
    exact Or.inl ⟨rfl, rfl⟩
  · rename_i hact
    obtain ⟨rfl, rfl⟩ := Prod.mk.inj (Except.ok.inj hstop)
    exact Or.inr ⟨rfl, rfl, by simpa using hact⟩

/-- Nothing is held where no timeout function runs. -/
theorem held_of_idle (h : TimerInv cfg s) (hrun : s.running k = none) : s.held k = [] := by
  apply List.eq_nil_iff_forall_not_mem.mpr
  intro u hu
  rw [h.held_running hu] at hrun
  cases hrun

/-- **Every step keeps the invariant.** -/
theorem step (h : TimerInv cfg s) {a : TimerAct} (hs : TimerStep cfg s a s') : TimerInv cfg s' := by
  cases hs with
  | tick n => exact h.of_eq rfl rfl rfl rfl
  | init hinit => exact h.init hinit
  | detach hdet => exact h.detach hdet
  | start hstart =>
    obtain ⟨_, hobj, hstart⟩ := except_bind_ok hstart
    obtain rfl := Except.ok.inj hstart
    exact h.timerStart (of_rtAssert hobj)
  | stop hstop =>
    rcases stop_cases hstop with ⟨-, rfl⟩ | ⟨-, rfl, -⟩
    · exact h.stopped _
    · exact h
  | stopLate t => exact h.stopped t
  | control hctl => exact h.control hctl
  | check hrun => exact h.checkHead (h.held_of_idle hrun)
  | ret hrun _ hret => exact h.checkReturn hrun hret

end TimerInv

end RTThread
