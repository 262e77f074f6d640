import RTThread.Kernel.KernelInv

/-!
# The kernel, executed

The steps of the kernel are a function of the action: `Kernel.exec` takes it where the kernel
allows it. With it an interleaving of calls is replayed and the state it leads to computed.

## Main results

* `Kernel.exec_iff` — the function takes exactly the steps of `KernelStep`.
-/

namespace RTThread

open Runs (takeIf takeIf_eq_some)

variable {cfg : SchedCfg} {idle : ThreadId}

instance (s : Kernel) (t : ThreadId) (pc : Pc) : Decidable (s.At t pc) :=
  decidable_of_iff (s.sys.current = some t ∧ s.pc t = pc ∧ s.pending = false)
    ⟨fun h => ⟨h.1, h.2.1, h.2.2⟩, fun h => ⟨h.current, h.pc, h.settled⟩⟩

instance (s : Kernel) : (c : Option ThreadId) → Decidable (s.Caller c)
  | none => isTrue trivial
  | some t => inferInstanceAs (Decidable (s.At t .run))

instance (timeout : Int) : Decidable (TimeoutOk timeout) :=
  inferInstanceAs (Decidable (_ < _))

/-- The state an action leads to, where it can be taken. -/
def Kernel.exec (cfg : SchedCfg) (idle : ThreadId) (s : Kernel) : KernelAct → Option Kernel
  | .semTake t i timeout =>
    takeIf (s.At t .run ∧
      ((s.sem i).value = 0 → timeout ≠ 0 → s.sys.lockNest = 0 ∧ TimeoutOk timeout) ∧
      (t = idle → timeout = 0)) (rtSemTake cfg s t i timeout).2
  | .semTrytake i =>
    match s.sys.current with
    | some t => some (rtSemTrytake cfg s t i).2
    | none => none
  | .semRelease c i =>
    takeIf (s.Caller c)
      (if (rtSemRelease cfg s i).2.1 then (rtSemRelease cfg s i).2.2.goSchedule c
      else (rtSemRelease cfg s i).2.2)
  | .semReset c i value => takeIf (s.Caller c) ((rtSemReset cfg s i value).goSchedule c)
  | .mutexTake t m timeout =>
    takeIf (s.At t .run ∧ (s.sys.lockNest = 0 ∧ TimeoutOk timeout) ∧ (t = idle → timeout = 0))
      (rtMutexTake cfg s t m timeout).2
  | .mutexRelease t m =>
    takeIf (s.At t .run)
      (if (rtMutexRelease cfg s t m).2.1 then (rtMutexRelease cfg s t m).2.2.goSchedule (some t)
      else (rtMutexRelease cfg s t m).2.2)
  | .wait t i timeout =>
    takeIf (s.At t .run ∧ (s.sys.lockNest = 0 ∧ TimeoutOk timeout) ∧ t ≠ idle)
      ({ s with sys := s.sys.setError t .eok }.block cfg t (.other i) (s.flag i) timeout (.wait i))
  | .signal c i u =>
    takeIf (s.Caller c ∧ u ∈ s.waiters (.other i))
      ({ s with sys := (rtThreadResume cfg s.sys u).2 }.goSchedule c)
  | .sleep t timeout =>
    takeIf (s.At t .run ∧ (s.sys.lockNest = 0 ∧ TimeoutOk timeout) ∧ t ≠ idle)
      ({ s with
        sys := ((rtThreadSuspend cfg (s.sys.setError t .eok) t).2).setTimer t true }.setPc t
          (.schedule .sleep))
  | .control t u priority =>
    takeIf (s.At t .run ∧ priority < cfg.priorityMax)
      { s with sys := rtThreadControl cfg s.sys u priority }
  | .startup t u =>
    takeIf (s.At t .run ∧ (s.sys.thread u).stat = .init)
      ({ s with sys := threadStartup cfg s.sys u }.goSchedule (some t))
  | .yield t => takeIf (s.At t .run) { s with sys := rtThreadYield cfg s.sys t }
  | .enterCritical t => takeIf (s.At t .run) { s with sys := rtEnterCritical s.sys }
  | .exitCritical t =>
    takeIf (s.At t .run)
      (let s' := { s with sys := { s.sys with lockNest := s.sys.lockNest - 1 } }
      if s'.sys.lockNest = 0 then s'.goSchedule (some t) else s')
  | .reschedule t =>
    match s.pc t with
    | .schedule k =>
      takeIf (s.At t (.schedule k)) ({ s with sys := rtSchedule cfg s.sys }.setPc t (.woken k))
    | _ => none
  | .ret t =>
    match s.pc t with
    | .woken k => takeIf (s.At t (.woken k)) (s.leave t k).2
    | _ => none
  | .timeout u =>
    takeIf ((s.sys.thread u).timer = true ∧ (s.sys.thread u).stat = .suspend)
      { s with sys := threadTimeout cfg (s.sys.setTimer u false) u, pending := true }
  | .tick =>
    match s.sys.current with
    | some t =>
      some { s with
        sys := s.sys.setThread t { s.sys.thread t with yielding := true }, pending := true }
    | none => none
  | .schedule => some { s with sys := rtSchedule cfg s.sys, pending := false }

/-- **The function takes the steps of the kernel**, and no others. -/
theorem Kernel.exec_iff {s s' : Kernel} {a : KernelAct} :
    s.exec cfg idle a = some s' ↔ KernelStep cfg idle s a s' := by
  constructor
  · intro h
    cases a with
    | semTake t i timeout =>
      obtain ⟨⟨hat, hassert, hidle⟩, rfl⟩ := takeIf_eq_some.1 h
      exact .semTake hat hassert hidle
    | semTrytake i =>
      unfold Kernel.exec at h
      dsimp only at h
      split at h
      case h_1 t hcur =>
        cases h
        exact .semTrytake hcur
      case h_2 => cases h
    | semRelease c i =>
      obtain ⟨hc, rfl⟩ := takeIf_eq_some.1 h
      exact .semRelease hc
    | semReset c i value =>
      obtain ⟨hc, rfl⟩ := takeIf_eq_some.1 h
      exact .semReset hc
    | mutexTake t m timeout =>
      obtain ⟨⟨hat, hassert, hidle⟩, rfl⟩ := takeIf_eq_some.1 h
      exact .mutexTake hat hassert hidle
    | mutexRelease t m =>
      obtain ⟨hat, rfl⟩ := takeIf_eq_some.1 h
      exact .mutexRelease hat
    | wait t i timeout =>
      obtain ⟨⟨hat, hassert, hidle⟩, rfl⟩ := takeIf_eq_some.1 h
      exact .wait hat hassert hidle
    | signal c i u =>
      obtain ⟨⟨hc, hu⟩, rfl⟩ := takeIf_eq_some.1 h
      exact .signal hc hu
    | sleep t timeout =>
      obtain ⟨⟨hat, hassert, hidle⟩, rfl⟩ := takeIf_eq_some.1 h
      exact .sleep hat hassert hidle
    | control t u priority =>
      obtain ⟨⟨hat, hp⟩, rfl⟩ := takeIf_eq_some.1 h
      exact .control hat hp
    | startup t u =>
      obtain ⟨⟨hat, hu⟩, rfl⟩ := takeIf_eq_some.1 h
      exact .startup hat hu
    | yield t =>
      obtain ⟨hat, rfl⟩ := takeIf_eq_some.1 h
      exact .yield hat
    | enterCritical t =>
      obtain ⟨hat, rfl⟩ := takeIf_eq_some.1 h
      exact .enterCritical hat
    | exitCritical t =>
      obtain ⟨hat, rfl⟩ := takeIf_eq_some.1 h
      exact .exitCritical hat
    | reschedule t =>
      unfold Kernel.exec at h
      dsimp only at h
      split at h
      case h_1 k hk =>
        obtain ⟨hat, rfl⟩ := takeIf_eq_some.1 h
        exact .reschedule hat
      case h_2 => cases h
    | ret t =>
      unfold Kernel.exec at h
      dsimp only at h
      split at h
      case h_1 k hk =>
        obtain ⟨hat, rfl⟩ := takeIf_eq_some.1 h
        exact .ret hat
      case h_2 => cases h
    | timeout u =>
      obtain ⟨⟨htimer, hassert⟩, rfl⟩ := takeIf_eq_some.1 h
      exact .timeout htimer hassert
    | tick =>
      unfold Kernel.exec at h
      dsimp only at h
      split at h
      case h_1 t hcur =>
        cases h
        exact .tick hcur
      case h_2 => cases h
    | schedule =>
      cases h
      exact .schedule s
  · intro h
    cases h with
    | semTake hat hassert hidle => exact takeIf_eq_some.2 ⟨⟨hat, hassert, hidle⟩, rfl⟩
    | @semTrytake t i hcur =>
      unfold Kernel.exec
      dsimp only
      rw [hcur]
    | semRelease hc => exact takeIf_eq_some.2 ⟨hc, rfl⟩
    | semReset hc => exact takeIf_eq_some.2 ⟨hc, rfl⟩
    | mutexTake hat hassert hidle => exact takeIf_eq_some.2 ⟨⟨hat, hassert, hidle⟩, rfl⟩
    | mutexRelease hat => exact takeIf_eq_some.2 ⟨hat, rfl⟩
    | wait hat hassert hidle => exact takeIf_eq_some.2 ⟨⟨hat, hassert, hidle⟩, rfl⟩
    | signal hc hu => exact takeIf_eq_some.2 ⟨⟨hc, hu⟩, rfl⟩
    | sleep hat hassert hidle => exact takeIf_eq_some.2 ⟨⟨hat, hassert, hidle⟩, rfl⟩
    | control hat hp => exact takeIf_eq_some.2 ⟨⟨hat, hp⟩, rfl⟩
    | startup hat hu => exact takeIf_eq_some.2 ⟨⟨hat, hu⟩, rfl⟩
    | yield hat => exact takeIf_eq_some.2 ⟨hat, rfl⟩
    | enterCritical hat => exact takeIf_eq_some.2 ⟨hat, rfl⟩
    | exitCritical hat => exact takeIf_eq_some.2 ⟨hat, rfl⟩
    | @reschedule t k hat =>
      unfold Kernel.exec
      dsimp only
      rw [hat.pc]
      exact takeIf_eq_some.2 ⟨hat, rfl⟩
    | @ret t k hat =>
      unfold Kernel.exec
      dsimp only
      rw [hat.pc]
      exact takeIf_eq_some.2 ⟨hat, rfl⟩
    | timeout htimer hassert => exact takeIf_eq_some.2 ⟨⟨htimer, hassert⟩, rfl⟩
    | tick hcur =>
      unfold Kernel.exec
      dsimp only
      rw [hcur]
    | schedule => rfl

theorem Kernel.run_of_replay {s₀ : Kernel} {as : List KernelAct} {p : Kernel → Bool}
    (h : (Runs.replay (Kernel.exec cfg idle) s₀ as).any p = true) :
    ∃ s, Runs.replay (Kernel.exec cfg idle) s₀ as = some s ∧
      Runs (KernelStep cfg idle) Runs.always s₀ s ∧ p s = true := by
  have hexec : ∀ s a s', Kernel.exec cfg idle s a = some s' →
      Runs.always s a ∧ KernelStep cfg idle s a s' :=
    fun _ _ _ hs => ⟨trivial, Kernel.exec_iff.1 hs⟩
  exact Runs.exists_of_replay hexec h

/-- An interleaving of calls that are all `Ok`, replayed from the start. -/
theorem Kernel.allowed_of_replay {Ok : Kernel → KernelAct → Prop} [∀ s a, Decidable (Ok s a)]
    {s₀ : Kernel} {as : List KernelAct} {p : Kernel → Bool}
    (h : (Runs.replay (Runs.execOk (Kernel.exec cfg idle) Ok) s₀ as).any p = true) :
    ∃ s, Runs (KernelStep cfg idle) Ok s₀ s ∧ p s = true := by
  have hexec : ∀ s a s', Runs.execOk (Kernel.exec cfg idle) Ok s a = some s' →
      Ok s a ∧ KernelStep cfg idle s a s' := by
    intro s a s' hs
    unfold Runs.execOk at hs
    split at hs
    case isTrue hok => exact ⟨hok, Kernel.exec_iff.1 hs⟩
    case isFalse => cases hs
  obtain ⟨s, -, hrun, hp⟩ := Runs.exists_of_replay hexec h
  exact ⟨s, hrun, hp⟩

/-- The kernel with an observer, where the actions that are not `Ok` are refused. -/
def Kernel.execOk {γ : Type*} (cfg : SchedCfg) (idle : ThreadId) (observe : γ → Kernel → KernelAct → γ)
    (Ok : Kernel × γ → KernelAct → Prop) [∀ p a, Decidable (Ok p a)] (p : Kernel × γ)
    (a : KernelAct) : Option (Kernel × γ) :=
  if Ok p a then Runs.execObserved (Kernel.exec cfg idle) observe p a else none

/-- An observed interleaving, replayed from the start. -/
theorem Kernel.observed_of_replay {γ : Type*} {observe : γ → Kernel → KernelAct → γ}
    {Ok : Kernel × γ → KernelAct → Prop} [∀ p a, Decidable (Ok p a)] {p₀ : Kernel × γ}
    {as : List KernelAct} {p : Kernel × γ → Bool}
    (h : (Runs.replay (Kernel.execOk cfg idle observe Ok) p₀ as).any p = true) :
    ∃ q, Runs (Runs.Observed (KernelStep cfg idle) observe) Ok p₀ q ∧ p q = true := by
  have hexec : ∀ q a q', Kernel.execOk cfg idle observe Ok q a = some q' →
      Ok q a ∧ Runs.Observed (KernelStep cfg idle) observe q a q' := by
    intro q a q' hq
    unfold Kernel.execOk at hq
    split at hq
    case isTrue hok =>
      obtain ⟨s', hs', rfl⟩ := Option.map_eq_some_iff.1 hq
      exact ⟨hok, Kernel.exec_iff.1 hs', rfl⟩
    case isFalse => cases hq
  obtain ⟨q, -, hrun, hp⟩ := Runs.exists_of_replay hexec h
  exact ⟨q, hrun, hp⟩

/-- A started kernel with 32 priorities and semaphores without units. The threads have the
priorities of the list; the first is the idle thread. -/
def bootKernel32 (priority : List Nat) : Kernel :=
  bootKernel schedCfg32 (fun t => priority.getD t 31) (fun _ => 0)

theorem getD_lt {priority : List Nat} (hp : ∀ p, p ∈ priority → p < 32) (t : ThreadId) :
    priority.getD t 31 < schedCfg32.priorityMax := by
  show priority.getD t 31 < 32
  rw [List.getD_eq_getElem?_getD]
  cases ht : priority[t]? with
  | none => decide
  | some p => exact hp p (List.mem_of_getElem? ht)

theorem bootKernel32_booted {priority : List Nat} (hp : ∀ p, p ∈ priority → p < 32) :
    (bootKernel32 priority).Booted schedCfg32 0 :=
  bootKernel_booted (getD_lt hp) fun _ => Nat.zero_le _

end RTThread
