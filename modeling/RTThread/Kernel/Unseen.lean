import RTThread.Kernel.KernelInv

/-!
# Steps that do not concern an object

Most steps have nothing to do with a given semaphore or mutex: its list stays as it is, the
threads in a call on it stay in this call, and their errors are left alone. `KernelStep.unseen`
says so of every step at once, so that what is proved of an object only looks at its own calls,
and at the time-outs and returns of the threads that wait for it.
-/

namespace RTThread

variable {cfg : SchedCfg} {idle : ThreadId}

/-- The thread is in a call that waits for the object. -/
def Kernel.InCall (s : Kernel) (u : ThreadId) (o : IpcId) : Prop :=
  ∃ k, (s.pc u).cont = some k ∧ k.queue = some o

/-- The action is a call on the object, or ends the wait of a thread for it. -/
def KernelAct.Concerns (s : Kernel) (o : IpcId) : KernelAct → Prop
  | .semTake _ i _ => o = .sem i
  | .semTrytake i => o = .sem i
  | .semRelease _ i => o = .sem i
  | .semReset _ i _ => o = .sem i
  | .mutexTake _ m _ => o = .mutex m
  | .mutexRelease _ m => o = .mutex m
  | .wait _ i _ => o = .other i
  | .signal _ i _ => o = .other i
  | .timeout u => s.InCall u o
  | .ret t => s.InCall t o
  | _ => False

/-- The object does not see the step. -/
structure Unseen (o : IpcId) (s s' : Kernel) : Prop where
  waiters : s'.waiters o = s.waiters o
  inCall : ∀ u, s'.InCall u o ↔ s.InCall u o
  error : ∀ u, s.InCall u o → (s'.sys.thread u).error = (s.sys.thread u).error

section Frames

variable {s : Sys} {t u : ThreadId} {p : Nat}

theorem SchedInv.control_error (h : SchedInv cfg s) (t u : ThreadId) (p : Nat) :
    ((rtThreadControl cfg s t p).thread u).error = (s.thread u).error := by
  rw [h.control_thread]
  by_cases hu : u = t
  · subst hu
    rw [Function.update_self, Thread.withPriority_error]
  · rw [Function.update_of_ne hu]

@[simp] theorem restorePriority_current (t : ThreadId) (p : Nat) :
    (restorePriority cfg s t p).current = s.current := by
  unfold restorePriority
  split
  · exact rtThreadControl_current t p
  · rfl

theorem SchedInv.restore_error (h : SchedInv cfg s) (t u : ThreadId) (p : Nat) :
    ((restorePriority cfg s t p).thread u).error = (s.thread u).error := by
  unfold restorePriority
  split
  · exact h.control_error t u p
  · rfl

theorem SchedInv.changeOwner_error (h : SchedInv cfg s) (t u : ThreadId)
    (owner : Option ThreadId) :
    ((changeOwnerPriority cfg s t owner).thread u).error = (s.thread u).error := by
  unfold changeOwnerPriority
  split
  · rfl
  · split
    · exact h.control_error _ u _
    · rfl

theorem SchedInv.changeOwner_wait (h : SchedInv cfg s) (t : ThreadId) (owner : Option ThreadId)
    (o : IpcId) : (changeOwnerPriority cfg s t owner).queue (.wait o) = s.queue (.wait o) := by
  unfold changeOwnerPriority
  split
  · rfl
  · split
    · exact h.control_wait _ _ o
    · rfl

theorem setError_of_ne (e : RtErr) (hu : u ≠ t) : (s.setError t e).thread u = s.thread u :=
  Sys.setThread_of_ne _ _ hu

theorem resume_error (hs : (s.thread t).stat = .suspend) (u : ThreadId) :
    ((rtThreadResume cfg s t).2.thread u).error = (s.thread u).error := by
  rw [rtThreadResume_eq hs]
  by_cases hu : u = t
  · subst hu
    rw [wake_self]
  · rw [wake_of_ne _ hu]

theorem resume_wait (hs : (s.thread t).stat = .suspend) (o : IpcId) :
    (rtThreadResume cfg s t).2.queue (.wait o) = (s.queue (.wait o)).erase t := by
  rw [rtThreadResume_eq hs]
  exact wake_wait _ o

end Frames

section Step

variable {s s' : Kernel} {t u : ThreadId} {o o' : IpcId} {k : Cont}

theorem Unseen.refl (o : IpcId) (s : Kernel) : Unseen o s s :=
  ⟨rfl, fun _ => Iff.rfl, fun _ _ => rfl⟩

theorem Unseen.of_same (hsys : s'.sys = s.sys) (hpc : s'.pc = s.pc) : Unseen o s s' where
  waiters := by
    unfold Kernel.waiters
    rw [hsys]
  inCall u := by
    unfold Kernel.InCall
    rw [hpc]
  error u _ := by rw [hsys]

theorem inCall_setPc {p : Pc} (hother : ∀ u, u ≠ t → s'.pc u = s.pc u) (ht : s'.pc t = p)
    (hnew : ∀ k, p.cont = some k → k.queue ≠ some o)
    (hold : ∀ k, (s.pc t).cont = some k → k.queue ≠ some o) (u : ThreadId) :
    s'.InCall u o ↔ s.InCall u o := by
  unfold Kernel.InCall
  by_cases hu : u = t
  · subst hu
    rw [ht]
    exact iff_of_false (fun ⟨k, hk, hq⟩ => hnew k hk hq) fun ⟨k, hk, hq⟩ => hold k hk hq
  · rw [hother u hu]

theorem not_inCall_of_run (hpc : s.pc t = .run) : ¬ s.InCall t o := by
  rintro ⟨k, hk, -⟩
  rw [hpc] at hk
  cases hk

theorem inCall_of_run {p : Pc} (hrun : s.pc t = .run) (hpc : s'.pc = Function.update s.pc t p)
    (hnew : ∀ k, p.cont = some k → k.queue ≠ some o) (u : ThreadId) :
    s'.InCall u o ↔ s.InCall u o := by
  refine inCall_setPc (t := t) (p := p) (fun v hv => ?_) ?_ hnew ?_ u
  · rw [hpc, Function.update_of_ne hv]
  · rw [hpc, Function.update_self]
  · exact fun k hk hq => not_inCall_of_run hrun ⟨k, hk, hq⟩

theorem ne_of_inCall {o : IpcId} (hpc : s.pc t = .run) (hu : s.InCall u o) : u ≠ t := by
  rintro rfl
  exact not_inCall_of_run hpc hu

theorem BlockInv.inCall_of_waits (h : BlockInv cfg idle s.sys s.pc) {o : IpcId}
    (hu : u ∈ s.waiters o) : s.InCall u o :=
  ((h.waiting u o).1 hu).2

/-- Going on to `rt_schedule` is no call on an object. -/
theorem inCall_goSchedule {c : Option ThreadId} (hpc : s'.pc = s.pc) (hc : s.Caller c)
    (u : ThreadId) : (s'.goSchedule c).InCall u o ↔ s.InCall u o := by
  cases c with
  | none =>
    unfold Kernel.InCall Kernel.goSchedule
    rw [hpc]
  | some t =>
    have hpc' : (s'.goSchedule (some t)).pc = Function.update s.pc t (.schedule .done) := by
      rw [← hpc]
      rfl
    refine inCall_of_run hc.pc hpc' ?_ u
    intro k hk
    cases hk
    simp [Cont.queue]

theorem BlockInv.not_inCall (h : BlockInv cfg idle s.sys s.pc) (hu : u ∈ s.waiters o')
    (ho : o' ≠ o) : ¬ s.InCall u o := by
  rintro ⟨k, hk, hq⟩
  obtain ⟨-, k', hk', hq'⟩ := (h.waiting u o').1 hu
  rw [hk, Option.some.injEq] at hk'
  subst hk'
  rw [hq, Option.some.injEq] at hq'
  exact ho hq'.symm

/-- Resuming a thread that waits for another object. -/
theorem BlockInv.resume_unseen (h : BlockInv cfg idle s.sys s.pc) {c : Option ThreadId}
    (hc : s.Caller c) (hu : u ∈ s.waiters o') (ho : o' ≠ o) :
    Unseen o s (({ s with sys := (rtThreadResume cfg s.sys u).2 } : Kernel).goSchedule c) := by
  have hs := h.sched.wait hu
  refine ⟨?_, inCall_goSchedule rfl hc, ?_⟩
  · show (Kernel.goSchedule _ c).sys.queue (.wait o) = s.sys.queue (.wait o)
    rw [Kernel.goSchedule_sys]
    rw [resume_wait hs]
    exact List.erase_of_not_mem fun hu' => ho (QueueId.wait.inj (h.sched.apart.same hu hu'))
  · intro v _
    rw [Kernel.goSchedule_sys]
    exact resume_error hs v

/-- A call that blocks for another object. -/
theorem block_unseen {flag : IpcFlag} {timeout : Int} (h : SchedInv cfg s.sys)
    (ha : (s.sys.thread t).Awake) (hpc : s.pc t = .run) (hk : k.queue = some o') (ho : o' ≠ o) :
    Unseen o s (s.block cfg t o' flag timeout k) := by
  refine ⟨Kernel.block_waiters_of_ne h ha (Ne.symm ho),
    inCall_of_run (p := .schedule k) hpc rfl ?_, ?_⟩
  · intro k' hk' hq
    cases hk'
    rw [hk, Option.some.injEq] at hq
    exact ho hq
  · intro u _
    by_cases hu : u = t
    · subst hu
      rw [Kernel.block_self h ha]
    · rw [Kernel.block_of_ne h ha hu]

theorem Unseen.trans {s'' : Kernel} (h : Unseen o s s') (h' : Unseen o s' s'') :
    Unseen o s s'' where
  waiters := h'.waiters.trans h.waiters
  inCall u := (h'.inCall u).trans (h.inCall u)
  error u hu := (h'.error u ((h.inCall u).2 hu)).trans (h.error u hu)

theorem Unseen.of_sys {sys : Sys} (hwait : sys.queue (.wait o) = s.sys.queue (.wait o))
    (herror : ∀ u, s.InCall u o → (sys.thread u).error = (s.sys.thread u).error) :
    Unseen o s { s with sys := sys } :=
  ⟨hwait, fun _ => Iff.rfl, herror⟩

theorem setError_unseen (e : RtErr) (hpc : s.pc t = .run) :
    Unseen o s { s with sys := s.sys.setError t e } := by
  refine Unseen.of_sys rfl fun u hu => ?_
  rw [setError_of_ne e (ne_of_inCall hpc hu)]

/-- **A step that does not concern an object leaves it alone.** -/
theorem KernelStep.unseen {a : KernelAct} (h : KernelInv cfg idle s)
    (hs : KernelStep cfg idle s a s') (ha : ¬ a.Concerns s o) : Unseen o s s' := by
  have hb := h.toBlockInv
  cases hs with
  | @semTake t i timeout hat hassert hidle =>
    rcases @rtSemTake_cases cfg s t i timeout with
      ⟨-, heq⟩ | ⟨-, -, heq⟩ | ⟨-, -, heq⟩ <;> rw [heq]
    · exact Unseen.of_same rfl rfl
    · exact Unseen.refl o s
    · exact (setError_unseen .eok hat.pc).trans (block_unseen (hb.setError t .eok).sched
        (hb.awake_resetError hat) hat.pc rfl (Ne.symm ha))
  | @semTrytake t i hcur =>
    unfold rtSemTrytake
    rcases @rtSemTake_cases cfg s t i 0 with ⟨-, heq⟩ | ⟨-, -, heq⟩ | ⟨-, htime, -⟩
    · rw [heq]
      exact Unseen.of_same rfl rfl
    · rw [heq]
      exact Unseen.refl o s
    · exact absurd rfl htime
  | @semRelease c i hc =>
    rcases @rtSemRelease_cases cfg s i with ⟨w, rest, hq, heq⟩ | ⟨-, -, heq⟩ | ⟨-, -, heq⟩ <;>
      rw [heq]
    · exact hb.resume_unseen hc (Queues.head_mem hq) (Ne.symm ha)
    · exact Unseen.of_same rfl rfl
    · exact Unseen.refl o s
  | @semReset c i value hc =>
    obtain ⟨-, hall⟩ := resumeAll_spec hb (.sem i)
    refine ⟨?_, inCall_goSchedule rfl hc, ?_⟩
    · unfold Kernel.waiters
      rw [Kernel.goSchedule_sys]
      exact hall.others o ha
    · intro u hu
      rw [Kernel.goSchedule_sys]
      have hnot : u ∉ s.sys.queue (.wait (.sem i)) :=
        fun hmem => hb.not_inCall hmem (Ne.symm ha) hu
      show ((ipcListResumeAll cfg s.sys (.sem i)).thread u).error = _
      rw [hall.kept u hnot]
  | @mutexTake t m timeout hat hassert hidle =>
    have hcase := @rtMutexTake_cases cfg s t m timeout
    have hreset : Unseen o s (s.resetError t) := setError_unseen .eok hat.pc
    generalize rtMutexTake cfg s t m timeout = r at hcase ⊢
    cases hcase with
    | again => exact hreset.trans (Unseen.of_same rfl rfl)
    | full => exact hreset
    | first => exact hreset.trans (Unseen.of_same rfl rfl)
    | stuck => exact hreset.trans (Unseen.of_same rfl rfl)
    | refused => exact hreset.trans (setError_unseen .etimeout hat.pc)
    | blocked =>
      have herr := hb.setError t .eok
      have howner := herr.changeOwner t (s.mutex m).owner
      refine (hreset.trans (Unseen.of_sys (herr.sched.changeOwner_wait _ _ _)
        fun u _ => herr.sched.changeOwner_error _ u _)).trans
        (block_unseen howner.sched ?_ hat.pc rfl (Ne.symm ha))
      show (_ : Thread).Awake
      unfold Thread.Awake
      rw [changeOwnerPriority_stat herr.sched]
      exact hb.awake_resetError hat
  | @mutexRelease t m hat =>
    have hcase := @rtMutexRelease_cases cfg s t m h.sched
    have hrestore : ∀ p, Unseen o s { s with sys := restorePriority cfg s.sys t p } := fun p =>
      Unseen.of_sys (h.sched.restore_wait _ _ _) fun u _ => h.sched.restore_error _ u _
    generalize rtMutexRelease cfg s t m = r at hcase ⊢
    cases hcase with
    | notOwner => exact setError_unseen .error hat.pc
    | keep => exact Unseen.of_same rfl rfl
    | handOver howner _ w rest hq =>
      have hres := hb.restore t (h.original _ _ howner)
      have hw : w ∈ ({ s with sys := restorePriority cfg s.sys t (s.mutex m).originalPriority } :
          Kernel).waiters (.mutex m) := by
        unfold Kernel.waiters at hq ⊢
        rw [h.sched.restore_wait]
        exact Queues.head_mem hq
      have hc : ({ s with sys := restorePriority cfg s.sys t (s.mutex m).originalPriority } :
          Kernel).Caller (some t) := by
        refine ⟨?_, hat.pc, hat.settled⟩
        show (restorePriority cfg s.sys t _).current = some t
        rw [restorePriority_current]
        exact hat.current
      have hresume := BlockInv.resume_unseen hres hc hw (Ne.symm ha)
      exact (hrestore _).trans ⟨hresume.waiters, hresume.inCall, hresume.error⟩
    | free => exact (hrestore _).trans (Unseen.of_same rfl rfl)
    | overflow => exact (hrestore _).trans (Unseen.of_same rfl rfl)
  | @wait t i timeout hat hassert hidle =>
    exact (setError_unseen .eok hat.pc).trans (block_unseen (hb.setError t .eok).sched
      (hb.awake_resetError hat) hat.pc rfl (Ne.symm ha))
  | @signal c i u hc hu => exact hb.resume_unseen hc hu (Ne.symm ha)
  | @sleep t timeout hat hassert hidle =>
    have herr := hb.setError t .eok
    have hrun := hb.running_resetError hat
    refine ⟨suspend_wait herr.sched (Or.inr hrun) o,
      inCall_of_run (p := .schedule .sleep) hat.pc rfl ?_, ?_⟩
    · intro k' hk'
      cases hk'
      simp [Cont.queue]
    · intro u hu
      have hut := ne_of_inCall hat.pc hu
      show (((rtThreadSuspend cfg (s.sys.setError t .eok) t).2.setTimer t true).thread u).error = _
      unfold Sys.setTimer
      rw [Sys.setThread_of_ne _ _ hut, suspend_thread (Or.inr hrun), Function.update_of_ne hut,
        setError_of_ne _ hut]
  | @control t u priority hat hp =>
    exact Unseen.of_sys (h.sched.control_wait _ _ _) fun v _ => h.sched.control_error _ v _
  | @startup t u hat hu =>
    have hnot : u ∉ s.sys.queue (.wait o) := hb.not_waiting (by rw [hu]; decide) o
    refine ⟨?_, inCall_goSchedule rfl hat, ?_⟩
    · unfold Kernel.waiters
      rw [Kernel.goSchedule_sys]
      show (threadStartup cfg s.sys u).queue (.wait o) = _
      rw [threadStartup_eq h.sched hu, wake_wait]
      exact List.erase_of_not_mem hnot
    · intro v hv
      rw [Kernel.goSchedule_sys]
      show ((threadStartup cfg s.sys u).thread v).error = _
      rw [threadStartup_eq h.sched hu]
      by_cases hvu : v = u
      · subst hvu
        rw [wake_self]
        exact Thread.withPriority_error _ _
      · rw [wake_of_ne _ hvu]
  | @yield t hat =>
    have hedit : SchedInv cfg (s.sys.setThread t { s.sys.thread t with yielding := true }) :=
      h.sched.edit rfl rfl rfl rfl rfl
    refine Unseen.of_sys (hedit.schedule_wait o) fun u _ => ?_
    refine (hedit.schedule_error u).trans ?_
    by_cases hut : u = t
    · subst hut
      rw [Sys.setThread_self]
    · rw [Sys.setThread_of_ne _ _ hut]
  | @enterCritical t hat => exact Unseen.of_sys rfl fun _ _ => rfl
  | @exitCritical t hat =>
    dsimp only
    split
    · exact ⟨rfl, inCall_goSchedule (c := some t) rfl hat, fun _ _ => rfl⟩
    · exact Unseen.of_sys rfl fun _ _ => rfl
  | @reschedule t k hat =>
    refine ⟨h.sched.schedule_wait o, ?_, fun u _ => h.sched.schedule_error u⟩
    intro u
    unfold Kernel.InCall
    by_cases hut : u = t
    · subst hut
      show (∃ k', (Function.update s.pc u _ u).cont = some k' ∧ _) ↔ _
      rw [Function.update_self, hat.pc]
      exact Iff.rfl
    · show (∃ k', (Function.update s.pc t _ u).cont = some k' ∧ _) ↔ _
      rw [Function.update_of_ne hut]
  | @ret t k hat =>
    have hnot : ¬ s.InCall t o := ha
    have hmove : ∀ s'' : Kernel, s''.pc = s.pc → ∀ u,
        (s''.setPc t .run).InCall u o ↔ s.InCall u o := by
      intro s'' hpc
      refine inCall_setPc (t := t) (p := .run) ?_ ?_ ?_ ?_
      · intro u hu
        show Function.update s''.pc t _ u = s.pc u
        rw [Function.update_of_ne hu, hpc]
      · exact Function.update_self _ _ _
      · intro k' hk'
        cases hk'
      · exact fun k' hk' hq => hnot ⟨k', hk', hq⟩
    rcases @Kernel.leave_eq s t k with heq | heq <;> rw [heq]
    · exact ⟨rfl, hmove s rfl, fun _ _ => rfl⟩
    · refine ⟨rfl, hmove _ rfl, fun u hu => ?_⟩
      have hut : u ≠ t := by
        rintro rfl
        exact hnot hu
      show ((s.sys.setError t .eok).thread u).error = _
      rw [setError_of_ne _ hut]
  | @timeout u htimer hassert =>
    have hnot : ¬ s.InCall u o := ha
    have hu : u ∉ s.sys.queue (.wait o) := fun hmem => hnot ((hb.waiting u o).1 hmem).2
    refine ⟨?_, fun _ => Iff.rfl, ?_⟩
    · show (threadTimeout cfg (s.sys.setTimer u false) u).queue (.wait o) = _
      rw [threadTimeout_eq, wake_wait]
      exact List.erase_of_not_mem hu
    · intro v hv
      have hvu : v ≠ u := by
        rintro rfl
        exact hnot hv
      show ((threadTimeout cfg (s.sys.setTimer u false) u).thread v).error = _
      rw [threadTimeout_eq, wake_of_ne _ hvu]
      unfold Sys.setTimer
      rw [Sys.setThread_of_ne _ _ hvu]
  | @tick t hcur =>
    refine ⟨rfl, fun _ => Iff.rfl, fun u _ => ?_⟩
    show ((s.sys.setThread t _).thread u).error = _
    by_cases hut : u = t
    · subst hut
      rw [Sys.setThread_self]
    · rw [Sys.setThread_of_ne _ _ hut]
  | schedule =>
    exact ⟨h.sched.schedule_wait o, fun _ => Iff.rfl, fun u _ => h.sched.schedule_error u⟩

end Step

end RTThread
