import RTThread.Kernel.KernelExec
import RTThread.Kernel.Unseen

/-!
# Semaphores conserve their units

An observer counts the units of every semaphore: the value it started with or was last reset to,
the releases that returned `RT_EOK` since, and the takes that were granted. A take is granted
when it finds a unit, or when a release resumes its thread. The observer also keeps, for every
thread, whether its last take was granted; `SemOk` says that the error the thread finds behind
`rt_schedule` tells it so.

## Main results

* `sem_units_conserved` — no unit is lost or made, nobody waits while there is one, a release
  that overflows changes nothing, and a take returns `RT_EOK` exactly when it was granted.
-/

namespace RTThread

variable {cfg : SchedCfg} {idle : ThreadId}

/-- The observer of the semaphores. -/
structure SemCount where
  /-- The value the semaphore started with or was last reset to. -/
  base : Nat → Nat
  /-- The releases since then that returned `RT_EOK`. -/
  released : Nat → Nat
  /-- The takes since then that were granted. -/
  granted : Nat → Nat
  /-- The last take of the thread was granted. -/
  got : ThreadId → Bool

namespace SemCount

def start (s : Kernel) : SemCount where
  base i := (s.sem i).value
  released _ := 0
  granted _ := 0
  got _ := false

/-- A thread begins a take. -/
def take (g : SemCount) (t : ThreadId) (i : Nat) (granted : Bool) : SemCount :=
  { g with
    granted := Function.update g.granted i (g.granted i + granted.toNat)
    got := Function.update g.got t granted }

/-- A release resumes a thread, or nobody waits. -/
def release (g : SemCount) (i : Nat) (waiter : Option ThreadId) : SemCount :=
  { g with
    released := Function.update g.released i (g.released i + 1)
    granted := Function.update g.granted i (g.granted i + waiter.isSome.toNat)
    got := match waiter with
      | none => g.got
      | some w => Function.update g.got w true }

def reset (g : SemCount) (i value : Nat) : SemCount :=
  { g with
    base := Function.update g.base i value
    released := Function.update g.released i 0
    granted := Function.update g.granted i 0 }

/-- What the observer makes of an action in the state `s`. -/
def observe (cfg : SchedCfg) (g : SemCount) (s : Kernel) : KernelAct → SemCount
  | .semTake t i timeout => g.take t i (decide ((rtSemTake cfg s t i timeout).1 = some .eok))
  | .semTrytake i =>
    -- the take of an interrupt handler has no thread
    { g with
      granted := Function.update g.granted i
        (g.granted i + (decide ((rtSemTrytake cfg s 0 i).1 = some .eok)).toNat) }
  | .semRelease _ i =>
    if (rtSemRelease cfg s i).1 = .eok then g.release i (s.waiters (.sem i)).head? else g
  | .semReset _ i value => g.reset i (value % 2 ^ 16)
  | _ => g

end SemCount

/-- **One semaphore and its record.** -/
structure SemOk (i : Nat) (s : Kernel) (g : SemCount) : Prop where
  balance : g.base i + g.released i = (s.sem i).value + g.granted i
  empty : 0 < (s.sem i).value → s.waiters (.sem i) = []
  waiting : ∀ u, u ∈ s.waiters (.sem i) → (s.sys.thread u).error = .eok ∧ g.got u = false
  decided : ∀ u, s.InCall u (.sem i) → u ∉ s.waiters (.sem i) →
    ((s.sys.thread u).error = .eok ↔ g.got u = true)

section Step

variable {s s' : Kernel} {g : SemCount} {t u : ThreadId} {i : Nat}

/-- Only its own calls change a semaphore. -/
theorem KernelStep.sem_eq {a : KernelAct} (h : KernelInv cfg idle s)
    (hs : KernelStep cfg idle s a s') (ha : ¬ a.Concerns s (.sem i)) : s'.sem i = s.sem i := by
  cases hs with
  | @semTake t j timeout =>
    have hij : i ≠ j := fun heq => ha (heq ▸ rfl)
    rcases @rtSemTake_cases cfg s t j timeout with
      ⟨-, heq⟩ | ⟨-, -, heq⟩ | ⟨-, -, heq⟩ <;> rw [heq]
    · exact Function.update_of_ne hij _ _
    · rfl
  | @semTrytake t j =>
    have hij : i ≠ j := fun heq => ha (heq ▸ rfl)
    unfold rtSemTrytake
    rcases @rtSemTake_cases cfg s t j 0 with
      ⟨-, heq⟩ | ⟨-, -, heq⟩ | ⟨-, -, heq⟩ <;> rw [heq]
    · exact Function.update_of_ne hij _ _
    · rfl
  | @semRelease c j =>
    have hij : i ≠ j := fun heq => ha (heq ▸ rfl)
    rcases @rtSemRelease_cases cfg s j with ⟨w, rest, -, heq⟩ | ⟨-, -, heq⟩ | ⟨-, -, heq⟩ <;>
      rw [heq]
    · exact congrFun (Kernel.goSchedule_sem c) i
    · exact Function.update_of_ne hij _ _
    · rfl
  | @semReset c j =>
    have hij : i ≠ j := fun heq => ha (heq ▸ rfl)
    rw [Kernel.goSchedule_sem]
    exact Function.update_of_ne hij _ _
  | @mutexTake t m timeout =>
    have hcase := @rtMutexTake_cases cfg s t m timeout
    generalize rtMutexTake cfg s t m timeout = r at hcase ⊢
    cases hcase <;> rfl
  | @mutexRelease t m =>
    have hcase := @rtMutexRelease_cases cfg s t m h.sched
    generalize rtMutexRelease cfg s t m = r at hcase ⊢
    cases hcase <;> rfl
  | @signal c => exact congrFun (Kernel.goSchedule_sem c) i
  | @exitCritical =>
    dsimp only
    split <;> rfl
  | @ret t k => rcases @Kernel.leave_eq s t k with heq | heq <;> rw [heq] <;> rfl
  | wait => rfl
  | sleep => rfl
  | control => rfl
  | startup => rfl
  | yield => rfl
  | enterCritical => rfl
  | reschedule => rfl
  | timeout => rfl
  | tick => rfl
  | schedule => rfl

/-- The record of a semaphore only changes by its own calls. -/
theorem SemCount.observe_elsewhere {a : KernelAct} (h : KernelInv cfg idle s)
    (hs : KernelStep cfg idle s a s') (ha : ¬ a.Concerns s (.sem i)) :
    (g.observe cfg s a).base i = g.base i ∧ (g.observe cfg s a).released i = g.released i ∧
      (g.observe cfg s a).granted i = g.granted i ∧
      ∀ u, s.InCall u (.sem i) → (g.observe cfg s a).got u = g.got u := by
  cases a with
  | semTake t j timeout =>
    have hij : i ≠ j := fun heq => ha (heq ▸ rfl)
    cases hs with
    | semTake hat =>
      refine ⟨rfl, rfl, Function.update_of_ne hij _ _, fun u hu => ?_⟩
      have hut : u ≠ t := by
        rintro rfl
        exact not_inCall_of_run hat.pc hu
      exact Function.update_of_ne hut _ _
  | semTrytake j =>
    have hij : i ≠ j := fun heq => ha (heq ▸ rfl)
    exact ⟨rfl, rfl, Function.update_of_ne hij _ _, fun _ _ => rfl⟩
  | semRelease c j =>
    have hij : i ≠ j := fun heq => ha (heq ▸ rfl)
    unfold SemCount.observe
    dsimp only
    split
    · refine ⟨rfl, Function.update_of_ne hij _ _, Function.update_of_ne hij _ _, fun u hu => ?_⟩
      cases hq : s.waiters (.sem j) with
      | nil => rfl
      | cons w rest =>
        -- a thread that waits for another semaphore is in no call on this one
        have hut : u ≠ w := by
          rintro rfl
          refine @BlockInv.not_inCall cfg idle s u (.sem i) (.sem j) h.toBlockInv ?_ ?_ hu
          · exact Queues.head_mem hq
          · exact fun heq => hij (IpcId.sem.inj heq).symm
        exact Function.update_of_ne hut _ _
    · exact ⟨rfl, rfl, rfl, fun _ _ => rfl⟩
  | semReset c j value =>
    have hij : i ≠ j := fun heq => ha (heq ▸ rfl)
    exact ⟨Function.update_of_ne hij _ _, Function.update_of_ne hij _ _,
      Function.update_of_ne hij _ _, fun _ _ => rfl⟩
  | _ => exact ⟨rfl, rfl, rfl, fun _ _ => rfl⟩

/-- A step that does not concern the semaphore. -/
theorem SemOk.elsewhere {a : KernelAct} (h : KernelInv cfg idle s) (hok : SemOk i s g)
    (hs : KernelStep cfg idle s a s') (ha : ¬ a.Concerns s (.sem i)) :
    SemOk i s' (g.observe cfg s a) := by
  obtain ⟨hwaiters, hcall, herror⟩ := hs.unseen h ha
  obtain ⟨hbase, hrel, hgr, hgot⟩ := @SemCount.observe_elsewhere cfg idle s s' g i a h hs ha
  have hsem := hs.sem_eq h ha
  refine ⟨?_, ?_, ?_, ?_⟩
  · rw [hbase, hrel, hgr, hsem]
    exact hok.balance
  · rw [hsem, hwaiters]
    exact hok.empty
  · intro u hu
    rw [hwaiters] at hu
    have hin : s.InCall u (.sem i) := ((h.waiting u _).1 hu).2
    rw [herror u hin, hgot u hin]
    exact hok.waiting u hu
  · intro u hu hnot
    rw [hcall] at hu
    rw [hwaiters] at hnot
    rw [herror u hu, hgot u hu]
    exact hok.decided u hu hnot

theorem SemCount.take_got (hpc : s.pc t = .run) (b : Bool) (hu : s.InCall u (.sem i)) :
    (g.take t i b).got u = g.got u := by
  have hut : u ≠ t := by
    rintro rfl
    exact not_inCall_of_run hpc hu
  exact Function.update_of_ne hut _ _

/-- A take that returns at once, with a unit or without one. -/
theorem SemOk.take_now {x : Sem} {b : Bool} (h : KernelInv cfg idle s) (hok : SemOk i s g)
    (hpc : s.pc t = .run) (hvalue : (s.sem i).value = x.value + b.toNat) :
    SemOk i (s.setSem i x) (g.take t i b) := by
  have hsem : (s.setSem i x).sem i = x := Function.update_self _ _ _
  have hgr : (g.take t i b).granted i = g.granted i + b.toNat := Function.update_self _ _ _
  refine ⟨?_, ?_, ?_, ?_⟩
  · have hbal := hok.balance
    rw [hsem, hgr]
    show g.base i + g.released i = _
    omega
  · rw [hsem]
    exact fun hx => hok.empty (by omega)
  · intro u hu
    rw [SemCount.take_got hpc b (h.inCall_of_waits hu)]
    exact hok.waiting u hu
  · intro u hu hnot
    rw [SemCount.take_got hpc b hu]
    exact hok.decided u hu hnot

/-- A take of an interrupt handler that finds a unit. -/
theorem SemOk.trytake (hok : SemOk i s g) (hpos : 0 < (s.sem i).value) :
    SemOk i (s.setSem i { s.sem i with value := (s.sem i).value - 1 })
      { g with granted := Function.update g.granted i (g.granted i + true.toNat) } := by
  refine ⟨?_, fun _ => hok.empty hpos, hok.waiting, hok.decided⟩
  have hbal := hok.balance
  have hgr : Function.update g.granted i (g.granted i + true.toNat) i = g.granted i + 1 :=
    Function.update_self _ _ _
  rw [Kernel.setSem_self]
  show g.base i + g.released i = (s.sem i).value - 1 + Function.update g.granted i _ i
  rw [hgr]
  omega

/-- A take that blocks: the thread waits without an error and without a unit. -/
theorem SemOk.take_block {flag : IpcFlag} {timeout : Int} (h : KernelInv cfg idle s)
    (hok : SemOk i s g) (hat : s.At t .run) (hzero : (s.sem i).value = 0) :
    SemOk i ({ s with sys := s.sys.setError t .eok }.block cfg t (.sem i) flag timeout
      (.semTake i)) (g.take t i false) := by
  have herr := h.setError t .eok
  have hself : ((s.sys.setError t .eok).thread t) = { s.sys.thread t with error := .eok } := by
    unfold Sys.setError
    rw [Sys.setThread_self]
  have ha : (({ s with sys := s.sys.setError t .eok } : Kernel).sys.thread t).Awake := by
    show ((s.sys.setError t .eok).thread t).Awake
    rw [hself]
    exact Or.inr (h.at_run hat)
  have hwaiters := @Kernel.block_waiters cfg { s with sys := s.sys.setError t .eok } t (.sem i) flag
    timeout (.semTake i) herr.sched ha
  have hmem : ∀ u, u ∈ ({ s with sys := s.sys.setError t .eok }.block cfg t (.sem i) flag timeout
      (.semTake i)).waiters (.sem i) ↔ u = t ∨ u ∈ s.waiters (.sem i) := by
    intro u
    rw [hwaiters, (ipcInsert_perm _ _ _ _).mem_iff, List.mem_cons]
    exact Iff.rfl
  have hblocked : ({ s with sys := s.sys.setError t .eok }.block cfg t (.sem i) flag timeout
      (.semTake i)).sys.thread t =
      { s.sys.thread t with error := .eok, stat := .suspend, timer := decide (0 < timeout) } := by
    rw [Kernel.block_self herr.sched ha]
    show { (s.sys.setError t .eok).thread t with
      stat := .suspend, timer := decide (0 < timeout) } = _
    rw [hself]
  have hother : ∀ u, u ≠ t → ({ s with sys := s.sys.setError t .eok }.block cfg t (.sem i) flag
      timeout (.semTake i)).sys.thread u = s.sys.thread u := by
    intro u hu
    rw [Kernel.block_of_ne herr.sched ha hu]
    exact setError_of_ne _ hu
  refine ⟨?_, ?_, ?_, ?_⟩
  · have hgr : (g.take t i false).granted i = g.granted i + 0 := Function.update_self _ _ _
    rw [hgr]
    exact hok.balance
  · intro hpos
    have hpos' : 0 < (s.sem i).value := hpos
    omega
  · intro u hu
    by_cases hut : u = t
    · subst hut
      rw [hblocked]
      exact ⟨rfl, Function.update_self _ _ _⟩
    · have hold := ((hmem u).1 hu).resolve_left hut
      rw [hother u hut, SemCount.take_got hat.pc false (h.inCall_of_waits hold)]
      exact hok.waiting u hold
  · intro u hu hnot
    rw [hmem, not_or] at hnot
    have hold : s.InCall u (.sem i) := by
      obtain ⟨k, hk, hq⟩ := hu
      refine ⟨k, ?_, hq⟩
      rw [← hk]
      exact (congrArg Pc.cont (Function.update_of_ne hnot.1 _ _)).symm
    rw [hother u hnot.1, SemCount.take_got hat.pc false hold]
    exact hok.decided u hold hnot.2

/-- A release that hands its unit to the first thread that waits. -/
theorem SemOk.grant {c : Option ThreadId} {w : ThreadId} {rest : List ThreadId}
    (h : KernelInv cfg idle s) (hok : SemOk i s g) (hc : s.Caller c)
    (hq : s.waiters (.sem i) = w :: rest) :
    SemOk i (({ s with sys := (rtThreadResume cfg s.sys w).2 } : Kernel).goSchedule c)
      (g.release i (some w)) := by
  have hw : w ∈ s.waiters (.sem i) := Queues.head_mem hq
  have hs := h.sched.wait hw
  have hwaiters : (({ s with sys := (rtThreadResume cfg s.sys w).2 } : Kernel).goSchedule
      c).waiters (.sem i) = (s.waiters (.sem i)).erase w := by
    unfold Kernel.waiters
    rw [Kernel.goSchedule_sys]
    exact resume_wait hs _
  have hmem : ∀ u, u ∈ (({ s with sys := (rtThreadResume cfg s.sys w).2 } : Kernel).goSchedule
      c).waiters (.sem i) ↔ u ≠ w ∧ u ∈ s.waiters (.sem i) := by
    intro u
    rw [hwaiters]
    exact (h.sched.apart.nodup _).mem_erase_iff
  have herror : ∀ u, ((({ s with sys := (rtThreadResume cfg s.sys w).2 } : Kernel).goSchedule
      c).sys.thread u).error = (s.sys.thread u).error := by
    intro u
    rw [Kernel.goSchedule_sys]
    exact resume_error hs u
  have hgot : ∀ u, u ≠ w → (g.release i (some w)).got u = g.got u :=
    fun u hu => Function.update_of_ne hu _ _
  refine ⟨?_, ?_, ?_, ?_⟩
  · have hbal := hok.balance
    have hrel : (g.release i (some w)).released i = g.released i + 1 := Function.update_self _ _ _
    have hgr : (g.release i (some w)).granted i = g.granted i + 1 := Function.update_self _ _ _
    rw [hrel, hgr, Kernel.goSchedule_sem]
    show g.base i + (g.released i + 1) = (s.sem i).value + (g.granted i + 1)
    omega
  · rw [Kernel.goSchedule_sem]
    intro hpos
    have hnil := hok.empty hpos
    rw [hq] at hnil
    cases hnil
  · intro u hu
    obtain ⟨hne, hu⟩ := (hmem u).1 hu
    rw [herror, hgot u hne]
    exact hok.waiting u hu
  · intro u hu hnot
    have hin : s.InCall u (.sem i) :=
      (@inCall_goSchedule s { s with sys := (rtThreadResume cfg s.sys w).2 } (.sem i) c rfl
        hc u).1 hu
    rw [herror]
    by_cases huw : u = w
    · -- the thread that was resumed has no error, and the unit
      subst huw
      exact iff_of_true (hok.waiting u hw).1 (Function.update_self _ _ _)
    · rw [hgot u huw]
      exact hok.decided u hin fun hu' => hnot ((hmem u).2 ⟨huw, hu'⟩)

/-- A release when nobody waits. -/
theorem SemOk.add (hok : SemOk i s g) (hq : s.waiters (.sem i) = []) :
    SemOk i (s.setSem i { s.sem i with value := (s.sem i).value + 1 }) (g.release i none) := by
  have hsem : ((s.setSem i { s.sem i with value := (s.sem i).value + 1 }).sem i).value =
      (s.sem i).value + 1 := by
    rw [Kernel.setSem_self]
  refine ⟨?_, fun _ => hq, hok.waiting, hok.decided⟩
  have hbal := hok.balance
  have hrel : (g.release i none).released i = g.released i + 1 := Function.update_self _ _ _
  have hgr : (g.release i none).granted i = g.granted i + 0 := Function.update_self _ _ _
  rw [hrel, hgr, hsem]
  show g.base i + (g.released i + 1) = (s.sem i).value + 1 + (g.granted i + 0)
  omega

/-- A reset wakes all threads with an error. -/
theorem SemOk.resetAll {c : Option ThreadId} {value : Nat} (h : KernelInv cfg idle s)
    (hok : SemOk i s g) (hc : s.Caller c) :
    SemOk i ((rtSemReset cfg s i value).goSchedule c) (g.reset i (value % 2 ^ 16)) := by
  obtain ⟨-, hall⟩ := resumeAll_spec h.toBlockInv (.sem i)
  have hempty : ((rtSemReset cfg s i value).goSchedule c).waiters (.sem i) = [] := by
    unfold Kernel.waiters
    rw [Kernel.goSchedule_sys]
    exact hall.empty
  refine ⟨?_, fun _ => hempty, ?_, ?_⟩
  · have hbase : (g.reset i (value % 2 ^ 16)).base i = value % 2 ^ 16 := Function.update_self _ _ _
    have hrel : (g.reset i (value % 2 ^ 16)).released i = 0 := Function.update_self _ _ _
    have hgr : (g.reset i (value % 2 ^ 16)).granted i = 0 := Function.update_self _ _ _
    have hsem : ((rtSemReset cfg s i value).sem i).value = value % 2 ^ 16 := by
      unfold rtSemReset
      rw [Kernel.setSem_self]
    rw [hbase, hrel, hgr, Kernel.goSchedule_sem, hsem]
  · intro u hu
    rw [hempty] at hu
    cases hu
  · intro u hu _
    have hin : s.InCall u (.sem i) :=
      (@inCall_goSchedule s (rtSemReset cfg s i value) (.sem i) c rfl hc u).1 hu
    rw [Kernel.goSchedule_sys]
    show ((ipcListResumeAll cfg s.sys (.sem i)).thread u).error = .eok ↔ g.got u = true
    by_cases hmem : u ∈ s.waiters (.sem i)
    · rw [hall.woken u hmem, (hok.waiting u hmem).2]
      simp
    · rw [hall.kept u hmem]
      exact hok.decided u hin hmem

/-- A thread that waits for the semaphore times out. -/
theorem SemOk.timeOut (h : KernelInv cfg idle s) (hok : SemOk i s g)
    (hs : (s.sys.thread u).stat = .suspend) (hin : s.InCall u (.sem i)) :
    SemOk i { s with sys := threadTimeout cfg (s.sys.setTimer u false) u, pending := true } g := by
  have hmem : u ∈ s.waiters (.sem i) := (h.waiting u _).2 ⟨hs, hin⟩
  have hwaiters : (threadTimeout cfg (s.sys.setTimer u false) u).queue (.wait (.sem i)) =
      (s.waiters (.sem i)).erase u := by
    rw [threadTimeout_eq, wake_wait]
    rfl
  have hself : ((threadTimeout cfg (s.sys.setTimer u false) u).thread u).error = .etimeout := by
    rw [threadTimeout_eq, wake_self]
  have hother : ∀ v, v ≠ u →
      (threadTimeout cfg (s.sys.setTimer u false) u).thread v = s.sys.thread v := by
    intro v hv
    rw [threadTimeout_eq, wake_of_ne _ hv]
    exact Sys.setThread_of_ne _ _ hv
  have hmem' : ∀ v, v ∈ (threadTimeout cfg (s.sys.setTimer u false) u).queue (.wait (.sem i)) ↔
      v ≠ u ∧ v ∈ s.waiters (.sem i) := by
    intro v
    rw [hwaiters]
    exact (h.sched.apart.nodup _).mem_erase_iff
  refine ⟨hok.balance, ?_, ?_, ?_⟩
  · intro hpos
    have hnil := hok.empty hpos
    rw [hnil] at hmem
    cases hmem
  · intro v hv
    obtain ⟨hne, hv⟩ := (hmem' v).1 hv
    show ((threadTimeout cfg (s.sys.setTimer u false) u).thread v).error = .eok ∧ _
    rw [hother v hne]
    exact hok.waiting v hv
  · intro v hv hnot
    show ((threadTimeout cfg (s.sys.setTimer u false) u).thread v).error = .eok ↔ _
    by_cases hvu : v = u
    · subst hvu
      rw [hself, (hok.waiting v hmem).2]
      simp
    · rw [hother v hvu]
      exact hok.decided v hv fun hv' => hnot ((hmem' v).2 ⟨hvu, hv'⟩)

/-- A take on the semaphore returns. -/
theorem SemOk.leave {k : Cont} (hok : SemOk i s g) (hat : s.At t (.woken k))
    (hin : s.InCall t (.sem i)) : SemOk i (s.leave t k).2 g := by
  obtain ⟨k', hk', hq⟩ := hin
  rw [hat.pc] at hk'
  cases hk'
  cases k with
  | semTake j =>
    have hcall : ∀ u, (s.setPc t .run).InCall u (.sem i) → u ≠ t ∧ s.InCall u (.sem i) := by
      rintro u ⟨k', hk', hq'⟩
      by_cases hut : u = t
      · subst hut
        rw [Kernel.setPc_self] at hk'
        cases hk'
      · rw [Kernel.setPc_of_ne _ hut] at hk'
        exact ⟨hut, k', hk', hq'⟩
    exact ⟨hok.balance, hok.empty, hok.waiting, fun u hu => hok.decided u (hcall u hu).2⟩
  | done => cases hq
  | mutexTake m => cases hq
  | wait j => cases hq
  | sleep => cases hq

/-- **Every step conserves the units of every semaphore.** -/
theorem SemOk.step {a : KernelAct} (h : KernelInv cfg idle s) (hok : SemOk i s g)
    (hs : KernelStep cfg idle s a s') : SemOk i s' (g.observe cfg s a) := by
  by_cases ha : a.Concerns s (.sem i)
  · cases hs with
    | @semTake t j timeout hat =>
      cases (IpcId.sem.inj ha : i = j)
      unfold SemCount.observe
      dsimp only
      rcases @rtSemTake_cases cfg s t i timeout with
        ⟨hpos, heq⟩ | ⟨-, -, heq⟩ | ⟨hzero, -, heq⟩ <;> rw [heq]
      · rw [decide_eq_true rfl]
        refine hok.take_now h hat.pc ?_
        show _ = (s.sem i).value - 1 + 1
        omega
      · have hself : s.setSem i (s.sem i) = s := by
          unfold Kernel.setSem
          rw [Function.update_eq_self]
        have hnow := @SemOk.take_now cfg idle s g t i (s.sem i) false h hok hat.pc rfl
        rw [hself] at hnow
        rw [decide_eq_false (by simp)]
        exact hnow
      · rw [decide_eq_false (by simp)]
        exact hok.take_block h hat hzero
    | @semTrytake t j hcur =>
      cases (IpcId.sem.inj ha : i = j)
      unfold SemCount.observe rtSemTrytake
      dsimp only
      rcases @rtSemTake_cases cfg s t i 0 with ⟨hpos, heq⟩ | ⟨hzero, -, heq⟩ | ⟨-, htime, -⟩
      · have hres : (rtSemTake cfg s 0 i 0).1 = some .eok := by
          unfold rtSemTake
          rw [if_pos hpos]
        rw [heq, decide_eq_true hres]
        exact hok.trytake hpos
      · have hres : (rtSemTake cfg s 0 i 0).1 ≠ some .eok := by
          unfold rtSemTake
          rw [if_neg (by omega), if_pos rfl]
          simp
        rw [heq, decide_eq_false hres]
        have hsame : Function.update g.granted i (g.granted i + false.toNat) = g.granted :=
          Function.update_eq_self i g.granted
        rw [hsame]
        exact hok
      · exact absurd rfl htime
    | @semRelease c j hc =>
      cases (IpcId.sem.inj ha : i = j)
      unfold SemCount.observe
      dsimp only
      rcases @rtSemRelease_cases cfg s i with ⟨w, rest, hq, heq⟩ | ⟨hq, -, heq⟩ | ⟨-, -, heq⟩ <;>
        rw [heq]
      · rw [if_pos rfl, hq]
        exact hok.grant h hc hq
      · rw [if_pos rfl, hq]
        exact hok.add hq
      · rw [if_neg (by simp)]
        exact hok
    | @semReset c j value hc =>
      cases (IpcId.sem.inj ha : i = j)
      exact hok.resetAll h hc
    | @timeout u htimer hassert => exact hok.timeOut h hassert ha
    | @ret t k hat => exact hok.leave hat ha
    | mutexTake => cases ha
    | mutexRelease => cases ha
    | wait => cases ha
    | signal => cases ha
    | sleep => cases ha
    | control => cases ha
    | startup => cases ha
    | yield => cases ha
    | enterCritical => cases ha
    | exitCritical => cases ha
    | reschedule => cases ha
    | tick => cases ha
    | schedule => cases ha
  · exact hok.elsewhere h hs ha

theorem SemOk.start (h : s.Booted cfg idle) (i : Nat) : SemOk i s (SemCount.start s) where
  balance := rfl
  empty _ := List.eq_nil_iff_forall_not_mem.2 fun u hu => h.none_suspended u (h.sched.wait hu)
  waiting u hu := absurd (h.sched.wait hu) (h.none_suspended u)
  decided u hu := absurd hu (not_inCall_of_run (h.outside u))

/-- **Semaphores conserve their units.** After any run of takes, releases, resets, time-outs and
whatever else the threads and the interrupt handlers do, for every semaphore: the value it had
at its last reset and the releases since that returned `RT_EOK` are the present value and the
takes granted since; nobody waits while the value is positive; a release that returns
`-RT_EFULL` changes nothing; and a take returns `RT_EOK` exactly when it was granted, whether it
returns at once or behind `rt_schedule`. -/
theorem sem_units_conserved {s₀ : Kernel} (h0 : s₀.Booted cfg idle)
    (hrun : Runs (Runs.Observed (KernelStep cfg idle) (SemCount.observe cfg)) Runs.always
      (s₀, SemCount.start s₀) (s, g)) (i : Nat) :
    g.base i + g.released i = (s.sem i).value + g.granted i ∧
    (0 < (s.sem i).value → s.waiters (.sem i) = []) ∧
    ((rtSemRelease cfg s i).1 = .efull → rtSemRelease cfg s i = (.efull, false, s)) ∧
    (∀ t timeout e, s.At t .run → (rtSemTake cfg s t i timeout).1 = some e →
      (e = .eok ↔ (g.observe cfg s (.semTake t i timeout)).got t = true)) ∧
    (∀ t, s.At t (.woken (.semTake i)) →
      ((s.leave t (.semTake i)).1 = .eok ↔ g.got t = true)) := by
  have hinv : KernelInv cfg idle s ∧ SemOk i s g :=
    @Runs.invariant _ _ _ _ _ _
      (fun p : Kernel × SemCount => KernelInv cfg idle p.1 ∧ SemOk i p.1 p.2)
      (by
        rintro ⟨s, g⟩ a ⟨s', g'⟩ ⟨h, hok⟩ - ⟨hs, hg⟩
        dsimp only at hs hg
        subst hg
        exact ⟨h.step hs, hok.step h hs⟩)
      hrun ⟨KernelInv.booted h0, SemOk.start h0 i⟩
  obtain ⟨h, hok⟩ := hinv
  refine ⟨hok.balance, hok.empty, ?_, ?_, ?_⟩
  · intro he
    rcases @rtSemRelease_cases cfg s i with ⟨w, rest, -, heq⟩ | ⟨-, -, heq⟩ | ⟨-, -, heq⟩
    · rw [heq] at he
      cases he
    · rw [heq] at he
      cases he
    · exact heq
  · intro t timeout e _ he
    have hgot : (g.observe cfg s (.semTake t i timeout)).got t =
        decide ((rtSemTake cfg s t i timeout).1 = some .eok) := Function.update_self _ _ _
    rw [hgot, he]
    simp
  · intro t hat
    have hrunning : (s.sys.thread t).stat = .running := by
      refine h.running hat.current fun k hk => ?_
      rw [hat.pc] at hk
      cases hk
    have hnot : t ∉ s.waiters (.sem i) := h.toBlockInv.not_waiting (by rw [hrunning]; decide) _
    refine hok.decided t ⟨.semTake i, ?_, rfl⟩ hnot
    rw [hat.pc]
    rfl

end Step

/-- A thread waits for a semaphore without units and is resumed by a release of the idle
thread: its take returns `RT_EOK`. -/
theorem sem_units_conserved_handed_over :
    ∃ s g, Runs (Runs.Observed (KernelStep schedCfg32 0) (SemCount.observe schedCfg32)) Runs.always
        (bootKernel32 [31, 5], SemCount.start (bootKernel32 [31, 5])) (s, g) ∧
      s.At 1 (.woken (.semTake 0)) ∧ (s.leave 1 (.semTake 0)).1 = .eok := by
  have hreplay : (Runs.replay (Kernel.execOk schedCfg32 0 (SemCount.observe schedCfg32) Runs.always)
      (bootKernel32 [31, 5], SemCount.start (bootKernel32 [31, 5]))
      [.startup 0 1, .reschedule 0, .semTake 1 0 (-1), .reschedule 1, .ret 0,
        .semRelease (some 0) 0, .reschedule 0]).any
      (fun q => decide (q.1.At 1 (.woken (.semTake 0)) ∧ q.2.got 1 = true)) = true := by
    decide +kernel
  obtain ⟨⟨s, g⟩, hrun, hend⟩ := Kernel.observed_of_replay hreplay
  obtain ⟨hat, hgot⟩ := of_decide_eq_true hend
  have hbooted := @bootKernel32_booted [31, 5] (by decide)
  exact ⟨s, g, hrun, hat, ((sem_units_conserved hbooted hrun 0).2.2.2.2 1 hat).2 hgot⟩

end RTThread
