import Mathlib.Data.Finset.Card
import Mathlib.Data.Fintype.Defs
import RTThread.Kernel.Blocking

/-!
# Threads that wait at an object

Mailboxes, message queues, data queues and memory pools keep their waiting threads in one or two
lists and look at nothing else of them: the call a thread is in with what it goes on with behind
`rt_schedule`, its field `error`, and whether its timer has been started. The calls that block
put themselves into a list, a call of another thread resumes the first thread of a list or all of
them, and the timer of a thread takes it out of whatever list it is in. A thread that has been
resumed does not own what it waited for: it looks again when it runs.

## Main results

* `Waits.Inv` — a thread is in at most one list, and there because its call put it there.
* `WokenAre` and its lemmas — how each operation changes the set of the threads that have been
  resumed and have not run yet.
-/

namespace RTThread

/-- What an object sees of a thread. -/
structure Waiter (φ : Type*) where
  /-- The call of the object it is in, with what this call goes on with. -/
  call : Option φ
  error : RtErr
  timer : Bool

/-- The lists of an object, and the threads. -/
structure Waits (ι φ : Type*) where
  queue : ι → List ThreadId
  thread : ThreadId → Waiter φ

/-- What is left of a time-out after `elapsed` ticks, in 32 bits. Waiting forever stays so. -/
def timeoutLeft (timeout elapsed : Int) : Int :=
  if 0 < timeout then max 0 ((timeout - elapsed).bmod (2 ^ 32)) else timeout

namespace Waits

variable {ι φ : Type*}

/-- Nobody waits. -/
def idle : Waits ι φ := ⟨fun _ => [], fun _ => ⟨none, .eok, false⟩⟩

def setThread (w : Waits ι φ) (t : ThreadId) (x : Waiter φ) : Waits ι φ :=
  { w with thread := Function.update w.thread t x }

/-- The thread returns from its call. -/
def leave (w : Waits ι φ) (t : ThreadId) : Waits ι φ :=
  w.setThread t { w.thread t with call := none }

/-- `thread->error = error` -/
def setError (w : Waits ι φ) (t : ThreadId) (e : RtErr) : Waits ι φ :=
  w.setThread t { w.thread t with error := e }

/-- `_thread_timeout` of a suspended thread. -/
def timeout (w : Waits ι φ) (t : ThreadId) : Waits ι φ where
  queue := Queues.unlink w.queue t
  thread := Function.update w.thread t { w.thread t with error := .etimeout, timer := false }

/-- A thread suspends itself in its call: its list becomes `l`, and its timer is started if it
does not wait forever. -/
def suspend [DecidableEq ι] (w : Waits ι φ) (q : ι) (l : List ThreadId) (t : ThreadId) (call : φ)
    (timeout : Int) : Waits ι φ where
  queue := Function.update w.queue q l
  thread := Function.update w.thread t ⟨some call, .eok, decide (0 < timeout)⟩

/-- `_ipc_list_resume`: the first thread of a list is resumed, if there is one. -/
def resume [DecidableEq ι] (w : Waits ι φ) (q : ι) : Waits ι φ :=
  match w.queue q with
  | [] => w
  | t :: l =>
    { queue := Function.update w.queue q l
      thread := Function.update w.thread t { w.thread t with timer := false } }

/-- `_ipc_list_resume_all`: the threads of a list are resumed with an error. -/
def resumeAll [DecidableEq ι] (w : Waits ι φ) (q : ι) : Waits ι φ where
  queue := Function.update w.queue q []
  thread t :=
    if t ∈ w.queue q then { w.thread t with error := .error, timer := false } else w.thread t

instance [Fintype ι] (w : Waits ι φ) (t : ThreadId) : Decidable (Queues.Free w.queue t) :=
  inferInstanceAs (Decidable (∀ q, t ∉ w.queue q))

-- --------
-- Who waits where
-- --------

/-- **The invariant of the lists.** `home` says in which list a call waits. -/
structure Inv (home : φ → ι) (w : Waits ι φ) : Prop where
  apart : Queues.Apart w.queue
  waiting : ∀ {q t}, t ∈ w.queue q →
    ∃ c, (w.thread t).call = some c ∧ home c = q ∧ (w.thread t).error = .eok

/-- A thread has been resumed from a list and has not run yet. -/
def Woken (home : φ → ι) (w : Waits ι φ) (q : ι) (t : ThreadId) : Prop :=
  (∃ c, (w.thread t).call = some c ∧ home c = q) ∧ (w.thread t).error = .eok ∧
    Queues.Free w.queue t

/-- The threads that have been resumed from a list and have not run yet. -/
def WokenAre (home : φ → ι) (w : Waits ι φ) (q : ι) (R : Finset ThreadId) : Prop :=
  ∀ t, t ∈ R ↔ Woken home w q t

section Lemmas

variable {home : φ → ι} {w : Waits ι φ} {q q' : ι} {t u : ThreadId} {l : List ThreadId}
  {c : φ} {ticks : Int} {R : Finset ThreadId}

/-- Nobody waits at the start. -/
theorem inv_idle : Inv home (idle : Waits ι φ) where
  apart := ⟨fun _ => List.nodup_nil, fun h => absurd h List.not_mem_nil⟩
  waiting h := absurd h List.not_mem_nil

theorem wokenAre_idle : WokenAre home idle q ∅ := by
  intro t
  constructor
  · intro h
    exact absurd h (Finset.notMem_empty t)
  · rintro ⟨⟨c, hc, -⟩, -⟩
    cases hc

-- The calls of the threads

theorem leave_call_self : ((w.leave t).thread t).call = none := by
  show (Function.update w.thread t _ t).call = none
  rw [Function.update_self]

/-- The calls of the others stay. -/
theorem leave_call_of_ne (hu : u ≠ t) : ((w.leave t).thread u).call = (w.thread u).call := by
  show (Function.update w.thread t _ u).call = _
  rw [Function.update_of_ne hu]

theorem setError_call (w : Waits ι φ) (t : ThreadId) (e : RtErr) (u : ThreadId) :
    ((w.setError t e).thread u).call = (w.thread u).call := by
  show (Function.update w.thread t _ u).call = _
  by_cases hu : u = t
  · subst hu
    rw [Function.update_self]
  · rw [Function.update_of_ne hu]

/-- A thread outside its calls is in no list. -/
theorem Inv.free (h : Inv home w) (ht : (w.thread t).call = none) : Queues.Free w.queue t := by
  intro q hq
  obtain ⟨c, hc, -⟩ := h.waiting hq
  rw [ht] at hc
  cases hc

-- A thread changes that is in no list

/-- A thread that is in no list may change. -/
theorem Inv.setThread (h : Inv home w) (hfree : Queues.Free w.queue t) (x : Waiter φ) :
    Inv home (w.setThread t x) where
  apart := h.apart
  waiting {q u} hu := by
    have hut : u ≠ t := by
      rintro rfl
      exact hfree q hu
    have hthread : (w.setThread t x).thread u = w.thread u := Function.update_of_ne hut _ _
    rw [hthread]
    exact h.waiting hu

theorem Inv.leave (h : Inv home w) (hfree : Queues.Free w.queue t) : Inv home (w.leave t) :=
  h.setThread hfree _

theorem Inv.setError (h : Inv home w) (hfree : Queues.Free w.queue t) (e : RtErr) :
    Inv home (w.setError t e) :=
  h.setThread hfree _

/-- A thread that returns is not among those that have been resumed. -/
theorem WokenAre.setThread (hR : WokenAre home w q R) {x : Waiter φ} (hx : x.call = none) :
    WokenAre home (w.setThread t x) q (R.erase t) := by
  intro u
  rw [Finset.mem_erase, hR u]
  by_cases hut : u = t
  · subst hut
    refine ⟨fun hu => absurd rfl hu.1, ?_⟩
    rintro ⟨⟨c, hc, -⟩, -⟩
    rw [show (w.setThread u x).thread u = x from Function.update_self _ _ _, hx] at hc
    cases hc
  · have hthread : (w.setThread t x).thread u = w.thread u := Function.update_of_ne hut _ _
    unfold Woken
    rw [hthread]
    exact and_iff_right hut

/-- A thread that returns is taken out of the resumed ones. -/
theorem WokenAre.leave (hR : WokenAre home w q R) : WokenAre home (w.leave t) q (R.erase t) :=
  hR.setThread rfl

/-- A thread outside its calls has not been resumed from a list. -/
theorem WokenAre.notMem (hR : WokenAre home w q R) (ht : (w.thread t).call = none) : t ∉ R := by
  intro hmem
  obtain ⟨⟨c, hc, -⟩, -⟩ := (hR t).1 hmem
  rw [ht] at hc
  cases hc

/-- A thread whose call waits in another list has not been resumed from this one. -/
theorem WokenAre.notMem_of_home (hR : WokenAre home w q R) (ht : (w.thread t).call = some c)
    (hne : home c ≠ q) : t ∉ R := by
  intro hmem
  obtain ⟨⟨c', hc', hhome⟩, -⟩ := (hR t).1 hmem
  cases ht.symm.trans hc'
  exact hne hhome

theorem WokenAre.setError (hR : WokenAre home w q R) (ht : (w.thread t).call = none)
    (e : RtErr) : WokenAre home (w.setError t e) q R := by
  have herase := hR.setThread (t := t) (x := { w.thread t with error := e }) ht
  rwa [Finset.erase_eq_of_notMem (hR.notMem ht)] at herase

-- A thread leaves its list

/-- A thread leaves all lists. -/
theorem Inv.unlink (h : Inv home w) (x : Waiter φ) :
    Inv home { queue := Queues.unlink w.queue t, thread := Function.update w.thread t x } where
  apart := h.apart.unlink t
  waiting {q u} hu := by
    obtain ⟨hut, hu⟩ := h.apart.mem_unlink.1 hu
    dsimp only
    rw [Function.update_of_ne hut]
    exact h.waiting hu

theorem Inv.free_unlink (h : Inv home w) (hut : u ≠ t) :
    Queues.Free (Queues.unlink w.queue t) u ↔ Queues.Free w.queue u := by
  refine forall_congr' fun q' => not_congr ?_
  rw [h.apart.mem_unlink]
  exact and_iff_right hut

theorem timeout_call (w : Waits ι φ) (t u : ThreadId) :
    ((w.timeout t).thread u).call = (w.thread u).call := by
  unfold Waits.timeout
  dsimp only
  by_cases hut : u = t
  · subst hut
    rw [Function.update_self]
  · rw [Function.update_of_ne hut]

/-- A time-out keeps the lists. -/
theorem Inv.timeout (h : Inv home w) (t : ThreadId) : Inv home (w.timeout t) := h.unlink _

/-- A time-out resumes nobody from a list. -/
theorem WokenAre.timeout (hR : WokenAre home w q R) (h : Inv home w) (ht : t ∈ w.queue q') :
    WokenAre home (w.timeout t) q R := by
  intro u
  rw [hR u]
  unfold Waits.timeout Woken
  dsimp only
  by_cases hut : u = t
  · subst hut
    rw [Function.update_self]
    refine iff_of_false (fun hu => hu.2.2 q' ht) ?_
    rintro ⟨-, herr, -⟩
    cases herr
  · rw [Function.update_of_ne hut, h.free_unlink hut]

-- Suspending

variable [DecidableEq ι]

/-- A thread that is in no list is suspended in the list of its call. -/
theorem Inv.suspend (h : Inv home w) (hfree : Queues.Free w.queue t) (hc : home c = q)
    (hl : l.Perm (t :: w.queue q)) : Inv home (w.suspend q l t c ticks) where
  apart := h.apart.put hfree hl
  waiting {q' u} hu := by
    by_cases hut : u = t
    · subst hut
      have hq : q' = q := by
        rcases (Queues.mem_put hl).1 hu with ⟨-, hq⟩ | hmem
        · exact hq
        · exact absurd hmem (hfree q')
      rw [show (w.suspend q l u c ticks).thread u = ⟨some c, .eok, _⟩ from
        Function.update_self _ _ _]
      exact ⟨c, rfl, hc.trans hq.symm, rfl⟩
    · rw [show (w.suspend q l t c ticks).thread u = w.thread u from
        Function.update_of_ne hut _ _]
      rcases (Queues.mem_put hl).1 hu with ⟨hut', -⟩ | hmem
      · exact absurd hut' hut
      · exact h.waiting hmem

/-- A thread that is suspended again is no longer resumed. -/
theorem WokenAre.suspend (hR : WokenAre home w q R) (hl : l.Perm (t :: w.queue q')) :
    WokenAre home (w.suspend q' l t c ticks) q (R.erase t) := by
  intro u
  rw [Finset.mem_erase, hR u]
  unfold Woken
  by_cases hut : u = t
  · subst hut
    refine ⟨fun hu => absurd rfl hu.1, fun hu => ?_⟩
    exact absurd ((Queues.mem_put hl).2 (Or.inl ⟨rfl, rfl⟩)) (hu.2.2 q')
  · rw [show (w.suspend q' l t c ticks).thread u = w.thread u from
      Function.update_of_ne hut _ _, and_iff_right hut]
    -- the other threads are in the lists they were in
    have hfree : Queues.Free (w.suspend q' l t c ticks).queue u ↔ Queues.Free w.queue u := by
      refine forall_congr' fun q₁ => not_congr ?_
      show u ∈ Function.update w.queue q' l q₁ ↔ _
      rw [Queues.mem_put hl]
      exact or_iff_right fun hu => hut hu.1
    rw [hfree]

theorem suspend_call_self : ((w.suspend q l t c ticks).thread t).call = some c := by
  show (Function.update w.thread t _ t).call = _
  rw [Function.update_self]

theorem suspend_call_of_ne (hu : u ≠ t) :
    ((w.suspend q l t c ticks).thread u).call = (w.thread u).call := by
  show (Function.update w.thread t _ u).call = _
  rw [Function.update_of_ne hu]

/-- A suspension at the start of a call changes none of the resumed threads. -/
theorem WokenAre.suspend_of_none (hR : WokenAre home w q R) (ht : (w.thread t).call = none)
    (hl : l.Perm (t :: w.queue q')) : WokenAre home (w.suspend q' l t c ticks) q R := by
  have herase : WokenAre home (w.suspend q' l t c ticks) q (R.erase t) := hR.suspend hl
  rwa [Finset.erase_eq_of_notMem (hR.notMem ht)] at herase

theorem suspend_queue (hne : q ≠ q') : (w.suspend q' l t c ticks).queue q = w.queue q :=
  Function.update_of_ne hne _ _

-- Resuming

/-- There is nobody to resume. -/
theorem resume_nil (hq : w.queue q = []) : w.resume q = w := by
  unfold resume
  rw [hq]

/-- The first thread of the list is taken out, and its timer is stopped. -/
theorem resume_cons (hq : w.queue q = t :: l) :
    w.resume q =
      { queue := Function.update w.queue q l
        thread := Function.update w.thread t { w.thread t with timer := false } } := by
  unfold resume
  rw [hq]

/-- The calls of the threads stay. -/
theorem resume_call (w : Waits ι φ) (q : ι) (u : ThreadId) :
    ((w.resume q).thread u).call = (w.thread u).call := by
  unfold resume
  split
  · rfl
  case h_2 t l _ =>
    dsimp only
    by_cases hut : u = t
    · subst hut
      rw [Function.update_self]
    · rw [Function.update_of_ne hut]

/-- The other lists stay. -/
theorem resume_queue (hne : q ≠ q') : (w.resume q').queue q = w.queue q := by
  unfold resume
  split
  · rfl
  · exact Function.update_of_ne hne _ _

theorem Inv.update_tail (h : Inv home w) (hq : w.queue q = t :: l) :
    Function.update w.queue q l = Queues.unlink w.queue t := by
  funext q'
  have ht : t ∈ w.queue q := Queues.head_mem hq
  by_cases hqq : q' = q
  · subst hqq
    rw [Function.update_self, Queues.unlink, hq, List.erase_cons_head]
  · rw [Function.update_of_ne hqq, h.apart.unlink_of_ne ht hqq]

/-- Resuming keeps the lists. -/
theorem Inv.resume (h : Inv home w) (q : ι) : Inv home (w.resume q) := by
  cases hq : w.queue q with
  | nil =>
    rw [resume_nil hq]
    exact h
  | cons t l =>
    rw [resume_cons hq, h.update_tail hq]
    exact h.unlink _

/-- **The first thread of the list** joins those that have been resumed. -/
theorem WokenAre.resume_self (hR : WokenAre home w q R) (h : Inv home w)
    (hq : w.queue q = t :: l) : WokenAre home (w.resume q) q (insert t R) ∧ t ∉ R := by
  have ht : t ∈ w.queue q := Queues.head_mem hq
  refine ⟨fun u => ?_, fun hmem => ((hR t).1 hmem).2.2 q ht⟩
  rw [resume_cons hq, h.update_tail hq, Finset.mem_insert, hR u]
  unfold Woken
  dsimp only
  by_cases hut : u = t
  · subst hut
    rw [Function.update_self]
    obtain ⟨c, hc, hhome, herr⟩ := h.waiting ht
    exact iff_of_true (Or.inl rfl) ⟨⟨c, hc, hhome⟩, herr, h.apart.free_unlink u⟩
  · rw [Function.update_of_ne hut, h.free_unlink hut]
    exact or_iff_right hut

/-- The other lists. -/
theorem WokenAre.resume_of_ne (hR : WokenAre home w q R) (h : Inv home w) (hne : q ≠ q') :
    WokenAre home (w.resume q') q R := by
  cases hq : w.queue q' with
  | nil =>
    rw [resume_nil hq]
    exact hR
  | cons t l =>
    have ht : t ∈ w.queue q' := Queues.head_mem hq
    intro u
    rw [resume_cons hq, h.update_tail hq, hR u]
    unfold Woken
    dsimp only
    by_cases hut : u = t
    · subst hut
      rw [Function.update_self]
      obtain ⟨c, hc, hhome, -⟩ := h.waiting ht
      refine iff_of_false (fun hu => hu.2.2 q' ht) ?_
      rintro ⟨⟨c', hc', hhome'⟩, -⟩
      cases hc.symm.trans hc'
      exact hne (hhome'.symm.trans hhome)
    · rw [Function.update_of_ne hut, h.free_unlink hut]

-- Resets

theorem resumeAll_call (w : Waits ι φ) (q : ι) (u : ThreadId) :
    ((w.resumeAll q).thread u).call = (w.thread u).call := by
  show (if u ∈ w.queue q then _ else _ : Waiter φ).call = _
  split <;> rfl

/-- The list is empty then, and the others stay. -/
theorem mem_resumeAll : u ∈ (w.resumeAll q).queue q' ↔ q' ≠ q ∧ u ∈ w.queue q' := by
  show u ∈ Function.update w.queue q [] q' ↔ _
  by_cases hqq : q' = q
  · subst hqq
    rw [Function.update_self]
    exact iff_of_false List.not_mem_nil fun h => h.1 rfl
  · rw [Function.update_of_ne hqq]
    exact (and_iff_right hqq).symm

/-- Resuming all threads of a list keeps the lists. -/
theorem Inv.resumeAll (h : Inv home w) (q : ι) : Inv home (w.resumeAll q) where
  apart := by
    constructor
    · intro q'
      show (Function.update w.queue q [] q').Nodup
      by_cases hqq : q' = q
      · subst hqq
        rw [Function.update_self]
        exact List.nodup_nil
      · rw [Function.update_of_ne hqq]
        exact h.apart.nodup q'
    · intro q₁ q₂ t h₁ h₂
      exact h.apart.same (mem_resumeAll.1 h₁).2 (mem_resumeAll.1 h₂).2
  waiting {q' t} ht := by
    obtain ⟨hqq, ht⟩ := mem_resumeAll.1 ht
    have hnot : t ∉ w.queue q := fun ht' => hqq (h.apart.same ht ht')
    rw [show (w.resumeAll q).thread t = w.thread t from if_neg hnot]
    exact h.waiting ht

/-- A thread that is resumed with an error is not among them. -/
theorem WokenAre.resumeAll (hR : WokenAre home w q R) :
    WokenAre home (w.resumeAll q') q R := by
  intro u
  rw [hR u]
  unfold Woken
  by_cases hu : u ∈ w.queue q'
  · refine iff_of_false (fun h => h.2.2 q' hu) ?_
    rintro ⟨-, herr, -⟩
    rw [show (w.resumeAll q').thread u = _ from if_pos hu] at herr
    cases herr
  · rw [show (w.resumeAll q').thread u = w.thread u from if_neg hu]
    have hfree : Queues.Free (w.resumeAll q').queue u ↔ Queues.Free w.queue u := by
      refine forall_congr' fun q₁ => not_congr ?_
      rw [mem_resumeAll]
      refine and_iff_right_of_imp ?_
      rintro hu₁ rfl
      exact hu hu₁
    rw [hfree]

end Lemmas

end Waits

end RTThread
