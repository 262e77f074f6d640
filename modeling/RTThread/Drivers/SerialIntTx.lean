import RTThread.Drivers.Completion

/-!
# Serial transmission by interrupts (`components/drivers/serial/serial.c`)

`_serial_int_tx` hands the characters to `putc` one by one. When the hardware does not take a
character it waits for `RT_SERIAL_EVENT_TX_DONE` and goes back to the top of its loop. With the
flag `STREAM` a newline is two characters there, and the top of the loop is in front of both: a
newline that is refused behind its carriage return has the carriage return sent again.

`_serial_poll_tx` runs the same loop without looking at what `putc` returns.

Main results:

* `serialIntTx_polled`: a transmission that returns has sent what the polled one sends exactly if
  no newline was refused behind its carriage return;
* `serialIntTx_goes_on`: one that has not returned is never stuck.
-/

namespace RTThread.SerialIntTx

/-- `'\\r'` -/
abbrev carriageReturn : UInt8 := 13

/-- `'\\n'` -/
abbrev newline : UInt8 := 10

/-- The characters that `_serial_poll_tx` hands to `putc`; `stream` is `RT_DEVICE_FLAG_STREAM`. -/
def serialPollTx (stream : Bool) : List UInt8 → List UInt8
  | [] => []
  | c :: data =>
    (if c = newline ∧ stream then [carriageReturn] else []) ++ c :: serialPollTx stream data

/-- Where the writer is in the loop of `_serial_int_tx`. -/
inductive Phase
  | top
  /-- The carriage return was taken. -/
  | carriage
  /-- `putc` has returned -1. -/
  | refused
  /-- In `rt_completion_wait`. -/
  | waiting
deriving DecidableEq

/-- A transmission: the writer, its completion, and what the hardware has taken. -/
structure State where
  stream : Bool
  rest : List UInt8
  phase : Phase
  completion : Completion
  sent : List UInt8

/-- What happens to a transmission. -/
inductive Act
  /-- The writer's next call of `putc`, and whether the character is taken. -/
  | putc (taken : Bool)
  /-- It calls `rt_completion_wait`. -/
  | wait
  /-- `rt_schedule` returns to it. -/
  | woken
  /-- `RT_SERIAL_EVENT_TX_DONE` -/
  | txDone
deriving DecidableEq

/-- A writer enters `_serial_int_tx` with a buffer. -/
def start (stream : Bool) (data : List UInt8) (completion : Completion) : State where
  stream
  rest := data
  phase := .top
  completion
  sent := []

/-- `RT_WAITING_FOREVER` -/
def rtWaitingForever : Int := -1

/-- `putc` for a character; where it is taken the writer goes on as `next` says. -/
def putc (s : State) (c : UInt8) (taken : Bool) (next : State) : State :=
  if taken then { next with sent := s.sent ++ [c] } else { s with phase := .refused }

/-- `rt_completion_done`, in the interrupt. -/
def done (c : Completion) : Completion :=
  if (c.rtCompletionDone 0).found 0 then (c.rtCompletionDone 0).doneSection 0
  else c.rtCompletionDone 0

/-- The state an action leads to. The loop is left when `rest` is empty. -/
def exec (s : State) : Act → Option State
  | .putc taken =>
    match s.phase, s.rest with
    | .top, c :: rest =>
      if c = newline ∧ s.stream then
        some (putc s carriageReturn taken { s with phase := .carriage })
      else some (putc s c taken { s with rest })
    | .carriage, c :: rest => some (putc s c taken { s with phase := .top, rest })
    | _, _ => none
  | .wait =>
    match s.phase with
    | .refused =>
      match s.completion.rtCompletionWait rtWaitingForever with
      | (.returned _, completion) => some { s with phase := .top, completion }
      | (.goesOn, completion) => some { s with phase := .waiting, completion }
    | _ => none
  | .woken =>
    if s.phase = .waiting ∧ s.completion.suspended = false then
      some { s with phase := .top, completion := s.completion.waitWoken.2 }
    else none
  | .txDone => some { s with completion := done s.completion }

/-- What the writer will still send if nothing is refused. -/
def pending (s : State) : List UInt8 :=
  match s.phase, s.rest with
  | .carriage, c :: rest => c :: serialPollTx s.stream rest
  | _, rest => serialPollTx s.stream rest

/-- The newline is refused behind its carriage return. -/
def Repeats (s : State) (a : Act) : Prop := s.phase = .carriage ∧ a = .putc false

instance (s : State) (a : Act) : Decidable (Repeats s a) := by
  unfold Repeats
  infer_instance

variable {s s' : State} {a : Act} {stream : Bool} {data rest : List UInt8} {c : UInt8}

-- --------
-- What one step sends
-- --------

theorem serialPollTx_newline (h : c = newline ∧ stream) :
    serialPollTx stream (c :: rest) = carriageReturn :: c :: serialPollTx stream rest := by
  rw [serialPollTx, if_pos h]
  rfl

theorem serialPollTx_other (h : ¬(c = newline ∧ stream)) :
    serialPollTx stream (c :: rest) = c :: serialPollTx stream rest := by
  rw [serialPollTx, if_neg h]
  rfl

/-- Behind a carriage return comes the newline it was sent for. -/
def Carriage (s : State) : Prop :=
  s.phase = .carriage → s.stream = true ∧ ∃ rest, s.rest = newline :: rest

theorem pending_of (p : Phase) (h : s.phase = p) (hp : p ≠ .carriage) :
    pending s = serialPollTx s.stream s.rest := by
  unfold pending
  split
  next hcar _ => exact absurd (h.symm.trans hcar) hp
  next => rfl

theorem carriage_of (p : Phase) (h : s.phase = p) (hp : p ≠ .carriage) : Carriage s :=
  fun hcar => absurd (h.symm.trans hcar) hp

/-- What a step does to the characters: nothing is sent or left out, the next one goes out, or the
carriage return is put in front again. -/
def Sends (s : State) (a : Act) (s' : State) : Prop :=
  (¬ Repeats s a ∧ s'.sent ++ pending s' = s.sent ++ pending s) ∨
    (Repeats s a ∧ s'.sent = s.sent ∧ pending s' = carriageReturn :: pending s)

/-- A step that stays in front of the same character. -/
theorem sends_of_same {p : Phase} (p' : Phase) (h : s.phase = p) (hp : p ≠ .carriage) (h' : s'.phase = p')
    (hp' : p' ≠ .carriage) (hstream : s'.stream = s.stream) (hrest : s'.rest = s.rest)
    (hsent : s'.sent = s.sent) : Carriage s' ∧ s'.stream = s.stream ∧ Sends s a s' := by
  refine ⟨carriage_of p' h' hp', hstream, .inl ⟨fun hr => hp (h.symm.trans hr.1), ?_⟩⟩
  rw [pending_of p h hp, pending_of p' h' hp', hstream, hrest, hsent]

theorem putc_taken {next : State} : putc s c true next = { next with sent := s.sent ++ [c] } := rfl

theorem putc_refused {next : State} : putc s c false next = { s with phase := .refused } := rfl

/-- The call of `putc` at the top of the loop. -/
theorem sends_top (htop : s.phase = .top) (hrest : s.rest = c :: rest) {taken : Bool}
    (h : exec s (.putc taken) = some s') :
    Carriage s' ∧ s'.stream = s.stream ∧ Sends s (.putc taken) s' := by
  have hne : Phase.top ≠ .carriage := by decide
  have hr : ¬ Repeats s (.putc taken) := fun hrep => hne (htop.symm.trans hrep.1)
  obtain ⟨stream, _, _, completion, sent⟩ := s
  subst htop hrest
  dsimp only [exec] at h
  by_cases hnl : c = newline ∧ stream
  · rw [if_pos hnl] at h
    cases taken with
    | false =>
      rw [putc_refused] at h
      obtain rfl := Option.some.inj h
      exact sends_of_same .refused rfl hne rfl (by decide) rfl rfl rfl
    | true =>
      rw [putc_taken] at h
      obtain rfl := Option.some.inj h
      refine ⟨fun _ => ⟨hnl.2, rest, by rw [hnl.1]⟩, rfl, .inl ⟨hr, ?_⟩⟩
      rw [pending_of (s := ⟨stream, c :: rest, .top, completion, sent⟩) .top rfl hne,
        serialPollTx_newline hnl, pending, List.append_assoc]
      rfl
  · rw [if_neg hnl] at h
    cases taken with
    | false =>
      rw [putc_refused] at h
      obtain rfl := Option.some.inj h
      exact sends_of_same .refused rfl hne rfl (by decide) rfl rfl rfl
    | true =>
      rw [putc_taken] at h
      obtain rfl := Option.some.inj h
      refine ⟨carriage_of .top rfl hne, rfl, .inl ⟨hr, ?_⟩⟩
      rw [pending_of .top rfl hne, pending_of .top rfl hne, serialPollTx_other hnl, List.append_assoc]
      rfl

/-- The call of `putc` behind a carriage return: this is where one is repeated. -/
theorem sends_carriage (hcar : s.phase = .carriage) (hrest : s.rest = c :: rest)
    (hc : c = newline ∧ s.stream) {taken : Bool} (h : exec s (.putc taken) = some s') :
    Carriage s' ∧ s'.stream = s.stream ∧ Sends s (.putc taken) s' := by
  obtain ⟨stream, _, _, completion, sent⟩ := s
  subst hcar hrest
  have hpending : pending ⟨stream, c :: rest, .carriage, completion, sent⟩ =
      c :: serialPollTx stream rest := rfl
  dsimp only [exec] at h
  cases taken with
  | false =>
    rw [putc_refused] at h
    obtain rfl := Option.some.inj h
    refine ⟨carriage_of .refused rfl (by decide), rfl, .inr ⟨⟨rfl, rfl⟩, rfl, ?_⟩⟩
    rw [pending_of .refused rfl (by decide), hpending, serialPollTx_newline hc]
  | true =>
    rw [putc_taken] at h
    obtain rfl := Option.some.inj h
    have hr : ¬ Repeats ⟨stream, c :: rest, .carriage, completion, sent⟩ (.putc true) :=
      fun hrep => Bool.noConfusion (Act.putc.inj hrep.2)
    refine ⟨carriage_of .top rfl (by decide), rfl, .inl ⟨hr, ?_⟩⟩
    rw [pending_of .top rfl (by decide), hpending, List.append_assoc]
    rfl

/-- **What every step sends.** -/
theorem exec_sends (hcar : Carriage s) (h : exec s a = some s') :
    Carriage s' ∧ s'.stream = s.stream ∧ Sends s a s' := by
  cases a with
  | putc taken =>
    cases hrest : s.rest with
    | nil =>
      simp only [exec, hrest] at h
      split at h <;> simp_all
    | cons c rest =>
      cases hphase : s.phase with
      | top => exact sends_top hphase hrest h
      | carriage =>
        obtain ⟨hstream, rest', hnl⟩ := hcar hphase
        rw [hrest] at hnl
        exact sends_carriage hphase hrest ⟨(List.cons.inj hnl).1, hstream⟩ h
      | refused => simp [exec, hphase] at h
      | waiting => simp [exec, hphase] at h
  | wait =>
    cases hphase : s.phase with
    | refused =>
      simp only [exec, hphase] at h
      split at h
      · obtain rfl := Option.some.inj h
        exact sends_of_same .top hphase (by decide) rfl (by decide) rfl rfl rfl
      · obtain rfl := Option.some.inj h
        exact sends_of_same .waiting hphase (by decide) rfl (by decide) rfl rfl rfl
    | top => simp [exec, hphase] at h
    | carriage => simp [exec, hphase] at h
    | waiting => simp [exec, hphase] at h
  | woken =>
    rw [exec] at h
    split at h
    next hw =>
      obtain rfl := Option.some.inj h
      exact sends_of_same .top hw.1 (by decide) rfl (by decide) rfl rfl rfl
    next => cases h
  | txDone =>
    obtain rfl := Option.some.inj h
    have hr : ¬ Repeats s .txDone := fun hrep => by cases hrep.2
    exact ⟨hcar, rfl, .inl ⟨hr, rfl⟩⟩

-- --------
-- Whole transmissions
-- --------

/-- The repeated carriage returns of a run. -/
def repeats (log : List (State × Act)) : Nat := log.countP fun p => decide (Repeats p.1 p.2)

/-- What was sent so far and what is to come, against what the polled transmission sends. -/
structure Inv (stream : Bool) (data : List UInt8) (s : State) (log : List (State × Act)) : Prop where
  stream_eq : s.stream = stream
  carriage : Carriage s
  length : s.sent.length + (pending s).length =
    (serialPollTx stream data).length + repeats log
  text : repeats log = 0 → s.sent ++ pending s = serialPollTx stream data

/-- Nothing is sent at the start. -/
theorem inv_start {completion : Completion} :
    Inv stream data (start stream data completion) [] where
  stream_eq := rfl
  carriage := carriage_of .top rfl (by decide)
  length := by
    rw [pending_of .top rfl (by decide)]
    exact Nat.zero_add _
  text _ := by
    rw [pending_of .top rfl (by decide)]
    rfl

/-- **A step** keeps the invariant. -/
theorem Inv.step {log : List (State × Act)} (hinv : Inv stream data s log)
    (h : exec s a = some s') : Inv stream data s' ((s, a) :: log) := by
  obtain ⟨hcar, hstream, hsends⟩ := exec_sends hinv.carriage h
  have hlength := hinv.length
  refine ⟨hstream.trans hinv.stream_eq, hcar, ?_, fun h0 => ?_⟩
  · rw [repeats, List.countP_cons]
    rcases hsends with ⟨hr, htext⟩ | ⟨hr, hsent, hpending⟩
    · have hsame := congrArg List.length htext
      rw [List.length_append, List.length_append] at hsame
      rw [decide_eq_false hr, if_neg Bool.false_ne_true, hsame, hlength]
      rfl
    · rw [decide_eq_true hr, if_pos rfl, hsent, hpending, List.length_cons]
      rw [repeats] at hlength
      omega
  · rw [repeats, List.countP_cons] at h0
    rcases hsends with ⟨hr, htext⟩ | ⟨hr, -, -⟩
    · exact htext.trans (hinv.text (by rw [repeats]; omega))
    · rw [decide_eq_true hr, if_pos rfl] at h0
      omega

/-- The loop has been left. -/
def Returned (s : State) : Prop := s.phase = .top ∧ s.rest = []

theorem pending_returned (h : Returned s) : pending s = [] := by
  rw [pending_of .top h.1 (by decide), h.2]
  rfl

theorem repeats_eq_zero {log : List (State × Act)} :
    repeats log = 0 ↔ ∀ p ∈ log, ¬ Repeats p.1 p.2 := by
  rw [repeats, List.countP_eq_zero]
  exact forall₂_congr fun p _ => by rw [decide_eq_true_eq]

/-- The invariant holds in every state of a run. -/
theorem inv_of_run {completion : Completion} {log : List (State × Act)}
    (hrun : Runs (Runs.Observed (Runs.Exec exec) Runs.steps) Runs.always
      (start stream data completion, []) (s, log)) : Inv stream data s log := by
  refine @Runs.invariant _ _ _ _ _ _ (fun q => Inv stream data q.1 q.2) ?_ hrun inv_start
  rintro ⟨s₁, log₁⟩ a ⟨s₂, log₂⟩ hinv - ⟨hstep, hkept⟩
  have hkept : log₂ = (s₁, a) :: log₁ := hkept
  subst hkept
  exact hinv.step hstep

/-- **Interrupt and polled transmission.** In every run, whatever is refused: what was sent and what
is to come is longer than what the polled transmission sends by the carriage returns that were
repeated. If none was, it is the same text, so what was sent is a part of it; and once the call has
returned, the hardware has taken what the polled transmission sends exactly if none was. -/
theorem serialIntTx_polled {completion : Completion} {log : List (State × Act)}
    (hrun : Runs (Runs.Observed (Runs.Exec exec) Runs.steps) Runs.always
      (start stream data completion, []) (s, log)) :
    s.sent.length + (pending s).length = (serialPollTx stream data).length + repeats log ∧
    ((∀ p ∈ log, ¬ Repeats p.1 p.2) → s.sent ++ pending s = serialPollTx stream data) ∧
    (Returned s → (s.sent = serialPollTx stream data ↔ ∀ p ∈ log, ¬ Repeats p.1 p.2)) := by
  have hinv := inv_of_run hrun
  rw [← repeats_eq_zero]
  refine ⟨hinv.length, hinv.text, fun hret => ⟨fun hsent => ?_, fun h0 => ?_⟩⟩
  · have hlength := hinv.length
    rw [hsent, pending_returned hret, List.length_nil] at hlength
    omega
  · have htext := hinv.text h0
    rwa [pending_returned hret, List.append_nil] at htext

-- --------
-- Waiting
-- --------

/-- A writer that is suspended has found the flag not set. -/
def Asleep (s : State) : Prop := s.completion.suspended = true → s.completion.flag = false

theorem done_suspended {c : Completion} (h : c.suspended = true → c.flag = false) :
    (done c).suspended = false := by
  rw [done, Completion.rtCompletionDone]
  cases hflag : c.flag with
  | true =>
    have hsus : c.suspended = false := by
      rw [← Bool.not_eq_true]
      intro hs
      cases hflag.symm.trans (h hs)
    rw [if_pos rfl]
    split
    · rfl
    · exact hsus
  | false =>
    rw [if_neg Bool.false_ne_true, if_pos (Function.update_self ..)]
    rfl

/-- What a step does to the completion. -/
theorem exec_completion (hs : exec s a = some s') :
    s'.completion = s.completion ∨
      s'.completion = (s.completion.rtCompletionWait rtWaitingForever).2 ∨
      s'.completion = s.completion.waitWoken.2 ∨ s'.completion = done s.completion := by
  cases a with
  | putc taken =>
    have hsame : ∀ c next, next.completion = s.completion →
        (putc s c taken next).completion = s.completion := by
      intro c next hnext
      cases taken with
      | false => rfl
      | true => exact hnext
    simp only [exec] at hs
    split at hs
    · split at hs <;> obtain rfl := Option.some.inj hs <;> exact .inl (hsame _ _ rfl)
    · obtain rfl := Option.some.inj hs
      exact .inl (hsame _ _ rfl)
    · cases hs
  | wait =>
    simp only [exec] at hs
    split at hs
    · split at hs
      next heq =>
        obtain rfl := Option.some.inj hs
        exact .inr (.inl (by rw [heq]))
      next heq =>
        obtain rfl := Option.some.inj hs
        exact .inr (.inl (by rw [heq]))
    · cases hs
  | woken =>
    rw [exec] at hs
    split at hs
    · obtain rfl := Option.some.inj hs
      exact .inr (.inr (.inl rfl))
    · cases hs
  | txDone =>
    obtain rfl := Option.some.inj hs
    exact .inr (.inr (.inr rfl))

/-- A writer is suspended only where the flag is not set. -/
theorem Asleep.step (h : Asleep s) (hs : exec s a = some s') : Asleep s' := by
  rcases exec_completion hs with heq | heq | heq | heq <;> rw [Asleep, heq]
  · exact h
  · rw [Completion.rtCompletionWait]
    by_cases hflag : s.completion.flag = false
    · rw [if_pos hflag, if_neg (by decide)]
      exact fun _ => hflag
    · rw [if_neg hflag]
      exact fun _ => rfl
  · exact fun _ => rfl
  · rw [done_suspended h]
    exact fun hsus => absurd hsus Bool.false_ne_true

theorem asleep_of_run {completion : Completion} {log : List (State × Act)}
    (hidle : completion.suspended = false)
    (hrun : Runs (Runs.Observed (Runs.Exec exec) Runs.steps) Runs.always
      (start stream data completion, []) (s, log)) : Asleep s := by
  refine @Runs.invariant _ _ _ _ _ _ (fun q => Asleep q.1) ?_ hrun fun hsus => ?_
  · rintro ⟨s₁, log₁⟩ a ⟨s₂, log₂⟩ h - ⟨hstep, -⟩
    exact h.step hstep
  · cases hidle.symm.trans hsus

/-- **No writer is stuck**: as long as it has not returned, its next call can be made, or the next
`RT_SERIAL_EVENT_TX_DONE` wakes it. -/
theorem serialIntTx_goes_on {completion : Completion} {log : List (State × Act)}
    (hidle : completion.suspended = false)
    (hrun : Runs (Runs.Observed (Runs.Exec exec) Runs.steps) Runs.always
      (start stream data completion, []) (s, log)) (hnot : ¬ Returned s) :
    (∀ taken, (exec s (.putc taken)).isSome) ∨ (exec s .wait).isSome ∨
      ∃ s', exec s .txDone = some s' ∧ (exec s' .woken).isSome := by
  cases hphase : s.phase with
  | top =>
    obtain ⟨c, rest, hrest⟩ := List.exists_cons_of_ne_nil fun hnil => hnot ⟨hphase, hnil⟩
    refine .inl fun taken => ?_
    simp only [exec, hphase, hrest]
    split <;> rfl
  | carriage =>
    obtain ⟨-, rest, hrest⟩ := (inv_of_run hrun).carriage hphase
    refine .inl fun taken => ?_
    simp only [exec, hphase, hrest]
    rfl
  | refused =>
    refine .inr (.inl ?_)
    simp only [exec, hphase]
    split <;> rfl
  | waiting =>
    refine .inr (.inr ⟨_, rfl, ?_⟩)
    have hsus := done_suspended (asleep_of_run hidle hrun)
    rw [exec, if_pos ⟨hphase, hsus⟩]
    rfl

-- --------
-- A newline
-- --------

/-- The carriage return is taken, and the newline only at the second call. -/
def refusedNewline : List Act :=
  [.putc true, .putc false, .wait, .txDone, .woken, .putc true, .putc true]

/-- **The defect**: the line ends with two carriage returns. -/
theorem serialIntTx_repeats : ∃ s log,
    Runs (Runs.Observed (Runs.Exec exec) Runs.steps) Runs.always
      (start true [newline] Completion.rtCompletionInit, []) (s, log) ∧ Returned s ∧
      s.sent = [carriageReturn, carriageReturn, newline] ∧
      serialPollTx true [newline] = [carriageReturn, newline] := by
  obtain ⟨⟨s, log⟩, hrun, hend⟩ := @Runs.observed_of_replay _ _ exec _ Runs.steps Runs.always _
    refusedNewline (fun q => decide (q.1.phase = .top ∧ q.1.rest = [] ∧
      q.1.sent = [carriageReturn, carriageReturn, newline]))
    (start true [newline] Completion.rtCompletionInit, []) (by decide +kernel)
  obtain ⟨hphase, hrest, hsent⟩ := of_decide_eq_true hend
  exact ⟨s, log, hrun, ⟨hphase, hrest⟩, hsent, rfl⟩

/-- The carriage return is refused, and then both characters are taken. -/
def refusedCarriage : List Act := [.putc false, .txDone, .wait, .putc true, .putc true]

theorem serialIntTx_polled_newline : ∃ s log,
    Runs (Runs.Observed (Runs.Exec exec) Runs.steps) Runs.always
      (start true [newline] Completion.rtCompletionInit, []) (s, log) ∧
      s.sent = serialPollTx true [newline] := by
  obtain ⟨⟨s, log⟩, hrun, hend⟩ := @Runs.observed_of_replay _ _ exec _ Runs.steps Runs.always _
    refusedCarriage (fun q => decide (q.1.phase = .top ∧ q.1.rest = [] ∧
      ∀ p ∈ q.2, ¬ Repeats p.1 p.2))
    (start true [newline] Completion.rtCompletionInit, []) (by decide +kernel)
  obtain ⟨hphase, hrest, hnone⟩ := of_decide_eq_true hend
  exact ⟨s, log, hrun, ((serialIntTx_polled hrun).2.2 ⟨hphase, hrest⟩).mpr hnone⟩

end RTThread.SerialIntTx
