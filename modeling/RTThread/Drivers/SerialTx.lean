import RTThread.Drivers.DataQueue

/-!
# Serial transmission by DMA (`components/drivers/serial/serial.c`)

A writer pushes its buffer to a data queue, and in a second section with interrupts disabled it
tests `activated`. If no transfer was active it starts one itself, with the buffer it pushed; the
interrupt at the end of a transfer pops the queue and starts a transfer for the item that is then
the first one. An item stays in the queue while it is transmitted.

Both rely on the writer's buffer being the first item. `serialTx_preserves_writes` shows that
then the transfers are the pushed buffers in their order; `serialTx_buffer_lost` is a run in which
a second writer comes between the push and the test of the first one.
-/

namespace RTThread

/-- Where a writer is behind its push. -/
inductive SerialTxPhase
  /-- `rt_data_queue_push` has returned. -/
  | pushed (item : DataItem)
  /-- It has set `activated`. -/
  | starting (item : DataItem)

/-- `struct rt_serial_tx_dma`, where the writers are, and the transfers that the controller was
given and has not finished. -/
structure SerialTxDma where
  dataQueue : DataQueue
  activated : Bool
  phase : ThreadId → Option SerialTxPhase
  inFlight : List DataItem

/-- What happens to a transmission. -/
inductive SerialTxAct
  /-- A thread enters `_serial_dma_tx`. -/
  | write (t : ThreadId) (item : DataItem)
  /-- `rt_schedule` returns to a push that found the queue full. -/
  | woken (t : ThreadId)
  /-- The section behind the push. -/
  | test (t : ThreadId)
  /-- The call of `dma_transmit`. -/
  | transmit (t : ThreadId)
  /-- `RT_SERIAL_EVENT_TX_DMADONE`, which interrupts the thread. -/
  | dmaDone (t : ThreadId)

/-- What is seen of a transmission. -/
inductive SerialTxEvent
  | pushed (item : DataItem)
  /-- `dma_transmit` is called. -/
  | transmitted (item : DataItem)
  /-- A transfer has finished, and `tx_complete` is called with this pointer; it has no value if
  the queue was empty. -/
  | complete (finished : DataItem) (dataPtr : Option Nat)
deriving DecidableEq

namespace SerialTxDma

/-- `RT_WAITING_FOREVER` -/
def rtWaitingForever : Int := -1

/-- The transmission that `rt_serial_open` prepares. -/
def opened (queue : Nat → DataItem) : SerialTxDma where
  dataQueue := DataQueue.rtDataQueueInit queue 8 4
  activated := false
  phase _ := none
  inFlight := []

/-- The writer behind `rt_data_queue_push`, unless it waits or returns 0. -/
def afterPush (s : SerialTxDma) (t : ThreadId) (r : DqOutcome × DataQueue) :
    SerialTxDma × List SerialTxEvent :=
  match r.1 with
  | .pushed item =>
    ({ s with
        dataQueue := r.2
        phase := Function.update s.phase t (some (.pushed item)) },
      [.pushed item])
  | _ => ({ s with dataQueue := r.2 }, [])

/-- The section behind the push. -/
def testActivated (s : SerialTxDma) (t : ThreadId) (item : DataItem) : SerialTxDma :=
  if s.activated = false then
    { s with
      activated := true
      phase := Function.update s.phase t (some (.starting item)) }
  else { s with phase := Function.update s.phase t none }

/-- `serial->ops->dma_transmit` -/
def dmaTransmit (s : SerialTxDma) (item : DataItem) : SerialTxDma × List SerialTxEvent :=
  ({ s with inFlight := s.inFlight ++ [item] }, [.transmitted item])

/-- `RT_SERIAL_EVENT_TX_DMADONE` for a transfer. -/
def txDmaDone (s : SerialTxDma) (t : ThreadId) (finished : DataItem) (inFlight : List DataItem) :
    SerialTxDma × List SerialTxEvent :=
  let (outcome, dataQueue) := s.dataQueue.rtDataQueuePop t 0
  let lastDataPtr :=
    match outcome with
    | .popped item => some item.dataPtr
    | _ => none
  match dataQueue.peekItem with
  | some item =>
    -- transmit next data node
    let (s, events) := { s with dataQueue, activated := true, inFlight }.dmaTransmit item
    (s, events ++ [.complete finished lastDataPtr])
  | none => ({ s with dataQueue, activated := false, inFlight }, [.complete finished lastDataPtr])

/-- The state an action leads to, and what is seen of it. -/
def exec (s : SerialTxDma) : SerialTxAct → Option (SerialTxDma × List SerialTxEvent)
  | .write t item =>
    match s.phase t with
    | none => (s.dataQueue.step (.push t item rtWaitingForever)).map (s.afterPush t)
    | some _ => none
  | .woken t =>
    match s.phase t, (s.dataQueue.waits.thread t).call with
    | none, some (.push _ _) => (s.dataQueue.step (.woken t)).map (s.afterPush t)
    | _, _ => none
  | .test t =>
    match s.phase t with
    | some (.pushed item) => some (s.testActivated t item, [])
    | _ => none
  | .transmit t =>
    match s.phase t with
    | some (.starting item) =>
      some ({ s with phase := Function.update s.phase t none }.dmaTransmit item)
    | _ => none
  | .dmaDone t =>
    match s.inFlight with
    | [] => none
    | finished :: inFlight => some (s.txDmaDone t finished inFlight)

/-- **A writer starts its own turn**: when it finds no transfer active, its buffer is the first
one in the queue. -/
def StartsFirst (p : SerialTxDma × List SerialTxEvent) : SerialTxAct → Prop
  | .test t =>
    ∀ item, p.1.phase t = some (.pushed item) → p.1.activated = false →
      p.1.dataQueue.contents.head? = some item
  | _ => True

/-- The buffers pushed in a run. -/
def pushes (events : List SerialTxEvent) : List DataItem :=
  events.filterMap fun
    | .pushed item => some item
    | _ => none

/-- The buffers handed to `dma_transmit` in a run. -/
def transfers (events : List SerialTxEvent) : List DataItem :=
  events.filterMap fun
    | .transmitted item => some item
    | _ => none

-- --------
-- The stages of a transmission
-- --------

/-- What relates the queue, the transfers and the writers. -/
inductive Stage (s : SerialTxDma) (events : List SerialTxEvent) : Prop
  /-- No transfer is active, and a writer is about to start one if there is something to do. -/
  | idle (hactive : s.activated = false) (hflight : s.inFlight = [])
      (hstarting : ∀ t item, s.phase t ≠ some (.starting item))
      (hpushes : pushes events = transfers events ++ s.dataQueue.contents)
      (hwriter : s.dataQueue.contents = [] ∨ ∃ t item, s.phase t = some (.pushed item))
  /-- A writer has set `activated` and calls `dma_transmit` next. -/
  | starting (hactive : s.activated = true) (hflight : s.inFlight = [])
      (t : ThreadId) (item : DataItem) (hphase : s.phase t = some (.starting item))
      (halone : ∀ u item, s.phase u = some (.starting item) → u = t)
      (hfirst : s.dataQueue.contents.head? = some item)
      (hpushes : pushes events = transfers events ++ s.dataQueue.contents)
  /-- The first item of the queue is being transmitted. -/
  | flying (hactive : s.activated = true) (hstarting : ∀ t item, s.phase t ≠ some (.starting item))
      (item : DataItem) (rest : List DataItem) (hflight : s.inFlight = [item])
      (hcontents : s.dataQueue.contents = item :: rest)
      (hpushes : pushes events = transfers events ++ rest)

/-- The invariant of the transmission. -/
structure Inv (s : SerialTxDma) (events : List SerialTxEvent) : Prop where
  queue : s.dataQueue.Inv
  stage : Stage s events
  complete : ∀ finished dataPtr, .complete finished dataPtr ∈ events →
    dataPtr = some finished.dataPtr

section Steps

variable {s s' : SerialTxDma} {tr events : List SerialTxEvent} {t : ThreadId} {item : DataItem}

theorem pushes_append (a b : List SerialTxEvent) : pushes (a ++ b) = pushes a ++ pushes b :=
  List.filterMap_append

theorem transfers_append (a b : List SerialTxEvent) :
    transfers (a ++ b) = transfers a ++ transfers b :=
  List.filterMap_append

/-- Events that are no end of a transfer do not matter to the reports. -/
theorem complete_append
    (hcomplete : ∀ finished dataPtr, .complete finished dataPtr ∈ tr →
      dataPtr = some finished.dataPtr)
    (hevents : ∀ finished dataPtr, .complete finished dataPtr ∈ events →
      dataPtr = some finished.dataPtr) :
    ∀ finished dataPtr, .complete finished dataPtr ∈ tr ++ events →
      dataPtr = some finished.dataPtr := by
  intro finished dataPtr hmem
  rcases List.mem_append.1 hmem with hmem | hmem
  · exact hcomplete _ _ hmem
  · exact hevents _ _ hmem

theorem starting_update {p : Option SerialTxPhase} (hp : ∀ x, p ≠ some (.starting x)) {u : ThreadId}
    {x : DataItem} :
    Function.update s.phase t p u = some (.starting x) ↔
      u ≠ t ∧ s.phase u = some (.starting x) := by
  by_cases hu : u = t
  · subst hu
    rw [Function.update_self]
    exact iff_of_false (hp x) fun h => h.1 rfl
  · rw [Function.update_of_ne hu]
    exact (and_iff_right hu).symm

-- Pushing --------------------------------------------------------------------

/-- What a push does, when it is entered or when it has waited. -/
theorem afterPush_cases {r : DqOutcome × DataQueue} (hdoes : s.dataQueue.Does r)
    (hout : (∃ item, r.1 = .pushed item) ∨ r.1.ops = []) :
    (∃ item, r.2.contents = s.dataQueue.contents ++ [item] ∧
        s.afterPush t r = ({ s with
          dataQueue := r.2, phase := Function.update s.phase t (some (.pushed item)) },
          [.pushed item])) ∨
      (r.2.contents = s.dataQueue.contents ∧ s.afterPush t r = ({ s with dataQueue := r.2 }, [])) := by
  obtain ⟨outcome, queue⟩ := r
  have hops := hdoes.ops
  rcases hout with ⟨item, rfl⟩ | hnone
  · refine .inl ⟨item, ?_, rfl⟩
    change [DequeOp.pushBack item].foldlM _ _ = _ at hops
    rw [List.foldlM_cons, Option.bind_eq_bind, Option.bind_eq_some_iff] at hops
    obtain ⟨contents, happly, hops⟩ := hops
    cases hops
    rcases Deque.apply_cases happly with ⟨a, ha, -, h⟩ | ⟨a, ha, -⟩ | ⟨a, ha, -⟩ | ⟨ha, -⟩
    · cases ha
      exact h
    all_goals cases ha
  · refine .inr ⟨?_, ?_⟩
    · dsimp only at hnone
      rw [hnone] at hops
      exact (Option.some.inj hops).symm
    · cases outcome with
      | pushed item => cases hnone
      | _ => rfl

theorem Stage.push {q : DataQueue} (h : Stage s tr) (hphase : s.phase t = none)
    (hcontents : q.contents = s.dataQueue.contents ++ [item]) :
    Stage { s with
        dataQueue := q, phase := Function.update s.phase t (some (.pushed item)) }
      (tr ++ [.pushed item]) := by
  have hp : pushes (tr ++ [.pushed item]) = pushes tr ++ [item] := pushes_append _ _
  have ht : transfers (tr ++ [.pushed item]) = transfers tr := by
    rw [transfers_append]
    exact List.append_nil _
  have hsame : ∀ u x, Function.update s.phase t (some (.pushed item)) u = some (.starting x) ↔
      s.phase u = some (.starting x) := by
    intro u x
    rw [starting_update (by rintro y ⟨⟩)]
    refine and_iff_right_of_imp ?_
    rintro hu rfl
    rw [hphase] at hu
    cases hu
  cases h with
  | idle hactive hflight hstarting hpushes hwriter =>
    refine .idle hactive hflight (fun u x hu => hstarting u x ((hsame u x).1 hu)) ?_
      (.inr ⟨t, item, Function.update_self _ _ _⟩)
    rw [hp, ht, hpushes, List.append_assoc, hcontents]
  | starting hactive hflight u x hu halone hfirst hpushes =>
    refine .starting hactive hflight u x ((hsame u x).2 hu)
      (fun v y hv => halone v y ((hsame v y).1 hv)) ?_ ?_
    · dsimp only
      rw [hcontents, List.head?_append, hfirst]
      rfl
    · rw [hp, ht, hpushes, List.append_assoc, hcontents]
  | flying hactive hstarting x rest hflight hqueue hpushes =>
    refine .flying hactive (fun u y hu => hstarting u y ((hsame u y).1 hu)) x (rest ++ [item])
      hflight ?_ ?_
    · dsimp only
      rw [hcontents, hqueue, List.cons_append]
    · rw [hp, ht, hpushes, List.append_assoc]

theorem Stage.wait {q : DataQueue} (h : Stage s tr)
    (hcontents : q.contents = s.dataQueue.contents) : Stage { s with dataQueue := q } tr := by
  cases h with
  | idle hactive hflight hstarting hpushes hwriter =>
    exact .idle hactive hflight hstarting (hcontents ▸ hpushes) (hcontents ▸ hwriter)
  | starting hactive hflight u x hu halone hfirst hpushes =>
    exact .starting hactive hflight u x hu halone (hcontents ▸ hfirst) (hcontents ▸ hpushes)
  | flying hactive hstarting x rest hflight hqueue hpushes =>
    exact .flying hactive hstarting x rest hflight (hcontents ▸ hqueue) hpushes

-- Starting -------------------------------------------------------------------

theorem Stage.test (h : Stage s tr) (hphase : s.phase t = some (.pushed item))
    (hfirst : s.activated = false → s.dataQueue.contents.head? = some item) :
    Stage (s.testActivated t item) tr := by
  rw [testActivated]
  cases h with
  | idle hactive hflight hstarting hpushes hwriter =>
    rw [if_pos hactive]
    refine .starting rfl hflight t item (Function.update_self _ _ _) (fun u x hu => ?_)
      (hfirst hactive) hpushes
    by_contra hut
    dsimp only at hu
    rw [Function.update_of_ne hut] at hu
    exact hstarting u x hu
  | starting hactive hflight u x hu halone hhead hpushes =>
    rw [if_neg (by rw [hactive]; decide)]
    have hut : u ≠ t := by
      rintro rfl
      rw [hphase] at hu
      cases hu
    exact .starting hactive hflight u x ((starting_update (by rintro y ⟨⟩)).2 ⟨hut, hu⟩)
      (fun v y hv => halone v y ((starting_update (by rintro z ⟨⟩)).1 hv).2) hhead hpushes
  | flying hactive hstarting x rest hflight hqueue hpushes =>
    rw [if_neg (by rw [hactive]; decide)]
    exact .flying hactive
      (fun u y hu => hstarting u y ((starting_update (by rintro z ⟨⟩)).1 hu).2) x rest hflight
      hqueue hpushes

theorem Stage.transmit (h : Stage s tr) (hphase : s.phase t = some (.starting item)) :
    Stage ({ s with phase := Function.update s.phase t none }.dmaTransmit item).1
      (tr ++ [.transmitted item]) := by
  have hp : pushes (tr ++ [.transmitted item]) = pushes tr := by
    rw [pushes_append]
    exact List.append_nil _
  have ht : transfers (tr ++ [.transmitted item]) = transfers tr ++ [item] :=
    transfers_append _ _
  cases h with
  | idle hactive hflight hstarting hpushes hwriter => exact absurd hphase (hstarting t item)
  | starting hactive hflight u x hu halone hhead hpushes =>
    obtain rfl : t = u := halone t item hphase
    rw [hphase] at hu
    cases hu
    obtain ⟨rest, hrest⟩ := List.head?_eq_some_iff.1 hhead
    refine .flying hactive (fun v y hv => ?_) item rest ?_ hrest ?_
    · obtain ⟨hvt, hv⟩ := (starting_update (by rintro z ⟨⟩)).1 hv
      exact hvt (halone v y hv)
    · change s.inFlight ++ [item] = [item]
      rw [hflight, List.nil_append]
    · rw [hp, ht, hpushes, hrest, List.append_assoc, List.singleton_append]
  | flying hactive hstarting x rest hflight hqueue hpushes => exact absurd hphase (hstarting t item)

-- The end of a transfer ------------------------------------------------------

/-- The interrupt reports the transfer that has finished, and transmits the item behind it. -/
theorem Inv.dmaDone {finished : DataItem} {inFlight : List DataItem} (h : Inv s tr)
    (hflight : s.inFlight = finished :: inFlight) :
    Inv (s.txDmaDone t finished inFlight).1 (tr ++ (s.txDmaDone t finished inFlight).2) := by
  obtain ⟨hqueue, hstage, hcomplete⟩ := h
  cases hstage with
  | idle _ hnone =>
    rw [hnone] at hflight
    cases hflight
  | starting _ hnone =>
    rw [hnone] at hflight
    cases hflight
  | flying hactive hstarting x rest hone hcontents hpushes =>
    rw [hone, List.cons.injEq] at hflight
    obtain ⟨rfl, rfl⟩ := hflight
    obtain ⟨hout, hrest⟩ := @DataQueue.Inv.pop_cons _ t _ 0 hqueue rest hcontents
    have hinv : (s.dataQueue.rtDataQueuePop t 0).2.Inv := hqueue.pop.inv
    have hpeek := hinv.peekItem_eq
    unfold txDmaDone
    generalize s.dataQueue.rtDataQueuePop t 0 = r at hout hrest hinv hpeek ⊢
    obtain ⟨outcome, queue⟩ := r
    dsimp only at hout hrest hinv hpeek ⊢
    subst hout
    rw [hpeek, hrest]
    cases rest with
    | nil =>
      refine ⟨hinv, .idle rfl rfl hstarting ?_ (.inl hrest), complete_append hcomplete ?_⟩
      · rw [pushes_append, transfers_append]
        simpa [pushes, transfers, hrest] using hpushes
      · intro finished dataPtr hmem
        cases List.mem_singleton.1 hmem
        rfl
    | cons next rest =>
      refine ⟨hinv, .flying rfl hstarting next rest rfl hrest ?_, complete_append hcomplete ?_⟩
      · rw [pushes_append, transfers_append]
        simpa [pushes, transfers, dmaTransmit] using hpushes
      · intro finished dataPtr hmem
        change _ ∈ [SerialTxEvent.transmitted next, .complete x (some x.dataPtr)] at hmem
        simp only [List.mem_cons, List.not_mem_nil, or_false, reduceCtorEq, false_or,
          SerialTxEvent.complete.injEq] at hmem
        rw [hmem.1, hmem.2]

-- Runs -----------------------------------------------------------------------

/-- A push, when it is entered or when it has waited. -/
theorem Inv.afterPush {r : DqOutcome × DataQueue} (h : Inv s tr) (hphase : s.phase t = none)
    (hdoes : s.dataQueue.Does r) (hout : (∃ item, r.1 = .pushed item) ∨ r.1.ops = []) :
    Inv (s.afterPush t r).1 (tr ++ (s.afterPush t r).2) := by
  obtain ⟨hqueue, hstage, hcomplete⟩ := h
  rcases afterPush_cases (t := t) hdoes hout with ⟨item, hcontents, heq⟩ | ⟨hcontents, heq⟩
  · rw [heq]
    refine ⟨hdoes.inv, hstage.push hphase hcontents, complete_append hcomplete ?_⟩
    intro finished dataPtr hmem
    cases List.mem_singleton.1 hmem
  · rw [heq]
    dsimp only
    rw [List.append_nil]
    exact ⟨hdoes.inv, hstage.wait hcontents, hcomplete⟩

/-- **Every step keeps the invariant**, if the writers start their own turns. -/
theorem Inv.step {a : SerialTxAct} (h : Inv s tr) (hok : StartsFirst (s, tr) a)
    (hexec : s.exec a = some (s', events)) : Inv s' (tr ++ events) := by
  cases a with
  | write t item =>
    dsimp only [exec] at hexec
    split at hexec
    case h_1 hphase =>
      obtain ⟨r, hstep, heq⟩ := Option.map_eq_some_iff.1 hexec
      have hdoes := h.queue.step (a := .push t item rtWaitingForever) trivial hstep
      obtain ⟨-, rfl⟩ := Runs.takeIf_eq_some.1 hstep
      have hafter := h.afterPush hphase hdoes (DataQueue.push_outcome.imp_left fun ho => ⟨_, ho⟩)
      rwa [heq] at hafter
    case h_2 => cases hexec
  | woken t =>
    dsimp only [exec] at hexec
    split at hexec
    case h_1 item timeout hphase hcall =>
      obtain ⟨r, hstep, heq⟩ := Option.map_eq_some_iff.1 hexec
      have hdoes := h.queue.step (a := .woken t) trivial hstep
      dsimp only [DataQueue.step] at hstep
      rw [hcall] at hstep
      obtain ⟨-, rfl⟩ := Runs.takeIf_eq_some.1 hstep
      have hafter := h.afterPush hphase hdoes (DataQueue.woken_outcome.imp_left fun ho => ⟨_, ho⟩)
      rwa [heq] at hafter
    case h_2 => cases hexec
  | test t =>
    dsimp only [exec] at hexec
    split at hexec
    case h_1 item hphase =>
      cases hexec
      rw [List.append_nil]
      have hqueue : (s.testActivated t item).dataQueue = s.dataQueue := by
        unfold testActivated
        split <;> rfl
      exact ⟨hqueue ▸ h.queue, h.stage.test hphase (hok item hphase), h.complete⟩
    case h_2 => cases hexec
  | transmit t =>
    dsimp only [exec] at hexec
    split at hexec
    case h_1 item hphase =>
      cases hexec
      refine ⟨h.queue, h.stage.transmit hphase, complete_append h.complete ?_⟩
      intro finished dataPtr hmem
      cases List.mem_singleton.1 hmem
    case h_2 => cases hexec
  | dmaDone t =>
    dsimp only [exec] at hexec
    split at hexec
    case h_1 => cases hexec
    case h_2 finished inFlight hflight =>
      have hdone := h.dmaDone (t := t) hflight
      rw [Option.some.inj hexec] at hdone
      exact hdone

end Steps

/-- The steps of the transmission, with what is seen of it. -/
abbrev Step := Runs.Exec (Runs.traced exec)

/-- Nothing is queued when the device is opened. -/
theorem opened_inv (queue : Nat → DataItem) : Inv (opened queue) [] where
  queue := ⟨⟨0, DataQueue.init_valid (by decide) (by decide)⟩, rfl⟩
  stage := by
    have hempty : (opened queue).dataQueue.contents = [] :=
      DataQueue.init_contents (by decide) (by decide)
    refine .idle rfl rfl (fun _ _ h => by cases h) ?_ (.inl hempty)
    rw [hempty]
    rfl
  complete _ _ h := absurd h List.not_mem_nil

/-- **Transmission preserves the writes.** In every run in which each writer that starts a transfer
starts its own turn, the buffers are transmitted in the order in which they were pushed, none of
them twice, and all of them in the end; one at a time; and each is reported when it has finished. -/
theorem serialTx_preserves_writes {queue : Nat → DataItem} {s : SerialTxDma}
    {events : List SerialTxEvent} (hrun : Runs Step StartsFirst (opened queue, []) (s, events)) :
    transfers events <+: pushes events ∧
      s.inFlight.length ≤ 1 ∧
      (∀ finished dataPtr, .complete finished dataPtr ∈ events →
        dataPtr = some finished.dataPtr) ∧
      (s.inFlight = [] → (∀ t, s.phase t = none) → transfers events = pushes events) := by
  have hinv : Inv s events := by
    refine @Runs.invariant _ _ _ _ _ _ (fun p => Inv p.1 p.2) ?_ hrun (opened_inv queue)
    rintro ⟨s, tr⟩ a ⟨s', tr'⟩ h hok hstep
    obtain ⟨⟨s₁, events⟩, hexec, heq⟩ := Option.map_eq_some_iff.1 hstep
    cases heq
    exact h.step hok hexec
  obtain ⟨-, hstage, hcomplete⟩ := hinv
  cases hstage with
  | idle hactive hflight hstarting hpushes hwriter =>
    refine ⟨⟨_, hpushes.symm⟩, ?_, hcomplete, fun _ hphase => ?_⟩
    · rw [hflight]
      exact Nat.zero_le 1
    · rcases hwriter with hnil | ⟨t, item, hpushed⟩
      · rw [hpushes, hnil, List.append_nil]
      · rw [hphase] at hpushed
        cases hpushed
  | starting hactive hflight t item ht halone hfirst hpushes =>
    refine ⟨⟨_, hpushes.symm⟩, ?_, hcomplete, fun _ hphase => ?_⟩
    · rw [hflight]
      exact Nat.zero_le 1
    · rw [hphase] at ht
      cases ht
  | flying hactive hstarting item rest hflight hcontents hpushes =>
    refine ⟨⟨_, hpushes.symm⟩, ?_, hcomplete, fun hnone => ?_⟩
    · rw [hflight]
      exact Nat.le_refl 1
    · rw [hflight] at hnone
      cases hnone

instance (p : SerialTxDma × List SerialTxEvent) (a : SerialTxAct) :
    Decidable (StartsFirst p a) := by
  unfold StartsFirst
  split
  case h_1 t =>
    cases h : p.1.phase t with
    | none => exact isTrue fun _ h' => by cases h'
    | some phase =>
      cases phase with
      | starting x => exact isTrue fun _ h' => by cases h'
      | pushed x =>
        refine decidable_of_iff
          (p.1.activated = false → p.1.dataQueue.contents.head? = some x) ?_
        refine ⟨fun h' item hitem => ?_, fun h' => h' x rfl⟩
        cases hitem
        exact h'
  case h_2 => exact isTrue trivial

/-- Two writers whose buffers are transmitted one after the other, the second one by the
interrupt. -/
def twoWrites : List SerialTxAct :=
  [.write 1 ⟨100, 4⟩, .test 1, .transmit 1, .write 2 ⟨200, 8⟩, .test 2, .dmaDone 1, .dmaDone 1]

theorem serialTx_preserves_writes_two :
    ∃ s events, Runs Step StartsFirst (opened fun _ => ⟨0, 0⟩, []) (s, events) ∧
      pushes events = [⟨100, 4⟩, ⟨200, 8⟩] ∧ transfers events <+: [⟨100, 4⟩, ⟨200, 8⟩] := by
  obtain ⟨⟨s, events⟩, -, hrun, hend⟩ := @Runs.exec_of_replay _ _ StartsFirst
    (opened fun _ => ⟨0, 0⟩, []) (Runs.traced exec) _ twoWrites
    (fun p => decide (pushes p.2 = [⟨100, 4⟩, ⟨200, 8⟩])) (by decide +kernel)
  have hpushes := of_decide_eq_true hend
  have htransfers := (serialTx_preserves_writes hrun).1
  rw [hpushes] at htransfers
  exact ⟨s, events, hrun, hpushes, htransfers⟩

/-- A second writer pushes and starts between the push and the test of the first one. -/
def secondWriter : List SerialTxAct :=
  [.write 1 ⟨100, 4⟩, .write 2 ⟨200, 8⟩, .test 2, .transmit 2, .test 1, .dmaDone 1, .dmaDone 1]

/-- **A buffer is lost**: the second one is transmitted twice, the first one never, although it is
reported as finished. -/
theorem serialTx_buffer_lost :
    ∃ s events, Runs Step Runs.always (opened fun _ => ⟨0, 0⟩, []) (s, events) ∧
      s.inFlight = [] ∧ pushes events = [⟨100, 4⟩, ⟨200, 8⟩] ∧
      transfers events = [⟨200, 8⟩, ⟨200, 8⟩] ∧
      .complete ⟨200, 8⟩ (some 100) ∈ events := by
  obtain ⟨⟨s, events⟩, -, hrun, hend⟩ := @Runs.exec_of_replay _ _ Runs.always
    (opened fun _ => ⟨0, 0⟩, []) (Runs.traced exec) _ secondWriter
    (fun p => decide (p.1.inFlight = [] ∧ pushes p.2 = [⟨100, 4⟩, ⟨200, 8⟩] ∧
      transfers p.2 = [⟨200, 8⟩, ⟨200, 8⟩] ∧ .complete ⟨200, 8⟩ (some 100) ∈ p.2))
    (by decide +kernel)
  exact ⟨s, events, hrun, of_decide_eq_true hend⟩

end SerialTxDma

end RTThread
