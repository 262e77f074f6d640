import RTThread.Lib.Runs
import RTThread.Lib.Word32
import RTThread.Rtdef
import Mathlib.Algebra.BigOperators.Group.List.Basic

/-!
# Reception by DMA (`drv_uart.c`, `drv_pdma.c`)

The channel writes bytes into a buffer of `n`, around and around. It raises a flag where it wraps, and
another where no byte has come for a while. The interrupt reads the flags one after the other, and
the count only in the callback: bytes keep coming in between.

A wrap behind the status but before the done flag is served, and its flag is left, so that it is
served twice. A wrap behind the flags but before the count makes the position of a time-out smaller
than the offset.

`uart_rx_dma`: in every run without such a wrap the lengths that are reported are between 1 and `n`, and
their sum is the position that is reported.
-/

namespace RTThread.UartDmaRx

-- --------
-- The code
-- --------

/-- `rxdma_trigger_len`, which is what the 16 bits of a count can say, and `config.bufsz`. -/
structure Cfg where
  n : Nat
  bufsz : Nat
  n_pos : 0 < n
  n_le : n ≤ 2 ^ 16

/-- `nu_pdma_non_transfer_count_get` -/
def nuPdmaNonTransferCountGet (txcnt : Nat) : Nat := txcnt + 1

/-- `nu_pdma_transferred_byte_get`, for bytes. -/
def nuPdmaTransferredByteGet (triggerByteLen txcnt : Nat) : Nat :=
  triggerByteLen - nuPdmaNonTransferCountGet txcnt * 1

/-- `nu_pdma_uart_rx_cb`, from the events (a done one, or else a time-out) to `recv_len` and
`rx_write_offset`. -/
def nuPdmaUartRxCb (cfg : Cfg) (done empty : Bool) (transferred offset : Nat) : Nat × Nat :=
  if done = false ∧ empty = false then (0, offset)
  else
    let transferred := if done = true then cfg.n else transferred
    let recvLen := Word32.sub transferred offset
    (if cfg.bufsz = 0 ∧ done = true then cfg.n else recvLen, transferred % cfg.n)

/-- The length that the serial layer takes out of `RT_SERIAL_EVENT_RX_DMADONE | (recv_len << 8)`: the
event is an `int`, and the shift keeps its sign. -/
def eventLength (recvLen : Nat) : Int := toInt (recvLen * 2 ^ 8) / 2 ^ 8

/-- Where `nu_pdma_isr` is, with what it has read: the status (whether any channel is done, and the
time-out of this one), and the done flag. `counted` also keeps how many bytes had come. -/
inductive Pc
  | idle
  | status (tdif reqto : Bool)
  | read (tdif reqto td : Bool)
  | cleared (reqto td : Bool)
  | call (td : Bool)
  | counted (td : Bool) (transferred came : Nat)
deriving DecidableEq

/-- The handler has read the done flag. -/
def Pc.td : Pc → Bool
  | .read _ _ td => td
  | .cleared _ td => td
  | .call td => td
  | .counted td _ _ => td
  | _ => false

/-- Some channel was done. -/
def Pc.tdif : Pc → Bool
  | .status tdif _ => tdif
  | _ => false

/-- How many bytes had come when the count was read. -/
def Pc.came : Pc → Nat
  | .counted _ _ came => came
  | _ => 0

/-- How many bytes have come, the flags of the channel, the handler, `rx_write_offset`, the lengths that
were reported, and the position that was reported last. -/
structure State where
  written : Nat
  td : Bool
  reqto : Bool
  pc : Pc
  offset : Nat
  reports : List Int
  pos : Nat

/-- A wrap has not been served yet. -/
def State.Pending (s : State) : Prop := s.td = true ∨ s.pc.td = true

instance (s : State) : Decidable s.Pending := instDecidableOr

/-- The steps; the handler is also entered for another channel that is done, or for anything else
that another channel has (a time-out, an abort). -/
inductive Act
  | arrive
  | timeout
  | enter (otherDone other : Bool)
  | readTd
  | clearTd
  | clearTo
  | count
  | finish (empty : Bool)

/-- The callback, and what the serial layer is told. -/
def State.finish (cfg : Cfg) (s : State) (td empty : Bool) (transferred came : Nat) : State :=
  let (recvLen, offset) := nuPdmaUartRxCb cfg td empty transferred s.offset
  { s with
    pc := .idle
    offset := offset
    reports := if recvLen = 0 then s.reports else s.reports ++ [eventLength recvLen]
    pos := if recvLen = 0 then s.pos else if td = true then came / cfg.n * cfg.n else came }

/-- A step of the channel or of the handler. An interrupt is served before a further full buffer is
received. -/
def exec (cfg : Cfg) (s : State) : Act → Option State
  | .arrive =>
    if (s.written + 1) % cfg.n = 0 then
      if s.Pending then none else some { s with written := s.written + 1, td := true }
    else some { s with written := s.written + 1 }
  | .timeout => some { s with reqto := true }
  | .enter otherDone other =>
    match s.pc with
    | .idle =>
      if s.td = true ∨ s.reqto = true ∨ otherDone = true ∨ other = true then
        some { s with pc := .status (s.td || otherDone) s.reqto }
      else none
    | _ => none
  | .readTd =>
    match s.pc with
    | .status tdif reqto => some { s with pc := .read tdif reqto s.td }
    | _ => none
  | .clearTd =>
    match s.pc with
    | .read tdif reqto td =>
      some { s with td := if tdif = true ∧ td = true then false else s.td, pc := .cleared reqto td }
    | _ => none
  | .clearTo =>
    match s.pc with
    | .cleared reqto td =>
      some { s with
        reqto := if reqto = true then false else s.reqto
        pc := if td = true ∨ reqto = true then .call td else .idle }
    | _ => none
  | .count =>
    match s.pc with
    | .call td =>
      let txcnt := cfg.n - s.written % cfg.n - 1
      some { s with pc := .counted td (nuPdmaTransferredByteGet cfg.n txcnt) s.written }
    | _ => none
  | .finish empty =>
    match s.pc with
    | .counted td transferred came => some (s.finish cfg td empty transferred came)
    | _ => none

def init : State := ⟨0, false, false, .idle, 0, [], 0⟩

-- --------
-- What is asked of it, and the condition
-- --------

/-- **What is asked of a state.** -/
structure Good (cfg : Cfg) (s : State) : Prop where
  lengths : ∀ l ∈ s.reports, 1 ≤ l ∧ l ≤ cfg.n
  sum : s.reports.sum = s.pos
  pos_le : s.pos ≤ s.written
  offset : (s.offset : Int) = s.reports.sum % cfg.n

/-- **The condition**: the done flag is not there before the status says so; a time-out is not counted
behind a wrap that was not reported, unless the count is the offset; and without a buffer of the
serial layer, nothing of a full buffer was reported before. -/
def Cond (cfg : Cfg) (s : State) : Act → Prop
  | .readTd => s.td = true → s.pc.tdif = true
  | .finish empty =>
    (s.pc.td = false → empty = true →
        s.pc.came / cfg.n = s.pos / cfg.n ∨ s.pc.came % cfg.n = s.offset) ∧
      (s.pc.td = true → cfg.bufsz = 0 → s.offset = 0)
  | _ => True

instance (cfg : Cfg) (s : State) (a : Act) : Decidable (Cond cfg s a) :=
  match a with
  | .readTd => inferInstanceAs (Decidable (s.td = true → s.pc.tdif = true))
  | .finish empty => inferInstanceAs (Decidable (
      (s.pc.td = false → empty = true →
        s.pc.came / cfg.n = s.pos / cfg.n ∨ s.pc.came % cfg.n = s.offset) ∧
      (s.pc.td = true → cfg.bufsz = 0 → s.offset = 0)))
  | .arrive | .timeout | .enter _ _ | .clearTd | .clearTo | .count => isTrue trivial

-- --------
-- The invariant
-- --------

variable {cfg : Cfg} {s s' : State}

/-- **The invariant**: at most one wrap is ahead of what was reported. -/
structure Inv (cfg : Cfg) (s : State) : Prop where
  lengths : ∀ l ∈ s.reports, 1 ≤ l ∧ l ≤ cfg.n
  sum : s.reports.sum = s.pos
  pos_le : s.pos ≤ s.written
  offset : s.offset = s.pos % cfg.n
  laps : s.written / cfg.n = s.pos / cfg.n + if s.Pending then 1 else 0
  read : ∀ tdif reqto, s.pc = .read tdif reqto true → tdif = true ∧ s.td = true
  served : s.pc.td = true → (∀ tdif reqto td, s.pc ≠ .read tdif reqto td) → s.td = false
  counted : ∀ td transferred came, s.pc = .counted td transferred came →
    transferred = came % cfg.n ∧ s.pos ≤ came ∧ came ≤ s.written ∧
      (td = true → came / cfg.n = s.pos / cfg.n + 1)

theorem Inv.good (h : Inv cfg s) : Good cfg s :=
  ⟨h.lengths, h.sum, h.pos_le, by rw [h.sum, h.offset]; exact Int.natCast_emod _ _⟩

theorem Inv.laps_of (s' : State) (h : Inv cfg s) (hpend : s'.Pending ↔ s.Pending)
    (hwritten : s'.written = s.written) (hpos : s'.pos = s.pos) :
    s'.written / cfg.n = s'.pos / cfg.n + if s'.Pending then 1 else 0 := by
  rw [hwritten, hpos, h.laps]
  exact congrArg _ (if_congr hpend.symm rfl rfl)

/-- Nothing has come at the start. -/
theorem inv_init : Inv cfg init where
  lengths := nofun
  sum := rfl
  pos_le := le_rfl
  offset := (Nat.zero_mod _).symm
  laps := rfl
  read := nofun
  served := nofun
  counted := nofun

-- --------
-- The channel
-- --------

/-- A byte comes; a wrap sets the done flag. -/
theorem inv_arrive (h : Inv cfg s) (hs : exec cfg s .arrive = some s') : Inv cfg s' := by
  have hlaps := h.laps
  have hdiv := @Nat.succ_div s.written cfg.n
  unfold exec at hs
  dsimp only at hs
  split at hs
  · rename_i hwrap
    split at hs
    · cases hs
    · rename_i hpend
      cases hs
      have hno : s.pc.td ≠ true := fun ht => hpend (Or.inr ht)
      refine
        { h with
          pos_le := Nat.le_succ_of_le h.pos_le
          laps := ?_
          read := fun _ _ hpc => absurd (congrArg Pc.td hpc) hno
          served := fun ht => absurd ht hno
          counted := fun td transferred came hpc => ?_ }
      · rw [if_neg hpend] at hlaps
        rw [if_pos (Nat.dvd_of_mod_eq_zero hwrap), hlaps] at hdiv
        have hpend' : ({ s with written := s.written + 1, td := true } : State).Pending :=
          Or.inl rfl
        rw [if_pos hpend']
        exact hdiv
      · obtain ⟨htr, hle, hcame, hlap⟩ := h.counted td transferred came hpc
        exact ⟨htr, hle, Nat.le_succ_of_le hcame, hlap⟩
  · rename_i hwrap
    cases hs
    refine
      { h with
        pos_le := Nat.le_succ_of_le h.pos_le
        laps := ?_
        counted := fun td transferred came hpc => ?_ }
    · rw [if_neg fun hdvd => hwrap (Nat.mod_eq_zero_of_dvd hdvd), Nat.add_zero, hlaps] at hdiv
      exact hdiv
    · obtain ⟨htr, hle, hcame, hlap⟩ := h.counted td transferred came hpc
      exact ⟨htr, hle, Nat.le_succ_of_le hcame, hlap⟩

-- --------
-- The handler
-- --------

theorem inv_enter {otherDone other : Bool} (h : Inv cfg s)
    (hs : exec cfg s (.enter otherDone other) = some s') : Inv cfg s' := by
  unfold exec at hs
  dsimp only at hs
  split at hs
  · rename_i hpc
    split at hs
    · cases hs
      have hlaps := h.laps_of { s with pc := .status (s.td || otherDone) s.reqto }
        (by simp [State.Pending, hpc, Pc.td]) rfl rfl
      exact { h with laps := hlaps, read := nofun, served := nofun, counted := nofun }
    · cases hs
  · cases hs

/-- The done flag is read: the status had it. -/
theorem inv_readTd (h : Inv cfg s) (hcond : Cond cfg s .readTd)
    (hs : exec cfg s .readTd = some s') : Inv cfg s' := by
  unfold exec at hs
  dsimp only at hs
  split at hs
  · rename_i tdif reqto hpc
    cases hs
    have hlaps := h.laps_of { s with pc := .read tdif reqto s.td }
      (by simp [State.Pending, hpc, Pc.td]) rfl rfl
    refine
      { h with
        laps := hlaps
        read := fun _ _ heq => ?_
        served := fun _ hno => absurd rfl (hno _ _ _)
        counted := nofun }
    obtain ⟨rfl, -, htd⟩ := Pc.read.inj heq
    exact ⟨by simpa [hpc, Pc.tdif] using hcond htd, htd⟩
  · cases hs

/-- The done flag that was read is cleared. -/
theorem inv_clearTd (h : Inv cfg s) (hs : exec cfg s .clearTd = some s') : Inv cfg s' := by
  unfold exec at hs
  dsimp only at hs
  split at hs
  · rename_i tdif reqto td hpc
    cases hs
    cases td with
    | false =>
      have hlaps := h.laps_of { s with
        td := if tdif = true ∧ false = true then false else s.td, pc := .cleared reqto false }
        (by simp [State.Pending, hpc, Pc.td]) rfl rfl
      exact { h with laps := hlaps, read := nofun, served := nofun, counted := nofun }
    | true =>
      obtain ⟨rfl, htd⟩ := h.read tdif reqto hpc
      have hclear : (if true = true ∧ true = true then false else s.td) = false := rfl
      have hlaps := h.laps_of { s with
        td := if true = true ∧ true = true then false else s.td, pc := .cleared reqto true }
        (by simp [State.Pending, hpc, Pc.td]) rfl rfl
      exact
        { h with
          laps := hlaps
          read := nofun
          served := fun _ _ => hclear
          counted := nofun }
  · cases hs

/-- The time-out flag is cleared, and the callback called. -/
theorem inv_clearTo (h : Inv cfg s) (hs : exec cfg s .clearTo = some s') : Inv cfg s' := by
  unfold exec at hs
  dsimp only at hs
  split at hs
  · rename_i reqto td hpc
    cases hs
    have hserved := h.served
    rw [hpc] at hserved
    have hpc' : ∀ pc, pc = (if td = true ∨ reqto = true then Pc.call td else .idle) →
        pc.td = td ∧ (∀ tdif reqto td, pc ≠ .read tdif reqto td) ∧
          ∀ td transferred came, pc ≠ .counted td transferred came := by
      rintro pc rfl
      cases td with
      | true => exact ⟨rfl, nofun, nofun⟩
      | false =>
        cases reqto with
        | true => exact ⟨rfl, nofun, nofun⟩
        | false => exact ⟨rfl, nofun, nofun⟩
    obtain ⟨htd, hread, hcounted⟩ := hpc' _ rfl
    have hlaps := h.laps_of { s with
      reqto := if reqto = true then false else s.reqto
      pc := if td = true ∨ reqto = true then .call td else .idle }
      (by unfold State.Pending; dsimp only; rw [htd, hpc]; exact Iff.rfl) rfl rfl
    exact
      { h with
        laps := hlaps
        read := fun _ _ heq => absurd heq (hread _ _ _)
        served := fun ht _ => hserved (htd.symm.trans ht) nofun
        counted := fun _ _ _ heq => absurd heq (hcounted _ _ _) }
  · cases hs

/-- The count is the position in the lap. -/
theorem inv_count (h : Inv cfg s) (hs : exec cfg s .count = some s') : Inv cfg s' := by
  unfold exec at hs
  dsimp only at hs
  split at hs
  · rename_i td hpc
    cases hs
    have hserved := h.served
    rw [hpc] at hserved
    have hlaps := h.laps
    have hlt := Nat.mod_lt s.written cfg.n_pos
    have hmod : nuPdmaTransferredByteGet cfg.n (cfg.n - s.written % cfg.n - 1)
        = s.written % cfg.n := by
      unfold nuPdmaTransferredByteGet nuPdmaNonTransferCountGet
      omega
    rw [hmod]
    have hlaps' := h.laps_of { s with pc := .counted td (s.written % cfg.n) s.written }
      (by simp [State.Pending, hpc, Pc.td]) rfl rfl
    refine
      { h with
        laps := hlaps'
        read := nofun
        served := fun ht _ => hserved ht nofun
        counted := fun td' transferred came heq => ?_ }
    obtain ⟨rfl, rfl, rfl⟩ := Pc.counted.inj heq
    refine ⟨rfl, h.pos_le, le_rfl, fun ht => ?_⟩
    have hpend : s.Pending := Or.inr (by rw [hpc]; exact ht)
    rw [if_pos hpend] at hlaps
    exact hlaps
  · cases hs

-- --------
-- The callback
-- --------

theorem eventLength_of_le {l : Nat} (h : l ≤ cfg.n) : eventLength l = l := by
  have hn := cfg.n_le
  rw [eventLength, toInt_of_fits (by omega) (by omega), Int.mul_ediv_cancel _ (by decide)]

theorem nuPdmaUartRxCb_done {offset : Nat} (empty : Bool) (transferred : Nat)
    (hoffset : offset < cfg.n) (hbuf : cfg.bufsz = 0 → offset = 0) :
    nuPdmaUartRxCb cfg true empty transferred offset = (cfg.n - offset, 0) := by
  have hn := cfg.n_le
  have hsub : Word32.sub cfg.n offset = cfg.n - offset :=
    Word32.sub_of_le (by omega) (by omega)
  have hlen : (if cfg.bufsz = 0 ∧ true = true then cfg.n else cfg.n - offset) = cfg.n - offset := by
    split
    · rename_i hb
      rw [hbuf hb.1, Nat.sub_zero]
    · rfl
  unfold nuPdmaUartRxCb
  rw [if_neg (by simp)]
  dsimp only
  rw [if_pos rfl, hsub, hlen, Nat.mod_self]

theorem nuPdmaUartRxCb_timeout (transferred offset : Nat) :
    nuPdmaUartRxCb cfg false true transferred offset
      = (Word32.sub transferred offset, transferred % cfg.n) := by
  unfold nuPdmaUartRxCb
  rw [if_neg (by simp)]
  dsimp only
  rw [if_neg (by simp), if_neg (by simp)]

theorem Inv.quiet (h : Inv cfg s) (htd : s.pc.td = false) : Inv cfg { s with pc := .idle } := by
  have hlaps := h.laps_of { s with pc := .idle }
    (by unfold State.Pending; rw [htd]; exact Iff.rfl) rfl rfl
  exact { h with laps := hlaps, read := nofun, served := nofun, counted := nofun }

/-- A callback that reports the next bytes. -/
theorem Inv.report (l offset : Nat) (h : Inv cfg s) (hpos : 1 ≤ l) (hle : l ≤ cfg.n)
    (hcame : s.pos + l ≤ s.written) (hoffset : offset = (s.pos + l) % cfg.n)
    (hlaps : s.written / cfg.n = (s.pos + l) / cfg.n + if s.td = true then 1 else 0) :
    Inv cfg { s with
      pc := .idle, offset := offset, reports := s.reports ++ [(l : Int)], pos := s.pos + l } where
  lengths := by
    intro l' hl'
    rcases List.mem_append.mp hl' with hold | hnew
    · exact h.lengths l' hold
    · rw [List.mem_singleton.mp hnew]
      exact ⟨Int.ofNat_le.mpr hpos, Int.ofNat_le.mpr hle⟩
  sum := by
    rw [List.sum_append, List.sum_singleton, h.sum]
    exact (Int.natCast_add _ _).symm
  pos_le := hcame
  offset := hoffset
  laps := by
    rw [hlaps]
    exact congrArg _ (if_congr (by simp [State.Pending, Pc.td]) rfl rfl)
  read := nofun
  served := nofun
  counted := nofun

/-- A wrap that is served: the rest of the buffer is reported. -/
theorem inv_finish_done {empty : Bool} {transferred came : Nat} (h : Inv cfg s)
    (hpc : s.pc = .counted true transferred came) (hbuf : cfg.bufsz = 0 → s.offset = 0) :
    Inv cfg (s.finish cfg true empty transferred came) := by
  obtain ⟨-, -, hle, hlap⟩ := h.counted _ _ _ hpc
  replace hlap := hlap rfl
  have hoff : s.offset < cfg.n := h.offset ▸ Nat.mod_lt _ cfg.n_pos
  have hsplit : s.pos / cfg.n * cfg.n + s.offset = s.pos := by
    rw [h.offset]
    exact Nat.div_add_mod' _ _
  have hnext : s.pos + (cfg.n - s.offset) = came / cfg.n * cfg.n := by
    rw [hlap, Nat.succ_mul]
    omega
  have hfloor := Nat.div_mul_le_self came cfg.n
  have htd : s.td = false := h.served (by rw [hpc]; rfl) (by rw [hpc]; nofun)
  have hpend : s.Pending := Or.inr (by rw [hpc]; rfl)
  have hlaps := h.laps
  rw [if_pos hpend] at hlaps
  have hinv := h.report (cfg.n - s.offset) 0 (by omega) (by omega) (by omega)
    (by rw [hnext, Nat.mul_mod_left])
    (by rw [hnext, Nat.mul_div_cancel _ cfg.n_pos, hlap, hlaps, htd]; rfl)
  have hlen : cfg.n - s.offset ≤ cfg.n := Nat.sub_le _ _
  unfold State.finish
  rw [nuPdmaUartRxCb_done _ _ hoff hbuf]
  dsimp only
  rw [if_neg (by omega), if_neg (by omega), if_pos rfl, ← hnext, eventLength_of_le hlen]
  exact hinv

/-- A time-out in the lap that was reported last, or at the offset. -/
theorem inv_finish_timeout {transferred came : Nat} (h : Inv cfg s)
    (hpc : s.pc = .counted false transferred came)
    (hcond : came / cfg.n = s.pos / cfg.n ∨ came % cfg.n = s.offset) :
    Inv cfg (s.finish cfg false true transferred came) := by
  obtain ⟨htr, hpos, hle, -⟩ := h.counted _ _ _ hpc
  have hn := cfg.n_le
  rw [← htr] at hcond
  have hlt : transferred < cfg.n := htr ▸ Nat.mod_lt _ cfg.n_pos
  have htd : s.pc.td = false := by rw [hpc]; rfl
  unfold State.finish
  rw [nuPdmaUartRxCb_timeout, Nat.mod_eq_of_lt hlt]
  dsimp only
  by_cases heq : transferred = s.offset
  · rw [heq, Word32.sub_of_le le_rfl (by omega), Nat.sub_self, if_pos rfl, if_pos rfl]
    exact h.quiet htd
  · replace hcond := hcond.resolve_right heq
    have hsplit : s.pos / cfg.n * cfg.n + s.offset = s.pos := by
      rw [h.offset]
      exact Nat.div_add_mod' _ _
    have hsplit' : s.pos / cfg.n * cfg.n + transferred = came := by
      rw [htr, ← hcond]
      exact Nat.div_add_mod' _ _
    have hnext : s.pos + (transferred - s.offset) = came := by omega
    have hlaps := h.laps
    have hpend : s.Pending ↔ s.td = true := by simp [State.Pending, htd]
    have hlen : transferred - s.offset ≤ cfg.n := by omega
    have hinv := h.report (transferred - s.offset) transferred (by omega)
      (by omega) (by omega) (by rw [hnext]; exact htr)
      (by rw [hnext, hcond, hlaps]; exact congrArg _ (if_congr hpend rfl rfl))
    rw [Word32.sub_of_le (by omega) (by omega), if_neg (by omega), if_neg (by omega),
      if_neg (by simp), eventLength_of_le hlen, ← hnext]
    exact hinv

/-- The callback reports. -/
theorem inv_finish {empty : Bool} (h : Inv cfg s) (hcond : Cond cfg s (.finish empty))
    (hs : exec cfg s (.finish empty) = some s') : Inv cfg s' := by
  unfold exec at hs
  dsimp only at hs
  split at hs
  · rename_i td transferred came hpc
    cases hs
    obtain ⟨htimeout, hdone⟩ := hcond
    rw [hpc] at htimeout hdone
    cases td with
    | true => exact inv_finish_done h hpc (hdone rfl)
    | false =>
      cases empty with
      | true => exact inv_finish_timeout h hpc (htimeout rfl rfl)
      | false =>
        have hquiet := h.quiet (by rw [hpc]; rfl)
        exact hquiet
  · cases hs

-- --------
-- Every run
-- --------

theorem inv_timeout (h : Inv cfg s) (hs : exec cfg s .timeout = some s') : Inv cfg s' := by
  cases hs
  have hlaps := h.laps_of { s with reqto := true } Iff.rfl rfl rfl
  exact { h with laps := hlaps }

/-- **A step** that meets the condition keeps the invariant. -/
theorem inv_exec (a : Act) (h : Inv cfg s) (hcond : Cond cfg s a)
    (hs : exec cfg s a = some s') : Inv cfg s' := by
  cases a with
  | arrive => exact inv_arrive h hs
  | timeout => exact inv_timeout h hs
  | enter otherDone other => exact inv_enter h hs
  | readTd => exact inv_readTd h hcond hs
  | clearTd => exact inv_clearTd h hs
  | clearTo => exact inv_clearTo h hs
  | count => exact inv_count h hs
  | finish empty => exact inv_finish h hcond hs

/-- **Reception by DMA.** In every run whose steps all meet the condition, every state is as it is asked
for. -/
theorem uart_rx_dma (cfg : Cfg) (s : State)
    (h : Runs (Runs.Exec (exec cfg)) (Cond cfg) init s) : Good cfg s := by
  have hinv : Inv cfg s :=
    Runs.invariant (fun _ a _ hi hok hs => inv_exec a hi hok hs) h inv_init
  exact hinv.good

/-- Four bytes. -/
def cfg₄ : Cfg := ⟨4, 64, by decide, by decide⟩

/-- A time-out in the first lap, and the wrap behind it. -/
theorem uart_rx_dma_lap : ∃ s, s.reports = [3, 1] ∧ s.pos = 4 ∧ Good cfg₄ s := by
  obtain ⟨s, -, hrun, hp⟩ := @Runs.exec_of_replay _ _ (Cond cfg₄) init (exec cfg₄) _
    [.arrive, .arrive, .timeout, .enter false false, .arrive, .readTd, .clearTd, .clearTo, .count,
      .finish true, .arrive, .arrive, .enter false false, .readTd, .clearTd, .clearTo, .count,
      .finish false]
    (fun s => decide (s.reports = [3, 1] ∧ s.pos = 4)) (by decide +kernel)
  obtain ⟨hreports, hpos⟩ := of_decide_eq_true hp
  exact ⟨s, hreports, hpos, uart_rx_dma cfg₄ s hrun⟩

/-- A wrap between the flags of a time-out and its count: the position is behind the offset. -/
theorem uart_rx_dma_behind :
    ¬ ∀ (cfg : Cfg) (s : State), Runs (Runs.Exec (exec cfg)) Runs.always init s → Good cfg s := by
  intro hall
  obtain ⟨s, -, hrun, hp⟩ := @Runs.exec_of_replay _ _ Runs.always init (exec cfg₄) _
    [.arrive, .arrive, .timeout, .enter false false, .readTd, .clearTd, .clearTo, .count,
      .finish true, .timeout, .enter false false, .readTd, .clearTd, .clearTo, .arrive, .arrive,
      .arrive, .count, .finish true]
    (fun s => decide (s.reports = [2, -1])) (by decide +kernel)
  have hreports := of_decide_eq_true hp
  have hmem : -1 ∈ s.reports := by
    rw [hreports]
    exact List.mem_cons_of_mem _ List.mem_cons_self
  obtain ⟨hpos, -⟩ := (hall cfg₄ s hrun).lengths _ hmem
  exact absurd hpos (by decide)

end RTThread.UartDmaRx
