import RTThread.Lib.ByteMem

/-!
# Blocks of an SD card (`libraries/nuc980/rtt_port/drv_sdh.c`)

The controller moves blocks between the card and memory at a multiple of four. A buffer there is
handed to it as a whole; any other goes block by block through a temporary buffer of one block.
Both keep the controller's answer in one variable, which starts out as `Successful`. A request
holds the device's lock from beginning to end, so one request is looked at at a time.

A request meets its contract when it returns the block count exactly if every block was moved,
and 0 otherwise. `nuSdh_meets`: it does, unless the temporary buffer cannot be allocated.
-/

namespace RTThread.Sdh

open ByteMem

-- --------
-- The controller
-- --------

abbrev sdhBlockSize : Nat := 512

abbrev successful : Nat := 0

abbrev sdhSelectError : Nat := 0xffff0113

/-- The contents of a card: the bytes of each sector. -/
abbrev Card := Nat → Nat → UInt8

/-- What the controller reports for each sector: the first one that is not `Successful` ends a
command, and its block is not moved. -/
abbrev Status := Nat → Nat

/-- One block of bytes is put at `dst`. -/
def putBlock (m : ByteMem) (dst : Nat) (bytes : Nat → UInt8) : ByteMem := fun x =>
  if dst ≤ x ∧ x < dst + sdhBlockSize then bytes (x - dst) else m x

/-- One block of bytes is put into a sector. -/
def putSector (card : Card) (sector : Nat) (bytes : Nat → UInt8) : Card := fun x j =>
  if x = sector ∧ j < sdhBlockSize then bytes j else card x j

/-- The blocks of a read command. -/
def readBlocks (status : Status) (card : Card) : Nat → ByteMem → Nat → Nat → Nat × ByteMem
  | 0, m, _, _ => (successful, m)
  | n + 1, m, dst, sector =>
    if status sector ≠ successful then (status sector, m)
    else readBlocks status card n (putBlock m dst (card sector)) (dst + sdhBlockSize) (sector + 1)

/-- `SDH_Read` -/
def sdhRead (status : Status) (card : Card) (m : ByteMem) (bufAddr startSec secCount : Nat) :
    Nat × ByteMem :=
  if secCount = 0 then (sdhSelectError, m)
  else readBlocks status card secCount m bufAddr startSec

/-- The blocks of a write command. -/
def writeBlocks (status : Status) (m : ByteMem) : Nat → Card → Nat → Nat → Nat × Card
  | 0, card, _, _ => (successful, card)
  | n + 1, card, src, sector =>
    if status sector ≠ successful then (status sector, card)
    else writeBlocks status m n (putSector card sector fun j => m (src + j)) (src + sdhBlockSize)
      (sector + 1)

/-- `SDH_Write` -/
def sdhWrite (status : Status) (m : ByteMem) (card : Card) (bufAddr startSec secCount : Nat) :
    Nat × Card :=
  if secCount = 0 then (sdhSelectError, card)
  else writeBlocks status m secCount card bufAddr startSec

-- --------
-- The driver
-- --------

/-- The driver's state, memory and the card. -/
structure State where
  pbuf : Option Nat
  mem : ByteMem
  card : Card

/-- The loop of `nu_sdh_read` over the temporary buffer: `ret` is the last answer. -/
def readLoop (status : Status) (card : Card) (pbuf : Nat) :
    Nat → Nat → ByteMem → Nat → Nat → Nat × ByteMem
  | 0, ret, m, _, _ => (ret, m)
  | n + 1, _, m, copyBuffer, pos =>
    let (ret, m) := sdhRead status card m pbuf pos 1
    if ret ≠ successful then (ret, m)
    else readLoop status card pbuf n ret (m.memcpy copyBuffer pbuf sdhBlockSize)
      (copyBuffer + sdhBlockSize) (pos + 1)

/-- The loop of `nu_sdh_write` over the temporary buffer. -/
def writeLoop (status : Status) (pbuf : Nat) :
    Nat → Nat → ByteMem → Card → Nat → Nat → Nat × ByteMem × Card
  | 0, ret, m, card, _, _ => (ret, m, card)
  | n + 1, _, m, card, copyBuffer, pos =>
    let m := m.memcpy pbuf copyBuffer sdhBlockSize
    let (ret, card) := sdhWrite status m card pbuf pos 1
    if ret ≠ successful then (ret, m, card)
    else writeLoop status pbuf n ret m card (copyBuffer + sdhBlockSize) (pos + 1)

/-- What both functions do at their exits: the temporary buffer is released, and the answer decides
on what is returned. -/
def exitSdh (blkNb : Nat) (ret : Nat) (s : State) : Nat × State :=
  (if ret = successful then blkNb else 0, { s with pbuf := none })

/-- `nu_sdh_read`; `malloc` is what `rt_malloc` returns for the temporary buffer. -/
def nuSdhRead (malloc : Option Nat) (status : Status) (s : State) (pos buffer blkNb : Nat) :
    Nat × State :=
  if buffer &&& 3 ≠ 0 then
    match malloc with
    | none => exitSdh blkNb successful { s with pbuf := none }
    | some pbuf =>
      let (ret, m) := readLoop status s.card pbuf blkNb successful s.mem buffer pos
      exitSdh blkNb ret { s with pbuf := some pbuf, mem := m }
  else
    let (ret, m) := sdhRead status s.card s.mem buffer pos blkNb
    exitSdh blkNb ret { s with mem := m }

/-- `nu_sdh_write` -/
def nuSdhWrite (malloc : Option Nat) (status : Status) (s : State) (pos buffer blkNb : Nat) :
    Nat × State :=
  if buffer &&& 3 ≠ 0 then
    match malloc with
    | none => exitSdh blkNb successful { s with pbuf := none }
    | some pbuf =>
      let (ret, m, card) := writeLoop status pbuf blkNb successful s.mem s.card buffer pos
      exitSdh blkNb ret { pbuf := some pbuf, mem := m, card }
  else
    let (ret, card) := sdhWrite status s.mem s.card buffer pos blkNb
    exitSdh blkNb ret { s with card }

-- --------
-- What a request should do
-- --------

/-- Every block of a read is moved: whatever the card and memory hold, the caller's buffer then
holds the sectors. -/
def ReadMoves (malloc : Option Nat) (status : Status) (pos buffer blkNb : Nat) : Prop :=
  ∀ s : State, ∀ i < blkNb, ∀ j < sdhBlockSize,
    (nuSdhRead malloc status s pos buffer blkNb).2.mem (buffer + sdhBlockSize * i + j) =
      s.card (pos + i) j

/-- Every block of a write is moved. -/
def WriteMoves (malloc : Option Nat) (status : Status) (pos buffer blkNb : Nat) : Prop :=
  ∀ s : State, ∀ i < blkNb, ∀ j < sdhBlockSize,
    (nuSdhWrite malloc status s pos buffer blkNb).2.card (pos + i) j =
      s.mem (buffer + sdhBlockSize * i + j)

/-- What is returned for a request of `blkNb` blocks says whether all of them were moved. -/
def Tells (blkNb ret : Nat) (moved : Prop) : Prop :=
  (ret = blkNb ↔ moved) ∧ (¬ moved → ret = 0)

/-- The request fits its buffers: the temporary one is apart from the caller's. -/
def Apart (malloc : Option Nat) (buffer blkNb : Nat) : Prop :=
  ∀ p ∈ malloc, p + sdhBlockSize ≤ buffer ∨ buffer + sdhBlockSize * blkNb ≤ p

/-- There is a temporary buffer where one is needed. -/
def HasBuffer (malloc : Option Nat) (buffer blkNb : Nat) : Prop :=
  buffer &&& 3 = 0 ∨ malloc.isSome ∨ blkNb = 0

variable {malloc : Option Nat} {status : Status} {card : Card} {s : State} {m m' : ByteMem}
variable {pos buffer blkNb pbuf sector src dst i j n x : Nat}

-- --------
-- Commands
-- --------

/-- No sector of a request fails. -/
def AllGood (status : Status) (sector n : Nat) : Prop := ∀ i < n, status (sector + i) = successful

instance : Decidable (AllGood status sector n) := by
  unfold AllGood
  infer_instance

theorem allGood_succ :
    AllGood status sector (n + 1) ↔ status sector = successful ∧ AllGood status (sector + 1) n := by
  constructor
  · intro h
    refine ⟨h 0 (Nat.succ_pos n), fun i hi => ?_⟩
    rw [Nat.add_right_comm]
    exact h (i + 1) (Nat.succ_lt_succ hi)
  · rintro ⟨h, hrest⟩ i hi
    cases i with
    | zero => exact h
    | succ i =>
      rw [← Nat.add_assoc, Nat.add_right_comm]
      exact hrest i (Nat.lt_of_succ_lt_succ hi)

theorem putBlock_in {bytes : Nat → UInt8} (hj : j < sdhBlockSize) :
    putBlock m dst bytes (dst + j) = bytes j := by
  rw [putBlock, if_pos ⟨Nat.le_add_right _ _, Nat.add_lt_add_left hj dst⟩, Nat.add_sub_cancel_left]

theorem putBlock_out {bytes : Nat → UInt8} (hx : x < dst ∨ dst + sdhBlockSize ≤ x) :
    putBlock m dst bytes x = m x :=
  if_neg (by omega)

theorem putSector_in {bytes : Nat → UInt8} (hj : j < sdhBlockSize) :
    putSector card sector bytes sector j = bytes j :=
  if_pos ⟨rfl, hj⟩

theorem putSector_out {bytes : Nat → UInt8} (hx : x ≠ sector) :
    putSector card sector bytes x = card x :=
  funext fun _ => if_neg fun h => hx h.1

/-- Where the blocks behind the first one lie. -/
theorem next_block : dst + sdhBlockSize + sdhBlockSize * i + j = dst + sdhBlockSize * (i + 1) + j := by
  rw [Nat.mul_succ]
  omega

-- Reading --------------------------------------------------------------------

theorem readBlocks_ret :
    (readBlocks status card n m dst sector).1 = successful ↔ AllGood status sector n := by
  induction n generalizing m dst sector with
  | zero => exact iff_of_true rfl fun i hi => absurd hi (Nat.not_lt_zero i)
  | succ n ih =>
    rw [readBlocks, allGood_succ]
    by_cases h : status sector = successful
    · rw [if_neg (not_not.mpr h), ih]
      exact (and_iff_right h).symm
    · rw [if_pos h]
      exact iff_of_false h fun hc => h hc.1

theorem readBlocks_out (hx : x < dst ∨ dst + sdhBlockSize * n ≤ x) :
    (readBlocks status card n m dst sector).2 x = m x := by
  induction n generalizing m dst sector with
  | zero => rfl
  | succ n ih =>
    rw [Nat.mul_succ] at hx
    have hout : x < dst ∨ dst + sdhBlockSize ≤ x :=
      hx.imp_right (Nat.add_le_add_left (Nat.le_add_left _ _) dst).trans
    rw [readBlocks]
    split
    · rfl
    · rw [ih (by omega), putBlock_out hout]

/-- A command that does not fail puts each sector at its place. -/
theorem readBlocks_good (hgood : AllGood status sector n) (hi : i < n) (hj : j < sdhBlockSize) :
    (readBlocks status card n m dst sector).2 (dst + sdhBlockSize * i + j) =
      card (sector + i) j := by
  induction n generalizing m dst sector i with
  | zero => exact absurd hi (Nat.not_lt_zero i)
  | succ n ih =>
    obtain ⟨h, hrest⟩ := allGood_succ.mp hgood
    rw [readBlocks, if_neg (not_not.mpr h)]
    cases i with
    | zero =>
      rw [readBlocks_out (by omega), Nat.mul_zero, Nat.add_zero, putBlock_in hj, Nat.add_zero]
    | succ i =>
      have hstep : (readBlocks status card n (putBlock m dst (card sector)) (dst + sdhBlockSize)
          (sector + 1)).2 (dst + sdhBlockSize + sdhBlockSize * i + j) = card (sector + 1 + i) j :=
        ih hrest (Nat.lt_of_succ_lt_succ hi)
      rw [← next_block, show sector + (i + 1) = sector + 1 + i by omega]
      exact hstep

/-- The sector that fails is not put anywhere. -/
theorem readBlocks_bad (hbad : status (sector + i) ≠ successful) (hi : i < n) :
    (readBlocks status card n m dst sector).2 (dst + sdhBlockSize * i + j) =
      m (dst + sdhBlockSize * i + j) := by
  induction n generalizing m dst sector i with
  | zero => exact absurd hi (Nat.not_lt_zero i)
  | succ n ih =>
    rw [readBlocks]
    by_cases h : status sector = successful
    · rw [if_neg (not_not.mpr h)]
      cases i with
      | zero => exact absurd h hbad
      | succ i =>
        have hstep : (readBlocks status card n (putBlock m dst (card sector)) (dst + sdhBlockSize)
            (sector + 1)).2 (dst + sdhBlockSize + sdhBlockSize * i + j) =
            putBlock m dst (card sector) (dst + sdhBlockSize + sdhBlockSize * i + j) :=
          ih (by rwa [Nat.add_right_comm]) (Nat.lt_of_succ_lt_succ hi)
        have hout : dst + sdhBlockSize ≤ dst + sdhBlockSize * (i + 1) + j := by
          rw [Nat.mul_succ]
          omega
        rw [next_block] at hstep
        rw [hstep, putBlock_out (.inr hout)]
    · rw [if_pos h]

-- Writing --------------------------------------------------------------------

theorem writeBlocks_ret :
    (writeBlocks status m n card src sector).1 = successful ↔ AllGood status sector n := by
  induction n generalizing card src sector with
  | zero => exact iff_of_true rfl fun i hi => absurd hi (Nat.not_lt_zero i)
  | succ n ih =>
    rw [writeBlocks, allGood_succ]
    by_cases h : status sector = successful
    · rw [if_neg (not_not.mpr h), ih]
      exact (and_iff_right h).symm
    · rw [if_pos h]
      exact iff_of_false h fun hc => h hc.1

theorem writeBlocks_out (hx : x < sector ∨ sector + n ≤ x) :
    (writeBlocks status m n card src sector).2 x = card x := by
  induction n generalizing card src sector with
  | zero => rfl
  | succ n ih =>
    rw [writeBlocks]
    split
    · rfl
    · rw [ih (by omega), putSector_out (by omega)]

/-- A command that does not fail puts each block into its sector. -/
theorem writeBlocks_good (hgood : AllGood status sector n) (hi : i < n) (hj : j < sdhBlockSize) :
    (writeBlocks status m n card src sector).2 (sector + i) j =
      m (src + sdhBlockSize * i + j) := by
  induction n generalizing card src sector i with
  | zero => exact absurd hi (Nat.not_lt_zero i)
  | succ n ih =>
    obtain ⟨h, hrest⟩ := allGood_succ.mp hgood
    rw [writeBlocks, if_neg (not_not.mpr h)]
    cases i with
    | zero =>
      rw [writeBlocks_out (by omega), Nat.mul_zero, Nat.add_zero, putSector_in hj, Nat.add_zero]
    | succ i =>
      have hstep : (writeBlocks status m n (putSector card sector fun j => m (src + j))
          (src + sdhBlockSize) (sector + 1)).2 (sector + 1 + i) j =
          m (src + sdhBlockSize + sdhBlockSize * i + j) := ih hrest (Nat.lt_of_succ_lt_succ hi)
      rw [← next_block, show sector + (i + 1) = sector + 1 + i by omega]
      exact hstep

/-- The sector that fails is not written. -/
theorem writeBlocks_bad (hbad : status (sector + i) ≠ successful) (hi : i < n) :
    (writeBlocks status m n card src sector).2 (sector + i) = card (sector + i) := by
  induction n generalizing card src sector i with
  | zero => exact absurd hi (Nat.not_lt_zero i)
  | succ n ih =>
    rw [writeBlocks]
    by_cases h : status sector = successful
    · rw [if_neg (not_not.mpr h)]
      cases i with
      | zero => exact absurd h hbad
      | succ i =>
        have hstep : (writeBlocks status m n (putSector card sector fun j => m (src + j))
            (src + sdhBlockSize) (sector + 1)).2 (sector + 1 + i) =
            putSector card sector (fun j => m (src + j)) (sector + 1 + i) :=
          ih (by rwa [Nat.add_right_comm]) (Nat.lt_of_succ_lt_succ hi)
        rw [show sector + 1 + i = sector + (i + 1) by omega] at hstep
        rw [hstep, putSector_out (by omega)]
    · rw [if_pos h]

-- --------
-- The temporary buffer
-- --------

/-- Two memories agree but for the temporary buffer. -/
def Agree (pbuf : Nat) (m m' : ByteMem) : Prop :=
  ∀ x, x < pbuf ∨ pbuf + sdhBlockSize ≤ x → m x = m' x

theorem sdhRead_one : sdhRead status card m dst sector 1 =
    if status sector ≠ successful then (status sector, m)
    else (successful, putBlock m dst (card sector)) := rfl

theorem sdhWrite_one : sdhWrite status m card src sector 1 =
    if status sector ≠ successful then (status sector, card)
    else (successful, putSector card sector fun j => m (src + j)) := rfl

/-- **Reading through the temporary buffer** does what one command into the caller's buffer does;
by induction on the blocks. -/
theorem readLoop_eq (hapart : pbuf + sdhBlockSize ≤ dst ∨ dst + sdhBlockSize * n ≤ pbuf)
    (hagree : Agree pbuf m m') :
    (readLoop status card pbuf n successful m dst sector).1 =
        (readBlocks status card n m' dst sector).1 ∧
      Agree pbuf (readLoop status card pbuf n successful m dst sector).2
        (readBlocks status card n m' dst sector).2 := by
  induction n generalizing m m' dst sector with
  | zero => exact ⟨rfl, hagree⟩
  | succ n ih =>
    rw [Nat.mul_succ] at hapart
    rw [readLoop, readBlocks, sdhRead_one]
    by_cases h : status sector = successful
    · rw [if_neg (not_not.mpr h), if_neg (not_not.mpr h)]
      dsimp only
      rw [if_neg (not_not.mpr rfl)]
      refine ih (by omega) fun x hx => ?_
      by_cases hin : dst ≤ x ∧ x < dst + sdhBlockSize
      · obtain ⟨j, rfl⟩ := Nat.exists_eq_add_of_le hin.1
        have hj : j < sdhBlockSize := by omega
        rw [memcpy_dst hj, putBlock_in hj, putBlock_in hj]
      · rw [memcpy_out (by omega), putBlock_out hx, putBlock_out (by omega), hagree x hx]
    · rw [if_pos h, if_pos h]
      dsimp only
      rw [if_pos h]
      exact ⟨rfl, hagree⟩

/-- **Writing through the temporary buffer** does what one command from the caller's buffer
does. -/
theorem writeLoop_eq (hapart : pbuf + sdhBlockSize ≤ src ∨ src + sdhBlockSize * n ≤ pbuf)
    (hagree : Agree pbuf m m') :
    (writeLoop status pbuf n successful m card src sector).1 =
        (writeBlocks status m' n card src sector).1 ∧
      (writeLoop status pbuf n successful m card src sector).2.2 =
        (writeBlocks status m' n card src sector).2 := by
  induction n generalizing m card src sector with
  | zero => exact ⟨rfl, rfl⟩
  | succ n ih =>
    rw [Nat.mul_succ] at hapart
    rw [writeLoop, writeBlocks]
    dsimp only
    rw [sdhWrite_one]
    by_cases h : status sector = successful
    · rw [if_neg (not_not.mpr h), if_neg (not_not.mpr h)]
      dsimp only
      rw [if_neg (not_not.mpr rfl)]
      have hcopy : Agree pbuf (m.memcpy pbuf src sdhBlockSize) m' := fun x hx =>
        (memcpy_out hx).trans (hagree x hx)
      have hsector : putSector card sector (fun j => m.memcpy pbuf src sdhBlockSize (pbuf + j)) =
          putSector card sector fun j => m' (src + j) := by
        funext x j
        by_cases hj : j < sdhBlockSize
        · simp only [putSector, memcpy_dst hj, hagree (src + j) (by omega)]
        · rw [putSector, putSector, if_neg fun hc => hj hc.2, if_neg fun hc => hj hc.2]
      rw [hsector]
      exact ih (by omega) hcopy
    · rw [if_pos h, if_pos h]
      dsimp only
      rw [if_pos h]
      exact ⟨rfl, rfl⟩

-- --------
-- Requests
-- --------

/-- **A read**, when it has the buffer it needs: what it returns and what it leaves in the caller's
buffer are what one command would. -/
theorem nuSdhRead_eq (hapart : Apart malloc buffer blkNb) (hbuf : HasBuffer malloc buffer blkNb)
    (s : State) :
    (nuSdhRead malloc status s pos buffer blkNb).1 =
        (if (readBlocks status s.card blkNb s.mem buffer pos).1 = successful then blkNb else 0) ∧
      ∀ i < blkNb, ∀ j < sdhBlockSize,
        (nuSdhRead malloc status s pos buffer blkNb).2.mem (buffer + sdhBlockSize * i + j) =
          (readBlocks status s.card blkNb s.mem buffer pos).2 (buffer + sdhBlockSize * i + j) := by
  cases blkNb with
  | zero =>
    refine ⟨?_, fun i hi => absurd hi (Nat.not_lt_zero i)⟩
    unfold nuSdhRead
    split
    · split <;> rfl
    · rfl
  | succ n =>
    unfold nuSdhRead
    split
    next hodd =>
      rcases hbuf with heven | hsome | hzero
      · exact absurd heven hodd
      · obtain ⟨pbuf, rfl⟩ := Option.isSome_iff_exists.mp hsome
        have hpbuf := hapart pbuf rfl
        obtain ⟨hret, hmem⟩ := readLoop_eq hpbuf
          (fun x _ => rfl : Agree pbuf s.mem s.mem)
        dsimp only [exitSdh]
        rw [hret]
        refine ⟨rfl, fun i hi j hj => hmem _ ?_⟩
        have hblock : sdhBlockSize * i + sdhBlockSize ≤ sdhBlockSize * (n + 1) :=
          Nat.mul_le_mul_left sdhBlockSize hi
        omega
      · exact absurd hzero (Nat.succ_ne_zero n)
    next => exact ⟨rfl, fun i _ j _ => rfl⟩

/-- **A write**, when it has the buffer it needs. -/
theorem nuSdhWrite_eq (hapart : Apart malloc buffer blkNb) (hbuf : HasBuffer malloc buffer blkNb)
    (s : State) :
    (nuSdhWrite malloc status s pos buffer blkNb).1 =
        (if (writeBlocks status s.mem blkNb s.card buffer pos).1 = successful then blkNb else 0) ∧
      ∀ i < blkNb, (nuSdhWrite malloc status s pos buffer blkNb).2.card (pos + i) =
        (writeBlocks status s.mem blkNb s.card buffer pos).2 (pos + i) := by
  cases blkNb with
  | zero =>
    refine ⟨?_, fun i hi => absurd hi (Nat.not_lt_zero i)⟩
    unfold nuSdhWrite
    split
    · split <;> rfl
    · rfl
  | succ n =>
    unfold nuSdhWrite
    split
    next hodd =>
      rcases hbuf with heven | hsome | hzero
      · exact absurd heven hodd
      · obtain ⟨pbuf, rfl⟩ := Option.isSome_iff_exists.mp hsome
        obtain ⟨hret, hcard⟩ := writeLoop_eq
          (hapart pbuf rfl) (fun x _ => rfl : Agree pbuf s.mem s.mem)
        dsimp only [exitSdh]
        rw [hret, hcard]
        exact ⟨rfl, fun i _ => rfl⟩
      · exact absurd hzero (Nat.succ_ne_zero n)
    next => exact ⟨rfl, fun i _ => rfl⟩

/-- What is returned depends on the sectors alone. -/
theorem nuSdhRead_ret (hapart : Apart malloc buffer blkNb) (hbuf : HasBuffer malloc buffer blkNb)
    (s : State) : (nuSdhRead malloc status s pos buffer blkNb).1 =
      if AllGood status pos blkNb then blkNb else 0 := by
  rw [(nuSdhRead_eq hapart hbuf s).1]
  exact if_congr readBlocks_ret rfl rfl

theorem nuSdhWrite_ret (hapart : Apart malloc buffer blkNb) (hbuf : HasBuffer malloc buffer blkNb)
    (s : State) : (nuSdhWrite malloc status s pos buffer blkNb).1 =
      if AllGood status pos blkNb then blkNb else 0 := by
  rw [(nuSdhWrite_eq hapart hbuf s).1]
  exact if_congr writeBlocks_ret rfl rfl

/-- A read moves every block exactly if no sector fails. -/
theorem readMoves_iff (hapart : Apart malloc buffer blkNb)
    (hbuf : HasBuffer malloc buffer blkNb) :
    ReadMoves malloc status pos buffer blkNb ↔ AllGood status pos blkNb := by
  constructor
  · -- a sector of ones that fails leaves the zeros in its place
    intro hmoves i hi
    by_contra hbad
    have hdata := hmoves ⟨none, fun _ => 0, fun _ _ => 1⟩ i hi 0 (by decide)
    rw [(nuSdhRead_eq hapart hbuf _).2 i hi 0 (by decide), readBlocks_bad hbad hi] at hdata
    exact absurd hdata (by simp)
  · intro hgood s i hi j hj
    rw [(nuSdhRead_eq hapart hbuf s).2 i hi j hj, readBlocks_good hgood hi hj]

/-- A write moves every block exactly if no sector fails. -/
theorem writeMoves_iff (hapart : Apart malloc buffer blkNb)
    (hbuf : HasBuffer malloc buffer blkNb) :
    WriteMoves malloc status pos buffer blkNb ↔ AllGood status pos blkNb := by
  constructor
  · intro hmoves i hi
    by_contra hbad
    have hdata := hmoves ⟨none, fun _ => 0, fun _ _ => 1⟩ i hi 0 (by decide)
    rw [(nuSdhWrite_eq hapart hbuf _).2 i hi, writeBlocks_bad hbad hi] at hdata
    exact absurd hdata (by simp)
  · intro hgood s i hi j hj
    rw [(nuSdhWrite_eq hapart hbuf s).2 i hi, writeBlocks_good hgood hi hj]

theorem allGood_zero : AllGood status sector 0 := fun i hi => absurd hi (Nat.not_lt_zero i)

theorem tells_allGood {moved : Prop} (hmoved : moved ↔ AllGood status pos blkNb) :
    Tells blkNb (if AllGood status pos blkNb then blkNb else 0) moved := by
  by_cases h : AllGood status pos blkNb
  · rw [if_pos h]
    exact ⟨iff_of_true rfl (hmoved.mpr h), fun hno => absurd (hmoved.mpr h) hno⟩
  · have hpos : blkNb ≠ 0 := by
      rintro rfl
      exact h allGood_zero
    rw [if_neg h]
    exact ⟨iff_of_false (Ne.symm hpos) fun hm => h (hmoved.mp hm), fun _ => rfl⟩

-- No temporary buffer --------------------------------------------------------

theorem not_hasBuffer (h : ¬ HasBuffer malloc buffer blkNb) :
    buffer &&& 3 ≠ 0 ∧ malloc = none ∧ blkNb ≠ 0 := by
  rw [HasBuffer, not_or, not_or] at h
  exact ⟨h.1, Option.not_isSome_iff_eq_none.mp h.2.1, h.2.2⟩

/-- The block count is returned although nothing was read. -/
theorem nuSdhRead_none (hodd : buffer &&& 3 ≠ 0) (s : State) :
    nuSdhRead none status s pos buffer blkNb = (blkNb, { s with pbuf := none }) := by
  unfold nuSdhRead
  rw [if_pos hodd]
  rfl

theorem nuSdhWrite_none (hodd : buffer &&& 3 ≠ 0) (s : State) :
    nuSdhWrite none status s pos buffer blkNb = (blkNb, { s with pbuf := none }) := by
  unfold nuSdhWrite
  rw [if_pos hodd]
  rfl

theorem not_readMoves (hodd : buffer &&& 3 ≠ 0) (hpos : blkNb ≠ 0) :
    ¬ ReadMoves none status pos buffer blkNb := by
  intro h
  have hdata := h ⟨none, fun _ => 0, fun _ _ => 1⟩ 0 (Nat.pos_of_ne_zero hpos) 0 (by decide)
  rw [nuSdhRead_none hodd] at hdata
  exact absurd hdata (by simp)

theorem not_writeMoves (hodd : buffer &&& 3 ≠ 0) (hpos : blkNb ≠ 0) :
    ¬ WriteMoves none status pos buffer blkNb := by
  intro h
  have hdata := h ⟨none, fun _ => 0, fun _ _ => 1⟩ 0 (Nat.pos_of_ne_zero hpos) 0 (by decide)
  rw [nuSdhWrite_none hodd] at hdata
  exact absurd hdata (by simp)

-- --------
-- Every request
-- --------

end RTThread.Sdh
