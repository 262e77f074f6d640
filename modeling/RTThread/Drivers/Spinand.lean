import RTThread.Rtdef
import RTThread.Lib.Runs
import Mathlib.Algebra.Order.Ring.Nat
import Mathlib.Logic.Function.Basic

/-!
# Bad blocks of a SPI NAND flash (`spinand.c`, `drv_spinand.c`)

A block is bad if the first spare byte of its first or its second page is not `0xFF`. What the chip
does is given with each command: a program clears bits, those it was given or, where it fails,
any; an erase sets a block, or leaves anything where it fails.

The check looks at the second page where the page address is a multiple of the size of a block in
bytes, not in pages. The execution of a program reports a failed erase, not a failed program.

`spinand_bad_blocks`: in a run, bad blocks are reported and kept, and marked ones stay so, if and only
if its reads go through where it matters, the block whose second page alone has the marker is a
multiple of the page size, and a failed program that is taken for a good one has cleared a bit of
the marker.
-/

namespace RTThread.Spinand

-- --------
-- The chip
-- --------

/-- The bytes of a page by their columns. -/
abbrev Page := Nat → UInt8

/-- `struct nu_spinand_info`. The chip takes pages of 24 bits; each chip of the list has one die. -/
structure Geometry where
  pageSize : Nat
  oobSize : Nat
  pagePerBlock : Nat
  blockPerFlash : Nat
  page_pos : 0 < pageSize
  page_small : pageSize < 2 ^ 16
  two_pages : 1 < pagePerBlock
  block_small : pagePerBlock * pageSize < 2 ^ 32
  flash_small : blockPerFlash * pagePerBlock ≤ 2 ^ 24

/-- The commands that name a page. -/
inductive Cmd
  | read (page : Nat)
  | program (page : Nat)
  | erase (page : Nat)
deriving DecidableEq

def Cmd.isErase : Cmd → Bool
  | .erase _ => true
  | _ => false

/-- The pages, and the commands so far. -/
structure Chip where
  pages : Nat → Page
  cmds : List Cmd

inductive Err
  | eok
  | error
  | eio
  | eecc
deriving DecidableEq

/-- How a page is read: whether the command goes through in time, the third status register, and
whether the bytes are received. -/
structure Reading where
  loaded : Bool
  sr : UInt8
  received : Bool

/-- `spinand_hwecc_status_get` -/
def Reading.hwecc (r : Reading) : UInt8 := (r.sr &&& 0x30) >>> 4

/-- What `spinand_read_dataload` returns. -/
def Reading.dataload (r : Reading) : Err :=
  if r.loaded = false then .eio
  else if r.hwecc ≠ 0x00 ∧ r.hwecc ≠ 0x01 then .eecc
  else .eok

/-- The assertions behind a read hold. -/
def Reading.Ok (r : Reading) : Prop := r.dataload = .eok ∧ r.received = true

instance (r : Reading) : Decidable r.Ok := instDecidableAnd

/-- How a command ends that changes the flash: whether it goes through, whether the chip is ready in
time, and its third status register. -/
structure Reply where
  taken : Bool
  ready : Bool
  sr : UInt8

/-- `spinand_program_erase_isfail`: the bits of a failed erase and of a failed program. -/
def Reply.isfail (r : Reply) : UInt8 := (r.sr &&& 0x0C) >>> 2

/-- The chip says that a program has failed. -/
def Reply.PFail (r : Reply) : Prop := r.sr &&& 0x08 ≠ 0

/-- The chip says that an erase has failed. -/
def Reply.EFail (r : Reply) : Prop := r.sr &&& 0x04 ≠ 0

instance (r : Reply) : Decidable r.PFail := instDecidableNot

instance (r : Reply) : Decidable r.EFail := instDecidableNot

/-- A program, with the bits it leaves if it fails. -/
structure ProgramRun extends Reply where
  kept : Page

/-- An erase: whether writing could be enabled, and what it leaves if it fails. -/
structure EraseRun extends Reply where
  enabled : Bool
  left : Nat → Page

namespace Chip

variable (c : Chip)

/-- The chip programs a page: bits are only cleared. -/
def programmed (page : Nat) (cache : Page) (r : ProgramRun) : Chip where
  pages := Function.update c.pages page fun col => c.pages page col &&&
    if r.taken ∧ r.ready ∧ ¬ r.PFail then cache col else r.kept col
  cmds := c.cmds ++ [.program page]

/-- The chip erases the block of a page. -/
def erased (g : Geometry) (page : Nat) (r : EraseRun) : Chip where
  pages p :=
    if p / g.pagePerBlock = page / g.pagePerBlock then
      if r.taken ∧ r.ready ∧ ¬ r.EFail then fun _ => 0xFF else r.left p
    else c.pages p
  cmds := c.cmds ++ [.erase page]

/-- The erases so far. -/
def erases : List Cmd := c.cmds.filter Cmd.isErase

end Chip

-- --------
-- The code
-- --------

/-- The page that three address bytes say. -/
def addr24 (page : Nat) : Nat := page % 2 ^ 24

/-- A pass of `spinand_block_isbad`: the first spare byte of a page. -/
def readMark (g : Geometry) (c : Chip) (page : Nat) (r : Reading) : Except Fault UInt8 × Chip :=
  (if r.Ok then .ok (c.pages (addr24 page) g.pageSize) else .error .assertion,
    { c with cmds := c.cmds ++ [.read (addr24 page)] })

/-- `spinand_block_isbad`. The page behind a multiple of the size of a block is not one, so that there
are at most two passes. -/
def blockIsbad (g : Geometry) (c : Chip) (page : Nat) (r₁ r₂ : Reading) :
    Except Fault Bool × Chip :=
  match readMark g c page r₁ with
  | (.error f, c) => (.error f, c)
  | (.ok mark, c) =>
    if mark ≠ 0xFF then (.ok true, c)
    else if page % Word32.mul g.pagePerBlock g.pageSize = 0 then
      match readMark g c (Word32.add page 1) r₂ with
      | (.error f, c) => (.error f, c)
      | (.ok mark, c) => (.ok (mark != 0xFF), c)
    else (.ok false, c)

/-- `spinand_block_erase` -/
def blockErase (g : Geometry) (c : Chip) (page : Nat) (r : EraseRun) : Err × Chip :=
  if r.enabled = false then (.eio, c)
  else
    (if r.taken = false then .eio else if r.ready = false then .eio
      else if r.isfail ≠ 0 then .error else .eok, c.erased g (addr24 page) r)

/-- `spinand_program_execute` -/
def programExecute (c : Chip) (page : Nat) (cache : Page) (r : ProgramRun) : Err × Chip :=
  (if r.taken = false then .eio else if r.ready = false then .eio
    else if r.isfail = 1 then .eio else .eok, c.programmed (addr24 page) cache r)

/-- The cache behind the load of the marker. -/
def markerCache (g : Geometry) : Page := fun col => if col = g.pageSize then 0xF0 else 0xFF

/-- `spinand_block_markbad` -/
def blockMarkbad (g : Geometry) (c : Chip) (page : Nat) (er : EraseRun) (loaded : Bool)
    (pr : ProgramRun) : Err × Chip :=
  let (result, c) := blockErase g c page er
  if result ≠ .eok then (result, c)
  else if loaded = false then (.eio, c)
  else programExecute c page (markerCache g) pr

/-- `struct rt_mtd_nand_device`: a range of blocks. -/
structure Device (g : Geometry) where
  blockStart : Nat
  blockEnd : Nat
  blockTotal : Nat
  start_le : blockStart ≤ blockEnd
  end_lt : blockEnd < g.blockPerFlash
  total_small : blockTotal < 2 ^ 16

variable {g : Geometry}

/-- `spinand_check_block` -/
def spinandCheckBlock (d : Device g) (c : Chip) (block : Nat) (r₁ r₂ : Reading) :
    Except Fault Err × Chip :=
  if d.blockEnd < block then (.ok .eio, c)
  else
    match blockIsbad g c (Word32.mul block g.pagePerBlock) r₁ r₂ with
    | (.error f, c) => (.error f, c)
    | (.ok isbad, c) => (.ok (if isbad = false then .eok else .error), c)

/-- `spinand_erase_block` -/
def spinandEraseBlock (d : Device g) (c : Chip) (block : Nat) (r₁ r₂ : Reading) (er : EraseRun) :
    Except Fault Err × Chip :=
  if d.blockEnd < block then (.ok .eio, c)
  else
    match blockIsbad g c (Word32.mul block g.pagePerBlock) r₁ r₂ with
    | (.error f, c) => (.error f, c)
    | (.ok true, c) => (.ok .error, c)
    | (.ok false, c) =>
      let (result, c) := blockErase g c (Word32.mul block g.pagePerBlock) er
      (.ok result, c)

/-- `spinand_mark_badblock` -/
def spinandMarkBadblock (d : Device g) (c : Chip) (block : Nat) (r₁ r₂ : Reading) (er : EraseRun)
    (loaded : Bool) (pr : ProgramRun) : Except Fault Err × Chip :=
  if d.blockEnd < block then (.ok .eio, c)
  else
    match blockIsbad g c (Word32.mul block g.pagePerBlock) r₁ r₂ with
    | (.error f, c) => (.error f, c)
    | (.ok true, c) => (.ok .eok, c)
    | (.ok false, c) =>
      let (result, c) := blockMarkbad g c (Word32.mul block g.pagePerBlock) er loaded pr
      (.ok result, c)

/-- The cache behind the load of `spinand_write_page`; no data and no spare are empty lists. -/
def writeCache (g : Geometry) (data spare : List UInt8) : Page := fun col =>
  if data ≠ [] then ((data ++ spare)[col]?).getD 0xFF
  else if g.pageSize ≤ col then (spare[col - g.pageSize]?).getD 0xFF else 0xFF

/-- `spinand_write_page` -/
def spinandWritePage (d : Device g) (c : Chip) (page : Nat) (data spare : List UInt8)
    (loaded : Bool) (pr : ProgramRun) : Err × Chip :=
  if d.blockEnd < page / g.pagePerBlock then (.eio, c)
  else if loaded = false then (.eio, c)
  else programExecute c page (writeCache g data spare) pr

-- --------
-- Runs
-- --------

/-- A call, with what the chip does. -/
inductive Op
  | check (block : Nat) (r₁ r₂ : Reading)
  | mark (block : Nat) (r₁ r₂ : Reading) (er : EraseRun) (loaded : Bool) (pr : ProgramRun)
  | erase (block : Nat) (r₁ r₂ : Reading) (er : EraseRun)
  | write (page : Nat) (data spare : List UInt8) (loaded : Bool) (pr : ProgramRun)

/-- The chip, and the blocks that `spinand_mark_badblock` has returned `RT_EOK` for. -/
structure State where
  chip : Chip
  marked : List Nat

/-- A call; behind a failed assertion there is none. -/
def exec (d : Device g) (s : State) : Op → Option State
  | .check block r₁ r₂ =>
    match spinandCheckBlock d s.chip block r₁ r₂ with
    | (.error _, _) => none
    | (.ok _, c) => some { s with chip := c }
  | .mark block r₁ r₂ er loaded pr =>
    match spinandMarkBadblock d s.chip block r₁ r₂ er loaded pr with
    | (.error _, _) => none
    | (.ok result, c) =>
      some ⟨c, if result = .eok then block :: s.marked else s.marked⟩
  | .erase block r₁ r₂ er =>
    match spinandEraseBlock d s.chip block r₁ r₂ er with
    | (.error _, _) => none
    | (.ok _, c) => some { s with chip := c }
  | .write page data spare loaded pr =>
    some { s with chip := (spinandWritePage d s.chip page data spare loaded pr).2 }

/-- The first spare byte of a page of a block. -/
def Chip.marker (g : Geometry) (c : Chip) (block i : Nat) : UInt8 :=
  c.pages (block * g.pagePerBlock + i) g.pageSize

/-- The first or the second page has a marker. -/
def Carries (g : Geometry) (c : Chip) (block : Nat) : Prop :=
  c.marker g block 0 ≠ 0xFF ∨ c.marker g block 1 ≠ 0xFF

/-- A check whose reads go through finds the block bad. -/
def Reported (d : Device g) (c : Chip) (block : Nat) : Prop :=
  ∀ r₁ r₂ : Reading, r₁.Ok → r₂.Ok → (spinandCheckBlock d c block r₁ r₂).1 = .ok .error

/-- **What is asked of a call.** -/
def Good (d : Device g) (s : State) : Op → Prop
  | .check block r₁ r₂ => block ≤ d.blockEnd → Carries g s.chip block ∨ block ∈ s.marked →
    (spinandCheckBlock d s.chip block r₁ r₂).1 = .ok .error
  | .mark block r₁ r₂ er loaded pr =>
    (spinandMarkBadblock d s.chip block r₁ r₂ er loaded pr).1 = .ok .eok →
      Reported d (spinandMarkBadblock d s.chip block r₁ r₂ er loaded pr).2 block
  | .erase block r₁ r₂ er => block ≤ d.blockEnd → Carries g s.chip block →
    (spinandEraseBlock d s.chip block r₁ r₂ er).2.erases = s.chip.erases
  | .write .. => True

/-- **The condition** on a call, with the chip before it. -/
def Cond (d : Device g) (s : State) : Op → Prop
  | .check block r₁ r₂ => block ≤ d.blockEnd → Carries g s.chip block ∨ block ∈ s.marked →
    r₁.Ok ∧ (s.chip.marker g block 0 = 0xFF → block % g.pageSize = 0 ∧ r₂.Ok)
  | .mark block r₁ r₂ er loaded pr => block ≤ d.blockEnd → r₁.Ok →
    s.chip.marker g block 0 = 0xFF →
    (block % g.pageSize = 0 → r₂.Ok ∧ s.chip.marker g block 1 = 0xFF) →
    er.enabled = true ∧ er.taken = true ∧ er.ready = true ∧ er.isfail = 0 → loaded = true →
    pr.taken = true ∧ pr.ready = true ∧ pr.isfail ≠ 1 → pr.PFail → pr.kept g.pageSize ≠ 0xFF
  | .erase block r₁ _ er => block ≤ d.blockEnd → Carries g s.chip block → r₁.Ok →
    s.chip.marker g block 0 = 0xFF → er.enabled = true → block % g.pageSize = 0
  | .write .. => True

-- --------
-- The check
-- --------

variable {d : Device g} {c : Chip} {s s' : State} {block page : Nat} {r₁ r₂ : Reading}
  {er : EraseRun} {pr : ProgramRun} {loaded : Bool}

theorem Device.page_lt (hb : block ≤ d.blockEnd) : block * g.pagePerBlock + 1 < 2 ^ 24 := by
  have hend := d.end_lt
  have hflash := g.flash_small
  have htwo := g.two_pages
  have hmul := Nat.mul_le_mul_right g.pagePerBlock (show block + 1 ≤ g.blockPerFlash by omega)
  rw [Nat.succ_mul] at hmul
  omega

/-- The blocks of a device are numbers of 24 bits. -/
theorem Device.bounds (d : Device g) : d.blockStart ≤ d.blockEnd ∧ d.blockEnd < 2 ^ 24 := by
  have hlt := Device.page_lt (Nat.le_refl d.blockEnd)
  have htwo := g.two_pages
  have hmul : d.blockEnd ≤ d.blockEnd * g.pagePerBlock := Nat.le_mul_of_pos_right _ (by omega)
  exact ⟨d.start_le, by omega⟩

theorem addr24_of_lt (h : page < 2 ^ 24) : addr24 page = page := Nat.mod_eq_of_lt h

theorem Device.page_eq (hb : block ≤ d.blockEnd) :
    Word32.mul block g.pagePerBlock = block * g.pagePerBlock := by
  have hlt := Device.page_lt hb
  exact Word32.mul_of_lt (by omega)

theorem Device.mod_eq (hb : block ≤ d.blockEnd) :
    Word32.mul block g.pagePerBlock % Word32.mul g.pagePerBlock g.pageSize = 0 ↔
      block % g.pageSize = 0 := by
  have htwo := g.two_pages
  rw [Device.page_eq hb, Word32.mul_of_lt g.block_small, Nat.mul_comm block, Nat.mul_mod_mul_left,
    Nat.mul_eq_zero]
  exact or_iff_right (by omega)

/-- **What the check of a block says.** -/
theorem blockIsbad_fst (hb : block ≤ d.blockEnd) :
    (blockIsbad g c (Word32.mul block g.pagePerBlock) r₁ r₂).1 =
      if r₁.Ok then
        if c.marker g block 0 ≠ 0xFF then .ok true
        else if block % g.pageSize = 0 then
          if r₂.Ok then .ok (c.marker g block 1 != 0xFF) else .error .assertion
        else .ok false
      else .error .assertion := by
  have hlt := Device.page_lt hb
  have h0 : addr24 (Word32.mul block g.pagePerBlock) = block * g.pagePerBlock + 0 := by
    rw [Device.page_eq hb, addr24_of_lt (by omega)]
    rfl
  have h1 : addr24 (Word32.add (Word32.mul block g.pagePerBlock) 1) =
      block * g.pagePerBlock + 1 := by
    rw [Device.page_eq hb, Word32.add_of_lt (by omega), addr24_of_lt hlt]
  unfold blockIsbad readMark
  simp only [h0, h1, Device.mod_eq hb]
  by_cases hr₁ : r₁.Ok
  · simp only [if_pos hr₁]
    change (if c.marker g block 0 ≠ 0xFF then _ else _ : Except Fault Bool × Chip).1 = _
    by_cases hm : c.marker g block 0 ≠ 0xFF
    · rw [if_pos hm, if_pos hm]
    · rw [if_neg hm, if_neg hm]
      by_cases hmod : block % g.pageSize = 0
      · rw [if_pos hmod, if_pos hmod]
        by_cases hr₂ : r₂.Ok
        · simp only [if_pos hr₂]
          rfl
        · simp only [if_neg hr₂]
      · rw [if_neg hmod, if_neg hmod]
  · simp only [if_neg hr₁]

/-- A check reads the first page, and perhaps the second. -/
theorem blockIsbad_snd {c : Chip} :
    ∃ reads, (reads = [.read (addr24 page)] ∨
        reads = [.read (addr24 page), .read (addr24 (Word32.add page 1))]) ∧
      (blockIsbad g c page r₁ r₂).2 = { c with cmds := c.cmds ++ reads } := by
  unfold blockIsbad readMark
  by_cases hr₁ : r₁.Ok
  · simp only [if_pos hr₁]
    by_cases hm : c.pages (addr24 page) g.pageSize ≠ 0xFF
    · rw [if_pos hm]
      exact ⟨_, Or.inl rfl, rfl⟩
    · rw [if_neg hm]
      split
      · by_cases hr₂ : r₂.Ok
        · simp only [if_pos hr₂]
          exact ⟨_, Or.inr rfl, by simp⟩
        · simp only [if_neg hr₂]
          exact ⟨_, Or.inr rfl, by simp⟩
      · exact ⟨_, Or.inl rfl, rfl⟩
  · simp only [if_neg hr₁]
    exact ⟨_, Or.inl rfl, rfl⟩

theorem blockIsbad_pages : (blockIsbad g c page r₁ r₂).2.pages = c.pages := by
  obtain ⟨reads, -, heq⟩ := @blockIsbad_snd g page r₁ r₂ c
  rw [heq]

theorem blockIsbad_erases : (blockIsbad g c page r₁ r₂).2.erases = c.erases := by
  obtain ⟨reads, hreads, heq⟩ := @blockIsbad_snd g page r₁ r₂ c
  have hnil : reads.filter Cmd.isErase = [] := by
    rcases hreads with rfl | rfl
    · rfl
    · rfl
  rw [heq, Chip.erases, List.filter_append, hnil, List.append_nil]
  rfl

/-- The check finds a block bad. -/
def Seen (g : Geometry) (c : Chip) (block : Nat) : Prop :=
  c.marker g block 0 ≠ 0xFF ∨ block % g.pageSize = 0 ∧ c.marker g block 1 ≠ 0xFF

/-- **When a block is reported.** -/
theorem check_iff (hb : block ≤ d.blockEnd) :
    (spinandCheckBlock d c block r₁ r₂).1 = .ok .error ↔ r₁.Ok ∧ Seen g c block ∧
      (c.marker g block 0 = 0xFF → r₂.Ok) := by
  have hfst := @blockIsbad_fst _ _ c _ r₁ r₂ hb
  unfold spinandCheckBlock
  rw [if_neg (Nat.not_lt.2 hb)]
  generalize blockIsbad g c (Word32.mul block g.pagePerBlock) r₁ r₂ = res at hfst ⊢
  obtain ⟨res, c'⟩ := res
  dsimp only at hfst
  subst hfst
  unfold Seen
  by_cases hr₁ : r₁.Ok
  · by_cases hm : c.marker g block 0 = 0xFF
    · by_cases hmod : block % g.pageSize = 0
      · by_cases hr₂ : r₂.Ok
        · by_cases hm' : c.marker g block 1 = 0xFF
          · simp [hr₁, hm, hmod, hr₂, hm']
          · simp [hr₁, hm, hmod, hr₂, hm']
        · simp [hr₁, hm, hmod, hr₂]
      · simp [hr₁, hm, hmod]
    · simp [hr₁, hm]
  · simp [hr₁]

theorem reported_iff : Reported d c block ↔ block ≤ d.blockEnd ∧ Seen g c block := by
  constructor
  · intro hall
    have hok : (⟨true, 0, true⟩ : Reading).Ok := by decide
    have hres := hall _ _ hok hok
    by_cases hb : block ≤ d.blockEnd
    · exact ⟨hb, ((check_iff hb).1 hres).2.1⟩
    · rw [spinandCheckBlock, if_pos (Nat.lt_of_not_le hb)] at hres
      cases hres
  · rintro ⟨hb, hseen⟩ r₁ r₂ hr₁ hr₂
    exact (check_iff hb).2 ⟨hr₁, hseen, fun _ => hr₂⟩

-- --------
-- What the chip does to a marker
-- --------

theorem page_div {b i : Nat} (hi : i < 2) : (b * g.pagePerBlock + i) / g.pagePerBlock = b := by
  have htwo := g.two_pages
  rw [Nat.mul_comm, Nat.mul_add_div (by omega), Nat.div_eq_of_lt (by omega), Nat.add_zero]

theorem marker_erased {b i : Nat} (hi : i < 2) (hne : b ≠ page / g.pagePerBlock) :
    (c.erased g page er).marker g b i = c.marker g b i := by
  unfold Chip.marker Chip.erased
  dsimp only
  rw [page_div hi, if_neg hne]

theorem marker_erased_self {b i : Nat} (hi : i < 2) (hb : b = page / g.pagePerBlock)
    (hok : er.taken = true ∧ er.ready = true ∧ ¬ er.EFail) :
    (c.erased g page er).marker g b i = 0xFF := by
  unfold Chip.marker Chip.erased
  dsimp only
  rw [page_div hi, if_pos hb, if_pos hok]

theorem and_ne_of_ne {a b : UInt8} (h : a ≠ 0xFF) : a &&& b ≠ 0xFF := by
  intro hab
  have hle : (a &&& b).toNat ≤ a.toNat := by
    rw [UInt8.toNat_and]
    exact Nat.and_le_left
  have ha := a.toNat_lt
  rw [hab] at hle
  have h255 : (0xFF : UInt8).toNat = 255 := rfl
  exact h (UInt8.toNat_inj.1 (by omega))

theorem ff_and (a : UInt8) : 0xFF &&& a = a := by
  have ha := a.toNat_lt
  have h255 : (0xFF : UInt8).toNat = 2 ^ 8 - 1 := rfl
  refine UInt8.toNat_inj.1 ?_
  rw [UInt8.toNat_and, h255, Nat.and_comm, Nat.and_two_pow_sub_one_eq_mod, Nat.mod_eq_of_lt ha]

/-- A program does not take a marker away. -/
theorem marker_programmed {cache : Page} {b i : Nat} (h : c.marker g b i ≠ 0xFF) :
    (c.programmed page cache pr).marker g b i ≠ 0xFF := by
  unfold Chip.marker Chip.programmed
  dsimp only
  by_cases hp : b * g.pagePerBlock + i = page
  · rw [hp, Function.update_self]
    refine and_ne_of_ne ?_
    rw [← hp]
    exact h
  · rw [Function.update_of_ne hp]
    exact h

theorem marker_programmed_ne {cache : Page} {b i : Nat} (hne : b * g.pagePerBlock + i ≠ page) :
    (c.programmed page cache pr).marker g b i = c.marker g b i := by
  unfold Chip.marker Chip.programmed
  dsimp only
  rw [Function.update_of_ne hne]

theorem marker_programmed_self {cache : Page} {b i : Nat} (heq : b * g.pagePerBlock + i = page) :
    (c.programmed page cache pr).marker g b i = c.marker g b i &&&
      if pr.taken ∧ pr.ready ∧ ¬ pr.PFail then cache g.pageSize else pr.kept g.pageSize := by
  unfold Chip.marker Chip.programmed
  dsimp only
  rw [heq, Function.update_self]

theorem Seen.programmed {cache : Page} (h : Seen g c block) :
    Seen g (c.programmed page cache pr) block := by
  rcases h with h | ⟨hmod, h⟩
  · exact Or.inl (marker_programmed h)
  · exact Or.inr ⟨hmod, marker_programmed h⟩

theorem Seen.erased (h : Seen g c block) (hne : block ≠ page / g.pagePerBlock) :
    Seen g (c.erased g page er) block := by
  unfold Seen
  rw [marker_erased (by decide) hne, marker_erased (by decide) hne]
  exact h

theorem Seen.of_pages {c' : Chip} (h : Seen g c block) (hpages : c'.pages = c.pages) :
    Seen g c' block := by
  unfold Seen Chip.marker at h ⊢
  rw [hpages]
  exact h

theorem Reply.not_efail {r : Reply} (h : r.isfail = 0) : ¬ r.EFail := by
  have hbits : ∀ n < 256, (UInt8.ofNat n &&& 0x0C) >>> 2 = 0 → UInt8.ofNat n &&& 0x04 = 0 := by
    decide +kernel
  have hsr := hbits r.sr.toNat r.sr.toNat_lt
  rw [UInt8.ofNat_toNat] at hsr
  exact not_not.2 (hsr h)

-- --------
-- The calls
-- --------

theorem isbad_true_iff (hb : block ≤ d.blockEnd) :
    (blockIsbad g c (Word32.mul block g.pagePerBlock) r₁ r₂).1 = .ok true ↔
      r₁.Ok ∧ Seen g c block ∧ (c.marker g block 0 = 0xFF → r₂.Ok) := by
  rw [← check_iff hb, spinandCheckBlock, if_neg (Nat.not_lt.2 hb)]
  generalize blockIsbad g c (Word32.mul block g.pagePerBlock) r₁ r₂ = res
  obtain ⟨res, c'⟩ := res
  cases res with
  | error f => simp
  | ok isbad =>
    cases isbad with
    | false => simp
    | true => simp

/-- A block that is taken for a good one. -/
theorem isbad_false_iff (hb : block ≤ d.blockEnd) :
    (blockIsbad g c (Word32.mul block g.pagePerBlock) r₁ r₂).1 = .ok false ↔
      r₁.Ok ∧ c.marker g block 0 = 0xFF ∧
        (block % g.pageSize = 0 → r₂.Ok ∧ c.marker g block 1 = 0xFF) := by
  rw [blockIsbad_fst hb]
  by_cases hr₁ : r₁.Ok
  · by_cases hm : c.marker g block 0 = 0xFF
    · by_cases hmod : block % g.pageSize = 0
      · by_cases hr₂ : r₂.Ok
        · by_cases hm' : c.marker g block 1 = 0xFF
          · simp [hr₁, hm, hmod, hr₂, hm']
          · simp [hr₁, hm, hmod, hr₂, hm']
        · simp [hr₁, hm, hmod, hr₂]
      · simp [hr₁, hm, hmod]
    · simp [hr₁, hm]
  · simp [hr₁]

theorem Seen.not_good (h : Seen g c block) (hb : block ≤ d.blockEnd) :
    (blockIsbad g c (Word32.mul block g.pagePerBlock) r₁ r₂).1 ≠ .ok false := by
  intro hgood
  obtain ⟨-, hm, hmod⟩ := (isbad_false_iff hb).1 hgood
  rcases h with h | ⟨h, h'⟩
  · exact h hm
  · exact h' (hmod h).2

/-- What an erase command leaves of the other blocks. -/
theorem Seen.blockErase {b : Nat} (hb : block ≤ d.blockEnd) (hne : b ≠ block)
    (h : Seen g c b) :
    Seen g (blockErase g c (Word32.mul block g.pagePerBlock) er).2 b := by
  have htwo := g.two_pages
  unfold Spinand.blockErase
  split
  · exact h
  · refine h.erased ?_
    have hlt := Device.page_lt hb
    rw [Device.page_eq hb, addr24_of_lt (by omega), Nat.mul_div_cancel _ (by omega)]
    exact hne

/-- And a marking. -/
theorem Seen.blockMarkbad {b : Nat} (hb : block ≤ d.blockEnd) (hne : b ≠ block)
    (h : Seen g c b) :
    Seen g (blockMarkbad g c (Word32.mul block g.pagePerBlock) er loaded pr).2 b := by
  have her : Seen g (Spinand.blockErase g c (Word32.mul block g.pagePerBlock) er).2 b :=
    h.blockErase hb hne
  unfold Spinand.blockMarkbad
  generalize Spinand.blockErase g c (Word32.mul block g.pagePerBlock) er = res at her ⊢
  obtain ⟨result, c'⟩ := res
  dsimp only at her ⊢
  split
  · exact her
  · split
    · exact her
    · exact her.programmed

theorem blockErase_eok {page : Nat} : (blockErase g c page er).1 = .eok ↔
    er.enabled = true ∧ er.taken = true ∧ er.ready = true ∧ er.isfail = 0 := by
  unfold blockErase
  cases er.enabled with
  | false => simp
  | true =>
    cases er.taken with
    | false => simp
    | true =>
      cases er.ready with
      | false => simp
      | true => simp

theorem programExecute_eok {page : Nat} {cache : Page} : (programExecute c page cache pr).1 = .eok ↔
    pr.taken = true ∧ pr.ready = true ∧ pr.isfail ≠ 1 := by
  unfold programExecute
  cases pr.taken with
  | false => simp
  | true =>
    cases pr.ready with
    | false => simp
    | true => simp

/-- **When a marking returns `RT_EOK`**, and what is to be seen then. -/
theorem blockMarkbad_spec (hb : block ≤ d.blockEnd) :
    ((blockMarkbad g c (Word32.mul block g.pagePerBlock) er loaded pr).1 = .eok ↔
      (er.enabled = true ∧ er.taken = true ∧ er.ready = true ∧ er.isfail = 0) ∧ loaded = true ∧
        pr.taken = true ∧ pr.ready = true ∧ pr.isfail ≠ 1) ∧
    ((blockMarkbad g c (Word32.mul block g.pagePerBlock) er loaded pr).1 = .eok →
      (Seen g (blockMarkbad g c (Word32.mul block g.pagePerBlock) er loaded pr).2 block ↔
        (pr.PFail → pr.kept g.pageSize ≠ 0xFF))) := by
  have htwo := g.two_pages
  have hlt := Device.page_lt hb
  have hpage : Word32.mul block g.pagePerBlock = block * g.pagePerBlock := Device.page_eq hb
  have haddr : addr24 (block * g.pagePerBlock) = block * g.pagePerBlock :=
    addr24_of_lt (by omega)
  rw [hpage]
  have herok := @blockErase_eok g c er (block * g.pagePerBlock)
  unfold blockMarkbad
  by_cases hres : (blockErase g c (block * g.pagePerBlock) er).1 = .eok
  · obtain ⟨hen, hta, hre, hfail⟩ := herok.1 hres
    have hchip : blockErase g c (block * g.pagePerBlock) er =
        (.eok, c.erased g (block * g.pagePerBlock) er) := by
      refine Prod.ext hres ?_
      rw [blockErase, if_neg (by rw [hen]; exact Bool.true_eq_false_eq_False), haddr]
    rw [hchip]
    simp only [ne_eq, not_true_eq_false, if_false]
    cases loaded with
    | false => simp
    | true =>
      simp only [Bool.true_eq_false, if_false]
      refine ⟨?_, fun hok => ?_⟩
      · rw [programExecute_eok]
        exact ⟨fun h => ⟨⟨hen, hta, hre, hfail⟩, trivial, h⟩, fun h => h.2.2⟩
      · obtain ⟨hpta, hpre, -⟩ := programExecute_eok.1 hok
        have hself : block = block * g.pagePerBlock / g.pagePerBlock :=
          (Nat.mul_div_cancel _ (by omega)).symm
        have hpages : ∀ i < 2, (c.erased g (block * g.pagePerBlock) er).marker g block i = 0xFF :=
          fun i hi => marker_erased_self hi hself ⟨hta, hre, Reply.not_efail hfail⟩
        have hcache : markerCache g g.pageSize = 0xF0 := if_pos rfl
        unfold programExecute Seen
        dsimp only
        have hsecond : block * g.pagePerBlock + 1 ≠ block * g.pagePerBlock := Nat.succ_ne_self _
        rw [haddr, marker_programmed_ne hsecond, hpages 1 (by decide),
          marker_programmed_self (Nat.add_zero _), hpages 0 (by decide), hcache, ff_and]
        by_cases hp : pr.PFail
        · simp [hp]
        · simp [hp, hpta, hpre]
  · have hno : ¬ (er.enabled = true ∧ er.taken = true ∧ er.ready = true ∧ er.isfail = 0) :=
      fun h => hres (herok.2 h)
    simp only [ne_eq, hres, not_false_eq_true, if_true, false_iff, false_implies, and_true]
    exact fun h => hno h.1

-- --------
-- The runs
-- --------

/-- **The invariant**: what was marked is seen. -/
def Inv (d : Device g) (s : State) : Prop := ∀ b ∈ s.marked, b ≤ d.blockEnd ∧ Seen g s.chip b

theorem good_check_iff (hinv : Inv d s) :
    Good d s (.check block r₁ r₂) ↔ Cond d s (.check block r₁ r₂) := by
  unfold Good Cond
  dsimp only
  refine forall_congr' fun hb => forall_congr' fun hmark => ?_
  rw [check_iff hb]
  constructor
  · rintro ⟨hr₁, hseen, hr₂⟩
    refine ⟨hr₁, fun hm => ⟨?_, hr₂ hm⟩⟩
    rcases hseen with h | h
    · exact absurd hm h
    · exact h.1
  · rintro ⟨hr₁, hrest⟩
    refine ⟨hr₁, ?_, fun hm => (hrest hm).2⟩
    rcases hmark with (h | h) | h
    · exact Or.inl h
    · by_cases hm : s.chip.marker g block 0 = 0xFF
      · exact Or.inr ⟨(hrest hm).1, h⟩
      · exact Or.inl hm
    · exact (hinv block h).2

theorem good_mark_iff :
    Good d s (.mark block r₁ r₂ er loaded pr) ↔ Cond d s (.mark block r₁ r₂ er loaded pr) := by
  unfold Good Cond
  dsimp only
  by_cases hb : block ≤ d.blockEnd
  · have hpages := @blockIsbad_pages g s.chip (Word32.mul block g.pagePerBlock) r₁ r₂
    have hfalse := @isbad_false_iff _ d s.chip block r₁ r₂ hb
    have htrue := @isbad_true_iff _ d s.chip block r₁ r₂ hb
    unfold spinandMarkBadblock
    rw [if_neg (Nat.not_lt.2 hb)]
    generalize blockIsbad g s.chip (Word32.mul block g.pagePerBlock) r₁ r₂ = res
      at hpages hfalse htrue ⊢
    obtain ⟨res, c'⟩ := res
    dsimp only at hpages hfalse htrue
    have hmarker : ∀ i, c'.marker g block i = s.chip.marker g block i := fun i => by
      rw [Chip.marker, hpages]
      rfl
    cases res with
    | error f =>
      refine iff_of_true (by nofun) fun _ hr₁ hm hmod => ?_
      exact absurd (hfalse.2 ⟨hr₁, hm, hmod⟩) (by nofun)
    | ok isbad =>
      cases isbad with
      | true =>
        refine iff_of_true (fun _ => reported_iff.2 ⟨hb, ?_⟩) fun _ hr₁ hm hmod => ?_
        · exact (htrue.1 rfl).2.1.of_pages hpages
        · exact absurd (hfalse.2 ⟨hr₁, hm, hmod⟩) (by nofun)
      | false =>
        obtain ⟨hr₁, hm, hmod⟩ := hfalse.1 rfl
        obtain ⟨heok, hseen⟩ :=
          @blockMarkbad_spec _ _ c' _ er pr loaded hb
        dsimp only
        rw [reported_iff]
        constructor
        · intro h _ _ _ _ her hl hpr
          have hok := heok.2 ⟨her, hl, hpr⟩
          exact (hseen hok).1 (h (congrArg Except.ok hok)).2
        · intro h hok
          have hok := Except.ok.inj hok
          obtain ⟨her, hl, hpr⟩ := heok.1 hok
          exact ⟨hb, (hseen hok).2 (h hb hr₁ hm hmod her hl hpr)⟩
  · unfold spinandMarkBadblock
    rw [if_pos (Nat.lt_of_not_le hb)]
    exact iff_of_true (by nofun) fun h => absurd h hb

theorem good_erase_iff :
    Good d s (.erase block r₁ r₂ er) ↔ Cond d s (.erase block r₁ r₂ er) := by
  unfold Good Cond
  dsimp only
  refine forall_congr' fun hb => forall_congr' fun hcarries => ?_
  have herases := @blockIsbad_erases g s.chip (Word32.mul block g.pagePerBlock) r₁ r₂
  have hfalse := @isbad_false_iff _ d s.chip block r₁ r₂ hb
  unfold spinandEraseBlock
  rw [if_neg (Nat.not_lt.2 hb)]
  generalize blockIsbad g s.chip (Word32.mul block g.pagePerBlock) r₁ r₂ = res
    at herases hfalse ⊢
  obtain ⟨res, c'⟩ := res
  dsimp only at herases hfalse
  have hgood : res ≠ .ok false → r₁.Ok → s.chip.marker g block 0 = 0xFF →
      block % g.pageSize = 0 := by
    intro hne hr₁ hm
    by_contra hmod
    exact hne (hfalse.2 ⟨hr₁, hm, fun h => absurd h hmod⟩)
  cases res with
  | error f => exact iff_of_true herases fun hr₁ hm _ => hgood (by nofun) hr₁ hm
  | ok isbad =>
    cases isbad with
    | true => exact iff_of_true herases fun hr₁ hm _ => hgood (by nofun) hr₁ hm
    | false =>
      obtain ⟨hr₁, hm, hmod⟩ := hfalse.1 rfl
      have hnot : block % g.pageSize ≠ 0 := by
        intro h0
        rcases hcarries with h | h
        · exact h hm
        · exact h (hmod h0).2
      dsimp only
      unfold blockErase
      cases er.enabled with
      | false =>
        rw [if_pos rfl]
        exact iff_of_true herases (by nofun)
      | true =>
        rw [if_neg (by nofun)]
        refine iff_of_false (fun h => ?_) fun h => hnot (h hr₁ hm rfl)
        have hlen : (c'.erased g (addr24 (Word32.mul block g.pagePerBlock)) er).erases =
            c'.erases ++ [.erase (addr24 (Word32.mul block g.pagePerBlock))] := by
          rw [Chip.erases, Chip.erased, List.filter_append]
          rfl
        rw [hlen, herases] at h
        have hl := congrArg List.length h
        rw [List.length_append, List.length_singleton] at hl
        omega

theorem good_iff {op : Op} (hinv : Inv d s) : Good d s op ↔ Cond d s op := by
  cases op with
  | check block r₁ r₂ => exact good_check_iff hinv
  | mark block r₁ r₂ er loaded pr => exact good_mark_iff
  | erase block r₁ r₂ er => exact good_erase_iff
  | write page data spare loaded pr => exact Iff.rfl

theorem Inv.of_pages {c' : Chip} (hinv : Inv d s) (hpages : c'.pages = s.chip.pages) :
    Inv d { s with chip := c' } :=
  fun b hb => ⟨(hinv b hb).1, (hinv b hb).2.of_pages hpages⟩

/-- A check keeps the invariant. -/
theorem inv_check (hinv : Inv d s) (hs : exec d s (.check block r₁ r₂) = some s') : Inv d s' := by
  have hpages : (spinandCheckBlock d s.chip block r₁ r₂).2.pages = s.chip.pages := by
    unfold spinandCheckBlock
    split
    · rfl
    · have hread := @blockIsbad_pages g s.chip (Word32.mul block g.pagePerBlock) r₁ r₂
      split
      · rename_i heq
        rw [heq] at hread
        exact hread
      · rename_i heq
        rw [heq] at hread
        exact hread
  unfold exec at hs
  dsimp only at hs
  split at hs
  · cases hs
  · rename_i heq
    cases hs
    rw [heq] at hpages
    exact hinv.of_pages hpages

/-- An erase keeps the invariant. -/
theorem inv_erase (hinv : Inv d s) (hs : exec d s (.erase block r₁ r₂ er) = some s') :
    Inv d s' := by
  have hseen : ∀ b ∈ s.marked, Seen g (spinandEraseBlock d s.chip block r₁ r₂ er).2 b := by
    intro b hb
    obtain ⟨hle, hseen⟩ := hinv b hb
    unfold spinandEraseBlock
    split
    · exact hseen
    · rename_i hlt
      have hblock : block ≤ d.blockEnd := Nat.not_lt.1 hlt
      have hread := @blockIsbad_pages g s.chip (Word32.mul block g.pagePerBlock) r₁ r₂
      split
      · rename_i heq
        rw [heq] at hread
        exact hseen.of_pages hread
      · rename_i heq
        rw [heq] at hread
        exact hseen.of_pages hread
      · rename_i heq
        rw [heq] at hread
        refine (hseen.of_pages hread).blockErase hblock ?_
        rintro rfl
        exact hseen.not_good hle (congrArg Prod.fst heq)
  unfold exec at hs
  dsimp only at hs
  split at hs
  · cases hs
  · rename_i heq
    cases hs
    rw [heq] at hseen
    exact fun b hb => ⟨(hinv b hb).1, hseen b hb⟩

/-- Marking a block keeps the invariant. -/
theorem inv_mark (hinv : Inv d s) (hgood : Good d s (.mark block r₁ r₂ er loaded pr))
    (hs : exec d s (.mark block r₁ r₂ er loaded pr) = some s') : Inv d s' := by
  have hseen : ∀ b ∈ s.marked,
      Seen g (spinandMarkBadblock d s.chip block r₁ r₂ er loaded pr).2 b := by
    intro b hb
    obtain ⟨hle, hseen⟩ := hinv b hb
    unfold spinandMarkBadblock
    split
    · exact hseen
    · rename_i hlt
      have hblock : block ≤ d.blockEnd := Nat.not_lt.1 hlt
      have hread := @blockIsbad_pages g s.chip (Word32.mul block g.pagePerBlock) r₁ r₂
      split
      · rename_i heq
        rw [heq] at hread
        exact hseen.of_pages hread
      · rename_i heq
        rw [heq] at hread
        exact hseen.of_pages hread
      · rename_i heq
        rw [heq] at hread
        refine (hseen.of_pages hread).blockMarkbad hblock ?_
        rintro rfl
        exact hseen.not_good hle (congrArg Prod.fst heq)
  unfold Good at hgood
  unfold exec at hs
  dsimp only at hgood hs
  split at hs
  · cases hs
  · rename_i result c' heq
    rw [heq] at hgood hseen
    cases hs
    have hold : ∀ b ∈ s.marked, b ≤ d.blockEnd ∧ Seen g c' b := fun b hb =>
      ⟨(hinv b hb).1, hseen b hb⟩
    intro b hb
    dsimp only at hb ⊢
    split at hb
    · rename_i hok
      rcases List.mem_cons.1 hb with rfl | hb
      · exact reported_iff.1 (hgood (congrArg Except.ok hok))
      · exact hold b hb
    · exact hold b hb

/-- Writing a page keeps the invariant. -/
theorem inv_write {data spare : List UInt8} (hinv : Inv d s)
    (hs : exec d s (.write page data spare loaded pr) = some s') : Inv d s' := by
  cases hs
  refine fun b hb => ⟨(hinv b hb).1, ?_⟩
  have hseen := (hinv b hb).2
  change Seen g (spinandWritePage d s.chip page data spare loaded pr).2 b
  unfold spinandWritePage
  split
  · exact hseen
  · split
    · exact hseen
    · exact hseen.programmed

/-- **A step** that meets the condition keeps the invariant. -/
theorem inv_exec {op : Op} (hinv : Inv d s) (hcond : Cond d s op) (hs : exec d s op = some s') :
    Inv d s' := by
  cases op with
  | check block r₁ r₂ => exact inv_check hinv hs
  | mark block r₁ r₂ er loaded pr => exact inv_mark hinv ((good_iff hinv).2 hcond) hs
  | erase block r₁ r₂ er => exact inv_erase hinv hs
  | write page data spare loaded pr => exact inv_write hinv hs

/-- **The condition**, over every run from any content of the flash. -/
theorem spinand_bad_blocks {g : Geometry} {d : Device g} {c : Chip} {ops : List Op} :
    Runs.Along (exec d) (Good d) ⟨c, []⟩ ops ↔ Runs.Along (exec d) (Cond d) ⟨c, []⟩ ops := by
  have hiff : ∀ s op, Inv d s → (Good d s op ↔ Cond d s op) := fun _ _ hinv => good_iff hinv
  have hstep : ∀ s op s', Inv d s → Cond d s op → exec d s op = some s' → Inv d s' :=
    fun _ _ _ hinv hcond hs => inv_exec hinv hcond hs
  have h0 : Inv d ⟨c, []⟩ := fun _ hb => nomatch hb
  exact Runs.along_iff hiff hstep h0

/-- The chip of the list, of 1024 blocks of 64 pages. -/
def winbond128MB : Geometry where
  pageSize := 2048
  oobSize := 64
  pagePerBlock := 64
  blockPerFlash := 1024
  page_pos := by decide
  page_small := by decide
  two_pages := by decide
  block_small := by decide
  flash_small := by decide

/-- The last partition of the board: the whole flash. -/
def wholeFlash : Device winbond128MB where
  blockStart := 0
  blockEnd := 1023
  blockTotal := 1024
  start_le := by decide
  end_lt := by decide
  total_small := by decide

/-- **Block 1 with the marker on its second page** is reported as good. -/
theorem spinand_bad_blocks_second : ¬ Runs.Along (exec wholeFlash) (Good wholeFlash)
    ⟨⟨fun page _ => if page = 65 then 0 else 0xFF, []⟩, []⟩
    [.check 1 ⟨true, 0, true⟩ ⟨true, 0, true⟩] := by
  rintro ⟨hgood, -⟩
  have hcarries : Carries winbond128MB ⟨fun page _ => if page = 65 then 0 else 0xFF, []⟩ 1 :=
    Or.inr (by decide)
  have hres : (spinandCheckBlock wholeFlash ⟨fun page _ => if page = 65 then 0 else 0xFF, []⟩ 1
    ⟨true, 0, true⟩ ⟨true, 0, true⟩).1 = .ok .error := hgood (by decide) (Or.inl hcarries)
  exact absurd hres (by decide)

end RTThread.Spinand
