import RTThread.Drivers.Spinand

/-!
# Partitions of a SPI NAND flash (`drv_spinand.c`)

A partition is a range of blocks. The operations of its device take pages and blocks of the whole
flash and refuse what lies behind the range; the commands of the shell take pages and blocks of the
partition and add its start, but for the two that go through all blocks, which do not.

`spinand_partition`: a request keeps to the blocks of the partition, and one for the whole partition
does what it is for to each of them once, if and only if it names no block before the range; the
partition starts at block 0 where the start is not added, with as many blocks as it has; and nothing
stops the loop before the last block, or an erase.
-/

namespace RTThread.Spinand

variable {g : Geometry}

/-- The page of a command. -/
def Cmd.page : Cmd → Nat
  | .read page => page
  | .program page => page
  | .erase page => page

-- --------
-- The other operations
-- --------

/-- `spinand_read_page`: the result, the data and the spare bytes. -/
def spinandReadPage (d : Device g) (c : Chip) (page dataLen spareLen : Nat) (r : Reading)
    (spareReceived : Bool) : (Err × List UInt8 × List UInt8) × Chip :=
  if d.blockEnd < page / g.pagePerBlock then ((.eio, [], []), c)
  else
    let bytes := c.pages (addr24 page)
    let data := (List.range dataLen).map bytes
    let spare := (List.range spareLen).map fun i => bytes (g.pageSize + i)
    (if r.dataload ≠ .eok then (r.dataload, [], [])
      else if dataLen ≠ 0 ∧ r.received = false then (.eio, [], [])
      else if spareLen ≠ 0 ∧ spareReceived = false then (.eio, data, [])
      else (.eok, data, spare),
      { c with cmds := c.cmds ++ [.read (addr24 page)] })

/-- `spinand_move_page`; `enabled` says whether writing could be enabled. -/
def spinandMovePage (d : Device g) (c : Chip) (src dst : Nat) (r : Reading) (enabled : Bool)
    (pr : ProgramRun) : Err × Chip :=
  if d.blockEnd < src / g.pagePerBlock ∨ d.blockEnd < dst / g.pagePerBlock then (.eio, c)
  else
    let cache := c.pages (addr24 src)
    let c := { c with cmds := c.cmds ++ [.read (addr24 src)] }
    if r.dataload ≠ .eok then (r.dataload, c)
    else if enabled = false then (.eio, c)
    else programExecute c dst cache pr

/-- `spinand_erase_block_force` -/
def spinandEraseBlockForce (d : Device g) (c : Chip) (block : Nat) (er : EraseRun) : Err × Chip :=
  if d.blockEnd < block then (.eio, c)
  else blockErase g c (Word32.mul block g.pagePerBlock) er

-- --------
-- The shell
-- --------

/-- A loop over `n` blocks from `i`, that goes on while a round says so. -/
def rounds (f : Nat → Chip → Bool × Chip) : Nat → Nat → Chip → Chip
  | 0, _, c => c
  | n + 1, i, c =>
    match f i c with
    | (false, c) => c
    | (true, c) => rounds f n (i + 1) c

/-- How many pages the partition has. -/
def Device.pages (d : Device g) : Nat := (d.blockEnd - d.blockStart + 1) * g.pagePerBlock

/-- `page + device->block_start * device->pages_per_block` -/
def Device.pageOf (d : Device g) (page : Nat) : Nat :=
  Word32.add page (Word32.mul d.blockStart g.pagePerBlock)

/-- The bytes that `nwrite` writes. -/
def nwriteData (g : Geometry) : List UInt8 :=
  (List.range g.pageSize).map fun i => UInt8.ofNat (i / 5) - UInt8.ofNat i

/-- A round of `nerase_force`. -/
def neraseForceRound (d : Device g) (runs : Nat → EraseRun) (block : Nat) (c : Chip) :
    Bool × Chip :=
  let (result, c) := spinandEraseBlockForce d c (Word32.add block d.blockStart) (runs block)
  (result == .eok, c)

/-- What the chip does in a round of `nerase_all` or `ncheck_all`. -/
structure BlockRun where
  r₁ : Reading
  r₂ : Reading
  er : EraseRun

/-- A round of `nerase_all`: only a failed assertion ends it. -/
def neraseAllRound (d : Device g) (runs : Nat → BlockRun) (index : Nat) (c : Chip) : Bool × Chip :=
  match spinandEraseBlock d c index (runs index).r₁ (runs index).r₂ (runs index).er with
  | (.error _, c) => (false, c)
  | (.ok _, c) => (true, c)

/-- A round of `ncheck_all`. -/
def ncheckAllRound (d : Device g) (runs : Nat → BlockRun) (index : Nat) (c : Chip) : Bool × Chip :=
  match spinandCheckBlock d c index (runs index).r₁ (runs index).r₂ with
  | (.error _, c) => (false, c)
  | (.ok _, c) => (true, c)

/-- A call of an operation with any page or block, or a command with numbers that are in the
partition; with what the chip does. -/
inductive Request (d : Device g)
  | readPage (page : UInt32) (dataLen spareLen : Nat) (r : Reading) (spareReceived : Bool)
  | writePage (page : UInt32) (data spare : List UInt8) (loaded : Bool) (pr : ProgramRun)
  | movePage (src dst : UInt32) (r : Reading) (enabled : Bool) (pr : ProgramRun)
  | eraseBlock (block : UInt32) (run : BlockRun)
  | checkBlock (block : UInt32) (run : BlockRun)
  | markBadblock (block : UInt32) (run : BlockRun) (loaded : Bool) (pr : ProgramRun)
  | nread (page : Nat) (valid : page < d.pages) (room : Bool) (r : Reading) (spareReceived : Bool)
  | nwrite (page : Nat) (valid : page < d.pages) (room : Bool) (loaded : Bool) (pr : ProgramRun)
  | nmove (src dst : Nat) (valid : src < d.pages ∧ dst < d.pages) (r : Reading) (enabled : Bool)
    (pr : ProgramRun)
  | nerase (block : Nat) (valid : block ≤ d.blockEnd - d.blockStart) (run : BlockRun)
  | nmarkbad (block : Nat) (valid : block ≤ d.blockEnd - d.blockStart) (run : BlockRun)
    (loaded : Bool) (pr : ProgramRun)
  | neraseForce (runs : Nat → EraseRun)
  | neraseAll (runs : Nat → BlockRun)
  | ncheckAll (runs : Nat → BlockRun)

/-- What a request makes of the chip. -/
def Request.serve {d : Device g} (c : Chip) : Request d → Chip
  | .readPage page dataLen spareLen r spareReceived =>
    (spinandReadPage d c page.toNat dataLen spareLen r spareReceived).2
  | .writePage page data spare loaded pr => (spinandWritePage d c page.toNat data spare loaded pr).2
  | .movePage src dst r enabled pr => (spinandMovePage d c src.toNat dst.toNat r enabled pr).2
  | .eraseBlock block run => (spinandEraseBlock d c block.toNat run.r₁ run.r₂ run.er).2
  | .checkBlock block run => (spinandCheckBlock d c block.toNat run.r₁ run.r₂).2
  | .markBadblock block run loaded pr =>
    (spinandMarkBadblock d c block.toNat run.r₁ run.r₂ run.er loaded pr).2
  | .nread page _ room r spareReceived =>
    if room = false then c
    else (spinandReadPage d c (d.pageOf page) g.pageSize g.oobSize r spareReceived).2
  | .nwrite page _ room loaded pr =>
    if room = false then c
    else (spinandWritePage d c (d.pageOf page) (nwriteData g) [] loaded pr).2
  | .nmove src dst _ r enabled pr =>
    (spinandMovePage d c (d.pageOf src) (d.pageOf dst) r enabled pr).2
  | .nerase block _ run =>
    (spinandEraseBlock d c (Word32.add block d.blockStart) run.r₁ run.r₂ run.er).2
  | .nmarkbad block _ run loaded pr =>
    (spinandMarkBadblock d c (Word32.add block d.blockStart) run.r₁ run.r₂ run.er loaded pr).2
  | .neraseForce runs => rounds (neraseForceRound d runs) (d.blockEnd + 1) 0 c
  | .neraseAll runs => rounds (neraseAllRound d runs) d.blockTotal 0 c
  | .ncheckAll runs => rounds (ncheckAllRound d runs) d.blockTotal 0 c

-- --------
-- What is asked of it
-- --------

/-- The commands that a request for the whole partition owes a block: its erase, or the read that
its check begins with. `nerase_all` checks every block and erases those that carry no marker. -/
def Request.Owes {d : Device g} (pages : Nat → Page) : Request d → Nat → Cmd → Prop
  | .neraseForce _, block, cmd => cmd = .erase (block * g.pagePerBlock)
  | .neraseAll _, block, cmd => cmd = .read (block * g.pagePerBlock) ∨
    cmd = .erase (block * g.pagePerBlock) ∧ ¬ Carries g ⟨pages, []⟩ block
  | .ncheckAll _, block, cmd => cmd = .read (block * g.pagePerBlock)
  | _, _, _ => False

/-- **What is asked of a request.** -/
def Request.Correct {d : Device g} (pages : Nat → Page) (req : Request d) : Prop :=
  (∀ cmd ∈ (req.serve ⟨pages, []⟩).cmds, d.blockStart ≤ cmd.page / g.pagePerBlock ∧
    cmd.page / g.pagePerBlock ≤ d.blockEnd) ∧
  ∀ block, d.blockStart ≤ block → block ≤ d.blockEnd → ∀ cmd, req.Owes pages block cmd →
    (req.serve ⟨pages, []⟩).cmds.count cmd = 1

/-- The block is not one before the partition. -/
def Device.NotBefore (d : Device g) (block : Nat) : Prop := d.blockStart ≤ block ∨ d.blockEnd < block

/-- No assertion fails in the check of a block. -/
def Passes (g : Geometry) (pages : Nat → Page) (block : Nat) (run : BlockRun) : Prop :=
  run.r₁.Ok ∧ (pages (block * g.pagePerBlock) g.pageSize = 0xFF → block % g.pageSize = 0 →
    run.r₂.Ok)

/-- All blocks are gone through, from the first of the flash. -/
def Device.Through (d : Device g) (pages : Nat → Page) (runs : Nat → BlockRun) : Prop :=
  d.blockStart = 0 ∧ d.blockEnd < d.blockTotal ∧ ∀ i < d.blockEnd, Passes g pages i (runs i)

/-- **The condition.** -/
def Request.Fits {d : Device g} (pages : Nat → Page) : Request d → Prop
  | .readPage page .. => d.NotBefore (page.toNat / g.pagePerBlock)
  | .writePage page _ _ loaded _ => loaded = true → d.NotBefore (page.toNat / g.pagePerBlock)
  | .movePage src dst r enabled _ =>
    d.blockEnd < src.toNat / g.pagePerBlock ∨ d.blockEnd < dst.toNat / g.pagePerBlock ∨
      d.blockStart ≤ src.toNat / g.pagePerBlock ∧
        (r.dataload = .eok → enabled = true → d.blockStart ≤ dst.toNat / g.pagePerBlock)
  | .eraseBlock block _ => d.NotBefore block.toNat
  | .checkBlock block _ => d.NotBefore block.toNat
  | .markBadblock block .. => d.NotBefore block.toNat
  | .neraseForce runs => ∀ i ≤ d.blockEnd - d.blockStart, (runs i).enabled = true ∧
    (i < d.blockEnd - d.blockStart →
      (runs i).taken = true ∧ (runs i).ready = true ∧ (runs i).isfail = 0)
  | .neraseAll runs => d.Through pages runs ∧ ∀ i ≤ d.blockEnd, ¬ Carries g ⟨pages, []⟩ i →
    Passes g pages i (runs i) ∧ (runs i).er.enabled = true
  | .ncheckAll runs => d.Through pages runs
  | _ => True

-- --------
-- What an operation asks of the chip
-- --------

variable {d : Device g} {c c' c'' : Chip} {b block page : Nat} {r r₁ r₂ : Reading} {er : EraseRun}
  {pr : ProgramRun} {loaded : Bool}

/-- The commands since are about one block. -/
def Own (g : Geometry) (b : Nat) (c c' : Chip) : Prop :=
  ∃ new, c'.cmds = c.cmds ++ new ∧ ∀ cmd ∈ new, cmd.page / g.pagePerBlock = b

theorem Own.refl : Own g b c c := ⟨[], (List.append_nil _).symm, nofun⟩

theorem Own.trans (h : Own g b c c') (h' : Own g b c' c'') : Own g b c c'' := by
  obtain ⟨new, heq, hnew⟩ := h
  obtain ⟨new', heq', hnew'⟩ := h'
  refine ⟨new ++ new', by rw [heq', heq, List.append_assoc], fun cmd hcmd => ?_⟩
  rcases List.mem_append.1 hcmd with h | h
  · exact hnew cmd h
  · exact hnew' cmd h

theorem Own.mem (h : Own g b c c') {cmd : Cmd} (hcmd : cmd ∈ c.cmds) : cmd ∈ c'.cmds := by
  obtain ⟨new, heq, -⟩ := h
  rw [heq]
  exact List.mem_append_left _ hcmd

theorem Own.one {cmd : Cmd} (hcmds : c'.cmds = c.cmds ++ [cmd])
    (hcmd : cmd.page / g.pagePerBlock = b) : Own g b c c' :=
  ⟨[cmd], hcmds, fun cmd' h => by rw [List.mem_singleton.1 h]; exact hcmd⟩

theorem Device.addr24_eq (hp : page / g.pagePerBlock ≤ d.blockEnd) : addr24 page = page := by
  have htwo := g.two_pages
  have hflash := g.flash_small
  have hend := d.end_lt
  have hlt : page < (page / g.pagePerBlock + 1) * g.pagePerBlock := by
    rw [Nat.mul_comm]
    exact Nat.lt_mul_div_succ page (by omega)
  have hmul := Nat.mul_le_mul_right g.pagePerBlock
    (show page / g.pagePerBlock + 1 ≤ g.blockPerFlash by omega)
  exact addr24_of_lt (by omega)

theorem programExecute_own {cache : Page} (hp : page / g.pagePerBlock ≤ d.blockEnd) :
    Own g (page / g.pagePerBlock) c (programExecute c page cache pr).2 := by
  refine @Own.one _ _ _ _ (.program (addr24 page)) rfl ?_
  change addr24 page / g.pagePerBlock = _
  rw [Device.addr24_eq hp]

/-- An erase reads nothing, and is given if writing can be enabled. -/
theorem blockErase_new (hb : block ≤ d.blockEnd) :
    ∃ new, (blockErase g c (Word32.mul block g.pagePerBlock) er).2.cmds = c.cmds ++ new ∧
      (∀ cmd ∈ new, cmd.page / g.pagePerBlock = block) ∧ (∀ p, new.count (.read p) = 0) ∧
      new.count (.erase (block * g.pagePerBlock)) = if er.enabled = true then 1 else 0 := by
  have hlt := Device.page_lt hb
  unfold blockErase
  cases hen : er.enabled with
  | false => exact ⟨[], (List.append_nil _).symm, nofun, fun _ => rfl, rfl⟩
  | true =>
    rw [if_neg (by nofun), Device.page_eq hb, addr24_of_lt (by omega)]
    refine ⟨[.erase (block * g.pagePerBlock)], rfl, fun cmd hcmd => ?_,
      fun p => List.count_singleton.trans (if_neg (by simp)), List.count_singleton_self⟩
    rw [List.mem_singleton.1 hcmd]
    exact page_div (i := 0) (by decide)

theorem blockErase_own (hb : block ≤ d.blockEnd) :
    Own g block c (blockErase g c (Word32.mul block g.pagePerBlock) er).2 := by
  obtain ⟨new, heq, hnew, -, -⟩ := @blockErase_new _ _ c _ er hb
  exact ⟨new, heq, hnew⟩

theorem blockMarkbad_own (hb : block ≤ d.blockEnd) :
    Own g block c (blockMarkbad g c (Word32.mul block g.pagePerBlock) er loaded pr).2 := by
  have htwo := g.two_pages
  have hown := @blockErase_own _ _ c _ er hb
  unfold blockMarkbad
  generalize blockErase g c (Word32.mul block g.pagePerBlock) er = res at hown ⊢
  obtain ⟨result, c'⟩ := res
  dsimp only at hown ⊢
  split
  · exact hown
  · split
    · exact hown
    · rw [Device.page_eq hb]
      have hdiv : block * g.pagePerBlock / g.pagePerBlock = block :=
        Nat.mul_div_cancel _ (by omega)
      have hprog := @programExecute_own _ d c' (block * g.pagePerBlock) pr (markerCache g)
        (by rw [hdiv]; exact hb)
      rw [hdiv] at hprog
      exact hown.trans hprog

/-- A check reads the first page of its block once, erases nothing, and is about that block. -/
theorem blockIsbad_reads (hb : block ≤ d.blockEnd) :
    ∃ new, (blockIsbad g c (Word32.mul block g.pagePerBlock) r₁ r₂).2 =
        { c with cmds := c.cmds ++ new } ∧
      (∀ cmd ∈ new, cmd.page / g.pagePerBlock = block) ∧
      new.count (.read (block * g.pagePerBlock)) = 1 ∧ ∀ p, new.count (.erase p) = 0 := by
  have hlt := Device.page_lt hb
  obtain ⟨reads, hreads, heq⟩ :=
    @blockIsbad_snd g (Word32.mul block g.pagePerBlock) r₁ r₂ c
  rw [Device.page_eq hb, Word32.add_of_lt (by omega), addr24_of_lt (by omega),
    addr24_of_lt hlt] at hreads
  have h0 : block * g.pagePerBlock / g.pagePerBlock = block := page_div (i := 0) (by decide)
  have h1 : (block * g.pagePerBlock + 1) / g.pagePerBlock = block := page_div (by decide)
  refine ⟨reads, heq, ?_, ?_, fun p => ?_⟩
  · rcases hreads with rfl | rfl
    · intro cmd hcmd
      rw [List.mem_singleton.1 hcmd]
      exact h0
    · intro cmd hcmd
      rcases List.mem_cons.1 hcmd with rfl | hcmd
      · exact h0
      · rw [List.mem_singleton.1 hcmd]
        exact h1
  · rcases hreads with rfl | rfl
    · exact List.count_singleton_self
    · rw [List.count_cons_self, List.count_cons_of_ne (by simp), List.count_nil]
  · rcases hreads with rfl | rfl
    · exact List.count_eq_zero.2 (by simp)
    · exact List.count_eq_zero.2 (by simp)

/-- An operation on a block: behind the range nothing is asked of the chip, and else the first page of
the block is read first. -/
def Touches (d : Device g) (block : Nat) (c c' : Chip) : Prop :=
  (d.blockEnd < block → c' = c) ∧
    (block ≤ d.blockEnd → Own g block c c' ∧ .read (block * g.pagePerBlock) ∈ c'.cmds)

theorem Touches.of_isbad (hlt : d.blockEnd < block → c' = c)
    (hown : block ≤ d.blockEnd →
      Own g block (blockIsbad g c (Word32.mul block g.pagePerBlock) r₁ r₂).2 c') :
    Touches d block c c' := by
  refine ⟨hlt, fun hb => ?_⟩
  obtain ⟨new, heq, hnew, hcount, -⟩ := @blockIsbad_reads _ _ c _ r₁ r₂ hb
  have hread : Own g block c (blockIsbad g c (Word32.mul block g.pagePerBlock) r₁ r₂).2 :=
    ⟨new, by rw [heq], hnew⟩
  refine ⟨hread.trans (hown hb), (hown hb).mem ?_⟩
  rw [heq]
  exact List.mem_append_right _ (List.count_pos_iff.1 (by omega))

theorem touches_check : Touches d block c (spinandCheckBlock d c block r₁ r₂).2 := by
  refine @Touches.of_isbad _ _ _ _ _ r₁ r₂ (fun hlt => ?_) fun hb => ?_
  · rw [spinandCheckBlock, if_pos hlt]
  · rw [spinandCheckBlock, if_neg (Nat.not_lt.2 hb)]
    split
    · rename_i heq
      rw [heq]
      exact Own.refl
    · rename_i heq
      rw [heq]
      exact Own.refl

theorem touches_erase : Touches d block c (spinandEraseBlock d c block r₁ r₂ er).2 := by
  refine @Touches.of_isbad _ _ _ _ _ r₁ r₂ (fun hlt => ?_) fun hb => ?_
  · rw [spinandEraseBlock, if_pos hlt]
  · rw [spinandEraseBlock, if_neg (Nat.not_lt.2 hb)]
    split
    · rename_i heq
      rw [heq]
      exact Own.refl
    · rename_i heq
      rw [heq]
      exact Own.refl
    · rename_i heq
      rw [heq]
      exact blockErase_own hb

theorem touches_mark :
    Touches d block c (spinandMarkBadblock d c block r₁ r₂ er loaded pr).2 := by
  refine @Touches.of_isbad _ _ _ _ _ r₁ r₂ (fun hlt => ?_) fun hb => ?_
  · rw [spinandMarkBadblock, if_pos hlt]
  · rw [spinandMarkBadblock, if_neg (Nat.not_lt.2 hb)]
    split
    · rename_i heq
      rw [heq]
      exact Own.refl
    · rename_i heq
      rw [heq]
      exact Own.refl
    · rename_i heq
      rw [heq]
      exact blockMarkbad_own hb

/-- The commands keep to the partition. -/
def Inside (d : Device g) (c : Chip) : Prop := ∀ cmd ∈ c.cmds,
  d.blockStart ≤ cmd.page / g.pagePerBlock ∧ cmd.page / g.pagePerBlock ≤ d.blockEnd

theorem Touches.inside_iff {pages : Nat → Page} (h : Touches d block ⟨pages, []⟩ c') :
    Inside d c' ↔ d.NotBefore block := by
  by_cases hb : block ≤ d.blockEnd
  · obtain ⟨⟨new, heq, hnew⟩, hmem⟩ := h.2 hb
    constructor
    · intro hin
      have hpage := (hin _ hmem).1
      rw [show (Cmd.read (block * g.pagePerBlock)).page / g.pagePerBlock = block from
        page_div (i := 0) (by decide)] at hpage
      exact Or.inl hpage
    · intro hnb cmd hcmd
      rw [heq, List.nil_append] at hcmd
      rw [hnew cmd hcmd]
      rcases hnb with hle | hlt
      · exact ⟨hle, hb⟩
      · exact absurd hb (Nat.not_le.2 hlt)
  · rw [h.1 (Nat.lt_of_not_le hb)]
    exact iff_of_true nofun (Or.inr (Nat.lt_of_not_le hb))

-- --------
-- Pages
-- --------

variable {pages : Nat → Page}

theorem readPage_inside {dataLen spareLen : Nat} {spareReceived : Bool} :
    Inside d (spinandReadPage d ⟨pages, []⟩ page dataLen spareLen r spareReceived).2 ↔
      d.NotBefore (page / g.pagePerBlock) := by
  unfold spinandReadPage Inside
  split
  · rename_i hlt
    exact iff_of_true nofun (Or.inr hlt)
  · rename_i hle
    have hle := Nat.not_lt.1 hle
    have haddr : addr24 page = page := Device.addr24_eq hle
    simp only [List.nil_append, List.mem_singleton, forall_eq, haddr]
    exact ⟨fun h => Or.inl h.1, fun h => ⟨h.resolve_right (Nat.not_lt.2 hle), hle⟩⟩

theorem writePage_inside {data spare : List UInt8} :
    Inside d (spinandWritePage d ⟨pages, []⟩ page data spare loaded pr).2 ↔
      (loaded = true → d.NotBefore (page / g.pagePerBlock)) := by
  unfold spinandWritePage Inside
  split
  · rename_i hlt
    exact iff_of_true nofun fun _ => Or.inr hlt
  · rename_i hle
    have hle := Nat.not_lt.1 hle
    have haddr : addr24 page = page := Device.addr24_eq hle
    cases loaded with
    | false => exact iff_of_true nofun nofun
    | true =>
      simp only [Bool.true_eq_false, if_false, programExecute, Chip.programmed, List.nil_append,
        List.mem_singleton, forall_eq, haddr, true_imp_iff]
      exact ⟨fun h => Or.inl h.1, fun h => ⟨h.resolve_right (Nat.not_lt.2 hle), hle⟩⟩

theorem movePage_inside {src dst : Nat} {enabled : Bool} :
    Inside d (spinandMovePage d ⟨pages, []⟩ src dst r enabled pr).2 ↔
      d.blockEnd < src / g.pagePerBlock ∨ d.blockEnd < dst / g.pagePerBlock ∨
        d.blockStart ≤ src / g.pagePerBlock ∧
          (r.dataload = .eok → enabled = true → d.blockStart ≤ dst / g.pagePerBlock) := by
  unfold spinandMovePage Inside
  by_cases hlt : d.blockEnd < src / g.pagePerBlock ∨ d.blockEnd < dst / g.pagePerBlock
  · rw [if_pos hlt]
    refine iff_of_true nofun ?_
    rcases hlt with h | h
    · exact Or.inl h
    · exact Or.inr (Or.inl h)
  · obtain ⟨hsrc, hdst⟩ := not_or.1 hlt
    have hsrcle := Nat.not_lt.1 hsrc
    have hdstle := Nat.not_lt.1 hdst
    have hasrc : addr24 src = src := Device.addr24_eq hsrcle
    have hadst : addr24 dst = dst := Device.addr24_eq hdstle
    rw [if_neg hlt, or_iff_right hsrc, or_iff_right hdst]
    by_cases hload : r.dataload = .eok
    · cases enabled with
      | false =>
        simp only [hload, ne_eq, not_true_eq_false, if_false, if_true, List.nil_append,
          List.mem_singleton, forall_eq, hasrc]
        exact ⟨fun h => ⟨h.1, nofun⟩, fun h => ⟨h.1, hsrcle⟩⟩
      | true =>
        simp only [hload, ne_eq, not_true_eq_false, Bool.true_eq_false, if_false, programExecute,
          Chip.programmed, List.nil_append, List.cons_append, List.mem_cons, List.not_mem_nil,
          or_false, forall_eq_or_imp, forall_eq, hasrc, hadst, true_imp_iff]
        exact ⟨fun h => ⟨h.1.1, h.2.1⟩, fun h => ⟨⟨h.1, hsrcle⟩, h.2, hdstle⟩⟩
    · simp only [hload, ne_eq, not_false_eq_true, if_true, List.nil_append, List.mem_singleton,
        forall_eq, hasrc, false_imp_iff, and_true]
      exact ⟨fun h => h.1, fun h => ⟨h, hsrcle⟩⟩

/-- A page of the partition is in it. -/
theorem Device.pageOf_block (hp : page < d.pages) :
    d.blockStart ≤ d.pageOf page / g.pagePerBlock ∧
      d.pageOf page / g.pagePerBlock ≤ d.blockEnd := by
  have htwo := g.two_pages
  have hstart := d.start_le
  have hlt := Device.page_lt (Nat.le_refl d.blockEnd)
  have hlts := Device.page_lt d.start_le
  unfold Device.pages at hp
  have hdiv : page / g.pagePerBlock < d.blockEnd - d.blockStart + 1 :=
    (Nat.div_lt_iff_lt_mul (by omega)).2 hp
  have hbound : page + d.blockStart * g.pagePerBlock < 2 ^ 32 := by
    have hsum : (d.blockEnd - d.blockStart + 1) * g.pagePerBlock + d.blockStart * g.pagePerBlock =
        (d.blockEnd + 1) * g.pagePerBlock := by
      rw [← Nat.add_mul]
      congr 1
      omega
    have hflash := g.flash_small
    have hmul := Nat.mul_le_mul_right g.pagePerBlock
      (show d.blockEnd + 1 ≤ g.blockPerFlash from d.end_lt)
    omega
  have hpage : d.pageOf page = page + d.blockStart * g.pagePerBlock := by
    rw [Device.pageOf, Word32.mul_of_lt (by omega), Word32.add_of_lt hbound]
  rw [hpage, Nat.add_mul_div_right _ _ (by omega)]
  generalize page / g.pagePerBlock = q at hdiv ⊢
  omega

theorem Device.blockOf (hb : block ≤ d.blockEnd - d.blockStart) :
    d.blockStart ≤ Word32.add block d.blockStart ∧ Word32.add block d.blockStart ≤ d.blockEnd := by
  obtain ⟨hstart, hlt⟩ := d.bounds
  rw [Word32.add_of_lt (by omega)]
  omega

-- --------
-- Loops
-- --------

/-- The pages of a block are as they were. -/
def SameBlock (g : Geometry) (b : Nat) (c c' : Chip) : Prop :=
  ∀ p, p / g.pagePerBlock = b → c'.pages p = c.pages p

/-- **A round** for each block up to `lim`, which is the block `off` further on: what it asks for, how
often it has its command, and whether it goes on. -/
structure Each (g : Geometry) (pages : Nat → Page) (f : Nat → Chip → Bool × Chip) (lim off : Nat)
    (each : Nat → Cmd) (times : Nat → Nat) (on : Nat → Prop) : Prop where
  idle : ∀ i c, lim < i → i < 2 ^ 24 → (f i c).2 = c
  does : ∀ i c, i ≤ lim → SameBlock g (i + off) ⟨pages, []⟩ c →
    (∃ new, (f i c).2.cmds = c.cmds ++ new ∧
      (∀ cmd ∈ new, cmd.page / g.pagePerBlock = i + off) ∧ new.count (each (i + off)) = times i) ∧
    ((f i c).1 = true ↔ on i) ∧ ∀ b, b ≠ i + off → SameBlock g b c (f i c).2
  about : ∀ b, (each b).page / g.pagePerBlock = b

variable {f : Nat → Chip → Bool × Chip} {lim off : Nat} {each : Nat → Cmd} {times : Nat → Nat}
  {on : Nat → Prop}

theorem rounds_idle (h : Each g pages f lim off each times on) : ∀ {n i : Nat} {c : Chip},
    lim < i → i + n ≤ 2 ^ 24 → rounds f n i c = c
  | 0, _, _, _, _ => rfl
  | n + 1, i, c, hi, htop => by
    have hidle := h.idle i c hi (by omega)
    rw [rounds]
    generalize f i c = res at hidle ⊢
    obtain ⟨go, c'⟩ := res
    dsimp only at hidle
    subst hidle
    cases go with
    | false => rfl
    | true => exact rounds_idle h (by omega) (by omega)

theorem count_other {new : List Cmd} {cmd : Cmd}
    (hne : ∀ cmd' ∈ new, cmd'.page / g.pagePerBlock ≠ cmd.page / g.pagePerBlock) :
    new.count cmd = 0 :=
  List.count_eq_zero.2 fun hmem => hne cmd hmem rfl

/-- **A loop**: it is about the blocks it goes through, and each of them has its command unless the loop
ended before. -/
theorem rounds_spec (h : Each g pages f lim off each times on) : ∀ (n i : Nat) {c : Chip},
    i + n ≤ 2 ^ 24 → (∀ k, i ≤ k → k ≤ lim → SameBlock g (k + off) ⟨pages, []⟩ c) →
    ∃ new, (rounds f n i c).cmds = c.cmds ++ new ∧
      (∀ cmd ∈ new, ∃ k, i ≤ k ∧ k < i + n ∧ k ≤ lim ∧ cmd.page / g.pagePerBlock = k + off) ∧
      ∀ k, i ≤ k → k < i + n → k ≤ lim →
        ((∀ j, i ≤ j → j < k → on j) → new.count (each (k + off)) = times k) ∧
        (¬ (∀ j, i ≤ j → j < k → on j) → new.count (each (k + off)) = 0)
  | 0, i, c, _, _ => ⟨[], (List.append_nil _).symm, nofun, fun k h₁ h₂ => by omega⟩
  | n + 1, i, c, htop, hsame => by
    by_cases hi : i ≤ lim
    · obtain ⟨⟨new, heq, hnew, hcount⟩, hon, hother⟩ := h.does i c hi (hsame i le_rfl hi)
      have hfirst : new.count (each (i + off)) = times i := hcount
      have hnot : ∀ k, k ≠ i → new.count (each (k + off)) = 0 := by
        intro k hk
        refine count_other (g := g) fun cmd hcmd => ?_
        rw [hnew cmd hcmd, h.about]
        omega
      rw [rounds]
      generalize f i c = res at heq hon hother ⊢
      obtain ⟨go, c'⟩ := res
      dsimp only at heq hon hother
      cases go with
      | false =>
        have hoff : ¬ on i := fun hi => absurd (hon.2 hi) Bool.false_ne_true
        refine ⟨new, heq, fun cmd hcmd => ⟨i, le_rfl, by omega, hi, hnew cmd hcmd⟩, ?_⟩
        intro k hk _ _
        by_cases hki : k = i
        · subst hki
          exact ⟨fun _ => hfirst, fun hno => absurd (fun j h₁ h₂ => by omega) hno⟩
        · exact ⟨fun hall => absurd (hall i le_rfl (by omega)) hoff, fun _ => hnot k hki⟩
      | true =>
        have hgo : on i := hon.1 rfl
        have hsame' : ∀ k, i + 1 ≤ k → k ≤ lim → SameBlock g (k + off) ⟨pages, []⟩ c' := by
          intro k hk hkl p hp
          rw [hother (k + off) (by omega) p hp]
          exact hsame k (by omega) hkl p hp
        obtain ⟨rest, hrest, hin, hcounts⟩ := rounds_spec h n (i + 1) (by omega) hsame'
        have hrestOther : ∀ k, k ≤ i → rest.count (each (k + off)) = 0 := by
          intro k hk
          refine count_other (g := g) fun cmd hcmd => ?_
          obtain ⟨k', hk', -, -, hpage⟩ := hin cmd hcmd
          rw [hpage, h.about]
          omega
        refine ⟨new ++ rest, ?_, fun cmd hcmd => ?_, ?_⟩
        · dsimp only
          rw [hrest, heq, List.append_assoc]
        · rcases List.mem_append.1 hcmd with hcmd | hcmd
          · exact ⟨i, le_rfl, by omega, hi, hnew cmd hcmd⟩
          · obtain ⟨k, h₁, h₂, h₃, h₄⟩ := hin cmd hcmd
            exact ⟨k, by omega, by omega, h₃, h₄⟩
        · intro k hk hkn hkl
          rw [List.count_append]
          by_cases hki : k = i
          · subst hki
            rw [hfirst, hrestOther k le_rfl]
            exact ⟨fun _ => Nat.add_zero _, fun hno => absurd (fun j h₁ h₂ => by omega) hno⟩
          · rw [hnot k hki, Nat.zero_add]
            obtain ⟨hyes, hno⟩ := hcounts k (by omega) (by omega) hkl
            have hiff : (∀ j, i ≤ j → j < k → on j) ↔ ∀ j, i + 1 ≤ j → j < k → on j := by
              refine ⟨fun hall j h₁ h₂ => hall j (by omega) h₂, fun hall j h₁ h₂ => ?_⟩
              by_cases hji : j = i
              · rw [hji]
                exact hgo
              · exact hall j (by omega) h₂
            rw [hiff]
            exact ⟨hyes, hno⟩
    · rw [rounds_idle h (Nat.lt_of_not_le hi) htop]
      exact ⟨[], (List.append_nil _).symm, nofun, fun k h₁ _ h₃ => by omega⟩

/-- **A loop over all blocks**: it keeps to them and has each command once if it gets to each block and
the command is given there. -/
theorem rounds_covers {n : Nat} (h : Each g pages f lim off each times on) (hn : n ≤ 2 ^ 24) :
    (∀ cmd ∈ (rounds f n 0 ⟨pages, []⟩).cmds, ∃ k, k < n ∧ k ≤ lim ∧
      cmd.page / g.pagePerBlock = k + off) ∧
    ∀ k < n, k ≤ lim → ((rounds f n 0 ⟨pages, []⟩).cmds.count (each (k + off)) = 1 ↔
      times k = 1 ∧ ∀ j < k, on j) := by
  obtain ⟨new, heq, hin, hcount⟩ :=
    rounds_spec h n 0 (c := ⟨pages, []⟩) (by omega) fun _ _ _ _ _ => rfl
  rw [List.nil_append] at heq
  rw [heq]
  refine ⟨fun cmd hcmd => ?_, fun k hk hkl => ?_⟩
  · obtain ⟨k, -, hk, hkl, hpage⟩ := hin cmd hcmd
    exact ⟨k, by omega, hkl, hpage⟩
  · obtain ⟨hyes, hno⟩ := hcount k (Nat.zero_le _) (by omega) hkl
    by_cases hall : ∀ j, 0 ≤ j → j < k → on j
    · rw [hyes hall]
      exact ⟨fun ht => ⟨ht, fun j hj => hall j (Nat.zero_le _) hj⟩, fun ht => ht.1⟩
    · rw [hno hall]
      exact iff_of_false (by decide) fun ht => hall fun j _ hj => ht.2 j hj

-- --------
-- The loops of the shell
-- --------

theorem sameBlock_of_pages (h : c'.pages = c.pages) : SameBlock g b c c' :=
  fun p _ => by rw [h]

/-- An erase leaves the other blocks as they are. -/
theorem blockErase_sameBlock (hb : block ≤ d.blockEnd) (hne : b ≠ block) :
    SameBlock g b c (blockErase g c (Word32.mul block g.pagePerBlock) er).2 := by
  have htwo := g.two_pages
  have hlt := Device.page_lt hb
  unfold blockErase
  split
  · exact fun _ _ => rfl
  · intro p hp
    rw [Device.page_eq hb, addr24_of_lt (by omega)]
    refine if_neg ?_
    rw [hp, Nat.mul_div_cancel _ (by omega)]
    exact hne

/-- `nerase_force` -/
theorem neraseForce_each {runs : Nat → EraseRun} :
    Each g pages (neraseForceRound d runs) (d.blockEnd - d.blockStart) d.blockStart
      (fun b => .erase (b * g.pagePerBlock))
      (fun i => if (runs i).enabled = true then 1 else 0)
      (fun i => (runs i).enabled = true ∧ (runs i).taken = true ∧ (runs i).ready = true ∧
        (runs i).isfail = 0) where
  idle i c hi htop := by
    obtain ⟨hstart, hlt⟩ := d.bounds
    unfold neraseForceRound spinandEraseBlockForce
    rw [Word32.add_of_lt (by omega), if_pos (by omega)]
  does i c hi hsame := by
    obtain ⟨hstart, hlt⟩ := d.bounds
    have hb : i + d.blockStart ≤ d.blockEnd := by omega
    have hadd : Word32.add i d.blockStart = i + d.blockStart := Word32.add_of_lt (by omega)
    have hround : neraseForceRound d runs i c =
        ((blockErase g c (Word32.mul (i + d.blockStart) g.pagePerBlock) (runs i)).1 == .eok,
          (blockErase g c (Word32.mul (i + d.blockStart) g.pagePerBlock) (runs i)).2) := by
      unfold neraseForceRound spinandEraseBlockForce
      rw [hadd, if_neg (by omega)]
    rw [hround]
    refine ⟨?_, ?_, fun b hne => blockErase_sameBlock hb hne⟩
    · obtain ⟨new, heq, hnew, -, hcount⟩ := @blockErase_new _ _ c _ (runs i) hb
      exact ⟨new, heq, hnew, hcount⟩
    · rw [beq_iff_eq, blockErase_eok]
  about b := page_div (i := 0) (by decide)

/-- What a check needs to pass is in its block. -/
theorem passes_iff {run : BlockRun} (hb : block ≤ d.blockEnd)
    (hsame : SameBlock g block ⟨pages, []⟩ c) :
    (∃ isbad, (blockIsbad g c (Word32.mul block g.pagePerBlock) run.r₁ run.r₂).1 = .ok isbad) ↔
      Passes g pages block run := by
  have hmarker : c.marker g block 0 = pages (block * g.pagePerBlock) g.pageSize :=
    congrFun (hsame _ (page_div (i := 0) (by decide))) g.pageSize
  rw [blockIsbad_fst hb, hmarker, Passes]
  by_cases hr₁ : run.r₁.Ok
  · by_cases hm : pages (block * g.pagePerBlock) g.pageSize = 0xFF
    · by_cases hmod : block % g.pageSize = 0
      · by_cases hr₂ : run.r₂.Ok
        · simp [hr₁, hm, hmod, hr₂]
        · simp [hr₁, hm, hmod, hr₂]
      · simp [hr₁, hm, hmod]
    · simp [hr₁, hm]
  · simp [hr₁]

/-- The block is erased. -/
def Erases (g : Geometry) (pages : Nat → Page) (block : Nat) (run : BlockRun) : Prop :=
  Passes g pages block run ∧ ¬ Seen g ⟨pages, []⟩ block ∧ run.er.enabled = true

/-- The check takes a block for a good one if it passes and no marker is seen. -/
theorem isbad_false_of_same {run : BlockRun} (hb : block ≤ d.blockEnd)
    (hsame : SameBlock g block ⟨pages, []⟩ c) :
    (blockIsbad g c (Word32.mul block g.pagePerBlock) run.r₁ run.r₂).1 = .ok false ↔
      Passes g pages block run ∧ ¬ Seen g ⟨pages, []⟩ block := by
  have hmarker : ∀ i < 2, c.marker g block i = Chip.marker g ⟨pages, []⟩ block i := fun i hi =>
    congrFun (hsame _ (page_div hi)) g.pageSize
  rw [isbad_false_iff hb, hmarker 0 (by decide), hmarker 1 (by decide)]
  unfold Passes Seen
  change _ ↔ (_ ∧ (Chip.marker g ⟨pages, []⟩ block 0 = 0xFF → _)) ∧ _
  by_cases hm : Chip.marker g ⟨pages, []⟩ block 0 = 0xFF
  · by_cases hmod : block % g.pageSize = 0
    · simp [hm, hmod, and_assoc]
    · simp [hm, hmod]
  · simp [hm]

section NeraseAll

variable {runs : Nat → BlockRun} {i : Nat}

open scoped Classical in
/-- **A round of `nerase_all`**: the block is read once, and erased once if it is to be. -/
theorem neraseAllRound_spec (hi : i ≤ d.blockEnd) (hsame : SameBlock g i ⟨pages, []⟩ c) :
    (∃ new, (neraseAllRound d runs i c).2.cmds = c.cmds ++ new ∧
      (∀ cmd ∈ new, cmd.page / g.pagePerBlock = i) ∧
      new.count (.read (i * g.pagePerBlock)) = 1 ∧
      new.count (.erase (i * g.pagePerBlock)) = if Erases g pages i (runs i) then 1 else 0) ∧
    ((neraseAllRound d runs i c).1 = true ↔ Passes g pages i (runs i)) ∧
    ∀ b, b ≠ i → SameBlock g b c (neraseAllRound d runs i c).2 := by
  obtain ⟨new, heq, hnew, hread, herase⟩ := @blockIsbad_reads _ _ c _ (runs i).r₁ (runs i).r₂ hi
  have hpass := @passes_iff _ _ _ _ _ (runs i) hi hsame
  have hgood := @isbad_false_of_same _ _ _ _ _ (runs i) hi hsame
  unfold neraseAllRound spinandEraseBlock
  rw [if_neg (Nat.not_lt.2 hi)]
  generalize blockIsbad g c (Word32.mul i g.pagePerBlock) (runs i).r₁ (runs i).r₂ = res
    at heq hpass hgood ⊢
  obtain ⟨res, c'⟩ := res
  dsimp only at heq hpass hgood
  have hcmds : c'.cmds = c.cmds ++ new := by rw [heq]
  have hsame' : ∀ b, SameBlock g b c c' := fun b => sameBlock_of_pages (by rw [heq])
  cases res with
  | error e =>
    have hp : ¬ Passes g pages i (runs i) := fun hp => by
      obtain ⟨_, hbad⟩ := hpass.2 hp
      cases hbad
    refine ⟨⟨new, hcmds, hnew, hread, ?_⟩, iff_of_false Bool.false_ne_true hp, fun b _ => hsame' b⟩
    exact (herase _).trans (if_neg fun h => hp h.1).symm
  | ok isbad =>
    have hp := hpass.1 ⟨isbad, rfl⟩
    cases isbad with
    | true =>
      refine ⟨⟨new, hcmds, hnew, hread, ?_⟩, iff_of_true rfl hp, fun b _ => hsame' b⟩
      refine (herase _).trans (if_neg fun h => ?_).symm
      cases hgood.2 ⟨hp, h.2.1⟩
    | false =>
      have hnot := (hgood.1 rfl).2
      obtain ⟨more, hmore, hmoreNew, hmoreRead, hmoreErase⟩ :=
        @blockErase_new _ _ c' _ (runs i).er hi
      refine ⟨⟨new ++ more, ?_, ?_, ?_, ?_⟩, iff_of_true rfl hp, fun b hne p hpb => ?_⟩
      · dsimp only
        rw [hmore, hcmds, List.append_assoc]
      · intro cmd hcmd
        rcases List.mem_append.1 hcmd with h | h
        · exact hnew cmd h
        · exact hmoreNew cmd h
      · rw [List.count_append, hread, hmoreRead]
      · rw [List.count_append, herase, hmoreErase, Nat.zero_add]
        exact if_congr ⟨fun hen => ⟨hp, hnot, hen⟩, fun h => h.2.2⟩ rfl rfl
      · dsimp only
        rw [blockErase_sameBlock hi hne p hpb]
        exact hsame' b p hpb

theorem neraseAllRound_behind (hi : d.blockEnd < i) : (neraseAllRound d runs i c).2 = c := by
  unfold neraseAllRound spinandEraseBlock
  rw [if_pos hi]

/-- The reads of `nerase_all`. -/
theorem neraseAll_reads :
    Each g pages (neraseAllRound d runs) d.blockEnd 0 (fun b => .read (b * g.pagePerBlock))
      (fun _ => 1) (fun i => Passes g pages i (runs i)) where
  idle _ _ hi _ := neraseAllRound_behind hi
  does _ _ hi hsame := by
    obtain ⟨⟨new, heq, hnew, hread, -⟩, hon, hother⟩ := neraseAllRound_spec hi hsame
    exact ⟨⟨new, heq, hnew, hread⟩, hon, hother⟩
  about b := page_div (i := 0) (by decide)

open scoped Classical in
/-- The erases of `nerase_all`. -/
theorem neraseAll_erases :
    Each g pages (neraseAllRound d runs) d.blockEnd 0 (fun b => .erase (b * g.pagePerBlock))
      (fun i => if Erases g pages i (runs i) then 1 else 0)
      (fun i => Passes g pages i (runs i)) where
  idle _ _ hi _ := neraseAllRound_behind hi
  does _ _ hi hsame := by
    obtain ⟨⟨new, heq, hnew, -, herase⟩, hon, hother⟩ := neraseAllRound_spec hi hsame
    exact ⟨⟨new, heq, hnew, herase⟩, hon, hother⟩
  about b := page_div (i := 0) (by decide)

end NeraseAll

/-- `ncheck_all` -/
theorem ncheckAll_each {runs : Nat → BlockRun} :
    Each g pages (ncheckAllRound d runs) d.blockEnd 0 (fun b => .read (b * g.pagePerBlock))
      (fun _ => 1) (fun i => Passes g pages i (runs i)) where
  idle i c hi _ := by
    unfold ncheckAllRound spinandCheckBlock
    rw [if_pos hi]
  does i c hi hsame := by
    obtain ⟨new, heq, hnew, hcount, -⟩ :=
      @blockIsbad_reads _ _ c _ (runs i).r₁ (runs i).r₂ hi
    have hpass := @passes_iff _ _ _ _ _ (runs i) hi hsame
    rw [Nat.add_zero]
    unfold ncheckAllRound spinandCheckBlock
    rw [if_neg (Nat.not_lt.2 hi)]
    generalize blockIsbad g c (Word32.mul i g.pagePerBlock) (runs i).r₁ (runs i).r₂ = res
      at heq hpass ⊢
    obtain ⟨res, c'⟩ := res
    dsimp only at heq hpass
    have hcmds : c'.cmds = c.cmds ++ new := by rw [heq]
    have hsame' : ∀ b, SameBlock g b c c' := fun b => sameBlock_of_pages (by rw [heq])
    cases res with
    | error e =>
      refine ⟨⟨new, hcmds, hnew, hcount⟩, ?_, fun b _ => hsame' b⟩
      exact iff_of_false Bool.false_ne_true fun hp => nomatch (hpass.2 hp).choose_spec
    | ok isbad =>
      have hp := hpass.1 ⟨isbad, rfl⟩
      exact ⟨⟨new, hcmds, hnew, hcount⟩, iff_of_true rfl hp, fun b _ => hsame' b⟩
  about b := page_div (i := 0) (by decide)

-- --------
-- The requests
-- --------

theorem Request.correct_iff {req : Request d} (h : ∀ block cmd, ¬ req.Owes pages block cmd) :
    req.Correct pages ↔ Inside d (req.serve ⟨pages, []⟩) :=
  and_iff_left fun block _ _ cmd howes => absurd howes (h block cmd)

/-- A loop that starts at the first block of the flash. -/
theorem through_iff {runs : Nat → BlockRun}
    (h : Each g pages f d.blockEnd 0 (fun b => .read (b * g.pagePerBlock)) (fun _ => 1)
      (fun i => Passes g pages i (runs i))) :
    (Inside d (rounds f d.blockTotal 0 ⟨pages, []⟩) ∧ ∀ block, d.blockStart ≤ block →
      block ≤ d.blockEnd → (rounds f d.blockTotal 0 ⟨pages, []⟩).cmds.count
        (.read (block * g.pagePerBlock)) = 1) ↔ d.Through pages runs := by
  have htotal := d.total_small
  have hstart := d.start_le
  obtain ⟨hin, hcount⟩ := rounds_covers (n := d.blockTotal) h (by omega)
  simp only [Nat.add_zero, true_and] at hin hcount
  unfold Device.Through
  constructor
  · rintro ⟨hinside, hcover⟩
    have hend : d.blockEnd < d.blockTotal := by
      by_contra hlt
      have hone := hcover d.blockEnd hstart le_rfl
      have hmem := List.count_pos_iff.1 (Nat.lt_of_lt_of_eq Nat.zero_lt_one hone.symm)
      obtain ⟨k, hk, -, hpage⟩ := hin _ hmem
      rw [show (Cmd.read (d.blockEnd * g.pagePerBlock)).page / g.pagePerBlock = d.blockEnd from
        page_div (i := 0) (by decide)] at hpage
      omega
    have hfirst : (rounds f d.blockTotal 0 ⟨pages, []⟩).cmds.count
        (.read (0 * g.pagePerBlock)) = 1 :=
      (hcount 0 (by omega) (Nat.zero_le _)).2 nofun
    have hmem := List.count_pos_iff.1 (Nat.lt_of_lt_of_eq Nat.zero_lt_one hfirst.symm)
    have hzero := (hinside _ hmem).1
    rw [show (Cmd.read (0 * g.pagePerBlock)).page / g.pagePerBlock = 0 from
      page_div (i := 0) (by decide)] at hzero
    exact ⟨by omega, hend, (hcount _ hend le_rfl).1 (hcover _ hstart le_rfl)⟩
  · rintro ⟨h0, hend, hpass⟩
    refine ⟨fun cmd hcmd => ?_, fun block _ hb => ?_⟩
    · obtain ⟨k, -, hk, hpage⟩ := hin cmd hcmd
      rw [hpage]
      omega
    · exact (hcount block (by omega) hb).2 fun j hj => hpass j (by omega)

theorem neraseForce_iff {runs : Nat → EraseRun} :
    (Request.neraseForce runs : Request d).Correct pages ↔
      (Request.neraseForce runs : Request d).Fits pages := by
  obtain ⟨hstart, hlt⟩ := d.bounds
  obtain ⟨hin, hcount⟩ := rounds_covers (n := d.blockEnd + 1)
    (@neraseForce_each _ d pages runs) (by omega)
  have htimes : ∀ i, (if (runs i).enabled = true then 1 else 0) = 1 ↔ (runs i).enabled = true := by
    intro i
    cases (runs i).enabled with
    | false => decide
    | true => decide
  simp only [htimes] at hcount
  have hinside : Inside d (rounds (neraseForceRound d runs) (d.blockEnd + 1) 0 ⟨pages, []⟩) := by
    intro cmd hcmd
    obtain ⟨k, -, hk, hpage⟩ := hin cmd hcmd
    rw [hpage]
    omega
  have hcover : (Request.neraseForce runs : Request d).Correct pages ↔
      ∀ block, d.blockStart ≤ block → block ≤ d.blockEnd →
        (rounds (neraseForceRound d runs) (d.blockEnd + 1) 0 ⟨pages, []⟩).cmds.count
          (.erase (block * g.pagePerBlock)) = 1 := by
    refine ⟨fun h block hb hb' => h.2 block hb hb' _ rfl, fun h => ⟨hinside, ?_⟩⟩
    rintro block hb hb' _ rfl
    exact h block hb hb'
  rw [hcover]
  unfold Request.Fits
  dsimp only
  constructor
  · intro hall i hi
    have hone := hall (i + d.blockStart) (by omega) (by omega)
    refine ⟨((hcount i (by omega) hi).1 hone).1, fun hlast => ?_⟩
    have hidx : d.blockEnd - d.blockStart + d.blockStart = d.blockEnd := by omega
    have hend := hcount (d.blockEnd - d.blockStart) (by omega) le_rfl
    rw [hidx] at hend
    exact ((hend.1 (hall d.blockEnd hstart le_rfl)).2 i hlast).2
  · intro hall block hb hb'
    obtain ⟨i, rfl⟩ : ∃ i, block = i + d.blockStart := ⟨block - d.blockStart, by omega⟩
    refine (hcount i (by omega) (by omega)).2 ⟨(hall i (by omega)).1, fun j hj => ?_⟩
    exact ⟨(hall j (by omega)).1, (hall j (by omega)).2 (by omega)⟩

/-- `nerase_all`: the loop comes through, and finds every block without a marker in a state in which
it can be erased. -/
theorem neraseAll_iff {runs : Nat → BlockRun} :
    (Request.neraseAll runs : Request d).Correct pages ↔
      (Request.neraseAll runs : Request d).Fits pages := by
  classical
  have htotal := d.total_small
  have hstart := d.start_le
  have hsplit : (Request.neraseAll runs : Request d).Correct pages ↔ d.Through pages runs ∧
      ∀ block, d.blockStart ≤ block → block ≤ d.blockEnd → ¬ Carries g ⟨pages, []⟩ block →
        (rounds (neraseAllRound d runs) d.blockTotal 0 ⟨pages, []⟩).cmds.count
          (.erase (block * g.pagePerBlock)) = 1 := by
    rw [← through_iff neraseAll_reads]
    constructor
    · rintro ⟨hinside, howes⟩
      exact ⟨⟨hinside, fun block hb hb' => howes block hb hb' _ (.inl rfl)⟩,
        fun block hb hb' hgood => howes block hb hb' _ (.inr ⟨rfl, hgood⟩)⟩
    · rintro ⟨⟨hinside, hread⟩, herase⟩
      refine ⟨hinside, ?_⟩
      rintro block hb hb' _ (rfl | ⟨rfl, hgood⟩)
      · exact hread block hb hb'
      · exact herase block hb hb' hgood
  rw [hsplit]
  refine and_congr_right fun hthrough => ?_
  obtain ⟨h0, hend, hpass⟩ := hthrough
  obtain ⟨-, hcount⟩ := rounds_covers (n := d.blockTotal)
    (@neraseAll_erases _ d pages runs) (by omega)
  -- a block without a marker is seen without one
  have hone : ∀ block ≤ d.blockEnd, ¬ Carries g ⟨pages, []⟩ block →
      ((rounds (neraseAllRound d runs) d.blockTotal 0 ⟨pages, []⟩).cmds.count
        (.erase (block * g.pagePerBlock)) = 1 ↔
          Passes g pages block (runs block) ∧ (runs block).er.enabled = true) := by
    intro block hb hgood
    have hseen : ¬ Seen g ⟨pages, []⟩ block := fun h => hgood (h.imp_right And.right)
    refine (hcount block (by omega) hb).trans ?_
    rw [ite_eq_left_iff, and_iff_left fun j hj => hpass j (by omega)]
    unfold Erases
    constructor
    · intro h
      by_contra hnot
      exact absurd (h fun he => hnot ⟨he.1, he.2.2⟩) (by decide)
    · exact fun h hnot => absurd ⟨h.1, hseen, h.2⟩ hnot
  constructor
  · exact fun h block hb hgood => (hone block hb hgood).1 (h block (by omega) hb hgood)
  · exact fun h block _ hb hgood => (hone block hb hgood).2 (h block hb hgood)

/-- **Partitions** of a flash: ranges of blocks that are apart. -/
structure PartitionTable (g : Geometry) where
  size : Nat
  device : Fin size → Device g
  apart : ∀ i j, i ≠ j → (device i).blockEnd < (device j).blockStart ∨
    (device j).blockEnd < (device i).blockStart

/-- **The condition**, exactly: for every partition, every request and every flash. -/
theorem spinand_partition {g : Geometry} {table : PartitionTable g} {i : Fin table.size}
    {req : Request (table.device i)} {pages : Nat → Page} :
    req.Correct pages ↔ req.Fits pages := by
  cases req with
  | readPage page dataLen spareLen r spareReceived =>
    rw [Request.correct_iff fun _ _ => id]
    exact readPage_inside
  | writePage page data spare loaded pr =>
    rw [Request.correct_iff fun _ _ => id]
    exact writePage_inside
  | movePage src dst r enabled pr =>
    rw [Request.correct_iff fun _ _ => id]
    exact movePage_inside
  | eraseBlock block run =>
    rw [Request.correct_iff fun _ _ => id]
    exact touches_erase.inside_iff
  | checkBlock block run =>
    rw [Request.correct_iff fun _ _ => id]
    exact touches_check.inside_iff
  | markBadblock block run loaded pr =>
    rw [Request.correct_iff fun _ _ => id]
    exact touches_mark.inside_iff
  | nread page valid room r spareReceived =>
    rw [Request.correct_iff fun _ _ => id]
    refine iff_of_true ?_ trivial
    cases room with
    | false => exact nofun
    | true => exact readPage_inside.2 (Or.inl (Device.pageOf_block valid).1)
  | nwrite page valid room loaded pr =>
    rw [Request.correct_iff fun _ _ => id]
    refine iff_of_true ?_ trivial
    cases room with
    | false => exact nofun
    | true => exact writePage_inside.2 fun _ => Or.inl (Device.pageOf_block valid).1
  | nmove src dst valid r enabled pr =>
    rw [Request.correct_iff fun _ _ => id]
    exact iff_of_true (movePage_inside.2 (Or.inr (Or.inr ⟨(Device.pageOf_block valid.1).1,
      fun _ _ => (Device.pageOf_block valid.2).1⟩))) trivial
  | nerase block valid run =>
    rw [Request.correct_iff fun _ _ => id]
    exact iff_of_true (touches_erase.inside_iff.2 (Or.inl (Device.blockOf valid).1)) trivial
  | nmarkbad block valid run loaded pr =>
    rw [Request.correct_iff fun _ _ => id]
    exact iff_of_true (touches_mark.inside_iff.2 (Or.inl (Device.blockOf valid).1)) trivial
  | neraseForce runs => exact neraseForce_iff
  | neraseAll runs => exact neraseAll_iff
  | ncheckAll runs =>
    rw [Request.Fits, ← through_iff ncheckAll_each]
    refine and_congr_right fun _ => ⟨fun h block hb hb' => h block hb hb' _ rfl, ?_⟩
    rintro h block hb hb' _ rfl
    exact h block hb hb'

/-- The first two partitions of the board. -/
def boardTable : PartitionTable winbond128MB where
  size := 2
  device i :=
    if i = 0 then ⟨0, 63, 64, by decide, by decide, by decide⟩
    else ⟨64, 1023, 1000, by decide, wholeFlash.end_lt, by decide⟩
  apart := by decide

/-- **`nerase_all` on the second partition** starts with block 0, which is in the first one. -/
theorem spinand_partition_all :
    ¬ (Request.neraseAll fun _ => ⟨⟨true, 0, true⟩, ⟨true, 0, true⟩, ⟨⟨true, true, 0⟩, true,
      fun _ _ => 0xFF⟩⟩ : Request (boardTable.device ⟨1, by decide⟩)).Correct fun _ _ => 0xFF := by
  intro h
  exact absurd (neraseAll_iff.1 h).1.1 (by decide)

end RTThread.Spinand
