import RTThread.Lib.Runs
import RTThread.Dfs.Ramfs
import RTThread.Dfs.Romfs

/-!
# Directory streams (`readdir`, `telldir`, `seekdir`, `rewinddir` of `dfs_posix.c`)

A stream reads the entries of a directory into a buffer and hands them out from there. The file
system counts its position in entries, the stream its place in the buffer in bytes; `telldir`
subtracts the one from the other. What it returns behind an entry is the position less the 260
bytes of a `struct dirent`, and what `seekdir` makes of such an offset is up to the file system:
`dfs_romfs_lseek` refuses it, `dfs_ramfs_lseek` takes it, and then finds no more entries.

`readdir_iff`: in every run of calls on an open stream, where a caller goes back to places that it
has asked for, `readdir` has still to yield what it should in every state if and only if the offset
of each place that the caller goes back to leads there, or leaves the stream where that is.
-/

namespace RTThread.Dfs

open Romfs

-- --------
-- The code
-- --------

/-- `DT_REG` -/
def dtReg : Nat := 0x01

/-- `DT_DIR` -/
def dtDir : Nat := 0x02

/-- `struct dirent`, with the string in `d_name`. -/
structure Dirent where
  dType : Nat
  dNamlen : Nat
  dReclen : Nat
  dName : List Char
deriving DecidableEq

/-- `sizeof(struct dirent)` -/
def direntSize : Nat := 260

/-- `sizeof(d->buf)` -/
def bufSize : Nat := 512

/-- `RT_NAME_MAX` -/
def rtNameMax : Nat := 16

/-- What `dfs_ramfs_getdents` fills in. -/
def Dirent.ofRamfs (dirent : RamfsDirent) : Dirent where
  dType := dtReg
  dNamlen := rtNameMax
  dReclen := direntSize
  dName := (dirent.name.take ramfsNameMax).takeWhile fun c => c ≠ '\x00'

/-- What `dfs_romfs_getdents` fills in. -/
def Dirent.ofRomfs (dirent : RomfsDirent) : Dirent where
  dType := if dirent.type = romfsDirentDir then dtDir else dtReg
  dNamlen := dirent.name.chars.length % 256
  dReclen := direntSize
  dName := dirent.name.chars.take 256

/-- A directory that is open: the list behind the root of a RAM file system, or the entries of a
directory of a ROM file system. -/
inductive DirEntries
  | ramfs (entries : List RamfsDirent)
  | romfs (entries : List RomfsDirent)

/-- What `readdir` is to yield. -/
def DirEntries.dirents : DirEntries → List Dirent
  | ramfs entries => entries.map Dirent.ofRamfs
  | romfs entries => entries.map Dirent.ofRomfs

/-- A directory, whose entries are somewhere in the memory. -/
structure OpenDir where
  entries : DirEntries
  fits : entries.dirents.length < 2 ^ 31

/-- `DIR`, with the position of its file: `buf` has the record that begins at a place. -/
structure DirStream where
  pos : Int
  buf : Nat → Dirent
  num : Nat
  cur : Nat

/-- A position as an `rt_size_t`. -/
def toSize (pos : Int) : Nat := (pos % 2 ^ 32).toNat

/-- The loop of `dfs_ramfs_getdents`: the records, and the position. -/
def ramfsRecords (stop : Nat) : List RamfsDirent → Nat → Int → List Dirent → List Dirent × Int
  | [], _, pos, ds => (ds, pos)
  | dirent :: rest, index, pos, ds =>
    if index < stop then
      if toSize pos ≤ index then
        ramfsRecords stop rest (index + 1) (pos + 1) (ds ++ [Dirent.ofRamfs dirent])
      else ramfsRecords stop rest (index + 1) pos ds
    else (ds, pos)

/-- The loop of `dfs_romfs_getdents`. -/
def romfsRecords (entries : List RomfsDirent) : Nat → Int → List Dirent → List Dirent × Int
  | 0, pos, ds => (ds, pos)
  | count + 1, pos, ds =>
    match entries[toSize pos]? with
    | some dirent => romfsRecords entries count (pos + 1) (ds ++ [Dirent.ofRomfs dirent])
    | none => (ds, pos)

/-- The records lie one behind the other. -/
def fillRecords (buf : Nat → Dirent) (ds : List Dirent) : Nat → Dirent := fun at' =>
  if at' % direntSize = 0 then ds.getD (at' / direntSize) (buf at') else buf at'

/-- `dfs_file_getdents`, with the buffer of a stream. -/
def OpenDir.getdents (dir : OpenDir) (d : DirStream) (nbytes : Nat) : Int × DirStream :=
  let count := nbytes / direntSize
  if count = 0 then (-22, d)
  else
    let (ds, pos) := match dir.entries with
      | .ramfs entries => ramfsRecords (toSize (d.pos + count)) entries 0 d.pos []
      | .romfs entries => romfsRecords entries count d.pos []
    (ds.length * direntSize, { d with pos, buf := fillRecords d.buf ds })

/-- `dfs_file_lseek`: `file->size` is 0 for the root of a RAM file system, and the number of entries
in a ROM file system, where the comparison is one of unsigned numbers. -/
def OpenDir.lseek (dir : OpenDir) (d : DirStream) (offset : Int) : Int × DirStream :=
  let fits := match dir.entries with
    | .ramfs _ => decide (offset ≤ 0)
    | .romfs entries => decide (toSize offset ≤ entries.length)
  if fits then (offset, { d with pos := offset }) else (-5, d)

/-- `readdir` -/
def readdir (dir : OpenDir) (d : DirStream) : Option Dirent × DirStream :=
  let d := if d.num ≠ 0 then { d with cur := d.cur + (d.buf d.cur).dReclen } else d
  if d.num = 0 ∨ d.cur ≥ d.num then
    -- get a new entry
    let (result, d) := dir.getdents d (bufSize - 1)
    if result ≤ 0 then (none, d)
    else (some (d.buf 0), { d with num := result.toNat, cur := 0 })
  else (some (d.buf d.cur), d)

/-- `telldir` -/
def telldir (d : DirStream) : Int := toInt (d.pos - d.num + d.cur)

/-- `seekdir` -/
def seekdir (dir : OpenDir) (d : DirStream) (offset : Int) : DirStream :=
  let (result, d) := dir.lseek d offset
  if result ≥ 0 then { d with num := 0, cur := 0 } else d

/-- `rewinddir` -/
def rewinddir (dir : OpenDir) (d : DirStream) : DirStream := seekdir dir d 0

/-- The stream that `opendir` returns. -/
def opendir : DirStream where
  pos := 0
  buf := fun _ => ⟨0, 0, 0, []⟩
  num := 0
  cur := 0

-- --------
-- What it is for
-- --------

/-- A call on the stream. A caller goes to the place that it was told by its `i`-th `telldir`. -/
inductive DirCall
  | readdir
  | telldir
  | seekdir (i : Nat)
  | rewinddir
deriving DecidableEq

/-- A caller with its stream, and what it was told. -/
structure DirUser where
  stream : DirStream
  told : List Int

/-- A call of the caller. -/
def DirUser.exec (dir : OpenDir) (s : DirUser) : DirCall → Option DirUser
  | .readdir => some { s with stream := (readdir dir s.stream).2 }
  | .telldir => some { s with told := s.told ++ [telldir s.stream] }
  | .seekdir i => (s.told[i]?).map fun offset => { s with stream := seekdir dir s.stream offset }
  | .rewinddir => some { s with stream := rewinddir dir s.stream }

/-- Where the caller is, and where it was when it asked. `held` records are in the buffer that were
handed out, and the position of the file is behind the place by another `lag` of them; a place that
was told goes with the sum of the two. -/
structure Place where
  next : Nat
  lag : Nat
  held : Nat
  told : List (Nat × Nat)
deriving DecidableEq

/-- The offset that goes with a place: its entries, less the bytes of the records. -/
def Place.offset (at' : Nat × Nat) : Int := toInt (at'.1 - 260 * at'.2)

/-- The caller goes back to a place that it was told. A RAM file system takes an offset in front of
the directory for its position and says that it failed. -/
def Place.seek (dir : OpenDir) (g : Place) (at' : Nat × Nat) : Place :=
  let offset := Place.offset at'
  match dir.entries with
  | .ramfs _ =>
    if offset < 0 then { g with next := at'.1, lag := at'.2 }
    else if offset = 0 then { g with next := at'.1, lag := 0, held := 0 }
    else { g with next := at'.1 }
  | .romfs entries =>
    if 0 ≤ offset ∧ offset ≤ entries.length then { g with next := at'.1, lag := 0, held := 0 }
    else { g with next := at'.1 }

/-- What a call makes of the place. -/
def Place.after (dir : OpenDir) (g : Place) (_ : DirUser) : DirCall → Place
  | .readdir =>
    if g.next < dir.entries.dirents.length then { g with next := g.next + 1, lag := 0, held := 1 }
    else { g with held := 0 }
  | .telldir => { g with told := g.told ++ [(g.next, g.lag + g.held)] }
  | .seekdir i => (g.told[i]?).elim g (g.seek dir)
  | .rewinddir => { g with next := 0, lag := 0, held := 0 }

/-- The calls, with the place of the caller. -/
abbrev DirStep (dir : OpenDir) :=
  Runs.Exec (Runs.execObserved (DirUser.exec dir) (Place.after dir))

/-- The caller has opened the directory. -/
def opened : DirUser × Place := (⟨opendir, []⟩, ⟨0, 0, 0, []⟩)

/-- What the calls of `readdir` yield from now on. -/
def Yields (dir : OpenDir) : DirStream → List Dirent → Prop
  | d, [] => (readdir dir d).1 = none
  | d, e :: es => (readdir dir d).1 = some e ∧ Yields dir (readdir dir d).2 es

/-- **What a stream is for**: `readdir` yields the entries from the caller's place on. -/
def DirUser.Good (dir : OpenDir) (p : DirUser × Place) : Prop :=
  Yields dir p.1.stream (dir.entries.dirents.drop p.2.next)

/-- Where an offset leads to, from the place `next`. -/
def landing (dir : OpenDir) (next : Nat) (offset : Int) : Nat :=
  match dir.entries with
  | .ramfs entries => if offset < 0 then entries.length else if offset = 0 then 0 else next
  | .romfs entries => if 0 ≤ offset ∧ offset ≤ entries.length then offset.toNat else next

/-- **What a run has to keep to**: a caller goes back only to a place whose offset leads there. -/
def DirUser.Lands (dir : OpenDir) (p : DirUser × Place) : DirCall → Prop
  | .seekdir i => ∀ at' ∈ p.2.told[i]?, landing dir p.2.next (Place.offset at') = at'.1
  | _ => True

-- --------
-- What the file systems do
-- --------

section Getdents

variable {dir : OpenDir} {d : DirStream} {q : Nat}

theorem toSize_natCast {n : Nat} (h : n < 2 ^ 31) : toSize n = n := by
  rw [toSize]
  omega

theorem toSize_neg {pos : Int} (hge : -2 ^ 31 ≤ pos) (hneg : pos < 0) : 2 ^ 31 ≤ toSize pos := by
  rw [toSize]
  omega

theorem ramfsRecords_stop {stop index : Nat} {pos : Int} {ds : List Dirent} (h : stop ≤ index)
    (entries : List RamfsDirent) : ramfsRecords stop entries index pos ds = (ds, pos) := by
  cases entries with
  | nil => rfl
  | cons dirent rest => rw [ramfsRecords, if_neg (Nat.not_lt.2 h)]

/-- The one entry at the position is found, if there is one. -/
theorem ramfsRecords_one {p : Nat} (hp : p < 2 ^ 31) (entries : List RamfsDirent) :
    ∀ index, index ≤ p → ramfsRecords (p + 1) entries index p [] =
      match entries[p - index]? with
      | some dirent => ([Dirent.ofRamfs dirent], (p + 1 : Nat))
      | none => ([], (p : Int)) := by
  induction entries with
  | nil =>
    intro index _
    rfl
  | cons dirent rest ih =>
    intro index hle
    rw [ramfsRecords, if_pos (Nat.lt_succ_of_le hle), toSize_natCast hp]
    by_cases hat : p ≤ index
    · obtain rfl : index = p := Nat.le_antisymm hle hat
      rw [if_pos hat, ramfsRecords_stop (Nat.le_refl _), Nat.sub_self]
      rfl
    · rw [if_neg hat, ih (index + 1) (by omega),
        show p - index = p - (index + 1) + 1 by omega, List.getElem?_cons_succ]

/-- Nothing is found in front of a position that is negative. -/
theorem ramfsRecords_none {stop : Nat} {pos : Int} (entries : List RamfsDirent) :
    ∀ index, index + entries.length ≤ toSize pos →
      ramfsRecords stop entries index pos [] = ([], pos) := by
  induction entries with
  | nil =>
    intro index _
    rfl
  | cons dirent rest ih =>
    intro index h
    rw [List.length_cons] at h
    rw [ramfsRecords]
    split
    case isTrue =>
      rw [if_neg (by omega)]
      exact ih (index + 1) (by omega)
    case isFalse => rfl

/-- Where the position of the file is: at the next entry, or somewhere from which no entry is
found. -/
def OpenDir.AtPos (dir : OpenDir) (pos : Int) (q : Nat) : Prop :=
  (pos = q ∧ q ≤ dir.entries.dirents.length) ∨
    ((∃ entries, dir.entries = .ramfs entries) ∧ -2 ^ 31 ≤ pos ∧ pos < 0 ∧
      q = dir.entries.dirents.length)

theorem OpenDir.AtPos.le {pos : Int} (h : dir.AtPos pos q) : q ≤ dir.entries.dirents.length := by
  rcases h with ⟨-, hle⟩ | ⟨-, -, -, rfl⟩
  · exact hle
  · exact Nat.le_refl _

theorem fillRecords_nil (buf : Nat → Dirent) : fillRecords buf [] = buf := by
  funext x
  rw [fillRecords]
  split <;> rfl

theorem fillRecords_zero (buf : Nat → Dirent) (e : Dirent) : fillRecords buf [e] 0 = e := by
  rw [fillRecords, if_pos (Nat.zero_mod _)]
  rfl

theorem getdents_ramfs {entries : List RamfsDirent} (hdir : dir.entries = .ramfs entries) :
    dir.getdents d (bufSize - 1) =
      (((ramfsRecords (toSize (d.pos + 1)) entries 0 d.pos []).1.length : Int) * direntSize,
        { d with
          pos := (ramfsRecords (toSize (d.pos + 1)) entries 0 d.pos []).2
          buf := fillRecords d.buf (ramfsRecords (toSize (d.pos + 1)) entries 0 d.pos []).1 }) := by
  unfold OpenDir.getdents
  rw [hdir]
  rfl

theorem getdents_romfs {entries : List RomfsDirent} (hdir : dir.entries = .romfs entries) :
    dir.getdents d (bufSize - 1) =
      (((romfsRecords entries 1 d.pos []).1.length : Int) * direntSize,
        { d with
          pos := (romfsRecords entries 1 d.pos []).2
          buf := fillRecords d.buf (romfsRecords entries 1 d.pos []).1 }) := by
  unfold OpenDir.getdents
  rw [hdir]
  rfl

/-- **`dfs_file_getdents`** for a stream that has an entry left. -/
theorem getdents_some {e : Dirent} (h : dir.AtPos d.pos q) (he : dir.entries.dirents[q]? = some e) :
    dir.getdents d (bufSize - 1) =
      (260, { d with pos := ((q + 1 : Nat) : Int), buf := fillRecords d.buf [e] }) := by
  have hlt : q < dir.entries.dirents.length := (List.getElem?_eq_some_iff.1 he).1
  obtain ⟨hpos, -⟩ : d.pos = q ∧ q ≤ _ := by
    refine h.resolve_right ?_
    rintro ⟨-, -, -, rfl⟩
    exact absurd hlt (Nat.lt_irrefl _)
  have hq : q < 2 ^ 31 := Nat.lt_trans hlt dir.fits
  cases hdir : dir.entries with
  | ramfs entries =>
    rw [hdir, DirEntries.dirents, List.getElem?_map, Option.map_eq_some_iff] at he
    obtain ⟨dirent, hat, rfl⟩ := he
    have hfits := dir.fits
    have hstop : toSize (d.pos + 1) = q + 1 := by
      rw [hpos, toSize]
      omega
    rw [getdents_ramfs hdir, hstop, hpos, ramfsRecords_one hq entries 0 (Nat.zero_le _),
      Nat.sub_zero, hat]
    simp [direntSize]
  | romfs entries =>
    rw [hdir, DirEntries.dirents, List.getElem?_map, Option.map_eq_some_iff] at he
    obtain ⟨dirent, hat, rfl⟩ := he
    have hrec : romfsRecords entries 1 q [] = ([Dirent.ofRomfs dirent], ((q + 1 : Nat) : Int)) := by
      rw [romfsRecords.eq_2, toSize_natCast hq, hat]
      rfl
    rw [getdents_romfs hdir, hpos, hrec]
    simp [direntSize]

/-- And for one that has none. -/
theorem getdents_none (h : dir.AtPos d.pos q) (hq : dir.entries.dirents.length ≤ q) :
    dir.getdents d (bufSize - 1) = (0, d) := by
  have hfits := dir.fits
  cases hdir : dir.entries with
  | ramfs entries =>
    have hlen : dir.entries.dirents.length = entries.length := by
      rw [hdir, DirEntries.dirents, List.length_map]
    have hrec : ramfsRecords (toSize (d.pos + 1)) entries 0 d.pos [] = ([], d.pos) := by
      refine ramfsRecords_none entries 0 ?_
      rw [Nat.zero_add, ← hlen]
      rcases h with ⟨hpos, hle⟩ | ⟨-, hge, hneg, -⟩
      · rw [hpos, toSize_natCast (Nat.lt_of_le_of_lt hle hfits)]
        exact hq
      · exact Nat.le_of_lt (Nat.lt_of_lt_of_le hfits (toSize_neg hge hneg))
    rw [getdents_ramfs hdir, hrec, fillRecords_nil]
    simp
  | romfs entries =>
    have hlen : dir.entries.dirents.length = entries.length := by
      rw [hdir, DirEntries.dirents, List.length_map]
    obtain ⟨hpos, hle⟩ : d.pos = q ∧ q ≤ _ := by
      refine h.resolve_right ?_
      rintro ⟨⟨entries', hram⟩, -⟩
      rw [hdir] at hram
      cases hram
    have hrec : romfsRecords entries 1 d.pos [] = ([], d.pos) := by
      rw [romfsRecords.eq_2, hpos, toSize_natCast (Nat.lt_of_le_of_lt hle hfits),
        List.getElem?_eq_none (by omega)]
    rw [getdents_romfs hdir, hrec, fillRecords_nil]
    simp

/-- What the buffer has: the record of an entry that was handed out, or none. -/
def DirStream.Holds (d : DirStream) : Nat → Prop
  | 0 => (d.num = 0 ∧ d.cur = 0) ∨ (d.num = 260 ∧ d.cur = 260)
  | 1 => d.num = 260 ∧ d.cur = 0 ∧ (d.buf 0).dReclen = 260
  | _ => False

/-- A stream whose next entry is the `q`-th. -/
structure DirStream.At (dir : OpenDir) (d : DirStream) (q held : Nat) : Prop where
  pos : dir.AtPos d.pos q
  holds : d.Holds held
  /-- Only one record fits into the buffer. -/
  blank : (d.buf 260).dReclen = 0

theorem DirEntries.dReclen_of_mem {entries : DirEntries} {e : Dirent} (he : e ∈ entries.dirents) :
    e.dReclen = 260 := by
  cases entries with
  | ramfs entries =>
    obtain ⟨dirent, -, rfl⟩ := List.mem_map.1 he
    rfl
  | romfs entries =>
    obtain ⟨dirent, -, rfl⟩ := List.mem_map.1 he
    rfl

/-- Whatever the buffer has, nothing is left in it for `readdir`. -/
theorem stale_of_holds {held : Nat} (h : d.Holds held) (hblank : (d.buf 260).dReclen = 0) :
    ∃ d', (if d.num ≠ 0 then { d with cur := d.cur + (d.buf d.cur).dReclen } else d) = d' ∧
      d'.pos = d.pos ∧ d'.buf = d.buf ∧ d'.Holds 0 ∧ (d'.num = 0 ∨ d'.cur ≥ d'.num) := by
  rcases held with _ | _ | held
  · rcases h with ⟨hnum, hcur⟩ | ⟨hnum, hcur⟩
    · exact ⟨d, if_neg (not_not.2 hnum), rfl, rfl, .inl ⟨hnum, hcur⟩, .inl hnum⟩
    · refine ⟨d, ?_, rfl, rfl, .inr ⟨hnum, hcur⟩, .inr (by omega)⟩
      rw [if_pos (by omega), hcur, hblank, Nat.add_zero, ← hcur]
  · obtain ⟨hnum, hcur, hreclen⟩ := h
    refine ⟨{ d with cur := 260 }, ?_, rfl, rfl, .inr ⟨hnum, rfl⟩, .inr (Nat.le_of_eq hnum)⟩
    rw [if_pos (by omega), hcur, hreclen]
  · exact h.elim

/-- `readdir` gets a new entry. -/
theorem readdir_eq {held : Nat} (h : d.Holds held) (hblank : (d.buf 260).dReclen = 0) :
    ∃ d', d'.pos = d.pos ∧ d'.buf = d.buf ∧ d'.Holds 0 ∧
      ∀ result d'', dir.getdents d' (bufSize - 1) = (result, d'') →
        readdir dir d = if result ≤ 0 then (none, d'')
          else (some (d''.buf 0), { d'' with num := result.toNat, cur := 0 }) := by
  obtain ⟨d', hd', hpos, hbuf, hholds, hstale⟩ := stale_of_holds h hblank
  refine ⟨d', hpos, hbuf, hholds, fun result d'' hget => ?_⟩
  unfold readdir
  rw [hd', if_pos hstale, hget]

/-- **`readdir`** where there is an entry left. -/
theorem readdir_some {held : Nat} {e : Dirent} (h : d.At dir q held)
    (he : dir.entries.dirents[q]? = some e) :
    (readdir dir d).1 = some e ∧ (readdir dir d).2.At dir (q + 1) 1 ∧
      (readdir dir d).2.pos = (q + 1 : Nat) := by
  obtain ⟨d', hpos, hbuf, -, heq⟩ := @readdir_eq dir d held h.holds h.blank
  rw [heq _ _ (getdents_some (hpos ▸ h.pos) he), if_neg (show ¬(260 : Int) ≤ 0 by decide)]
  refine ⟨congrArg some (fillRecords_zero d'.buf e), ⟨?_, ⟨rfl, rfl, ?_⟩, ?_⟩, rfl⟩
  · exact .inl ⟨rfl, (List.getElem?_eq_some_iff.1 he).1⟩
  · show (fillRecords d'.buf [e] 0).dReclen = 260
    rw [fillRecords_zero]
    exact DirEntries.dReclen_of_mem (List.mem_of_getElem? he)
  · show (d'.buf 260).dReclen = 0
    rw [hbuf]
    exact h.blank

/-- And where there is none. -/
theorem readdir_none {held : Nat} (h : d.At dir q held) (hq : dir.entries.dirents.length ≤ q) :
    (readdir dir d).1 = none ∧ (readdir dir d).2.At dir q 0 ∧ (readdir dir d).2.pos = d.pos := by
  obtain ⟨d', hpos, hbuf, hholds, heq⟩ := @readdir_eq dir d held h.holds h.blank
  rw [heq _ _ (getdents_none (hpos ▸ h.pos) hq), if_pos (Int.le_refl 0)]
  exact ⟨rfl, ⟨hpos ▸ h.pos, hholds, hbuf ▸ h.blank⟩, hpos⟩

end Getdents

-- --------
-- What is still to come
-- --------

section Yields

variable {dir : OpenDir} {d : DirStream} {q held : Nat}

/-- A stream yields the entries from its next one on. -/
theorem DirStream.At.yields (h : d.At dir q held) :
    Yields dir d (dir.entries.dirents.drop q) := by
  induction hes : dir.entries.dirents.drop q generalizing d q held with
  | nil => exact (readdir_none h (List.drop_eq_nil_iff.1 hes)).1
  | cons e es ih =>
    have hlt : q < dir.entries.dirents.length := by
      refine Nat.lt_of_not_le fun hle => ?_
      rw [List.drop_eq_nil_iff.2 hle] at hes
      cases hes
    rw [List.drop_eq_getElem_cons hlt] at hes
    obtain ⟨rfl, htail⟩ := List.cons_eq_cons.1 hes
    obtain ⟨hfst, hat, -⟩ := readdir_some h (List.getElem?_eq_getElem hlt)
    exact ⟨hfst, ih hat htail⟩

theorem Yields.unique {es es' : List Dirent} (h : Yields dir d es) (h' : Yields dir d es') :
    es = es' := by
  induction es generalizing d es' with
  | nil =>
    cases es' with
    | nil => rfl
    | cons e' es' => exact absurd (h.symm.trans h'.1) (Option.some_ne_none e').symm
  | cons e es ih =>
    cases es' with
    | nil => exact absurd (h'.symm.trans h.1) (Option.some_ne_none e).symm
    | cons e' es' =>
      obtain rfl : e = e' := Option.some.inj (h.1.symm.trans h'.1)
      exact congrArg (e :: ·) (ih h.2 h'.2)

/-- What is still to come says where the stream is. -/
theorem DirStream.At.yields_iff {q' : Nat} (h : d.At dir q held)
    (hq' : q' ≤ dir.entries.dirents.length) :
    Yields dir d (dir.entries.dirents.drop q') ↔ q = q' := by
  constructor
  · intro hy
    have hlen := congrArg List.length (h.yields.unique hy)
    have hle := h.pos.le
    rw [List.length_drop, List.length_drop] at hlen
    omega
  · rintro rfl
    exact h.yields

end Yields

-- --------
-- Going back
-- --------

section Seek

variable {dir : OpenDir} {d : DirStream} {q held : Nat} {offset : Int}

theorem le_toInt (x : Int) : -2 ^ 31 ≤ toInt x := Int.le_bmod (show 0 < 2 ^ 32 by decide)

theorem toInt_lt (x : Int) : toInt x < 2 ^ 31 := Int.bmod_lt (show 0 < 2 ^ 32 by decide)

theorem toSize_le_iff {n : Nat} (hn : n < 2 ^ 31) (hge : -2 ^ 31 ≤ offset) (hlt : offset < 2 ^ 31) :
    toSize offset ≤ n ↔ 0 ≤ offset ∧ offset ≤ n := by
  rw [toSize]
  omega

/-- A stream that was moved has nothing in its buffer. -/
theorem DirStream.At.moved (h : d.At dir q held) {q' : Nat}
    (hq' : q' ≤ dir.entries.dirents.length) :
    DirStream.At dir { d with pos := q', num := 0, cur := 0 } q' 0 :=
  ⟨.inl ⟨rfl, hq'⟩, .inl ⟨rfl, rfl⟩, h.blank⟩

/-- **`seekdir` in a RAM file system.** -/
theorem seekdir_ramfs {entries : List RamfsDirent} (hdir : dir.entries = .ramfs entries) :
    seekdir dir d offset =
      if offset < 0 then { d with pos := offset }
      else if offset = 0 then { d with pos := 0, num := 0, cur := 0 } else d := by
  unfold seekdir OpenDir.lseek
  rw [hdir]
  rcases Int.lt_trichotomy offset 0 with hneg | rfl | hpos
  · rw [if_pos hneg, if_pos (decide_eq_true (Int.le_of_lt hneg))]
    exact if_neg (Int.not_le.2 hneg)
  · rfl
  · rw [if_neg (Int.not_lt.2 (Int.le_of_lt hpos)), if_neg (Int.ne_of_gt hpos),
      if_neg (by simpa using hpos)]
    rfl

/-- **`seekdir` in a ROM file system.** -/
theorem seekdir_romfs {entries : List RomfsDirent} (hdir : dir.entries = .romfs entries)
    (hge : -2 ^ 31 ≤ offset) (hlt : offset < 2 ^ 31) :
    seekdir dir d offset =
      if 0 ≤ offset ∧ offset ≤ entries.length then { d with pos := offset, num := 0, cur := 0 }
      else d := by
  have hfits : entries.length < 2 ^ 31 := by
    have h := dir.fits
    rwa [hdir, DirEntries.dirents, List.length_map] at h
  unfold seekdir OpenDir.lseek
  rw [hdir]
  have hin := toSize_le_iff hfits hge hlt
  by_cases hle : toSize offset ≤ entries.length
  · rw [if_pos (hin.1 hle), if_pos (decide_eq_true hle)]
    exact if_pos (hin.1 hle).1
  · rw [if_neg (mt hin.2 hle), if_neg (mt of_decide_eq_true hle)]
    rfl

variable {g : Place} {at' : Nat × Nat}

theorem offset_zero {q : Nat} (hq : q < 2 ^ 31) : Place.offset (q, 0) = q := by
  rw [Place.offset, toInt_of_fits]
  · exact Int.sub_zero _
  · omega
  · omega

/-- **`seekdir`**: from the place to the one that the offset leads to. -/
theorem seekdir_at (h : d.At dir g.next g.held) :
    (seekdir dir d (Place.offset at')).At dir (landing dir g.next (Place.offset at'))
      (g.seek dir at').held := by
  have hge := le_toInt (at'.1 - 260 * at'.2)
  have hlt := toInt_lt (at'.1 - 260 * at'.2)
  rw [← Place.offset] at hge hlt
  unfold landing Place.seek
  cases hdir : dir.entries with
  | ramfs entries =>
    have hlen : dir.entries.dirents.length = entries.length := by
      rw [hdir, DirEntries.dirents, List.length_map]
    rw [seekdir_ramfs hdir]
    rcases Int.lt_trichotomy (Place.offset at') 0 with hneg | hzero | hpos
    · simp only [if_pos hneg]
      exact ⟨.inr ⟨⟨entries, hdir⟩, hge, hneg, hlen.symm⟩, h.holds, h.blank⟩
    · simp only [hzero, if_neg (Int.lt_irrefl 0), if_true]
      exact h.moved (Nat.zero_le _)
    · simp only [if_neg (Int.not_lt.2 (Int.le_of_lt hpos)), if_neg (Int.ne_of_gt hpos)]
      exact h
  | romfs entries =>
    rw [seekdir_romfs hdir hge hlt]
    by_cases hin : 0 ≤ Place.offset at' ∧ Place.offset at' ≤ entries.length
    · have hq' : (Place.offset at').toNat ≤ dir.entries.dirents.length := by
        rw [hdir, DirEntries.dirents, List.length_map]
        omega
      have hmoved := h.moved hq'
      rw [Int.toNat_of_nonneg hin.1] at hmoved
      simp only [if_pos hin]
      exact hmoved
    · simp only [if_neg hin]
      exact h

/-- And the position that goes with it, where that is the place it was to lead to. -/
theorem seekdir_pos (hpos : d.pos = Place.offset (g.next, g.lag))
    (hland : landing dir g.next (Place.offset at') = at'.1) :
    (seekdir dir d (Place.offset at')).pos =
      Place.offset ((g.seek dir at').next, (g.seek dir at').lag) := by
  have hge := le_toInt (at'.1 - 260 * at'.2)
  have hlt := toInt_lt (at'.1 - 260 * at'.2)
  rw [← Place.offset] at hge hlt
  unfold landing at hland
  unfold Place.seek
  cases hdir : dir.entries with
  | ramfs entries =>
    rw [seekdir_ramfs hdir]
    rw [hdir] at hland
    rcases Int.lt_trichotomy (Place.offset at') 0 with hneg | hzero | hpos'
    · simp only [if_pos hneg]
    · simp only [hzero, if_neg (Int.lt_irrefl 0), if_true] at hland ⊢
      rw [← hland, offset_zero (by decide)]
      rfl
    · simp only [if_neg (Int.not_lt.2 (Int.le_of_lt hpos')), if_neg (Int.ne_of_gt hpos')]
        at hland ⊢
      rw [hpos, hland]
  | romfs entries =>
    rw [seekdir_romfs hdir hge hlt]
    rw [hdir] at hland
    by_cases hin : 0 ≤ Place.offset at' ∧ Place.offset at' ≤ entries.length
    · simp only [if_pos hin] at hland ⊢
      rw [← hland, offset_zero (by omega), Int.toNat_of_nonneg hin.1]
    · simp only [if_neg hin] at hland ⊢
      rw [hpos, hland]

theorem seek_next : (g.seek dir at').next = at'.1 ∧ (g.seek dir at').told = g.told := by
  unfold Place.seek
  cases dir.entries with
  | ramfs entries =>
    simp only
    split_ifs <;> exact ⟨rfl, rfl⟩
  | romfs entries =>
    simp only
    split_ifs <;> exact ⟨rfl, rfl⟩

/-- **`rewinddir`** -/
theorem rewinddir_eq : rewinddir dir d = { d with pos := 0, num := 0, cur := 0 } := by
  unfold rewinddir
  cases hdir : dir.entries with
  | ramfs entries =>
    rw [seekdir_ramfs hdir]
    rfl
  | romfs entries =>
    rw [seekdir_romfs hdir (by decide) (by decide), if_pos (by omega)]

/-- **`telldir`**: the offset that goes with the place. -/
theorem telldir_eq (hpos : d.pos = Place.offset (q, g.lag)) (hholds : d.Holds held) :
    telldir d = Place.offset (q, g.lag + held) := by
  have hheld : ((d.num : Int) - d.cur = 260 * held) := by
    rcases held with _ | _ | held
    · rcases hholds with ⟨hnum, hcur⟩ | ⟨hnum, hcur⟩
      · rw [hnum, hcur]
        rfl
      · rw [hnum, hcur]
        rfl
    · rw [hholds.1, hholds.2.1]
      rfl
    · exact hholds.elim
  have hsum : d.pos - d.num + d.cur = d.pos - 260 * held := by
    rw [← hheld]
    omega
  rw [telldir, hsum, hpos, Place.offset, Place.offset, toInt, toInt, toInt, Int.bmod_sub_bmod]
  congr 1
  push_cast
  omega

end Seek

-- --------
-- Every run
-- --------

section Run

variable {dir : OpenDir} {p p' : DirUser × Place} {a : DirCall}

/-- The stream is where the place says, and the caller was told what goes with its places. -/
structure DirUser.Inv (dir : OpenDir) (p : DirUser × Place) : Prop where
  at' : p.1.stream.At dir p.2.next p.2.held
  pos : p.1.stream.pos = Place.offset (p.2.next, p.2.lag)
  told : p.1.told = p.2.told.map Place.offset
  inside : ∀ at' ∈ p.2.told, at'.1 ≤ dir.entries.dirents.length

/-- A stream that was just opened. -/
theorem inv_opened : DirUser.Inv dir opened where
  at' := ⟨.inl ⟨rfl, Nat.zero_le _⟩, .inl ⟨rfl, rfl⟩, rfl⟩
  pos := (offset_zero (q := 0) (by decide)).symm
  told := rfl
  inside := nofun

theorem DirUser.Inv.good (h : DirUser.Inv dir p) : DirUser.Good dir p := h.at'.yields

theorem DirUser.Inv.readdir (h : DirUser.Inv dir p) :
    DirUser.Inv dir ({ p.1 with stream := (readdir dir p.1.stream).2 },
      p.2.after dir p.1 .readdir) := by
  unfold Place.after
  by_cases hlt : p.2.next < dir.entries.dirents.length
  · obtain ⟨-, hat, hpos⟩ := readdir_some h.at' (List.getElem?_eq_getElem hlt)
    simp only [if_pos hlt]
    have hfits := dir.fits
    exact ⟨hat, hpos.trans (offset_zero (by omega)).symm, h.told, h.inside⟩
  · obtain ⟨-, hat, hpos⟩ := readdir_none h.at' (Nat.not_lt.1 hlt)
    simp only [if_neg hlt]
    exact ⟨hat, hpos.trans h.pos, h.told, h.inside⟩

theorem DirUser.Inv.telldir (h : DirUser.Inv dir p) :
    DirUser.Inv dir ({ p.1 with told := p.1.told ++ [telldir p.1.stream] },
      p.2.after dir p.1 .telldir) where
  at' := h.at'
  pos := h.pos
  told := by
    show p.1.told ++ [_] = (p.2.told ++ [_]).map Place.offset
    rw [List.map_append, h.told, telldir_eq h.pos h.at'.holds]
    rfl
  inside := by
    intro at' hmem
    rcases List.mem_append.1 hmem with hmem | hmem
    · exact h.inside at' hmem
    · obtain rfl := List.mem_singleton.1 hmem
      exact h.at'.pos.le

theorem DirUser.Inv.rewinddir (h : DirUser.Inv dir p) :
    DirUser.Inv dir ({ p.1 with stream := rewinddir dir p.1.stream },
      p.2.after dir p.1 .rewinddir) where
  at' := by
    rw [rewinddir_eq]
    exact h.at'.moved (Nat.zero_le _)
  pos := by
    rw [rewinddir_eq]
    exact (offset_zero (q := 0) (by decide)).symm
  told := h.told
  inside := h.inside

/-- Going back is good where the offset leads to the place, and then the stream is there. -/
theorem DirUser.Inv.seekdir {i : Nat} {at' : Nat × Nat} (h : DirUser.Inv dir p)
    (hat : p.2.told[i]? = some at') :
    (DirUser.Good dir ({ p.1 with stream := seekdir dir p.1.stream (Place.offset at') },
        p.2.after dir p.1 (.seekdir i)) ↔
      landing dir p.2.next (Place.offset at') = at'.1) ∧
    (landing dir p.2.next (Place.offset at') = at'.1 →
      DirUser.Inv dir ({ p.1 with stream := seekdir dir p.1.stream (Place.offset at') },
        p.2.after dir p.1 (.seekdir i))) := by
  have hafter : p.2.after dir p.1 (.seekdir i) = p.2.seek dir at' := by
    rw [Place.after, hat]
    rfl
  rw [hafter]
  obtain ⟨hnext, htold⟩ := @seek_next dir p.2 at'
  have hseek := @seekdir_at dir p.1.stream p.2 at' h.at'
  refine ⟨?_, fun hland => ?_⟩
  · unfold DirUser.Good
    rw [hnext]
    exact hseek.yields_iff (h.inside at' (List.mem_of_getElem? hat))
  · refine ⟨?_, seekdir_pos h.pos hland, ?_, ?_⟩
    · rw [hland] at hseek
      rw [hnext]
      exact hseek
    · rw [htold]
      exact h.told
    · rw [htold]
      exact h.inside

/-- **One call.** -/
theorem inv_step (h : DirUser.Inv dir p) (hs : DirStep dir p a p') :
    (DirUser.Good dir p' ↔ DirUser.Lands dir p a) ∧
      (DirUser.Lands dir p a → DirUser.Inv dir p') := by
  obtain ⟨s', hexec, rfl⟩ := Option.map_eq_some_iff.1 hs
  have done {g : Place} (hinv : DirUser.Inv dir (s', g)) {P : Prop} (hP : P) :
      (DirUser.Good dir (s', g) ↔ P) ∧ (P → DirUser.Inv dir (s', g)) :=
    ⟨iff_of_true hinv.good hP, fun _ => hinv⟩
  cases a with
  | readdir =>
    obtain rfl := Option.some.inj hexec
    exact done h.readdir trivial
  | telldir =>
    obtain rfl := Option.some.inj hexec
    exact done h.telldir trivial
  | rewinddir =>
    obtain rfl := Option.some.inj hexec
    exact done h.rewinddir trivial
  | seekdir i =>
    obtain ⟨offset, htold, rfl⟩ := Option.map_eq_some_iff.1 hexec
    rw [h.told, List.getElem?_map] at htold
    obtain ⟨at', hat, rfl⟩ := Option.map_eq_some_iff.1 htold
    have hlands : DirUser.Lands dir p (.seekdir i) ↔
        landing dir p.2.next (Place.offset at') = at'.1 := by
      simp [DirUser.Lands, hat]
    rw [hlands]
    exact h.seekdir hat

/-- **Directory streams.** A run of calls on an open stream, in which the caller goes back to places
that it was told: `readdir` has still to yield the entries from the caller's place on, each once, in
every state if and only if each time the caller goes back the offset of the place leads there. -/
theorem readdir_iff {s : DirUser} {g : Place} {log : List ((DirUser × Place) × DirCall)}
    (h : Runs (Runs.Observed (DirStep dir) Runs.steps) Runs.always (opened, []) ((s, g), log)) :
    (DirUser.Good dir (s, g) ∧ ∀ p ∈ log, DirUser.Good dir p.1) ↔
      ∀ p ∈ log, DirUser.Lands dir p.1 p.2 :=
  Runs.steps_good_iff (fun _ hinv => hinv.good) (fun _ _ _ hinv hs => inv_step hinv hs) inv_opened h

instance (p : DirUser × Place) (a : DirCall) : Decidable (DirUser.Lands dir p a) := by
  cases a <;> unfold DirUser.Lands <;> infer_instance

/-- Two files in a ROM file system. -/
def twoRoms : OpenDir where
  entries := .romfs [.mk 0 ⟨['r', '1'], by decide⟩ none 5, .mk 0 ⟨['r', '2'], by decide⟩ none 7]
  fits := by decide

/-- The places at the beginning, behind the first entry and at the end. -/
theorem readdir_iff_twoRoms : ∃ s g log,
    Runs (Runs.Observed (DirStep twoRoms) Runs.steps) Runs.always (opened, []) ((s, g), log) ∧
      log.length = 10 ∧ DirUser.Good twoRoms (s, g) ∧ ∀ p ∈ log, DirUser.Good twoRoms p.1 := by
  obtain ⟨⟨⟨s, g⟩, log⟩, hrun, hlog⟩ := @Runs.observed_of_replay _ _
    (Runs.execObserved (DirUser.exec twoRoms) (Place.after twoRoms)) _ Runs.steps Runs.always _
    [.telldir, .readdir, .telldir, .seekdir 1, .readdir, .readdir, .telldir, .seekdir 0, .seekdir 2,
      .readdir]
    (fun q => decide (q.2.length = 10 ∧ ∀ p ∈ q.2, DirUser.Lands twoRoms p.1 p.2)) (opened, [])
    (by decide +kernel)
  obtain ⟨hlength, hlands⟩ := of_decide_eq_true hlog
  exact ⟨s, g, log, hrun, hlength, (readdir_iff hrun).2 hlands⟩

/-- Two files in a RAM file system. -/
def twoFiles : OpenDir where
  entries := .ramfs [⟨1, ['a'], 0, []⟩, ⟨2, ['b'], 0, []⟩]
  fits := by decide

/-- Behind the first entry `telldir` returns -259. A RAM file system goes there, and has no more
entries for `readdir`. -/
theorem seekdir_adrift : ∃ s g, Runs (DirStep twoFiles) Runs.always opened (s, g) ∧
    s.told = [-259] ∧ g.next = 1 ∧ (readdir twoFiles s.stream).1 = none ∧
      ¬ DirUser.Good twoFiles (s, g) := by
  obtain ⟨⟨s, g⟩, -, hrun, hend⟩ := @Runs.exec_of_replay _ _ Runs.always opened
    (Runs.execObserved (DirUser.exec twoFiles) (Place.after twoFiles)) _
    [.readdir, .telldir, .seekdir 0]
    (fun q => decide (q.1.told = [-259] ∧ q.2.next = 1 ∧ (readdir twoFiles q.1.stream).1 = none))
    (by decide +kernel)
  obtain ⟨htold, hnext, hnone⟩ := of_decide_eq_true hend
  refine ⟨s, g, hrun, htold, hnext, hnone, fun hgood => ?_⟩
  rw [DirUser.Good, hnext] at hgood
  exact absurd (hnone.symm.trans hgood.1) (Option.some_ne_none _).symm

end Run

end RTThread.Dfs
