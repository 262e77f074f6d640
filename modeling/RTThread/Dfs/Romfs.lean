import RTThread.Dfs.NormalizePath

/-!
# The ROM file system (`components/dfs/filesystems/romfs/dfs_romfs.c`)

A tree of constant entries. `dfs_romfs_lookup` keeps the array of the directory it is in, its
size, and two cursors into the path around the component it looks for. It moves the cursors on as
soon as an entry has the component's name, before it knows whether that was the last one or
whether the entry is a directory.

`romfsLookup_walk`: it returns the entry that the components lead to, and ends.
-/

namespace RTThread.Dfs.Romfs

open Components

abbrev romfsDirentFile : Nat := 0

abbrev romfsDirentDir : Nat := 1

/-- `~0`, as an `rt_size_t`. -/
abbrev sizeInvalid : Nat := 2 ^ 32 - 1

/-- `struct romfs_dirent`. Of `data` it has the array of entries of a directory, if it is not null;
the bytes of a file are not looked at here. -/
inductive RomfsDirent
  | mk (type : Nat) (name : CString) (data : Option (List RomfsDirent)) (size : Nat)

namespace RomfsDirent

def type : RomfsDirent → Nat
  | mk type _ _ _ => type

def name : RomfsDirent → CString
  | mk _ name _ _ => name

def data : RomfsDirent → Option (List RomfsDirent)
  | mk _ _ data _ => data

def size : RomfsDirent → Nat
  | mk _ _ _ size => size

end RomfsDirent

/-- `check_dirent` -/
def checkDirent (dirent : RomfsDirent) : Int :=
  if (dirent.type ≠ romfsDirentFile ∧ dirent.type ≠ romfsDirentDir) ∨ dirent.size = sizeInvalid then
    -1
  else 0

/-- `rt_strncmp(cs, ct, count) == 0`, of two strings without their terminators. -/
def strncmpEq : List Char → List Char → Nat → Bool
  | _, _, 0 => true
  | [], [], _ + 1 => true
  | c :: cs, d :: ct, count + 1 => c = d && strncmpEq cs ct count
  | _, _, _ + 1 => false

-- --------
-- The lookup
-- --------

/-- `while (*subpath_end && *subpath_end == '/') subpath_end ++;`, where a cursor is what is left of
the path. -/
def skipSlashes : List Char → List Char
  | [] => []
  | c :: cs => if c = '/' then skipSlashes cs else c :: cs

/-- `while ((*subpath_end != '/') && *subpath_end) subpath_end ++;` -/
def skipName : List Char → List Char
  | [] => []
  | c :: cs => if c ≠ '/' then skipName cs else c :: cs

/-- How the search in a folder ends. -/
inductive Found
  /-- The end of the array. -/
  | nothing
  /-- `return NULL`, or the `break` at a file that is not the end of the path. -/
  | null
  /-- `return &dirent[index]`, with `*size`. -/
  | entry (dirent : RomfsDirent) (size : Nat)
  /-- A directory is entered, with the cursors. -/
  | enter (dirent : Option (List RomfsDirent)) (direntSize : Nat) (subpath subpathEnd : List Char)

/-- The search in a folder: the next `n` entries from `index` on. -/
def searchFolder (dirent : List RomfsDirent) (subpath subpathEnd : List Char) :
    Nat → Nat → Except Fault Found
  | 0, _ => .ok .nothing
  | n + 1, index => do
    let d ← deref dirent[index]?
    if checkDirent d ≠ 0 then return .null
    else if d.name.chars.length = subpath.length - subpathEnd.length ∧
        strncmpEq d.name.chars subpath (subpath.length - subpathEnd.length) then
      let direntSize := d.size
      -- skip ///
      let subpath := skipSlashes subpathEnd
      let subpathEnd := skipName subpath
      if subpath = [] then return .entry d direntSize
      else if d.type = romfsDirentDir then return .enter d.data direntSize subpath subpathEnd
      else return .null
    else searchFolder dirent subpath subpathEnd n (index + 1)

/-- `while (dirent != NULL)` -/
def lookupLoop : Nat → Option (List RomfsDirent) → Nat → List Char → List Char →
    Except Fault (Option (RomfsDirent × Nat))
  | 0, _, _, _, _ => .error .divergence
  | fuel + 1, dirent, direntSize, subpath, subpathEnd =>
    match dirent with
    | none => return none
    | some dirent => do
      match ← searchFolder dirent subpath subpathEnd direntSize 0 with
      | .nothing => return none
      | .null => return none
      | .entry d size => return some (d, size)
      | .enter dirent direntSize subpath subpathEnd =>
        lookupLoop fuel dirent direntSize subpath subpathEnd

/-- `dfs_romfs_lookup(root_dirent, path, size)`: the entry and what `*size` is set to, within
`fuel` rounds of the loop. -/
def dfsRomfsLookup (fuel : Nat) (rootDirent : RomfsDirent) (path : CString) :
    Except Fault (Option (RomfsDirent × Nat)) :=
  if checkDirent rootDirent ≠ 0 then return none
  else if path.chars = ['/'] then return some (rootDirent, rootDirent.size)
  else
    -- goto root directory entries
    let subpath := skipSlashes path.chars
    lookupLoop fuel rootDirent.data rootDirent.size subpath (skipName subpath)

-- --------
-- What it should find
-- --------

/-- A tree of valid entries, which a directory has in the array that its `data` points to; an empty
one may have no array. -/
inductive Valid : RomfsDirent → Prop
  | file (name : CString) (data : Option (List RomfsDirent)) {size : Nat} (hsize : size ≠ sizeInvalid) :
      Valid (.mk romfsDirentFile name data size)
  | dir (name : CString) {entries : List RomfsDirent} (hsize : entries.length ≠ sizeInvalid)
      (hall : ∀ e ∈ entries, Valid e) :
      Valid (.mk romfsDirentDir name (some entries) entries.length)
  | empty (name : CString) : Valid (.mk romfsDirentDir name none 0)

/-- The entries of a directory. -/
def RomfsDirent.entries (d : RomfsDirent) : List RomfsDirent := d.data.getD []

/-- The entry that the components lead to from `d`: at each level the first one of that name. -/
def walk : RomfsDirent → List (List Char) → Option RomfsDirent
  | d, [] => some d
  | d, c :: cs =>
    if d.type = romfsDirentDir then
      (d.entries.find? fun e => e.name.chars = c).bind fun e => walk e cs
    else none

variable {d e root : RomfsDirent} {es dirent : List RomfsDirent} {c : List Char}
variable {cs : List (List Char)} {s t : List Char} {i n fuel : Nat}

-- --------
-- Entries and names
-- --------

theorem Valid.check (h : Valid d) : checkDirent d = 0 := by
  cases h with
  | file name data hsize => exact if_neg (by simp [RomfsDirent.type, RomfsDirent.size, hsize])
  | dir name hsize hall => exact if_neg (by simp [RomfsDirent.type, RomfsDirent.size, hsize])
  | empty name => exact if_neg (by simp [RomfsDirent.type, RomfsDirent.size])

/-- A directory's array is what its size says. -/
theorem Valid.entries (h : Valid d) (hdir : d.type = romfsDirentDir) :
    (d.data = none ∨ d.data = some d.entries) ∧ d.size = d.entries.length ∧
      ∀ e ∈ d.entries, Valid e := by
  cases h with
  | file name data hsize => cases hdir
  | dir name hsize hall => exact ⟨.inr rfl, rfl, hall⟩
  | empty name => exact ⟨.inl rfl, rfl, nofun⟩

theorem strncmpEq_eq {xs ys : List Char} (hlen : xs.length = n) (hle : n ≤ ys.length) :
    strncmpEq xs ys n = decide (xs = ys.take n) := by
  induction xs generalizing ys n with
  | nil =>
    subst hlen
    rfl
  | cons x xs ih =>
    subst hlen
    cases ys with
    | nil => exact absurd hle (by simp)
    | cons y ys =>
      rw [List.length_cons] at hle ⊢
      rw [strncmpEq, ih rfl (by simpa using hle), List.take_succ_cons, Bool.eq_iff_iff,
        Bool.and_eq_true, decide_eq_true_eq, decide_eq_true_eq, decide_eq_true_eq, List.cons.injEq]

/-- The test of an entry's name, with the cursors around a component. -/
theorem name_test {t : List Char} :
    (e.name.chars.length = (c ++ t).length - t.length ∧
        strncmpEq e.name.chars (c ++ t) ((c ++ t).length - t.length) = true) ↔
      e.name.chars = c := by
  rw [List.length_append, Nat.add_sub_cancel]
  constructor
  · rintro ⟨hlen, hcmp⟩
    rwa [strncmpEq_eq hlen (by simp), decide_eq_true_eq, List.take_left] at hcmp
  · intro h
    have hlen : e.name.chars.length = c.length := congrArg List.length h
    refine ⟨hlen, ?_⟩
    rw [strncmpEq_eq hlen (by simp), decide_eq_true_eq, List.take_left, h]

-- --------
-- The cursors
-- --------

/-- The rest of a path behind a component. -/
def tail (cs : List (List Char)) : List Char := cs.flatMap fun c => '/' :: c

theorem skipName_name (hc : '/' ∉ c) : skipName (c ++ tail cs) = tail cs := by
  induction c with
  | nil =>
    cases cs with
    | nil => rfl
    | cons d ds => exact if_neg (not_not.mpr rfl)
  | cons x c ih =>
    rw [List.mem_cons, not_or] at hc
    rw [List.cons_append, skipName, if_pos (Ne.symm hc.1), ih hc.2]

theorem skipSlashes_tail (hc : IsName c) : skipSlashes (tail (c :: cs)) = c ++ tail cs := by
  obtain ⟨x, c, rfl⟩ := List.exists_cons_of_ne_nil hc.1
  have hx : x ≠ '/' := (hc.2 x List.mem_cons_self).2
  rw [tail, List.flatMap_cons, List.cons_append, skipSlashes, if_pos rfl, List.cons_append,
    skipSlashes, if_neg hx]
  rfl

-- --------
-- The search in a folder
-- --------

/-- What the search does at the entry it looks for. -/
def foundAt (d : RomfsDirent) (cs : List (List Char)) : Found :=
  match cs with
  | [] => .entry d d.size
  | c :: cs =>
    if d.type = romfsDirentDir then .enter d.data d.size (c ++ tail cs) (tail cs) else .null

/-- **The search** stops at the first entry of the name; by induction on the entries that are
left. -/
theorem searchFolder_eq (hes : ∀ e ∈ es, Valid e) (hcs : ∀ c ∈ cs, IsName c)
    (hn : i + n = es.length) :
    searchFolder es (c ++ tail cs) (tail cs) n i =
      .ok (((es.drop i).find? fun e => e.name.chars = c).elim .nothing fun d => foundAt d cs) := by
  induction n generalizing i with
  | zero =>
    rw [searchFolder, List.drop_eq_nil_of_le (by omega)]
    rfl
  | succ n ih =>
    have hi : i < es.length := by omega
    rw [searchFolder, deref_bind (List.getElem?_eq_getElem hi)]
    rw [if_neg (not_not.mpr (hes _ (List.getElem_mem hi)).check), List.drop_eq_getElem_cons hi]
    by_cases hname : es[i].name.chars = c
    · rw [if_pos (name_test.mpr hname), List.find?_cons_of_pos (by simpa using hname),
        Option.elim_some]
      cases cs with
      | nil => rfl
      | cons c' cs =>
        obtain ⟨hc', -⟩ := List.forall_mem_cons.mp hcs
        have hne : c' ++ tail cs ≠ [] := fun hnil => hc'.1 (List.append_eq_nil_iff.mp hnil).1
        dsimp only
        rw [skipSlashes_tail hc', skipName_name hc'.no_slash, if_neg hne, foundAt]
        split <;> rfl
    · rw [if_neg (name_test.not.mpr hname), ih (by omega),
        List.find?_cons_of_neg (by simpa using hname)]

-- --------
-- The walk
-- --------

theorem walk_cons (hdir : d.type = romfsDirentDir) :
    walk d (c :: cs) = (d.entries.find? fun e => e.name.chars = c).bind fun e => walk e cs :=
  if_pos hdir

theorem walk_file (hfile : d.type ≠ romfsDirentDir) : walk d (c :: cs) = none := if_neg hfile

/-- The rounds of the loop behind an entry that was found. -/
def onwards (fuel : Nat) (e : RomfsDirent) : List (List Char) →
    Except Fault (Option (RomfsDirent × Nat))
  | [] => .ok (some (e, e.size))
  | c :: cs =>
    if e.type = romfsDirentDir then lookupLoop fuel e.data e.size (c ++ tail cs) (tail cs)
    else .ok none

/-- One round of the loop, in a directory. -/
theorem lookupLoop_round (hd : Valid d) (hdir : d.type = romfsDirentDir)
    (hcs : ∀ x ∈ cs, IsName x) :
    lookupLoop (fuel + 1) d.data d.size (c ++ tail cs) (tail cs) =
      (d.entries.find? fun e => e.name.chars = c).elim (.ok none) fun e => onwards fuel e cs := by
  obtain ⟨hdata, hsize, hes⟩ := hd.entries hdir
  rcases hdata with hnull | harray
  · have hnil : d.entries = [] := by rw [RomfsDirent.entries, hnull, Option.getD_none]
    rw [hnull, hnil]
    rfl
  · have hsearch := searchFolder_eq (c := c) (i := 0) (n := d.size) hes hcs (by omega)
    rw [List.drop_zero] at hsearch
    rw [harray, lookupLoop, hsearch]
    cases d.entries.find? fun e => e.name.chars = c with
    | none => rfl
    | some e =>
      cases cs with
      | nil => rfl
      | cons c' cs =>
        rw [Option.elim_some, Option.elim_some, foundAt, onwards]
        by_cases he : e.type = romfsDirentDir
        · rw [if_pos he, if_pos he]
          rfl
        · rw [if_neg he, if_neg he]
          rfl

/-- **The loop** walks down the tree; by induction on the components, which the fuel covers. -/
theorem lookupLoop_eq (hd : Valid d) (hdir : d.type = romfsDirentDir)
    (hcs : ∀ x ∈ cs, IsName x) (hfuel : cs.length < fuel) :
    lookupLoop fuel d.data d.size (c ++ tail cs) (tail cs) =
      .ok ((walk d (c :: cs)).map fun e => (e, e.size)) := by
  obtain ⟨fuel, rfl⟩ : ∃ m, fuel = m + 1 := ⟨fuel - 1, by omega⟩
  induction cs generalizing d c fuel with
  | nil =>
    rw [lookupLoop_round hd hdir hcs, walk_cons hdir]
    cases d.entries.find? fun e => e.name.chars = c with
    | none => rfl
    | some e => rfl
  | cons c' cs ih =>
    obtain ⟨hc', hcs'⟩ := List.forall_mem_cons.mp hcs
    rw [List.length_cons] at hfuel
    rw [lookupLoop_round hd hdir hcs, walk_cons hdir]
    cases hfind : d.entries.find? fun e => e.name.chars = c with
    | none => rfl
    | some e =>
      have he : Valid e := (hd.entries hdir).2.2 e (List.mem_of_find?_eq_some hfind)
      rw [Option.bind_some, Option.elim_some, onwards]
      by_cases hedir : e.type = romfsDirentDir
      · obtain ⟨fuel, rfl⟩ : ∃ m, fuel = m + 1 := ⟨fuel - 1, by omega⟩
        rw [if_pos hedir, ih he hedir hcs' fuel (by omega)]
      · rw [if_neg hedir, walk_file hedir]
        rfl

/-- **`dfs_romfs_lookup`** of a normalised path, in a tree of valid entries below a directory: the
entry that the path's components lead to, with its size, and null where they lead to none. The
loop ends within one round more than there are components. -/
theorem romfsLookup_walk {path : CString} (hroot : Valid root) (hdir : root.type = romfsDirentDir)
    (hpath : Normal path) (hfuel : (components '/' path.chars).length < fuel) :
    dfsRomfsLookup fuel root path =
      .ok ((walk root (components '/' path.chars)).map fun e => (e, e.size)) := by
  obtain ⟨cs, hchars, hnames⟩ := hpath
  have hcomp : components '/' path.chars = cs := by
    rw [hchars]
    exact components_rooted fun c hc => ⟨(hnames c hc).1.1, (hnames c hc).1.no_slash⟩
  rw [hcomp] at hfuel ⊢
  rw [dfsRomfsLookup, if_neg (not_not.mpr hroot.check)]
  cases cs with
  | nil =>
    rw [if_pos (show path.chars = ['/'] from hchars)]
    rfl
  | cons c cs =>
    obtain ⟨⟨hc, -, -⟩, hcs⟩ := List.forall_mem_cons.mp hnames
    rw [rooted_of_ne_nil (List.cons_ne_nil c cs)] at hchars
    have hne : path.chars ≠ ['/'] := by
      obtain ⟨x, c, rfl⟩ := List.exists_cons_of_ne_nil hc.1
      rw [hchars]
      simp
    rw [List.length_cons] at hfuel
    rw [if_neg hne, hchars]
    dsimp only
    rw [show (c :: cs).flatMap (fun c => '/' :: c) = tail (c :: cs) from rfl, skipSlashes_tail hc,
      skipName_name hc.no_slash]
    exact lookupLoop_eq hroot hdir (fun x hx => (hcs x hx).1) (by omega)

-- --------
-- A small tree
-- --------

/-- `/a/b`, a file of three bytes, behind an empty directory `/e`. -/
def smallTree : RomfsDirent :=
  .mk romfsDirentDir ⟨['r'], by decide⟩ (some [
    .mk romfsDirentDir ⟨['e'], by decide⟩ none 0,
    .mk romfsDirentDir ⟨['a'], by decide⟩
      (some [.mk romfsDirentFile ⟨['b'], by decide⟩ none 3]) 1]) 2

theorem smallTree_valid : Valid smallTree := by
  refine .dir _ (by decide) fun e he => ?_
  rcases List.mem_cons.mp he with rfl | he
  · exact .empty _
  · obtain rfl := List.mem_singleton.mp he
    refine .dir _ (by decide) fun e he => ?_
    obtain rfl := List.mem_singleton.mp he
    exact .file _ _ (by decide)

theorem romfsLookup_walk_small : dfsRomfsLookup 3 smallTree ⟨"/a/b".toList, by decide⟩ =
    .ok ((walk smallTree [['a'], ['b']]).map fun e => (e, e.size)) := by
  have hpath : Normal ⟨"/a/b".toList, by decide⟩ :=
    ⟨[['a'], ['b']], rfl, by simp [IsName, dot, dotDot]⟩
  exact romfsLookup_walk smallTree_valid rfl hpath (by decide)

end RTThread.Dfs.Romfs
