import RTThread.Lib.CString
import RTThread.Lib.Components
import RTThread.Lib.Runs
import RTThread.Rtdef
import Mathlib.Data.List.Nodup

/-!
# The RAM file system (`components/dfs/filesystems/ramfs/dfs_ramfs.c`, `components/dfs/src/dfs_file.c`)

All files are in one list, and a path below the mount point is the name of a file. Opening
stores the name without the slash in front, and the lookup compares without it. Renaming stores
it with the slash, so that no lookup finds the file any more. A name that fills its field has
no end but the bytes of the data pointer behind it.

`ramfs_refines`: a sequence of calls does what it would on a map from names to contents if and only
if it renames no file, makes no file with a longer name than the field, and neither unlinks nor
renames the mount point.
-/

namespace RTThread.Dfs

open Components

-- --------
-- The code
-- --------

/-- `RAMFS_NAME_MAX` -/
def ramfsNameMax : Nat := 32

/-- `struct ramfs_dirent`: the bytes of `name`, the pointer `data`, and what is there. -/
structure RamfsDirent where
  id : Nat
  name : List Char
  data : Nat
  contents : List UInt8

/-- The list behind `root`, and the next entry that the heap gives. -/
structure Ramfs where
  entries : List RamfsDirent
  next : Nat

/-- What a lookup finds. -/
inductive RamfsRef
  | root
  | entry (id : Nat)

/-- The flags of an open that count. -/
structure OpenFlags where
  creat : Bool
  wronly : Bool
  trunc : Bool
  directory : Bool

inductive RamfsErr
  | enoent
  | eexist
  | enomem
  | enospc
  | ebusy
deriving DecidableEq

/-- What a call returns: an open with the size of the file, a stat with the size or with
`S_IFDIR`. -/
inductive RamfsOut
  | opened (size : Nat)
  | done
  | size (n : Nat)
  | directory
  | failed (e : RamfsErr)

/-- The bytes of a word in memory. -/
def wordBytes (n : Nat) : List Char :=
  [Char.ofNat (n % 256), Char.ofNat (n / 256 % 256), Char.ofNat (n / 65536 % 256),
    Char.ofNat (n / 16777216 % 256)]

/-- The memory from `name` on: `data` and `size` come behind it. -/
def RamfsDirent.cells (e : RamfsDirent) : List Char :=
  e.name ++ (wordBytes e.data ++ wordBytes e.contents.length)

/-- `strncpy(dirent->name, src, RAMFS_NAME_MAX)` -/
def strncpyName (src : List Char) : List Char :=
  (src.take ramfsNameMax).rightpad ramfsNameMax '\x00'

/-- `rt_strcmp(cs, ct) == 0`, of memory and a string. -/
def strcmpEq : List Char → List Char → Except Fault Bool
  | [], _ => .error .badPointer
  | c :: _, [] => .ok (decide (c = '\x00'))
  | c :: cs, d :: ds => if c ≠ '\x00' ∧ c = d then strcmpEq cs ds else .ok (decide (c = d))

/-- `dfs_subdir(directory, filename)` -/
def dfsSubdir (directory filename : List Char) : Option (List Char) :=
  if directory.length = filename.length then none
  else
    let dir := filename.drop directory.length
    if dir.head? ≠ some '/' ∧ directory.length ≠ 0 then
      some (filename.drop (directory.length - 1))
    else some dir

namespace Ramfs

variable (s : Ramfs)

/-- `dfs_ramfs_create` -/
def create : Ramfs := { entries := [], next := 0 }

/-- The loop of `dfs_ramfs_lookup`. -/
def scan (subpath : List Char) : List RamfsDirent → Except Fault (Option Nat)
  | [] => .ok none
  | e :: es => do
    let same ← strcmpEq e.cells subpath
    if same then return some e.id else scan subpath es

/-- `while (*subpath == '/' && *subpath) subpath ++;` -/
def skipSlash (path : List Char) : List Char := path.dropWhile fun c => c = '/'

/-- `dfs_ramfs_lookup` -/
def lookup (path : List Char) : Except Fault (Option RamfsRef) :=
  match skipSlash path with
  | [] => .ok (some .root)
  | c :: cs => do
    let found ← scan (c :: cs) s.entries
    return found.map RamfsRef.entry

/-- The entry changes. -/
def setEntry (id : Nat) (f : RamfsDirent → RamfsDirent) : Ramfs :=
  { s with entries := s.entries.map fun e => if e.id = id then f e else e }

/-- `dirent->size` -/
def sizeOf (id : Nat) : Nat := ((s.entries.find? fun e => e.id = id).map (·.contents.length)).getD 0

/-- The end of `dfs_ramfs_open`: `O_TRUNC`, and the size of the file. -/
def openEntry (id : Nat) (flags : OpenFlags) : RamfsOut × Ramfs :=
  let s := if flags.trunc then s.setEntry id fun e => { e with data := 0, contents := [] } else s
  (.opened (s.sizeOf id), s)

/-- The new entry of `dfs_ramfs_open`, in front of the others. -/
def addEntry (path : List Char) : Ramfs where
  entries := ⟨s.next, strncpyName (skipSlash path), 0, []⟩ :: s.entries
  next := s.next + 1

/-- `dfs_ramfs_open`, and whether the heap has an entry. -/
def dfsRamfsOpen (path : List Char) (flags : OpenFlags) (mem : Bool) :
    Except Fault (RamfsOut × Ramfs) :=
  if flags.directory then
    if flags.creat then return (.failed .enospc, s)
    else do
      match ← s.lookup path with
      | none => return (.failed .enoent, s)
      | some .root => return (.opened 0, s)
      | some (.entry id) => return (.opened (s.sizeOf id), s)
  else do
    match ← s.lookup path with
    | some .root => return (.failed .enoent, s)
    | some (.entry id) => return s.openEntry id flags
    | none =>
      if flags.creat ∨ flags.wronly then
        if mem then return (s.addEntry path).openEntry s.next flags
        else return (.failed .enomem, s)
      else return (.failed .enoent, s)

/-- `dfs_ramfs_stat` -/
def dfsRamfsStat (path : List Char) : Except Fault (RamfsOut × Ramfs) := do
  match ← s.lookup path with
  | none => return (.failed .enoent, s)
  | some .root => return (.size 0, s)
  | some (.entry id) => return (.size (s.sizeOf id), s)

/-- `dfs_ramfs_unlink`. `root` is in the file system object, in front of the heap. -/
def dfsRamfsUnlink (path : List Char) : Except Fault (RamfsOut × Ramfs) := do
  match ← s.lookup path with
  | none => return (.failed .enoent, s)
  | some .root => throw .assertion
  | some (.entry id) => return (.done, { s with entries := s.entries.filter fun e => e.id ≠ id })

/-- `dfs_ramfs_rename`, of pointers that may be null. -/
def dfsRamfsRename (oldpath newpath : Option (List Char)) : Except Fault (RamfsOut × Ramfs) := do
  let newpath ← deref newpath
  match ← s.lookup newpath with
  | some _ => return (.failed .eexist, s)
  | none =>
    let oldpath ← deref oldpath
    match ← s.lookup oldpath with
    | none => return (.failed .enoent, s)
    | some .root => return (.done, s)
    | some (.entry id) =>
      return (.done, s.setEntry id fun e => { e with name := strncpyName newpath })

end Ramfs

-- --------
-- The calls
-- --------

/-- The components of a normalised path. -/
structure NormalPath where
  comps : List (List Char)
  ok : ∀ c ∈ comps, c ≠ [] ∧ '/' ∉ c ∧ '\x00' ∉ c

/-- What happens to the file system. The paths are below its mount point. -/
inductive RamfsAct
  /-- `dfs_file_open`, and whether there is memory for an entry. -/
  | open (path : NormalPath) (flags : OpenFlags) (mem : Bool)
  /-- `dfs_file_unlink`, and whether `fd_is_open` finds the path. -/
  | unlink (path : NormalPath) (busy : Bool)
  | rename (old new : NormalPath)
  | stat (path : NormalPath)
  /-- Descriptors of the file leave these contents at this address. -/
  | write (path : NormalPath) (data : Nat) (contents : List UInt8)

namespace Ramfs

variable (mount : NormalPath) (s : Ramfs)

/-- `fs->path`, the normalised path of a file, and what is handed to the file system. -/
def fullpath (path : NormalPath) : List Char := rooted '/' (mount.comps ++ path.comps)

def subdir (path : NormalPath) : Option (List Char) :=
  dfsSubdir (rooted '/' mount.comps) (fullpath mount path)

/-- `dfs_file_open` -/
def dfsFileOpen (path : NormalPath) (flags : OpenFlags) (mem : Bool) :
    Except Fault (RamfsOut × Ramfs) :=
  s.dfsRamfsOpen ((subdir mount path).getD ['/']) flags mem

/-- `dfs_file_unlink` -/
def dfsFileUnlink (path : NormalPath) (busy : Bool) : Except Fault (RamfsOut × Ramfs) :=
  if busy then return (.failed .ebusy, s)
  else s.dfsRamfsUnlink ((subdir mount path).getD ['/'])

/-- `dfs_file_stat` -/
def dfsFileStat (path : NormalPath) : Except Fault (RamfsOut × Ramfs) :=
  if fullpath mount path = ['/'] then return (.directory, s)
  else
    match subdir mount path with
    | none => return (.directory, s)
    | some sub => s.dfsRamfsStat sub

/-- `dfs_file_rename` -/
def dfsFileRename (old new : NormalPath) : Except Fault (RamfsOut × Ramfs) :=
  s.dfsRamfsRename (subdir mount old) (subdir mount new)

/-- What the descriptors of a file write to it. -/
def written (path : NormalPath) (data : Nat) (contents : List UInt8) :
    Except Fault (RamfsOut × Ramfs) := do
  match ← s.lookup ((subdir mount path).getD ['/']) with
  | some (.entry id) => return (.done, s.setEntry id fun e => { e with data, contents })
  | _ => return (.done, s)

/-- **A call.** -/
def call (s : Ramfs) : RamfsAct → Except Fault (RamfsOut × Ramfs)
  | .open path flags mem => s.dfsFileOpen mount path flags mem
  | .unlink path busy => s.dfsFileUnlink mount path busy
  | .rename old new => s.dfsFileRename mount old new
  | .stat path => s.dfsFileStat mount path
  | .write path data contents => s.written mount path data contents

end Ramfs

-- --------
-- The directory as a map
-- --------

/-- The name of a path below the mount point, which has none itself. -/
def NormalPath.name (path : NormalPath) : Option (List Char) :=
  if path.comps = [] then none else some ((rooted '/' path.comps).drop 1)

/-- Files by their names. -/
abbrev Directory := List Char → Option (List UInt8)

namespace Directory

variable (m : Directory)

/-- Opening the mount point or a file. -/
def openFile (flags : OpenFlags) (mem : Bool) : Option (List Char) → RamfsOut × Directory
  | none =>
    if flags.directory then (if flags.creat then .failed .enospc else .opened 0, m)
    else (.failed .enoent, m)
  | some n =>
    match m n with
    | some contents =>
      if flags.directory then
        (if flags.creat then .failed .enospc else .opened contents.length, m)
      else if flags.trunc then (.opened 0, Function.update m n (some []))
      else (.opened contents.length, m)
    | none =>
      if flags.directory then (.failed (if flags.creat then .enospc else .enoent), m)
      else if flags.creat ∨ flags.wronly then
        if mem then (.opened 0, Function.update m n (some [])) else (.failed .enomem, m)
      else (.failed .enoent, m)

/-- Removing a file. -/
def unlink (busy : Bool) : Option (List Char) → RamfsOut × Directory
  | none => (.failed .ebusy, m)
  | some n =>
    if busy then (.failed .ebusy, m)
    else
      match m n with
      | some _ => (.done, Function.update m n none)
      | none => (.failed .enoent, m)

/-- Moving a file to a name that is free. -/
def rename (old new : Option (List Char)) : RamfsOut × Directory :=
  match new with
  | none => (.failed .eexist, m)
  | some n =>
    match m n, old.bind m with
    | some _, _ => (.failed .eexist, m)
    | none, none => (.failed .enoent, m)
    | none, some contents =>
      (.done, Function.update (Function.update m (old.getD []) none) n (some contents))

def stat : Option (List Char) → RamfsOut × Directory
  | none => (.directory, m)
  | some n =>
    match m n with
    | some contents => (.size contents.length, m)
    | none => (.failed .enoent, m)

def write (contents : List UInt8) : Option (List Char) → RamfsOut × Directory
  | none => (.done, m)
  | some n =>
    match m n with
    | some _ => (.done, Function.update m n (some contents))
    | none => (.done, m)

/-- **What a call is to do.** -/
def call (m : Directory) : RamfsAct → RamfsOut × Directory
  | .open path flags mem => m.openFile flags mem path.name
  | .unlink path busy => m.unlink busy path.name
  | .rename old new => m.rename old.name new.name
  | .stat path => m.stat path.name
  | .write path _ contents => m.write contents path.name

end Directory

/-- The name that is read from an entry. -/
def RamfsDirent.string (e : RamfsDirent) : List Char := e.cells.takeWhile fun c => c ≠ '\x00'

namespace Ramfs

variable {mount : NormalPath} {s s' : Ramfs} {e : RamfsDirent} {n : List Char}

/-- The files of the list. -/
def directory (s : Ramfs) : Directory := fun n =>
  (s.entries.find? fun e => e.string = n).map (·.contents)

/-- The names are unique. -/
def Distinct (s : Ramfs) : Prop := (s.entries.map RamfsDirent.string).Nodup

/-- The call returns, and does to the list what it is to do to the map. -/
def Meets (mount : NormalPath) (s : Ramfs) (a : RamfsAct) : Prop :=
  ∃ r s', call mount s a = .ok (r, s') ∧ s'.Distinct ∧ (r, s'.directory) = s.directory.call a

/-- A file that is made has a name that fits, no file is renamed, and the mount point itself is
not unlinked or renamed. A name that fills its field ends where its data pointer starts with
a zero byte. -/
def Allowed (s : Ramfs) : RamfsAct → Prop
  | .open path flags mem => ∀ n, path.name = some n → s.directory n = none →
      flags.directory = false → (flags.creat = true ∨ flags.wronly = true) → mem = true →
      n.length ≤ ramfsNameMax
  | .unlink path busy => busy = true ∨ path.name ≠ none
  | .rename old new => ∃ n, new.name = some n ∧
      (s.directory n ≠ none ∨ ∃ o, old.name = some o ∧ s.directory o = none)
  | .stat _ => True
  | .write path data _ => ∀ n, path.name = some n → s.directory n ≠ none →
      n.length = ramfsNameMax → data % 256 = 0

-- --------
-- Paths
-- --------

/-- A name is not empty, and neither starts with a slash nor has a NUL in it. -/
structure IsName (n : List Char) : Prop where
  ne : n ≠ []
  head : n.head? ≠ some '/'
  nul : '\x00' ∉ n

/-- A path with a name is a slash and this name. -/
theorem name_spec {path : NormalPath} (h : path.name = some n) :
    rooted '/' path.comps = '/' :: n ∧ IsName n := by
  obtain ⟨comps, ok⟩ := path
  cases comps with
  | nil => cases h
  | cons c cs =>
    have hn : n = c ++ cs.flatMap fun c => '/' :: c := by
      rw [NormalPath.name, if_neg (List.cons_ne_nil c cs), Option.some.injEq] at h
      rw [← h, rooted_of_ne_nil (List.cons_ne_nil c cs)]
      rfl
    subst hn
    have hc := ok c List.mem_cons_self
    refine ⟨rfl, ?_, ?_, ?_⟩
    · exact fun hnil => hc.1 (List.append_eq_nil_iff.1 hnil).1
    · obtain ⟨x, xs, rfl⟩ := List.exists_cons_of_ne_nil hc.1
      intro hx
      obtain rfl := Option.some.inj hx
      exact hc.2.1 List.mem_cons_self
    · rw [List.mem_append, not_or, List.mem_flatMap]
      refine ⟨hc.2.2, ?_⟩
      rintro ⟨d, hd, hmem⟩
      rcases List.mem_cons.1 hmem with heq | hmem
      · exact absurd heq (by decide)
      · exact (ok d (List.mem_cons_of_mem _ hd)).2.2 hmem

/-- What the file system is given for a path: the name behind a slash. -/
theorem subdir_eq (mount path : NormalPath) :
    subdir mount path = path.name.map fun n => '/' :: n := by
  cases hname : path.name with
  | none =>
    have hnil : path.comps = [] := by
      by_contra hne
      rw [NormalPath.name, if_neg hne] at hname
      cases hname
    rw [subdir, fullpath, hnil, List.append_nil, dfsSubdir, if_pos rfl]
    rfl
  | some n =>
    obtain ⟨hrooted, hn⟩ := name_spec hname
    have hne : path.comps ≠ [] := by
      intro hnil
      rw [NormalPath.name, if_pos hnil] at hname
      cases hname
    cases hmount : mount.comps with
    | nil =>
      have hlen : ¬ (rooted '/' ([] : List (List Char))).length = ('/' :: n).length := by
        have hpos := List.length_pos_iff.2 hn.ne
        simp only [rooted, List.length_cons, List.length_nil]
        omega
      rw [subdir, fullpath, hmount, List.nil_append, hrooted, dfsSubdir, if_neg hlen]
      exact if_pos ⟨hn.head, by decide⟩
    | cons c cs =>
      have hfull : rooted '/' (c :: cs ++ path.comps) = rooted '/' (c :: cs) ++ '/' :: n := by
        have hall : c :: cs ++ path.comps ≠ [] := List.cons_ne_nil _ _
        rw [← hrooted, rooted_of_ne_nil hne, rooted_of_ne_nil (List.cons_ne_nil c cs),
          rooted_of_ne_nil hall, List.flatMap_append]
      have hlen : ¬ (rooted '/' (c :: cs)).length = (rooted '/' (c :: cs) ++ '/' :: n).length := by
        rw [List.length_append, List.length_cons]
        omega
      rw [subdir, fullpath, hmount, hfull, dfsSubdir, if_neg hlen]
      simp only [List.drop_left, List.head?_cons, ne_eq, not_true_eq_false, false_and, if_false,
        Option.map_some]

/-- Only the root has the path of one slash. -/
theorem fullpath_ne_root {mount path : NormalPath} (h : path.name = some n) :
    fullpath mount path ≠ ['/'] := by
  intro hroot
  have hok : ∀ c ∈ mount.comps ++ path.comps, c ≠ [] ∧ '/' ∉ c := by
    intro c hc
    rcases List.mem_append.1 hc with hc | hc
    · exact ⟨(mount.ok c hc).1, (mount.ok c hc).2.1⟩
    · exact ⟨(path.ok c hc).1, (path.ok c hc).2.1⟩
  have hcomps := components_rooted hok
  have hnone : components '/' ['/'] = [] := components_sep_cons
  rw [fullpath] at hroot
  rw [hroot, hnone] at hcomps
  have hnil : path.comps = [] := (List.append_eq_nil_iff.1 hcomps.symm).2
  rw [NormalPath.name, if_pos hnil] at h
  cases h

-- --------
-- Names in memory
-- --------

theorem strcmpEq_append {cs ds rest : List Char} (hcs : '\x00' ∉ cs) (hds : '\x00' ∉ ds) :
    strcmpEq (cs ++ '\x00' :: rest) ds = .ok (decide (cs = ds)) := by
  induction cs generalizing ds with
  | nil =>
    cases ds with
    | nil => rfl
    | cons d ds =>
      have hd : ¬ '\x00' = d := fun heq => hds (heq ▸ List.mem_cons_self)
      rw [List.nil_append, strcmpEq, if_neg (fun hand => hand.1 rfl), decide_eq_false hd,
        decide_eq_false nofun]
  | cons c cs ih =>
    have hc : c ≠ '\x00' := fun heq => hcs (heq ▸ List.mem_cons_self)
    cases ds with
    | nil => rw [List.cons_append, strcmpEq, decide_eq_false hc, decide_eq_false nofun]
    | cons d ds =>
      rw [List.cons_append, strcmpEq]
      by_cases hcd : c = d
      · subst hcd
        have hcs' : '\x00' ∉ cs := fun hmem => hcs (List.mem_cons_of_mem _ hmem)
        have hds' : '\x00' ∉ ds := fun hmem => hds (List.mem_cons_of_mem _ hmem)
        rw [if_pos ⟨hc, rfl⟩, ih hcs' hds']
        simp only [List.cons.injEq, true_and]
      · rw [if_neg (fun hand => hcd hand.2), decide_eq_false hcd, decide_eq_false]
        exact fun heq => hcd (List.cons.inj heq).1

/-- The entry has the name in its field: if it fills it, the data pointer ends it. -/
structure Named (e : RamfsDirent) (n : List Char) : Prop where
  name : e.name = n.rightpad ramfsNameMax '\x00'
  isName : IsName n
  fits : n.length ≤ ramfsNameMax
  ends : n.length = ramfsNameMax → e.data % 256 = 0

theorem Named.cells (h : Named e n) : ∃ rest, e.cells = n ++ '\x00' :: rest := by
  by_cases hlen : n.length = ramfsNameMax
  · have hpad : n.rightpad ramfsNameMax '\x00' = n := by
      rw [List.rightpad, hlen, Nat.sub_self, List.replicate_zero, List.append_nil]
    refine ⟨(wordBytes e.data).tail ++ wordBytes e.contents.length, ?_⟩
    rw [RamfsDirent.cells, h.name, hpad, wordBytes, h.ends hlen]
    rfl
  · have hlt : n.length < ramfsNameMax := lt_of_le_of_ne h.fits hlen
    refine ⟨List.replicate (ramfsNameMax - n.length - 1) '\x00' ++
      (wordBytes e.data ++ wordBytes e.contents.length), ?_⟩
    rw [RamfsDirent.cells, h.name, Buffer.rightpad_cons hlt, List.append_assoc, List.cons_append]

theorem takeWhile_nul {cs rest : List Char} (hcs : '\x00' ∉ cs) :
    (cs ++ '\x00' :: rest).takeWhile (fun c => c ≠ '\x00') = cs := by
  have hbuf : CString.ofBuffer (cs ++ '\x00' :: rest) = ⟨cs, hcs⟩ := CString.ofBuffer_append hcs
  exact congrArg CString.chars hbuf

theorem Named.string (h : Named e n) : e.string = n := by
  obtain ⟨rest, hcells⟩ := h.cells
  rw [RamfsDirent.string, hcells, takeWhile_nul h.isName.nul]

theorem Named.strcmp (h : Named e n) {m : List Char} (hm : '\x00' ∉ m) :
    strcmpEq e.cells m = .ok (decide (e.string = m)) := by
  obtain ⟨rest, hcells⟩ := h.cells
  rw [h.string, hcells, strcmpEq_append h.isName.nul hm]

-- --------
-- The list and the map
-- --------

/-- **What a run keeps** as long as it is allowed. -/
structure Sound (s : Ramfs) : Prop where
  named : ∀ e ∈ s.entries, ∃ n, Named e n
  distinct : s.Distinct
  ids : (s.entries.map RamfsDirent.id).Nodup
  below : ∀ e ∈ s.entries, e.id < s.next

theorem directory_eq_some {contents : List UInt8} (h : s.directory n = some contents) :
    ∃ e ∈ s.entries, e.string = n ∧ e.contents = contents ∧
      s.entries.find? (fun e => e.string = n) = some e := by
  rw [directory, Option.map_eq_some_iff] at h
  obtain ⟨e, he, hcontents⟩ := h
  have hstring := List.find?_some he
  rw [decide_eq_true_eq] at hstring
  exact ⟨e, List.mem_of_find?_eq_some he, hstring, hcontents, he⟩

theorem directory_eq_none : s.directory n = none ↔ ∀ e ∈ s.entries, e.string ≠ n := by
  rw [directory, Option.map_eq_none_iff, List.find?_eq_none]
  simp only [decide_eq_true_eq, ne_eq]

/-- The list is gone through as far as the first entry with the name. -/
theorem scan_eq {es : List RamfsDirent} (hes : ∀ e ∈ es, ∃ n, Named e n) (hn : '\x00' ∉ n) :
    scan n es = .ok ((es.find? fun e => e.string = n).map (·.id)) := by
  induction es with
  | nil => rfl
  | cons e es ih =>
    obtain ⟨m, hm⟩ := hes e List.mem_cons_self
    have hrest := ih fun e he => hes e (List.mem_cons_of_mem _ he)
    rw [scan, hm.strcmp hn]
    by_cases hstring : e.string = n
    · rw [List.find?_cons, decide_eq_true hstring]
      rfl
    · rw [List.find?_cons, decide_eq_false hstring]
      exact hrest

theorem skipSlash_name (hn : IsName n) : skipSlash ('/' :: n) = n := by
  obtain ⟨c, cs, rfl⟩ := List.exists_cons_of_ne_nil hn.ne
  have hc : ¬ c = '/' := fun heq => hn.head (congrArg some heq)
  rw [skipSlash, List.dropWhile_cons_of_pos (by decide),
    List.dropWhile_cons_of_neg (by rwa [decide_eq_true_eq])]

theorem Sound.lookup (h : s.Sound) (hn : IsName n) : s.lookup ('/' :: n) =
    .ok (((s.entries.find? fun e => e.string = n).map (·.id)).map RamfsRef.entry) := by
  have hskip := skipSlash_name hn
  obtain ⟨c, cs, rfl⟩ := List.exists_cons_of_ne_nil hn.ne
  simp only [Ramfs.lookup, hskip, scan_eq h.named hn.nul]
  rfl

theorem Sound.lookup_none (h : s.Sound) (hn : IsName n) (hnone : s.directory n = none) :
    s.lookup ('/' :: n) = .ok none := by
  rw [directory, Option.map_eq_none_iff] at hnone
  rw [h.lookup hn, hnone]
  rfl

theorem Sound.lookup_some (h : s.Sound) (hn : IsName n) {contents : List UInt8}
    (hsome : s.directory n = some contents) : ∃ e ∈ s.entries, e.string = n ∧
      e.contents = contents ∧ s.lookup ('/' :: n) = .ok (some (.entry e.id)) := by
  obtain ⟨e, he, hstring, hcontents, hfind⟩ := directory_eq_some hsome
  refine ⟨e, he, hstring, hcontents, ?_⟩
  rw [h.lookup hn, hfind]
  rfl

theorem Sound.eq_of_string (h : s.Sound) {e e' : RamfsDirent} (he : e ∈ s.entries)
    (he' : e' ∈ s.entries) (hstring : e.string = e'.string) : e = e' :=
  List.inj_on_of_nodup_map h.distinct he he' hstring

theorem Sound.eq_of_id (h : s.Sound) {e e' : RamfsDirent} (he : e ∈ s.entries)
    (he' : e' ∈ s.entries) (hid : e.id = e'.id) : e = e' :=
  List.inj_on_of_nodup_map h.ids he he' hid

theorem Sound.sizeOf (h : s.Sound) (he : e ∈ s.entries) : s.sizeOf e.id = e.contents.length := by
  have hsome : (s.entries.find? fun e' => e'.id = e.id).isSome = true := by
    rw [List.find?_isSome]
    exact ⟨e, he, decide_eq_true rfl⟩
  obtain ⟨e', hfind⟩ := Option.isSome_iff_exists.1 hsome
  have hid := List.find?_some hfind
  rw [decide_eq_true_eq] at hid
  rw [Ramfs.sizeOf, hfind, h.eq_of_id (List.mem_of_find?_eq_some hfind) he hid]
  rfl

theorem directory_eq_some_iff (h : s.Distinct) {contents : List UInt8} :
    s.directory n = some contents ↔ ∃ e ∈ s.entries, e.string = n ∧ e.contents = contents := by
  constructor
  · intro hsome
    obtain ⟨e, he, hstring, hcontents, -⟩ := directory_eq_some hsome
    exact ⟨e, he, hstring, hcontents⟩
  · rintro ⟨e, he, rfl, rfl⟩
    cases hdir : s.directory e.string with
    | none => exact absurd rfl (directory_eq_none.1 hdir e he)
    | some contents =>
      obtain ⟨e', he', hstring, rfl, -⟩ := directory_eq_some hdir
      rw [List.inj_on_of_nodup_map h he' he hstring]

theorem directory_ext {m : Directory} (h : s.Distinct) (hm : ∀ n contents, m n = some contents ↔
    ∃ e ∈ s.entries, e.string = n ∧ e.contents = contents) : s.directory = m := by
  funext n
  apply Option.ext
  intro contents
  rw [directory_eq_some_iff h, hm]

-- --------
-- Changing an entry
-- --------

theorem Sound.mem_setEntry (h : s.Sound) {e₀ : RamfsDirent} (he₀ : e₀ ∈ s.entries)
    {f : RamfsDirent → RamfsDirent} :
    e ∈ (s.setEntry e₀.id f).entries ↔ e = f e₀ ∨ (e ∈ s.entries ∧ e ≠ e₀) := by
  rw [setEntry, List.mem_map]
  constructor
  · rintro ⟨e', he', rfl⟩
    split
    case isTrue hid =>
      rw [h.eq_of_id he' he₀ hid]
      exact Or.inl rfl
    case isFalse hid =>
      refine Or.inr ⟨he', ?_⟩
      rintro rfl
      exact hid rfl
  · rintro (rfl | ⟨he, hne⟩)
    · exact ⟨e₀, he₀, if_pos rfl⟩
    · exact ⟨e, he, if_neg fun hid => hne (h.eq_of_id he he₀ hid)⟩

/-- The other files stay, and the file keeps its name. -/
theorem Sound.setEntry (h : s.Sound) {e₀ : RamfsDirent} (he₀ : e₀ ∈ s.entries)
    {f : RamfsDirent → RamfsDirent} (hid : (f e₀).id = e₀.id)
    (hnamed : Named (f e₀) e₀.string) : (s.setEntry e₀.id f).Sound ∧
      (s.setEntry e₀.id f).directory =
        Function.update s.directory e₀.string (some (f e₀).contents) := by
  have hsame {β : Type} {g : RamfsDirent → β} (hg : g (f e₀) = g e₀) :
      (s.setEntry e₀.id f).entries.map g = s.entries.map g := by
    rw [Ramfs.setEntry, List.map_map]
    refine List.map_congr_left fun e he => ?_
    change g (if e.id = e₀.id then f e else e) = g e
    split
    case isTrue hthis =>
      rw [h.eq_of_id he he₀ hthis]
      exact hg
    case isFalse => rfl
  have hsound : (s.setEntry e₀.id f).Sound := by
    refine ⟨fun e he => ?_, ?_, ?_, fun e he => ?_⟩
    · rcases (h.mem_setEntry he₀).1 he with rfl | ⟨he, -⟩
      · exact ⟨_, hnamed⟩
      · exact h.named e he
    · rw [Distinct, hsame hnamed.string]
      exact h.distinct
    · rw [hsame hid]
      exact h.ids
    · rcases (h.mem_setEntry he₀).1 he with rfl | ⟨he, -⟩
      · rw [hid]
        exact h.below e₀ he₀
      · exact h.below e he
  refine ⟨hsound, directory_ext hsound.distinct fun n contents => ?_⟩
  by_cases hn : n = e₀.string
  · subst hn
    rw [Function.update_self, Option.some.injEq]
    constructor
    · rintro rfl
      exact ⟨f e₀, (h.mem_setEntry he₀).2 (Or.inl rfl), hnamed.string, rfl⟩
    · rintro ⟨e, he, hstring, rfl⟩
      rcases (h.mem_setEntry he₀).1 he with rfl | ⟨he, hne⟩
      · rfl
      · exact absurd (h.eq_of_string he he₀ hstring) hne
  · rw [Function.update_of_ne hn, directory_eq_some_iff h.distinct]
    constructor
    · rintro ⟨e, he, rfl, rfl⟩
      refine ⟨e, (h.mem_setEntry he₀).2 (Or.inr ⟨he, ?_⟩), rfl, rfl⟩
      rintro rfl
      exact hn rfl
    · rintro ⟨e, he, rfl, rfl⟩
      rcases (h.mem_setEntry he₀).1 he with rfl | ⟨he, -⟩
      · exact absurd hnamed.string hn
      · exact ⟨e, he, rfl, rfl⟩

theorem Sound.setEntry_lost (h : s.Sound) {e₀ : RamfsDirent} (he₀ : e₀ ∈ s.entries)
    {f : RamfsDirent → RamfsDirent} (hnew : (f e₀).string ≠ n)
    (hold : ∀ e ∈ s.entries, e ≠ e₀ → e.string ≠ n) :
    (s.setEntry e₀.id f).directory n = none := by
  rw [directory_eq_none]
  intro e he
  rcases (h.mem_setEntry he₀).1 he with rfl | ⟨he, hne⟩
  · exact hnew
  · exact hold e he hne

-- --------
-- A new entry
-- --------

/-- The new entry has the size 0 already. -/
theorem Sound.openEntry_new (h : s.Sound) {path : List Char} {flags : OpenFlags} :
    (s.addEntry path).openEntry s.next flags = (.opened 0, s.addEntry path) := by
  have hset : (s.addEntry path).setEntry s.next (fun e => { e with data := 0, contents := [] }) =
      s.addEntry path := by
    have hold : s.entries.map (fun e : RamfsDirent =>
        if e.id = s.next then { e with data := 0, contents := [] } else e) = s.entries := by
      refine (List.map_congr_left fun e he => ?_).trans (List.map_id _)
      have hlt := h.below e he
      exact if_neg (by omega)
    rw [Ramfs.setEntry, addEntry, List.map_cons, hold, if_pos rfl]
  have hsize : (s.addEntry path).sizeOf s.next = 0 := by
    rw [Ramfs.sizeOf, addEntry, List.find?_cons, decide_eq_true rfl]
    rfl
  simp only [Ramfs.openEntry]
  split
  · simp only [hset, hsize]
  · simp only [hsize]

theorem Sound.addEntry (h : s.Sound) (hn : IsName n) (hnone : s.directory n = none)
    (hfits : n.length ≤ ramfsNameMax) : (s.addEntry ('/' :: n)).Sound ∧
      (s.addEntry ('/' :: n)).directory = Function.update s.directory n (some []) := by
  have hnamed : Named ⟨s.next, strncpyName (skipSlash ('/' :: n)), 0, []⟩ n := by
    refine ⟨?_, hn, hfits, fun _ => rfl⟩
    rw [skipSlash_name hn, strncpyName, List.take_of_length_le hfits]
  have hother := directory_eq_none.1 hnone
  have hsound : (s.addEntry ('/' :: n)).Sound := by
    refine ⟨?_, ?_, ?_, ?_⟩
    · rw [Ramfs.addEntry, List.forall_mem_cons]
      exact ⟨⟨n, hnamed⟩, h.named⟩
    · rw [Distinct, Ramfs.addEntry, List.map_cons, List.nodup_cons, hnamed.string, List.mem_map]
      refine ⟨?_, h.distinct⟩
      rintro ⟨e, he, hstring⟩
      exact hother e he hstring
    · rw [Ramfs.addEntry, List.map_cons, List.nodup_cons, List.mem_map]
      refine ⟨?_, h.ids⟩
      rintro ⟨e, he, hid⟩
      exact absurd hid (h.below e he).ne
    · rw [Ramfs.addEntry, List.forall_mem_cons]
      exact ⟨Nat.lt_succ_self _, fun e he => Nat.lt_succ_of_lt (h.below e he)⟩
  refine ⟨hsound, directory_ext hsound.distinct fun m contents => ?_⟩
  rw [Ramfs.addEntry, List.exists_mem_cons_iff, hnamed.string]
  by_cases hm : m = n
  · subst hm
    rw [Function.update_self, Option.some.injEq]
    constructor
    · rintro rfl
      exact Or.inl ⟨rfl, rfl⟩
    · rintro (⟨-, rfl⟩ | ⟨e, he, hstring, -⟩)
      · rfl
      · exact absurd hstring (hother e he)
  · rw [Function.update_of_ne hm, directory_eq_some_iff h.distinct]
    refine (or_iff_right ?_).symm
    rintro ⟨heq, -⟩
    exact hm heq.symm

/-- A name that does not fit is cut off. -/
theorem addEntry_lost (hn : IsName n) (hnone : s.directory n = none)
    (hlong : ramfsNameMax < n.length) : (s.addEntry ('/' :: n)).directory n = none := by
  rw [directory_eq_none, Ramfs.addEntry, List.forall_mem_cons]
  refine ⟨fun hstring => ?_, directory_eq_none.1 hnone⟩
  have hlen : (n.take ramfsNameMax).length = ramfsNameMax := List.length_take_of_le hlong.le
  have hpad : (n.take ramfsNameMax).rightpad ramfsNameMax '\x00' = n.take ramfsNameMax := by
    rw [List.rightpad, hlen, Nat.sub_self, List.replicate_zero, List.append_nil]
  have hcells : RamfsDirent.cells ⟨s.next, strncpyName (skipSlash ('/' :: n)), 0, []⟩ =
      n.take ramfsNameMax ++ '\x00' :: ((wordBytes 0).tail ++ wordBytes 0) := by
    rw [RamfsDirent.cells, skipSlash_name hn, strncpyName, hpad]
    rfl
  rw [RamfsDirent.string, hcells, takeWhile_nul fun hmem => hn.nul (List.mem_of_mem_take hmem)]
    at hstring
  rw [hstring] at hlen
  omega

-- --------
-- An entry goes
-- --------

theorem Sound.removeEntry (h : s.Sound) {e₀ : RamfsDirent} (he₀ : e₀ ∈ s.entries) :
    ({ s with entries := s.entries.filter fun e => e.id ≠ e₀.id } : Ramfs).Sound ∧
      ({ s with entries := s.entries.filter fun e => e.id ≠ e₀.id } : Ramfs).directory =
        Function.update s.directory e₀.string none := by
  have hmem (e : RamfsDirent) :
      e ∈ s.entries.filter (fun e => e.id ≠ e₀.id) ↔ e ∈ s.entries ∧ e ≠ e₀ := by
    rw [List.mem_filter, decide_eq_true_eq]
    refine and_congr_right fun he => not_congr ⟨fun hid => h.eq_of_id he he₀ hid, ?_⟩
    rintro rfl
    rfl
  have hsound : ({ s with entries := s.entries.filter fun e => e.id ≠ e₀.id } : Ramfs).Sound := by
    refine ⟨fun e he => h.named e ((hmem e).1 he).1, ?_, ?_, fun e he => h.below e ((hmem e).1 he).1⟩
    · exact h.distinct.sublist (List.filter_sublist.map _)
    · exact h.ids.sublist (List.filter_sublist.map _)
  refine ⟨hsound, directory_ext hsound.distinct fun n contents => ?_⟩
  by_cases hn : n = e₀.string
  · subst hn
    rw [Function.update_self]
    refine iff_of_false nofun ?_
    rintro ⟨e, he, hstring, -⟩
    obtain ⟨he, hne⟩ := (hmem e).1 he
    exact hne (h.eq_of_string he he₀ hstring)
  · rw [Function.update_of_ne hn, directory_eq_some_iff h.distinct]
    constructor
    · rintro ⟨e, he, rfl, rfl⟩
      refine ⟨e, (hmem e).2 ⟨he, ?_⟩, rfl, rfl⟩
      rintro rfl
      exact hn rfl
    · rintro ⟨e, he, rfl, rfl⟩
      exact ⟨e, ((hmem e).1 he).1, rfl, rfl⟩

-- --------
-- The calls against the map
-- --------

/-- The state behind a call that returns. -/
def exec (mount : NormalPath) (s : Ramfs) (a : RamfsAct) : Option Ramfs :=
  (call mount s a).toOption.map Prod.snd

/-- What is to be shown of a call. -/
def Settled (mount : NormalPath) (s : Ramfs) (a : RamfsAct) : Prop :=
  (Meets mount s a ↔ s.Allowed a) ∧ (s.Allowed a → ∀ s', exec mount s a = some s' → s'.Sound)

theorem settled_of_meets {a : RamfsAct} {r : RamfsOut} (hcall : call mount s a = .ok (r, s'))
    (hsound : s'.Sound) (hspec : (r, s'.directory) = s.directory.call a) (hallowed : s.Allowed a) :
    Settled mount s a := by
  refine ⟨iff_of_true ⟨r, s', hcall, hsound.distinct, hspec⟩ hallowed, fun _ s'' hexec => ?_⟩
  rw [exec, hcall] at hexec
  obtain rfl := Option.some.inj hexec
  exact hsound

theorem settled_of_lost {a : RamfsAct} (hallowed : ¬ s.Allowed a)
    (hlost : ∀ r s', call mount s a = .ok (r, s') → (r, s'.directory) ≠ s.directory.call a) :
    Settled mount s a := by
  refine ⟨iff_of_false ?_ hallowed, fun hall => absurd hall hallowed⟩
  rintro ⟨r, s', hcall, -, hspec⟩
  exact hlost r s' hcall hspec

theorem Sound.openEntry (h : s.Sound) (he : e ∈ s.entries) (flags : OpenFlags) :
    ∃ r s', s.openEntry e.id flags = (r, s') ∧ s'.Sound ∧ (r, s'.directory) =
      if flags.trunc then (.opened 0, Function.update s.directory e.string (some []))
      else (.opened e.contents.length, s.directory) := by
  obtain ⟨n, hn⟩ := h.named e he
  by_cases htrunc : flags.trunc = true
  · let f : RamfsDirent → RamfsDirent := fun e => { e with data := 0, contents := [] }
    have hnamed : Named (f e) e.string := by
      rw [hn.string]
      exact ⟨hn.name, hn.isName, hn.fits, fun _ => rfl⟩
    obtain ⟨hsound, hdir⟩ := h.setEntry he (f := f) rfl hnamed
    have hmem : f e ∈ (s.setEntry e.id f).entries := (h.mem_setEntry he).2 (Or.inl rfl)
    have hsize : (s.setEntry e.id f).sizeOf e.id = 0 := hsound.sizeOf hmem
    refine ⟨.opened 0, s.setEntry e.id f, ?_, hsound, ?_⟩
    · simp only [Ramfs.openEntry, if_pos htrunc]
      rw [hsize]
    · rw [hdir, if_pos htrunc]
  · refine ⟨.opened e.contents.length, s, ?_, h, ?_⟩
    · simp only [Ramfs.openEntry, if_neg htrunc]
      rw [h.sizeOf he]
    · rw [if_neg htrunc]

/-- Opening the mount point. -/
theorem dfsRamfsOpen_root (s : Ramfs) (flags : OpenFlags) (mem : Bool) :
    ∃ r, s.dfsRamfsOpen ['/'] flags mem = .ok (r, s) ∧
      (r, s.directory) = s.directory.openFile flags mem none := by
  have hroot : s.lookup ['/'] = .ok (some .root) := rfl
  rw [dfsRamfsOpen, Directory.openFile, hroot]
  cases flags.directory with
  | true =>
    cases flags.creat with
    | true => exact ⟨_, rfl, rfl⟩
    | false => exact ⟨_, rfl, rfl⟩
  | false => exact ⟨_, rfl, rfl⟩

/-- Opening a file that is there. -/
theorem Sound.dfsRamfsOpen_some (h : s.Sound) (hn : IsName n) {contents : List UInt8}
    (hsome : s.directory n = some contents) (flags : OpenFlags) (mem : Bool) :
    ∃ r s', s.dfsRamfsOpen ('/' :: n) flags mem = .ok (r, s') ∧ s'.Sound ∧
      (r, s'.directory) = s.directory.openFile flags mem (some n) := by
  obtain ⟨e, he, rfl, rfl, hlookup⟩ := h.lookup_some hn hsome
  rw [dfsRamfsOpen, hlookup]
  simp only [Directory.openFile, hsome]
  cases flags.directory with
  | true =>
    cases flags.creat with
    | true => exact ⟨_, s, rfl, h, rfl⟩
    | false =>
      refine ⟨.opened (s.sizeOf e.id), s, rfl, h, ?_⟩
      rw [h.sizeOf he]
      rfl
  | false =>
    obtain ⟨r, s', hopen, hsound, hspec⟩ := h.openEntry he flags
    refine ⟨r, s', ?_, hsound, hspec⟩
    change Except.ok (s.openEntry e.id flags) = _
    rw [hopen]

/-- Opening a file that is not there, unless one is made. -/
theorem Sound.dfsRamfsOpen_none (h : s.Sound) (hn : IsName n) (hnone : s.directory n = none)
    {flags : OpenFlags} {mem : Bool} (hmakes : ¬ (flags.directory = false ∧
      (flags.creat = true ∨ flags.wronly = true) ∧ mem = true)) :
    ∃ r, s.dfsRamfsOpen ('/' :: n) flags mem = .ok (r, s) ∧
      (r, s.directory) = s.directory.openFile flags mem (some n) := by
  have hlookup := h.lookup_none hn hnone
  rw [dfsRamfsOpen, hlookup]
  simp only [Directory.openFile, hnone]
  cases hdir : flags.directory with
  | true =>
    cases flags.creat with
    | true => exact ⟨_, rfl, rfl⟩
    | false => exact ⟨_, rfl, rfl⟩
  | false =>
    by_cases hcreat : flags.creat = true ∨ flags.wronly = true
    · have hmem : mem = false := by
        rw [← Bool.not_eq_true]
        exact fun hmem => hmakes ⟨hdir, hcreat, hmem⟩
      subst hmem
      refine ⟨.failed .enomem, ?_, ?_⟩
      · change (if flags.creat = true ∨ flags.wronly = true then _ else _) = _
        rw [if_pos hcreat]
        rfl
      · simp only [Bool.false_eq_true, if_false, if_pos hcreat]
    · refine ⟨.failed .enoent, ?_, ?_⟩
      · change (if flags.creat = true ∨ flags.wronly = true then _ else _) = _
        rw [if_neg hcreat]
        rfl
      · simp only [Bool.false_eq_true, if_false, if_neg hcreat]

/-- Making a file. -/
theorem Sound.dfsRamfsOpen_new (h : s.Sound) (hn : IsName n) (hnone : s.directory n = none)
    {flags : OpenFlags} (hdir : flags.directory = false)
    (hcreat : flags.creat = true ∨ flags.wronly = true) :
    s.dfsRamfsOpen ('/' :: n) flags true = .ok (.opened 0, s.addEntry ('/' :: n)) ∧
      s.directory.openFile flags true (some n) =
        (.opened 0, Function.update s.directory n (some [])) := by
  constructor
  · rw [dfsRamfsOpen, h.lookup_none hn hnone, hdir]
    change (if flags.creat = true ∨ flags.wronly = true then _ else _) = _
    rw [if_pos hcreat]
    change Except.ok ((s.addEntry ('/' :: n)).openEntry s.next flags) = _
    rw [h.openEntry_new]
  · simp only [Directory.openFile, hnone, hdir, if_pos hcreat]
    rfl

theorem result_ne {r r' : RamfsOut} {m m' : Directory} (h : m n ≠ m' n) : (r, m) ≠ (r', m') :=
  fun heq => h (congrFun (Prod.mk.inj heq).2 n)

theorem Sound.openFile (h : s.Sound) (path : NormalPath) (flags : OpenFlags) (mem : Bool) :
    Settled mount s (.open path flags mem) := by
  have hcall : call mount s (.open path flags mem) =
      s.dfsRamfsOpen ('/' :: path.name.getD []) flags mem := by
    rw [call, dfsFileOpen, subdir_eq]
    cases path.name with
    | none => rfl
    | some n => rfl
  have hspec : s.directory.call (.open path flags mem) =
      s.directory.openFile flags mem path.name := rfl
  cases hname : path.name with
  | none =>
    rw [hname] at hcall hspec
    obtain ⟨r, hret, hmap⟩ := dfsRamfsOpen_root s flags mem
    refine settled_of_meets (hcall.trans hret) h (hmap.trans hspec.symm) fun n hn => ?_
    rw [hname] at hn
    cases hn
  | some n =>
    rw [hname] at hcall hspec
    have hn := (name_spec hname).2
    have hthis {m : List Char} (hm : path.name = some m) : m = n :=
      Option.some.inj (hm.symm.trans hname)
    cases hdirectory : s.directory n with
    | some contents =>
      obtain ⟨r, s', hret, hsound, hmap⟩ := h.dfsRamfsOpen_some hn hdirectory flags mem
      refine settled_of_meets (hcall.trans hret) hsound (hmap.trans hspec.symm) ?_
      intro m hm hnone
      rw [hthis hm, hdirectory] at hnone
      cases hnone
    | none =>
      by_cases hmakes : flags.directory = false ∧
          (flags.creat = true ∨ flags.wronly = true) ∧ mem = true
      · obtain ⟨hdir, hcreat, rfl⟩ := hmakes
        obtain ⟨hret, hmap⟩ := h.dfsRamfsOpen_new hn hdirectory hdir hcreat
        by_cases hfits : n.length ≤ ramfsNameMax
        · obtain ⟨hsound, hadd⟩ := h.addEntry hn hdirectory hfits
          refine settled_of_meets (hcall.trans hret) hsound ?_ fun m hm _ _ _ _ => ?_
          · rw [hspec, hmap, hadd]
          · rw [hthis hm]
            exact hfits
        · refine settled_of_lost (fun hall => ?_) fun r s' hs' => ?_
          · exact hfits (hall n hname hdirectory hdir hcreat rfl)
          · obtain ⟨rfl, rfl⟩ := Prod.mk.inj (Except.ok.inj (hs'.symm.trans (hcall.trans hret)))
            rw [hspec, hmap]
            refine result_ne (n := n) ?_
            rw [addEntry_lost hn hdirectory (Nat.lt_of_not_le hfits), Function.update_self]
            exact nofun
      · obtain ⟨r, hret, hmap⟩ := h.dfsRamfsOpen_none hn hdirectory hmakes
        refine settled_of_meets (hcall.trans hret) h (hmap.trans hspec.symm) ?_
        intro m hm _ hdir hcreat hmem
        exact absurd ⟨hdir, hcreat, hmem⟩ hmakes

theorem Sound.unlink (h : s.Sound) (path : NormalPath) (busy : Bool) :
    Settled mount s (.unlink path busy) := by
  have hspec : s.directory.call (.unlink path busy) = s.directory.unlink busy path.name := rfl
  cases busy with
  | true =>
    refine settled_of_meets (r := .failed .ebusy) rfl h ?_ (Or.inl rfl)
    rw [hspec]
    cases path.name with
    | none => rfl
    | some n => rfl
  | false =>
    have hcall : call mount s (.unlink path false) =
        s.dfsRamfsUnlink ('/' :: path.name.getD []) := by
      simp only [call, dfsFileUnlink, subdir_eq, Bool.false_eq_true, if_false]
      cases path.name with
      | none => rfl
      | some n => rfl
    cases hname : path.name with
    | none =>
      rw [hname] at hcall
      refine settled_of_lost (fun hall => ?_) fun r s' hs' => ?_
      · rcases hall with hbusy | hne
        · cases hbusy
        · exact hne hname
      · rw [hcall] at hs'
        cases hs'
    | some n =>
      rw [hname] at hcall hspec
      have hn := (name_spec hname).2
      have hallowed : s.Allowed (.unlink path false) := by
        refine Or.inr ?_
        rw [hname]
        exact nofun
      cases hdirectory : s.directory n with
      | some contents =>
        obtain ⟨e, he, rfl, rfl, hlookup⟩ := h.lookup_some hn hdirectory
        obtain ⟨hsound, hdir⟩ := h.removeEntry he
        refine settled_of_meets (r := .done) (hcall.trans ?_) hsound ?_ hallowed
        · rw [dfsRamfsUnlink]
          change (s.lookup ('/' :: e.string) >>= _) = _
          rw [hlookup]
          rfl
        · rw [hspec, hdir]
          simp only [Directory.unlink, hdirectory, Bool.false_eq_true, if_false]
      | none =>
        refine settled_of_meets (r := .failed .enoent) (hcall.trans ?_) h ?_ hallowed
        · rw [dfsRamfsUnlink]
          change (s.lookup ('/' :: n) >>= _) = _
          rw [h.lookup_none hn hdirectory]
          rfl
        · rw [hspec]
          simp only [Directory.unlink, hdirectory, Bool.false_eq_true, if_false]

theorem Sound.stat (h : s.Sound) (path : NormalPath) : Settled mount s (.stat path) := by
  have hspec : s.directory.call (.stat path) = s.directory.stat path.name := rfl
  cases hname : path.name with
  | none =>
    rw [hname] at hspec
    refine settled_of_meets (r := .directory) ?_ h (by rw [hspec]; rfl) trivial
    rw [call, dfsFileStat, subdir_eq, hname, Option.map_none]
    split
    · rfl
    · rfl
  | some n =>
    rw [hname] at hspec
    obtain ⟨hrooted, hn⟩ := name_spec hname
    have hcall : call mount s (.stat path) = s.dfsRamfsStat ('/' :: n) := by
      rw [call, dfsFileStat, if_neg (fullpath_ne_root hname), subdir_eq, hname, Option.map_some]
    cases hdirectory : s.directory n with
    | some contents =>
      obtain ⟨e, he, rfl, rfl, hlookup⟩ := h.lookup_some hn hdirectory
      refine settled_of_meets (r := .size e.contents.length) (hcall.trans ?_) h ?_ trivial
      · rw [dfsRamfsStat, hlookup, ← h.sizeOf he]
        rfl
      · rw [hspec]
        simp only [Directory.stat, hdirectory]
    | none =>
      refine settled_of_meets (r := .failed .enoent) (hcall.trans ?_) h ?_ trivial
      · rw [dfsRamfsStat, h.lookup_none hn hdirectory]
        rfl
      · rw [hspec]
        simp only [Directory.stat, hdirectory]

theorem head_renamed (e : RamfsDirent) (n : List Char) :
    (RamfsDirent.string { e with name := strncpyName ('/' :: n) }).head? = some '/' := by
  have hname : ∃ rest, strncpyName ('/' :: n) = '/' :: rest := ⟨_, rfl⟩
  obtain ⟨rest, hrest⟩ := hname
  rw [RamfsDirent.string, RamfsDirent.cells, hrest, List.cons_append,
    List.takeWhile_cons_of_pos (by decide), List.head?_cons]

theorem Sound.rename (h : s.Sound) (old new : NormalPath) :
    Settled mount s (.rename old new) := by
  have hspec : s.directory.call (.rename old new) = s.directory.rename old.name new.name := rfl
  have hcall : call mount s (.rename old new) =
      s.dfsRamfsRename (old.name.map fun n => '/' :: n) (new.name.map fun n => '/' :: n) := by
    rw [call, dfsFileRename, subdir_eq, subdir_eq]
  cases hname : new.name with
  | none =>
    rw [hname] at hcall
    refine settled_of_lost (fun hall => ?_) fun r s' hs' => ?_
    · obtain ⟨n, hn, -⟩ := hall
      rw [hname] at hn
      cases hn
    · rw [hcall] at hs'
      cases hs'
  | some n =>
    rw [hname] at hcall hspec
    have hn := (name_spec hname).2
    cases hdirectory : s.directory n with
    | some contents =>
      obtain ⟨e, he, -, -, hlookup⟩ := h.lookup_some hn hdirectory
      refine settled_of_meets (r := .failed .eexist) (hcall.trans ?_) h ?_
        ⟨n, hname, Or.inl (by rw [hdirectory]; exact nofun)⟩
      · change (s.lookup ('/' :: n) >>= _) = _
        rw [hlookup]
        rfl
      · rw [hspec]
        simp only [Directory.rename, hdirectory]
    | none =>
      have hlookup := h.lookup_none hn hdirectory
      have hnot (hall : s.Allowed (.rename old new)) :
          ∃ o, old.name = some o ∧ s.directory o = none := by
        obtain ⟨m, hm, hall⟩ := hall
        obtain rfl := Option.some.inj (hname.symm.trans hm)
        exact hall.resolve_left fun hne => hne hdirectory
      cases holdName : old.name with
      | none =>
        rw [holdName] at hcall hnot
        refine settled_of_lost (fun hall => ?_) fun r s' hs' => ?_
        · obtain ⟨o, ho, -⟩ := hnot hall
          cases ho
        · have herror : s.dfsRamfsRename none (some ('/' :: n)) = .error .badPointer := by
            change (s.lookup ('/' :: n) >>= _) = _
            rw [hlookup]
            rfl
          rw [hcall] at hs'
          cases herror.symm.trans hs'
      | some o =>
        rw [holdName] at hcall hspec hnot
        have ho := (name_spec holdName).2
        cases holdDirectory : s.directory o with
        | none =>
          refine settled_of_meets (r := .failed .enoent) (hcall.trans ?_) h ?_
            ⟨n, hname, Or.inr ⟨o, holdName, holdDirectory⟩⟩
          · change (s.lookup ('/' :: n) >>= _) = _
            rw [hlookup]
            change (s.lookup ('/' :: o) >>= _) = _
            rw [h.lookup_none ho holdDirectory]
            rfl
          · rw [hspec]
            simp only [Directory.rename, hdirectory, Option.bind_some, holdDirectory]
        | some contents =>
          obtain ⟨e, he, rfl, rfl, hfound⟩ := h.lookup_some ho holdDirectory
          have hret : s.dfsRamfsRename (some ('/' :: e.string)) (some ('/' :: n)) =
              .ok (.done, s.setEntry e.id fun e => { e with name := strncpyName ('/' :: n) }) := by
            change (s.lookup ('/' :: n) >>= _) = _
            rw [hlookup]
            change (s.lookup ('/' :: e.string) >>= _) = _
            rw [hfound]
            rfl
          refine settled_of_lost (fun hall => ?_) fun r s' hs' => ?_
          · obtain ⟨o, ho, hnone⟩ := hnot hall
            obtain rfl := Option.some.inj ho
            rw [holdDirectory] at hnone
            cases hnone
          · obtain ⟨rfl, rfl⟩ := Prod.mk.inj (Except.ok.inj (hs'.symm.trans (hcall.trans hret)))
            rw [hspec]
            simp only [Directory.rename, hdirectory, Option.bind_some, holdDirectory]
            refine result_ne (n := n) ?_
            rw [Function.update_self, h.setEntry_lost he ?_ fun e' he' _ =>
              directory_eq_none.1 hdirectory e' he']
            · exact nofun
            · intro hstring
              have hhead := head_renamed e n
              rw [hstring] at hhead
              exact hn.head hhead

/-- A data pointer that does not start with a zero byte goes on with a name that fills its field. -/
theorem Named.string_ne (h : Named e n) (hlen : n.length = ramfsNameMax) {data : Nat}
    (hdata : data % 256 ≠ 0) (contents : List UInt8) :
    RamfsDirent.string { e with data, contents } ≠ n := by
  have hpad : n.rightpad ramfsNameMax '\x00' = n := by
    rw [List.rightpad, hlen, Nat.sub_self, List.replicate_zero, List.append_nil]
  have hchars : ∀ c ∈ n, decide (c ≠ '\x00') = true := by
    intro c hc
    rw [decide_eq_true_eq]
    rintro rfl
    exact h.isName.nul hc
  have hbyte : Char.ofNat (data % 256) ≠ '\x00' := by
    have hlt : data % 256 < 256 := Nat.mod_lt _ (by decide)
    have hvalid : (data % 256).isValidChar := Or.inl (by omega)
    intro hzero
    have haux : Char.ofNat (data % 256) = Char.ofNatAux (data % 256) hvalid := dif_pos hvalid
    have hnat := congrArg Char.toNat (haux.symm.trans hzero)
    exact hdata hnat
  obtain ⟨rest, hcells⟩ : ∃ rest, RamfsDirent.cells { e with data, contents } =
      n ++ Char.ofNat (data % 256) :: rest := by
    refine ⟨(wordBytes data).tail ++ wordBytes contents.length, ?_⟩
    rw [RamfsDirent.cells, h.name, hpad]
    rfl
  intro hstring
  have hlonger := congrArg List.length hstring
  rw [RamfsDirent.string, hcells, List.takeWhile_append_of_pos hchars, List.takeWhile_cons,
    if_pos (decide_eq_true hbyte), List.length_append, List.length_cons] at hlonger
  omega

theorem Sound.write (h : s.Sound) (path : NormalPath) (data : Nat) (contents : List UInt8) :
    Settled mount s (.write path data contents) := by
  have hspec : s.directory.call (.write path data contents) =
      s.directory.write contents path.name := rfl
  cases hname : path.name with
  | none =>
    rw [hname] at hspec
    refine settled_of_meets (r := .done) ?_ h (by rw [hspec]; rfl) fun n hn => ?_
    · rw [call, written, subdir_eq, hname]
      rfl
    · rw [hname] at hn
      cases hn
  | some n =>
    rw [hname] at hspec
    have hn := (name_spec hname).2
    have hsub : (subdir mount path).getD ['/'] = '/' :: n := by
      rw [subdir_eq, hname]
      rfl
    have hthis {m : List Char} (hm : path.name = some m) : m = n :=
      Option.some.inj (hm.symm.trans hname)
    cases hdirectory : s.directory n with
    | none =>
      refine settled_of_meets (r := .done) ?_ h ?_ fun m hm hne => ?_
      · rw [call, written, hsub, h.lookup_none hn hdirectory]
        rfl
      · rw [hspec]
        simp only [Directory.write, hdirectory]
      · rw [hthis hm] at hne
        exact absurd hdirectory hne
    | some old =>
      obtain ⟨e, he, rfl, rfl, hlookup⟩ := h.lookup_some hn hdirectory
      have hret : call mount s (.write path data contents) =
          .ok (.done, s.setEntry e.id fun e => { e with data, contents }) := by
        rw [call, written, hsub, hlookup]
        rfl
      have hmap : s.directory.call (.write path data contents) =
          (.done, Function.update s.directory e.string (some contents)) := by
        rw [hspec]
        simp only [Directory.write, hdirectory]
      obtain ⟨m, hnamed⟩ := h.named e he
      obtain rfl := hnamed.string
      by_cases hends : e.string.length = ramfsNameMax → data % 256 = 0
      · have hnamed' : Named { e with data, contents } e.string :=
          ⟨hnamed.name, hnamed.isName, hnamed.fits, hends⟩
        obtain ⟨hsound, hdir⟩ :=
          h.setEntry he (f := fun e => { e with data, contents }) rfl hnamed'
        refine settled_of_meets hret hsound ?_ fun m hm _ hlen => ?_
        · rw [hmap, hdir]
        · rw [hthis hm] at hlen
          exact hends hlen
      · obtain ⟨hlen, hdata⟩ := Classical.not_imp.1 hends
        refine settled_of_lost (fun hall => ?_) fun r s' hs' => ?_
        · exact hdata (hall _ hname (by rw [hdirectory]; exact nofun) hlen)
        · obtain ⟨rfl, rfl⟩ := Prod.mk.inj (Except.ok.inj (hs'.symm.trans hret))
          rw [hmap]
          refine result_ne (n := e.string) ?_
          rw [Function.update_self, h.setEntry_lost he ?_ fun e' he' hne hstring =>
            hne (h.eq_of_string he' he hstring)]
          · exact nofun
          · exact hnamed.string_ne hlen hdata contents

-- --------
-- Whole runs
-- --------

theorem Sound.settled (h : s.Sound) (a : RamfsAct) : Settled mount s a := by
  cases a with
  | «open» path flags mem => exact h.openFile path flags mem
  | unlink path busy => exact h.unlink path busy
  | rename old new => exact h.rename old new
  | stat path => exact h.stat path
  | write path data contents => exact h.write path data contents

/-- There are no files at the start. -/
theorem create_sound : create.Sound := ⟨nofun, List.nodup_nil, List.nodup_nil, nofun⟩

/-- **The directory.** All calls of a sequence do to the list what they are to do to a map from
names to contents if and only if they are all allowed. -/
theorem ramfs_refines (mount : NormalPath) (acts : List RamfsAct) :
    Runs.Along (exec mount) (Meets mount) create acts ↔
      Runs.Along (exec mount) Allowed create acts :=
  Runs.along_iff (fun _ a h => (h.settled a).1) (fun _ a s' h hall => (h.settled a).2 hall s')
    create_sound

/-- A path with one component. -/
def single (c : List Char) (h : c ≠ [] ∧ '/' ∉ c ∧ '\x00' ∉ c) : NormalPath where
  comps := [c]
  ok := by
    intro d hd
    rw [List.mem_singleton.1 hd]
    exact h

/-- `O_CREAT` -/
def creating : OpenFlags where
  creat := true
  wronly := false
  trunc := false
  directory := false

/-- A file that was renamed is found neither under its new name nor under its old one, and a file
with a name of 33 characters is found under the first 32 of them instead. -/
theorem renamed_lost :
    let mount : NormalPath := ⟨[], nofun⟩
    let a := single ['a'] (by decide)
    let b := single ['b'] (by decide)
    let short := single (List.replicate 32 'a') (by decide)
    let long := single (List.replicate 33 'a') (by decide)
    (∃ s s', call mount create (.open a creating true) = .ok (.opened 0, s) ∧
      call mount s (.rename a b) = .ok (.done, s') ∧
      call mount s' (.stat b) = .ok (.failed .enoent, s') ∧
      call mount s' (.stat a) = .ok (.failed .enoent, s') ∧ ¬ Meets mount s (.rename a b)) ∧
    ∃ s, call mount create (.open long creating true) = .ok (.opened 0, s) ∧
      call mount s (.stat long) = .ok (.failed .enoent, s) ∧
      call mount s (.stat short) = .ok (.size 0, s) ∧
      ¬ Meets mount create (.open long creating true) := by
  intro mount a b short long
  constructor
  · obtain ⟨s, hs⟩ : ∃ s, call mount create (.open a creating true) = .ok (.opened 0, s) :=
      ⟨_, rfl⟩
    obtain rfl := (Prod.mk.inj (Except.ok.inj hs)).2
    refine ⟨_, _, rfl, rfl, rfl, rfl, ?_⟩
    rintro ⟨r, s', hcall, -, hspec⟩
    obtain ⟨rfl, rfl⟩ := Prod.mk.inj (Except.ok.inj hcall)
    have hlost := congrFun (Prod.mk.inj hspec).2 ['b']
    exact absurd hlost (by decide)
  · refine ⟨_, rfl, rfl, rfl, ?_⟩
    rintro ⟨r, s', hcall, -, hspec⟩
    obtain ⟨rfl, rfl⟩ := Prod.mk.inj (Except.ok.inj hcall)
    have hlost := congrFun (Prod.mk.inj hspec).2 (List.replicate 33 'a')
    exact absurd hlost (by decide)

end Ramfs

end RTThread.Dfs
