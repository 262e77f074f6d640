import RTThread.Lib.Runs
import RTThread.Dfs.NormalizePath

/-!
# The working directory (`components/dfs/src/dfs_posix.c`)

`chdir` normalises its path, opens the directory, and copies the path to `working_directory`. It
tests the length of its argument, not that of the normalised path, and `strncpy` writes no
terminator if the path fills the buffer: then the next relative path is joined to whatever is in
the memory behind it.

`chdir_keeps`: in every run in which the paths that are entered are shorter than `DFS_PATH_MAX`, and
no path leaves the root once (which `dfs_normalize_path` gets wrong), the buffer holds the
normalised path of the last directory that was entered, with its terminator.

Whether a directory can be opened, and whether there is memory, is part of each call.
-/

namespace RTThread.Dfs

open Components

-- --------
-- The code
-- --------

/-- `DFS_PATH_MAX` -/
def dfsPathMax : Nat := 256

/-- `strncpy(dest, src, n)`, where `dest` has `n` bytes. -/
def strncpy (src : List Char) (n : Nat) : List Char := (src.take n).rightpad n '\x00'

/-- A call of `chdir`: its path, whether `opendir` opens the directory, and whether there is memory. -/
structure ChdirCall where
  path : Option CString
  opened : Bool
  mem : Bool

/-- The bytes of `working_directory`, and how the last call has ended. -/
structure Cwd where
  workingDirectory : List Char
  result : Except Fault Int

/-- The string at `working_directory`, which goes on in the memory behind it if it has no end. -/
def workingString (after workingDirectory : List Char) : Except Fault CString :=
  if '\x00' ∈ workingDirectory ++ after then
    .ok (CString.ofBuffer (workingDirectory ++ after))
  else .error .badPointer

/-- The directory that a path is joined to, if it is not absolute. -/
def directoryOf (after workingDirectory : List Char) (path : CString) : Except Fault CString :=
  if path.chars.head? = some '/' then .ok rootPath else workingString after workingDirectory

/-- `chdir`: what it returns, and the working directory. -/
def chdir (after workingDirectory : List Char) (c : ChdirCall) : Except Fault (Int × List Char) :=
  match c.path with
  | none => do
    -- the working directory is printed
    let _ ← workingString after workingDirectory
    return (0, workingDirectory)
  | some path =>
    if path.chars.length > dfsPathMax then return (-1, workingDirectory)
    else do
      let directory ← directoryOf after workingDirectory path
      match ← dfsNormalizePath directory none path c.mem with
      | none => return (-1, workingDirectory)
      | some fullpath =>
        if c.opened then return (0, strncpy fullpath.chars dfsPathMax)
        else return (-1, workingDirectory)

namespace Cwd

/-- The working directory after `dfs_init`. -/
def init : Cwd := ⟨['/'].rightpad dfsPathMax '\x00', .ok 0⟩

/-- A call, as long as none has failed to return. -/
def exec (after : List Char) (s : Cwd) (c : ChdirCall) : Option Cwd :=
  match s.result with
  | .error _ => none
  | .ok _ =>
    match chdir after s.workingDirectory c with
    | .ok (ret, workingDirectory) => some ⟨workingDirectory, .ok ret⟩
    | .error fault => some ⟨s.workingDirectory, .error fault⟩

end Cwd

-- --------
-- What it is for
-- --------

/-- Where a path starts, seen from the directory `cs`. -/
def startOf (cs : List (List Char)) (path : CString) : List (List Char) :=
  if path.chars.head? = some '/' then [] else cs

/-- The directory that a path leads to, if it does not leave the root. -/
def target (cs : List (List Char)) (path : CString) : Option (List (List Char)) :=
  resolve dot dotDot (startOf cs path) (components '/' path.chars)

/-- The last directory that was entered. -/
def lastEntered (after : List Char) (cs : Option (List (List Char))) (s : Cwd) (c : ChdirCall) :
    Option (List (List Char)) :=
  match c.path, chdir after s.workingDirectory c with
  | some path, .ok (0, _) => cs.bind fun cs => target cs path
  | _, _ => cs

/-- The calls, with the last directory that was entered. -/
abbrev ChdirStep (after : List Char) := Runs.Observed (Runs.Exec (Cwd.exec after)) (lastEntered after)

/-- **What the working directory is to be**: a string in its buffer, the normalised path of the last
directory that was entered. -/
def Cwd.Good (p : Cwd × Option (List (List Char))) : Prop :=
  (∃ ret, p.1.result = .ok ret) ∧ p.1.workingDirectory.length = dfsPathMax ∧
    ∃ (cs : List (List Char)) (d : CString), p.2 = some cs ∧ d.chars = rooted '/' cs ∧ Normal d ∧
      Buffer.string p.1.workingDirectory 0 = some d.chars

/-- **What a run has to keep to**: a path does not leave the root exactly once, and the path of a
directory that is opened is shorter than the buffer. -/
def Cwd.Fits (p : Cwd × Option (List (List Char))) (c : ChdirCall) : Prop :=
  ∀ path ∈ c.path, path.chars.length ≤ dfsPathMax → ∀ cs ∈ p.2,
    climbs dot dotDot (startOf cs path) (components '/' path.chars) ≠ 1 ∧
      (c.opened = true → ∀ ns ∈ target cs path, (rooted '/' ns).length < dfsPathMax)

-- --------
-- A call
-- --------

/-- The working directory is where it is to be, and there is room for its terminator. -/
structure Cwd.Inv (p : Cwd × Option (List (List Char))) (cs : List (List Char)) : Prop where
  result : ∃ ret, p.1.result = .ok ret
  entered : p.2 = some cs
  names : ∀ n ∈ cs, IsName n ∧ n ≠ dot ∧ n ≠ dotDot
  fits : (rooted '/' cs).length < dfsPathMax
  buffer : p.1.workingDirectory = (rooted '/' cs).rightpad dfsPathMax '\x00'

section Call

variable {after wd : List Char} {cs ns : List (List Char)} {path : CString} {c : ChdirCall}

theorem nul_rooted (hnames : ∀ n ∈ cs, IsName n ∧ n ≠ dot ∧ n ≠ dotDot) :
    '\x00' ∉ rooted '/' cs := by
  by_cases hcs : cs = []
  · subst hcs
    decide
  · rw [rooted_of_ne_nil hcs, List.mem_flatMap]
    rintro ⟨n, hn, hmem⟩
    rcases List.mem_cons.1 hmem with hc | hc
    · cases hc
    · exact ((hnames n hn).1.2 _ hc).1 rfl

theorem workingString_rightpad (hnul : '\x00' ∉ rooted '/' cs)
    (hfits : (rooted '/' cs).length < dfsPathMax) :
    workingString after ((rooted '/' cs).rightpad dfsPathMax '\x00') =
      .ok ⟨rooted '/' cs, hnul⟩ := by
  rw [workingString, Buffer.rightpad_cons hfits, List.append_assoc, List.cons_append,
    CString.ofBuffer_append hnul, if_pos (List.mem_append_right _ List.mem_cons_self)]

/-- The names on the way to a target. -/
theorem target_names (hnames : ∀ n ∈ cs, IsName n ∧ n ≠ dot ∧ n ≠ dotDot)
    (h : target cs path = some ns) : ∀ n ∈ ns, IsName n ∧ n ≠ dot ∧ n ≠ dotDot := by
  intro n hn
  rcases resolve_mem h hn with hmem | ⟨hmem, hne⟩
  · refine hnames n ?_
    rw [startOf] at hmem
    split at hmem
    case isTrue => cases hmem
    case isFalse => exact hmem
  · exact ⟨isName_of_mem path.nul hmem, hne⟩

/-- The path that `chdir` has normalised is the one from the working directory. -/
theorem directoryOf_spec (hnames : ∀ n ∈ cs, IsName n ∧ n ≠ dot ∧ n ≠ dotDot)
    (hnul : '\x00' ∉ rooted '/' cs)
    (hstring : workingString after wd = .ok ⟨rooted '/' cs, hnul⟩) :
    ∃ directory, directoryOf after wd path = .ok directory ∧ Normal directory ∧
      resolve dot dotDot [] (pathComponents directory none path) = target cs path ∧
      climbs dot dotDot [] (pathComponents directory none path) =
        climbs dot dotDot (startOf cs path) (components '/' path.chars) := by
  by_cases habs : path.chars.head? = some '/'
  · have hpath : pathComponents rootPath none path = components '/' path.chars :=
      congrArg (components '/') (if_pos habs)
    refine ⟨rootPath, if_pos habs, normal_rootPath, ?_, ?_⟩
    · rw [hpath, target, startOf, if_pos habs]
    · rw [hpath, startOf, if_pos habs]
  · have hpath : pathComponents ⟨rooted '/' cs, hnul⟩ none path =
        cs ++ components '/' path.chars := by
      rw [pathComponents, fullPath, if_neg habs, components_append_sep]
      exact congrArg (· ++ _) (components_rooted fun n hn =>
        ⟨(hnames n hn).1.1, (hnames n hn).1.no_slash⟩)
    refine ⟨⟨rooted '/' cs, hnul⟩, (if_neg habs).trans hstring, ⟨cs, rfl, hnames⟩, ?_, ?_⟩
    · rw [hpath, resolve_names_append fun n hn => (hnames n hn).2, target, startOf, if_neg habs]
      rfl
    · rw [hpath, climbs_names_append fun n hn => (hnames n hn).2, startOf, if_neg habs]
      rfl

/-- What is normalised is the target, or nothing. -/
theorem normalizePath_target {directory : CString} {mem : Bool} (hnormal : Normal directory)
    (hres : resolve dot dotDot [] (pathComponents directory none path) = target cs path)
    (hclimbs : climbs dot dotDot [] (pathComponents directory none path) ≠ 1) :
    dfsNormalizePath directory none path mem = .ok none ∨
      ∃ ns p, target cs path = some ns ∧ p.chars = rooted '/' ns ∧
        dfsNormalizePath directory none path mem = .ok (some p) := by
  have hhead := @fullPath_head directory path hnormal
  cases mem with
  | false => exact .inl rfl
  | true =>
    cases htarget : target cs path with
    | none =>
      rw [htarget] at hres
      have hzero := mt resolve_isSome_iff.2 (by rw [hres]; decide)
      exact .inl (normalizePath_twice hhead (show 2 ≤ climbs dot dotDot [] _ by omega))
    | some ns =>
      rw [htarget] at hres
      obtain ⟨p, hp, hchars, -⟩ := @normalizePath_resolve _ directory path none hhead hres
      exact .inr ⟨ns, p, rfl, hchars, hp⟩

/-- **A call** that keeps to the condition enters the directory, or changes nothing. -/
theorem chdir_spec (hnames : ∀ n ∈ cs, IsName n ∧ n ≠ dot ∧ n ≠ dotDot)
    (hfits : (rooted '/' cs).length < dfsPathMax)
    (hwd : wd = (rooted '/' cs).rightpad dfsPathMax '\x00')
    (hok : ∀ path ∈ c.path, path.chars.length ≤ dfsPathMax →
      climbs dot dotDot (startOf cs path) (components '/' path.chars) ≠ 1 ∧
        (c.opened = true → ∀ ns ∈ target cs path, (rooted '/' ns).length < dfsPathMax)) :
    ∃ ret wd', chdir after wd c = .ok (ret, wd') ∧
      ((wd' = wd ∧ (c.path = none ∨ ret = -1)) ∨
        ∃ path ns, c.path = some path ∧ ret = 0 ∧ target cs path = some ns ∧
          (rooted '/' ns).length < dfsPathMax ∧
          wd' = (rooted '/' ns).rightpad dfsPathMax '\x00') := by
  have hnul := nul_rooted hnames
  have hstring := @workingString_rightpad after cs hnul hfits
  rw [← hwd] at hstring
  rw [chdir]
  cases hpath : c.path with
  | none =>
    dsimp only
    rw [hstring]
    exact ⟨0, wd, rfl, .inl ⟨rfl, .inl rfl⟩⟩
  | some path =>
    dsimp only
    by_cases hlen : path.chars.length > dfsPathMax
    · rw [if_pos hlen]
      exact ⟨-1, wd, rfl, .inl ⟨rfl, .inr rfl⟩⟩
    · obtain ⟨hclimbs, hshort⟩ := hok path hpath (Nat.not_lt.1 hlen)
      obtain ⟨directory, hdir, hnormal, hres, hclimb⟩ := @directoryOf_spec _ _ _ path hnames hnul
        hstring
      rw [if_neg hlen, hdir]
      rw [← hclimb] at hclimbs
      rcases @normalizePath_target _ path directory c.mem hnormal hres hclimbs with hnone |
        ⟨ns, p, htarget, hchars, hsome⟩
      · change ∃ ret wd', (dfsNormalizePath directory none path c.mem >>= _) = _ ∧ _
        rw [hnone]
        exact ⟨-1, wd, rfl, .inl ⟨rfl, .inr rfl⟩⟩
      · change ∃ ret wd', (dfsNormalizePath directory none path c.mem >>= _) = _ ∧ _
        rw [hsome]
        cases hopened : c.opened with
        | false => exact ⟨-1, wd, rfl, .inl ⟨rfl, .inr rfl⟩⟩
        | true =>
          have hlt := hshort hopened ns htarget
          refine ⟨0, (rooted '/' ns).rightpad dfsPathMax '\x00', ?_,
            .inr ⟨path, ns, rfl, rfl, htarget, hlt, rfl⟩⟩
          change Except.ok (0, strncpy p.chars dfsPathMax) = _
          rw [strncpy, hchars, List.take_of_length_le (Nat.le_of_lt hlt)]

end Call

-- --------
-- Runs
-- --------

namespace Cwd

variable {after : List Char} {cs : List (List Char)} {p q : Cwd × Option (List (List Char))}
  {c : ChdirCall}

theorem Inv.good (h : Inv p cs) : Good p := by
  have hnul := nul_rooted h.names
  refine ⟨h.result, ?_, cs, ⟨rooted '/' cs, hnul⟩, h.entered, rfl, ⟨cs, rfl, h.names⟩, ?_⟩
  · rw [h.buffer]
    exact Buffer.length_rightpad (Nat.le_of_lt h.fits)
  · rw [h.buffer]
    exact Buffer.string_rightpad (Nat.zero_le _) h.fits hnul

/-- The working directory is the root at the start. -/
theorem init_inv : Inv (init, some []) [] where
  result := ⟨0, rfl⟩
  entered := rfl
  names := nofun
  fits := by decide
  buffer := rfl

/-- **A call** keeps the invariant. -/
theorem Inv.step (h : Inv p cs) (hfits : Fits p c) (hstep : ChdirStep after p c q) :
    ∃ cs', Inv q cs' := by
  obtain ⟨s, e⟩ := p
  obtain ⟨s', e'⟩ := q
  obtain ⟨hexec, he⟩ := hstep
  obtain rfl : e' = lastEntered after e s c := he
  obtain ⟨ret, hret⟩ := h.result
  obtain rfl : e = some cs := h.entered
  obtain ⟨ret', wd', hchdir, hwd⟩ := @chdir_spec after s.workingDirectory cs c h.names h.fits h.buffer
    fun path hpath hlen => hfits path hpath hlen cs rfl
  have hs' : s' = ⟨wd', .ok ret'⟩ := by
    unfold Runs.Exec exec at hexec
    rw [hret] at hexec
    dsimp only at hexec
    rw [hchdir] at hexec
    exact (Option.some.inj hexec).symm
  subst hs'
  rcases hwd with ⟨rfl, hsame⟩ | ⟨path, ns, hpath, rfl, htarget, hlt, rfl⟩
  · have hentered : lastEntered after (some cs) s c = some cs := by
      rw [lastEntered, hchdir]
      rcases hsame with hpath | rfl
      · rw [hpath]
      · split
        case h_1 heq => cases heq
        case h_2 => rfl
    rw [hentered]
    exact ⟨cs, ⟨_, rfl⟩, rfl, h.names, h.fits, h.buffer⟩
  · have hentered : lastEntered after (some cs) s c = some ns := by
      rw [lastEntered, hchdir, hpath]
      exact htarget
    rw [hentered]
    exact ⟨ns, ⟨_, rfl⟩, rfl, target_names h.names htarget, hlt, rfl⟩

end Cwd

/-- **The working directory is always a string in its buffer**: in every run that keeps to the
condition each call returns, and the buffer holds the normalised path of the last directory that
was entered, with its terminator. -/
theorem chdir_keeps {after : List Char} {s : Cwd} {e : Option (List (List Char))}
    (hrun : Runs (ChdirStep after) Cwd.Fits (Cwd.init, some []) (s, e)) : Cwd.Good (s, e) := by
  obtain ⟨cs, h⟩ := @Runs.invariant _ _ _ _ _ _ (fun p => ∃ cs, Cwd.Inv p cs)
    (fun p c q ⟨_, h⟩ hfits hstep => h.step hfits hstep) hrun ⟨[], Cwd.init_inv⟩
  exact h.good

instance (p : Cwd × Option (List (List Char))) (c : ChdirCall) : Decidable (Cwd.Fits p c) := by
  unfold Cwd.Fits
  infer_instance

/-- Down two directories, to the same one, and up and down again; the last one cannot be opened. -/
def downAndUp : List ChdirCall :=
  [⟨some ⟨"/a//b/".toList, by decide⟩, true, true⟩, ⟨some ⟨".".toList, by decide⟩, true, true⟩,
    ⟨some ⟨"../c".toList, by decide⟩, true, true⟩, ⟨some ⟨"d".toList, by decide⟩, false, true⟩]

theorem chdir_keeps_up :
    ∃ s, Runs (ChdirStep []) Cwd.Fits (Cwd.init, some []) (s, some [['a'], ['c']]) ∧
      Cwd.Good (s, some [['a'], ['c']]) := by
  obtain ⟨⟨s, e⟩, hrun, hend⟩ := @Runs.observed_of_replay _ _ (Cwd.exec []) _ (lastEntered [])
    Cwd.Fits _ downAndUp (fun p => decide (p.2 = some [['a'], ['c']])) (Cwd.init, some [])
    (by decide +kernel)
  obtain rfl : e = some [['a'], ['c']] := of_decide_eq_true hend
  exact ⟨s, hrun, chdir_keeps hrun⟩

/-- A path that fills the buffer is copied without a terminator. -/
theorem chdir_full {after wd : List Char} {path : CString} (hnormal : Normal path)
    (hlen : path.chars.length = dfsPathMax) :
    chdir after wd ⟨some path, true, true⟩ = .ok (0, path.chars) := by
  have hcopy : strncpy path.chars dfsPathMax = path.chars := by
    rw [strncpy, List.take_of_length_le (Nat.le_of_eq hlen), List.rightpad, hlen, Nat.sub_self]
    exact List.append_nil _
  rw [chdir]
  dsimp only
  rw [if_neg (Nat.not_lt.2 (Nat.le_of_eq hlen)), directoryOf, if_pos hnormal.head]
  change (dfsNormalizePath rootPath none path true >>= _) = _
  rw [hnormal.normalize]
  change Except.ok (0, strncpy path.chars dfsPathMax) = _
  rw [hcopy]

theorem chdir_full_bad {after : List Char} {path : CString} (hnormal : Normal path)
    (hlen : path.chars.length = dfsPathMax) :
    ∃ s e, Runs (ChdirStep after) Runs.always (Cwd.init, some []) (s, e) ∧ ¬Cwd.Good (s, e) := by
  refine ⟨⟨path.chars, .ok 0⟩, _, Runs.refl.snoc (a := ⟨some path, true, true⟩) trivial
    ⟨?_, rfl⟩, ?_⟩
  · have hchdir := @chdir_full after Cwd.init.workingDirectory path hnormal hlen
    unfold Runs.Exec Cwd.exec
    rw [hchdir]
    rfl
  · rintro ⟨-, -, cs, d, -, -, -, hstring⟩
    change Buffer.string path.chars 0 = _ at hstring
    rw [Buffer.string, List.drop_zero, if_neg path.nul] at hstring
    cases hstring

theorem chdir_rooted_bad {after : List Char} {ns : List (List Char)}
    (hns : ∀ n ∈ ns, IsName n ∧ n ≠ dot ∧ n ≠ dotDot)
    (hlen : (rooted '/' ns).length = dfsPathMax) :
    ∃ s e, Runs (ChdirStep after) Runs.always (Cwd.init, some []) (s, e) ∧ ¬Cwd.Good (s, e) :=
  @chdir_full_bad after ⟨rooted '/' ns, nul_rooted hns⟩ ⟨ns, rfl, hns⟩ hlen

/-- The path `/a`, so many times. -/
theorem length_rooted_letters (k : Nat) :
    (rooted '/' (List.replicate (k + 1) ['a'])).length = 2 * (k + 1) := by
  have hne : List.replicate (k + 1) ['a'] ≠ [] := List.cons_ne_nil _ _
  rw [rooted_of_ne_nil hne, List.length_flatMap, List.map_replicate, List.sum_replicate_nat]
  exact Nat.mul_comm _ _

/-- **`/a` 128 times**, a path of 256 characters. -/
theorem chdir_unterminated :
    ∃ s e, Runs (ChdirStep []) Runs.always (Cwd.init, some []) (s, e) ∧ ¬Cwd.Good (s, e) := by
  refine chdir_rooted_bad (fun n hn => ?_) (length_rooted_letters 127)
  rw [List.eq_of_mem_replicate hn]
  refine ⟨⟨List.cons_ne_nil _ _, List.forall_mem_singleton.2 ?_⟩, ?_, ?_⟩
  · decide
  · decide
  · decide

end RTThread.Dfs
