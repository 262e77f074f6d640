import RTThread.Lib.CString
import RTThread.Lib.Components
import RTThread.Rtdef
import Mathlib.Data.List.Induction

/-!
# Path normalisation (`components/dfs/src/dfs.c`)

`dfs_normalize_path` copies the joined path and compacts it in place: `src` reads the
components one after the other, `dst` writes those that stay, and a `..` moves `dst` back
over the last one. The root's `/` is written like the `/` behind a component, so the first
`..` at the root takes it back as well. From then on the path is written without it, and
where nothing follows the last byte is looked for in front of the buffer.

`normalizesPath_iff` is exact: with the stay-at-the-root reading of `..`, the routine
does what it is for if and only if the number of `..` met at the root is not one.
-/

namespace RTThread.Dfs

open Components

-- --------
-- The code
-- --------

/-- The bytes of `fullpath`, and the two pointers into them. -/
structure PathWalk where
  fullpath : List Char
  src : Int
  dst : Int
deriving DecidableEq

/-- What a round of the loop leads to: `continue`, `break`, or the free of `up_one`. -/
inductive PathRound
  | next (w : PathWalk)
  | done (w : PathWalk)
  | freed

/-- `while ((*src == '/') && (*src != '\0')) src ++;` -/
def skipSlashes (fullpath : List Char) : Nat → Int → Except Fault Int
  | 0, _ => .error .divergence
  | fuel + 1, src => do
    let c ← deref (Buffer.load fullpath src)
    if c = '/' ∧ c ≠ '\x00' then skipSlashes fullpath fuel (src + 1) else return src

/-- `while (c == '/') c = *src++;` -/
def eatSlashes (fullpath : List Char) : Nat → Char → Int → Except Fault Int
  | 0, _, _ => .error .divergence
  | fuel + 1, c, src =>
    if c = '/' then do
      let c ← deref (Buffer.load fullpath src)
      eatSlashes fullpath fuel c (src + 1)
    else return src

/-- `while (dst0 < dst && dst[-1] != '/') dst --;` -/
def backToSlash (fullpath : List Char) : Nat → Int → Except Fault Int
  | 0, _ => .error .divergence
  | fuel + 1, dst =>
    if 0 < dst then do
      let c ← deref (Buffer.load fullpath (dst - 1))
      if c ≠ '/' then backToSlash fullpath fuel (dst - 1) else return dst
    else return dst

/-- `while ((c = *src++) != '\0' && c != '/') *dst ++ = c;` -/
def copyName : Nat → PathWalk → Except Fault (Char × PathWalk)
  | 0, _ => .error .divergence
  | fuel + 1, w => do
    let c ← deref (Buffer.load w.fullpath w.src)
    if c ≠ '\x00' ∧ c ≠ '/' then
      let fullpath ← deref (Buffer.store w.fullpath w.dst c)
      copyName fuel { fullpath, src := w.src + 1, dst := w.dst + 1 }
    else return (c, { w with src := w.src + 1 })

namespace PathWalk

variable (w : PathWalk)

/-- More rounds than any inner loop makes. -/
def bound : Nat := w.fullpath.length + 1

/-- The copy of a component, at the end of the loop's body. -/
def copyRound : Except Fault PathRound := do
  let (c, w) ← copyName w.bound w
  if c = '/' then
    let fullpath ← deref (Buffer.store w.fullpath w.dst '/')
    let src ← eatSlashes fullpath w.bound c w.src
    return .next { fullpath, src := src - 1, dst := w.dst + 1 }
  else return .done w

/-- `up_one`. -/
def upOne : Except Fault PathRound := do
  let dst := w.dst - 1
  if dst < 0 then return .freed
  let dst ← backToSlash w.fullpath w.bound dst
  return .next { w with dst }

/-- The body of `while (1)`. -/
def round : Except Fault PathRound := do
  let c ← deref (Buffer.load w.fullpath w.src)
  if c = '.' then
    let c1 ← deref (Buffer.load w.fullpath (w.src + 1))
    if c1 = '\x00' then copyRound { w with src := w.src + 1 }
    else if c1 = '/' then
      let src ← skipSlashes w.fullpath w.bound (w.src + 2)
      return .next { w with src }
    else if c1 = '.' then
      let c2 ← deref (Buffer.load w.fullpath (w.src + 2))
      if c2 = '\x00' then upOne { w with src := w.src + 2 }
      else if c2 = '/' then
        let src ← skipSlashes w.fullpath w.bound (w.src + 3)
        upOne { w with src }
      else w.copyRound
    else w.copyRound
  else w.copyRound

/-- `while (1)`: the pointers after it, or `none` where the path was freed. -/
def loop : Nat → PathWalk → Except Fault (Option PathWalk)
  | 0, _ => .error .divergence
  | fuel + 1, w => do
    match ← w.round with
    | .next w => loop fuel w
    | .done w => return some w
    | .freed => return none

/-- The removal of a `/` at the end, with `dst` on the last byte. -/
def stripSlash (fullpath : List Char) (dst : Int) : Except Fault (List Char) :=
  if dst ≠ 0 then do
    let c ← deref (Buffer.load fullpath dst)
    if c = '/' then deref (Buffer.store fullpath dst '\x00') else return fullpath
  else return fullpath

/-- What follows the loop. -/
def finish : Except Fault CString := do
  let fullpath ← deref (Buffer.store w.fullpath w.dst '\x00')
  let fullpath ← stripSlash fullpath (w.dst - 1)
  let c ← deref (Buffer.load fullpath 0)
  if c = '\x00' then
    let fullpath ← deref (Buffer.store fullpath 0 '/')
    let fullpath ← deref (Buffer.store fullpath 1 '\x00')
    return CString.ofBuffer fullpath
  else return CString.ofBuffer fullpath

end PathWalk

/-- The path that is compacted: the file name if it is absolute, or joined to the directory. -/
def fullPath (directory filename : CString) : List Char :=
  if filename.chars.head? = some '/' then filename.chars
  else directory.chars ++ '/' :: filename.chars

/-- `dfs_normalize_path(directory, filename)`; `mem` says whether there is memory. -/
def dfsNormalizePath (workingDirectory : CString) (directory : Option CString)
    (filename : CString) (mem : Bool) : Except Fault (Option CString) := do
  let directory := directory.getD workingDirectory
  if mem then
    let fullpath := fullPath directory filename ++ ['\x00']
    match ← PathWalk.loop (fullpath.length + 1) { fullpath, src := 0, dst := 0 } with
    | none => return none
    | some w =>
      let path ← w.finish
      return some path
  else return none

-- --------
-- Where the pointers stand
-- --------

/-- The path is written up to `dst` and unread from `src` on. -/
def PathWalk.At (w : PathWalk) (out rest : List Char) : Prop :=
  ∃ gap, w.fullpath = out ++ (gap ++ rest) ∧ w.dst = out.length ∧
    w.src = out.length + gap.length

namespace PathWalk.At

variable {w : PathWalk} {out pre rest : List Char} {c x : Char} {fuel : Nat}

theorem load (h : w.At out (c :: rest)) : Buffer.load w.fullpath w.src = some c := by
  obtain ⟨gap, hbuf, -, hsrc⟩ := h
  rw [hbuf, ← List.append_assoc]
  exact Buffer.load_append (by rw [hsrc, List.length_append, Nat.cast_add])

theorem skip (h : w.At out (pre ++ rest)) :
    PathWalk.At { w with src := w.src + pre.length } out rest := by
  obtain ⟨gap, hbuf, hdst, hsrc⟩ := h
  refine ⟨gap ++ pre, by rw [hbuf, List.append_assoc], hdst, ?_⟩
  dsimp only
  rw [hsrc, List.length_append]
  omega

theorem load_one (h : w.At out (x :: c :: rest)) : Buffer.load w.fullpath (w.src + 1) = some c :=
  (@skip _ _ [x] _ h).load

theorem load_two {y : Char} (h : w.At out (x :: y :: c :: rest)) :
    Buffer.load w.fullpath (w.src + 2) = some c :=
  (@skip _ _ [x, y] _ h).load

/-- A byte is written over one that has been read. -/
theorem put (h : w.At out (c :: rest)) :
    ∃ fullpath, Buffer.store w.fullpath w.dst x = some fullpath ∧
      PathWalk.At { fullpath, src := w.src + 1, dst := w.dst + 1 } (out ++ [x]) rest := by
  obtain ⟨gap, hbuf, hdst, hsrc⟩ := h
  cases gap with
  | nil =>
    refine ⟨out ++ x :: rest, by rw [hbuf]; exact Buffer.store_append hdst, [], ?_, ?_, ?_⟩
    · rw [List.append_assoc]
      rfl
    · rw [hdst, List.length_append]
      rfl
    · rw [hsrc, List.length_append]
      rfl
  | cons y gap =>
    refine ⟨out ++ x :: (gap ++ c :: rest), by rw [hbuf]; exact Buffer.store_append hdst,
      gap ++ [c], ?_, ?_, ?_⟩
    · rw [List.append_assoc, List.append_assoc]
      rfl
    · rw [hdst, List.length_append]
      rfl
    · rw [hsrc, List.length_append, List.length_append]
      dsimp only [List.length_cons, List.length_nil]
      omega

theorem back (h : w.At (out ++ pre) rest) :
    PathWalk.At { w with dst := w.dst - pre.length } out rest := by
  obtain ⟨gap, hbuf, hdst, hsrc⟩ := h
  rw [List.length_append] at hdst hsrc
  refine ⟨pre ++ gap, by rw [hbuf, List.append_assoc, List.append_assoc], ?_, ?_⟩
  · dsimp only
    omega
  · dsimp only
    rw [hsrc, List.length_append]
    omega

theorem length_lt (h : w.At out rest) : rest.length < w.bound := by
  obtain ⟨gap, hbuf, -, -⟩ := h
  rw [PathWalk.bound, hbuf, List.length_append, List.length_append]
  omega

theorem length_out_lt (h : w.At out rest) : out.length < w.bound := by
  obtain ⟨gap, hbuf, -, -⟩ := h
  rw [PathWalk.bound, hbuf, List.length_append]
  omega

-- --------
-- The inner loops
-- --------

/-- The inner loops pass over any number of separators. -/
theorem skipSlashes (k : Nat) (h : w.At out (List.replicate k '/' ++ c :: rest)) (hc : c ≠ '/')
    (hfuel : k < fuel) : skipSlashes w.fullpath fuel w.src = .ok (w.src + k) := by
  induction k generalizing w fuel with
  | zero =>
    obtain ⟨fuel, rfl⟩ : ∃ m, fuel = m + 1 := ⟨fuel - 1, by omega⟩
    rw [Dfs.skipSlashes, deref_bind h.load, if_neg fun hcond => hc hcond.1, Nat.cast_zero, add_zero]
    rfl
  | succ k ih =>
    obtain ⟨fuel, rfl⟩ : ∃ m, fuel = m + 1 := ⟨fuel - 1, by omega⟩
    rw [List.replicate_succ, List.cons_append] at h
    rw [Dfs.skipSlashes, deref_bind h.load, if_pos ⟨rfl, by decide⟩]
    have hnext := ih (@skip _ _ ['/'] _ h) (by omega : k < fuel)
    refine hnext.trans ?_
    congr 1
    push_cast [List.length_singleton]
    omega

theorem eatSlashes (k : Nat) (h : w.At out (List.replicate k '/' ++ c :: rest)) (hc : c ≠ '/')
    (hfuel : k + 1 < fuel) : eatSlashes w.fullpath fuel '/' w.src = .ok (w.src + k + 1) := by
  induction k generalizing w fuel with
  | zero =>
    obtain ⟨fuel, rfl⟩ := Nat.exists_eq_add_of_le' (show 2 ≤ fuel by omega)
    rw [Dfs.eatSlashes, if_pos rfl, deref_bind h.load, Dfs.eatSlashes, if_neg hc, Nat.cast_zero,
      add_zero]
    rfl
  | succ k ih =>
    obtain ⟨fuel, rfl⟩ : ∃ m, fuel = m + 1 := ⟨fuel - 1, by omega⟩
    rw [List.replicate_succ, List.cons_append] at h
    rw [Dfs.eatSlashes, if_pos rfl, deref_bind h.load]
    have hnext := ih (@skip _ _ ['/'] _ h) (by omega : k + 1 < fuel)
    refine hnext.trans ?_
    congr 1
    push_cast [List.length_singleton]
    omega

/-- A name is copied up to the byte behind it. -/
theorem copyName {n : List Char} (h : w.At out (n ++ c :: rest))
    (hn : ∀ x ∈ n, x ≠ '\x00' ∧ x ≠ '/') (hc : ¬(c ≠ '\x00' ∧ c ≠ '/')) (hfuel : n.length < fuel) :
    ∃ w' : PathWalk, w'.At (out ++ n) (c :: rest) ∧
      copyName fuel w = .ok (c, { w' with src := w'.src + 1 }) := by
  induction n generalizing w out fuel with
  | nil =>
    obtain ⟨fuel, rfl⟩ : ∃ m, fuel = m + 1 := ⟨fuel - 1, by omega⟩
    refine ⟨w, by rwa [List.append_nil], ?_⟩
    rw [Dfs.copyName, deref_bind h.load, if_neg hc]
    rfl
  | cons y n ih =>
    obtain ⟨fuel, rfl⟩ : ∃ m, fuel = m + 1 := ⟨fuel - 1, by omega⟩
    obtain ⟨hy, hn⟩ := List.forall_mem_cons.mp hn
    rw [List.length_cons] at hfuel
    obtain ⟨fullpath, hstore, hput⟩ := put (x := y) h
    obtain ⟨w', hw', hcopy⟩ := ih hput hn (by omega : n.length < fuel)
    refine ⟨w', by rwa [List.append_assoc] at hw', ?_⟩
    rw [Dfs.copyName, deref_bind (load h), if_pos hy, deref_bind hstore, hcopy]

/-- `dst` goes back to the start or to just behind a separator. -/
theorem backToSlash {n : List Char} (h : w.At (out ++ n) rest) (hn : '/' ∉ n)
    (hout : out = [] ∨ ∃ o, out = o ++ ['/']) (hfuel : n.length < fuel) :
    backToSlash w.fullpath fuel w.dst = .ok (w.dst - n.length) := by
  induction n using List.reverseRecOn generalizing w fuel with
  | nil =>
    obtain ⟨fuel, rfl⟩ : ∃ m, fuel = m + 1 := ⟨fuel - 1, by omega⟩
    rw [List.append_nil] at h
    obtain ⟨gap, hbuf, hdst, -⟩ := h
    rw [List.length_nil, Nat.cast_zero, sub_zero]
    obtain rfl | ⟨o, rfl⟩ := hout
    · rw [Dfs.backToSlash, if_neg (by rw [hdst]; decide)]
      rfl
    · have hload : Buffer.load w.fullpath (w.dst - 1) = some '/' := by
        rw [hbuf, List.append_assoc]
        refine Buffer.load_append ?_
        rw [hdst, List.length_append, List.length_singleton]
        omega
      have hpos : 0 < w.dst := by
        rw [hdst, List.length_append, List.length_singleton]
        omega
      rw [Dfs.backToSlash, if_pos hpos, deref_bind hload, if_neg (by decide)]
      rfl
  | append_singleton n y ih =>
    obtain ⟨fuel, rfl⟩ : ∃ m, fuel = m + 1 := ⟨fuel - 1, by omega⟩
    rw [List.length_append, List.length_singleton] at hfuel
    rw [List.mem_append, not_or, List.mem_singleton] at hn
    rw [← List.append_assoc] at h
    have hback := back h
    obtain ⟨gap, hbuf, hdst, -⟩ := h
    have hload : Buffer.load w.fullpath (w.dst - 1) = some y := by
      rw [hbuf, List.append_assoc]
      refine Buffer.load_append ?_
      rw [hdst, List.length_append, List.length_singleton]
      omega
    have hpos : 0 < w.dst := by
      rw [hdst, List.length_append, List.length_singleton]
      omega
    rw [Dfs.backToSlash, if_pos hpos, deref_bind hload, if_pos (Ne.symm hn.2)]
    refine (ih hback hn.1 (by omega)).trans ?_
    congr 1
    dsimp only
    rw [List.length_append, List.length_singleton]
    omega

-- --------
-- A round for each component
-- --------

theorem copyRound_end {n : List Char} (h : w.At out (n ++ ['\x00']))
    (hn : ∀ x ∈ n, x ≠ '\x00' ∧ x ≠ '/') :
    ∃ w' : PathWalk, w'.At (out ++ n) ['\x00'] ∧
      w.copyRound = .ok (.done { w' with src := w'.src + 1 }) := by
  have hlen := h.length_lt
  rw [List.length_append] at hlen
  obtain ⟨w', hw', hcopy⟩ := h.copyName hn (by decide) (by omega : n.length < w.bound)
  refine ⟨w', hw', ?_⟩
  rw [copyRound, hcopy]
  rfl

/-- A name and the separators behind it. -/
theorem copyRound_slash {n : List Char} (k : Nat)
    (h : w.At out (n ++ '/' :: (List.replicate k '/' ++ c :: rest)))
    (hn : ∀ x ∈ n, x ≠ '\x00' ∧ x ≠ '/') (hc : c ≠ '/') :
    ∃ w' : PathWalk, w'.At (out ++ n ++ ['/']) (c :: rest) ∧ w.copyRound = .ok (.next w') := by
  have hlen := h.length_lt
  rw [List.length_append] at hlen
  obtain ⟨w', hw', hcopy⟩ := h.copyName hn (by decide) (by omega : n.length < w.bound)
  obtain ⟨fullpath, hstore, hput⟩ := hw'.put (x := '/')
  have hk := hw'.length_lt
  rw [List.length_cons, List.length_append, List.length_replicate, List.length_cons] at hk
  have heat := hput.eatSlashes k hc (by omega : k + 1 < w'.bound)
  have hskip := hput.skip
  rw [List.length_replicate] at hskip
  refine ⟨_, hskip, ?_⟩
  rw [copyRound, hcopy]
  show (deref (Buffer.store w'.fullpath w'.dst '/') >>= fun fullpath =>
    Dfs.eatSlashes fullpath w'.bound '/' (w'.src + 1) >>= fun src =>
      Except.ok (PathRound.next { fullpath, src := src - 1, dst := w'.dst + 1 })) = _
  rw [deref_bind hstore, heat]
  show Except.ok (PathRound.next { fullpath, src := w'.src + 1 + k + 1 - 1, dst := w'.dst + 1 }) = _
  rw [Int.add_sub_cancel]

/-- A component that is neither of the dots is copied. -/
theorem round_name {n : List Char} (h : w.At out (n ++ c :: rest))
    (hn : ∀ x ∈ n, x ≠ '\x00' ∧ x ≠ '/') (hc : c = '\x00' ∨ c = '/') (hdot : n ≠ ['.'])
    (hup : n ≠ ['.', '.']) : w.round = w.copyRound := by
  match n, h, hn, hdot, hup with
  | [], h, _, _, _ =>
    rw [round, deref_bind (load h), if_neg (by obtain rfl | rfl := hc <;> decide)]
  | [x], h, _, hdot, _ =>
    rw [round, deref_bind (load h), if_neg fun hx => hdot (by rw [hx])]
  | [x, y], h, hn, _, hup =>
    rw [round, deref_bind (load h)]
    by_cases hx : x = '.'
    · have hy := hn y (by simp)
      rw [if_pos hx, deref_bind (load_one h), if_neg hy.1, if_neg hy.2,
        if_neg fun hy => hup (by rw [hx, hy])]
    · rw [if_neg hx]
  | x :: y :: z :: n, h, hn, _, _ =>
    rw [round, deref_bind (load h)]
    by_cases hx : x = '.'
    · have hy := hn y (by simp)
      have hz := hn z (by simp)
      rw [if_pos hx, deref_bind (load_one h), if_neg hy.1, if_neg hy.2]
      by_cases hdot : y = '.'
      · rw [if_pos hdot, deref_bind (load_two h), if_neg hz.1, if_neg hz.2]
      · rw [if_neg hdot]
    · rw [if_neg hx]

theorem round_dot_end (h : w.At out ['.', '\x00']) :
    ∃ w' : PathWalk, w'.At out ['\x00'] ∧
      w.round = .ok (.done { w' with src := w'.src + 1 }) := by
  have hskip := @skip _ _ ['.'] _ h
  obtain ⟨w', hw', hcopy⟩ := copyRound_end (n := []) hskip (by simp)
  refine ⟨w', by rwa [List.append_nil] at hw', ?_⟩
  rw [round, deref_bind (load h), if_pos rfl, deref_bind (load_one h), if_pos rfl]
  exact hcopy

/-- A `.` and the separators behind it. -/
theorem round_dot (k : Nat) (h : w.At out ('.' :: '/' :: (List.replicate k '/' ++ c :: rest)))
    (hc : c ≠ '/') :
    ∃ w' : PathWalk, w'.At out (c :: rest) ∧ w.round = .ok (.next w') := by
  have hslashes : PathWalk.At { w with src := w.src + 2 } out (List.replicate k '/' ++ c :: rest) :=
    @skip _ _ ['.', '/'] _ h
  have hlen := hslashes.length_lt
  rw [List.length_append, List.length_replicate, List.length_cons] at hlen
  have heat := @skipSlashes _ _ _ _ w.bound k hslashes hc (by
    rw [PathWalk.bound] at hlen ⊢
    dsimp only at hlen
    omega)
  have hskip := hslashes.skip
  rw [List.length_replicate] at hskip
  refine ⟨_, hskip, ?_⟩
  rw [round, deref_bind (load h), if_pos rfl, deref_bind (load_one h),
    if_neg (by decide), if_pos rfl]
  show (Dfs.skipSlashes w.fullpath w.bound (w.src + 2) >>= fun src =>
    Except.ok (PathRound.next { w with src })) = _
  rw [heat]
  rfl

theorem round_up_end (h : w.At out ['.', '.', '\x00']) :
    ∃ w' : PathWalk, w'.At out ['\x00'] ∧ w.round = w'.upOne := by
  refine ⟨_, @skip _ _ ['.', '.'] _ h, ?_⟩
  rw [round, deref_bind (load h), if_pos rfl, deref_bind (load_one h),
    if_neg (by decide), if_neg (by decide), if_pos rfl,
    deref_bind (load_two h), if_pos rfl]
  rfl

/-- A `..` and the separators behind it. -/
theorem round_up (k : Nat) (h : w.At out ('.' :: '.' :: '/' :: (List.replicate k '/' ++ c :: rest)))
    (hc : c ≠ '/') :
    ∃ w' : PathWalk, w'.At out (c :: rest) ∧ w.round = w'.upOne := by
  have hslashes : PathWalk.At { w with src := w.src + 3 } out (List.replicate k '/' ++ c :: rest) :=
    @skip _ _ ['.', '.', '/'] _ h
  have hlen := hslashes.length_lt
  rw [List.length_append, List.length_replicate, List.length_cons] at hlen
  have heat := @skipSlashes _ _ _ _ w.bound k hslashes hc (by
    rw [PathWalk.bound] at hlen ⊢
    dsimp only at hlen
    omega)
  have hskip := hslashes.skip
  rw [List.length_replicate] at hskip
  refine ⟨_, hskip, ?_⟩
  rw [round, deref_bind (load h), if_pos rfl, deref_bind (load_one h),
    if_neg (by decide), if_neg (by decide), if_pos rfl,
    deref_bind (load_two h), if_neg (by decide), if_pos rfl]
  show (Dfs.skipSlashes w.fullpath w.bound (w.src + 3) >>= fun src =>
    PathWalk.upOne { w with src }) = _
  rw [heat]
  rfl

end PathWalk.At

-- --------
-- The written components
-- --------

/-- The components that stay and that go up. -/
abbrev dot : List Char := ['.']

@[inherit_doc dot]
abbrev dotDot : List Char := ['.', '.']

/-- A component as the loop reads it. -/
def IsName (n : List Char) : Prop := n ≠ [] ∧ ∀ x ∈ n, x ≠ '\x00' ∧ x ≠ '/'

theorem IsName.no_slash {n : List Char} (h : IsName n) : '/' ∉ n := fun hmem => (h.2 _ hmem).2 rfl

/-- What is written of the components `stack`; the root's `/` may have been taken back. -/
def written (root : Bool) (stack : List (List Char)) : List Char :=
  (if root then ['/'] else []) ++ trail '/' stack

/-- What the loop makes of the components: where `..` meets the root, its `/` is taken back, and
where it meets nothing the path is freed. -/
def descend : Bool → List (List Char) → List (List Char) → Option (Bool × List (List Char))
  | root, stack, [] => some (root, stack)
  | root, stack, c :: cs =>
    match enter dot dotDot stack c with
    | some stack => descend root stack cs
    | none => if root then descend false [] cs else none

theorem written_snoc {root : Bool} {stack : List (List Char)} {n : List Char} :
    written root (stack ++ [n]) = written root stack ++ n ++ ['/'] := by
  rw [written, trail_snoc, written, ← List.append_assoc, ← List.append_assoc]

theorem written_ends {root : Bool} {stack : List (List Char)} :
    written root stack = [] ∨ ∃ o, written root stack = o ++ ['/'] := by
  rcases List.eq_nil_or_concat stack with rfl | ⟨stack, n, rfl⟩
  · cases root with
    | false => exact .inl rfl
    | true => exact .inr ⟨[], rfl⟩
  · rw [List.concat_eq_append]
    exact .inr ⟨_, written_snoc⟩

variable {w : PathWalk} {root : Bool} {stack : List (List Char)} {rest n u : List Char} {fuel : Nat}

/-- `up_one` over a component. -/
theorem upOne_name (h : w.At (written root (stack ++ [n])) rest) (hn : '/' ∉ n) :
    ∃ w' : PathWalk, w'.At (written root stack) rest ∧ w.upOne = .ok (.next w') := by
  rw [written_snoc] at h
  have hdst : ¬ w.dst - 1 < 0 := by
    obtain ⟨gap, -, hdst, -⟩ := h
    rw [List.length_append, List.length_singleton] at hdst
    omega
  have hlen := h.length_out_lt
  rw [List.length_append, List.length_append] at hlen
  have hslash := h.back
  have hname := hslash.backToSlash hn written_ends (by omega : n.length < w.bound)
  refine ⟨_, hslash.back, ?_⟩
  rw [PathWalk.upOne]
  show (if w.dst - 1 < 0 then _ else backToSlash w.fullpath w.bound (w.dst - 1) >>= fun dst =>
    Except.ok (PathRound.next { w with dst })) = _
  rw [if_neg hdst]
  exact congrArg (· >>= fun dst => Except.ok (PathRound.next { w with dst })) hname

/-- `up_one` over the root's `/`. -/
theorem upOne_root (h : w.At (written true []) rest) :
    ∃ w' : PathWalk, w'.At (written false []) rest ∧ w.upOne = .ok (.next w') := by
  have hdst : w.dst - 1 = 0 := by
    obtain ⟨gap, -, hdst, -⟩ := h
    rw [hdst]
    rfl
  refine ⟨_, @PathWalk.At.back _ [] ['/'] _ h, ?_⟩
  rw [PathWalk.upOne]
  show (if w.dst - 1 < 0 then _ else backToSlash w.fullpath w.bound (w.dst - 1) >>= fun dst =>
    Except.ok (PathRound.next { w with dst })) = _
  rw [hdst, if_neg (by decide), PathWalk.bound, backToSlash, if_neg (by decide)]
  show Except.ok (PathRound.next { w with dst := 0 }) =
    Except.ok (PathRound.next { w with dst := w.dst - 1 })
  rw [hdst]

theorem upOne_freed (h : w.At (written false []) rest) : w.upOne = .ok .freed := by
  obtain ⟨gap, -, hdst, -⟩ := h
  rw [PathWalk.upOne, hdst]
  rfl

-- --------
-- The loop
-- --------

theorem exists_slashes (v : List Char) :
    ∃ k u, v = List.replicate k '/' ++ u ∧ u.head? ≠ some '/' := by
  induction v with
  | nil => exact ⟨0, [], rfl, by simp⟩
  | cons x v ih =>
    by_cases hx : x = '/'
    · obtain ⟨k, u, rfl, hu⟩ := ih
      exact ⟨k + 1, u, by rw [hx, List.replicate_succ, List.cons_append], hu⟩
    · exact ⟨0, x :: v, rfl, by simpa using hx⟩

theorem exists_name (hnul : '\x00' ∉ u) :
    ∃ n v, u = n ++ v ∧ (∀ x ∈ n, x ≠ '\x00' ∧ x ≠ '/') ∧ (v = [] ∨ ∃ v', v = '/' :: v') := by
  induction u with
  | nil => exact ⟨[], [], rfl, by simp, .inl rfl⟩
  | cons x u ih =>
    rw [List.mem_cons, not_or] at hnul
    by_cases hx : x = '/'
    · exact ⟨[], x :: u, rfl, by simp, .inr ⟨u, by rw [hx]⟩⟩
    · obtain ⟨n, v, rfl, hn, hv⟩ := ih hnul.2
      exact ⟨x :: n, v, rfl, List.forall_mem_cons.mpr ⟨⟨Ne.symm hnul.1, hx⟩, hn⟩, hv⟩

/-- A text that does not start with a separator: nothing, a name, or a name with separators
behind it. -/
theorem split_text (hnul : '\x00' ∉ u) (hhead : u.head? ≠ some '/') :
    u = [] ∨ IsName u ∨ ∃ n k u', IsName n ∧ u'.head? ≠ some '/' ∧
      u = n ++ '/' :: (List.replicate k '/' ++ u') := by
  obtain ⟨n, v, rfl, hn, hv⟩ := exists_name hnul
  by_cases hnil : n = []
  · subst hnil
    obtain rfl | ⟨v', rfl⟩ := hv
    · exact .inl rfl
    · exact absurd rfl hhead
  · refine .inr ?_
    obtain rfl | ⟨v', rfl⟩ := hv
    · exact .inl (by rw [List.append_nil]; exact ⟨hnil, hn⟩)
    · obtain ⟨k, u', rfl, hu'⟩ := exists_slashes v'
      exact .inr ⟨n, k, u', ⟨hnil, hn⟩, hu', rfl⟩

theorem isName_of_mem (hnul : '\x00' ∉ u) (h : n ∈ components '/' u) : IsName n := by
  obtain ⟨hne, hslash, hsub⟩ := of_mem_components h
  refine ⟨hne, fun x hx => ⟨?_, ?_⟩⟩
  · rintro rfl
    exact hnul (hsub hx)
  · rintro rfl
    exact hslash hx

theorem components_slashes (k : Nat) :
    components '/' (List.replicate k '/' ++ u) = components '/' u := by
  induction k with
  | zero => rfl
  | succ k ih => rw [List.replicate_succ, List.cons_append, components_sep_cons, ih]

theorem components_name_slashes (hn : IsName n) (k : Nat) :
    components '/' (n ++ '/' :: (List.replicate k '/' ++ u)) = n :: components '/' u := by
  rw [components_name_append hn.1 hn.no_slash (.inr ⟨_, rfl⟩), components_sep_cons,
    components_slashes]

theorem exists_byte (hhead : u.head? ≠ some '/') :
    ∃ c rest, u ++ ['\x00'] = c :: rest ∧ c ≠ '/' := by
  cases u with
  | nil => exact ⟨'\x00', [], rfl, by decide⟩
  | cons x u => exact ⟨x, u ++ ['\x00'], rfl, fun hx => hhead (by rw [hx]; rfl)⟩

/-- What is written when the loop ends: the last component may lack its `/`. -/
def Ended (root : Bool) (stack : List (List Char)) (out : List Char) : Prop :=
  out = written root stack ∨ ∃ s n, IsName n ∧ stack = s ++ [n] ∧ out = written root s ++ n

/-- How the loop ends, by what is made of the components. -/
def Leads (fuel : Nat) (w : PathWalk) : Option (Bool × List (List Char)) → Prop
  | none => PathWalk.loop fuel w = .ok none
  | some (root, stack) => ∃ (w' : PathWalk) (out : List Char), Ended root stack out ∧
      w'.At out ['\x00'] ∧ PathWalk.loop fuel w = .ok (some { w' with src := w'.src + 1 })

theorem Leads.of_next {w' : PathWalk} {o : Option (Bool × List (List Char))}
    (hround : w.round = .ok (.next w')) (h : Leads fuel w' o) : Leads (fuel + 1) w o := by
  have hloop : PathWalk.loop (fuel + 1) w = PathWalk.loop fuel w' := by
    rw [PathWalk.loop, hround]
    rfl
  match o, h with
  | none, h => exact hloop.trans h
  | some (root, stack), h =>
    obtain ⟨w'', out, hout, hat, hl⟩ := h
    exact ⟨w'', out, hout, hat, hloop.trans hl⟩

theorem Leads.of_done {w' : PathWalk} {out : List Char} (hat : w'.At out ['\x00'])
    (hround : w.round = .ok (.done { w' with src := w'.src + 1 })) (hout : Ended root stack out) :
    Leads (fuel + 1) w (some (root, stack)) := by
  refine ⟨w', out, hout, hat, ?_⟩
  rw [PathWalk.loop, hround]
  rfl

theorem Leads.of_freed (hround : w.round = .ok .freed) : Leads (fuel + 1) w none := by
  show PathWalk.loop (fuel + 1) w = .ok none
  rw [PathWalk.loop, hround]
  rfl

/-- The `..` in front of `cs`, when the loop does what it should with `cs`. -/
theorem leads_up {w' : PathWalk} {cs : List (List Char)} (hround : w.round = w'.upOne)
    (hat : w'.At (written root stack) rest) (hstack : ∀ n ∈ stack, IsName n)
    (ih : ∀ root stack w, PathWalk.At w (written root stack) rest → (∀ n ∈ stack, IsName n) →
      Leads fuel w (descend root stack cs)) :
    Leads (fuel + 1) w (descend root stack (dotDot :: cs)) := by
  rw [descend, enter_up (by decide)]
  rcases List.eq_nil_or_concat stack with rfl | ⟨s, n, rfl⟩
  · rw [if_pos rfl]
    cases root with
    | false => exact Leads.of_freed (hround.trans (upOne_freed hat))
    | true =>
      obtain ⟨w'', hat'', hup⟩ := upOne_root hat
      exact Leads.of_next (hround.trans hup) (ih false [] w'' hat'' hstack)
  · rw [List.concat_eq_append] at hat hstack ⊢
    have hn := hstack n (List.mem_append_right _ (List.mem_singleton_self n))
    obtain ⟨w'', hat'', hup⟩ := upOne_name hat hn.no_slash
    rw [if_neg (by simp), List.dropLast_concat]
    exact Leads.of_next (hround.trans hup)
      (ih root s w'' hat'' fun m hm => hstack m (List.mem_append_left _ hm))

/-- **The loop**, by the components of what is unread. -/
theorem loop_leads (hat : w.At (written root stack) (u ++ ['\x00'])) (hnul : '\x00' ∉ u)
    (hhead : u.head? ≠ some '/') (hstack : ∀ n ∈ stack, IsName n) (hfuel : u.length < fuel) :
    Leads fuel w (descend root stack (components '/' u)) := by
  induction fuel generalizing root stack u w with
  | zero => omega
  | succ fuel ih =>
    rcases split_text hnul hhead with rfl | hname | ⟨n, k, u', hname, hhead', rfl⟩
    · -- the end of the path
      obtain ⟨w', hat', hcopy⟩ := hat.copyRound_end (by simp)
      rw [List.append_nil] at hat'
      have hround := PathWalk.At.round_name (n := []) hat (by simp) (.inl rfl) (by simp) (by simp)
      exact Leads.of_done hat' (hround.trans hcopy) (.inl rfl)
    · -- the last component
      rw [components_name hname.1 hname.no_slash]
      by_cases hdot : u = dot
      · subst hdot
        obtain ⟨w', hat', hround⟩ := PathWalk.At.round_dot_end hat
        rw [descend, enter_dot]
        exact Leads.of_done hat' hround (.inl rfl)
      by_cases hup : u = dotDot
      · subst hup
        obtain ⟨w', hat', hround⟩ := PathWalk.At.round_up_end hat
        refine leads_up hround hat' hstack fun root stack w hat hstack => ?_
        exact ih (u := []) hat (by simp) (by simp) hstack (by simp at hfuel ⊢; omega)
      · obtain ⟨w', hat', hcopy⟩ := hat.copyRound_end hname.2
        have hround := PathWalk.At.round_name hat hname.2 (.inl rfl) hdot hup
        rw [descend, enter_name hdot hup]
        exact Leads.of_done hat' (hround.trans hcopy) (.inr ⟨stack, u, hname, rfl, rfl⟩)
    · -- a component with more behind it
      obtain ⟨c, rest, hbyte, hc⟩ := exists_byte hhead'
      rw [List.append_assoc, List.cons_append, List.append_assoc, hbyte] at hat
      rw [List.mem_append, List.mem_cons, List.mem_append, not_or, not_or, not_or] at hnul
      rw [List.length_append, List.length_cons, List.length_append] at hfuel
      rw [components_name_slashes hname]
      have hnext : ∀ root stack w, PathWalk.At w (written root stack) (c :: rest) →
          (∀ n ∈ stack, IsName n) → Leads fuel w (descend root stack (components '/' u')) := by
        intro root stack w hat hstack
        rw [← hbyte] at hat
        exact ih hat hnul.2.2.2 hhead' hstack (by omega)
      by_cases hdot : n = dot
      · subst hdot
        obtain ⟨w', hat', hround⟩ := PathWalk.At.round_dot k hat hc
        rw [descend, enter_dot]
        exact Leads.of_next hround (hnext root stack w' hat' hstack)
      by_cases hup : n = dotDot
      · subst hup
        obtain ⟨w', hat', hround⟩ := PathWalk.At.round_up k hat hc
        exact leads_up hround hat' hstack hnext
      · obtain ⟨w', hat', hcopy⟩ := PathWalk.At.copyRound_slash k hat hname.2 hc
        have hround := PathWalk.At.round_name hat hname.2 (.inr rfl) hdot hup
        rw [← written_snoc] at hat'
        rw [descend, enter_name hdot hup]
        refine Leads.of_next (hround.trans hcopy) (hnext root _ w' hat' ?_)
        intro m hm
        rcases List.mem_append.mp hm with hm | hm
        · exact hstack m hm
        · rw [List.mem_singleton.mp hm]
          exact hname

-- --------
-- What follows the loop
-- --------

variable {out o : List Char} {x : Char}

/-- The terminator is written behind the path. -/
theorem store_end (h : w.At out ['\x00']) :
    ∃ junk, Buffer.store w.fullpath w.dst '\x00' = some (out ++ '\x00' :: junk) ∧
      w.dst = out.length := by
  obtain ⟨fullpath, hstore, junk, hbuf, hdst, -⟩ := h.put (x := '\x00')
  refine ⟨junk, ?_, ?_⟩
  · rw [hstore]
    dsimp only at hbuf
    rw [hbuf, List.append_nil, List.append_assoc]
    rfl
  · dsimp only at hdst
    rw [List.length_append, List.length_singleton] at hdst
    omega

theorem finish_empty (h : w.At [] ['\x00']) :
    PathWalk.finish { w with src := w.src + 1 } = .error .badPointer := by
  obtain ⟨junk, hstore, hdst⟩ := store_end h
  rw [PathWalk.finish, deref_bind hstore]
  dsimp only
  rw [hdst, PathWalk.stripSlash, if_pos (by decide),
    deref_none_bind (Buffer.load_before (by decide))]
  rfl

/-- The first byte stands. -/
theorem finish_head {fullpath : List Char} (h : out ≠ []) (hnul : '\x00' ∉ out)
    (hbuf : fullpath = out ++ '\x00' :: o) :
    (deref (Buffer.load fullpath 0) >>= fun c =>
      if c = '\x00' then deref (Buffer.store fullpath 0 '/') >>= fun fullpath =>
        deref (Buffer.store fullpath 1 '\x00') >>= fun fullpath =>
          Except.ok (CString.ofBuffer fullpath)
      else Except.ok (CString.ofBuffer fullpath)) = .ok ⟨out, hnul⟩ := by
  obtain ⟨y, ys, rfl⟩ := List.exists_cons_of_ne_nil h
  subst hbuf
  have hload : Buffer.load (y :: ys ++ '\x00' :: o) 0 = some y :=
    @Buffer.load_append _ [] _ _ _ rfl
  rw [deref_bind hload, if_neg fun hy => hnul (by rw [hy]; simp), CString.ofBuffer_append hnul]

/-- The path ends in a `/` of its own. -/
theorem finish_strip (h : w.At (o ++ ['/']) ['\x00']) (ho : o ≠ []) (hnul : '\x00' ∉ o) :
    PathWalk.finish { w with src := w.src + 1 } = .ok ⟨o, hnul⟩ := by
  obtain ⟨junk, hstore, hdst⟩ := store_end h
  have hlen := List.length_pos_of_ne_nil ho
  rw [List.length_append, List.length_singleton] at hdst
  rw [List.append_assoc] at hstore
  have hlast : w.dst - 1 = o.length := by omega
  rw [PathWalk.finish, deref_bind hstore]
  dsimp only
  rw [PathWalk.stripSlash, if_pos (by omega), hlast]
  rw [List.singleton_append, deref_bind (Buffer.load_append rfl), if_pos rfl,
    Buffer.store_append rfl]
  exact finish_head ho hnul rfl

/-- The path ends in a name, or is the root. -/
theorem finish_keep (h : w.At (o ++ [x]) ['\x00']) (hx : x ≠ '/' ∨ o = [])
    (hnul : '\x00' ∉ o ++ [x]) :
    PathWalk.finish { w with src := w.src + 1 } = .ok ⟨o ++ [x], hnul⟩ := by
  obtain ⟨junk, hstore, hdst⟩ := store_end h
  rw [List.length_append, List.length_singleton] at hdst
  have hlast : w.dst - 1 = o.length := by omega
  have hstrip : PathWalk.stripSlash (o ++ [x] ++ '\x00' :: junk) (w.dst - 1) =
      .ok (o ++ [x] ++ '\x00' :: junk) := by
    rw [PathWalk.stripSlash]
    by_cases hroot : o = []
    · rw [if_neg (by rw [hlast, hroot]; decide)]
      rfl
    · have hlen := List.length_pos_of_ne_nil hroot
      rw [if_pos (by omega), hlast, List.append_assoc, List.singleton_append,
        deref_bind (Buffer.load_append rfl), if_neg (hx.resolve_right hroot)]
      rfl
  rw [PathWalk.finish, deref_bind hstore]
  dsimp only
  rw [hstrip]
  exact finish_head (by simp) hnul rfl

/-- A name is the last thing of the path. -/
theorem finish_ended {s : List (List Char)} (hended : Ended root (s ++ [n]) out)
    (h : w.At out ['\x00']) (hs : ∀ m ∈ s ++ [n], IsName m) :
    ∃ p : CString, PathWalk.finish { w with src := w.src + 1 } = .ok p ∧
      p.chars = written root s ++ n := by
  have hname := hs n (List.mem_append_right _ (List.mem_singleton_self n))
  have hnul : '\x00' ∉ written root s ++ n := by
    intro hmem
    rw [written, List.mem_append, List.mem_append] at hmem
    rcases hmem with (hmem | hmem) | hmem
    · cases root with
      | false => exact List.not_mem_nil hmem
      | true => exact absurd (List.mem_singleton.mp hmem) (by decide)
    · obtain ⟨m, hm, hmem⟩ := List.mem_flatMap.mp hmem
      rcases List.mem_append.mp hmem with hmem | hmem
      · exact ((hs m (List.mem_append_left _ hm)).2 _ hmem).1 rfl
      · exact absurd (List.mem_singleton.mp hmem) (by decide)
    · exact (hname.2 _ hmem).1 rfl
  have hne : written root s ++ n ≠ [] := fun hnil => hname.1 (List.append_eq_nil_iff.mp hnil).2
  rcases hended with rfl | ⟨s', n', -, hsn, rfl⟩
  · rw [written_snoc] at h
    exact ⟨_, finish_strip h hne hnul, rfl⟩
  · obtain ⟨rfl, hn⟩ := List.append_inj' hsn rfl
    obtain rfl := List.singleton_inj.mp hn
    rcases List.eq_nil_or_concat n with hnil | ⟨n', x, hn'⟩
    · exact absurd hnil hname.1
    · rw [List.concat_eq_append] at hn'
      have hx : x ≠ '/' := (hname.2 x (by rw [hn']; simp)).2
      rw [hn', ← List.append_assoc] at h hnul
      refine ⟨_, finish_keep h (.inl hx) hnul, ?_⟩
      rw [hn', ← List.append_assoc]

-- --------
-- The walk of the loop and the resolution of the path
-- --------

variable {cs : List (List Char)}

theorem descend_of_resolve {st : List (List Char)} (h : resolve dot dotDot stack cs = some st) :
    descend root stack cs = some (root, st) := by
  induction cs generalizing stack with
  | nil => exact congrArg (fun s => some (root, s)) (Option.some.inj h)
  | cons c cs ih =>
    rw [resolve, Option.bind_eq_some_iff] at h
    obtain ⟨stack', henter, h⟩ := h
    rw [descend, henter]
    exact ih h

theorem descend_of_climbs (h : climbs dot dotDot stack cs ≠ 0) : descend false stack cs = none := by
  induction cs generalizing stack with
  | nil => exact absurd rfl h
  | cons c cs ih =>
    rw [climbs] at h
    rw [descend]
    cases henter : enter dot dotDot stack c with
    | none => rfl
    | some stack' =>
      rw [henter] at h
      exact ih h

theorem descend_of_once (h : climbs dot dotDot stack cs = 1) :
    ∃ st cs', descend true stack cs = some (false, st) ∧ cs' ⊆ cs ∧
      resolve dot dotDot [] cs' = some st := by
  induction cs generalizing stack with
  | nil => cases h
  | cons c cs ih =>
    rw [climbs] at h
    rw [descend]
    cases henter : enter dot dotDot stack c with
    | none =>
      rw [henter] at h
      have hzero : climbs dot dotDot [] cs = 0 := by
        dsimp only at h
        omega
      obtain ⟨st, hres⟩ := Option.isSome_iff_exists.mp (resolve_isSome_iff.mpr hzero)
      exact ⟨st, cs, descend_of_resolve hres, List.subset_cons_self .., hres⟩
    | some stack' =>
      rw [henter] at h
      obtain ⟨st, cs', hst, hsub, hres⟩ := ih h
      exact ⟨st, cs', hst, List.subset_cons_of_subset _ hsub, hres⟩

theorem descend_of_twice (h : 2 ≤ climbs dot dotDot stack cs) : descend true stack cs = none := by
  induction cs generalizing stack with
  | nil => exact absurd h (by rw [climbs]; decide)
  | cons c cs ih =>
    rw [climbs] at h
    rw [descend]
    cases henter : enter dot dotDot stack c with
    | none =>
      rw [henter] at h
      exact descend_of_climbs (by dsimp only at h; omega)
    | some stack' =>
      rw [henter] at h
      exact ih h

/-- Without the root's `/` the path starts with a name. -/
theorem head_written_false {s : List (List Char)} (hs : ∀ m ∈ s ++ [n], IsName m) :
    (written false s ++ n).head? ≠ some '/' := by
  have hname : ∀ {m : List Char} {t}, IsName m → (m ++ t).head? ≠ some '/' := by
    intro m t hm
    obtain ⟨x, xs, rfl⟩ := List.exists_cons_of_ne_nil hm.1
    have hx := (hm.2 x (List.mem_cons_self ..)).2
    rwa [List.cons_append, List.head?_cons, Ne, Option.some.injEq]
  cases s with
  | nil =>
    have h := hname (t := []) (hs n (by simp))
    rwa [List.append_nil] at h
  | cons m s =>
    rw [written, if_neg (by decide), List.nil_append, trail, List.flatMap_cons, List.append_assoc,
      List.append_assoc]
    exact hname (hs m (by simp))

-- --------
-- Normalised paths
-- --------

/-- A path from the root through names: no empty component, no `.` and no `..`. -/
def Normal (p : CString) : Prop :=
  ∃ cs, p.chars = rooted '/' cs ∧ ∀ c ∈ cs, IsName c ∧ c ≠ dot ∧ c ≠ dotDot

theorem Normal.head {p : CString} (h : Normal p) : p.chars.head? = some '/' := by
  obtain ⟨cs, hcs, -⟩ := h
  rw [hcs]
  cases cs with
  | nil => rfl
  | cons c cs => rfl

theorem fullPath_head {directory filename : CString} (h : Normal directory) :
    (fullPath directory filename).head? = some '/' := by
  rw [fullPath]
  by_cases habs : filename.chars.head? = some '/'
  · rwa [if_pos habs]
  · rw [if_neg habs, List.head?_append, h.head]
    rfl

theorem fullPath_nul {directory filename : CString} : '\x00' ∉ fullPath directory filename := by
  rw [fullPath]
  by_cases habs : filename.chars.head? = some '/'
  · rw [if_pos habs]
    exact filename.nul
  · rw [if_neg habs, List.mem_append, List.mem_cons, not_or, not_or]
    exact ⟨directory.nul, by decide, filename.nul⟩

/-- The loop from the start of the path. -/
theorem loop_fullPath {path : List Char} (hhead : path.head? = some '/') (hnul : '\x00' ∉ path) :
    Leads ((path ++ ['\x00']).length + 1) { fullpath := path ++ ['\x00'], src := 0, dst := 0 }
      (descend true [] (components '/' path)) := by
  obtain ⟨v, rfl⟩ : ∃ v, path = '/' :: v := by
    cases path with
    | nil => cases hhead
    | cons x v => exact ⟨v, by rw [Option.some.inj hhead]⟩
  obtain ⟨k, u, rfl, hu⟩ := exists_slashes v
  obtain ⟨c, rest, hbyte, hc⟩ := exists_byte hu
  have hat : PathWalk.At ⟨'/' :: (List.replicate k '/' ++ u) ++ ['\x00'], 0, 0⟩ []
      ([] ++ '/' :: (List.replicate k '/' ++ c :: rest)) := by
    refine ⟨[], ?_, rfl, rfl⟩
    dsimp only
    rw [← hbyte, List.cons_append, List.append_assoc]
    rfl
  obtain ⟨w', hat', hcopy⟩ := PathWalk.At.copyRound_slash k hat (by simp) hc
  have hround := PathWalk.At.round_name (n := []) hat (by simp) (.inr rfl) (by simp) (by simp)
  rw [← hbyte] at hat'
  rw [components_sep_cons, components_slashes]
  refine Leads.of_next (hround.trans hcopy) (loop_leads hat' ?_ hu (by simp) ?_)
  · intro hmem
    exact hnul (List.mem_cons_of_mem _ (List.mem_append_right _ hmem))
  · rw [List.length_append, List.length_cons, List.length_append, List.length_singleton]
    omega

-- --------
-- The routine
-- --------

variable {workingDirectory filename : CString} {directory : Option CString}

/-- The components of the path that `dfs_normalize_path` is asked to normalise. -/
def pathComponents (workingDirectory : CString) (directory : Option CString) (filename : CString) :
    List (List Char) :=
  components '/' (fullPath (directory.getD workingDirectory) filename)

theorem normalizePath_freed
    (h : Leads ((fullPath (directory.getD workingDirectory) filename ++ ['\x00']).length + 1)
      ⟨fullPath (directory.getD workingDirectory) filename ++ ['\x00'], 0, 0⟩ none) :
    dfsNormalizePath workingDirectory directory filename true = .ok none := by
  rw [dfsNormalizePath, if_pos rfl]
  dsimp only
  rw [show PathWalk.loop _ _ = _ from h]
  rfl

theorem normalizePath_finish
    (h : Leads ((fullPath (directory.getD workingDirectory) filename ++ ['\x00']).length + 1)
      ⟨fullPath (directory.getD workingDirectory) filename ++ ['\x00'], 0, 0⟩
      (some (root, stack))) :
    ∃ (w : PathWalk) (out : List Char), Ended root stack out ∧ w.At out ['\x00'] ∧
      dfsNormalizePath workingDirectory directory filename true =
        (PathWalk.finish { w with src := w.src + 1 } >>= fun p => .ok (some p)) := by
  obtain ⟨w, out, hended, hat, hloop⟩ := h
  refine ⟨w, out, hended, hat, ?_⟩
  rw [dfsNormalizePath, if_pos rfl]
  dsimp only
  rw [hloop]
  rfl

theorem Ended.nil (h : Ended root [] out) : out = written root [] := by
  rcases h with h | ⟨s, n, -, hsn, -⟩
  · exact h
  · exact absurd hsn.symm (by simp)

/-- A path that stays below the root is resolved. -/
theorem normalizePath_resolve
    (hhead : (fullPath (directory.getD workingDirectory) filename).head? = some '/')
    (hres : resolve dot dotDot [] (pathComponents workingDirectory directory filename) = some cs) :
    ∃ p, dfsNormalizePath workingDirectory directory filename true = .ok (some p) ∧
      p.chars = rooted '/' cs ∧ Normal p := by
  have hnames : ∀ c ∈ cs, IsName c ∧ c ≠ dot ∧ c ≠ dotDot := by
    intro c hc
    rcases resolve_mem hres hc with hmem | ⟨hmem, hne⟩
    · cases hmem
    · exact ⟨isName_of_mem fullPath_nul hmem, hne⟩
  have hloop := loop_fullPath hhead fullPath_nul
  rw [← pathComponents, descend_of_resolve hres] at hloop
  obtain ⟨w, out, hended, hat, hrun⟩ := normalizePath_finish hloop
  rcases List.eq_nil_or_concat cs with rfl | ⟨s, n, rfl⟩
  · rw [hended.nil] at hat
    refine ⟨⟨['/'], by decide⟩, ?_, rfl, [], rfl, hnames⟩
    rw [hrun, finish_keep (o := []) hat (.inr rfl) (by decide)]
    rfl
  · rw [List.concat_eq_append] at hended hnames ⊢
    obtain ⟨p, hfinish, hchars⟩ := finish_ended hended hat fun m hm => (hnames m hm).1
    have hrooted : p.chars = rooted '/' (s ++ [n]) := by
      rw [hchars, rooted_snoc]
      rfl
    refine ⟨p, ?_, hrooted, s ++ [n], hrooted, hnames⟩
    rw [hrun, hfinish]
    rfl

theorem normalizePath_twice
    (hhead : (fullPath (directory.getD workingDirectory) filename).head? = some '/')
    (htwice : 2 ≤ climbs dot dotDot [] (pathComponents workingDirectory directory filename)) :
    dfsNormalizePath workingDirectory directory filename true = .ok none := by
  have hloop := loop_fullPath hhead fullPath_nul
  rw [← pathComponents, descend_of_twice htwice] at hloop
  exact normalizePath_freed hloop

/-- A path that leaves the root once loses its first `/`: the routine looks in front of the
buffer, or returns a path that does not start at the root. -/
theorem normalizePath_once
    (hhead : (fullPath (directory.getD workingDirectory) filename).head? = some '/')
    (honce : climbs dot dotDot [] (pathComponents workingDirectory directory filename) = 1) :
    dfsNormalizePath workingDirectory directory filename true = .error .badPointer ∨
      ∃ p : CString, dfsNormalizePath workingDirectory directory filename true = .ok (some p) ∧
        p.chars.head? ≠ some '/' := by
  have hloop := loop_fullPath hhead fullPath_nul
  obtain ⟨st, cs', hdescend, hsub, hres⟩ := descend_of_once honce
  rw [← pathComponents, hdescend] at hloop
  have hnames : ∀ c ∈ st, IsName c := by
    intro c hc
    rcases resolve_mem hres hc with hmem | ⟨hmem, -⟩
    · cases hmem
    · exact isName_of_mem fullPath_nul (hsub hmem)
  obtain ⟨w, out, hended, hat, hrun⟩ := normalizePath_finish hloop
  rcases List.eq_nil_or_concat st with rfl | ⟨s, n, rfl⟩
  · rw [hended.nil] at hat
    refine .inl ?_
    rw [hrun, finish_empty hat]
    rfl
  · rw [List.concat_eq_append] at hended hnames
    obtain ⟨p, hfinish, hchars⟩ := finish_ended hended hat hnames
    refine .inr ⟨p, by rw [hrun, hfinish]; rfl, ?_⟩
    rw [hchars]
    exact head_written_false hnames

/-- A normalised path is its own normalisation. -/
theorem Normal.normalize {p : CString} (h : Normal p) (workingDirectory : CString)
    (directory : Option CString) :
    dfsNormalizePath workingDirectory directory p true = .ok (some p) := by
  have hself : fullPath (directory.getD workingDirectory) p = p.chars := if_pos h.head
  obtain ⟨cs, hcs, hnames⟩ := id h
  have hcomponents : pathComponents workingDirectory directory p = cs := by
    rw [pathComponents, hself, hcs]
    exact components_rooted fun c hc => ⟨(hnames c hc).1.1, (hnames c hc).1.no_slash⟩
  have hres : resolve dot dotDot [] (pathComponents workingDirectory directory p) = some cs := by
    rw [hcomponents]
    exact resolve_names fun c hc => (hnames c hc).2
  obtain ⟨p', hp', hchars, -⟩ := normalizePath_resolve (by rw [hself]; exact h.head) hres
  rw [hp']
  congr 2
  cases p
  cases p'
  rw [CString.mk.injEq]
  exact hchars.trans hcs.symm

-- --------
-- What the routine is for
-- --------

/-- What `dfs_normalize_path` is for, with memory or without: it stays inside its buffer and
returns; a path it returns is normalised, is the resolution of the path and is its own
normalisation; it returns none only where a `..` leaves the root or there is no memory. -/
def NormalizesPath (workingDirectory : CString) (directory : Option CString) (filename : CString) :
    Prop :=
  ∀ mem, ∃ r, dfsNormalizePath workingDirectory directory filename mem = .ok r ∧
    (r = none → mem = false ∨
      resolve dot dotDot [] (pathComponents workingDirectory directory filename) = none) ∧
    ∀ p, r = some p → Normal p ∧
      (resolve dot dotDot [] (pathComponents workingDirectory directory filename)).map
        (rooted '/') = some p.chars ∧
      ∀ directory', dfsNormalizePath workingDirectory directory' p true = .ok (some p)

/-- **Exactly the paths that do not leave the root once** are normalised. -/
theorem normalizesPath_iff (hdir : Normal (directory.getD workingDirectory)) :
    NormalizesPath workingDirectory directory filename ↔
      climbs dot dotDot [] (pathComponents workingDirectory directory filename) ≠ 1 := by
  have hhead := @fullPath_head _ filename hdir
  constructor
  · intro h honce
    obtain ⟨r, hr, -, hsome⟩ := h true
    rcases normalizePath_once hhead honce with hfault | ⟨p, hp, hp'⟩
    · rw [hr] at hfault
      cases hfault
    · rw [hr, Except.ok.injEq] at hp
      exact hp' (hsome p hp).1.head
  · intro h mem
    cases mem with
    | false => exact ⟨none, rfl, fun _ => .inl rfl, fun p hp => by cases hp⟩
    | true =>
      cases hres : resolve dot dotDot [] (pathComponents workingDirectory directory filename) with
      | some cs =>
        obtain ⟨p, hp, hchars, hnormal⟩ := normalizePath_resolve hhead hres
        refine ⟨some p, hp, (fun hnone => nomatch hnone), ?_⟩
        rintro _ ⟨⟩
        exact ⟨hnormal, congrArg some hchars.symm, hnormal.normalize workingDirectory⟩
      | none =>
        have hclimbs := mt resolve_isSome_iff.mpr (by rw [hres]; decide)
        have hnull := normalizePath_twice hhead (show 2 ≤ climbs dot dotDot [] _ by omega)
        exact ⟨none, hnull, fun _ => .inr rfl, fun p hp => by cases hp⟩

/-- The root directory. -/
def rootPath : CString := ⟨['/'], by decide⟩

theorem normal_rootPath : Normal rootPath := ⟨[], rfl, by simp⟩

/-- A path with a `..` that stays below the root. -/
theorem normalizesPath_sub : NormalizesPath rootPath none ⟨"a/../b".toList, by decide⟩ :=
  (@normalizesPath_iff _ _ none normal_rootPath).mpr (by decide)

/-- **A path that leaves the root once**: `../a` becomes `a`. -/
theorem normalizesPath_parent : ¬ ∀ workingDirectory directory filename,
    Normal (Option.getD directory workingDirectory) → filename.chars ≠ [] →
      NormalizesPath workingDirectory directory filename := by
  intro h
  obtain ⟨r, hr, -, hsome⟩ :=
    h rootPath none ⟨"../a".toList, by decide⟩ normal_rootPath (by decide) true
  have hrun : dfsNormalizePath rootPath none ⟨"../a".toList, by decide⟩ true =
      .ok (some ⟨['a'], by decide⟩) := by decide +kernel
  rw [hr, Except.ok.injEq] at hrun
  exact absurd (hsome _ hrun).1.head (by decide)

end RTThread.Dfs
