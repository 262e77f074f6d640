import RTThread.Dfs.MountTable

/-!
# Which mount a path belongs to (`dfs_filesystem_lookup` of `components/dfs/src/dfs_fs.c`)

One scan over the table keeps the last entry that matches with a path at least as long as the
one before. Two mounts that cover a path are both prefixes of it, so the longer one extends the
shorter, and two of one length are one path: the scan ends with the longest.
-/

namespace RTThread.Dfs

open Components

/-- A normalised path of one character is the root. -/
theorem Normal.eq_root {p : CString} (h : Normal p) (hlen : p.chars.length ≤ 1) :
    p.chars = ['/'] := by
  obtain ⟨t, ht⟩ := List.head?_eq_some_iff.mp h.head
  rw [ht, List.length_cons] at hlen
  rw [ht, List.eq_nil_of_length_eq_zero (by omega : t.length = 0)]

namespace MountTable

/-- The entry `i` is in use, for the path `p`. -/
def Live (table : MountTable) (i : Nat) (p : CString) : Prop :=
  ∃ fs ops, table[i]? = some fs ∧ fs.path = some p ∧ fs.ops = some ops

/-- `p` is a prefix of `path` that ends where a component of it does. -/
def Covers (p path : CString) : Prop :=
  p.chars = ['/'] ∨ p.chars = path.chars ∨ p.chars ++ ['/'] <+: path.chars

/-- The entry `i` is the one with the longest path over `path`. -/
def Longest (table : MountTable) (i : Nat) (path : CString) : Prop :=
  ∃ p, table.Live i p ∧ Covers p path ∧
    ∀ j q, table.Live j q → Covers q path → q.chars.length ≤ p.chars.length

variable {table : MountTable} {i j k : Nat} {p q path : CString} {fs : DfsFilesystem}

-- --------
-- The test of one entry
-- --------

theorem Covers.isPrefix (h : Covers p path) (hpath : Normal path) : p.chars <+: path.chars := by
  rcases h with hroot | heq | hnext
  · obtain ⟨t, ht⟩ := List.head?_eq_some_iff.mp hpath.head
    exact ⟨t, by simp [hroot, ht]⟩
  · exact heq ▸ List.prefix_refl _
  · exact (List.prefix_append _ _).trans hnext

/-- What follows a proper prefix. -/
theorem snoc_isPrefix_iff {s t : List Char} {c : Char} (h : s <+: t) :
    s ++ [c] <+: t ↔ t[s.length]? = some c := by
  obtain ⟨r, rfl⟩ := h
  rw [List.prefix_append_right_inj, List.getElem?_append_right (Nat.le_refl _), Nat.sub_self]
  cases r with
  | nil => simp
  | cons d r => simp [eq_comm]

/-- **The test of the scan**: a prefix that is the root, the whole path, or stops at a `/`. -/
theorem covers_iff (hp : Normal p) (hpath : Normal path) : Covers p path ↔
    p.chars <+: path.chars ∧ ¬(1 < p.chars.length ∧ p.chars.length < path.chars.length ∧
      path.chars[p.chars.length]? ≠ some '/') := by
  constructor
  · intro h
    refine ⟨h.isPrefix hpath, ?_⟩
    rintro ⟨hone, hlt, hnext⟩
    rcases h with hroot | heq | hpre
    · rw [hroot] at hone
      exact Nat.lt_irrefl 1 hone
    · rw [heq] at hlt
      exact Nat.lt_irrefl _ hlt
    · exact hnext ((snoc_isPrefix_iff ((List.prefix_append _ _).trans hpre)).mp hpre)
  · rintro ⟨hpre, hno⟩
    by_cases hone : 1 < p.chars.length
    · by_cases hlt : p.chars.length < path.chars.length
      · have hnext : path.chars[p.chars.length]? = some '/' := by
          by_contra hne
          exact hno ⟨hone, hlt, hne⟩
        exact .inr (.inr ((snoc_isPrefix_iff hpre).mpr hnext))
      · exact .inr (.inl (hpre.eq_of_length_le (Nat.le_of_not_lt hlt)))
    · exact .inl (hp.eq_root (Nat.le_of_not_lt hone))

-- --------
-- The scan
-- --------

/-- What a scan that has seen `o`, of length `prefixlen`, returns: `o` itself where nothing behind
covers the path with this length or more, and else the longest behind. -/
def ScanSpec (path : CString) (table : MountTable) (k : Nat) (o : Option Nat) (prefixlen : Nat)
    (r : Option Nat) : Prop :=
  (r = o ∧ ∀ j q, table.Live j q → Covers q path → q.chars.length < prefixlen) ∨
    ∃ j q, r = some (j + k) ∧ table.Live j q ∧ Covers q path ∧ prefixlen ≤ q.chars.length ∧
      ∀ j' q', table.Live j' q' → Covers q' path → q'.chars.length ≤ q.chars.length

theorem live_cons_iff : Live (fs :: table) i p ↔
    (i = 0 ∧ fs.path = some p ∧ ∃ ops, fs.ops = some ops) ∨ ∃ j, i = j + 1 ∧ table.Live j p := by
  cases i with
  | zero => simp [Live]
  | succ i => simp [Live]

/-- An entry that is passed over. -/
theorem ScanSpec.skip {o r : Option Nat} {prefixlen : Nat}
    (h : ScanSpec path table (k + 1) o prefixlen r)
    (hhead : ∀ q, Live (fs :: table) 0 q → Covers q path → q.chars.length < prefixlen) :
    ScanSpec path (fs :: table) k o prefixlen r := by
  have hlive : ∀ j q, Live (fs :: table) j q → Covers q path →
      q.chars.length < prefixlen ∨ ∃ j', table.Live j' q := by
    intro j q hj hq
    rcases live_cons_iff.mp hj with ⟨rfl, -, -⟩ | ⟨j', rfl, hj'⟩
    · exact .inl (hhead q hj hq)
    · exact .inr ⟨j', hj'⟩
  rcases h with ⟨hr, hrest⟩ | ⟨j, q, hr, hj, hq, hle, hmax⟩
  · refine .inl ⟨hr, fun j q hj hq => ?_⟩
    rcases hlive j q hj hq with hlt | ⟨j', hj'⟩
    · exact hlt
    · exact hrest j' q hj' hq
  · refine .inr ⟨j + 1, q, by rw [hr, Nat.add_assoc, Nat.add_comm 1 k],
      live_cons_iff.mpr (.inr ⟨j, rfl, hj⟩), hq, hle, fun j' q' hj' hq' => ?_⟩
    rcases hlive j' q' hj' hq' with hlt | ⟨j'', hj''⟩
    · exact (hlt.trans_le hle).le
    · exact hmax j'' q' hj'' hq'

/-- An entry that is taken. -/
theorem ScanSpec.take {o r : Option Nat} {prefixlen : Nat} (hhead : Live (fs :: table) 0 p)
    (hp : Covers p path) (hle : prefixlen ≤ p.chars.length)
    (h : ScanSpec path table (k + 1) (some k) p.chars.length r) :
    ScanSpec path (fs :: table) k o prefixlen r := by
  have hsame : ∀ q, Live (fs :: table) 0 q → q = p := by
    rintro q ⟨fs', ops', hfs', hq, -⟩
    obtain ⟨fs'', ops'', hfs'', hp'', -⟩ := hhead
    rw [hfs', Option.some.injEq] at hfs''
    rw [hfs'', hp'', Option.some.injEq] at hq
    exact hq.symm
  rcases h with ⟨hr, hrest⟩ | ⟨j, q, hr, hj, hq, hpq, hmax⟩
  · refine .inr ⟨0, p, by rw [hr, Nat.zero_add], hhead, hp, hle, fun j' q' hj' hq' => ?_⟩
    rcases live_cons_iff.mp hj' with ⟨rfl, -, -⟩ | ⟨j'', rfl, hj''⟩
    · rw [hsame q' hj']
    · exact (hrest j'' q' hj'' hq').le
  · refine .inr ⟨j + 1, q, by rw [hr, Nat.add_assoc, Nat.add_comm 1 k],
      live_cons_iff.mpr (.inr ⟨j, rfl, hj⟩), hq, hle.trans hpq, fun j' q' hj' hq' => ?_⟩
    rcases live_cons_iff.mp hj' with ⟨rfl, -, -⟩ | ⟨j'', rfl, hj''⟩
    · rw [hsame q' hj']
      exact hpq
    · exact hmax j'' q' hj'' hq'

/-- **The scan**, by induction on the entries behind. -/
theorem lookupScan_spec (hnormal : ∀ i p, table.Live i p → Normal p) (hpath : Normal path)
    (k : Nat) (o : Option Nat) (prefixlen : Nat) :
    ScanSpec path table k o prefixlen (lookupScan path table k o prefixlen) := by
  induction table generalizing k o prefixlen with
  | nil =>
    refine .inl ⟨rfl, ?_⟩
    rintro j q ⟨fs, ops, hfs, -⟩
    cases hfs
  | cons iter table ih =>
    have ih := ih fun i p hi => hnormal (i + 1) p (live_cons_iff.mpr (.inr ⟨i, rfl, hi⟩))
    rw [lookupScan]
    cases hp : iter.path with
    | none =>
      refine (ih (k + 1) o prefixlen).skip ?_
      rintro q ⟨fs', ops', hfs', hq, -⟩
      obtain rfl := Option.some.inj hfs'
      rw [hp] at hq
      cases hq
    | some p =>
      cases hops : iter.ops with
      | none =>
        refine (ih (k + 1) o prefixlen).skip ?_
        rintro q ⟨fs', ops', hfs', -, hops'⟩
        obtain rfl := Option.some.inj hfs'
        rw [hops] at hops'
        cases hops'
      | some ops =>
        have hlive : Live (iter :: table) 0 p := ⟨iter, ops, rfl, hp, hops⟩
        have hcovers := covers_iff (hnormal 0 p hlive) hpath
        have hsame : ∀ q, Live (iter :: table) 0 q → q = p := by
          rintro q ⟨fs', ops', hfs', hq, -⟩
          obtain rfl := Option.some.inj hfs'
          exact Option.some.inj (hq.symm.trans hp)
        dsimp only
        by_cases hskip : p.chars.length < prefixlen ∨ ¬ p.chars.isPrefixOf path.chars
        · rw [if_pos hskip]
          rw [List.isPrefixOf_iff_prefix] at hskip
          refine (ih (k + 1) o prefixlen).skip fun q hq hcov => ?_
          obtain rfl := hsame q hq
          exact hskip.resolve_right (not_not.mpr (hcovers.mp hcov).1)
        · rw [if_neg hskip]
          rw [not_or, not_not, not_lt, List.isPrefixOf_iff_prefix] at hskip
          by_cases hnext : 1 < p.chars.length ∧ p.chars.length < path.chars.length ∧
              path.chars[p.chars.length]? ≠ some '/'
          · rw [if_pos hnext]
            refine (ih (k + 1) o prefixlen).skip fun q hq hcov => ?_
            obtain rfl := hsame q hq
            exact absurd hnext (hcovers.mp hcov).2
          · rw [if_neg hnext]
            exact .take hlive (hcovers.mpr ⟨hskip.2, hnext⟩) hskip.1 (ih (k + 1) (some k) _)

/-- **`dfs_filesystem_lookup`** returns the live entry with the longest path that covers its
argument, and nothing exactly where no live entry covers it. -/
theorem lookup_longest (hnormal : ∀ i p, table.Live i p → Normal p)
    (hdistinct : ∀ i j p, table.Live i p → table.Live j p → i = j) (hpath : Normal path) :
    (∀ i, table.lookup path = some i ↔ table.Longest i path) ∧
      (table.lookup path = none ↔ ∀ i p, table.Live i p → ¬ Covers p path) := by
  have hspec := lookupScan_spec hnormal hpath 0 none 0
  change ScanSpec path table 0 none 0 (table.lookup path) at hspec
  rcases hspec with ⟨hr, hrest⟩ | ⟨i, p, hr, hi, hp, -, hmax⟩
  · have hno : ∀ i p, table.Live i p → ¬ Covers p path :=
      fun i p hi hp => Nat.not_lt_zero _ (hrest i p hi hp)
    rw [hr]
    refine ⟨fun i => ⟨fun h => (Option.some_ne_none i h.symm).elim, ?_⟩, fun _ => hno, fun _ => rfl⟩
    rintro ⟨p, hi, hp, -⟩
    exact absurd hp (hno i p hi)
  · rw [Nat.add_zero] at hr
    rw [hr]
    refine ⟨fun j => ⟨fun h => ?_, ?_⟩, fun h => (Option.some_ne_none i h).elim,
      fun h => absurd hp (h i p hi)⟩
    · obtain rfl := Option.some.inj h
      exact ⟨p, hi, hp, hmax⟩
    · -- two prefixes of one length are one path
      rintro ⟨q, hj, hq, hmax'⟩
      have hlen := Nat.le_antisymm (hmax' i p hi hp) (hmax j q hj hq)
      have heq : p.chars = q.chars :=
        (List.prefix_of_prefix_length_le (hp.isPrefix hpath) (hq.isPrefix hpath)
          hlen.le).eq_of_length hlen
      have hpq : p = q := by
        cases p
        cases q
        exact CString.mk.injEq .. ▸ heq
      rw [hdistinct i j p hi (hpq ▸ hj)]

-- --------
-- A neighbour with a longer name
-- --------

/-- The root, and a file system at `/a`. -/
def rootAndA : MountTable :=
  [rootEntry, { rootEntry with path := some ⟨['/', 'a'], by decide⟩ }]

theorem rootAndA_live (h : rootAndA.Live i p) :
    (i = 0 ∧ p.chars = rooted '/' []) ∨ (i = 1 ∧ p.chars = rooted '/' [['a']]) := by
  rcases live_cons_iff.mp h with ⟨rfl, hp, -⟩ | ⟨j, rfl, hj⟩
  · exact .inl ⟨rfl, congrArg CString.chars (Option.some.inj hp.symm)⟩
  · rcases live_cons_iff.mp hj with ⟨rfl, hp, -⟩ | ⟨j', -, ⟨fs, ops, hfs, -⟩⟩
    · exact .inr ⟨rfl, congrArg CString.chars (Option.some.inj hp.symm)⟩
    · cases hfs

/-- `/ab` belongs to the root. -/
theorem lookup_longest_ab : rootAndA.lookup ⟨['/', 'a', 'b'], by decide⟩ = some 0 := by
  refine ((lookup_longest (fun i p hi => ?_) (fun i j p hi hj => ?_)
    ⟨[['a', 'b']], rfl, by simp [IsName, dot, dotDot]⟩).1 0).mpr ?_
  · rcases rootAndA_live hi with ⟨-, hp⟩ | ⟨-, hp⟩
    · exact ⟨[], hp, by simp⟩
    · exact ⟨[['a']], hp, by simp [IsName, dot, dotDot]⟩
  · rcases rootAndA_live hi with ⟨rfl, hp⟩ | ⟨rfl, hp⟩ <;>
      rcases rootAndA_live hj with ⟨rfl, hp'⟩ | ⟨rfl, hp'⟩
    · rfl
    · exact absurd (hp.symm.trans hp') (by decide)
    · exact absurd (hp.symm.trans hp') (by decide)
    · rfl
  · refine ⟨rootPath, ⟨rootEntry, _, rfl, rfl, rfl⟩, .inl rfl, fun j q hj hq => ?_⟩
    rcases rootAndA_live hj with ⟨-, hp⟩ | ⟨-, hp⟩
    · rw [hp]
      decide
    · rw [Covers, hp] at hq
      exact absurd hq (by decide)

end MountTable

end RTThread.Dfs
