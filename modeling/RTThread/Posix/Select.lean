import Mathlib.Data.Finset.Card
import RTThread.Rtdef
import RTThread.Posix.Poll

/-!
# `select` (`components/libc/posix/io/poll/select.c`)

The three sets become an array for `poll`, and what `poll` finds goes back to the sets. `poll` is a
parameter, with what is relied on: `PollSpec`.

`select_meets` says when the sets, the result and the time are right. A descriptor that hangs up goes to the
read set whoever asked for it, and one with an error to the exceptions; one that is not open
goes to none of them, and neither does an event of which there is no set, and the result is 0 then as if
the time had passed. The time is cut down to milliseconds and to an `int`; `fdszero` leaves the words
from `nfds` on as they are.
-/

namespace RTThread.Select

open Poll

-- --------
-- The code
-- --------

/-- An `fd_set`: the bits that are set. It is as large as `nfds` says. -/
abbrev FdSet := Finset Nat

/-- The three sets of a call. -/
structure FdSets where
  readfds : Option FdSet
  writefds : Option FdSet
  exceptfds : Option FdSet
deriving DecidableEq

/-- `struct timeval` -/
structure Timeval where
  tvSec : Nat
  tvUsec : Nat
deriving DecidableEq

/-- `struct pollfd` -/
structure PollFd where
  fd : Nat
  events : Events
  revents : Events
deriving DecidableEq

/-- What a call of `poll` returns and leaves in its array, and the microseconds it has waited. -/
structure PollResult where
  ret : Int
  fds : List PollFd
  waited : Nat
deriving DecidableEq

/-- What a call of `select` returns and leaves in the sets, with its call of `poll`: the time-out
and the result. -/
structure Outcome where
  ret : Int
  sets : FdSets
  polled : Option (Int × PollResult)
deriving DecidableEq

/-- The bits of an `fd_mask`. -/
def nfdBits : Nat := 32

/-- `fdszero`: the words that begin below `nfds` are cleared. -/
def fdszero (set : FdSet) (nfds : Int) : FdSet :=
  (List.range ((nfds.toNat + (nfdBits - 1)) / nfdBits)).foldl
    (fun set m => set.filter fun fd => fd / nfdBits ≠ m) set

/-- The set is given, and `FD_ISSET`. -/
def fdIsSet (fd : Nat) : Option FdSet → Bool
  | some set => decide (fd ∈ set)
  | none => false

namespace FdSets

variable (s : FdSets)

/-- An operation is requested on the descriptor. -/
def monitored (fd : Nat) : Bool :=
  fdIsSet fd s.readfds || fdIsSet fd s.writefds || fdIsSet fd s.exceptfds

/-- The entry of the descriptor for `poll`. -/
def entry (fd : Nat) : PollFd where
  fd := fd
  events := (if fdIsSet fd s.readfds then pollIn else 0) |||
    (if fdIsSet fd s.writefds then pollOut else 0)
  revents := 0

/-- The array for `poll`. -/
def pollset (nfds : Int) : List PollFd :=
  ((List.range nfds.toNat).filter s.monitored).map s.entry

/-- The sets before the events go back to them. -/
def zeroed (nfds : Int) : FdSets where
  readfds := s.readfds.map (fdszero · nfds)
  writefds := s.writefds.map (fdszero · nfds)
  exceptfds := s.exceptfds.map (fdszero · nfds)

end FdSets

/-- The time-out for `poll`. -/
def msec : Option Timeval → Int
  | some timeout => toInt (timeout.tvSec * 1000 + timeout.tvUsec / 1000 : Nat)
  | none => -1

/-- One set and one entry: `FD_SET` and the count, if the set is given and one of the events is there. -/
def fdSet (mask : Events) (p : PollFd) : Int × Option FdSet → Int × Option FdSet
  | (ret, some set) =>
    if p.revents &&& mask ≠ 0 then (ret + 1, some (insert p.fd set)) else (ret, some set)
  | (ret, none) => (ret, none)

/-- What an entry adds to the sets. -/
def report (acc : Int × FdSets) (p : PollFd) : Int × FdSets :=
  let (ret, s) := acc
  let (ret, readfds) := fdSet (pollIn ||| pollHup) p (ret, s.readfds)
  let (ret, writefds) := fdSet pollOut p (ret, s.writefds)
  let (ret, exceptfds) := fdSet pollErr p (ret, s.exceptfds)
  (ret, { readfds, writefds, exceptfds })

/-- `select`. The array is allocated if `calloc` holds. -/
def select (calloc : Bool) (poll : List PollFd → Int → PollResult) (nfds : Int) (s : FdSets)
    (timeout : Option Timeval) : Outcome :=
  if (s.pollset nfds).length > 0 ∧ calloc = false then ⟨-1, s, none⟩
  else
    let r := poll (s.pollset nfds) (msec timeout)
    if r.ret > 0 then
      let (ret, sets) := r.fds.foldl report (0, s.zeroed nfds)
      ⟨ret, sets, some (msec timeout, r)⟩
    else ⟨r.ret, s.zeroed nfds, some (msec timeout, r)⟩

-- --------
-- What is relied on, and what is asked for
-- --------

/-- The microseconds of a time. -/
def Timeval.usecs (t : Timeval) : Nat := t.tvSec * 1000 * 1000 + t.tvUsec

/-- `poll` on these entries: which of the descriptors are open, what can be found there, and the time. -/
structure PollSpec (isOpen : Nat → Prop) (fds : List PollFd) (msec : Int) (r : PollResult) : Prop where
  /-- Only `revents` are written. -/
  same : r.fds.map (fun p => (p.fd, p.events)) = fds.map fun p => (p.fd, p.events)
  asked : 0 ≤ r.ret → ∀ p ∈ r.fds, isOpen p.fd →
    p.revents &&& ~~~(p.events ||| pollErr ||| pollHup) = 0
  closed : 0 ≤ r.ret → ∀ p ∈ r.fds, ¬isOpen p.fd → p.revents = pollNval
  count : 0 ≤ r.ret → r.ret = (r.fds.countP fun p => p.revents ≠ 0 : Nat)
  /-- Without an event it returns when the time has passed, and never if there is no limit. -/
  passed : r.ret = 0 → 0 ≤ msec ∧ msec.toNat * 1000 ≤ r.waited

/-- The number of bits in the sets. -/
def FdSets.bits (s : FdSets) : Nat :=
  (s.readfds.getD ∅).card + (s.writefds.getD ∅).card + (s.exceptfds.getD ∅).card

/-- One set of a call is left as a part of what it was. -/
def Within (set set' : Option FdSet) : Prop :=
  set'.isSome = set.isSome ∧ set'.getD ∅ ⊆ set.getD ∅

/-- The time-out for `poll` is the time of the call, in milliseconds, or none if there is none. -/
def Lasts (timeout : Option Timeval) (m : Int) : Prop :=
  match timeout with
  | some t => m * 1000 ≤ t.usecs ∧ (t.usecs : Int) < m * 1000 + 1000
  | none => m < 0

/-- **What is asked of `select`.** -/
structure Meets (isOpen : Nat → Prop) (nfds : Int) (s : FdSets) (timeout : Option Timeval)
    (o : Outcome) : Prop where
  within : Within s.readfds o.sets.readfds ∧ Within s.writefds o.sets.writefds ∧
    Within s.exceptfds o.sets.exceptfds
  count : 0 ≤ o.ret → o.ret = o.sets.bits
  /-- The result is 0 only when the time has passed and nothing was ready. -/
  passed : o.ret = 0 → ∃ t m r, timeout = some t ∧ o.polled = some (m, r) ∧ t.usecs ≤ r.waited ∧
    ∀ p ∈ r.fds, p.revents = 0
  closed : (∃ fd : Nat, fd < nfds ∧ s.monitored fd = true ∧ ¬isOpen fd) → o.ret < 0
  duration : ∀ m r, o.polled = some (m, r) → Lasts timeout m

/-- One of the given sets shows the entry. -/
def FdSets.Shows (s : FdSets) (p : PollFd) : Prop :=
  (s.readfds.isSome = true ∧ p.revents &&& (pollIn ||| pollHup) ≠ 0) ∨
    (s.writefds.isSome = true ∧ p.revents &&& pollOut ≠ 0) ∨
    (s.exceptfds.isSome = true ∧ p.revents &&& pollErr ≠ 0)

/-- When the events that were found can go back to the sets: all descriptors are open, those that hang up are in
the read set and those with an error in the set of exceptions, as far as these are given, and a set
shows at least one of them. -/
structure Expressible (isOpen : Nat → Prop) (s : FdSets) (fds : List PollFd) : Prop where
  isOpen : ∀ p ∈ fds, isOpen p.fd
  hup : ∀ p ∈ fds, p.revents &&& pollHup ≠ 0 → ∀ set ∈ s.readfds, p.fd ∈ set
  err : ∀ p ∈ fds, p.revents &&& pollErr ≠ 0 → ∀ set ∈ s.exceptfds, p.fd ∈ set
  shown : ∃ p ∈ fds, s.Shows p

/-- When `select` does what is asked, if the array is there and `poll` returns `r`. -/
structure Cond (isOpen : Nat → Prop) (nfds : Int) (s : FdSets) (timeout : Option Timeval)
    (r : PollResult) : Prop where
  /-- The milliseconds fit an `int`. -/
  fits : ∀ t ∈ timeout, t.tvSec * 1000 + t.tvUsec / 1000 < 2 ^ 31
  /-- No set has a bit in a word from `nfds` on. -/
  zeroed : 0 ≤ r.ret → (s.zeroed nfds).bits = 0
  /-- If it was in vain, `poll` has also waited for what is left of the time below a millisecond. -/
  waited : r.ret = 0 → ∀ t ∈ timeout,
    (t.tvSec * 1000 + t.tvUsec / 1000) * 1000 + t.tvUsec % 1000 ≤ r.waited
  found : 0 < r.ret → Expressible isOpen s r.fds

-- --------
-- The sets
-- --------

section Sets

variable {set : FdSet} {nfds : Int} {fd : Nat} {mask : Events} {ps : List PollFd} {s : FdSets}

theorem mem_foldl_filter (words : List Nat) :
    ∀ set : FdSet, (fd ∈ words.foldl (fun set m => set.filter fun fd => fd / nfdBits ≠ m) set ↔
      fd ∈ set ∧ fd / nfdBits ∉ words) := by
  induction words with
  | nil => simp
  | cons m words ih =>
    intro set
    rw [List.foldl_cons, ih, Finset.mem_filter, List.mem_cons, not_or, and_assoc]

/-- What `fdszero` leaves are the words from `nfds` on. -/
theorem mem_fdszero : fd ∈ fdszero set nfds ↔ fd ∈ set ∧ nfds ≤ (nfdBits * (fd / nfdBits) : Nat) := by
  rw [fdszero, mem_foldl_filter, List.mem_range, nfdBits]
  refine and_congr_right fun _ => ?_
  omega

theorem not_mem_fdszero (h : fd < nfds) : fd ∉ fdszero set nfds := by
  rw [mem_fdszero]
  rintro ⟨-, hle⟩
  have := Nat.mul_div_le fd nfdBits
  omega

theorem fdszero_subset : fdszero set nfds ⊆ set := fun _ h => (mem_fdszero.1 h).1

/-- The descriptors that have one of the events. -/
def withEvents (mask : Events) (ps : List PollFd) : FdSet :=
  ((ps.filter fun p => p.revents &&& mask ≠ 0).map PollFd.fd).toFinset

/-- How often `fdSet` counts. -/
def hits (mask : Events) (set : Option FdSet) (ps : List PollFd) : Nat :=
  if set.isSome then ps.countP fun p => p.revents &&& mask ≠ 0 else 0

/-- The descriptors are added, if the set is given. -/
def added (mask : Events) (ps : List PollFd) (set : Option FdSet) : Option FdSet :=
  set.map fun set => set ∪ withEvents mask ps

theorem mem_withEvents : fd ∈ withEvents mask ps ↔ ∃ p ∈ ps, p.revents &&& mask ≠ 0 ∧ p.fd = fd := by
  simp [withEvents, and_assoc]

theorem withEvents_cons (p : PollFd) :
    withEvents mask (p :: ps) =
      if p.revents &&& mask ≠ 0 then insert p.fd (withEvents mask ps) else withEvents mask ps := by
  by_cases h : p.revents &&& mask ≠ 0
  · rw [if_pos h, withEvents, List.filter_cons_of_pos (by simpa using h), List.map_cons,
      List.toFinset_cons, withEvents]
  · rw [if_neg h, withEvents, List.filter_cons_of_neg (by simpa using h), withEvents]

/-- A step of the loop, and the rest of it. -/
theorem fdSet_eq (p : PollFd) (ret : Int) (set : Option FdSet) :
    ∃ n set', fdSet mask p (ret, set) = (ret + (n : Nat), set') ∧
      n + hits mask set' ps = hits mask set (p :: ps) ∧ added mask ps set' = added mask (p :: ps) set := by
  cases set with
  | none => exact ⟨0, none, by rw [fdSet, Nat.cast_zero, Int.add_zero], rfl, rfl⟩
  | some set =>
    by_cases h : p.revents &&& mask ≠ 0
    · refine ⟨1, some (insert p.fd set), by rw [fdSet, if_pos h, Nat.cast_one], ?_, ?_⟩
      · simp only [hits, Option.isSome_some, if_true]
        rw [List.countP_cons_of_pos (by simpa using h), Nat.add_comm]
      · rw [added, added, Option.map_some, Option.map_some, withEvents_cons, if_pos h,
          Finset.insert_union, Finset.union_insert]
    · refine ⟨0, some set, by rw [fdSet, if_neg h, Nat.cast_zero, Int.add_zero], ?_, ?_⟩
      · simp only [hits, Option.isSome_some, if_true]
        rw [List.countP_cons_of_neg (by simpa using h), Nat.zero_add]
      · rw [added, added, Option.map_some, Option.map_some, withEvents_cons, if_neg h]

/-- **The loop**: each set gets its descriptors, and all are counted. -/
theorem foldl_report : ∀ (ret : Int) (s : FdSets),
    ps.foldl report (ret, s) =
      (ret + (hits (pollIn ||| pollHup) s.readfds ps + hits pollOut s.writefds ps +
          hits pollErr s.exceptfds ps : Nat),
        { readfds := added (pollIn ||| pollHup) ps s.readfds
          writefds := added pollOut ps s.writefds
          exceptfds := added pollErr ps s.exceptfds }) := by
  induction ps with
  | nil =>
    have hnil : ∀ mask set, hits mask set [] = 0 ∧ added mask [] set = set := by
      rintro mask (_ | set)
      · exact ⟨rfl, rfl⟩
      · exact ⟨rfl, congrArg some (Finset.union_empty set)⟩
    intro ret s
    rw [(hnil _ _).1, (hnil _ _).1, (hnil _ _).1, (hnil _ _).2, (hnil _ _).2, (hnil _ _).2,
      List.foldl_nil]
    simp
  | cons p ps ih =>
    intro ret s
    obtain ⟨n₁, readfds, hfd₁, hn₁, hset₁⟩ :=
      @fdSet_eq (pollIn ||| pollHup) ps p ret s.readfds
    obtain ⟨n₂, writefds, hfd₂, hn₂, hset₂⟩ :=
      @fdSet_eq pollOut ps p (ret + (n₁ : Nat)) s.writefds
    obtain ⟨n₃, exceptfds, hfd₃, hn₃, hset₃⟩ :=
      @fdSet_eq pollErr ps p (ret + (n₁ : Nat) + (n₂ : Nat)) s.exceptfds
    have hreport : report (ret, s) p =
        (ret + (n₁ : Nat) + (n₂ : Nat) + (n₃ : Nat), { readfds, writefds, exceptfds }) := by
      rw [report]
      dsimp only
      rw [hfd₁]
      dsimp only
      rw [hfd₂]
      dsimp only
      rw [hfd₃]
    rw [List.foldl_cons, hreport, ih, ← hn₁, ← hn₂, ← hn₃, ← hset₁, ← hset₂, ← hset₃]
    congr 1
    push_cast
    omega

variable {set : Option FdSet}

/-- A set of the result is in the set of the call, if what is added is. -/
theorem within_added :
    Within set (added mask ps (set.map (fdszero · nfds))) ↔
      ∀ p ∈ ps, p.revents &&& mask ≠ 0 → ∀ x ∈ set, p.fd ∈ x := by
  cases set with
  | none => exact iff_of_true ⟨rfl, Finset.Subset.refl _⟩ fun _ _ _ x hx => by cases hx
  | some set =>
    simp only [Within, added, Option.map_some, Option.isSome_some, Option.getD_some, true_and,
      Finset.union_subset_iff, Option.mem_some_iff, forall_eq']
    constructor
    · rintro ⟨-, h⟩ p hp hmask
      exact h (mem_withEvents.2 ⟨p, hp, hmask, rfl⟩)
    · refine fun h => ⟨fdszero_subset, fun fd hfd => ?_⟩
      obtain ⟨p, hp, hmask, rfl⟩ := mem_withEvents.1 hfd
      exact h p hp hmask

theorem card_withEvents (hnodup : (ps.map PollFd.fd).Nodup) :
    (withEvents mask ps).card = ps.countP fun p => p.revents &&& mask ≠ 0 := by
  rw [withEvents, List.toFinset_card_of_nodup, List.length_map, List.countP_eq_length_filter]
  exact hnodup.sublist (List.filter_sublist.map _)

/-- No descriptor that is added is there, and each is counted once. -/
theorem card_added (hnodup : (ps.map PollFd.fd).Nodup) (hlt : ∀ p ∈ ps, (p.fd : Int) < nfds) :
    ((added mask ps (set.map (fdszero · nfds))).getD ∅).card =
      ((set.map (fdszero · nfds)).getD ∅).card + hits mask set ps := by
  cases set with
  | none => rfl
  | some set =>
    have hdisjoint : Disjoint (fdszero set nfds) (withEvents mask ps) := by
      rw [Finset.disjoint_right]
      intro fd hfd
      obtain ⟨p, hp, -, rfl⟩ := mem_withEvents.1 hfd
      exact not_mem_fdszero (hlt p hp)
    simp only [added, hits, Option.map_some, Option.getD_some, Option.isSome_some, if_true]
    rw [Finset.card_union_of_disjoint hdisjoint, card_withEvents hnodup]

theorem hits_map (f : FdSet → FdSet) : hits mask (set.map f) ps = hits mask set ps := by
  rw [hits, hits, Option.isSome_map]

theorem hits_pos : 0 < hits mask set ps ↔
    ∃ p ∈ ps, set.isSome = true ∧ p.revents &&& mask ≠ 0 := by
  unfold hits
  split
  case isTrue h => simp [List.countP_pos_iff, h]
  case isFalse h => simp [h]

end Sets

theorem mem_of_fdIsSet {fd : Nat} {set : Option FdSet} (h : fdIsSet fd set = true) :
    ∀ x ∈ set, fd ∈ x := by
  rintro x rfl
  exact of_decide_eq_true h

-- --------
-- The array
-- --------

section Array

variable {isOpen : Nat → Prop} {nfds : Int} {s : FdSets} {m : Int} {r : PollResult}
  (hpoll : PollSpec isOpen (s.pollset nfds) m r)

include hpoll

theorem fds_map : r.fds.map PollFd.fd = (List.range nfds.toNat).filter s.monitored := by
  have h := congrArg (List.map Prod.fst) hpoll.same
  rw [List.map_map, List.map_map, FdSets.pollset, List.map_map] at h
  exact h.trans (List.map_id _)

theorem fds_nodup : (r.fds.map PollFd.fd).Nodup := by
  rw [fds_map hpoll]
  exact List.nodup_range.filter _

theorem mem_fds {fd : Nat} : fd ∈ r.fds.map PollFd.fd ↔ (fd : Int) < nfds ∧ s.monitored fd = true := by
  rw [fds_map hpoll, List.mem_filter, List.mem_range]
  refine and_congr_left fun _ => ?_
  omega

theorem fd_lt : ∀ p ∈ r.fds, (p.fd : Int) < nfds := fun _ hp =>
  ((mem_fds hpoll).1 (List.mem_map_of_mem hp)).1

/-- The entries ask for what the sets ask for. -/
theorem fds_events {p : PollFd} (hp : p ∈ r.fds) : p.events = (s.entry p.fd).events := by
  have hmem : (p.fd, p.events) ∈ r.fds.map fun p => (p.fd, p.events) :=
    List.mem_map_of_mem (f := fun p : PollFd => (p.fd, p.events)) hp
  rw [hpoll.same, FdSets.pollset, List.map_map, List.mem_map] at hmem
  obtain ⟨fd, -, heq⟩ := hmem
  obtain ⟨rfl, hevents⟩ := Prod.mk.inj heq
  exact hevents.symm

/-- An event that was not asked for is not there. -/
theorem absent {p : PollFd} {mask : Events} (h : 0 ≤ r.ret) (hp : p ∈ r.fds) (hopen : isOpen p.fd)
    (hmask : ~~~((s.entry p.fd).events ||| pollErr ||| pollHup) &&& mask = mask) :
    p.revents &&& mask = 0 := by
  have hasked := hpoll.asked h p hp hopen
  rw [fds_events hpoll hp] at hasked
  rw [← hmask, ← BitVec.and_assoc, hasked]
  exact BitVec.zero_and

theorem of_pollIn {p : PollFd} (h : 0 ≤ r.ret) (hp : p ∈ r.fds) (hopen : isOpen p.fd)
    (hin : p.revents &&& pollIn ≠ 0) : fdIsSet p.fd s.readfds = true := by
  by_contra hnot
  refine hin (absent hpoll h hp hopen ?_)
  rw [FdSets.entry]
  dsimp only
  rw [if_neg hnot]
  split
  case isTrue => decide
  case isFalse => decide

theorem of_pollOut {p : PollFd} (h : 0 ≤ r.ret) (hp : p ∈ r.fds) (hopen : isOpen p.fd)
    (hout : p.revents &&& pollOut ≠ 0) : fdIsSet p.fd s.writefds = true := by
  by_contra hnot
  refine hout (absent hpoll h hp hopen ?_)
  rw [FdSets.entry]
  dsimp only
  rw [if_neg hnot]
  split
  case isTrue => decide
  case isFalse => decide

/-- Where all descriptors are open, what goes back to the sets is in them if that is so for the
descriptors that hang up and for those with an error. -/
theorem within_iff (h : 0 ≤ r.ret) (hopen : ∀ p ∈ r.fds, isOpen p.fd) :
    (Within s.readfds (added (pollIn ||| pollHup) r.fds (s.zeroed nfds).readfds) ∧
      Within s.writefds (added pollOut r.fds (s.zeroed nfds).writefds) ∧
      Within s.exceptfds (added pollErr r.fds (s.zeroed nfds).exceptfds)) ↔
    (∀ p ∈ r.fds, p.revents &&& pollHup ≠ 0 → ∀ x ∈ s.readfds, p.fd ∈ x) ∧
      ∀ p ∈ r.fds, p.revents &&& pollErr ≠ 0 → ∀ x ∈ s.exceptfds, p.fd ∈ x := by
  rw [FdSets.zeroed]
  dsimp only
  rw [within_added, within_added, within_added]
  constructor
  · rintro ⟨hread, -, hexcept⟩
    refine ⟨fun p hp hhup => hread p hp fun hzero => hhup ?_, hexcept⟩
    rw [BitVec.and_or_distrib_left] at hzero
    exact (BitVec.or_eq_zero_iff.1 hzero).2
  · rintro ⟨hhup, herr⟩
    refine ⟨fun p hp hmask => ?_, fun p hp hout =>
      mem_of_fdIsSet (of_pollOut hpoll h hp (hopen p hp) hout), herr⟩
    by_cases hin : p.revents &&& pollIn = 0
    · refine hhup p hp fun hzero => hmask ?_
      rw [BitVec.and_or_distrib_left, hin, hzero]
      rfl
    · exact mem_of_fdIsSet (of_pollIn hpoll h hp (hopen p hp) hin)

end Array

-- --------
-- The call
-- --------

theorem Timeval.usecs_eq (t : Timeval) :
    t.usecs = (t.tvSec * 1000 + t.tvUsec / 1000) * 1000 + t.tvUsec % 1000 := by
  rw [Timeval.usecs, Nat.add_mul, Nat.add_assoc, Nat.div_add_mod']

theorem toInt_ms {ms rest usecs : Nat} (hrest : rest < 1000) (h : usecs = ms * 1000 + rest) :
    toInt (ms : Nat) * 1000 ≤ usecs ∧ (usecs : Int) < toInt (ms : Nat) * 1000 + 1000 ↔
      ms < 2 ^ 31 := by
  have hlt : toInt (ms : Nat) < 2 ^ 31 := Int.bmod_lt (by decide)
  constructor
  · rintro ⟨-, hle⟩
    omega
  · intro hms
    rw [toInt_of_fits (by omega) (by omega)]
    omega

/-- The time that `poll` is given is the one of the call if the milliseconds fit. -/
theorem lasts_msec {timeout : Option Timeval} :
    Lasts timeout (msec timeout) ↔ ∀ t ∈ timeout, t.tvSec * 1000 + t.tvUsec / 1000 < 2 ^ 31 := by
  cases timeout with
  | none => exact iff_of_true (show (-1 : Int) < 0 by decide) fun t ht => by cases ht
  | some t =>
    simp only [Option.mem_some_iff, forall_eq']
    exact toInt_ms (Nat.mod_lt _ (by decide)) t.usecs_eq

variable {isOpen : Nat → Prop} {calloc : Bool} {poll : List PollFd → Int → PollResult} {nfds : Int}
  {s : FdSets} {timeout : Option Timeval} {r : PollResult}

theorem lasts_polled {o : Outcome} (h : o.polled = some (msec timeout, r)) :
    (∀ m r, o.polled = some (m, r) → Lasts timeout m) ↔
      ∀ t ∈ timeout, t.tvSec * 1000 + t.tvUsec / 1000 < 2 ^ 31 := by
  refine Iff.trans ⟨fun hall => hall _ _ h, fun hone m r' hm => ?_⟩ lasts_msec
  obtain ⟨rfl, -⟩ := Prod.mk.inj (Option.some.inj (h.symm.trans hm))
  exact hone

/-- No array: an error, and nothing has changed. -/
theorem meets_unallocated : Meets isOpen nfds s timeout ⟨-1, s, none⟩ where
  within :=
    ⟨⟨rfl, Finset.Subset.refl _⟩, ⟨rfl, Finset.Subset.refl _⟩, ⟨rfl, Finset.Subset.refl _⟩⟩
  count h := absurd h (show ¬(0 : Int) ≤ -1 by decide)
  passed h := absurd h (show ¬(-1 : Int) = 0 by decide)
  closed _ := show (-1 : Int) < 0 by decide
  duration m r h := by cases h

theorem within_zeroed :
    Within s.readfds (s.zeroed nfds).readfds ∧ Within s.writefds (s.zeroed nfds).writefds ∧
      Within s.exceptfds (s.zeroed nfds).exceptfds := by
  have h : ∀ set : Option FdSet, Within set (set.map (fdszero · nfds)) := by
    rintro (_ | set)
    · exact ⟨rfl, Finset.Subset.refl _⟩
    · exact ⟨rfl, fdszero_subset⟩
  exact ⟨h _, h _, h _⟩

/-- `poll` has failed. -/
theorem meets_error (hret : r.ret < 0) :
    Meets isOpen nfds s timeout ⟨r.ret, s.zeroed nfds, some (msec timeout, r)⟩ ↔
      Cond isOpen nfds s timeout r := by
  constructor
  · intro h
    exact ⟨(lasts_polled rfl).1 h.duration, fun h => by omega, fun h => by omega,
      fun h => by omega⟩
  · intro h
    exact ⟨within_zeroed, fun h => absurd h (by dsimp only; omega),
      fun h => absurd h (by dsimp only; omega), fun _ => hret, (lasts_polled rfl).2 h.fits⟩

/-- `poll` has found nothing. -/
theorem meets_nothing (hpoll : PollSpec isOpen (s.pollset nfds) (msec timeout) r)
    (hret : r.ret = 0) :
    Meets isOpen nfds s timeout ⟨r.ret, s.zeroed nfds, some (msec timeout, r)⟩ ↔
      Cond isOpen nfds s timeout r := by
  have hcount : (r.fds.countP fun p => p.revents ≠ 0 : Nat) = (0 : Int) :=
    (hpoll.count (by omega)).symm.trans hret
  have hnone : ∀ p ∈ r.fds, p.revents = 0 := by
    intro p hp
    have hzero := List.countP_eq_zero.1 (Int.natCast_eq_zero.1 hcount) p hp
    simpa using hzero
  obtain ⟨hmsec, hpassed⟩ := hpoll.passed hret
  constructor
  · intro h
    refine ⟨(lasts_polled rfl).1 h.duration, fun _ => ?_, fun _ t ht => ?_, fun h => by omega⟩
    · have hbits := h.count (by dsimp only; omega)
      dsimp only at hbits
      omega
    · obtain ⟨t', m, r', rfl, hpolled, hwaited, -⟩ := h.passed hret
      obtain rfl := Option.some.inj ht
      obtain ⟨-, rfl⟩ := Prod.mk.inj (Option.some.inj hpolled)
      rw [Timeval.usecs_eq] at hwaited
      exact hwaited
  · intro h
    refine ⟨within_zeroed, fun _ => ?_, fun _ => ?_, ?_, (lasts_polled rfl).2 h.fits⟩
    · have hbits := h.zeroed (by omega)
      dsimp only
      rw [hbits, hret]
      rfl
    · cases timeout with
      | none => exact absurd hmsec (by decide)
      | some t =>
        have hwaited := h.waited hret t rfl
        rw [← Timeval.usecs_eq] at hwaited
        exact ⟨t, _, r, rfl, rfl, hwaited, hnone⟩
    · rintro ⟨fd, hlt, hmonitored, hclosed⟩
      obtain ⟨p, hp, rfl⟩ := List.mem_map.1 ((mem_fds hpoll).2 ⟨hlt, hmonitored⟩)
      have hnval := hpoll.closed (by omega) p hp hclosed
      rw [hnone p hp] at hnval
      cases hnval

/-- What the loop makes of the entries: the count is that of the bits it has added, and it is not 0
if one of the sets shows one of them. -/
theorem report_spec (hpoll : PollSpec isOpen (s.pollset nfds) (msec timeout) r)
    {ret : Int} {sets : FdSets} (hloop : r.fds.foldl report (0, s.zeroed nfds) = (ret, sets)) :
    ∃ n : Nat, ret = n ∧ (0 < n ↔ ∃ p ∈ r.fds, s.Shows p) ∧ sets.bits = (s.zeroed nfds).bits + n ∧
      sets =
        { readfds := added (pollIn ||| pollHup) r.fds (s.zeroed nfds).readfds
          writefds := added pollOut r.fds (s.zeroed nfds).writefds
          exceptfds := added pollErr r.fds (s.zeroed nfds).exceptfds } := by
  rw [foldl_report, Int.zero_add] at hloop
  obtain ⟨rfl, rfl⟩ := Prod.mk.inj hloop
  have hnodup := fds_nodup hpoll
  have hlt := fd_lt hpoll
  refine ⟨_, rfl, ?_, ?_, rfl⟩
  · dsimp only [FdSets.zeroed]
    rw [hits_map, hits_map, hits_map, Nat.add_pos_iff_pos_or_pos, Nat.add_pos_iff_pos_or_pos,
      hits_pos, hits_pos, hits_pos, or_assoc]
    constructor
    · rintro (⟨p, hp, h⟩ | ⟨p, hp, h⟩ | ⟨p, hp, h⟩)
      · exact ⟨p, hp, .inl h⟩
      · exact ⟨p, hp, .inr (.inl h)⟩
      · exact ⟨p, hp, .inr (.inr h)⟩
    · rintro ⟨p, hp, h | h | h⟩
      · exact .inl ⟨p, hp, h⟩
      · exact .inr (.inl ⟨p, hp, h⟩)
      · exact .inr (.inr ⟨p, hp, h⟩)
  · dsimp only [FdSets.bits, FdSets.zeroed]
    rw [card_added hnodup hlt, card_added hnodup hlt, card_added hnodup hlt, hits_map, hits_map,
      hits_map]
    omega

/-- `poll` has found something. -/
theorem meets_found (hpoll : PollSpec isOpen (s.pollset nfds) (msec timeout) r) (hret : 0 < r.ret)
    {ret : Int} {sets : FdSets} (hloop : r.fds.foldl report (0, s.zeroed nfds) = (ret, sets)) :
    Meets isOpen nfds s timeout ⟨ret, sets, some (msec timeout, r)⟩ ↔
      Cond isOpen nfds s timeout r := by
  obtain ⟨n, rfl, hpos, hbits, hsets⟩ := report_spec hpoll hloop
  have hnonneg : (0 : Int) ≤ (n : Nat) := Int.natCast_nonneg n
  constructor
  · intro h
    have hopen : ∀ p ∈ r.fds, isOpen p.fd := by
      intro p hp
      by_contra hclosed
      have hneg := h.closed ⟨p.fd, ((mem_fds hpoll).1 (List.mem_map_of_mem hp)).1,
        ((mem_fds hpoll).1 (List.mem_map_of_mem hp)).2, hclosed⟩
      exact absurd hneg (Int.not_lt.2 hnonneg)
    have hwithin := h.within
    rw [hsets] at hwithin
    obtain ⟨hhup, herr⟩ := (within_iff hpoll hret.le hopen).1 hwithin
    refine ⟨(lasts_polled rfl).1 h.duration, fun _ => ?_, fun h => by omega,
      fun _ => ⟨hopen, hhup, herr, ?_⟩⟩
    · have hcount := h.count hnonneg
      dsimp only at hcount
      rw [hbits] at hcount
      omega
    · rw [← hpos]
      by_contra hzero
      -- the events of the entries are none that a given set shows
      obtain ⟨t, m, r', -, hpolled, -, hnone⟩ := h.passed (by dsimp only; omega)
      obtain ⟨-, rfl⟩ := Prod.mk.inj (Option.some.inj hpolled)
      have hcount := hpoll.count hret.le
      rw [List.countP_eq_zero.2 fun p hp => by simp [hnone p hp]] at hcount
      omega
  · intro h
    obtain ⟨hopen, hhup, herr, hshown⟩ := h.found hret
    refine ⟨?_, fun _ => ?_, fun hzero => ?_, ?_, (lasts_polled rfl).2 h.fits⟩
    · rw [hsets]
      exact (within_iff hpoll hret.le hopen).2 ⟨hhup, herr⟩
    · dsimp only
      rw [hbits, h.zeroed hret.le, Nat.zero_add]
    · have hn := hpos.2 hshown
      dsimp only at hzero
      omega
    · rintro ⟨fd, hlt, hmonitored, hclosed⟩
      obtain ⟨p, hp, rfl⟩ := List.mem_map.1 ((mem_fds hpoll).2 ⟨hlt, hmonitored⟩)
      exact absurd (hopen p hp) hclosed

/-- **When `select` does what is asked.** Whatever the sets, the time and the descriptors that are
open: if there is no array, or if the condition holds of what `poll` returns, and only then. -/
theorem select_meets
    (hpoll : PollSpec isOpen (s.pollset nfds) (msec timeout)
      (poll (s.pollset nfds) (msec timeout))) :
    Meets isOpen nfds s timeout (select calloc poll nfds s timeout) ↔
      ((s.pollset nfds).length > 0 ∧ calloc = false) ∨
        Cond isOpen nfds s timeout (poll (s.pollset nfds) (msec timeout)) := by
  rw [select]
  split
  case isTrue h => exact iff_of_true meets_unallocated (.inl h)
  case isFalse h =>
    rw [or_iff_right h]
    dsimp only
    split
    case isTrue hret => exact meets_found hpoll hret rfl
    case isFalse hret =>
      rcases Int.lt_or_eq_of_le (Int.not_lt.1 hret) with hlt | heq
      · exact meets_error hlt
      · exact meets_nothing hpoll heq

/-- A `poll` that finds data at once, whatever it is asked for. -/
def pollData (fds : List PollFd) (_ : Int) : PollResult :=
  ⟨fds.length, fds.map fun p => { p with revents := pollIn }, 0⟩

/-- A descriptor with data, which is in the read set. -/
theorem select_meets_read :
    Meets (fun _ => True) 3 ⟨some {2}, none, none⟩ (some ⟨1, 500⟩)
      (select true pollData 3 ⟨some {2}, none, none⟩ (some ⟨1, 500⟩)) := by
  refine (select_meets ⟨by decide +kernel, fun _ => by decide +kernel,
    fun _ _ _ h => absurd trivial h, fun _ => by decide +kernel, by decide +kernel⟩).2 (.inr ?_)
  exact ⟨by decide +kernel, by decide +kernel, by decide +kernel,
    fun _ => ⟨fun _ _ => trivial, by decide +kernel, by decide +kernel, by
      refine ⟨⟨2, pollIn, pollIn⟩, by decide +kernel, .inl ⟨rfl, by decide⟩⟩⟩⟩

/-- A `poll` that finds at once that the other side has gone. -/
def pollHangUp (fds : List PollFd) (_ : Int) : PollResult :=
  ⟨fds.length, fds.map fun p => { p with revents := pollOut ||| pollHup }, 0⟩

/-- **A descriptor that is only in the write set** comes back in the read set. -/
theorem select_hangUp :
    ¬ ∀ (isOpen : Nat → Prop) (calloc : Bool) (poll : List PollFd → Int → PollResult) (nfds : Int)
      (s : FdSets) (timeout : Option Timeval),
      PollSpec isOpen (s.pollset nfds) (msec timeout) (poll (s.pollset nfds) (msec timeout)) →
        Meets isOpen nfds s timeout (select calloc poll nfds s timeout) := by
  intro h
  have hmeets := h (fun _ => True) true pollHangUp 1 ⟨some ∅, some {0}, none⟩ none
    ⟨by decide +kernel, fun _ => by decide +kernel, fun _ _ _ h => absurd trivial h,
      fun _ => by decide +kernel, by decide +kernel⟩
  exact absurd hmeets.within.1.2 (by decide +kernel)

end RTThread.Select
