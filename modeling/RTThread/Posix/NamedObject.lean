import RTThread.Lib.Registry
import RTThread.Lib.Runs
import RTThread.Rtdef
import Mathlib.Data.List.Nodup

/-!
# Named message queues and semaphores (`components/libc/posix/ipc`)

Message queues and semaphores are each in a list of their own, under the name of their kernel
object, of which a field of sixteen bytes is kept. A call with a name takes the first entry whose
field agrees. It does not look at the `unlinked` flag, and an open with `O_CREAT` and without
`O_EXCL` does not look at the list at all. The references are counted in sixteen bits.

`posix_ipc`: a sequence of calls does what it would with names that are a map and counts that are
numbers if and only if every name finds the entry it stands for, an open with `O_CREAT` alone finds
its name free, and no count reaches its end.
-/

namespace RTThread.Posix

-- --------
-- The code
-- --------

/-- `RT_NAME_MAX` -/
def rtNameMax : Nat := 16

/-- A string. -/
abbrev CName := { cs : List Char // '\x00' ∉ cs }

/-- `rt_strncpy(object->name, name, RT_NAME_MAX)` -/
def nameField (name : CName) : List Char := (name.1.take rtNameMax).rightpad rtNameMax '\x00'

/-- `strncmp(cs, ct, count) == 0` -/
def strncmpEq : Nat → List Char → List Char → Bool
  | 0, _, _ => true
  | count + 1, cs, ct =>
    let c := cs.headD '\x00'
    let d := ct.headD '\x00'
    c = d && (c = '\x00' || strncmpEq count cs.tail ct.tail)

/-- `struct mqdes` and `struct posix_sem`, and the name of the kernel object. -/
structure PosixObject where
  id : Nat
  name : List Char
  refcount : Nat
  unlinked : Bool
deriving DecidableEq

/-- `posix_mq_list` and `posix_sem_list`, the next address, and what was deleted. -/
structure PosixList where
  list : List PosixObject
  next : Nat
  deleted : List Nat

structure IpcFlags where
  creat : Bool
  excl : Bool

/-- Whether there is memory for the descriptor, and for the kernel object. -/
structure IpcMem where
  desc : Bool
  object : Bool

inductive IpcErr
  | eexist
  | enfile
  | enoent
deriving DecidableEq

inductive IpcOut
  | opened (id : Nat)
  | done
  | failed (e : IpcErr)

namespace PosixList

variable (s : PosixList)

def empty : PosixList := ⟨[], 0, []⟩

/-- `posix_mq_find` and `posix_sem_find` -/
def find (name : CName) : Option PosixObject :=
  s.list.find? fun e => strncmpEq rtNameMax e.name name.1

/-- The object changes. -/
def setObject (id : Nat) (f : PosixObject → PosixObject) : PosixList :=
  { s with list := s.list.map fun e => if e.id = id then f e else e }

/-- `posix_mq_delete` and `posix_sem_delete` -/
def delete (id : Nat) : PosixList :=
  { s with list := s.list.filter fun e => e.id ≠ id, deleted := s.deleted ++ [id] }

/-- A new object, in front of the others. -/
def insert (name : CName) : PosixList :=
  { s with list := ⟨s.next, nameField name, 1, false⟩ :: s.list, next := s.next + 1 }

/-- `mq_open` and `sem_open` -/
def openObject (name : CName) (flags : IpcFlags) (mem : IpcMem) : IpcOut × PosixList :=
  if flags.creat then
    if flags.excl ∧ (s.find name).isSome then (.failed .eexist, s)
    else if mem.desc ∧ mem.object then (.opened s.next, s.insert name)
    else (.failed .enfile, s)
  else
    match s.find name with
    | some e => (.opened e.id, s.setObject e.id fun e => { e with refcount := u16 (e.refcount + 1) })
    | none => (.failed .enoent, s)

/-- `mq_close` and `sem_close`, of an object that is there. -/
def closeObject (id : Nat) : Except Fault (IpcOut × PosixList) := do
  let e ← deref (s.list.find? fun e => e.id = id)
  let refcount := u16 (e.refcount + 65535)
  let s := s.setObject id fun e => { e with refcount }
  if refcount = 0 ∧ e.unlinked then return (.done, s.delete id)
  else return (.done, s)

/-- `mq_unlink` and `sem_unlink` -/
def unlinkObject (name : CName) : IpcOut × PosixList :=
  match s.find name with
  | some e =>
    let s := s.setObject e.id fun e => { e with unlinked := true }
    (.done, if e.refcount = 0 then s.delete e.id else s)
  | none => (.failed .enoent, s)

end PosixList

/-- The calls on one of the lists. -/
inductive IpcAct
  | open (name : CName) (flags : IpcFlags) (mem : IpcMem)
  | close (id : Nat)
  | unlink (name : CName)

def PosixList.call (s : PosixList) : IpcAct → Except Fault (IpcOut × PosixList)
  | .open name flags mem => return s.openObject name flags mem
  | .close id => s.closeObject id
  | .unlink name => return s.unlinkObject name

-- --------
-- The names as a map
-- --------

/-- Opening an object by its name. -/
def regOpen (r : Registry CName) (name : CName) (flags : IpcFlags) (mem : IpcMem) :
    IpcOut × Registry CName :=
  match r.named name with
  | some id => if flags.creat ∧ flags.excl then (.failed .eexist, r) else (.opened id, r.addRef id)
  | none =>
    if flags.creat then
      if mem.desc ∧ mem.object then (.opened r.next, r.create name) else (.failed .enfile, r)
    else (.failed .enoent, r)

def regUnlink (r : Registry CName) (name : CName) : IpcOut × Registry CName :=
  match r.named name with
  | some id => (.done, r.dropName name id)
  | none => (.failed .enoent, r)

def regCall (r : Registry CName) : IpcAct → IpcOut × Registry CName
  | .open name flags mem => regOpen r name flags mem
  | .close id => (.done, r.dropRef id)
  | .unlink name => regUnlink r name

/-- What is closed is a reference that the caller has. -/
def Held (r : Registry CName) : IpcAct → Prop
  | .close id => 0 < r.refs id
  | _ => True

instance (r : Registry CName) (a : IpcAct) : Decidable (Held r a) := by
  cases a <;> unfold Held <;> infer_instance

/-- The list has the objects of the registry that are alive, with their counts. -/
structure Refines (s : PosixList) (r : Registry CName) : Prop where
  next : s.next = r.next
  deleted : s.deleted = r.destroyed
  refs : ∀ e ∈ s.list, e.refcount = r.refs e.id
  unlinked : ∀ e ∈ s.list, e.unlinked = (r.nameOf e.id).isNone
  alive : ∀ id, r.Alive id ↔ ∃ e ∈ s.list, e.id = id

-- --------
-- The system
-- --------

inductive IpcKind
  | mqueue
  | semaphore
deriving DecidableEq

/-- Both lists, and what the calls should have made of them. -/
abbrev PosixIpc := IpcKind → PosixList × Registry CName

namespace PosixIpc

/-- A call, and what it should do. -/
def exec1 (p : PosixList × Registry CName) (a : IpcAct) : Option (PosixList × Registry CName) :=
  if Held p.2 a then
    match p.1.call a with
    | .ok (_, s) => some (s, (regCall p.2 a).2)
    | .error _ => none
  else none

def exec (p : PosixIpc) (a : IpcKind × IpcAct) : Option PosixIpc :=
  (exec1 (p a.1) a.2).map (Function.update p a.1)

/-- The call returns what it should, and the list is what it should be. -/
def Good1 (p : PosixList × Registry CName) (a : IpcAct) : Prop :=
  Held p.2 a → ∃ out s, p.1.call a = .ok (out, s) ∧ out = (regCall p.2 a).1 ∧
    Refines s (regCall p.2 a).2

/-- **A call does what it should.** -/
def Good (p : PosixIpc) (a : IpcKind × IpcAct) : Prop := Good1 (p a.1) a.2

/-- The first entry that agrees with a name is the one that the name stands for. -/
def Finds (s : PosixList) (r : Registry CName) (name : CName) : Prop :=
  ∀ e, s.find name = some e → e.unlinked = false ∧ r.nameOf e.id = some name

/-- The condition on a call. -/
def Fits1 (p : PosixList × Registry CName) : IpcAct → Prop
  | .open name flags _ =>
    if flags.creat then
      if flags.excl then (p.1.find name).isSome → (p.2.named name).isSome
      else p.2.named name = none
    else Finds p.1 p.2 name ∧ ∀ e, p.1.find name = some e → e.refcount < 65535
  | .close _ => True
  | .unlink name => Finds p.1 p.2 name

/-- **The condition**: an open with `O_CREAT` alone finds the name free, one with `O_EXCL` finds no
entry but one of the same name, and every other call with a name finds the entry of this name, or
none; an open does not find a count at its end. -/
def Fits (p : PosixIpc) (a : IpcKind × IpcAct) : Prop := Fits1 (p a.1) a.2

def start : PosixIpc := fun _ => (.empty, .empty)

end PosixIpc

-- --------
-- Names
-- --------

/-- Comparing a padded field is comparing the characters it has. -/
theorem strncmpEq_pad : ∀ (n k : Nat) {xs ys : List Char}, '\x00' ∉ xs → '\x00' ∉ ys →
    strncmpEq n (xs.take n ++ List.replicate k '\x00') ys = decide (xs.take n = ys.take n)
  | 0, _, _, _, _, _ => by simp [strncmpEq]
  | n + 1, k, [], [], _, _ => by
    cases k <;> simp [strncmpEq, List.replicate_succ]
  | n + 1, k, [], y :: ys, _, hy => by
    have hne : '\x00' ≠ y := fun h => hy (by rw [h]; exact List.mem_cons_self)
    cases k <;> simp [strncmpEq, List.replicate_succ, hne]
  | n + 1, k, x :: xs, [], hx, _ => by
    have hne : x ≠ '\x00' := fun h => hx (by rw [h]; exact List.mem_cons_self)
    simp [strncmpEq, hne]
  | n + 1, k, x :: xs, y :: ys, hx, hy => by
    have hne : x ≠ '\x00' := fun h => hx (by rw [h]; exact List.mem_cons_self)
    have ih := strncmpEq_pad n k (fun h => hx (List.mem_cons_of_mem _ h))
      fun h => hy (List.mem_cons_of_mem _ h)
    by_cases hxy : x = y
    · subst hxy
      simp [strncmpEq, ih, hne]
    · simp [strncmpEq, hxy]

theorem strncmpEq_field (name name' : CName) :
    strncmpEq rtNameMax (nameField name) name'.1 =
      decide (name.1.take rtNameMax = name'.1.take rtNameMax) := by
  rw [nameField, List.rightpad]
  exact strncmpEq_pad rtNameMax _ name.2 name'.2

-- --------
-- The lists
-- --------

namespace PosixIpc

variable {s s' : PosixList} {r : Registry CName} {e e' : PosixObject} {name : CName} {id : Nat}

/-- **The invariant** of a list and its registry, as long as the condition was met. -/
structure Inv1 (s : PosixList) (r : Registry CName) : Prop extends Refines s r where
  sound : r.Sound
  nodup : (s.list.map PosixObject.id).Nodup
  field : ∀ e ∈ s.list, ∀ n, r.nameOf e.id = some n → e.name = nameField n
  small : ∀ id, r.refs id < 65536

theorem inv1_empty : Inv1 .empty .empty :=
  { next := rfl
    deleted := rfl
    refs := nofun
    unlinked := nofun
    alive := fun id => iff_of_false (fun h => by rcases h with h | h <;> cases h)
      (by rintro ⟨e, he, -⟩; cases he)
    sound := Registry.sound_empty
    nodup := List.nodup_nil
    field := nofun
    small := fun _ => Nat.zero_lt_succ _ }

theorem Inv1.eq_of_id (h : Inv1 s r) (he : e ∈ s.list) (he' : e' ∈ s.list) (hid : e.id = e'.id) :
    e = e' :=
  List.inj_on_of_nodup_map h.nodup he he' hid

theorem Inv1.below (h : Inv1 s r) (he : e ∈ s.list) : e.id < r.next :=
  h.sound.below _ ((h.alive _).2 ⟨e, he, rfl⟩)

theorem find_mem (hfind : s.find name = some e) : e ∈ s.list := List.mem_of_find?_eq_some hfind

theorem Inv1.find_isSome (h : Inv1 s r) (hn : r.named name = some id) :
    (s.find name).isSome = true := by
  have hname := (h.sound.inverse name id).1 hn
  have halive : r.Alive id := Or.inl (by rw [hname]; rfl)
  obtain ⟨e, he, rfl⟩ := (h.alive id).1 halive
  rw [PosixList.find, List.find?_isSome]
  refine ⟨e, he, ?_⟩
  rw [h.field e he name hname, strncmpEq_field, decide_eq_true_eq]

theorem Inv1.named_none (h : Inv1 s r) (hfind : s.find name = none) : r.named name = none := by
  by_contra hne
  obtain ⟨id, hn⟩ := Option.ne_none_iff_exists'.1 hne
  have := h.find_isSome hn
  rw [hfind] at this
  cases this

theorem Inv1.named_some (h : Inv1 s r) (hfinds : Finds s r name) (hfind : s.find name = some e) :
    r.named name = some e.id :=
  (h.sound.inverse name e.id).2 (hfinds e hfind).2

theorem mem_setObject {f : PosixObject → PosixObject} :
    e' ∈ (s.setObject id f).list ↔ ∃ e ∈ s.list, e' = if e.id = id then f e else e := by
  simp only [PosixList.setObject, List.mem_map, eq_comm]

theorem setObject_ids {f : PosixObject → PosixObject} (hf : ∀ e, (f e).id = e.id) :
    (s.setObject id f).list.map PosixObject.id = s.list.map PosixObject.id := by
  rw [PosixList.setObject, List.map_map]
  refine List.map_congr_left fun e _ => ?_
  change (if e.id = id then f e else e).id = e.id
  split
  · exact hf e
  · rfl

theorem mem_delete : e ∈ (s.delete id).list ↔ e ∈ s.list ∧ e.id ≠ id := by
  simp [PosixList.delete]

-- --------
-- The calls
-- --------

theorem Inv1.insert (h : Inv1 s r) (hn : r.named name = none) :
    Inv1 (s.insert name) (r.create name) := by
  have hne : ∀ e ∈ s.list, e.id ≠ r.next := fun e he => Nat.ne_of_lt (h.below he)
  have hmem : ∀ e, e ∈ (s.insert name).list ↔ e = ⟨r.next, nameField name, 1, false⟩ ∨ e ∈ s.list := by
    intro e
    rw [PosixList.insert, List.mem_cons, h.next]
  refine
    { next := congrArg (· + 1) h.next
      deleted := h.deleted
      refs := fun e he => ?_
      unlinked := fun e he => ?_
      alive := fun id => ?_
      sound := h.sound.create hn
      nodup := ?_
      field := fun e he n hname => ?_
      small := fun id => ?_ }
  · rcases (hmem e).1 he with rfl | he
    · exact (Function.update_self r.next 1 r.refs).symm
    · exact (h.refs e he).trans (Function.update_of_ne (hne e he) 1 r.refs).symm
  · rcases (hmem e).1 he with rfl | he
    · change false = (Function.update r.nameOf r.next (some name) r.next).isNone
      rw [Function.update_self]
      rfl
    · change e.unlinked = (Function.update r.nameOf r.next (some name) e.id).isNone
      rw [Function.update_of_ne (hne e he)]
      exact h.unlinked e he
  · rw [Registry.alive_create, h.alive]
    constructor
    · rintro (rfl | ⟨e, he, rfl⟩)
      · exact ⟨_, (hmem _).2 (Or.inl rfl), rfl⟩
      · exact ⟨e, (hmem _).2 (Or.inr he), rfl⟩
    · rintro ⟨e, he, rfl⟩
      rcases (hmem e).1 he with rfl | he
      · exact Or.inl rfl
      · exact Or.inr ⟨e, he, rfl⟩
  · change (s.next :: s.list.map PosixObject.id).Nodup
    refine List.nodup_cons.2 ⟨fun hin => ?_, h.nodup⟩
    obtain ⟨e, he, heq⟩ := List.mem_map.1 hin
    exact hne e he (heq.trans h.next)
  · rcases (hmem e).1 he with rfl | he
    · change Function.update r.nameOf r.next (some name) r.next = some n at hname
      rw [Function.update_self] at hname
      cases hname
      rfl
    · change Function.update r.nameOf r.next (some name) e.id = some n at hname
      rw [Function.update_of_ne (hne e he)] at hname
      exact h.field e he n hname
  · change Function.update r.refs r.next 1 id < 65536
    by_cases hid : id = r.next
    · subst hid
      rw [Function.update_self]
      decide
    · rw [Function.update_of_ne hid]
      exact h.small id

/-- An entry changes its count or its flag, and the registry does the same. -/
theorem Inv1.setObject (h : Inv1 s r) {r' : Registry CName} {f : PosixObject → PosixObject}
    (hid : ∀ e, (f e).id = e.id) (hfield : ∀ e, (f e).name = e.name)
    (hnext : r'.next = r.next) (hdel : r'.destroyed = r.destroyed) (hsound : r'.Sound)
    (hrefs : ∀ i, i ≠ id → r'.refs i = r.refs i) (hname : ∀ i, i ≠ id → r'.nameOf i = r.nameOf i)
    (hsub : ∀ n, r'.nameOf id = some n → r.nameOf id = some n)
    (hset : ∀ e ∈ s.list, e.id = id → (f e).refcount = r'.refs id ∧
      (f e).unlinked = (r'.nameOf id).isNone)
    (halive : ∀ i, r'.Alive i ↔ r.Alive i) (hsmall : r'.refs id < 65536) :
    Inv1 (s.setObject id f) r' := by
  refine
    { next := h.next.trans hnext.symm
      deleted := h.deleted.trans hdel.symm
      refs := fun e he => ?_
      unlinked := fun e he => ?_
      alive := fun i => ?_
      sound := hsound
      nodup := by rw [setObject_ids hid]; exact h.nodup
      field := fun e he n hn => ?_
      small := fun i => ?_ }
  · obtain ⟨e, hmem, rfl⟩ := mem_setObject.1 he
    by_cases hi : e.id = id
    · rw [if_pos hi, hid, hi]
      exact (hset e hmem hi).1
    · rw [if_neg hi, hrefs _ hi]
      exact h.refs e hmem
  · obtain ⟨e, hmem, rfl⟩ := mem_setObject.1 he
    by_cases hi : e.id = id
    · rw [if_pos hi, hid, hi]
      exact (hset e hmem hi).2
    · rw [if_neg hi, hname _ hi]
      exact h.unlinked e hmem
  · rw [halive, h.alive]
    constructor
    · rintro ⟨e, he, rfl⟩
      refine ⟨_, mem_setObject.2 ⟨e, he, rfl⟩, ?_⟩
      split
      · exact hid e
      · rfl
    · rintro ⟨e', he', rfl⟩
      obtain ⟨e, he, rfl⟩ := mem_setObject.1 he'
      refine ⟨e, he, ?_⟩
      split
      · exact (hid e).symm
      · rfl
  · obtain ⟨e, hmem, rfl⟩ := mem_setObject.1 he
    by_cases hi : e.id = id
    · rw [if_pos hi, hid, hi] at hn
      rw [if_pos hi, hfield]
      exact h.field e hmem n (by rw [hi]; exact hsub n hn)
    · rw [if_neg hi, hname _ hi] at hn
      rw [if_neg hi]
      exact h.field e hmem n hn
  · by_cases hi : i = id
    · rw [hi]
      exact hsmall
    · rw [hrefs i hi]
      exact h.small i

/-- An entry is deleted, and its object has died. -/
theorem Inv1.delete (h : Inv1 s r) {r' : Registry CName} {f : PosixObject → PosixObject}
    (hid : ∀ e, (f e).id = e.id)
    (hnext : r'.next = r.next) (hdel : r'.destroyed = r.destroyed ++ [id]) (hsound : r'.Sound)
    (hrefs : ∀ i, i ≠ id → r'.refs i = r.refs i) (hname : ∀ i, i ≠ id → r'.nameOf i = r.nameOf i)
    (halive : ∀ i, r'.Alive i ↔ r.Alive i ∧ i ≠ id) (hsmall : r'.refs id < 65536) :
    Inv1 ((s.setObject id f).delete id) r' := by
  have hmem : ∀ e, e ∈ ((s.setObject id f).delete id).list ↔ e ∈ s.list ∧ e.id ≠ id := by
    intro e
    rw [mem_delete, mem_setObject]
    constructor
    · rintro ⟨⟨e, he, rfl⟩, hne⟩
      by_cases hi : e.id = id
      · rw [if_pos hi, hid] at hne
        exact absurd hi hne
      · rw [if_neg hi]
        exact ⟨he, hi⟩
    · rintro ⟨he, hne⟩
      exact ⟨⟨e, he, by rw [if_neg hne]⟩, hne⟩
  refine
    { next := h.next.trans hnext.symm
      deleted := by rw [hdel, ← h.deleted]; rfl
      refs := fun e he => ?_
      unlinked := fun e he => ?_
      alive := fun i => ?_
      sound := hsound
      nodup := ?_
      field := fun e he n hn => ?_
      small := fun i => ?_ }
  · obtain ⟨he, hne⟩ := (hmem e).1 he
    rw [hrefs _ hne]
    exact h.refs e he
  · obtain ⟨he, hne⟩ := (hmem e).1 he
    rw [hname _ hne]
    exact h.unlinked e he
  · rw [halive, h.alive]
    constructor
    · rintro ⟨⟨e, he, rfl⟩, hne⟩
      exact ⟨e, (hmem e).2 ⟨he, hne⟩, rfl⟩
    · rintro ⟨e, he, rfl⟩
      obtain ⟨he, hne⟩ := (hmem e).1 he
      exact ⟨⟨e, he, rfl⟩, hne⟩
  · have hsub : (((s.setObject id f).delete id).list.map PosixObject.id).Sublist
        ((s.setObject id f).list.map PosixObject.id) := List.filter_sublist.map _
    rw [setObject_ids hid] at hsub
    exact hsub.nodup h.nodup
  · obtain ⟨he, hne⟩ := (hmem e).1 he
    rw [hname _ hne] at hn
    exact h.field e he n hn
  · by_cases hi : i = id
    · rw [hi]
      exact hsmall
    · rw [hrefs i hi]
      exact h.small i

theorem Inv1.addRef (h : Inv1 s r) (he : e ∈ s.list) (hlt : e.refcount < 65535) :
    Inv1 (s.setObject e.id fun e => { e with refcount := u16 (e.refcount + 1) })
      (r.addRef e.id) := by
  have halive : r.Alive e.id := (h.alive _).2 ⟨e, he, rfl⟩
  have hrefs := h.refs e he
  have hself : (r.addRef e.id).refs e.id = r.refs e.id + 1 := Function.update_self ..
  refine h.setObject (fun _ => rfl) (fun _ => rfl) rfl rfl (h.sound.addRef halive)
    (fun i hi => Function.update_of_ne hi ..) (fun _ _ => rfl) (fun _ hn => hn)
    (fun e' he' hid => ?_) (fun i => ?_) ?_
  · obtain rfl := h.eq_of_id he' he hid
    refine ⟨?_, h.unlinked e' he'⟩
    change u16 (e'.refcount + 1) = _
    rw [u16_of_lt (by omega), hself, hrefs]
  · rw [Registry.alive_addRef]
    exact or_iff_right_of_imp fun hi => hi ▸ halive
  · rw [hself]
    omega

theorem Inv1.close (h : Inv1 s r) (hheld : 0 < r.refs id) :
    ∃ s', s.closeObject id = .ok (.done, s') ∧ Inv1 s' (r.dropRef id) := by
  obtain ⟨e₀, he₀, hid₀⟩ := (h.alive id).1 (Or.inr hheld)
  obtain ⟨e, hfind⟩ : ∃ e, s.list.find? (fun e => e.id = id) = some e := by
    rw [← Option.isSome_iff_exists, List.find?_isSome]
    exact ⟨e₀, he₀, decide_eq_true hid₀⟩
  have he : e ∈ s.list := List.mem_of_find?_eq_some hfind
  have hid : e.id = id := by simpa using List.find?_some hfind
  subst hid
  have hrefs := h.refs e he
  have hsmall := h.small e.id
  have hcount : u16 (e.refcount + 65535) = r.refs e.id - 1 := by
    unfold u16
    omega
  have hself : (r.dropRef e.id).refs e.id = r.refs e.id - 1 := Function.update_self ..
  have hunl := h.unlinked e he
  rw [PosixList.closeObject, deref_bind hfind]
  simp only [hcount]
  by_cases hlast : r.refs e.id - 1 = 0 ∧ e.unlinked = true
  · -- the last reference of an object without a name
    have hdead : (r.nameOf e.id).isNone = true ∧ r.refs e.id = 1 := ⟨hunl ▸ hlast.2, by omega⟩
    rw [if_pos hlast]
    refine ⟨_, rfl, h.delete (fun _ => rfl) rfl ?_ (h.sound.dropRef hheld)
      (fun i hi => Function.update_of_ne hi ..) (fun _ _ => rfl) (fun i => ?_) ?_⟩
    · exact if_pos hdead
    · rw [Registry.alive_dropRef hheld]
      exact and_congr_right fun _ => not_congr (and_iff_left hdead)
    · rw [hself]
      omega
  · have hdead : ¬ ((r.nameOf e.id).isNone = true ∧ r.refs e.id = 1) := by
      rintro ⟨hnone, hone⟩
      exact hlast ⟨by omega, hunl.trans hnone⟩
    rw [if_neg hlast]
    refine ⟨_, rfl, h.setObject (fun _ => rfl) (fun _ => rfl) rfl (if_neg hdead)
      (h.sound.dropRef hheld) (fun i hi => Function.update_of_ne hi ..) (fun _ _ => rfl)
      (fun _ hn => hn) (fun e' he' hid => ?_) (fun i => ?_) ?_⟩
    · obtain rfl := h.eq_of_id he' he hid
      exact ⟨hself.symm, hunl⟩
    · rw [Registry.alive_dropRef hheld]
      exact and_iff_left fun hi => hdead hi.2
    · rw [hself]
      omega

theorem Inv1.unlink (h : Inv1 s r) (he : e ∈ s.list) (hn : r.named name = some e.id) :
    Inv1 (if e.refcount = 0
        then (s.setObject e.id fun e => { e with unlinked := true }).delete e.id
        else s.setObject e.id fun e => { e with unlinked := true })
      (r.dropName name e.id) := by
  have hname : (r.nameOf e.id).isSome = true := by rw [(h.sound.inverse _ _).1 hn]; rfl
  have hself : (r.dropName name e.id).nameOf e.id = none := Function.update_self ..
  have hrefs := h.refs e he
  by_cases h0 : e.refcount = 0
  · have hdead : r.refs e.id = 0 := by omega
    rw [if_pos h0]
    refine h.delete (fun _ => rfl) rfl (if_pos hdead) (h.sound.dropName hn) (fun _ _ => rfl)
      (fun i hi => Function.update_of_ne hi ..) (fun i => ?_) (h.small _)
    rw [Registry.alive_dropName hname]
    exact and_congr_right fun _ => not_congr (and_iff_left hdead)
  · have hdead : r.refs e.id ≠ 0 := by omega
    rw [if_neg h0]
    refine h.setObject (fun _ => rfl) (fun _ => rfl) rfl (if_neg hdead) (h.sound.dropName hn)
      (fun _ _ => rfl) (fun i hi => Function.update_of_ne hi ..) (fun n hn' => ?_)
      (fun e' he' hid => ?_) (fun i => ?_) (h.small _)
    · rw [hself] at hn'
      cases hn'
    · obtain rfl := h.eq_of_id he' he hid
      exact ⟨hrefs, by rw [hself]; rfl⟩
    · rw [Registry.alive_dropName hname]
      exact and_iff_left fun hi => hdead hi.2

-- --------
-- Under the condition
-- --------

/-- **A call under the condition.** -/
theorem Inv1.call (h : Inv1 s r) {a : IpcAct} (hheld : Held r a) (hfit : Fits1 (s, r) a) :
    ∃ s', s.call a = .ok ((regCall r a).1, s') ∧ Inv1 s' (regCall r a).2 := by
  cases a with
  | «open» name flags mem =>
    obtain ⟨creat, excl⟩ := flags
    change ∃ s', (Except.ok (s.openObject name ⟨creat, excl⟩ mem) : Except Fault _) =
      .ok ((regOpen r name ⟨creat, excl⟩ mem).1, s') ∧
        Inv1 s' (regOpen r name ⟨creat, excl⟩ mem).2
    cases creat with
    | true =>
      -- what happens when the name is free
      have hnew : r.named name = none → ¬ (excl = true ∧ (s.find name).isSome = true) →
          ∃ s', s.openObject name ⟨true, excl⟩ mem = ((regOpen r name ⟨true, excl⟩ mem).1, s') ∧
            Inv1 s' (regOpen r name ⟨true, excl⟩ mem).2 := by
        intro hnone hno
        rw [PosixList.openObject, if_pos rfl, if_neg hno, regOpen, hnone]
        by_cases hmem : mem.desc = true ∧ mem.object = true
        · simp only [if_pos hmem, if_true]
          exact ⟨_, by rw [h.next], h.insert hnone⟩
        · simp only [if_neg hmem, if_true]
          exact ⟨s, rfl, h⟩
      cases excl with
      | true =>
        by_cases hfound : (s.find name).isSome = true
        · obtain ⟨id, hid⟩ := Option.isSome_iff_exists.1 (hfit hfound)
          refine ⟨s, ?_, ?_⟩
          · rw [PosixList.openObject, if_pos rfl, if_pos ⟨rfl, hfound⟩, regOpen, hid]
            rfl
          · rw [regOpen, hid]
            exact h
        · have hnone := h.named_none (Option.not_isSome_iff_eq_none.1 hfound)
          obtain ⟨s', hs', hinv⟩ := hnew hnone fun hcon => hfound hcon.2
          exact ⟨s', congrArg _ hs', hinv⟩
      | false =>
        obtain ⟨s', hs', hinv⟩ := hnew hfit fun hcon => nomatch hcon.1
        exact ⟨s', congrArg _ hs', hinv⟩
    | false =>
      obtain ⟨hfinds, hlt⟩ : Finds s r name ∧ ∀ e, s.find name = some e → e.refcount < 65535 :=
        hfit
      rw [PosixList.openObject, if_neg Bool.false_ne_true, regOpen]
      cases hfind : s.find name with
      | none =>
        rw [h.named_none hfind]
        exact ⟨s, rfl, h⟩
      | some e =>
        rw [h.named_some hfinds hfind]
        exact ⟨_, rfl, h.addRef (find_mem hfind) (hlt e hfind)⟩
  | close id => exact h.close hheld
  | unlink name =>
    change ∃ s', (Except.ok (s.unlinkObject name) : Except Fault _) =
      .ok ((regUnlink r name).1, s') ∧ Inv1 s' (regUnlink r name).2
    rw [PosixList.unlinkObject, regUnlink]
    cases hfind : s.find name with
    | none =>
      rw [h.named_none hfind]
      exact ⟨s, rfl, h⟩
    | some e =>
      have hn := h.named_some hfit hfind
      rw [hn]
      exact ⟨_, rfl, h.unlink (find_mem hfind) hn⟩

-- --------
-- Only under the condition
-- --------

theorem Inv1.finds (h : Inv1 s r) (hn : ∀ e, s.find name = some e → r.named name = some e.id) :
    Finds s r name := by
  intro e hfind
  have hname := (h.sound.inverse _ _).1 (hn e hfind)
  refine ⟨?_, hname⟩
  rw [h.unlinked e (find_mem hfind), hname]
  rfl

theorem Inv1.fits_open (h : Inv1 s r) {flags : IpcFlags} {mem : IpcMem}
    (hgood : Good1 (s, r) (.open name flags mem)) : Fits1 (s, r) (.open name flags mem) := by
  obtain ⟨out, s', hcall, hout, href⟩ := hgood trivial
  obtain ⟨creat, excl⟩ := flags
  have hopen : s.openObject name ⟨creat, excl⟩ mem = (out, s') := Except.ok.inj hcall
  have hreg : regCall r (.open name ⟨creat, excl⟩ mem) = regOpen r name ⟨creat, excl⟩ mem := rfl
  rw [hreg] at hout href
  cases creat with
  | true =>
    rw [PosixList.openObject, if_pos rfl] at hopen
    cases excl with
    | true =>
      intro hfound
      rw [if_pos ⟨rfl, hfound⟩] at hopen
      cases hopen
      rw [regOpen] at hout
      cases hn : r.named name with
      | some id => rfl
      | none =>
        rw [hn] at hout
        simp only [if_true] at hout
        split at hout <;> cases hout
    | false =>
      change r.named name = none
      rw [if_neg (fun hcon => nomatch hcon.1)] at hopen
      cases hn : r.named name with
      | none => rfl
      | some id =>
        rw [regOpen, hn] at hout
        have hout : out = .opened id := hout
        have hbelow := h.sound.below id (Or.inl (by rw [(h.sound.inverse _ _).1 hn]; rfl))
        have hnext := h.next
        split at hopen
        · cases hopen
          cases hout
          omega
        · cases hopen
          cases hout
  | false =>
    rw [PosixList.openObject, if_neg Bool.false_ne_true] at hopen
    have hn : ∀ e, s.find name = some e → r.named name = some e.id := by
      intro e hfind
      rw [hfind] at hopen
      cases hopen
      rw [regOpen] at hout
      cases hn : r.named name with
      | some id =>
        rw [hn] at hout
        cases hout
        rfl
      | none =>
        rw [hn] at hout
        cases hout
    refine ⟨h.finds hn, fun e hfind => ?_⟩
    -- a count at its end starts again
    by_contra hge
    have he := find_mem hfind
    have hrefs := h.refs e he
    have hsmall := h.small e.id
    rw [hfind] at hopen
    cases hopen
    rw [regOpen, hn e hfind] at href
    have hnew := href.refs { e with refcount := u16 (e.refcount + 1) }
      (mem_setObject.2 ⟨e, he, by rw [if_pos rfl]⟩)
    change u16 (e.refcount + 1) = Function.update r.refs e.id (r.refs e.id + 1) e.id at hnew
    rw [Function.update_self] at hnew
    unfold u16 at hnew
    omega

theorem Inv1.fits_unlink (h : Inv1 s r) (hgood : Good1 (s, r) (.unlink name)) :
    Fits1 (s, r) (.unlink name) := by
  obtain ⟨out, s', hcall, hout, href⟩ := hgood trivial
  have hunlink : s.unlinkObject name = (out, s') := Except.ok.inj hcall
  have hreg : regCall r (.unlink name) = regUnlink r name := rfl
  rw [hreg] at hout href
  refine h.finds fun e hfind => ?_
  rw [PosixList.unlinkObject, hfind] at hunlink
  rw [regUnlink] at hout href
  cases hn : r.named name with
  | none =>
    rw [hn] at hout
    cases hunlink
    cases hout
  | some id =>
    rw [hn] at href
    by_contra hne
    have hne : e.id ≠ id := fun heq => hne (congrArg some heq.symm)
    -- the entry of the name is still linked
    have hname := (h.sound.inverse _ _).1 hn
    obtain ⟨e', he', rfl⟩ := (h.alive id).1 (Or.inl (by rw [hname]; rfl))
    have hset : e' ∈ (s.setObject e.id fun e => { e with unlinked := true }).list :=
      mem_setObject.2 ⟨e', he', by rw [if_neg hne.symm]⟩
    have hmem : e' ∈ s'.list := by
      have hs' : s' = (if e.refcount = 0
          then (s.setObject e.id fun e => { e with unlinked := true }).delete e.id
          else s.setObject e.id fun e => { e with unlinked := true }) := by
        cases hunlink
        rfl
      rw [hs']
      split
      · exact mem_delete.2 ⟨hset, hne.symm⟩
      · exact hset
    have hold := h.unlinked e' he'
    have hnew := href.unlinked e' hmem
    change e'.unlinked = (Function.update r.nameOf e'.id none e'.id).isNone at hnew
    rw [Function.update_self, hold, hname] at hnew
    cases hnew

/-- **When a call does what it should.** -/
theorem Inv1.good_iff (h : Inv1 s r) {a : IpcAct} : Good1 (s, r) a ↔ Fits1 (s, r) a := by
  constructor
  · intro hgood
    cases a with
    | «open» name flags mem => exact h.fits_open hgood
    | close id => trivial
    | unlink name => exact h.fits_unlink hgood
  · intro hfit hheld
    obtain ⟨s', hcall, hinv⟩ := h.call hheld hfit
    exact ⟨_, s', hcall, rfl, hinv.toRefines⟩

theorem Inv1.exec1 {p p' : PosixList × Registry CName} (h : Inv1 p.1 p.2) {a : IpcAct}
    (hfit : Fits1 p a) (hexec : exec1 p a = some p') : Inv1 p'.1 p'.2 := by
  unfold PosixIpc.exec1 at hexec
  by_cases hheld : Held p.2 a
  · rw [if_pos hheld] at hexec
    obtain ⟨s', hcall, hinv⟩ := h.call hheld hfit
    rw [hcall] at hexec
    cases hexec
    exact hinv
  · rw [if_neg hheld] at hexec
    cases hexec

/-- **Named objects are a map with counts** along every sequence of calls on either list if and only
if the calls all meet the condition. -/
theorem posix_ipc (calls : List (IpcKind × IpcAct)) :
    Runs.Along exec Good start calls ↔ Runs.Along exec Fits start calls := by
  have hiff : ∀ (p : PosixIpc) a, (∀ k, Inv1 (p k).1 (p k).2) → (Good p a ↔ Fits p a) :=
    fun p a h => (h a.1).good_iff
  have hstep : ∀ (p : PosixIpc) a p', (∀ k, Inv1 (p k).1 (p k).2) → Fits p a →
      exec p a = some p' → ∀ k, Inv1 (p' k).1 (p' k).2 := by
    intro p a p' h hfit hexec k
    obtain ⟨q, hq, rfl⟩ := Option.map_eq_some_iff.1 hexec
    by_cases hk : k = a.1
    · subst hk
      rw [Function.update_self]
      exact (h a.1).exec1 hfit hq
    · rw [Function.update_of_ne hk]
      exact h k
  exact Runs.along_iff hiff hstep fun _ => inv1_empty

/-- **The defect**: an open with `O_CREAT` of a name that exists makes a second object. -/
theorem posix_ipc_twice : ¬ ∀ calls, Runs.Along exec Good start calls := by
  intro h
  have hq := h [(.mqueue, .open ⟨['q'], by decide⟩ ⟨true, false⟩ ⟨true, true⟩),
    (.mqueue, .open ⟨['q'], by decide⟩ ⟨true, false⟩ ⟨true, true⟩)]
  obtain ⟨-, hrest⟩ := hq
  obtain ⟨hgood, -⟩ := hrest _ rfl
  obtain ⟨out, s', hcall, hout, -⟩ := hgood trivial
  cases hcall
  cases hout

end PosixIpc

end RTThread.Posix
