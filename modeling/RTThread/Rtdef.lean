import RTThread.Lib.Word32

/-!
# Basic kernel definitions

What every modelled file uses of `rtdef.h`: the configured alignment and the
ways a call can fail to return to its caller.
-/

namespace RTThread

/-- How a call fails to return: a failing `RT_ASSERT` stops the system in its
handler, a loop that never leaves runs forever, a pointer to no object is followed. -/
inductive Fault
  | assertion
  | divergence
  | badPointer
deriving DecidableEq

/-- `RT_ASSERT(c)`. -/
def rtAssert (c : Prop) [Decidable c] : Except Fault Unit :=
  if c then .ok () else .error .assertion

theorem rtAssert_bind {α : Type} {c : Prop} [Decidable c] (h : c) (f : Unit → Except Fault α) :
    (rtAssert c >>= f) = f () := by
  rw [rtAssert, if_pos h]
  rfl

theorem of_rtAssert {c : Prop} [Decidable c] {u : Unit} (h : rtAssert c = .ok u) : c := by
  by_cases hc : c
  · exact hc
  · rw [rtAssert, if_neg hc] at h
    cases h

theorem except_bind_ok {α β : Type} {c : Except Fault α} {f : α → Except Fault β} {b : β}
    (h : (c >>= f) = .ok b) : ∃ a, c = .ok a ∧ f a = .ok b := by
  cases c with
  | error e => cases h
  | ok a => exact ⟨a, rfl, h⟩

theorem ok_of_toOption {α : Type} {c : Except Fault α} {x : α} (h : c.toOption = some x) :
    c = .ok x := by
  cases c with
  | error e => cases h
  | ok y => exact congrArg Except.ok (Option.some.inj h)

/-- A call that was evaluated returns. -/
theorem exists_ok {α : Type} {c : Except Fault α} {P : α → Bool} (h : c.toOption.any P = true) :
    ∃ x, c = .ok x ∧ P x = true := by
  obtain ⟨x, hx, hp⟩ := (Option.any_eq_true ..).1 h
  exact ⟨x, ok_of_toOption hx, hp⟩

/-- What a pointer points to, if it points to an object. -/
def deref {α : Type} (o : Option α) : Except Fault α :=
  match o with
  | some x => .ok x
  | none => .error .badPointer

theorem deref_bind {α β : Type} {o : Option α} {x : α} (h : o = some x)
    (f : α → Except Fault β) : (deref o >>= f) = f x := by
  subst h
  rfl

theorem deref_none_bind {α β : Type} {o : Option α} (h : o = none) (f : α → Except Fault β) :
    (deref o >>= f) = .error .badPointer := by
  subst h
  rfl

/-- `RT_ALIGN_SIZE` of the configuration. -/
abbrev rtAlignSize : Nat := 4

/-- `RT_ALIGN(size, RT_ALIGN_SIZE)`. -/
def rtAlign (size : Nat) : Nat := Word32.alignUp size rtAlignSize

/-- `RT_ALIGN_DOWN(size, RT_ALIGN_SIZE)`. -/
def rtAlignDown (size : Nat) : Nat := Word32.alignDown size rtAlignSize

theorem rtAlign_eq (size : Nat) : rtAlign size = (size + 3) % 2 ^ 32 / 4 * 4 :=
  Word32.alignUp_eq (k := 2) (by decide)

theorem rtAlignDown_eq {size : Nat} (h : size < 2 ^ 32) : rtAlignDown size = size / 4 * 4 :=
  Word32.alignDown_eq (k := 2) h (by decide)

theorem rtAlign_of_le {size : Nat} (h : size ≤ 2 ^ 32 - 4) :
    size ≤ rtAlign size ∧ rtAlign size < size + 4 ∧ rtAlign size % 4 = 0 := by
  rw [rtAlign_eq]
  omega

theorem rtAlign_wrap {size : Nat} (h : 2 ^ 32 - 4 < size) (h' : size < 2 ^ 32) :
    rtAlign size = 0 := by
  rw [rtAlign_eq]
  omega

theorem rtAlign_mod (size : Nat) : rtAlign size % 4 = 0 := by
  rw [rtAlign_eq]
  omega

theorem rtAlign_of_mod {size : Nat} (h : size % 4 = 0) (h' : size < 2 ^ 32) :
    rtAlign size = size := by
  rw [rtAlign_eq]
  omega

theorem rtAlign_lt (size : Nat) : rtAlign size < 2 ^ 32 := by
  rw [rtAlign_eq]
  omega

/-- What an `rt_uint16_t` keeps of a value. -/
def u16 (n : Nat) : Nat := n % 2 ^ 16

theorem u16_lt (n : Nat) : u16 n < 2 ^ 16 := Nat.mod_lt _ (by decide)

theorem u16_of_lt {n : Nat} (h : n < 2 ^ 16) : u16 n = n := Nat.mod_eq_of_lt h

/-- What an `int` keeps of a value. -/
def toInt (x : Int) : Int := Int.bmod x (2 ^ 32)

theorem toInt_of_fits {x : Int} (h : -2 ^ 31 ≤ x) (h' : x < 2 ^ 31) : toInt x = x := by
  rw [toInt, Int.bmod_eq_iff (by decide)]
  omega

end RTThread
