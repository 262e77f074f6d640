import Mathlib.Data.List.Basic
import Mathlib.Logic.Function.Iterate
import Mathlib.Logic.Nontrivial.Basic

/-!
# Modes of operation

A mode turns a cipher on blocks into one on messages: each block becomes another and leaves the
state, the chain, for the next. Nothing is assumed of the blocks and the cipher but what the modes
need to be told apart: neither loses anything.

* `run_append` — a message may be cut where the chain is carried on.
* `run_agree_iff` — two chains give the same messages only if they are the same, but for ECB.
* `after_stream`, `exists_after_ne` — where the chain of a mode goes.
-/

namespace BlockMode

variable {α : Type*}

/-- A cipher with its key, the exclusive or of two blocks, and the next block of a counter. -/
structure Cipher (α : Type*) where
  enc : α → α
  dec : α → α
  xor : α → α → α
  next : α → α
  enc_inj : Function.Injective enc
  xor_inj_left : ∀ a, Function.Injective (xor a)
  xor_inj_right : ∀ b, Function.Injective (xor · b)

inductive Mode
  | ecb
  | cbc
  | cfb
  | ofb
  | ctr
deriving DecidableEq

inductive Dir
  | encrypt
  | decrypt
deriving DecidableEq

namespace Cipher

variable (c : Cipher α)

/-- What a block becomes, behind a chain. -/
def out : Mode → Dir → α → α → α
  | .ecb, .encrypt, _, x => c.enc x
  | .ecb, .decrypt, _, x => c.dec x
  | .cbc, .encrypt, s, x => c.enc (c.xor x s)
  | .cbc, .decrypt, s, x => c.xor (c.dec x) s
  | _, _, s, x => c.xor x (c.enc s)

/-- The chain behind a block. -/
def step : Mode → Dir → α → α → α
  | .ecb, _, s, _ => s
  | .cbc, .encrypt, s, x => c.enc (c.xor x s)
  | .cbc, .decrypt, _, x => x
  | .cfb, .encrypt, s, x => c.xor x (c.enc s)
  | .cfb, .decrypt, _, x => x
  | .ofb, _, s, _ => c.enc s
  | .ctr, _, s, _ => c.next s

variable (m : Mode) (d : Dir)

/-- What a message becomes. -/
def run : α → List α → List α
  | _, [] => []
  | s, x :: xs => c.out m d s x :: run (c.step m d s x) xs

/-- The chain behind a message. -/
def after (s : α) (xs : List α) : α := xs.foldl (c.step m d) s

variable {c m d} {s t : α} {xs ys : List α}

@[simp] theorem run_nil : c.run m d s [] = [] := rfl

@[simp] theorem run_cons {x : α} :
    c.run m d s (x :: xs) = c.out m d s x :: c.run m d (c.step m d s x) xs := rfl

@[simp] theorem after_nil : c.after m d s [] = s := rfl

@[simp] theorem after_cons {x : α} :
    c.after m d s (x :: xs) = c.after m d (c.step m d s x) xs := rfl

@[simp] theorem length_run : (c.run m d s xs).length = xs.length := by
  induction xs generalizing s with
  | nil => rfl
  | cons x xs ih => rw [run_cons, List.length_cons, ih, List.length_cons]

/-- **A message may be cut** where the chain is carried on. -/
theorem run_append :
    c.run m d s (xs ++ ys) = c.run m d s xs ++ c.run m d (c.after m d s xs) ys := by
  induction xs generalizing s with
  | nil => rfl
  | cons x xs ih => rw [List.cons_append, run_cons, ih, after_cons, run_cons, List.cons_append]

theorem after_append : c.after m d s (xs ++ ys) = c.after m d (c.after m d s xs) ys :=
  List.foldl_append

-- --------
-- Where the chain goes
-- --------

theorem out_inj {x : α} (hm : m ≠ .ecb) (h : c.out m d s x = c.out m d t x) : s = t := by
  cases m with
  | ecb => exact absurd rfl hm
  | cbc =>
    cases d with
    | encrypt => exact c.xor_inj_left x (c.enc_inj h)
    | decrypt => exact c.xor_inj_left _ h
  | cfb => exact c.enc_inj (c.xor_inj_left x h)
  | ofb => exact c.enc_inj (c.xor_inj_left x h)
  | ctr => exact c.enc_inj (c.xor_inj_left x h)

theorem run_ecb : c.run .ecb d s xs = c.run .ecb d t xs := by
  induction xs generalizing s t with
  | nil => rfl
  | cons x xs ih =>
    rw [run_cons, run_cons, ih (t := c.step .ecb d t x)]
    cases d with
    | encrypt => rfl
    | decrypt => rfl

/-- Two chains give the same messages only if they are the same. -/
theorem run_agree_iff [Nonempty α] {n : Nat} (hm : m ≠ .ecb) (hn : n ≠ 0) :
    (∀ xs : List α, xs.length = n → c.run m d s xs = c.run m d t xs) ↔ s = t := by
  constructor
  · intro hall
    obtain ⟨x⟩ := ‹Nonempty α›
    obtain ⟨k, rfl⟩ := Nat.exists_eq_succ_of_ne_zero hn
    have hrun := hall (List.replicate (k + 1) x) List.length_replicate
    rw [List.replicate_succ, run_cons, run_cons] at hrun
    exact out_inj hm (List.cons.inj hrun).1
  · rintro rfl xs -
    rfl

/-- The chain of a key stream does not look at the message. -/
def stream (c : Cipher α) : Mode → α → α
  | .ofb => c.enc
  | _ => c.next

theorem after_stream (hm : m = .ofb ∨ m = .ctr) :
    c.after m d s xs = (c.stream m)^[xs.length] s := by
  induction xs generalizing s with
  | nil => rfl
  | cons x xs ih =>
    rw [after_cons, ih, List.length_cons, Function.iterate_succ_apply]
    rcases hm with rfl | rfl
    · rfl
    · rfl

/-- The chain of CFB is what one wants it to be. -/
theorem exists_after_ne [Nontrivial α] {n : Nat} (hn : n ≠ 0) :
    ∃ xs : List α, xs.length = n ∧ c.after .cfb d s xs ≠ t := by
  obtain ⟨k, rfl⟩ := Nat.exists_eq_succ_of_ne_zero hn
  obtain ⟨a, b, hab⟩ := exists_pair_ne α
  obtain ⟨u, hu⟩ : ∃ u, u = c.after .cfb d s (List.replicate k a) := ⟨_, rfl⟩
  have hstep : ∀ x, c.after .cfb d s (List.replicate k a ++ [x]) = c.step .cfb d u x := fun x => by
    rw [after_append, ← hu]
    rfl
  have hne : c.step .cfb d u a ≠ c.step .cfb d u b := by
    cases d with
    | encrypt => exact fun h => hab (c.xor_inj_right _ h)
    | decrypt => exact hab
  have hlen : ∀ x : α, (List.replicate k a ++ [x]).length = k + 1 := fun x => by
    rw [List.length_append, List.length_replicate, List.length_singleton]
  by_cases ht : c.step .cfb d u a = t
  · exact ⟨_, hlen b, by rw [hstep, ← ht]; exact hne.symm⟩
  · exact ⟨_, hlen a, by rw [hstep]; exact ht⟩

theorem after_cbc_decrypt (hxs : xs ≠ []) : c.after .cbc .decrypt s xs = xs.getLast hxs := by
  obtain ⟨ys, x, rfl⟩ := (List.eq_nil_or_concat' xs).resolve_left hxs
  rw [after_append, List.getLast_append_singleton]
  rfl

theorem after_cbc_encrypt (hxs : c.run .cbc .encrypt s xs ≠ []) :
    c.after .cbc .encrypt s xs = (c.run .cbc .encrypt s xs).getLast hxs := by
  have hne : xs ≠ [] := by
    rintro rfl
    exact hxs rfl
  obtain ⟨ys, x, rfl⟩ := (List.eq_nil_or_concat' xs).resolve_left hne
  simp only [after_append, run_append, run_cons, run_nil, List.getLast_append_singleton]
  rfl

end Cipher

end BlockMode
