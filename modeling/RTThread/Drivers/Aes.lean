import RTThread.Rtdef
import RTThread.Lib.BlockMode
import Mathlib.Algebra.Order.BigOperators.Group.List
import Mathlib.Data.List.Flatten
import Mathlib.Logic.Function.Basic

/-!
# The AES engine (`drv_crypto.c`)

A call hands the engine the key, the IV of the context, an input and an output. What is not aligned
goes through a copy. The engine is a parameter: it keeps to the mode it is opened with, where the
input is made of whole blocks, and reads and writes as many bytes as it is told.

Behind a call in CBC, the context has the last block of the ciphertext for its IV; in CFB, OFB and
CTR the IV stays what it was, so that the next call starts over. The last block is looked for at
`(length - 1) / 16 * 16`, also where the length is no multiple of 16, or is zero.

`nu_aes_cut`: calls with the pieces of a message give what one call with the message gives if and only
if the chain is carried; and no byte outside the buffers is read if and only if a call in CBC has
whole blocks, and at least one.
-/

namespace RTThread.Crypto

open BlockMode

-- --------
-- The engine
-- --------

/-- 16 bytes. -/
@[ext] structure Block where
  bytes : List UInt8
  size : bytes.length = 16
deriving DecidableEq

/-- `nu_get32_be` -/
def nuGet32Be (pos : List UInt8) : UInt32 :=
  let val := (pos.getD 0 0).toUInt32
  let val := (val <<< 8) + (pos.getD 1 0).toUInt32
  let val := (val <<< 8) + (pos.getD 2 0).toUInt32
  (val <<< 8) + (pos.getD 3 0).toUInt32

/-- `au32SwapKey` and `au32SwapIV`: so many words, each with its first byte on top. -/
def swapWords (n : Nat) (bytes : List UInt8) : List UInt32 :=
  (List.range n).map fun i => nuGet32Be (bytes.drop (4 * i))

inductive AesKeySize
  | size128
  | size192
  | size256

def AesKeySize.words : AesKeySize → Nat
  | .size128 => 4
  | .size192 => 6
  | .size256 => 8

/-- **The AES engine**: what it writes, by the mode, the direction, the key, the IV and the data.
Where the data are whole blocks, it is the mode over its cipher. -/
structure AesEngine where
  cipher : AesKeySize → List UInt32 → Cipher Block
  run : Mode → Dir → AesKeySize → List UInt32 → List UInt32 → List UInt8 → List UInt8
  length_run : ∀ m d ks key iv data, (run m d ks key iv data).length = data.length
  run_blocks : ∀ m d ks key (iv : Block) (bs : List Block),
    run m d ks key (swapWords 4 iv.bytes) (bs.flatMap Block.bytes) =
      ((cipher ks key).run m d iv bs).flatMap Block.bytes

-- --------
-- The code
-- --------

/-- A buffer: one of the caller's, by its address, or a copy. -/
inductive Base
  | user (addr : Nat)
  | copyIn
  | copyOut
deriving DecidableEq

/-- The bytes of each buffer by their offsets, which wrap around as addresses do. Buffers with
different addresses are apart. -/
abbrev AesMem := Base → Nat → UInt8

/-- The first `n` bytes of a buffer. -/
def AesMem.load (mem : AesMem) (b : Base) (n : Nat) : List UInt8 := (List.range n).map (mem b)

/-- The memory, and every access to a buffer: its offset and its length. -/
structure AesRun where
  mem : AesMem
  accesses : List (Nat × Nat)

namespace AesRun

variable (r : AesRun)

def read (b : Base) (n : Nat) : List UInt8 × AesRun :=
  (r.mem.load b n, { r with accesses := r.accesses ++ [(0, n)] })

def write (b : Base) (xs : List UInt8) : AesRun where
  mem := Function.update r.mem b fun i => (xs[i]?).getD (r.mem b i)
  accesses := r.accesses ++ [(0, xs.length)]

/-- `rt_memcpy` of the first `n` bytes. -/
def copy (dst src : Base) (n : Nat) : AesRun :=
  let (xs, r) := r.read src n
  r.write dst xs

/-- `rt_memcpy` of the 16 bytes at an offset, to an IV. -/
def block (b : Base) (off : Nat) : Block × AesRun :=
  (⟨(List.range 16).map fun i => r.mem b (off + i), by simp⟩,
    { r with accesses := r.accesses ++ [(off, 16)] })

end AesRun

/-- `struct hwcrypto_symmetric`; `type` is the mode that `parent.type` says, if it is one of AES. -/
structure Symmetric where
  type : Option Mode
  keyBitlen : Nat
  iv : Block
  key : Vector UInt8 32

/-- `struct hwcrypto_symmetric_info`, and whether `rt_malloc` has memory for the copies. -/
structure SymmetricInfo where
  mode : Dir
  inp : Nat
  out : Nat
  length : Nat
  roomIn : Bool
  roomOut : Bool

inductive AesErr
  | eok
  | error
  | enomem
  | einval
deriving DecidableEq

/-- The checks of the key length. -/
def aesKeySize (keyBitlen : Nat) : Option AesKeySize :=
  if keyBitlen = 128 then some .size128
  else if keyBitlen = 192 then some .size192
  else if keyBitlen = 256 then some .size256
  else none

/-- `loop * 16`: where the last block is. -/
def lastBlock (length : Nat) : Nat := Word32.mul (Word32.sub length 1 / 16) 16

/-- `nu_aes_crypt_run` -/
def nuAesCryptRun (e : AesEngine) (d : Dir) (m : Mode) (key : List UInt8) (ks : AesKeySize)
    (iv : Block) (inp out : Base) (length : Nat) (r : AesRun) : AesRun :=
  let (data, r) := r.read inp length
  r.write out (e.run m d ks (swapWords ks.words key) (swapWords 4 iv.bytes) data)

/-- `in`, behind its alignment. -/
def SymmetricInfo.inBase (info : SymmetricInfo) : Base :=
  if info.inp % 4 ≠ 0 then .copyIn else .user info.inp

def SymmetricInfo.outBase (info : SymmetricInfo) : Base :=
  if info.out % 4 ≠ 0 then .copyOut else .user info.out

/-- The engine and the IV behind it: from the input before it is overwritten, or from the output. -/
def aesChain (e : AesEngine) (ks : AesKeySize) (m : Mode) (ctx : Symmetric) (info : SymmetricInfo)
    (r : AesRun) : Block × AesRun :=
  let key := ctx.key.toList
  let last := lastBlock info.length
  if m = .cbc ∧ info.mode = .decrypt then
    let (ivTemp, r) := r.block info.inBase last
    (ivTemp, nuAesCryptRun e info.mode m key ks ctx.iv info.inBase info.outBase info.length r)
  else
    let r := nuAesCryptRun e info.mode m key ks ctx.iv info.inBase info.outBase info.length r
    if m = .cbc then r.block info.outBase last else (ctx.iv, r)

/-- `nu_aes_crypt` -/
def nuAesCrypt (e : AesEngine) (ctx : Symmetric) (info : SymmetricInfo) (mem : AesMem) :
    AesErr × Symmetric × AesRun :=
  let r : AesRun := ⟨mem, []⟩
  if info.length % 4 ≠ 0 then (.einval, ctx, r)
  else
    match aesKeySize ctx.keyBitlen with
    | none => (.einval, ctx, r)
    | some ks =>
      match ctx.type with
      | none => (.error, ctx, r)
      | some m =>
        if info.inp % 4 ≠ 0 ∧ info.roomIn = false then (.enomem, ctx, r)
        else
          let r := if info.inp % 4 ≠ 0 then r.copy .copyIn (.user info.inp) info.length else r
          if info.out % 4 ≠ 0 ∧ info.roomOut = false then (.enomem, ctx, r)
          else
            let (iv, r) := aesChain e ks m ctx info r
            let r := if info.out % 4 ≠ 0 then r.copy (.user info.out) .copyOut info.length else r
            (.eok, { ctx with iv := iv }, r)

-- --------
-- What is asked of it
-- --------

/-- A call of `rt_hwcrypto_symmetric_crypt`, with the memory it finds. -/
structure Call where
  inp : Nat
  out : Nat
  length : Nat
  roomIn : Bool
  roomOut : Bool
  mem : AesMem
  small : length < 2 ^ 32

namespace Call

/-- What is in the input buffer. -/
def data (c : Call) : List UInt8 := c.mem.load (.user c.inp) c.length

/-- `rt_hwcrypto_symmetric_crypt` -/
def crypt (c : Call) (e : AesEngine) (d : Dir) (ctx : Symmetric) : AesErr × Symmetric × AesRun :=
  nuAesCrypt e ctx ⟨d, c.inp, c.out, c.length, c.roomIn, c.roomOut⟩ c.mem

end Call

/-- What successive calls leave in their output buffers, if each returns `RT_EOK`. -/
def outputs (e : AesEngine) (d : Dir) : Symmetric → List Call → Option (List UInt8)
  | _, [] => some []
  | ctx, c :: cs =>
    let (err, ctx', r) := c.crypt e d ctx
    if err = .eok then (outputs e d ctx' cs).map (r.mem.load (.user c.out) c.length ++ ·) else none

/-- A message cut into pieces of so many blocks. -/
structure Cut where
  blocks : List Nat
  small : 16 * blocks.sum < 2 ^ 32

/-- The pieces give what the message gives in one call. -/
def Same (e : AesEngine) (d : Dir) (ctx : Symmetric) (cut : Cut) : Prop :=
  ∀ (cs : List Call) (whole : Call) (out out' : List UInt8),
    cs.map Call.length = cut.blocks.map (16 * ·) → cs.flatMap Call.data = whole.data →
    outputs e d ctx cs = some out → outputs e d ctx [whole] = some out' → out = out'

/-- Nothing outside the buffers is read or written. -/
def Inside (e : AesEngine) (d : Dir) (ctx : Symmetric) (length : Nat) : Prop :=
  ∀ c : Call, c.length = length → ∀ a ∈ (c.crypt e d ctx).2.2.accesses, a.1 + a.2 ≤ length

def CutCorrect (e : AesEngine) (d : Dir) (ctx : Symmetric) (cut : Cut) (length : Nat) : Prop :=
  Same e d ctx cut ∧ (length < 2 ^ 32 → Inside e d ctx length)

-- --------
-- The condition
-- --------

/-- No empty piece comes before one with blocks. -/
def EmptyLast : List Nat → Prop
  | [] => True
  | n :: ns => (n ≠ 0 → EmptyLast ns) ∧ (n = 0 → ∀ k ∈ ns, k = 0)

/-- At most one piece has blocks. -/
def AtMostOne : List Nat → Prop
  | [] => True
  | n :: ns => (n = 0 → AtMostOne ns) ∧ (n ≠ 0 → ∀ k ∈ ns, k = 0)

/-- Wherever a piece starts that has blocks, the chain is back at the IV. -/
def Back (f : Block → Block) (iv : Block) : Nat → List Nat → Prop
  | _, [] => True
  | before, n :: ns => (n ≠ 0 → f^[before] iv = iv) ∧ Back f iv (before + n) ns

/-- The chain is carried, or need not be. -/
def Carried (c : Cipher Block) (m : Mode) (iv : Block) (ns : List Nat) : Prop :=
  match m with
  | .ecb => True
  | .cbc => EmptyLast ns
  | .cfb => AtMostOne ns
  | .ofb => Back c.enc iv 0 ns
  | .ctr => Back c.next iv 0 ns

/-- **The condition.** -/
def CutFits (e : AesEngine) (ctx : Symmetric) (cut : Cut) (length : Nat) : Prop :=
  ∀ ks m, aesKeySize ctx.keyBitlen = some ks → ctx.type = some m →
    Carried (e.cipher ks (swapWords ks.words ctx.key.toList)) m ctx.iv cut.blocks ∧
      (m = .cbc → length < 2 ^ 32 → length % 4 = 0 → length % 16 = 0 ∧ length ≠ 0)

-- --------
-- The chain
-- --------

instance : Nontrivial Block :=
  ⟨⟨⟨List.replicate 16 0, rfl⟩, ⟨List.replicate 16 1, rfl⟩, by decide⟩⟩

section Chain

variable (c : Cipher Block) (m : Mode) (d : Dir)

/-- The IV behind a piece; behind an empty one in CBC it is `g`, whatever that was. -/
def carry (iv : Block) (bs : List Block) (g : Block) : Block :=
  if m = .cbc then if bs = [] then g else c.after m d iv bs else iv

/-- What the pieces become, each with the block that stands for its last if it is empty. -/
def cutRun : Block → List (List Block × Block) → List Block
  | _, [] => []
  | iv, p :: ps => c.run m d iv p.1 ++ cutRun (carry c m d iv p.1 p.2) ps

/-- From the IV `t`, pieces of so many blocks become what they become behind the chain `s`. -/
def Agree (t s : Block) (ns : List Nat) : Prop :=
  ∀ ps : List (List Block × Block), ps.map (·.1.length) = ns →
    cutRun c m d t ps = c.run m d s (ps.flatMap Prod.fst)

variable {c m d} {t s : Block} {n : Nat} {ns : List Nat}

theorem agree_nil : Agree c m d t s [] := by
  intro ps hps
  rw [List.map_eq_nil_iff.1 hps]
  rfl

/-- One piece more. -/
theorem agree_cons : Agree c m d t s (n :: ns) ↔
    (∀ bs : List Block, bs.length = n → c.run m d t bs = c.run m d s bs) ∧
      ∀ bs g, bs.length = n → Agree c m d (carry c m d t bs g) (c.after m d s bs) ns := by
  have hsplit : ∀ bs g ps, cutRun c m d t ((bs, g) :: ps) =
        c.run m d s (((bs, g) :: ps).flatMap Prod.fst) ↔
      c.run m d t bs = c.run m d s bs ∧
        cutRun c m d (carry c m d t bs g) ps = c.run m d (c.after m d s bs) (ps.flatMap Prod.fst) := by
    intro bs g ps
    rw [cutRun, List.flatMap_cons, Cipher.run_append]
    refine ⟨fun h => List.append_inj h (by rw [Cipher.length_run, Cipher.length_run]), fun h => ?_⟩
    rw [h.1, h.2]
  constructor
  · intro hall
    refine ⟨fun bs hbs => ?_, fun bs g hbs ps hps => ?_⟩
    · have hps := hall ((bs, t) :: ns.map fun k => (List.replicate k t, t)) (by
        rw [List.map_cons, hbs, List.map_map]
        exact congrArg _ ((List.map_congr_left fun k _ => List.length_replicate).trans
          (List.map_id ns)))
      exact ((hsplit _ _ _).1 hps).1
    · exact ((hsplit _ _ _).1 (hall ((bs, g) :: ps) (by rw [List.map_cons, hbs, hps]))).2
  · rintro ⟨hrun, hrest⟩ ps hps
    obtain ⟨⟨bs, g⟩, ps, rfl, hbs, hps⟩ := List.map_eq_cons_iff.1 hps
    exact (hsplit _ _ _).2 ⟨hrun bs hbs, hrest bs g hbs ps hps⟩

theorem agree_zero : ∀ {ns : List Nat} {t s : Block}, (∀ k ∈ ns, k = 0) → Agree c m d t s ns
  | [], _, _, _ => agree_nil
  | n :: ns, t, s, hzero => by
    have hn := hzero n List.mem_cons_self
    refine agree_cons.2 ⟨fun bs hbs => ?_, fun bs g _ =>
      agree_zero fun k hk => hzero k (List.mem_cons_of_mem _ hk)⟩
    rw [List.length_eq_zero_iff.1 (hbs.trans hn)]
    rfl

theorem agree_ecb : ∀ {ns : List Nat} {t s : Block}, Agree c .ecb d t s ns
  | [], _, _ => agree_nil
  | _ :: _, _, _ => agree_cons.2 ⟨fun _ _ => Cipher.run_ecb, fun _ _ _ => agree_ecb⟩

/-- Behind another chain, only empty pieces become the same. -/
theorem Agree.zero (hm : m ≠ .ecb) (hne : t ≠ s) :
    ∀ {ns : List Nat}, Agree c m d t s ns → ∀ k ∈ ns, k = 0
  | [], _ => nofun
  | n :: ns, hall => by
    obtain ⟨hrun, hrest⟩ := agree_cons.1 hall
    have hn : n = 0 := by
      by_contra hn
      exact hne ((Cipher.run_agree_iff hm hn).1 hrun)
    have hcarry : carry c m d t [] t = t := by
      unfold carry
      split
      · rfl
      · rfl
    have hnext := hrest [] t hn.symm
    rw [hcarry] at hnext
    intro k hk
    rcases List.mem_cons.1 hk with rfl | hk
    · exact hn
    · exact Agree.zero hm hne hnext k hk

theorem agree_cbc : ∀ {ns : List Nat} {s : Block}, Agree c .cbc d s s ns ↔ EmptyLast ns
  | [], _ => iff_of_true agree_nil trivial
  | n :: ns, s => by
    rw [agree_cons, EmptyLast]
    constructor
    · rintro ⟨-, hrest⟩
      refine ⟨fun hn => ?_, fun hn => ?_⟩
      · have hbs : (List.replicate n s).length = n := List.length_replicate
        have hnext := hrest _ s hbs
        rw [carry, if_pos rfl, if_neg (List.ne_nil_of_length_pos (by omega))] at hnext
        exact agree_cbc.1 hnext
      · obtain ⟨g, hg⟩ := exists_ne s
        exact Agree.zero (by nofun) hg (hrest [] g hn.symm)
    · rintro ⟨hpos, hzero⟩
      refine ⟨fun _ _ => rfl, fun bs g hbs => ?_⟩
      by_cases hn : n = 0
      · exact agree_zero (hzero hn)
      · rw [carry, if_pos rfl, if_neg (List.ne_nil_of_length_pos (by omega))]
        exact agree_cbc.2 (hpos hn)

theorem agree_cfb : ∀ {ns : List Nat} {s : Block}, Agree c .cfb d s s ns ↔ AtMostOne ns
  | [], _ => iff_of_true agree_nil trivial
  | n :: ns, s => by
    have hcarry : ∀ bs g, carry c .cfb d s bs g = s := fun _ _ => if_neg (by nofun)
    rw [agree_cons, AtMostOne]
    simp only [hcarry]
    constructor
    · rintro ⟨-, hrest⟩
      refine ⟨fun hn => agree_cfb.1 (hrest [] s hn.symm), fun hn => ?_⟩
      obtain ⟨bs, hbs, hne⟩ := Cipher.exists_after_ne (c := c) (d := d) (s := s) (t := s) hn
      exact Agree.zero (by nofun) hne.symm (hrest bs s hbs)
    · rintro ⟨hzero, hpos⟩
      refine ⟨fun _ _ => trivial, fun bs _ hbs => ?_⟩
      by_cases hn : n = 0
      · rw [List.length_eq_zero_iff.1 (hbs.trans hn)]
        exact agree_cfb.2 (hzero hn)
      · exact agree_zero (hpos hn)

theorem agree_stream (hm : m = .ofb ∨ m = .ctr) : ∀ {ns : List Nat} {before : Nat},
    Agree c m d s ((c.stream m)^[before] s) ns ↔ Back (c.stream m) s before ns
  | [], _ => iff_of_true agree_nil trivial
  | n :: ns, before => by
    have hcarry : ∀ bs g, carry c m d s bs g = s := fun _ _ => if_neg (by
      rintro rfl
      rcases hm with h | h
      · cases h
      · cases h)
    have hecb : m ≠ .ecb := by
      rintro rfl
      rcases hm with h | h
      · cases h
      · cases h
    have hafter : ∀ bs : List Block, bs.length = n →
        c.after m d ((c.stream m)^[before] s) bs = (c.stream m)^[before + n] s := by
      intro bs hbs
      rw [Cipher.after_stream hm, hbs, ← Function.iterate_add_apply, Nat.add_comm]
    rw [agree_cons, Back, ← agree_stream hm]
    simp only [hcarry]
    constructor
    · rintro ⟨hrun, hrest⟩
      refine ⟨fun hn => ((Cipher.run_agree_iff hecb hn).1 hrun).symm, ?_⟩
      have hlen : (List.replicate n s).length = n := List.length_replicate
      have hnext := hrest _ s hlen
      rw [hafter _ hlen] at hnext
      exact hnext
    · rintro ⟨hback, hrest⟩
      refine ⟨fun bs hbs => ?_, fun bs _ hbs => by rw [hafter bs hbs]; exact hrest⟩
      by_cases hn : n = 0
      · rw [List.length_eq_zero_iff.1 (hbs.trans hn)]
        rfl
      · rw [hback hn]

/-- **The chain**: the pieces become what the message becomes if it is carried. -/
theorem agree_iff : Agree c m d s s ns ↔ Carried c m s ns := by
  cases m with
  | ecb => exact iff_of_true agree_ecb trivial
  | cbc => exact agree_cbc
  | cfb => exact agree_cfb
  | ofb =>
    have hstream : Agree c .ofb d s (c.enc^[0] s) ns ↔ Back c.enc s 0 ns := agree_stream (Or.inl rfl)
    exact hstream
  | ctr =>
    have hstream : Agree c .ctr d s (c.next^[0] s) ns ↔ Back c.next s 0 ns :=
      agree_stream (Or.inr rfl)
    exact hstream

end Chain

-- --------
-- Buffers
-- --------

section Buffers

variable {r : AesRun} {mem : AesMem} {b b' : Base} {xs : List UInt8} {bs : List Block} {n : Nat}

@[simp] theorem length_load : (mem.load b n).length = n := by simp [AesMem.load]

theorem load_getElem {i : Nat} (h : i < n) : (mem.load b n)[i]? = some (mem b i) := by
  simp [AesMem.load, h]

theorem write_self : (r.write b xs).mem b = fun i => (xs[i]?).getD (r.mem b i) :=
  Function.update_self ..

theorem load_write (hxs : xs.length = n) : (r.write b xs).mem.load b n = xs := by
  refine List.ext_getElem? fun i => ?_
  by_cases hi : i < n
  · have hi' : i < xs.length := by rw [hxs]; exact hi
    rw [load_getElem hi, write_self]
    simp [List.getElem?_eq_getElem hi']
  · rw [List.getElem?_eq_none (by rw [length_load]; omega), List.getElem?_eq_none (by omega)]

theorem length_blocks : (bs.flatMap Block.bytes).length = 16 * bs.length := by
  induction bs with
  | nil => rfl
  | cons a bs ih =>
    rw [List.flatMap_cons, List.length_append, ih, a.size, List.length_cons]
    omega

theorem blocks_inj : ∀ {bs bs' : List Block},
    bs.flatMap Block.bytes = bs'.flatMap Block.bytes → bs = bs'
  | [], bs', h => by
    have hlen := congrArg List.length h
    rw [length_blocks, length_blocks, List.length_nil] at hlen
    exact (List.length_eq_zero_iff.1 (by omega)).symm
  | b :: bs, [], h => by
    have hlen := congrArg List.length h
    rw [length_blocks, length_blocks, List.length_nil, List.length_cons] at hlen
    omega
  | b :: bs, b' :: bs', h => by
    rw [List.flatMap_cons, List.flatMap_cons] at h
    obtain ⟨hb, hbs⟩ := List.append_inj h (by rw [b.size, b'.size])
    rw [Block.ext hb, blocks_inj hbs]

/-- Data of whole blocks. -/
theorem exists_blocks : ∀ (k : Nat) {xs : List UInt8}, xs.length = 16 * k →
    ∃ bs : List Block, bs.length = k ∧ bs.flatMap Block.bytes = xs
  | 0, xs, hxs => ⟨[], rfl, (List.length_eq_zero_iff.1 hxs).symm⟩
  | k + 1, xs, hxs => by
    have htake : (xs.take 16).length = 16 := by
      rw [List.length_take]
      omega
    obtain ⟨bs, hbs, hflat⟩ := @exists_blocks k (xs.drop 16) (by
      rw [List.length_drop]
      omega)
    refine ⟨⟨xs.take 16, htake⟩ :: bs, by rw [List.length_cons, hbs], ?_⟩
    rw [List.flatMap_cons, hflat]
    exact List.take_append_drop 16 xs

theorem lastBlock_of_pos (hn : n ≠ 0) (h32 : n < 2 ^ 32) : lastBlock n = (n - 1) / 16 * 16 := by
  rw [lastBlock, Word32.sub_of_le (by omega) h32, Word32.mul_of_lt (by omega)]

theorem lastBlock_zero : lastBlock 0 = 0xFFFFFFF0 := rfl

/-- The last block of the data is where it is looked for. -/
theorem block_last (hload : r.mem.load b n = bs.flatMap Block.bytes) (h32 : n < 2 ^ 32)
    (hbs : bs ≠ []) : (r.block b (lastBlock n)).1 = bs.getLast hbs := by
  have hlen : n = 16 * bs.length := by rw [← length_blocks, ← hload, length_load]
  obtain ⟨init, last, rfl⟩ := (List.eq_nil_or_concat' bs).resolve_left hbs
  rw [List.length_append, List.length_singleton] at hlen
  have hlast : lastBlock n = (init.flatMap Block.bytes).length := by
    rw [lastBlock_of_pos (by omega) h32, length_blocks]
    omega
  rw [List.getLast_append_singleton]
  refine Block.ext (List.ext_getElem (by rw [last.size, (r.block b _).1.size]) fun i hi hi' => ?_)
  have hi16 : i < 16 := by rwa [last.size] at hi'
  have hget := @load_getElem r.mem b n (lastBlock n + i) (by
    rw [hlast, length_blocks]
    omega)
  rw [hload, List.flatMap_append, hlast, List.getElem?_append_right (Nat.le_add_right _ _),
    Nat.add_sub_cancel_left, List.flatMap_singleton, List.getElem?_eq_getElem hi'] at hget
  rw [Option.some.inj hget, ← hlast]
  simp [AesRun.block]

end Buffers

-- --------
-- A call
-- --------

section Call

variable {e : AesEngine} {d : Dir} {m : Mode} {ks : AesKeySize} {ctx ctx' : Symmetric}
  {info : SymmetricInfo} {r r' : AesRun} {bs : List Block} {c : Call}

/-- The cipher with the key of the context. -/
def AesEngine.keyed (e : AesEngine) (ks : AesKeySize) (ctx : Symmetric) : Cipher Block :=
  e.cipher ks (swapWords ks.words ctx.key.toList)

theorem nuAesCryptRun_load {inp out : Base} {length : Nat}
    (hload : r.mem.load inp length = bs.flatMap Block.bytes) :
    (nuAesCryptRun e d m ctx.key.toList ks ctx.iv inp out length r).mem.load out length =
      ((e.keyed ks ctx).run m d ctx.iv bs).flatMap Block.bytes := by
  have hlen : length = (bs.flatMap Block.bytes).length := by rw [← hload, length_load]
  have hrun := e.run_blocks m d ks (swapWords ks.words ctx.key.toList) ctx.iv bs
  rw [← hload] at hrun
  rw [AesEngine.keyed, ← hrun]
  exact load_write (by rw [e.length_run, length_load])

/-- **The engine and the IV behind it.** -/
theorem aesChain_spec (hload : r.mem.load info.inBase info.length = bs.flatMap Block.bytes)
    (h32 : info.length < 2 ^ 32) :
    (aesChain e ks m ctx info r).2.mem.load info.outBase info.length =
      ((e.keyed ks ctx).run m info.mode ctx.iv bs).flatMap Block.bytes ∧
    ∃ g, (aesChain e ks m ctx info r).1 = carry (e.keyed ks ctx) m info.mode ctx.iv bs g := by
  have hout := @nuAesCryptRun_load e info.mode m ks ctx _ _ _ info.outBase _ hload
  unfold aesChain
  by_cases hdec : m = .cbc ∧ info.mode = .decrypt
  · -- the last block of the input, before it is overwritten
    obtain ⟨rfl, hdir⟩ := hdec
    rw [hdir] at hout
    simp only [hdir, true_and, if_true]
    refine ⟨hout, (r.block info.inBase (lastBlock info.length)).1, ?_⟩
    rw [carry, if_pos rfl]
    split
    · rfl
    · rename_i hbs
      rw [Cipher.after_cbc_decrypt hbs]
      exact block_last hload h32 hbs
  · simp only [if_neg hdec]
    by_cases hm : m = .cbc
    · -- the last block of the output
      subst hm
      have hdir : info.mode = .encrypt := by
        cases hd : info.mode with
        | encrypt => rfl
        | decrypt => exact absurd ⟨rfl, hd⟩ hdec
      rw [hdir] at hout
      simp only [hdir, if_true]
      obtain ⟨r', hr'⟩ : ∃ r', r' = nuAesCryptRun e .encrypt .cbc ctx.key.toList ks ctx.iv
        info.inBase info.outBase info.length r := ⟨_, rfl⟩
      rw [← hr'] at hout ⊢
      refine ⟨hout, (r'.block info.outBase (lastBlock info.length)).1, ?_⟩
      rw [carry, if_pos rfl]
      split
      · rfl
      · rename_i hbs
        have hne : (e.keyed ks ctx).run .cbc .encrypt ctx.iv bs ≠ [] := by
          refine List.ne_nil_of_length_pos ?_
          rw [Cipher.length_run]
          exact List.length_pos_iff.2 hbs
        rw [Cipher.after_cbc_encrypt hne]
        exact block_last hout h32 hne
    · simp only [if_neg hm]
      exact ⟨hout, ctx.iv, (if_neg hm).symm⟩

/-- The state behind the copy of the input. -/
def SymmetricInfo.taken (info : SymmetricInfo) (mem : AesMem) : AesRun :=
  if info.inp % 4 ≠ 0 then AesRun.copy ⟨mem, []⟩ .copyIn (.user info.inp) info.length
  else ⟨mem, []⟩

theorem taken_load {mem : AesMem} :
    (info.taken mem).mem.load info.inBase info.length = mem.load (.user info.inp) info.length := by
  unfold SymmetricInfo.taken SymmetricInfo.inBase
  split
  · exact load_write length_load
  · rfl

/-- Behind the copy of the output. -/
def SymmetricInfo.given (info : SymmetricInfo) (r : AesRun) : AesRun :=
  if info.out % 4 ≠ 0 then r.copy (.user info.out) .copyOut info.length else r

theorem given_load :
    (info.given r).mem.load (.user info.out) info.length =
      r.mem.load info.outBase info.length := by
  unfold SymmetricInfo.given SymmetricInfo.outBase
  split
  · exact load_write length_load
  · rfl

/-- Memory for the copies that are needed. -/
def SymmetricInfo.Room (info : SymmetricInfo) : Prop :=
  (info.inp % 4 ≠ 0 → info.roomIn = true) ∧ (info.out % 4 ≠ 0 → info.roomOut = true)

/-- A call that goes to the engine. -/
theorem nuAesCrypt_taken {mem : AesMem} (hlen : info.length % 4 = 0)
    (hks : aesKeySize ctx.keyBitlen = some ks) (hm : ctx.type = some m) (hroom : info.Room) :
    nuAesCrypt e ctx info mem =
      (.eok, { ctx with iv := (aesChain e ks m ctx info (info.taken mem)).1 },
        info.given (aesChain e ks m ctx info (info.taken mem)).2) := by
  have hin : ¬ (info.inp % 4 ≠ 0 ∧ info.roomIn = false) := by
    rintro ⟨haddr, hno⟩
    rw [hroom.1 haddr] at hno
    cases hno
  have hout : ¬ (info.out % 4 ≠ 0 ∧ info.roomOut = false) := by
    rintro ⟨haddr, hno⟩
    rw [hroom.2 haddr] at hno
    cases hno
  rw [nuAesCrypt, if_neg (not_not.2 hlen), hks, hm]
  simp only [if_neg hin, if_neg hout]
  rfl

/-- What a call returns `RT_EOK` for. -/
theorem nuAesCrypt_eok {mem : AesMem} (h : (nuAesCrypt e ctx info mem).1 = .eok) :
    info.length % 4 = 0 ∧ (∃ ks, aesKeySize ctx.keyBitlen = some ks) ∧
      (∃ m, ctx.type = some m) ∧ info.Room := by
  unfold nuAesCrypt at h
  by_cases hlen : info.length % 4 = 0
  · simp only [hlen, ne_eq, not_true_eq_false, if_false] at h
    cases hks : aesKeySize ctx.keyBitlen with
    | none =>
      rw [hks] at h
      cases h
    | some ks =>
      cases hm : ctx.type with
      | none =>
        rw [hks, hm] at h
        cases h
      | some m =>
        simp only [hks, hm] at h
        split at h
        · cases h
        · rename_i hin
          split at h
          · cases h
          · rename_i hout
            refine ⟨hlen, ⟨ks, rfl⟩, ⟨m, rfl⟩, fun haddr => ?_, fun haddr => ?_⟩
            · exact Bool.eq_true_of_not_eq_false fun hno => hin ⟨haddr, hno⟩
            · exact Bool.eq_true_of_not_eq_false fun hno => hout ⟨haddr, hno⟩
  · rw [if_pos hlen] at h
    cases h

/-- **A call** with whole blocks. -/
theorem crypt_spec (hks : aesKeySize ctx.keyBitlen = some ks) (hm : ctx.type = some m)
    (hroom : SymmetricInfo.Room ⟨d, c.inp, c.out, c.length, c.roomIn, c.roomOut⟩)
    (hdata : c.data = bs.flatMap Block.bytes) :
    ∃ g r, c.crypt e d ctx =
        (.eok, { ctx with iv := carry (e.keyed ks ctx) m d ctx.iv bs g }, r) ∧
      r.mem.load (.user c.out) c.length =
        ((e.keyed ks ctx).run m d ctx.iv bs).flatMap Block.bytes := by
  obtain ⟨info, hinfo⟩ : ∃ info : SymmetricInfo,
    info = ⟨d, c.inp, c.out, c.length, c.roomIn, c.roomOut⟩ := ⟨_, rfl⟩
  have hlen : info.length = 16 * bs.length := by
    rw [hinfo, ← length_blocks, ← hdata]
    exact length_load.symm
  have hload : (info.taken c.mem).mem.load info.inBase info.length = bs.flatMap Block.bytes := by
    rw [taken_load, hinfo]
    exact hdata
  obtain ⟨hout, g, hiv⟩ := @aesChain_spec e m ks ctx _ _ _ hload
    (by rw [hinfo]; exact c.small)
  have hcall := @nuAesCrypt_taken e _ _ _ _ c.mem (show info.length % 4 = 0 by omega) hks hm
    (by rw [hinfo]; exact hroom)
  rw [hiv, show info.mode = d by rw [hinfo]] at hcall
  rw [show info.mode = d by rw [hinfo]] at hout
  refine ⟨g, _, by rw [Call.crypt, ← hinfo]; exact hcall, ?_⟩
  rw [show c.length = info.length by rw [hinfo], show c.out = info.out by rw [hinfo], given_load,
    hout]

/-- **Successive calls** with whole blocks. -/
theorem outputs_spec (hks : aesKeySize ctx.keyBitlen = some ks) (hm : ctx.type = some m) :
    ∀ {cs : List Call} {bss : List (List Block)} {iv : Block} {out : List UInt8},
      cs.map Call.data = bss.map (·.flatMap Block.bytes) →
      outputs e d { ctx with iv := iv } cs = some out →
      ∃ ps : List (List Block × Block), ps.map Prod.fst = bss ∧
        out = (cutRun (e.keyed ks ctx) m d iv ps).flatMap Block.bytes
  | [], bss, iv, out, hdata, hout => by
    rw [List.map_eq_nil_iff.1 hdata.symm]
    exact ⟨[], rfl, (Option.some.inj hout).symm⟩
  | c :: cs, bss, iv, out, hdata, hout => by
    obtain ⟨bs, bss, rfl, hbs, hbss⟩ := List.map_eq_cons_iff.1 hdata.symm
    rw [outputs] at hout
    have hok : (c.crypt e d { ctx with iv := iv }).1 = .eok := by
      by_contra hne
      simp only [if_neg hne] at hout
      cases hout
    obtain ⟨-, -, -, hroom⟩ := nuAesCrypt_eok hok
    obtain ⟨g, r, hcall, hload⟩ : ∃ g r, c.crypt e d { ctx with iv := iv } =
        (.eok, { ctx with iv := carry (e.keyed ks ctx) m d iv bs g }, r) ∧
        r.mem.load (.user c.out) c.length =
          ((e.keyed ks ctx).run m d iv bs).flatMap Block.bytes := crypt_spec hks hm hroom hbs.symm
    simp only [hcall, if_true] at hout
    obtain ⟨out', hout', rfl⟩ := Option.map_eq_some_iff.1 hout
    obtain ⟨ps, rfl, rfl⟩ := outputs_spec hks hm hbss.symm hout'
    refine ⟨(bs, g) :: ps, rfl, ?_⟩
    rw [cutRun, List.flatMap_append, hload]

/-- A call in place with such data, and `g` before them. -/
def Call.of (bs : List Block) (g : Block) (small : 16 * bs.length < 2 ^ 32) : Call where
  inp := 0
  out := 0
  length := 16 * bs.length
  roomIn := true
  roomOut := true
  mem := fun _ i => ((bs.flatMap Block.bytes)[i]?).getD (g.bytes.getD (i % 16) 0)
  small := small

theorem Call.of_data {g : Block} {small : 16 * bs.length < 2 ^ 32} :
    (Call.of bs g small).data = bs.flatMap Block.bytes := by
  have hlen : (Call.of bs g small).length = (bs.flatMap Block.bytes).length := length_blocks.symm
  refine List.ext_getElem? fun i => ?_
  by_cases hi : i < (Call.of bs g small).length
  · have hi' : i < (bs.flatMap Block.bytes).length := by rw [← hlen]; exact hi
    rw [Call.data, load_getElem hi]
    simp [Call.of, List.getElem?_eq_getElem hi']
  · rw [List.getElem?_eq_none (by rw [Call.data, length_load]; omega),
      List.getElem?_eq_none (by omega)]

theorem nuAesCryptRun_zero {key : List UInt8} {iv : Block} {inp out : Base} :
    (nuAesCryptRun e d m key ks iv inp out 0 r).mem = r.mem := by
  have hnil : e.run m d ks (swapWords ks.words key) (swapWords 4 iv.bytes) (r.mem.load inp 0) =
      [] := List.length_eq_zero_iff.1 (by rw [e.length_run, length_load])
  change Function.update r.mem out (fun i => ((e.run m d ks (swapWords ks.words key)
    (swapWords 4 iv.bytes) (r.mem.load inp 0))[i]?).getD (r.mem out i)) = r.mem
  rw [hnil]
  exact Function.update_eq_self out r.mem

theorem block_stray {g : Block} {b : Base}
    (hmem : ∀ i, r.mem b i = g.bytes.getD (i % 16) 0) : (r.block b (lastBlock 0)).1 = g := by
  refine Block.ext (List.ext_getElem (by rw [g.size, (r.block b _).1.size]) fun i hi hi' => ?_)
  have hi16 : i < 16 := by rwa [g.size] at hi'
  have hmod : (lastBlock 0 + i) % 16 = i := by
    rw [lastBlock_zero]
    omega
  simp [AesRun.block, hmem, hmod, List.getElem?_eq_getElem hi']

/-- The IV behind such a call. -/
theorem crypt_of {g : Block} {small : 16 * bs.length < 2 ^ 32}
    (hks : aesKeySize ctx.keyBitlen = some ks) (hm : ctx.type = some m) :
    ∃ r, (Call.of bs g small).crypt e d ctx =
        (.eok, { ctx with iv := carry (e.keyed ks ctx) m d ctx.iv bs g }, r) ∧
      r.mem.load (.user 0) (16 * bs.length) =
        ((e.keyed ks ctx).run m d ctx.iv bs).flatMap Block.bytes := by
  have hroom : SymmetricInfo.Room ⟨d, 0, 0, 16 * bs.length, true, true⟩ :=
    ⟨fun _ => rfl, fun _ => rfl⟩
  obtain ⟨g', r, hcall, hload⟩ := crypt_spec (e := e) (d := d) hks hm hroom
    (@Call.of_data bs g small)
  refine ⟨r, ?_, hload⟩
  by_cases hstray : m = .cbc ∧ bs = []
  · obtain ⟨rfl, rfl⟩ := hstray
    have hg : ∀ r : AesRun, (∀ i, r.mem (.user 0) i = g.bytes.getD (i % 16) 0) →
        (r.block (.user 0) (lastBlock 0)).1 = g := fun r => block_stray
    have hcall' := @nuAesCrypt_taken e _ _ _ _ (Call.of [] g small).mem
      (show (SymmetricInfo.mk d 0 0 0 true true).length % 4 = 0 from rfl) hks hm hroom
    have hiv : (aesChain e ks .cbc ctx ⟨d, 0, 0, 0, true, true⟩
        (SymmetricInfo.taken ⟨d, 0, 0, 0, true, true⟩ (Call.of [] g small).mem)).1 = g := by
      cases d with
      | decrypt => exact hg ⟨_, []⟩ fun _ => rfl
      | encrypt => exact hg _ fun i => congrFun (congrFun nuAesCryptRun_zero (Base.user 0)) i
    have hsame := congrArg (fun x : AesErr × Symmetric × AesRun => x.2.1.iv)
      (hcall.symm.trans hcall')
    rw [hcall]
    simp only [hiv] at hsame
    rw [hsame]
    rfl
  · rw [hcall]
    have hcarry : carry (e.keyed ks ctx) m d ctx.iv bs g' =
        carry (e.keyed ks ctx) m d ctx.iv bs g := by
      unfold carry
      split
      · rename_i hm'
        rw [if_neg fun hbs => hstray ⟨hm', hbs⟩, if_neg fun hbs => hstray ⟨hm', hbs⟩]
      · rfl
    rw [hcarry]

/-- Calls with such pieces. -/
theorem exists_calls (hks : aesKeySize ctx.keyBitlen = some ks) (hm : ctx.type = some m) :
    ∀ (ps : List (List Block × Block)) {iv : Block}, (∀ p ∈ ps, 16 * p.1.length < 2 ^ 32) →
      ∃ cs : List Call, cs.map Call.length = ps.map (16 * ·.1.length) ∧
        cs.flatMap Call.data = (ps.flatMap Prod.fst).flatMap Block.bytes ∧
        outputs e d { ctx with iv := iv } cs =
          some ((cutRun (e.keyed ks ctx) m d iv ps).flatMap Block.bytes)
  | [], _, _ => ⟨[], rfl, rfl, rfl⟩
  | (bs, g) :: ps, iv, hsmall => by
    obtain ⟨cs, hlen, hdata, hout⟩ := @exists_calls hks hm ps
      (carry (e.keyed ks ctx) m d iv bs g) fun p hp => hsmall p (List.mem_cons_of_mem _ hp)
    have hbs := hsmall (bs, g) List.mem_cons_self
    obtain ⟨r, hcall, hload⟩ : ∃ r, (Call.of bs g hbs).crypt e d { ctx with iv := iv } =
        (.eok, { ctx with iv := carry (e.keyed ks ctx) m d iv bs g }, r) ∧
        r.mem.load (.user 0) (16 * bs.length) =
          ((e.keyed ks ctx).run m d iv bs).flatMap Block.bytes := crypt_of hks hm
    refine ⟨Call.of bs g hbs :: cs, ?_, ?_, ?_⟩
    · rw [List.map_cons, List.map_cons, hlen]
      rfl
    · rw [List.flatMap_cons, List.flatMap_cons, List.flatMap_append, hdata, Call.of_data]
    · rw [outputs, hcall]
      change (outputs e d _ cs).map (r.mem.load (.user 0) (16 * bs.length) ++ ·) = _
      rw [hout, hload, cutRun, List.flatMap_append]
      rfl

/-- Each piece is made of its blocks. -/
theorem exists_pieces : ∀ {cs : List Call} {ns : List Nat},
    cs.map Call.length = ns.map (16 * ·) →
    ∃ bss : List (List Block), cs.map Call.data = bss.map (·.flatMap Block.bytes) ∧
      bss.map List.length = ns
  | [], ns, hlen => ⟨[], rfl, (List.map_eq_nil_iff.1 hlen.symm).symm⟩
  | c :: cs, ns, hlen => by
    obtain ⟨n, ns, rfl, hn, hns⟩ := List.map_eq_cons_iff.1 hlen.symm
    obtain ⟨bss, hdata, hbss⟩ := exists_pieces hns.symm
    obtain ⟨bs, hbs, hflat⟩ := @exists_blocks n c.data (by
      rw [hn]
      exact length_load)
    exact ⟨bs :: bss, by rw [List.map_cons, List.map_cons, hdata, hflat],
      by rw [List.map_cons, hbs, hbss]⟩

/-- **The pieces**: they give what the message gives if the chain agrees. -/
theorem same_iff {cut : Cut} (hks : aesKeySize ctx.keyBitlen = some ks) (hm : ctx.type = some m) :
    Same e d ctx cut ↔ Agree (e.keyed ks ctx) m d ctx.iv ctx.iv cut.blocks := by
  constructor
  · intro hsame ps hps
    have hlens : (ps.flatMap Prod.fst).length = cut.blocks.sum := by
      rw [List.length_flatMap, ← hps]
    have hsmall : ∀ p ∈ ps, 16 * p.1.length < 2 ^ 32 := by
      intro p hp
      have hle := List.le_sum_of_mem
        (List.mem_map_of_mem (f := fun p : List Block × Block => p.1.length) hp)
      rw [hps] at hle
      have hcut := cut.small
      omega
    obtain ⟨cs, hlen, hdata, hout⟩ := @exists_calls e d _ _ _ hks hm ps ctx.iv hsmall
    have hwhole := cut.small
    rw [← hlens] at hwhole
    obtain ⟨r, hcall, hload⟩ := @crypt_of e d _ _ _ _ ctx.iv hwhole hks hm
    have hout' : outputs e d ctx [Call.of (ps.flatMap Prod.fst) ctx.iv hwhole] =
        some (((e.keyed ks ctx).run m d ctx.iv (ps.flatMap Prod.fst)).flatMap Block.bytes) := by
      rw [outputs, hcall]
      change some (r.mem.load (.user 0) (16 * (ps.flatMap Prod.fst).length) ++ []) = _
      rw [hload, List.append_nil]
    have hcs : cs.map Call.length = cut.blocks.map (16 * ·) := by
      rw [hlen, ← hps, List.map_map]
      rfl
    exact blocks_inj (hsame cs _ _ _ hcs (by rw [hdata, Call.of_data]) hout hout')
  · intro hall cs whole out out' hlen hdata hout hout'
    obtain ⟨bss, hdatas, hns⟩ := exists_pieces hlen
    obtain ⟨ps, rfl, rfl⟩ := outputs_spec hks hm hdatas hout
    have hwhole : [whole].map Call.data =
        [ps.flatMap Prod.fst].map (·.flatMap Block.bytes) := by
      rw [List.map_singleton, List.map_singleton, ← hdata, List.flatMap_def, hdatas,
        List.flatMap_assoc, List.flatMap_def, List.map_map]
      rfl
    obtain ⟨ps', hps', rfl⟩ := outputs_spec hks hm hwhole hout'
    obtain ⟨⟨bs, g⟩, ps', rfl, hbs, hnil⟩ := List.map_eq_cons_iff.1 hps'
    rw [List.map_eq_nil_iff.1 hnil, cutRun, cutRun, List.append_nil, show bs = _ from hbs]
    rw [hall ps (by rw [← hns, List.map_map]; rfl)]

-- --------
-- The accesses
-- --------

/-- What is accessed: so many bytes from the start. -/
def Whole (n : Nat) (r : AesRun) : Prop := ∀ a ∈ r.accesses, a = (0, n)

variable {n : Nat} {b b' : Base}

theorem Whole.copy (h : Whole n r) : Whole n (r.copy b b' n) := by
  intro a ha
  simp only [AesRun.copy, AesRun.read, AesRun.write, List.mem_append, List.mem_singleton,
    length_load] at ha
  rcases ha with (ha | ha) | ha
  · exact h a ha
  · exact ha
  · exact ha

theorem Whole.cryptRun (h : Whole n r) {iv : Block} {key : List UInt8} :
    Whole n (nuAesCryptRun e d m key ks iv b b' n r) := by
  intro a ha
  simp only [nuAesCryptRun, AesRun.read, AesRun.write, List.mem_append, List.mem_singleton,
    e.length_run, length_load] at ha
  rcases ha with (ha | ha) | ha
  · exact h a ha
  · exact ha
  · exact ha

theorem Whole.taken {mem : AesMem} : Whole info.length (info.taken mem) := by
  unfold SymmetricInfo.taken
  split
  · exact Whole.copy (fun _ ha => nomatch ha)
  · exact fun _ ha => nomatch ha

/-- But for the last block in CBC, all is accessed from the start. -/
theorem aesChain_accesses (h : Whole info.length r) :
    ∀ a ∈ (aesChain e ks m ctx info r).2.accesses,
      a = (0, info.length) ∨ m = .cbc ∧ a = (lastBlock info.length, 16) := by
  intro a ha
  unfold aesChain at ha
  split at ha
  · rename_i hdec
    simp only [nuAesCryptRun, AesRun.read, AesRun.write, AesRun.block, List.mem_append,
      List.mem_singleton, e.length_run, length_load] at ha
    rcases ha with ((ha | ha) | ha) | ha
    · exact Or.inl (h a ha)
    · exact Or.inr ⟨hdec.1, ha⟩
    · exact Or.inl ha
    · exact Or.inl ha
  · dsimp only at ha
    split at ha
    · rename_i hm
      simp only [AesRun.block, List.mem_append, List.mem_singleton] at ha
      rcases ha with ha | ha
      · exact Or.inl (Whole.cryptRun h a ha)
      · exact Or.inr ⟨hm, ha⟩
    · exact Or.inl (Whole.cryptRun h a ha)

theorem aesChain_last : (lastBlock info.length, 16) ∈ (aesChain e ks .cbc ctx info r).2.accesses := by
  unfold aesChain
  split
  · simp [nuAesCryptRun, AesRun.read, AesRun.write, AesRun.block]
  · simp [AesRun.block]

theorem lastBlock_inside (h32 : n < 2 ^ 32) : lastBlock n + 16 ≤ n ↔ n % 16 = 0 ∧ n ≠ 0 := by
  by_cases hn : n = 0
  · subst hn
    exact iff_of_false (by decide) fun h => h.2 rfl
  · rw [lastBlock_of_pos hn h32]
    omega

theorem given_accesses {a : Nat × Nat} (ha : a ∈ (info.given r).accesses) :
    a = (0, info.length) ∨ a ∈ r.accesses := by
  unfold SymmetricInfo.given at ha
  split at ha
  · simp only [AesRun.copy, AesRun.read, AesRun.write, List.mem_append, List.mem_singleton,
      length_load] at ha
    rcases ha with (ha | ha) | ha
    · exact Or.inr ha
    · exact Or.inl ha
    · exact Or.inl ha
  · exact Or.inr ha

theorem accesses_given {a : Nat × Nat} (ha : a ∈ r.accesses) : a ∈ (info.given r).accesses := by
  unfold SymmetricInfo.given
  split
  · simp [AesRun.copy, AesRun.read, AesRun.write, ha]
  · exact ha

/-- All that a call accesses. -/
theorem nuAesCrypt_accesses {mem : AesMem} {a : Nat × Nat}
    (ha : a ∈ (nuAesCrypt e ctx info mem).2.2.accesses) :
    a = (0, info.length) ∨ ((∃ ks, aesKeySize ctx.keyBitlen = some ks) ∧
      ctx.type = some .cbc ∧ info.length % 4 = 0 ∧ a = (lastBlock info.length, 16)) := by
  by_cases hok : (nuAesCrypt e ctx info mem).1 = .eok
  · obtain ⟨hlen, ⟨ks, hks⟩, ⟨m, hm⟩, hroom⟩ := nuAesCrypt_eok hok
    rw [nuAesCrypt_taken hlen hks hm hroom] at ha
    rcases given_accesses ha with ha | ha
    · exact Or.inl ha
    · rcases aesChain_accesses Whole.taken a ha with hall | ⟨rfl, hlast⟩
      · exact Or.inl hall
      · exact Or.inr ⟨⟨ks, hks⟩, hm, hlen, hlast⟩
  · left
    unfold nuAesCrypt at ha hok
    dsimp only at ha hok
    split at ha
    · cases ha
    · rename_i hlen
      rw [if_neg hlen] at hok
      split at ha
      · cases ha
      · rename_i ks hks
        rw [hks] at hok
        dsimp only at hok
        split at ha
        · cases ha
        · rename_i m hm
          rw [hm] at hok
          dsimp only at hok
          split at ha
          · cases ha
          · rename_i hin
            rw [if_neg hin] at hok
            split at ha
            · exact Whole.taken a ha
            · rename_i hout
              rw [if_neg hout] at hok
              exact absurd rfl hok

/-- **The accesses**: in CBC, blocks are asked for. -/
theorem inside_iff (hks : aesKeySize ctx.keyBitlen = some ks) (hm : ctx.type = some m)
    (h32 : n < 2 ^ 32) :
    Inside e d ctx n ↔ (m = .cbc → n % 4 = 0 → n % 16 = 0 ∧ n ≠ 0) := by
  constructor
  · rintro hall rfl h4
    have hcall := @nuAesCrypt_taken e _ _ _ _ (fun _ _ => 0)
      (show (SymmetricInfo.mk d 0 0 n true true).length % 4 = 0 from h4) hks hm
      ⟨fun _ => rfl, fun _ => rfl⟩
    have hin := hall ⟨0, 0, n, true, true, fun _ _ => 0, h32⟩ rfl (lastBlock n, 16) (by
      rw [Call.crypt, hcall]
      exact accesses_given aesChain_last)
    exact (lastBlock_inside h32).1 hin
  · rintro hcond c rfl a ha
    rcases nuAesCrypt_accesses ha with rfl | ⟨-, hcbc, h4, rfl⟩
    · exact Nat.le_of_eq (Nat.zero_add _)
    · exact (lastBlock_inside h32).2 (hcond (Option.some.inj (hm.symm.trans hcbc)) h4)

end Call

/-- **The condition**, exactly. -/
theorem nu_aes_cut {e : AesEngine} {d : Dir} {ctx : Symmetric} {cut : Cut} {length : Nat} :
    CutCorrect e d ctx cut length ↔ CutFits e ctx cut length := by
  by_cases hok : ∃ ks m, aesKeySize ctx.keyBitlen = some ks ∧ ctx.type = some m
  · obtain ⟨ks, m, hks, hm⟩ := hok
    have hcond : CutFits e ctx cut length ↔ Carried (e.keyed ks ctx) m ctx.iv cut.blocks ∧
        (m = .cbc → length < 2 ^ 32 → length % 4 = 0 → length % 16 = 0 ∧ length ≠ 0) := by
      constructor
      · exact fun h => h ks m hks hm
      · intro h ks' m' hks' hm'
        cases hks.symm.trans hks'
        cases hm.symm.trans hm'
        exact h
    rw [hcond, CutCorrect, same_iff hks hm, agree_iff]
    refine and_congr_right fun _ => ⟨fun h hcbc h32 => ?_, fun h h32 => ?_⟩
    · exact (inside_iff hks hm h32).1 (h h32) hcbc
    · exact (inside_iff hks hm h32).2 fun hcbc => h hcbc h32
  · refine iff_of_true ⟨?_, ?_⟩ fun ks m hks hm => absurd ⟨ks, m, hks, hm⟩ hok
    · intro cs whole out out' _ _ _ hout'
      rw [outputs] at hout'
      have hne : (whole.crypt e d ctx).1 ≠ .eok := by
        intro heok
        obtain ⟨-, ⟨ks, hks⟩, ⟨m, hm⟩, -⟩ := nuAesCrypt_eok heok
        exact hok ⟨ks, m, hks, hm⟩
      simp only [if_neg hne] at hout'
      cases hout'
    · rintro h32 c rfl a ha
      rcases nuAesCrypt_accesses ha with rfl | ⟨⟨ks, hks⟩, hm, -, -⟩
      · exact Nat.le_of_eq (Nat.zero_add _)
      · exact absurd ⟨ks, .cbc, hks, hm⟩ hok

-- --------
-- An engine for every cipher
-- --------

theorem nuGet32Be_toNat (a b c d : UInt8) (xs : List UInt8) :
    (nuGet32Be (a :: b :: c :: d :: xs)).toNat =
      ((a.toNat * 256 + b.toNat) * 256 + c.toNat) * 256 + d.toNat := by
  have ha := a.toNat_lt
  have hb := b.toNat_lt
  have hc := c.toNat_lt
  have hd := d.toNat_lt
  have h8 : (8 : UInt32).toNat = 8 := rfl
  have h256 : 2 ^ (8 % 32) = 256 := rfl
  simp only [nuGet32Be, List.getD_cons_zero, List.getD_cons_succ, UInt32.toNat_add,
    UInt32.toNat_shiftLeft, UInt8.toNat_toUInt32, h8, Nat.shiftLeft_eq, h256]
  omega

/-- The first block of the data. -/
def Block.ofList (xs : List UInt8) : Block := ⟨(xs ++ List.replicate 16 0).take 16, by simp⟩

def blocksOf : Nat → List UInt8 → List Block
  | 0, _ => []
  | k + 1, xs => Block.ofList xs :: blocksOf k (xs.drop 16)

/-- The bytes of a word, the topmost first. -/
def wordBytes (w : UInt32) : List UInt8 :=
  [.ofNat (w.toNat / 2 ^ 24), .ofNat (w.toNat / 2 ^ 16), .ofNat (w.toNat / 2 ^ 8), .ofNat w.toNat]

theorem wordBytes_get32 (a b c d : UInt8) (xs : List UInt8) :
    wordBytes (nuGet32Be (a :: b :: c :: d :: xs)) = [a, b, c, d] := by
  have hbyte : ∀ (x : UInt8) (n : Nat), n % 256 = x.toNat → UInt8.ofNat n = x := by
    intro x n hn
    rw [← UInt8.toNat_inj, UInt8.toNat_ofNat', hn]
  have ha := a.toNat_lt
  have hb := b.toNat_lt
  have hc := c.toNat_lt
  have hd := d.toNat_lt
  rw [wordBytes, nuGet32Be_toNat, hbyte a _ (by omega), hbyte b _ (by omega), hbyte c _ (by omega),
    hbyte d _ (by omega)]

theorem wordBytes_swapWords (iv : Block) : (swapWords 4 iv.bytes).flatMap wordBytes = iv.bytes := by
  obtain ⟨bytes, size⟩ := iv
  match bytes, size with
  | [b0, b1, b2, b3, b4, b5, b6, b7, b8, b9, b10, b11, b12, b13, b14, b15], _ =>
    change wordBytes (nuGet32Be (b0 :: b1 :: b2 :: b3 :: _)) ++
      (wordBytes (nuGet32Be (b4 :: b5 :: b6 :: b7 :: _)) ++
      (wordBytes (nuGet32Be (b8 :: b9 :: b10 :: b11 :: _)) ++
      (wordBytes (nuGet32Be (b12 :: b13 :: b14 :: b15 :: [])) ++ []))) = _
    simp only [wordBytes_get32]
    rfl

theorem ofList_append (b : Block) (xs : List UInt8) : Block.ofList (b.bytes ++ xs) = b := by
  refine Block.ext ?_
  change ((b.bytes ++ xs) ++ List.replicate 16 0).take 16 = b.bytes
  rw [List.append_assoc, List.take_left' b.size]

theorem blocksOf_flatMap : ∀ bs : List Block, blocksOf bs.length (bs.flatMap Block.bytes) = bs
  | [] => rfl
  | b :: bs => by
    rw [List.length_cons, List.flatMap_cons, blocksOf, ofList_append, List.drop_left' b.size,
      blocksOf_flatMap bs]

theorem length_blocksOf : ∀ (k : Nat) (xs : List UInt8), (blocksOf k xs).length = k
  | 0, _ => rfl
  | k + 1, xs => by rw [blocksOf, List.length_cons, length_blocksOf]

/-- **An engine over a cipher.** -/
def AesEngine.over (cipher : AesKeySize → List UInt32 → Cipher Block) : AesEngine where
  cipher := cipher
  run m d ks key iv data :=
    if data.length % 16 = 0 then
      ((cipher ks key).run m d (.ofList (iv.flatMap wordBytes))
        (blocksOf (data.length / 16) data)).flatMap Block.bytes
    else data
  length_run m d ks key iv data := by
    split
    · rw [length_blocks, Cipher.length_run, length_blocksOf]
      omega
    · rfl
  run_blocks m d ks key iv bs := by
    have hiv : Block.ofList ((swapWords 4 iv.bytes).flatMap wordBytes) = iv := by
      have happ := ofList_append iv []
      rwa [List.append_nil, ← wordBytes_swapWords] at happ
    have hdiv : (bs.flatMap Block.bytes).length / 16 = bs.length := by
      rw [length_blocks]
      omega
    rw [if_pos (by rw [length_blocks]; omega), hiv, hdiv, blocksOf_flatMap]

theorem xor_xor_bytes {xs ys : List UInt8} (h : xs.length = ys.length) :
    List.zipWith (· ^^^ ·) xs (List.zipWith (· ^^^ ·) xs ys) = ys := by
  refine List.ext_getElem (by simp [h]) fun i hi hi' => ?_
  rw [List.getElem_zipWith, List.getElem_zipWith, ← UInt8.xor_assoc, UInt8.xor_self,
    UInt8.zero_xor]

/-- The exclusive or of two blocks. -/
def Block.xor (a b : Block) : Block where
  bytes := List.zipWith (· ^^^ ·) a.bytes b.bytes
  size := by rw [List.length_zipWith, a.size, b.size, min_self]

theorem Block.xor_inj (a : Block) : Function.Injective a.xor := by
  intro b c h
  refine Block.ext ?_
  rw [← xor_xor_bytes (a.size.trans b.size.symm), ← xor_xor_bytes (a.size.trans c.size.symm)]
  exact congrArg _ (Block.ext_iff.1 h)

theorem Block.xor_comm (a b : Block) : a.xor b = b.xor a :=
  Block.ext (List.zipWith_comm_of_comm UInt8.xor_comm)

/-- A cipher that adds one to each byte. -/
def plusOne : Cipher Block where
  enc b := ⟨b.bytes.map (· + 1), by rw [List.length_map, b.size]⟩
  dec b := ⟨b.bytes.map (· - 1), by rw [List.length_map, b.size]⟩
  xor := Block.xor
  next b := ⟨b.bytes.map (· + 1), by rw [List.length_map, b.size]⟩
  enc_inj a b h := Block.ext (List.map_injective_iff.2 (fun _ _ h => by simpa using h)
    (Block.ext_iff.1 h))
  xor_inj_left := Block.xor_inj
  xor_inj_right b a c h := b.xor_inj (by
    rw [b.xor_comm, b.xor_comm]
    exact h)

/-- **Two pieces of one block in CFB**: the second starts with the IV of the first. -/
theorem nu_aes_cut_cfb : ¬ CutCorrect (.over fun _ _ => plusOne) .encrypt
    ⟨some .cfb, 128, ⟨List.replicate 16 0, rfl⟩, Vector.replicate 32 0⟩ ⟨[1, 1], by decide⟩ 16 := by
  rintro ⟨hsame, -⟩
  have hcarried := agree_iff.1 ((same_iff rfl rfl).1 hsame)
  exact absurd (hcarried.2 Nat.one_ne_zero 1 List.mem_cons_self) Nat.one_ne_zero

end RTThread.Crypto
