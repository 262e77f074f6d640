import RTThread.Lib.Network
import RTThread.Ymodem.Receive

/-!
# A YMODEM receiver on whole packets

`rymMove` makes a machine of a program: it puts its characters into a channel and takes them from
another, and what it needs beyond them is in a `RymWorld`, which also records the calls of
`on_begin` and `on_data`. `Goes` is a run of such a machine, `Plays` one to the end of its program.

What the receiver does with a packet, from one wait to the next: it takes the header
(`goes_doHandshake`), hands over and acknowledges each data packet (`goes_transLoop_data`), drops
the header without an answer when it comes again (`goes_transLoop_drop`), and ends a file
(`goes_doFin`).
-/

namespace RTThread.Ymodem

open Interact

/-- The callback has nothing to send. -/
def noFill : RymFill := ⟨rymCodeEot, List.replicate 128 0, by simp, false⟩

/-- The calls of `on_begin` and `on_data` of the receiver. -/
inductive RymCall
  | began (buf : List UInt8)
  | data (buf : List UInt8)

/-- What a program meets beside the channels. -/
structure RymWorld where
  /-- So many waits of the handshake run out before a character is there. -/
  waits : Nat
  /-- The ticks to be read. -/
  ticks : List Nat := []
  calls : List RymCall := []
  /-- What the callbacks of the sender give; `blocks` is for its `on_data`, call by call. -/
  header : RymFill := noFill
  blocks : List RymFill := []
  last : RymFill := noFill

/-- **A program as a machine.** The callbacks of the receiver return `RYM_CODE_ACK`, and no wait
runs out but those of the handshake. -/
def rymMove {α : Type} : Rym α × RymWorld → Move UInt8 (Rym α × RymWorld)
  | (.ret _, _) => .halt
  | (.op (.putchar c) k, w) => .put c (k (), w)
  | (.op (.getchar .hello) k, w) =>
    match w.waits with
    | 0 => .get fun c => (k (some c), w)
    | n + 1 => .go (k none, { w with waits := n })
  | (.op (.getchar _) k, w) => .get fun c => (k (some c), w)
  | (.op .waitchar k, w) => .get fun c => (k c, w)
  | (.op .tickGet k, w) => .go (k (w.ticks.headD 0), { w with ticks := w.ticks.tail })
  | (.op .mdelay k, w) => .go (k (), w)
  | (.op (.onBegin buf) k, w) => .go (k rymCodeAck, { w with calls := w.calls ++ [.began buf] })
  | (.op (.onData buf) k, w) => .go (k rymCodeAck, { w with calls := w.calls ++ [.data buf] })
  | (.op (.onEnd _) k, w) => .go (k rymCodeAck, w)
  | (.op .fillBegin k, w) => .go (k w.header, w)
  | (.op .fillData k, w) => .go (k (w.blocks.headD noFill), { w with blocks := w.blocks.tail })
  | (.op .fillEnd k, w) => .go (k w.last, w)
  | (.op .spin _, _) => .halt

/-- The program comes to `s`, with `ins` there and `ins'` left, and has put `outs`. -/
abbrev Goes {α : Type} (p : Rym α) (w : RymWorld) (ins : List UInt8) (s : Rym α × RymWorld)
    (ins' outs : List UInt8) : Prop :=
  Solo rymMove (p, w) ins s ins' outs

/-- It returns `a`. -/
abbrev Plays {α : Type} (p : Rym α) (w : RymWorld) (ins : List UInt8) (a : α) (w' : RymWorld)
    (ins' outs : List UInt8) : Prop :=
  Goes p w ins (.ret a, w') ins' outs

section Goes

variable {α β : Type} {p : Rym α} {f : α → Rym β} {a : α} {w w₁ : RymWorld}
  {s : Rym β × RymWorld} {ins ins₁ ins₂ outs outs' : List UInt8} {ctx : RymCtx}

theorem Plays.ret : Plays (ret a) w ins a w ins [] := Solo.refl _ _

/-- A program in front of another one. -/
theorem rymMove_bind (s : Rym α × RymWorld) (hs : rymMove s ≠ .halt) :
    rymMove (s.1 >>= f, s.2) = (rymMove s).map fun s => (s.1 >>= f, s.2) := by
  obtain ⟨p, w⟩ := s
  cases p with
  | ret a => exact absurd rfl hs
  | op e k =>
    cases e with
    | getchar wait =>
      cases wait with
      | hello =>
        show (match w.waits with | 0 => _ | n + 1 => _) = Move.map _ (match w.waits with
          | 0 => _
          | n + 1 => _)
        cases w.waits <;> rfl
      | packet => rfl
      | eot => rfl
      | next => rfl
      | chr => rfl
    | spin => exact absurd rfl hs
    | putchar c => rfl
    | waitchar => rfl
    | tickGet => rfl
    | mdelay => rfl
    | onBegin buf => rfl
    | onData buf => rfl
    | onEnd buf => rfl
    | fillBegin => rfl
    | fillData => rfl
    | fillEnd => rfl

theorem Goes.under {q : Rym α} (f : α → Rym β) (h : Goes p w ins (q, w₁) ins₁ outs) :
    Goes (p >>= f) w ins (q >>= f, w₁) ins₁ outs :=
  Solo.map (g := fun s : Rym α × RymWorld => (s.1 >>= f, s.2)) rymMove_bind h

/-- **Composition.** -/
theorem Goes.bind (h : Plays p w ins a w₁ ins₁ outs) (h' : Goes (f a) w₁ ins₁ s ins₂ outs') :
    Goes (p >>= f) w ins s ins₂ (outs ++ outs') :=
  Solo.trans (Goes.under f h) h'

theorem Goes.silent_bind (h : Plays p w ins a w₁ ins₁ [])
    (h' : Goes (f a) w₁ ins₁ s ins₂ outs) : Goes (p >>= f) w ins s ins₂ outs :=
  Goes.bind h h'

theorem Goes.bind_silent (h : Plays p w ins a w₁ ins₁ outs)
    (h' : Goes (f a) w₁ ins₁ s ins₂ []) : Goes (p >>= f) w ins s ins₂ outs := by
  have := Goes.bind h h'
  rwa [List.append_nil] at this

theorem Goes.pos {c : Prop} [Decidable c] {p q : Rym β} (hc : c) (h : Goes p w ins s ins₁ outs) :
    Goes (if c then p else q) w ins s ins₁ outs := by
  rwa [if_pos hc]

theorem Goes.neg {c : Prop} [Decidable c] {p q : Rym β} (hc : ¬ c)
    (h : Goes q w ins s ins₁ outs) : Goes (if c then p else q) w ins s ins₁ outs := by
  rwa [if_neg hc]

theorem Goes.putchar {c : UInt8} {f : Unit → Rym β} (h : Goes (f ()) w ins s ins₂ outs) :
    Goes (rymPutchar c >>= f) w ins s ins₂ (c :: outs) := Solo.put rfl h

theorem Goes.tickGet {f : Nat → Rym β} {t : Nat} {ts : List Nat} (hticks : w.ticks = t :: ts)
    (h : Goes (f t) { w with ticks := ts } ins s ins₂ outs) :
    Goes (rtTickGet >>= f) w ins s ins₂ outs := by
  refine Solo.go rfl ?_
  rw [hticks]
  exact h

theorem Goes.mdelay {f : Unit → Rym β} (h : Goes (f ()) w ins s ins₂ outs) :
    Goes (rtThreadMdelay >>= f) w ins s ins₂ outs := Solo.go rfl h

theorem Goes.callBegin {f : UInt8 → Rym β} {buf : List UInt8}
    (h : Goes (f rymCodeAck) { w with calls := w.calls ++ [.began buf] } ins s ins₂ outs) :
    Goes (onBegin buf >>= f) w ins s ins₂ outs := Solo.go rfl h

theorem Goes.callEnd {f : UInt8 → Rym β} {buf : List UInt8}
    (h : Goes (f rymCodeAck) w ins s ins₂ outs) :
    Goes (onEnd buf >>= f) w ins s ins₂ outs := Solo.go rfl h

theorem Goes.readCode {wait : RymWait} {f : UInt8 × RymCtx → Rym β} {c : UInt8}
    (hwait : wait ≠ .hello)
    (h : Goes (f (c, { ctx with buf := Function.update ctx.buf 0 c })) w ins s ins₂ outs) :
    Goes (rymReadCode ctx wait >>= f) w (c :: ins) s ins₂ outs := by
  cases wait with
  | hello => exact absurd rfl hwait
  | packet => exact Solo.get rfl h
  | eot => exact Solo.get rfl h
  | next => exact Solo.get rfl h
  | chr => exact Solo.get rfl h

/-- The whole of what is to be read is there. -/
theorem Plays.readData (bs : List UInt8) : ∀ (ctx : RymCtx) (n : Nat),
    Plays (rymReadData ctx bs.length n) w (bs ++ ins)
      (n + bs.length, { ctx with buf := ctx.buf.storeBytes (1 + n) bs }) w ins [] := by
  induction bs with
  | nil =>
    intro ctx n
    have hbuf : ctx.buf.storeBytes (1 + n) [] = ctx.buf := by
      funext x
      simp [ByteMem.storeBytes]
    rw [hbuf]
    exact Plays.ret
  | cons c bs ih =>
    intro ctx n
    have hrest := ih { ctx with buf := Function.update ctx.buf (1 + n) c } (n + 1)
    dsimp only at hrest
    rw [Nat.add_right_comm n 1 bs.length, ← Nat.add_assoc 1 n 1, ByteMem.storeBytes_update] at hrest
    exact Solo.get rfl hrest

end Goes

-- --------
-- The receiver on whole packets
-- --------

/-- A packet without its code. -/
def packetBody (index : UInt8) (data : List UInt8) : List UInt8 :=
  index :: ~~~index :: data ++ [(crc16 data >>> 8).toUInt8, (crc16 data).toUInt8]

theorem length_packetBody (index : UInt8) (data : List UInt8) :
    (packetBody index data).length = data.length + 4 := by
  simp [packetBody]

theorem packet_checks (m : ByteMem) (index : UInt8) {data : List UInt8} {n : Nat}
    (hlen : data.length = n) :
    m.storeBytes 1 (packetBody index data) 1 = index ∧
      m.storeBytes 1 (packetBody index data) 2 = ~~~index ∧
      (m.storeBytes 1 (packetBody index data)).loadBytes 3 n = data ∧
      crcOf (m.storeBytes 1 (packetBody index data) (n + 3))
        (m.storeBytes 1 (packetBody index data) (n + 4)) = crc16 data := by
  obtain ⟨ha, hb, hload, hhi, hlo⟩ := @packet_stored m index (~~~index)
    (crc16 data >>> 8).toUInt8 (crc16 data).toUInt8 data n hlen
  exact ⟨ha, hb, hload, (crcOf_eq_iff _ _ _).mpr ⟨hhi, hlo⟩⟩

section Receiver

variable {α : Type} {a : α} {w w₂ : RymWorld} {ins ins₂ outs : List UInt8} {ctx : RymCtx}
  {index : UInt8} {data : List UInt8} {n ms100 fuel : Nat}

theorem Plays.readBody {f : Nat × RymCtx → Rym α} (hn : data.length + 4 = n)
    (h : Plays (f (n, { ctx with buf := ctx.buf.storeBytes 1 (packetBody index data) }))
      w ins a w₂ ins₂ outs) :
    Plays (rymReadData ctx n 0 >>= f) w (packetBody index data ++ ins) a w₂ ins₂ outs := by
  have hread := @Plays.readData w ins (packetBody index data) ctx 0
  rw [length_packetBody, hn, Nat.zero_add] at hread
  exact Goes.silent_bind hread h

/-- A data packet is handed over. -/
theorem Plays.transData (hn : data.length = n) (hfirst : ctx.stage = .established → index ≠ 0) :
    Plays (rymTransData n ctx) w (packetBody index data ++ ins)
      (.ok (rymCodeAck, ⟨.transmitting, ctx.buf.storeBytes 1 (packetBody index data)⟩))
      { w with calls := w.calls ++ [.data data] } ins [] := by
  obtain ⟨ha, hb, hload, hcrc⟩ := packet_checks ctx.buf index hn
  have hseq : index.toNat + (~~~index).toNat = 0xFF := (add_eq_255_iff _ _).mpr rfl
  refine Plays.readBody (by omega) (Goes.neg (fun h => h rfl) (Goes.neg ?_ (Goes.neg ?_
    (Goes.neg ?_ ?_))))
  · dsimp only
    rw [ha, hb]
    exact fun h => h hseq
  · dsimp only
    rw [ha]
    exact fun h => hfirst h.1 h.2
  · rw [hload, show 2 + n + 2 - 1 = n + 3 by omega, show 2 + n + 2 = n + 4 by omega]
    exact fun h => h hcrc
  · rw [hload]
    exact Solo.go rfl Plays.ret

/-- The first packet is dropped when it comes again. -/
theorem Plays.transData_first (hn : data.length = n) (hstage : ctx.stage = .established) :
    Plays (rymTransData n ctx) w (packetBody 0 data ++ ins)
      (.ok (rymCodeNone, ⟨.established, ctx.buf.storeBytes 1 (packetBody 0 data)⟩)) w ins [] := by
  obtain ⟨ha, hb, -, -⟩ := packet_checks ctx.buf 0 hn
  refine Plays.readBody (by omega) (Goes.neg (fun h => h rfl) (Goes.neg ?_ (Goes.pos ?_ ?_)))
  · dsimp only
    rw [ha, hb]
    decide
  · exact ⟨hstage, ha⟩
  · rw [hstage]
    exact Plays.ret

end Receiver

-- --------
-- The packets of a sender
-- --------

/-- A packet, and how many of its acknowledgements are lost. -/
structure SentPacket where
  data : List UInt8
  size : data.length = 128 ∨ data.length = 1024
  again : Nat

def SentPacket.code (p : SentPacket) : UInt8 :=
  if p.data.length = 128 then rymCodeSoh else rymCodeStx

-- --------
-- The receiver on a session
-- --------

section Session

variable {w w₁ w₂ : RymWorld} {ins ins₂ outs : List UInt8} {ctx ctx' : RymCtx} {index : UInt8}
  {r : Except RymErr RymCtx} {n ms100 fuel : Nat}

theorem SentPacket.code_cases (p : SentPacket) :
    (p.code = rymCodeSoh ∧ p.data.length = 128) ∨ (p.code = rymCodeStx ∧ p.data.length = 1024) := by
  rcases p.size with hsize | hsize
  · exact Or.inl ⟨if_pos hsize, hsize⟩
  · exact Or.inr ⟨if_neg (by omega), hsize⟩

theorem SentPacket.length_data (p : SentPacket) :
    p.data.length = if p.code = rymCodeSoh then 128 else 1024 := by
  rcases p.code_cases with ⟨hcode, hsize⟩ | ⟨hcode, hsize⟩
  · rw [if_pos hcode, hsize]
  · rw [if_neg (by rw [hcode]; decide), hsize]

/-- A round of `_rym_do_trans`. -/
theorem Goes.transLoop_round (p : SentPacket) {code : UInt8}
    {s : Rym (Except RymErr RymCtx) × RymWorld}
    (hdata : Plays (rymTransData (if p.code = rymCodeSoh then 128 else 1024)
      { ctx with buf := Function.update ctx.buf 0 p.code }) w (packetBody index p.data ++ ins)
      (.ok (code, ctx')) w₁ ins [])
    (hcan : code ≠ rymCodeCan) {acks : List UInt8}
    (hacks : acks = if code = rymCodeAck then [rymCodeAck] else [])
    (hrest : Goes (rymTransLoop fuel ctx') w₁ ins s ins₂ outs) :
    Goes (rymTransLoop (fuel + 1) ctx) w (packetBytes p.code index p.data ++ ins) s ins₂
      (acks ++ outs) := by
  refine Goes.readCode (by decide) (Goes.neg ?_ (Goes.neg ?_ (Goes.silent_bind hdata
    (Goes.neg hcan ?_))))
  · rcases p.code_cases with ⟨hcode, -⟩ | ⟨hcode, -⟩ <;> rw [hcode] <;> decide
  · rcases p.code_cases with ⟨hcode, -⟩ | ⟨hcode, -⟩
    · exact fun hno => hno.1 hcode
    · exact fun hno => hno.2 hcode
  · by_cases hack : code = rymCodeAck
    · rw [if_pos hack] at hacks
      subst hacks
      exact Goes.pos hack (Goes.putchar hrest)
    · rw [if_neg hack] at hacks
      subst hacks
      exact Goes.neg hack hrest

/-- `_rym_do_fin` up to the look at the name in the last packet. -/
theorem Plays.doFin_name {header : List UInt8} (hlen : header.length = 128) {buf : ByteMem}
    (hbuf : buf = ByteMem.storeBytes (Function.update (Function.update ctx.buf 0 rymCodeEot) 0
      rymCodeSoh) 1 (packetBody 0 header))
    (h : Plays (if buf 3 ≠ 0 then do
        let code ← onBegin header
        if code ≠ rymCodeAck then return .error .can else return .ok ⟨.finishing, buf⟩
      else do
        rymPutchar rymCodeAck
        return .ok ⟨.finished, buf⟩) w ins r w₂ ins₂ outs) :
    Plays (rymDoFin ctx) w (rymCodeEot :: (packetBytes rymCodeSoh 0 header ++ ins)) r w₂ ins₂
      (rymCodeNak :: rymCodeAck :: rymCodeC :: outs) := by
  obtain ⟨ha, hb, hload, hcrc⟩ := packet_checks
    (Function.update (Function.update ctx.buf 0 rymCodeEot) 0 rymCodeSoh) 0 hlen
  subst hbuf
  refine Goes.callEnd (Goes.putchar (Goes.readCode (by decide) (Goes.neg (fun h => h rfl) ?_)))
  refine Goes.putchar (Goes.putchar (Goes.readCode (by decide) (Goes.neg (by decide) ?_)))
  refine Plays.readBody (by rw [hlen]; rfl) (Goes.neg (fun h => h rfl) (Goes.neg ?_
    (Goes.neg ?_ ?_)))
  · dsimp only
    rw [ha, hb]
    decide
  · dsimp only
    rw [show sohPkgSz - 5 = 128 by decide, hload]
    exact fun h => h hcrc
  · dsimp only
    rw [if_pos (show rymCodeSoh = rymCodeSoh from rfl), show sohPkgSz - 5 = 128 by decide, hload]
    exact h

theorem buf_three {buf : ByteMem} {x : UInt8} {rest : List UInt8}
    (h : buf.loadBytes 3 128 = x :: rest) : buf 3 = x := by
  have hhead := congrArg List.head? h
  rw [ByteMem.loadBytes, List.range_succ_eq_map] at hhead
  exact Option.some.inj hhead

/-- `_rym_do_fin` when another file follows. -/
theorem plays_doFin_next (ctx : RymCtx) {header : List UInt8} (hlen : header.length = 128)
    (hname : header.head? ≠ some 0) :
    ∃ ctx', ctx'.stage = .finishing ∧ Plays (rymDoFin ctx) w
      (rymCodeEot :: (packetBytes rymCodeSoh 0 header ++ ins)) (.ok ctx')
      { w with calls := w.calls ++ [.began header] } ins [rymCodeNak, rymCodeAck, rymCodeC] := by
  obtain ⟨-, -, hload, -⟩ := packet_checks
    (Function.update (Function.update ctx.buf 0 rymCodeEot) 0 rymCodeSoh) 0 hlen
  cases header with
  | nil => cases hlen
  | cons x rest =>
    refine ⟨⟨.finishing, ByteMem.storeBytes (Function.update (Function.update ctx.buf 0 rymCodeEot)
      0 rymCodeSoh) 1 (packetBody 0 (x :: rest))⟩, rfl,
      Plays.doFin_name hlen rfl (Goes.pos ?_ (Goes.callBegin (Goes.neg (fun h => h rfl)
        Plays.ret)))⟩
    rw [buf_three hload]
    exact fun hx => hname (congrArg some hx)

theorem plays_doFin_last (ctx : RymCtx) :
    ∃ ctx', ctx'.stage = .finished ∧ Plays (rymDoFin ctx) w
      (rymCodeEot :: (packetBytes rymCodeSoh 0 (List.replicate 128 0) ++ ins)) (.ok ctx') w ins
      [rymCodeNak, rymCodeAck, rymCodeC, rymCodeAck] := by
  have hlen : (List.replicate 128 (0 : UInt8)).length = 128 := List.length_replicate
  obtain ⟨-, -, hload, -⟩ := packet_checks
    (Function.update (Function.update ctx.buf 0 rymCodeEot) 0 rymCodeSoh) 0 hlen
  exact ⟨⟨.finished, _⟩, rfl, Plays.doFin_name hlen rfl (Goes.neg (fun h => h (buf_three hload))
    (Goes.putchar Plays.ret))⟩

/-- The handshake sends its character until one comes. -/
theorem plays_hello (p : SentPacket) (waits : Nat) : ∀ tmSec : Nat, waits < tmSec →
    Plays (rymHello ctx tmSec) { w with waits } (p.code :: ins)
      (some (p.data.length + 5), { ctx with buf := Function.update ctx.buf 0 p.code })
      { w with waits := 0 } ins (List.replicate (waits + 1) rymCodeC) := by
  induction waits with
  | zero =>
    intro tmSec htm
    obtain ⟨n, rfl⟩ : ∃ k, tmSec = k + 1 := ⟨tmSec - 1, by omega⟩
    refine Goes.putchar (Solo.get rfl ?_)
    rcases p.code_cases with ⟨hcode, hlen⟩ | ⟨hcode, hlen⟩
    · rw [hlen]
      exact Goes.pos hcode Plays.ret
    · rw [hlen]
      exact Goes.neg (show p.code ≠ rymCodeSoh by rw [hcode]; decide) (Goes.pos hcode Plays.ret)
  | succ waits ih =>
    intro tmSec htm
    obtain ⟨n, rfl⟩ : ∃ k, tmSec = k + 1 := ⟨tmSec - 1, by omega⟩
    exact Goes.putchar (Solo.go rfl (ih n (Nat.lt_of_succ_lt_succ htm)))

/-- **The handshake**, when the tick has not come behind its deadline. -/
theorem plays_doHandshake (ctx : RymCtx) (p : SentPacket) {waits tmSec tick now later : Nat}
    (hwaits : waits < tmSec) (hfuel : 2 ≤ fuel) (hnow : now ≤ (tick + ms100) % 2 ^ 32) :
    ∃ ctx', Plays (rymDoHandshake ms100 fuel tmSec ctx) { w with waits, ticks := [tick, now, later] }
      (packetBytes p.code 0 p.data ++ ins) (.ok ctx')
      { w with waits := 0, ticks := [], calls := w.calls ++ [.began p.data] } ins
      (List.replicate (waits + 1) rymCodeC) := by
  obtain ⟨fuel, rfl⟩ : ∃ k, fuel = k + 2 := ⟨fuel - 2, by omega⟩
  obtain ⟨ha, hb, hload, hcrc⟩ := packet_checks (Function.update ctx.buf 0 p.code) 0
    (show p.data.length = p.data.length from rfl)
  have hlen : p.data.length + 5 - 1 = p.data.length + 4 := rfl
  have hhello := @plays_hello { w with ticks := [tick, now, later] } (packetBody 0 p.data ++ ins)
    { ctx with stage := .establishing } p waits tmSec hwaits
  have hread : Plays (rymHelloData ((tick + ms100) % 2 ^ 32) (p.data.length + 5) (fuel + 2)
      ⟨.establishing, Function.update ctx.buf 0 p.code⟩ 0)
      { w with waits := 0, ticks := [now, later] } (packetBody 0 p.data ++ ins)
      (p.data.length + 4, ⟨.establishing,
        ByteMem.storeBytes (Function.update ctx.buf 0 p.code) 1 (packetBody 0 p.data)⟩)
      { w with waits := 0, ticks := [] } ins [] := by
    refine Goes.tickGet rfl (Goes.pos ⟨hnow, Nat.succ_pos (p.data.length + 3)⟩ (Plays.readBody rfl
      (Goes.mdelay (Goes.tickGet rfl (Goes.neg ?_ ?_)))))
    · rintro ⟨-, hlt⟩
      omega
    · rw [Nat.zero_add]
      exact Plays.ret
  refine ⟨⟨.establishing, ByteMem.storeBytes (Function.update ctx.buf 0 p.code) 1
    (packetBody 0 p.data)⟩, Goes.bind_silent hhello (Goes.tickGet rfl
    (Goes.silent_bind hread (Goes.neg (fun h => h rfl) (Goes.neg ?_ (Goes.neg ?_ ?_)))))⟩
  · dsimp only
    rw [ha, hb]
    decide
  · dsimp only
    rw [Nat.add_sub_cancel, hload]
    exact fun h => h hcrc
  · dsimp only
    rw [Nat.add_sub_cancel, hload]
    exact Goes.callBegin (Goes.neg (fun h => h rfl) Plays.ret)

/-- A handshake whose deadline has wrapped around gives up at once. -/
theorem plays_doHandshake_late (ctx : RymCtx) (p : SentPacket)
    {waits tmSec tick now later : Nat} (hwaits : waits < tmSec) (hfuel : 2 ≤ fuel)
    (hnow : ¬ now ≤ (tick + ms100) % 2 ^ 32) :
    Plays (rymDoHandshake ms100 fuel tmSec ctx) { w with waits, ticks := [tick, now, later] }
      (packetBytes p.code 0 p.data ++ ins) (.error .dsz)
      { w with waits := 0, ticks := [later] } (packetBody 0 p.data ++ ins)
      (List.replicate (waits + 1) rymCodeC) := by
  obtain ⟨fuel, rfl⟩ : ∃ k, fuel = k + 2 := ⟨fuel - 2, by omega⟩
  have hhello := @plays_hello { w with ticks := [tick, now, later] } (packetBody 0 p.data ++ ins)
    { ctx with stage := .establishing } p waits tmSec hwaits
  have hread : Plays (rymHelloData ((tick + ms100) % 2 ^ 32) (p.data.length + 5) (fuel + 2)
      ⟨.establishing, Function.update ctx.buf 0 p.code⟩ 0)
      { w with waits := 0, ticks := [now, later] } (packetBody 0 p.data ++ ins)
      (0, ⟨.establishing, Function.update ctx.buf 0 p.code⟩)
      { w with waits := 0, ticks := [later] } (packetBody 0 p.data ++ ins) [] :=
    Goes.tickGet rfl (Goes.neg (fun h => hnow h.1) Plays.ret)
  refine Goes.bind_silent hhello (Goes.tickGet rfl (Goes.silent_bind hread (Goes.pos ?_
    Plays.ret)))
  exact (Nat.succ_ne_zero (p.data.length + 3)).symm

end Session

-- --------
-- The receiver, from one wait to the next
-- --------

section Waits

variable {w : RymWorld} {ctx : RymCtx} {index : UInt8}
  {ms100 fuel waits tmSec tick now later : Nat}

theorem goes_hello (waits : Nat) : ∀ tmSec : Nat, waits < tmSec →
    ∃ t, Goes (rymHello ctx tmSec) { w with waits } [] t []
      (List.replicate (waits + 1) rymCodeC) := by
  induction waits with
  | zero =>
    intro tmSec htm
    obtain ⟨n, rfl⟩ : ∃ k, tmSec = k + 1 := ⟨tmSec - 1, by omega⟩
    exact ⟨_, Solo.put rfl (Solo.refl _ _)⟩
  | succ waits ih =>
    intro tmSec htm
    obtain ⟨n, rfl⟩ : ∃ k, tmSec = k + 1 := ⟨tmSec - 1, by omega⟩
    obtain ⟨t, ht⟩ := ih n (Nat.lt_of_succ_lt_succ htm)
    exact ⟨t, Goes.putchar (Solo.go rfl ht)⟩

/-- The receiver announces itself, and takes the header. -/
theorem goes_doHandshake (p : SentPacket) (hwaits : waits < tmSec) (hfuel : 2 ≤ fuel) :
    ∃ t : Rym (Except RymErr RymCtx) × RymWorld,
      Goes (rymDoHandshake ms100 fuel tmSec ctx) { w with waits, ticks := [tick, now, later] }
        [] t [] (List.replicate (waits + 1) rymCodeC) ∧
      (now ≤ (tick + ms100) % 2 ^ 32 → ∃ ctx', Goes t.1 t.2 (packetBytes p.code 0 p.data)
        (ret (.ok ctx'), { w with waits := 0, ticks := [], calls := w.calls ++ [.began p.data] })
        [] []) ∧
      (¬ now ≤ (tick + ms100) % 2 ^ 32 → ∃ w' ins, w'.calls = w.calls ∧
        Goes t.1 t.2 (packetBytes p.code 0 p.data) (ret (.error .dsz), w') ins []) := by
  obtain ⟨t, hhello⟩ := @goes_hello { w with ticks := [tick, now, later] }
    { ctx with stage := .establishing } waits tmSec hwaits
  have hput : Goes (rymDoHandshake ms100 fuel tmSec ctx)
      { w with waits, ticks := [tick, now, later] } [] _ [] (List.replicate (waits + 1) rymCodeC) :=
    Goes.under _ hhello
  refine ⟨_, hput, fun hnow => ?_, fun hnow => ?_⟩
  · obtain ⟨ctx', hplay⟩ := @plays_doHandshake w [] ms100 fuel ctx p waits tmSec tick now later
      hwaits hfuel hnow
    rw [List.append_nil] at hplay
    obtain ⟨rest, hrest, hout⟩ := Solo.rest hput hplay rfl
    rw [List.self_eq_append_right.mp hout] at hrest
    exact ⟨ctx', hrest⟩
  · have hplay := @plays_doHandshake_late w [] ms100 fuel ctx p waits tmSec tick now later
      hwaits hfuel hnow
    rw [List.append_nil] at hplay
    obtain ⟨rest, hrest, hout⟩ := Solo.rest hput hplay rfl
    rw [List.self_eq_append_right.mp hout] at hrest
    exact ⟨{ w with waits := 0, ticks := [later] }, _, rfl, hrest⟩

/-- A data packet is handed over, and acknowledged. -/
theorem goes_transLoop_data (p : SentPacket) (index : UInt8)
    (hfirst : ctx.stage = .established → index ≠ 0) :
    ∃ ctx', ctx'.stage = .transmitting ∧
      Goes (rymTransLoop (fuel + 1) ctx) w (packetBytes p.code index p.data)
        (rymTransLoop fuel ctx', { w with calls := w.calls ++ [.data p.data] }) [] [rymCodeAck] := by
  have hdata := @Plays.transData w [] { ctx with buf := Function.update ctx.buf 0 p.code }
    index p.data _ p.length_data hfirst
  have hround := Goes.transLoop_round p hdata (by decide) rfl
    (@Solo.refl _ _ rymMove (rymTransLoop fuel _, _) [])
  rw [List.append_nil] at hround
  exact ⟨_, rfl, hround⟩

/-- The header once more is dropped, and not acknowledged. -/
theorem goes_transLoop_drop (p : SentPacket) (hstage : ctx.stage = .established) :
    ∃ ctx', ctx'.stage = .established ∧
      Goes (rymTransLoop (fuel + 1) ctx) w (packetBytes p.code 0 p.data)
        (rymTransLoop fuel ctx', w) [] [] := by
  have hdata := @Plays.transData_first w [] { ctx with buf := Function.update ctx.buf 0 p.code }
    p.data _ p.length_data hstage
  have hround := Goes.transLoop_round p hdata (by decide) rfl
    (@Solo.refl _ _ rymMove (rymTransLoop fuel _, _) [])
  rw [List.append_nil] at hround
  exact ⟨_, rfl, hround⟩

theorem goes_transLoop_eot : ∃ ctx', Goes (rymTransLoop (fuel + 1) ctx) w [rymCodeEot]
    (ret (.ok ctx'), w) [] [] :=
  ⟨{ ctx with buf := Function.update ctx.buf 0 rymCodeEot },
    Goes.readCode (by decide) (Goes.pos rfl Plays.ret)⟩

/-- The end of a file, and what follows it: the packet of no file, or the next header. -/
theorem goes_doFin (ctx : RymCtx) : ∃ t₁ t₂ : Rym (Except RymErr RymCtx) × RymWorld,
    Goes (rymDoFin ctx) w [] t₁ [] [rymCodeNak] ∧
    Goes t₁.1 t₁.2 [rymCodeEot] t₂ [] [rymCodeAck, rymCodeC] ∧
    (∃ ctx', ctx'.stage = .finished ∧ Goes t₂.1 t₂.2
      (packetBytes rymCodeSoh 0 (List.replicate 128 0)) (ret (.ok ctx'), w) [] [rymCodeAck]) ∧
    ∀ header : List UInt8, header.length = 128 → header.head? ≠ some 0 →
      ∃ ctx', ctx'.stage = .finishing ∧ Goes t₂.1 t₂.2 (packetBytes rymCodeSoh 0 header)
        (ret (.ok ctx'), { w with calls := w.calls ++ [.began header] }) [] [] := by
  obtain ⟨t₁, t₂, h₁, h₂⟩ : ∃ t₁ t₂ : Rym (Except RymErr RymCtx) × RymWorld,
      Goes (rymDoFin ctx) w [] t₁ [] [rymCodeNak] ∧
      Goes t₁.1 t₁.2 [rymCodeEot] t₂ [] [rymCodeAck, rymCodeC] :=
    ⟨_, _, Goes.callEnd (Goes.putchar (Solo.refl _ _)), Goes.readCode (by decide)
      (Goes.neg (fun h => h rfl) (Goes.putchar (Goes.putchar (Solo.refl _ _))))⟩
  have hfront := Solo.trans (h₁.more [rymCodeEot]) h₂
  refine ⟨t₁, t₂, h₁, h₂, ?_, fun header hlen hname => ?_⟩
  · obtain ⟨ctx', hstage, hplay⟩ := @plays_doFin_last w [] ctx
    rw [List.append_nil] at hplay
    obtain ⟨rest, hrest, hout⟩ := Solo.rest hfront hplay rfl
    rw [(List.append_cancel_left hout.symm : rest = [rymCodeAck])] at hrest
    exact ⟨ctx', hstage, hrest⟩
  · obtain ⟨ctx', hstage, hplay⟩ := @plays_doFin_next w [] ctx header hlen hname
    rw [List.append_nil] at hplay
    obtain ⟨rest, hrest, hout⟩ := Solo.rest hfront hplay rfl
    rw [(List.append_cancel_left hout.symm : rest = [])] at hrest
    exact ⟨ctx', hstage, hrest⟩

end Waits

-- --------
-- Two sides
-- --------

section Sides

variable {α β : Type}

theorem Goes.getchar {w : RymWorld} {s : Rym α × RymWorld} {ins ins' outs : List UInt8}
    {f : UInt8 → Rym α} {c : UInt8} (h : Goes (f c) w ins s ins' outs) :
    Goes (rymGetchar >>= f) w (c :: ins) s ins' outs := Solo.get rfl h

theorem plays_write {w : RymWorld} {ins : List UInt8} (cs : List UInt8) :
    Plays (rymWrite cs) w ins () w ins cs := by
  induction cs with
  | nil => exact Plays.ret
  | cons c cs ih => exact Goes.putchar ih

theorem comes_left {s s' : Rym α × RymWorld} {l l' out : List UInt8}
    (h : Solo rymMove s l s' l' out) (t : Rym β × RymWorld) :
    Net.Reaches rymMove rymMove ⟨s, t, [], l⟩ ⟨s', t, out, l'⟩ := by
  have := @Solo.left _ _ _ _ rymMove _ _ _ _ _ h t []
  rwa [List.nil_append] at this

theorem comes_right {t t' : Rym β × RymWorld} {r r' out : List UInt8}
    (h : Solo rymMove t r t' r' out) (s : Rym α × RymWorld) :
    Net.Reaches rymMove rymMove ⟨s, t, r, []⟩ ⟨s, t', r', out⟩ := by
  have := @Solo.right _ _ _ rymMove _ _ _ _ _ _ h s []
  rwa [List.nil_append] at this

/-- What the receiver does behind its handshake, behind the blocks, and behind the file. -/
def afterHello (fuel : Nat) : Except RymErr RymCtx → Rym (Except RymErr RymCtx)
  | .error e => ret (.error e)
  | .ok ctx => rymRecvLoop fuel fuel ctx

def afterFile (fuel files : Nat) : Except RymErr RymCtx → Rym (Except RymErr RymCtx)
  | .error e => ret (.error e)
  | .ok ctx => if ctx.stage = .finished then ret (.ok ctx) else rymRecvLoop fuel files ctx

def afterTrans (fuel files : Nat) : Except RymErr RymCtx → Rym (Except RymErr RymCtx)
  | .error e => ret (.error e)
  | .ok ctx => rymDoFin ctx >>= afterFile fuel files

theorem rymDoRecv_eq (ms100 fuel tmSec : Nat) (ctx : RymCtx) : rymDoRecv ms100 fuel tmSec ctx =
    rymDoHandshake ms100 fuel tmSec { ctx with stage := .none } >>= afterHello fuel := rfl

theorem rymRecvLoop_eq (fuel files : Nat) (ctx : RymCtx) :
    rymRecvLoop fuel (files + 1) ctx = rymDoTrans fuel ctx >>= afterTrans fuel files := rfl

end Sides

end RTThread.Ymodem
