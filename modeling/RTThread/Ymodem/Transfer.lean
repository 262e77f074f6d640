import RTThread.Ymodem.Session

/-!
# A file between `rym_send_on_device` and `rym_recv_on_device`

The two programs in a network whose channels lose nothing. How the two sides are started is in the
number of waits of their handshakes that run out. The order of the steps does not matter
(`Net.unique`), so one schedule decides what every other one comes to: `transfer_right`, in which
everything arrives, `transfer_stale`, in which the receiver has announced itself twice before the
sender answers, `transfer_late` and `transfer_empty`.
-/

namespace RTThread.Ymodem

open Interact

/-- A block of the file. -/
abbrev Block := { b : List UInt8 // b.length = 128 }

/-- What `on_data` of the sender gives for a block. -/
def blockFill (b : Block) (finishing : Bool) : RymFill := ⟨rymCodeSoh, b.1, b.2, finishing⟩

/-- What it gives for the blocks of a file: with the last one it sets the stage. -/
def blockFills : List Block → List RymFill
  | [] => []
  | b :: bs => blockFill b bs.isEmpty :: blockFills bs

/-- The sender of a file, `waits` of whose waits for the receiver run out. -/
def senderWorld (waits : Nat) (header : Block) (blocks : List Block) : RymWorld where
  waits := waits
  header := blockFill header false
  blocks := blockFills blocks
  last := ⟨rymCodeSoh, List.replicate 128 0, noFill.length_data, false⟩

-- --------
-- The sender
-- --------

section Sender

variable {α : Type} {f : UInt8 → Rym α} {w : RymWorld} {s : Rym α × RymWorld}
  {ins ins' outs : List UInt8} {fuel index : Nat}

theorem Goes.fillBegin {f : RymFill → Rym α} (h : Goes (f w.header) w ins s ins' outs) :
    Goes (fillBegin >>= f) w ins s ins' outs := Solo.go rfl h

theorem Goes.fillData {f : RymFill → Rym α} {fill : RymFill} {fills : List RymFill}
    (hfill : w.blocks.headD noFill = fill) (hfills : w.blocks.tail = fills)
    (h : Goes (f fill) { w with blocks := fills } ins s ins' outs) :
    Goes (fillData >>= f) w ins s ins' outs := by
  subst hfill hfills
  exact Solo.go rfl h

theorem Goes.fillEnd {f : RymFill → Rym α} (h : Goes (f w.last) w ins s ins' outs) :
    Goes (fillEnd >>= f) w ins s ins' outs := Solo.go rfl h

theorem Goes.hello {f : Option UInt8 → Rym α} {c : UInt8} (hwaits : w.waits = 0)
    (h : Goes (f (some c)) w ins s ins' outs) :
    Goes (awaitChar .hello >>= f) w (c :: ins) s ins' outs := by
  refine Solo.get (k := fun c => (ret (some c) >>= f, w)) ?_ h
  simp only [rymMove, awaitChar, op_bind, hwaits]

theorem Goes.sendPacket {code index : UInt8} {fill : RymFill} {f : Unit → Rym α}
    (h : Goes (f ()) w ins s ins' outs) :
    Goes (rymSendPacket code index fill >>= f) w ins s ins'
      (packetBytes code index fill.data ++ outs) :=
  Goes.bind (plays_write _) h

/-- The sender waits until the receiver has announced itself. -/
theorem plays_sendHello (waits : Nat) : ∀ tmSec : Nat, waits < tmSec →
    Plays (rymSendHello tmSec) { w with waits } (rymCodeC :: ins) true { w with waits := 0 } ins
      [] := by
  induction waits with
  | zero =>
    intro tmSec htm
    obtain ⟨n, rfl⟩ : ∃ k, tmSec = k + 1 := ⟨tmSec - 1, by omega⟩
    exact Goes.hello rfl (Goes.pos rfl Plays.ret)
  | succ waits ih =>
    intro tmSec htm
    obtain ⟨n, rfl⟩ : ∃ k, tmSec = k + 1 := ⟨tmSec - 1, by omega⟩
    exact Solo.go rfl (ih n (Nat.lt_of_succ_lt_succ htm))

/-- The sender up to the acknowledgement of the header, and what two characters do there. -/
theorem goes_sendHandshake {waits tmSec : Nat} (hwaits : waits < tmSec)
    (hcode : w.header.code = rymCodeSoh) :
    ∃ s : Rym (Except RymErr Unit) × RymWorld,
      Goes (rymDoSendHandshake tmSec) { w with waits } [rymCodeC] s []
        (packetBytes rymCodeSoh 0 w.header.data) ∧
      Goes s.1 s.2 [rymCodeAck, rymCodeC] (ret (.ok ()), { w with waits := 0 }) [] [] ∧
      Goes s.1 s.2 [rymCodeC] (ret (.error .ack), { w with waits := 0 }) [] [] := by
  have hpacket : packetBytes rymCodeSoh 0 w.header.data =
      [] ++ (packetBytes rymCodeSoh 0 w.header.data ++ []) := (List.append_nil _).symm
  rw [hpacket]
  refine ⟨_, Goes.bind (plays_sendHello waits tmSec hwaits) (Goes.pos rfl (Goes.fillBegin
    (Goes.neg (fun h => h hcode) (Goes.sendPacket (Solo.refl _ _))))), ?_, ?_⟩
  · exact Goes.getchar (Goes.neg (fun h => h rfl) (Goes.getchar (Goes.neg (fun h => h rfl)
      Plays.ret)))
  · exact Goes.getchar (Goes.pos (by decide) Plays.ret)

/-- A block is sent, and acknowledged. -/
theorem goes_sendBlock (b : Block) (bs : List Block) (hblocks : w.blocks = blockFills (b :: bs)) :
    ∃ s : Rym (Except RymErr Unit) × RymWorld,
      Goes (rymDoSendTrans (fuel + 1) index) w [] s []
        (packetBytes rymCodeSoh (UInt8.ofNat index) b.1) ∧
      Goes s.1 s.2 [rymCodeAck]
        (if bs = [] then ret (.ok ()) else rymDoSendTrans fuel ((index + 1) % 2 ^ 32),
          { w with blocks := blockFills bs }) [] [] := by
  rw [show packetBytes rymCodeSoh (UInt8.ofNat index) b.1 =
    packetBytes rymCodeSoh (UInt8.ofNat index) b.1 ++ [] from (List.append_nil _).symm]
  have hfill : w.blocks.headD noFill = blockFill b bs.isEmpty := by
    rw [hblocks]
    rfl
  have hfills : w.blocks.tail = blockFills bs := by
    rw [hblocks]
    rfl
  refine ⟨_, Goes.fillData hfill hfills (Goes.neg (fun h => h rfl) (Goes.sendPacket (Solo.refl _ _))),
    Goes.getchar (Goes.neg (fun h => h rfl) ?_)⟩
  cases bs with
  | nil => exact Goes.pos rfl Plays.ret
  | cons b' bs => exact Goes.neg (show ¬ false = true by decide) (Solo.refl _ _)

/-- A file without a block. -/
theorem plays_sendEmpty (hblocks : w.blocks = []) :
    Plays (rymDoSendTrans (fuel + 1) index) w [] (.error .code) w [] [] := by
  have hfill : w.blocks.headD noFill = noFill := by
    rw [hblocks]
    rfl
  have hfills : w.blocks.tail = [] := by
    rw [hblocks]
    rfl
  have hplay : Plays (rymDoSendTrans (fuel + 1) index) w [] (.error .code)
      { w with blocks := [] } [] [] :=
    Goes.fillData hfill hfills (Goes.pos (show rymCodeEot ≠ rymCodeSoh by decide) Plays.ret)
  rwa [← hblocks] at hplay

/-- The end of the sender. -/
theorem goes_sendFin (hcode : w.last.code = rymCodeSoh) :
    ∃ s₁ s₂ : Rym (Except RymErr Unit) × RymWorld,
      Goes rymDoSendFin w [] s₁ [] [rymCodeEot] ∧
      Goes s₁.1 s₁.2 [rymCodeNak] s₂ [] [rymCodeEot] ∧
      Goes s₂.1 s₂.2 [rymCodeAck, rymCodeC] (ret (.ok ()), w) []
        (packetBytes rymCodeSoh 0 w.last.data) := by
  rw [show packetBytes rymCodeSoh 0 w.last.data =
    packetBytes rymCodeSoh 0 w.last.data ++ [] from (List.append_nil _).symm]
  refine ⟨_, _, Goes.putchar (Solo.refl _ _), Goes.getchar (Goes.neg (fun h => h rfl)
    (Goes.putchar (Solo.refl _ _))), Goes.getchar (Goes.neg (fun h => h rfl) (Goes.getchar
    (Goes.neg (fun h => h rfl) (Goes.fillEnd (Goes.neg (fun h => h hcode) (Goes.sendPacket
    Plays.ret))))))⟩

end Sender

-- --------
-- Both
-- --------

/-- The two sides and their channels. -/
abbrev RymNet := Net UInt8 (Rym (Except RymErr Unit) × RymWorld)
  (Rym (Except RymErr RymCtx) × RymWorld)

abbrev Comes (n n' : RymNet) : Prop := Net.Reaches rymMove rymMove n n'

section Both

variable {α β : Type} {f : Except RymErr Unit → Rym (Except RymErr Unit)}
  {g : Except RymErr RymCtx → Rym (Except RymErr RymCtx)} {w w' : RymWorld} {ms100 fuel : Nat}

/-- The block as a packet that is sent once. -/
def Block.packet (b : Block) : SentPacket := ⟨b.1, Or.inl b.2, 0⟩

theorem Block.packet_code (b : Block) : b.packet.code = rymCodeSoh := if_pos b.2

/-- **The blocks** go over one after the other, however often the number wraps around. -/
theorem comes_blocks (bs : List Block) (hne : bs ≠ []) : ∀ (index fs fr : Nat) (ctx : RymCtx)
    (w w' : RymWorld), bs.length ≤ fs → bs.length ≤ fr →
    (ctx.stage = .established → UInt8.ofNat index ≠ 0) → w.blocks = blockFills bs →
    ∃ ctx', Comes
      ⟨(rymDoSendTrans fs index >>= f, w), (rymTransLoop fr ctx >>= g, w'), [], []⟩
      ⟨(f (.ok ()), { w with blocks := [] }), (rymTransLoop (fr - bs.length) ctx' >>= g,
        { w' with calls := w'.calls ++ bs.map fun b => .data b.1 }), [], []⟩ := by
  induction bs with
  | nil => exact absurd rfl hne
  | cons b bs ih =>
    intro index fs fr ctx w w' hfs hfr hfirst hblocks
    rw [List.length_cons] at hfs hfr
    obtain ⟨fs, rfl⟩ : ∃ k, fs = k + 1 := ⟨fs - 1, by omega⟩
    obtain ⟨fr, rfl⟩ : ∃ k, fr = k + 1 := ⟨fr - 1, by omega⟩
    obtain ⟨s, hsend, hack⟩ := @goes_sendBlock w fs index b bs hblocks
    obtain ⟨ctx₁, hstage, hrecv⟩ := @goes_transLoop_data w' ctx fr b.packet (UInt8.ofNat index) hfirst
    rw [b.packet_code] at hrecv
    have hstep := ((comes_left (Goes.under f hsend) (rymTransLoop (fr + 1) ctx >>= g, w')).trans
      (comes_right (Goes.under g hrecv) (s.1 >>= f, s.2))).trans
      (comes_left (Goes.under f hack) _)
    cases bs with
    | nil =>
      rw [if_pos rfl] at hstep
      exact ⟨ctx₁, hstep⟩
    | cons b' bs =>
      rw [if_neg (List.cons_ne_nil b' bs)] at hstep
      obtain ⟨ctx', hrest⟩ := ih (List.cons_ne_nil b' bs) ((index + 1) % 2 ^ 32) fs fr ctx₁
        { w with blocks := blockFills (b' :: bs) } { w' with calls := w'.calls ++ [.data b.1] }
        (Nat.le_of_succ_le_succ hfs) (Nat.le_of_succ_le_succ hfr)
        (fun hest => absurd (hstage.symm.trans hest) (by decide)) rfl
      refine ⟨ctx', hstep.trans ?_⟩
      have hcalls : (w'.calls ++ (b :: b' :: bs).map fun b => RymCall.data b.1) =
          w'.calls ++ [.data b.1] ++ (b' :: bs).map fun b => .data b.1 := List.append_cons _ _ _
      rw [@List.length_cons _ b (b' :: bs), Nat.add_sub_add_right, hcalls]
      exact hrest

variable {ms100 fuel tmS tmR waits tick now later : Nat} {ctx : RymCtx} {header : Block}
  {blocks : List Block}

/-- Both sides are started: `waitsS` and `waitsR` waits of their handshakes run out. -/
def transferStart (ms100 fuel tmS tmR waitsS waitsR : Nat) (ticks : List Nat) (ctx : RymCtx)
    (header : Block) (blocks : List Block) : RymNet where
  left := (rymDoSend fuel tmS, senderWorld waitsS header blocks)
  right := (rymDoRecv ms100 fuel tmR ctx, { waits := waitsR, ticks })
  toRight := []
  toLeft := []

/-- What the sender does behind its blocks, and behind its handshake. -/
def afterBlocks : Except RymErr Unit → Rym (Except RymErr Unit)
  | .error e => ret (.error e)
  | .ok () => rymDoSendFin

def afterSendHello (fuel : Nat) : Except RymErr Unit → Rym (Except RymErr Unit)
  | .error e => ret (.error e)
  | .ok () => rymDoSendTrans fuel 1 >>= afterBlocks

theorem rymDoSend_eq (fuel tmSec : Nat) :
    rymDoSend fuel tmSec = rymDoSendHandshake tmSec >>= afterSendHello fuel := rfl

/-- When the receiver has announced itself once, the header is on its way. -/
theorem transfer_header (hS : waits < tmS) (hR : 0 < tmR) (hfuel : 2 ≤ fuel) :
    ∃ (s : Rym (Except RymErr Unit) × RymWorld) (t : Rym (Except RymErr RymCtx) × RymWorld),
      Comes (transferStart ms100 fuel tmS tmR waits 0 [tick, now, later] ctx header blocks)
        ⟨(s.1 >>= afterSendHello fuel, s.2), (t.1 >>= afterHello fuel, t.2),
          packetBytes rymCodeSoh 0 header.1, []⟩ ∧
      Goes s.1 s.2 [rymCodeAck, rymCodeC] (ret (.ok ()), senderWorld 0 header blocks) [] [] ∧
      (now ≤ (tick + ms100) % 2 ^ 32 → ∃ ctx', Goes t.1 t.2 (packetBytes rymCodeSoh 0 header.1)
        (ret (.ok ctx'), { waits := 0, calls := [.began header.1] }) [] []) ∧
      (¬ now ≤ (tick + ms100) % 2 ^ 32 → ∃ w' ins,
        Goes t.1 t.2 (packetBytes rymCodeSoh 0 header.1) (ret (.error .dsz), w') ins []) := by
  obtain ⟨s, hs₁, hs₂, -⟩ := @goes_sendHandshake (senderWorld 0 header blocks) waits tmS hS rfl
  obtain ⟨t, ht₁, ht₂, ht₃⟩ := @goes_doHandshake { waits := 0 } { ctx with stage := .none } ms100 fuel
    0 tmR tick now later header.packet hR hfuel
  rw [header.packet_code] at ht₂ ht₃
  refine ⟨s, t, ?_, hs₂, ht₂, fun hnow => ?_⟩
  · rw [transferStart, rymDoSend_eq, rymDoRecv_eq]
    exact (comes_right (Goes.under _ ht₁) _).trans (comes_left (Goes.under _ hs₁) _)
  · obtain ⟨w', ins, -, hlate⟩ := ht₃ hnow
    exact ⟨w', ins, hlate⟩

/-- **The receiver has the header**, and the sender its acknowledgement. -/
theorem transfer_begun (hS : waits < tmS) (hR : 0 < tmR) (hfuel : 2 ≤ fuel)
    (hnow : now ≤ (tick + ms100) % 2 ^ 32) :
    ∃ ctx' files, ctx'.stage = .established ∧
      Comes (transferStart ms100 fuel tmS tmR waits 0 [tick, now, later] ctx header blocks)
        ⟨(rymDoSendTrans fuel 1 >>= afterBlocks, senderWorld 0 header blocks),
          (rymTransLoop fuel ctx' >>= afterTrans fuel files,
            { waits := 0, calls := [.began header.1] }), [], []⟩ := by
  obtain ⟨s, t, hheader, hs, ht, -⟩ := @transfer_header ms100 fuel tmS tmR waits tick now later ctx
    header blocks hS hR hfuel
  obtain ⟨ctx₁, ht⟩ := ht hnow
  obtain ⟨n, hn⟩ : ∃ k, fuel = k + 1 := ⟨fuel - 1, by omega⟩
  have hloop : ret (.ok ctx₁) >>= afterHello fuel = rymDoTrans fuel ctx₁ >>= afterTrans fuel n := by
    rw [ret_bind, afterHello, ← rymRecvLoop_eq, ← hn]
  have htrans : Goes (rymDoTrans fuel ctx₁) { waits := 0, calls := [.began header.1] } []
      (rymTransLoop fuel ⟨.established, ctx₁.buf⟩, { waits := 0, calls := [.began header.1] }) []
      [rymCodeAck, rymCodeC] := Goes.putchar (Goes.putchar (Solo.refl _ _))
  have hright := comes_right (Goes.under (afterHello fuel) ht) (s.1 >>= afterSendHello fuel, s.2)
  rw [hloop] at hright
  exact ⟨⟨.established, ctx₁.buf⟩, n, rfl, ((hheader.trans hright).trans
    (comes_right (Goes.under _ htrans) _)).trans (comes_left (Goes.under _ hs) _)⟩

/-- **The end of a transfer**, when the last block has been acknowledged. -/
theorem comes_fin {fr files : Nat} (ctx : RymCtx) (hcode : w.last.code = rymCodeSoh)
    (hlast : w.last.data = List.replicate 128 0) (hfr : 0 < fr) :
    ∃ ctx', Comes ⟨(rymDoSendFin, w), (rymTransLoop fr ctx >>= afterTrans fuel files, w'), [], []⟩
      ⟨(ret (.ok ()), w), (ret (.ok ctx'), w'), [], [rymCodeAck]⟩ := by
  obtain ⟨fr, rfl⟩ : ∃ k, fr = k + 1 := ⟨fr - 1, by omega⟩
  obtain ⟨s₁, s₂, hs₁, hs₂, hs₃⟩ := goes_sendFin hcode
  rw [hlast] at hs₃
  obtain ⟨ctx₁, heot⟩ := @goes_transLoop_eot w' ctx fr
  obtain ⟨t₁, t₂, ht₁, ht₂, ⟨ctx', hstage, ht₃⟩, -⟩ := @goes_doFin w' ctx₁
  have hend : ret (.ok ctx') >>= afterFile fuel files = ret (.ok ctx') := by
    rw [ret_bind, afterFile, if_pos hstage]
  have hlastStep := comes_right (Goes.under (afterFile fuel files) ht₃)
    ((ret (.ok ()), w) : Rym (Except RymErr Unit) × RymWorld)
  rw [hend] at hlastStep
  refine ⟨ctx', ?_⟩
  -- EOT, NAK, EOT, ACK and C, the last packet
  exact ((((((comes_left hs₁ _).trans (comes_right (Goes.under _ heot) s₁)).trans
    (comes_right (Goes.under _ ht₁) s₁)).trans (comes_left hs₂ _)).trans
    (comes_right (Goes.under _ ht₂) s₂)).trans (comes_left hs₃ _)).trans hlastStep

/-- **Everything arrives.** -/
theorem transfer_right (hS : waits < tmS) (hR : 0 < tmR) (hfuel : blocks.length + 2 ≤ fuel)
    (hne : blocks ≠ []) (hnow : now ≤ (tick + ms100) % 2 ^ 32) :
    ∃ ctx' net, Comes
        (transferStart ms100 fuel tmS tmR waits 0 [tick, now, later] ctx header blocks) net ∧
      net.left.1 = ret (.ok ()) ∧ net.right.1 = ret (.ok ctx') ∧
      net.right.2.calls = .began header.1 :: blocks.map fun b => .data b.1 := by
  obtain ⟨ctx₁, files, hstage, hbegun⟩ := @transfer_begun ms100 fuel tmS tmR waits tick now later ctx
    header blocks hS hR (by omega) hnow
  obtain ⟨ctx₂, hblocks⟩ := @comes_blocks afterBlocks (afterTrans fuel files) blocks hne 1 fuel fuel
    ctx₁ (senderWorld 0 header blocks) { waits := 0, calls := [.began header.1] } (by omega)
    (by omega) (fun _ => by decide) rfl
  obtain ⟨ctx₃, hfin⟩ := @comes_fin { senderWorld 0 header blocks with blocks := [] }
    { waits := 0, calls := [.began header.1] ++ (blocks.map fun b => .data b.1) } fuel
    (fuel - blocks.length) files ctx₂ rfl rfl (by omega)
  exact ⟨ctx₃, _, (hbegun.trans hblocks).trans hfin, rfl, rfl, rfl⟩

theorem transfer_empty (hS : waits < tmS) (hR : 0 < tmR) (hfuel : 2 ≤ fuel)
    (hnow : now ≤ (tick + ms100) % 2 ^ 32) :
    ∃ net, Comes (transferStart ms100 fuel tmS tmR waits 0 [tick, now, later] ctx header []) net ∧
      net.left.1 = ret (.error .code) := by
  obtain ⟨ctx₁, files, -, hbegun⟩ := @transfer_begun ms100 fuel tmS tmR waits tick now later ctx
    header [] hS hR hfuel hnow
  obtain ⟨n, rfl⟩ : ∃ k, fuel = k + 1 := ⟨fuel - 1, by omega⟩
  exact ⟨_, hbegun.trans (comes_left (Goes.under _ (plays_sendEmpty rfl)) _), rfl⟩

theorem transfer_late (hS : waits < tmS) (hR : 0 < tmR) (hfuel : 2 ≤ fuel)
    (hnow : ¬ now ≤ (tick + ms100) % 2 ^ 32) :
    ∃ net, Comes (transferStart ms100 fuel tmS tmR waits 0 [tick, now, later] ctx header blocks)
        net ∧ net.right.1 = ret (.error .dsz) := by
  obtain ⟨s, t, hheader, -, -, ht⟩ := @transfer_header ms100 fuel tmS tmR waits tick now later ctx
    header blocks hS hR hfuel
  obtain ⟨w', ins, ht⟩ := ht hnow
  exact ⟨_, hheader.trans (comes_right (Goes.under _ ht) _), rfl⟩

/-- **A stale announcement**: the sender takes the second one for the acknowledgement of its
header. -/
theorem transfer_stale {waitsR : Nat} {ticks : List Nat} (hS : waits < tmS) (hR : waitsR < tmR)
    (hstale : 0 < waitsR) :
    ∃ net, Comes (transferStart ms100 fuel tmS tmR waits waitsR ticks ctx header blocks) net ∧
      net.left.1 = ret (.error .ack) := by
  obtain ⟨s, hs₁, -, hs₂⟩ := @goes_sendHandshake (senderWorld 0 header blocks) waits tmS hS rfl
  obtain ⟨n, rfl⟩ : ∃ k, tmR = k + 2 := ⟨tmR - 2, by omega⟩
  obtain ⟨k, rfl⟩ : ∃ k, waitsR = k + 1 := ⟨waitsR - 1, by omega⟩
  obtain ⟨t, ht⟩ : ∃ t : Rym (Except RymErr RymCtx) × RymWorld,
      Goes (rymDoHandshake ms100 fuel (n + 2) { ctx with stage := .none })
        { waits := k + 1, ticks } [] t [] [rymCodeC, rymCodeC] :=
    ⟨_, Solo.put rfl (Solo.go rfl (Solo.put rfl (Solo.refl _ _)))⟩
  rw [transferStart, rymDoSend_eq, rymDoRecv_eq]
  exact ⟨_, ((comes_right (Goes.under _ ht) _).trans
    (comes_left (Goes.under _ (hs₁.more [rymCodeC])) _)).trans
    (Solo.left (Goes.under _ hs₂) _ _), rfl⟩

end Both

theorem rymMove_ret {α : Type} {a : α} {s : Rym α × RymWorld} (h : s.1 = ret a) :
    rymMove s = .halt := by
  obtain ⟨p, w⟩ := s
  cases h
  rfl

/-- **A transfer.** Every order of the steps comes to both sides returning `RT_EOK` and to the
blocks handed over in order exactly when the receiver has announced itself once only, the file has a
block, and the deadline of the handshake has not wrapped around. -/
theorem rym_transfer (ms100 fuel tmS tmR waitsS waitsR tick now later : Nat) (ctx : RymCtx)
    (header : Block) (blocks : List Block) (hS : waitsS < tmS) (hR : waitsR < tmR)
    (hfuel : blocks.length + 2 ≤ fuel) :
    (∃ ctx' net, Net.Settles rymMove rymMove
        (transferStart ms100 fuel tmS tmR waitsS waitsR [tick, now, later] ctx header blocks) net ∧
      net.left.1 = ret (.ok ()) ∧ net.right.1 = ret (.ok ctx') ∧
      net.right.2.calls = .began header.1 :: blocks.map fun b => .data b.1) ↔
    waitsR = 0 ∧ blocks ≠ [] ∧ now ≤ (tick + ms100) % 2 ^ 32 := by
  constructor
  · rintro ⟨ctx', net, hsettles, hleft, hright, -⟩
    -- a side that gives up in one order does not return `RT_EOK` in another
    have hnoleft : ∀ e, ¬ ∃ net', Comes (transferStart ms100 fuel tmS tmR waitsS waitsR
        [tick, now, later] ctx header blocks) net' ∧ net'.left.1 = ret (.error e) := by
      rintro e ⟨net', hcomes, he⟩
      have hsame := Net.left_unique hsettles.reaches hcomes (rymMove_ret hleft) (rymMove_ret he)
      rw [hsame, he] at hleft
      cases hleft
    have hnoright : ∀ e, ¬ ∃ net', Comes (transferStart ms100 fuel tmS tmR waitsS waitsR
        [tick, now, later] ctx header blocks) net' ∧ net'.right.1 = ret (.error e) := by
      rintro e ⟨net', hcomes, he⟩
      have hsame := Net.right_unique hsettles.reaches hcomes (rymMove_ret hright) (rymMove_ret he)
      rw [hsame, he] at hright
      cases hright
    have honce : waitsR = 0 := by
      by_contra hstale
      exact hnoleft .ack (transfer_stale hS hR (Nat.pos_of_ne_zero hstale))
    subst honce
    have hnow : now ≤ (tick + ms100) % 2 ^ 32 := by
      by_contra hlate
      exact hnoright .dsz (transfer_late hS hR (by omega) hlate)
    refine ⟨rfl, ?_, hnow⟩
    rintro rfl
    exact hnoleft .code (transfer_empty hS hR (by omega) hnow)
  · rintro ⟨rfl, hne, hnow⟩
    obtain ⟨ctx', net, hcomes, hleft, hright, hcalls⟩ :=
      @transfer_right ms100 fuel tmS tmR waitsS tick now later ctx header blocks hS hR hfuel hne hnow
    exact ⟨ctx', net, hcomes.settles (Net.not_step_of_halt (rymMove_ret hleft) (rymMove_ret hright)),
      hleft, hright, hcalls⟩

/-- A block of 128 bytes `c`. -/
def sameBlock (c : UInt8) : Block := ⟨List.replicate 128 c, List.length_replicate⟩

theorem rym_transfer_two : ∃ ctx' net, Net.Settles rymMove rymMove
      (transferStart 100 4 3 3 1 0 [7, 7, 8] ⟨.none, fun _ => 0⟩ (sameBlock 0x61)
        [sameBlock 0x62, sameBlock 0x63]) net ∧
    net.left.1 = ret (.ok ()) ∧ net.right.1 = ret (.ok ctx') ∧
    net.right.2.calls = .began (sameBlock 0x61).1 ::
      [sameBlock 0x62, sameBlock 0x63].map fun b => .data b.1 :=
  (rym_transfer 100 4 3 3 1 0 7 7 8 ⟨.none, fun _ => 0⟩ (sameBlock 0x61)
    [sameBlock 0x62, sameBlock 0x63] (by decide) (by decide) (by decide)).mpr
    ⟨rfl, List.cons_ne_nil _ _, by decide⟩

/-- The receiver was started more than one of its waits before the sender. -/
theorem rym_transfer_stale : ∃ net, Comes (transferStart 100 4 3 3 0 1 [7, 7, 8]
      ⟨.none, fun _ => 0⟩ (sameBlock 0x61) [sameBlock 0x62, sameBlock 0x63]) net ∧
    net.left.1 = ret (.error .ack) :=
  transfer_stale (by decide) (by decide) (by decide)

end RTThread.Ymodem
