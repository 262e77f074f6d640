import RTThread.Ymodem.Ymodem

/-!
# What the YMODEM receiver hands to its callbacks

`Genuine`: a buffer handed to `on_begin` or `on_data` is the payload of the packet whose bytes were
received last, without a pause, with its length, and the complement of the index and the checksum
of that packet are right. The receiver keeps to this (`rymDoRecv_genuine`) except in two places.
`_rym_do_fin` reads and checks 128 bytes whatever the size of the packet, and hands over 1024 for a
large one; and when the tick wraps around during the pause in a first packet, the loop in
`_rym_do_handshake` takes the pause for a short one and reads on over the beginning of the buffer.
`Relied` leaves these out.
-/

namespace RTThread.Ymodem

open Interact

variable {ctx : RymCtx} {h h' : History RymOp RymOp.Ans} {ms100 fuel : Nat}

-- --------
-- Words
-- --------

/-- The receiver's way to put a checksum together undoes the sender's way to take it apart. -/
theorem crcOf_eq_iff (hi lo : UInt8) (crc : UInt16) :
    crcOf hi lo = crc ↔ hi = (crc >>> 8).toUInt8 ∧ lo = crc.toUInt8 := by
  have hhi := hi.toNat_lt
  have hlo := lo.toNat_lt
  have hcrc := crc.toNat_lt
  have hor : (crcOf hi lo).toNat = hi.toNat * 256 + lo.toNat := by
    have hshift : hi.toNat * 256 % 2 ^ 16 = hi.toNat <<< 8 := by
      rw [Nat.shiftLeft_eq, Nat.mod_eq_of_lt (by omega)]
    simp only [crcOf, UInt16.toNat_or, UInt16.toNat_shiftLeft, UInt8.toNat_toUInt16]
    rw [show (8 : UInt16).toNat % 16 = 8 by decide, Nat.mod_eq_of_lt (by
      rw [Nat.shiftLeft_eq]; omega), ← Nat.shiftLeft_add_eq_or_of_lt (by omega), Nat.shiftLeft_eq]
  rw [← UInt16.toNat_inj, hor, ← UInt8.toNat_inj, ← UInt8.toNat_inj]
  have hup : ((crc >>> 8).toUInt8).toNat = crc.toNat / 256 := by
    simp only [UInt16.toNat_toUInt8, UInt16.toNat_shiftRight]
    rw [show (8 : UInt16).toNat % 16 = 8 by decide, Nat.shiftRight_eq_div_pow]
    omega
  rw [hup, UInt16.toNat_toUInt8]
  omega

theorem add_eq_255_iff (a b : UInt8) : a.toNat + b.toNat = 0xFF ↔ b = ~~~a := by
  have ha := a.toNat_lt
  have hb := b.toNat_lt
  rw [← UInt8.toNat_inj, UInt8.toNat_not]
  have hsize : UInt8.size = 256 := rfl
  omega

-- --------
-- Packets in the buffer
-- --------

/-- What follows the code of a packet: index, complement, payload and checksum. -/
theorem exists_packet {bs : List UInt8} {n : Nat} (hlen : bs.length = n + 4) :
    ∃ a b data hi lo, bs = a :: b :: data ++ [hi, lo] ∧ data.length = n := by
  obtain ⟨a, bs, rfl⟩ := List.exists_cons_of_length_eq_add_one
    (show bs.length = (n + 3) + 1 from hlen)
  obtain ⟨b, bs, rfl⟩ := List.exists_cons_of_length_eq_add_one
    (show bs.length = (n + 2) + 1 by simpa using hlen)
  have hbs : bs.length = n + 2 := by simpa using hlen
  refine ⟨a, b, bs.take n, bs[n], bs[n + 1], ?_, by simp [hbs]⟩
  have hdrop : bs.drop n = [bs[n], bs[n + 1]] := by
    rw [List.drop_eq_getElem_cons (by omega), List.drop_eq_getElem_cons (by omega),
      List.drop_eq_nil_of_le (by omega)]
  rw [List.cons_append, List.cons_append, ← hdrop, List.take_append_drop]

/-- The parts of a packet behind the code, where the receiver looks for them. -/
theorem packet_stored {m : ByteMem} {a b hi lo : UInt8} {data : List UInt8} {n : Nat}
    (hlen : data.length = n) :
    (m.storeBytes 1 (a :: b :: data ++ [hi, lo])) 1 = a ∧
      (m.storeBytes 1 (a :: b :: data ++ [hi, lo])) 2 = b ∧
      (m.storeBytes 1 (a :: b :: data ++ [hi, lo])).loadBytes 3 n = data ∧
      (m.storeBytes 1 (a :: b :: data ++ [hi, lo])) (n + 3) = hi ∧
      (m.storeBytes 1 (a :: b :: data ++ [hi, lo])) (n + 4) = lo := by
  have H := ByteMem.holds_storeBytes m 1 (a :: b :: data ++ [hi, lo])
  have hdata : (m.storeBytes 1 (a :: b :: data ++ [hi, lo])).Holds (1 + 2) (data ++ [hi, lo]) :=
    @ByteMem.Holds.append_right _ _ [a, b] _ H
  have hcrc := hdata.append_right
  rw [hlen] at hcrc
  refine ⟨H 0 (by simp), H 1 (by simp), ?_, ?_, ?_⟩
  · have := hdata.append_left.loadBytes_eq
    rwa [hlen] at this
  · have := hcrc 0 (by simp)
    rwa [show 1 + 2 + n + 0 = n + 3 by omega] at this
  · have := hcrc 1 (by simp)
    rwa [show 1 + 2 + n + 1 = n + 4 by omega] at this

-- --------
-- What is relied on and what is promised
-- --------

/-- The answers to the waits for a character, and the ticks read. -/
def inputs (h : History RymOp RymOp.Ans) : List (Option UInt8) :=
  h.filterMap fun
    | ⟨.getchar _, x⟩ => some x
    | _ => none

def ticks (h : History RymOp RymOp.Ans) : List Nat :=
  h.filterMap fun
    | ⟨.tickGet, t⟩ => some t
    | _ => none

/-- The packet of the next file is a small one; and when a pause ended the reading of the first
packet, the tick is behind the deadline of the handshake. -/
def Relied (ms100 : Nat) (h : History RymOp RymOp.Ans) : (e : RymOp) → e.Ans → Prop
  | .getchar .next, x => x ≠ some rymCodeStx
  | .tickGet, (now : Nat) => (inputs h).getLast? = some none →
      ∀ tick ∈ (ticks h).head?, ¬ now ≤ (tick + ms100) % 2 ^ 32
  | _, _ => True

/-- The buffer is the payload of the packet that was received last. -/
def Received (h : History RymOp RymOp.Ans) (buf : List UInt8) : Prop :=
  ∃ pre code index, inputs h = pre ++ (packetBytes code index buf).map some ∧
    ((code = rymCodeSoh ∧ buf.length = 128) ∨ (code = rymCodeStx ∧ buf.length = 1024))

/-- **What is promised** of the calls. -/
def Genuine (h : History RymOp RymOp.Ans) : RymOp → Prop
  | .onBegin buf | .onData buf => Received h buf
  | _ => True

/-- The calls of a program are genuine. -/
abbrev Calls {α : Type} (ms100 : Nat) (p : Rym α)
    (Q : History RymOp RymOp.Ans → α → Prop) (h : History RymOp RymOp.Ans) : Prop :=
  wp Genuine (Relied ms100) p Q h

@[simp] theorem inputs_getchar (h : History RymOp RymOp.Ans) (w : RymWait) (x : Option UInt8) :
    inputs (h ++ [⟨.getchar w, x⟩]) = inputs h ++ [x] := by
  simp [inputs]

@[simp] theorem inputs_tick (h : History RymOp RymOp.Ans) (t : Nat) :
    inputs (h ++ [⟨.tickGet, t⟩]) = inputs h := by
  simp [inputs]

@[simp] theorem inputs_mdelay (h : History RymOp RymOp.Ans) (x : Unit) :
    inputs (h ++ [⟨.mdelay, x⟩]) = inputs h := by
  simp [inputs]

@[simp] theorem ticks_tick (h : History RymOp RymOp.Ans) (t : Nat) :
    ticks (h ++ [⟨.tickGet, t⟩]) = ticks h ++ [t] := by
  simp [ticks]

/-- The characters of a read. -/
def reads (bs : List UInt8) : History RymOp RymOp.Ans :=
  bs.map fun c => ⟨.getchar .chr, some c⟩

@[simp] theorem inputs_reads (h : History RymOp RymOp.Ans) (bs : List UInt8) :
    inputs (h ++ reads bs) = inputs h ++ bs.map some := by
  rw [inputs, List.filterMap_append, reads, List.filterMap_map]
  exact congrArg (inputs h ++ ·) (congrFun (@List.filterMap_eq_map _ _ some) bs)

theorem reads_cons (h : History RymOp RymOp.Ans) (c : UInt8) (bs : List UInt8) :
    h ++ [⟨.getchar .chr, some c⟩] ++ reads bs = h ++ reads (c :: bs) := by
  simp [reads]

-- --------
-- The parts of the receiver
-- --------

section Calls

variable {α : Type} {Q : History RymOp RymOp.Ans → α → Prop}

theorem calls_spin : Calls ms100 (spin : Rym α) Q h := ⟨trivial, fun x => nomatch x⟩

theorem calls_putchar {c : UInt8} {p : Unit → Rym α}
    (hp : ∀ h, Calls ms100 (p ()) Q h) : Calls ms100 (rymPutchar c >>= p) Q h :=
  ⟨trivial, fun _ _ => hp _⟩

/-- The code that is read is the last input; the next file's is not that of a large packet. -/
theorem calls_readCode {w : RymWait} {p : UInt8 × RymCtx → Rym α}
    (hp : ∀ h' pre code ctx', inputs h' = pre ++ [some code] →
      (w = .next → code ≠ rymCodeStx) → Calls ms100 (p (code, ctx')) Q h')
    (hnone : ∀ h', Calls ms100 (p (rymCodeNone, ctx)) Q h') :
    Calls ms100 (rymReadCode ctx w >>= p) Q h := by
  refine ⟨trivial, fun x hx => ?_⟩
  cases x with
  | none => exact hnone _
  | some c =>
    refine hp _ (inputs h) c _ (inputs_getchar _ _ _) fun hw hc => ?_
    subst hw hc
    exact hx rfl

/-- **Reading** `len` characters: they are in the buffer in a row, or a pause ended it. -/
theorem calls_readData {Q : History RymOp RymOp.Ans → Nat × RymCtx → Prop} (len : Nat) :
    ∀ {ctx : RymCtx} {h : History RymOp RymOp.Ans} (readlen : Nat),
      (∀ bs, bs.length = len → Q (h ++ reads bs) (readlen + len,
        { ctx with buf := ctx.buf.storeBytes (1 + readlen) bs })) →
      (∀ bs ctx', bs.length < len → Q (h ++ reads bs ++ [⟨.getchar .chr, none⟩])
        (readlen + bs.length, ctx')) →
      Calls ms100 (rymReadData ctx len readlen) Q h := by
  induction len with
  | zero =>
    intro ctx h readlen hfull _
    have hnil := hfull [] rfl
    have hbuf : ctx.buf.storeBytes (1 + readlen) [] = ctx.buf := by
      funext x
      simp [ByteMem.storeBytes]
    rw [hbuf] at hnil
    have hQ : Q h (readlen, ctx) := by simpa [reads] using hnil
    exact hQ
  | succ len ih =>
    intro ctx h readlen hfull hshort
    refine ⟨trivial, fun x _ => ?_⟩
    cases x with
    | none =>
      have hQ : Q (h ++ [⟨.getchar .chr, none⟩]) (readlen, ctx) := by
        simpa [reads] using hshort [] ctx (Nat.zero_lt_succ len)
      exact hQ
    | some c =>
      refine ih (readlen + 1) (fun bs hbs => ?_) fun bs ctx' hbs => ?_
      · have hnext := hfull (c :: bs) (by simp [hbs])
        rw [← ByteMem.storeBytes_update, ← reads_cons] at hnext
        rw [Nat.add_right_comm readlen 1 len]
        exact hnext
      · have hnext := hshort (c :: bs) ctx' (by simp [hbs])
        rw [← reads_cons, List.length_cons] at hnext
        rw [Nat.add_right_comm readlen 1 bs.length]
        exact hnext

end Calls

theorem received_of_checks {pre : List (Option UInt8)} {code a b hi lo : UInt8}
    {data : List UInt8} (hin : inputs h = pre ++ [some code] ++
      (a :: b :: data ++ [hi, lo]).map some) (hseq : b = ~~~a) (hcrc : crcOf hi lo = crc16 data)
    (hsize : (code = rymCodeSoh ∧ data.length = 128) ∨ (code = rymCodeStx ∧ data.length = 1024)) :
    Received h data := by
  obtain ⟨rfl, rfl⟩ := (crcOf_eq_iff hi lo _).mp hcrc
  refine ⟨pre, code, a, ?_, hsize⟩
  rw [hin, hseq]
  simp [packetBytes]

/-- `_rym_trans_data` behind the code of a packet. -/
theorem calls_transData {pre : List (Option UInt8)} {code : UInt8} {n : Nat}
    (hin : inputs h = pre ++ [some code])
    (hsize : (code = rymCodeSoh ∧ n = 128) ∨ (code = rymCodeStx ∧ n = 1024)) :
    Calls ms100 (rymTransData n ctx) (fun _ _ => True) h := by
  refine wp_bind (calls_readData _ 0 (fun bs hbs => ?_) fun bs ctx' hbs => ?_)
  · obtain ⟨a, b, data, hi, lo, rfl, hdata⟩ := exists_packet (show bs.length = n + 4 by omega)
    obtain ⟨ha, hb, hload, hhi, hlo⟩ :=
      @packet_stored ctx.buf a b hi lo data n hdata
    dsimp only
    rw [if_neg (by omega)]
    refine wp_ite (fun _ => trivial) fun hseq => wp_ite (fun _ => trivial) fun _ =>
      wp_ite (fun _ => trivial) fun hcrc => ⟨?_, fun _ _ => trivial⟩
    rw [not_not, ha, hb, add_eq_255_iff] at hseq
    rw [not_not, show 2 + n + 2 - 1 = n + 3 by omega, show 2 + n + 2 = n + 4 by omega, hhi, hlo,
      hload] at hcrc
    show Received _ _
    rw [hload]
    refine received_of_checks (by rw [inputs_reads, hin]) hseq hcrc ?_
    rw [hdata]
    exact hsize
  · dsimp only
    rw [if_pos (by omega)]
    trivial

theorem calls_putCans {α : Type} {Q : History RymOp RymOp.Ans → α → Prop} {p : Unit → Rym α}
    (hp : ∀ h, Calls ms100 (p ()) Q h) (n : Nat) :
    ∀ h, Calls ms100 (rymPutCans n >>= p) Q h := by
  induction n with
  | zero => exact hp
  | succ n ih => exact fun h => ⟨trivial, fun _ _ => ih _⟩

/-- `_rym_do_trans`, one packet a round. -/
theorem calls_transLoop (fuel : Nat) : ∀ (ctx : RymCtx) (h : History RymOp RymOp.Ans),
    Calls ms100 (rymTransLoop fuel ctx) (fun _ _ => True) h := by
  induction fuel with
  | zero => exact fun _ _ => calls_spin
  | succ fuel ih =>
    intro ctx h
    refine calls_readCode (fun h' pre code ctx' hin _ => ?_) fun h' => ?_
    · refine wp_ite (fun _ => trivial) fun _ => wp_ite (fun _ => trivial) fun hcode => ?_
      refine wp_bind (wp_mono (fun h₂ r _ => ?_) (calls_transData hin ?_))
      · cases r with
        | error e => trivial
        | ok r =>
          refine wp_ite (fun _ => ?_) fun _ =>
            wp_ite (fun _ => calls_putchar fun _ => ih _ _) fun _ => ih _ _
          exact @calls_putCans _ _ (fun _ _ => True) (fun _ => ret (Except.error RymErr.can))
            (fun _ => trivial) 7 _
      · by_cases hsoh : code = rymCodeSoh
        · exact Or.inl ⟨hsoh, if_pos hsoh⟩
        · exact Or.inr ⟨by
            by_contra hstx
            exact hcode ⟨hsoh, hstx⟩, if_neg hsoh⟩
    · -- no packet came
      show Calls ms100 (if rymCodeNone = rymCodeEot then _ else _) _ _
      rw [if_neg (by decide), if_pos (by decide)]
      trivial

/-- `_rym_do_fin`: the packet of the next file is a small one. -/
theorem calls_doFin : Calls ms100 (rymDoFin ctx) (fun _ _ => True) h := by
  refine ⟨trivial, fun _ _ => calls_putchar fun h => calls_readCode
    (fun h _ code ctx _ _ => wp_ite (fun _ => trivial) fun _ => ?_)
    fun h => wp_ite (fun _ => trivial) fun hc => absurd (by decide) hc⟩
  refine calls_putchar fun h => calls_putchar fun h => calls_readCode
    (fun h pre code ctx hin hnext => ?_)
    fun h => wp_ite (fun _ => trivial) fun hc => absurd (by decide) hc
  refine wp_ite (fun _ => trivial) fun hcode => ?_
  have hsoh : code = rymCodeSoh := by
    by_contra hsoh
    exact hcode ⟨hsoh, hnext rfl⟩
  refine wp_bind (calls_readData _ 0 (fun bs hbs => ?_) fun bs ctx' hbs => ?_)
  · obtain ⟨a, b, data, hi, lo, rfl, hdata⟩ := exists_packet (show bs.length = 128 + 4 from hbs)
    obtain ⟨ha, hb, hload, hhi, hlo⟩ := @packet_stored ctx.buf a b hi lo data 128 hdata
    dsimp only
    rw [if_neg (by simp)]
    refine wp_ite (fun _ => trivial) fun hseq => wp_ite (fun _ => trivial) fun hcrc =>
      wp_ite (fun _ => ?_) fun _ => calls_putchar fun _ => trivial
    rw [not_or, not_not, not_not, ha, hb] at hseq
    obtain ⟨rfl, rfl⟩ := hseq
    rw [not_not, show sohPkgSz - 2 = 128 + 3 by decide, show sohPkgSz - 1 = 128 + 4 by decide,
      show sohPkgSz - 5 = 128 by decide, hhi, hlo, hload] at hcrc
    refine ⟨?_, fun (x : UInt8) _ => @wp_ite _ _ _ _ _ _ _ (x ≠ rymCodeAck) _ _ _ (fun _ => trivial)
      fun _ => trivial⟩
    show Received _ _
    rw [if_pos hsoh, show sohPkgSz - 5 = 128 by decide, hload]
    exact received_of_checks (by rw [inputs_reads, hin]) (by decide) hcrc (Or.inl ⟨hsoh, hdata⟩)
  · dsimp only
    rw [if_pos (by omega)]
    trivial

/-- The loop over the files. -/
theorem calls_recvLoop (fuel files : Nat) : ∀ (ctx : RymCtx) (h : History RymOp RymOp.Ans),
    Calls ms100 (rymRecvLoop fuel files ctx) (fun _ _ => True) h := by
  induction files with
  | zero => exact fun _ _ => calls_spin
  | succ files ih =>
    intro ctx h
    have htrans : Calls ms100 (rymDoTrans fuel ctx) (fun _ _ => True) h :=
      calls_putchar fun h => calls_putchar fun h => calls_transLoop fuel _ h
    refine wp_bind (wp_mono (fun h r _ => ?_) htrans)
    cases r with
    | error e => trivial
    | ok ctx =>
      refine wp_bind (wp_mono (fun h r _ => ?_) calls_doFin)
      cases r with
      | error e => trivial
      | ok ctx => exact wp_ite (fun _ => trivial) fun _ => ih _ _

/-- The handshake comes to the code of a packet, and has read no tick before. -/
theorem calls_hello (n : Nat) : ∀ (ctx : RymCtx) (h : History RymOp RymOp.Ans), ticks h = [] →
    Calls ms100 (rymHello ctx n) (fun h r => ticks h = [] ∧ ∀ size, r.1 = some size →
      ∃ pre code, inputs h = pre ++ [some code] ∧
        ((code = rymCodeSoh ∧ size = sohPkgSz) ∨ (code = rymCodeStx ∧ size = stxPkgSz))) h := by
  induction n with
  | zero => exact fun _ _ ht => ⟨ht, nofun⟩
  | succ n ih =>
    intro ctx h ht
    have htick : ∀ {x}, ticks (h ++ [⟨.putchar rymCodeC, ()⟩] ++ [⟨.getchar .hello, x⟩]) = [] := by
      simp [ticks] at ht ⊢
      exact ht
    refine ⟨trivial, fun _ _ => ⟨trivial, fun x _ => ?_⟩⟩
    cases x with
    | none => exact ih _ _ htick
    | some c =>
      refine wp_ite (fun hc => ⟨htick, fun size hsize => ?_⟩) fun _ =>
        wp_ite (fun hc => ⟨htick, fun size hsize => ?_⟩) fun _ => ih _ _ htick
      · exact ⟨_, c, inputs_getchar _ _ _, Or.inl ⟨hc, (Option.some.inj hsize).symm⟩⟩
      · exact ⟨_, c, inputs_getchar _ _ _, Or.inr ⟨hc, (Option.some.inj hsize).symm⟩⟩

/-- The last round of the loop in the handshake: everything is there, or the tick is behind. -/
theorem calls_helloData_last {Q : History RymOp RymOp.Ans → Nat × RymCtx → Prop}
    {tick dataSz i : Nat} (hstop : i < dataSz - 1 →
      (inputs h).getLast? = some none ∧ tick ∈ (ticks h).head?)
    (hQ : ∀ t : Nat, Q (h ++ [⟨.tickGet, t⟩]) (i, ctx)) :
    Calls ms100 (rymHelloData ((tick + ms100) % 2 ^ 32) dataSz fuel ctx i) Q h := by
  cases fuel with
  | zero => exact calls_spin
  | succ fuel =>
    refine ⟨trivial, fun (now : Nat) hnow => wp_ite (fun hgo => ?_) fun _ => hQ now⟩
    obtain ⟨hlast, htick⟩ := hstop hgo.2
    exact absurd hgo.1 (hnow hlast tick htick)

/-- **The first packet** is in the buffer in a row when all of it has been read. -/
theorem calls_helloData {tick dataSz : Nat} {code : UInt8} {pre : List (Option UInt8)}
    (hin : inputs h = pre ++ [some code]) (htick : tick ∈ (ticks h).head?)
    (hsize : 1 < dataSz) :
    Calls ms100 (rymHelloData ((tick + ms100) % 2 ^ 32) dataSz fuel ctx 0) (fun h r =>
      r.1 = dataSz - 1 → ∃ bs m, bs.length = dataSz - 1 ∧ r.2.buf = ByteMem.storeBytes m 1 bs ∧
        inputs h = pre ++ [some code] ++ bs.map some) h := by
  have hhead : ∀ h', tick ∈ (ticks (h ++ h')).head? := by
    intro h'
    obtain ⟨rest, hrest⟩ : ∃ rest, ticks (h ++ h') = ticks h ++ rest :=
      ⟨ticks h', by simp [ticks]⟩
    rw [hrest]
    cases hh : ticks h with
    | nil => simp [hh] at htick
    | cons t ts => simpa [hh] using htick
  cases fuel with
  | zero => exact calls_spin
  | succ fuel =>
    refine ⟨trivial, fun (now : Nat) _ => wp_ite (fun _ => ?_) fun _ heq => ?_⟩
    · refine wp_bind (calls_readData _ 0 (fun bs hbs => ⟨trivial, fun _ _ => ?_⟩)
        fun bs ctx' hbs => ⟨trivial, fun _ _ => ?_⟩)
      · refine calls_helloData_last (fun hlt => absurd hlt (by omega)) fun t _ => ?_
        exact ⟨bs, ctx.buf, hbs, rfl,
          by rw [inputs_tick, inputs_mdelay, inputs_reads, inputs_tick, hin]⟩
      · refine calls_helloData_last (fun _ => ⟨by rw [inputs_mdelay, inputs_getchar]; simp, ?_⟩) fun t heq => ?_
        · rw [List.append_assoc, List.append_assoc, List.append_assoc]
          exact hhead _
        · have heq' : 0 + (0 + bs.length) = dataSz - 1 := heq
          omega
    · have heq' : 0 = dataSz - 1 := heq
      omega

/-- `_rym_do_handshake`. -/
theorem calls_doHandshake (tmSec : Nat) (ht : ticks h = []) :
    Calls ms100 (rymDoHandshake ms100 fuel tmSec ctx) (fun _ _ => True) h := by
  refine wp_bind (wp_mono ?_ (calls_hello tmSec _ h ht))
  rintro h ⟨size, ctx⟩ ⟨ht, hcode⟩
  cases size with
  | none => trivial
  | some dataSz =>
    obtain ⟨pre, code, hin, hsize⟩ := hcode dataSz rfl
    obtain ⟨n, hn, hnsize⟩ : ∃ n, dataSz = n + 5 ∧
        ((code = rymCodeSoh ∧ n = 128) ∨ (code = rymCodeStx ∧ n = 1024)) := by
      rcases hsize with ⟨hsoh, rfl⟩ | ⟨hstx, rfl⟩
      · exact ⟨128, rfl, Or.inl ⟨hsoh, rfl⟩⟩
      · exact ⟨1024, rfl, Or.inr ⟨hstx, rfl⟩⟩
    subst hn
    refine ⟨trivial, fun (tick : Nat) _ => ?_⟩
    refine wp_bind (wp_ret (wp_bind (wp_mono ?_ (@calls_helloData _ _ ms100 _ tick (n + 5) code pre
      (by rw [inputs_tick, hin]) (by simp [ht]) (by omega)))))
    rintro h ⟨i, ctx⟩ hread
    refine wp_ite (fun _ => trivial) fun hi => ?_
    obtain ⟨bs, m, hbs, hbuf, hin⟩ := hread (not_not.mp hi)
    obtain ⟨a, b, data, hi, lo, rfl, hdata⟩ := exists_packet (show bs.length = n + 4 by omega)
    obtain ⟨ha, hb, hload, hhi, hlo⟩ := @packet_stored m a b hi lo data n hdata
    have hbuf' : ctx.buf = m.storeBytes 1 (a :: b :: data ++ [hi, lo]) := hbuf
    rw [hbuf']
    refine wp_ite (fun _ => trivial) fun hseq => wp_ite (fun _ => trivial) fun hcrc => ⟨?_,
      fun (x : UInt8) _ => @wp_ite _ _ _ _ _ _ _ (x ≠ rymCodeAck) _ _ _ (fun _ => trivial)
        fun _ => trivial⟩
    rw [not_or, not_not, not_not, ha, hb] at hseq
    obtain ⟨rfl, rfl⟩ := hseq
    rw [not_not, show n + 5 - 2 = n + 3 by omega, show n + 5 - 1 = n + 4 by omega,
      show n + 5 - 5 = n by omega, hhi, hlo, hload] at hcrc
    show Received _ _
    rw [show n + 5 - 5 = n by omega, hload]
    refine received_of_checks hin (by decide) hcrc ?_
    rw [hdata]
    exact hnsize

/-- **Every call is genuine**, in every run. -/
theorem rymDoRecv_calls {e : RymOp} {k : e.Ans → Rym (Except RymErr RymCtx)} {tmSec : Nat}
    (hrun : Run (Relied ms100) (rymDoRecv ms100 fuel tmSec ctx) [] (op e k) h) : Genuine h e := by
  have hcalls : Calls ms100 (rymDoRecv ms100 fuel tmSec ctx) (fun _ _ => True) [] := by
    refine wp_bind (wp_mono (fun h r _ => ?_) (calls_doHandshake tmSec rfl))
    cases r with
    | error e => trivial
    | ok ctx => exact calls_recvLoop fuel fuel ctx h
  exact (wp_sound hrun hcalls).1

end RTThread.Ymodem
