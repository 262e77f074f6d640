import RTThread.Lib.ByteMem

/-!
# The DHCP server (`components/net/lwip-dhcpd/dhcp_server.c`)

One datagram in `dhcpd_thread_entry`: the scan of its options and the reply that is written over
them. Addresses count from the beginning of the receive buffer, which is that of `msg`.

The scan takes every byte at `dhcp_opt` for the code of an option and the next one for its length,
also for the two options that have no length, and stops at nothing but the end option. `Fields` is
what it therefore needs, `Options` the option field as a client may send it, and `Paired` when the
pad bytes in it do no harm (`dhcpd_handles_iff`).
-/

namespace RTThread

/-- The constants of `lwip/prot/dhcp.h` and `BUFSZ`. -/
def dhcpBootRequest : UInt8 := 1
def dhcpBootReply : UInt8 := 2
def dhcpDiscover : UInt8 := 1
def dhcpOffer : UInt8 := 2
def dhcpRequest : UInt8 := 3
def dhcpAck : UInt8 := 5
def dhcpNak : UInt8 := 6
def dhcpOptionPad : UInt8 := 0
def dhcpOptionSubnetMask : UInt8 := 1
def dhcpOptionRouter : UInt8 := 3
def dhcpOptionDnsServer : UInt8 := 6
def dhcpOptionRequestedIp : UInt8 := 50
def dhcpOptionLeaseTime : UInt8 := 51
def dhcpOptionMessageType : UInt8 := 53
def dhcpOptionServerId : UInt8 := 54
def dhcpOptionEnd : UInt8 := 255
def dhcpMsgLen : Nat := 236
def dhcpOptionsOfs : Nat := dhcpMsgLen + 4
def dhcpdBufSz : Nat := 1024

namespace Dhcpd

/-- The address of four bytes. -/
def ipOf (a b c d : UInt8) : UInt32 :=
  a.toUInt32 <<< 24 ||| b.toUInt32 <<< 16 ||| c.toUInt32 <<< 8 ||| d.toUInt32

/-- What the scan finds out, the places where `dhcp_opt` has been, and the bytes read. -/
structure DhcpScan where
  messageType : UInt8 := 0
  requestIp : UInt32 := 0
  places : List Nat := []
  reads : List Nat := []

/-- The `switch` of the scan. -/
def dhcpOption (m : ByteMem) (opt : Nat) (s : DhcpScan) : DhcpScan :=
  let option := m opt
  let s := { s with places := s.places ++ [opt], reads := s.reads ++ [opt, opt + 1] }
  if option = dhcpOptionRequestedIp then
    { s with
      requestIp := ipOf (m (opt + 2)) (m (opt + 3)) (m (opt + 4)) (m (opt + 5))
      reads := s.reads ++ [opt + 2, opt + 3, opt + 4, opt + 5] }
  else if option = dhcpOptionMessageType then
    { s with messageType := m (opt + 2), reads := s.reads ++ [opt + 2] }
  else s

/-- The loop of the scan from `dhcp_opt = opt` on. -/
def dhcpScan (m : ByteMem) : Nat → Nat → DhcpScan → Option DhcpScan
  | 0, _, _ => none
  | fuel + 1, opt, s =>
    if m opt = dhcpOptionEnd then some (dhcpOption m opt s)
    else dhcpScan m fuel (opt + (2 + (m (opt + 1)).toNat)) (dhcpOption m opt s)

/-- What `DHCPD_SERVER_IP`, `DHCPD_USING_ROUTER` and the default DNS server come to. -/
structure DhcpdConfig where
  serverIp : UInt8 × UInt8 × UInt8 × UInt8
  usingRouter : Bool
  dnsIp : UInt8 × UInt8 × UInt8 × UInt8

/-- The options of the reply, without the end option. -/
def dhcpdReplyOptions (cfg : DhcpdConfig) (messageType : UInt8) : List UInt8 :=
  let (a, b, c, d) := cfg.serverIp
  let serverId := [dhcpOptionServerId, 4, a, b, c, d]
  let leaseTime := [dhcpOptionLeaseTime, 4, 0x00, 0x01, 0x51, 0x80]
  if messageType = dhcpDiscover then
    [dhcpOptionMessageType, 1, dhcpOffer] ++ serverId ++ leaseTime
  else if messageType = dhcpRequest then
    [dhcpOptionMessageType, 1, dhcpAck] ++ serverId ++ [dhcpOptionSubnetMask, 4, 0xFF, 0xFF, 0xFF, 0] ++
      (if cfg.usingRouter then [dhcpOptionRouter, 4, a, b, c, 1] else []) ++
      [dhcpOptionDnsServer, 4, cfg.dnsIp.1, cfg.dnsIp.2.1, cfg.dnsIp.2.2.1, cfg.dnsIp.2.2.2] ++
      leaseTime
  else []

/-- The writes into the buffer, and how many bytes of it are sent. -/
structure DhcpdReply where
  writes : List (Nat × UInt8)
  sendByte : Option Nat

/-- Bytes written one after the other from `dhcp_opt = opt` on. -/
def writesAt (opt : Nat) (bytes : List UInt8) : List (Nat × UInt8) :=
  (bytes.zipIdx opt).map Prod.swap

/-- The reply to what the scan has found out; `clientIp3` is what `get_ip` returned. -/
def dhcpdReply (cfg : DhcpdConfig) (clientIp3 : UInt8) (s : DhcpScan) : DhcpdReply :=
  let (a, b, c, _) := cfg.serverIp
  if s.requestIp ≠ 0 ∧ s.requestIp ≠ ipOf a b c clientIp3 then
    let bytes := [dhcpOptionMessageType, 1, dhcpNak, dhcpOptionEnd]
    ⟨writesAt dhcpOptionsOfs bytes, some (dhcpOptionsOfs + bytes.length)⟩
  else
    let bytes := dhcpdReplyOptions cfg s.messageType ++ [dhcpOptionEnd]
    if s.messageType = dhcpDiscover ∨ s.messageType = dhcpRequest then
      ⟨writesAt dhcpOptionsOfs bytes ++ [(0, dhcpBootReply)] ++ writesAt 16 [a, b, c, clientIp3],
        some (dhcpOptionsOfs + bytes.length)⟩
    else ⟨writesAt dhcpOptionsOfs bytes, none⟩

/-- The handler behind `recvfrom`: none while the scan is going on, and no reply for a datagram that
is too short or not a request. -/
def dhcpdHandle (cfg : DhcpdConfig) (clientIp3 : UInt8) (m : ByteMem) (bytesRead fuel : Nat) :
    Option (DhcpScan × DhcpdReply) :=
  if bytesRead < dhcpMsgLen then some ({}, ⟨[], none⟩)
  else if m 0 ≠ dhcpBootRequest ∨ m.loadBytes dhcpMsgLen 4 ≠ [0x63, 0x82, 0x53, 0x63] then
    some ({}, ⟨[], none⟩)
  else (dhcpScan m fuel dhcpOptionsOfs {}).map fun s => (s, dhcpdReply cfg clientIp3 s)

-- --------
-- Option bytes
-- --------

/-- **What the scan needs**: codes with lengths and values up to an end option that is not the last
byte, and no requested address with less than four bytes behind its length. -/
inductive Fields : List UInt8 → Prop
  | done {x : UInt8} {rest : List UInt8} : Fields (dhcpOptionEnd :: x :: rest)
  | field {code len : UInt8} {value rest : List UInt8} (hend : code ≠ dhcpOptionEnd)
      (hlen : value.length = len.toNat)
      (haddr : code = dhcpOptionRequestedIp → 4 ≤ (value ++ rest).length) (h : Fields rest) :
      Fields (code :: len :: (value ++ rest))

/-- An option of a client, and where it begins. -/
structure DhcpOption where
  place : Nat
  code : UInt8
  value : List UInt8

/-- **A well-formed option field** from `p` on: pad options of one byte, options with a length and a
value, in any order, and the end option, which is at `e`. -/
inductive Options : Nat → List UInt8 → List DhcpOption → Nat → Prop
  | done {p : Nat} {rest : List UInt8} : Options p (dhcpOptionEnd :: rest) [] p
  | pad {p e : Nat} {rest : List UInt8} {os : List DhcpOption} (h : Options (p + 1) rest os e) :
      Options p (dhcpOptionPad :: rest) os e
  | option {p e : Nat} {code len : UInt8} {value rest : List UInt8} {os : List DhcpOption}
      (hpad : code ≠ dhcpOptionPad) (hend : code ≠ dhcpOptionEnd)
      (hlen : value.length = len.toNat) (htype : code = dhcpOptionMessageType → len = 1)
      (haddr : code = dhcpOptionRequestedIp → len = 4)
      (h : Options (p + (2 + len.toNat)) rest os e) :
      Options p (code :: len :: (value ++ rest)) (⟨p, code, value⟩ :: os) e

/-- Every pad option is followed by another one. -/
inductive Paired : List UInt8 → Prop
  | done {rest : List UInt8} : Paired (dhcpOptionEnd :: rest)
  | pads {rest : List UInt8} (h : Paired rest) : Paired (dhcpOptionPad :: dhcpOptionPad :: rest)
  | option {code len : UInt8} {value rest : List UInt8} (hpad : code ≠ dhcpOptionPad)
      (hend : code ≠ dhcpOptionEnd) (hlen : value.length = len.toNat) (h : Paired rest) :
      Paired (code :: len :: (value ++ rest))

/-- The message type an option field names. -/
def messageTypeOf (os : List DhcpOption) (t : UInt8) : UInt8 :=
  os.foldl (fun t o => if o.code = dhcpOptionMessageType then o.value.getD 0 0 else t) t

/-- The address it requests. -/
def requestedIpOf (os : List DhcpOption) (ip : UInt32) : UInt32 :=
  os.foldl (fun ip o => if o.code = dhcpOptionRequestedIp then
    ipOf (o.value.getD 0 0) (o.value.getD 1 0) (o.value.getD 2 0) (o.value.getD 3 0) else ip) ip

-- --------
-- The scan
-- --------

section Scan

variable {m : ByteMem} {fuel opt n : Nat} {s r : DhcpScan} {bs : List UInt8}

/-- One round reads its two bytes, and those of the value it looks at. -/
theorem mem_reads_dhcpOption {a : Nat} : a ∈ (dhcpOption m opt s).reads ↔ a ∈ s.reads ∨
    a = opt ∨ a = opt + 1 ∨
    (m opt = dhcpOptionRequestedIp ∧ opt + 2 ≤ a ∧ a ≤ opt + 5) ∨
    (m opt = dhcpOptionMessageType ∧ a = opt + 2) := by
  unfold dhcpOption
  by_cases hip : m opt = dhcpOptionRequestedIp
  · have htype : m opt ≠ dhcpOptionMessageType := by
      rw [hip]
      decide
    simp only [if_pos hip, List.mem_append, List.mem_cons, List.not_mem_nil, or_false]
    constructor
    · rintro ((h | h | h) | h | h | h | h) <;> simp [h, hip]
    · rintro (h | h | h | ⟨-, h₁, h₂⟩ | ⟨h, -⟩)
      · exact Or.inl (Or.inl h)
      · exact Or.inl (Or.inr (Or.inl h))
      · exact Or.inl (Or.inr (Or.inr h))
      · exact Or.inr (by omega)
      · exact absurd h htype
  · by_cases htype : m opt = dhcpOptionMessageType
    · simp only [if_neg hip, if_pos htype, List.mem_append, List.mem_cons, List.not_mem_nil,
        or_false]
      grind
    · simp only [if_neg hip, if_neg htype, List.mem_append, List.mem_cons, List.not_mem_nil,
        or_false]
      grind

theorem places_dhcpOption : (dhcpOption m opt s).places = s.places ++ [opt] := by
  unfold dhcpOption
  dsimp only
  split
  · rfl
  · split <;> rfl

/-- What has been read and seen stays so, and the scan only goes forward. -/
theorem dhcpScan_grows (h : dhcpScan m fuel opt s = some r) :
    (∀ a ∈ (dhcpOption m opt s).reads, a ∈ r.reads) ∧
      ∃ more, r.places = s.places ++ more ∧ ∀ x ∈ more, opt ≤ x := by
  induction fuel generalizing opt s with
  | zero => cases h
  | succ fuel ih =>
    rw [dhcpScan] at h
    by_cases hend : m opt = dhcpOptionEnd
    · rw [if_pos hend] at h
      cases h
      exact ⟨fun _ => id, [opt], places_dhcpOption, by simp⟩
    · rw [if_neg hend] at h
      obtain ⟨hreads, more, hplaces, hmore⟩ := ih h
      refine ⟨fun a ha => hreads a (mem_reads_dhcpOption.mpr (Or.inl ha)), opt :: more, ?_, ?_⟩
      · rw [hplaces, places_dhcpOption, List.append_assoc, List.singleton_append]
      · intro x hx
        rcases List.mem_cons.mp hx with rfl | hx
        · exact Nat.le_refl x
        · exact Nat.le_trans (by omega) (hmore x hx)

/-- The bytes at a place of the buffer. -/
theorem holds_cons {b : UInt8} : m.Holds opt (b :: bs) ↔ m opt = b ∧ m.Holds (opt + 1) bs := by
  constructor
  · intro h
    refine ⟨h 0 (Nat.succ_pos _), fun i hi => ?_⟩
    have := h (i + 1) (Nat.succ_lt_succ hi)
    rwa [Nat.add_right_comm opt 1 i]
  · rintro ⟨hb, h⟩ i hi
    cases i with
    | zero => exact hb
    | succ i =>
      have := h i (Nat.lt_of_succ_lt_succ hi)
      rwa [Nat.add_right_comm opt 1 i] at this

/-- **The scan ends** on such bytes, and reads nothing behind them. -/
theorem dhcpScan_of_fields (hf : Fields bs) : ∀ {opt : Nat} {s : DhcpScan},
    m.Holds opt bs → opt + bs.length = n →
    ∃ fuel r, dhcpScan m fuel opt s = some r ∧ ∀ a ∈ r.reads, a ∈ s.reads ∨ a < n := by
  induction hf with
  | @done x rest =>
    intro opt s hm hn
    obtain ⟨hopt, -⟩ := holds_cons.mp hm
    refine ⟨1, dhcpOption m opt s, by rw [dhcpScan, if_pos hopt], fun a ha => ?_⟩
    rw [List.length_cons, List.length_cons] at hn
    rcases mem_reads_dhcpOption.mp ha with ha | rfl | rfl | ⟨hip, -⟩ | ⟨htype, -⟩
    · exact Or.inl ha
    · exact Or.inr (by omega)
    · exact Or.inr (by omega)
    · exact absurd (hopt.symm.trans hip) (by decide)
    · exact absurd (hopt.symm.trans htype) (by decide)
  | @field code len value rest hend hlen haddr hf ih =>
    intro opt s hm hn
    obtain ⟨hopt, hm⟩ := holds_cons.mp hm
    obtain ⟨hlength, hm⟩ := holds_cons.mp hm
    have hrest := hm.append_right
    rw [hlen] at hrest
    rw [List.length_cons, List.length_cons, List.length_append, hlen] at hn
    have hpos : 2 ≤ rest.length := by
      cases hf with
      | done => simp
      | field => simp
    obtain ⟨fuel, r, hscan, hreads⟩ := @ih (opt + (2 + len.toNat)) (dhcpOption m opt s)
      (by rwa [show opt + (2 + len.toNat) = opt + 1 + 1 + len.toNat by omega]) (by omega)
    refine ⟨fuel + 1, r, ?_, fun a ha => ?_⟩
    · rw [dhcpScan, if_neg (by rw [hopt]; exact hend), hlength]
      exact hscan
    · rcases hreads a ha with ha | ha
      · rcases mem_reads_dhcpOption.mp ha with ha | rfl | rfl | ⟨hip, -, hle⟩ | ⟨-, rfl⟩
        · exact Or.inl ha
        · exact Or.inr (by omega)
        · exact Or.inr (by omega)
        · have := haddr (hopt.symm.trans hip)
          rw [List.length_append, hlen] at this
          exact Or.inr (by omega)
        · exact Or.inr (by omega)
      · exact Or.inr ha

/-- **What the scan needs**, when it has ended and read nothing behind the bytes. -/
theorem fields_of_dhcpScan : ∀ {fuel opt : Nat} {s r : DhcpScan} {bs : List UInt8},
    dhcpScan m fuel opt s = some r → (∀ a ∈ r.reads, a < n) → m.Holds opt bs →
    opt + bs.length = n → Fields bs := by
  intro fuel
  induction fuel with
  | zero => exact fun h => nomatch h
  | succ fuel ih =>
    intro opt s r bs hscan hreads hm hn
    have hown := (dhcpScan_grows hscan).1
    have hsecond := hreads _ (hown (opt + 1) (mem_reads_dhcpOption.mpr (by simp)))
    obtain ⟨code, bs, rfl⟩ : ∃ b bs', bs = b :: bs' := by
      cases bs with
      | nil => exact absurd hn (by simp; omega)
      | cons b bs => exact ⟨b, bs, rfl⟩
    obtain ⟨len, bs, rfl⟩ : ∃ b bs', bs = b :: bs' := by
      cases bs with
      | nil => exact absurd hn (by simp; omega)
      | cons b bs => exact ⟨b, bs, rfl⟩
    obtain ⟨hopt, hm⟩ := holds_cons.mp hm
    obtain ⟨hlength, hm⟩ := holds_cons.mp hm
    rw [List.length_cons, List.length_cons] at hn
    by_cases hend : code = dhcpOptionEnd
    · rw [hend]
      exact Fields.done
    · rw [dhcpScan, if_neg (by rw [hopt]; exact hend), hlength] at hscan
      -- the next round has read its place, so the value lies before the end
      have hnext := hreads _ ((dhcpScan_grows hscan).1 _ (mem_reads_dhcpOption.mpr
        (Or.inr (Or.inl rfl))))
      have hsplit := List.take_append_drop len.toNat bs
      have hlen : (bs.take len.toNat).length = len.toNat := by
        rw [List.length_take]
        omega
      have hrest := @ByteMem.Holds.append_right m (opt + 1 + 1) (bs.take len.toNat)
        (bs.drop len.toNat) (by rwa [hsplit])
      rw [hlen] at hrest
      rw [← hsplit]
      refine Fields.field hend hlen (fun hip => ?_) (ih hscan hreads
        (by rwa [show opt + (2 + len.toNat) = opt + 1 + 1 + len.toNat by omega])
        (by rw [List.length_drop]; omega))
      have hlast := hreads _ (hown (opt + 5) (mem_reads_dhcpOption.mpr
        (Or.inr (Or.inr (Or.inr (Or.inl ⟨hopt.trans hip, by omega, by omega⟩))))))
      rw [hsplit]
      omega

/-- The places of options that are no pad. -/
def seen (m : ByteMem) (s : DhcpScan) : List Nat := s.places.filter fun p => m p ≠ dhcpOptionPad

theorem seen_dhcpOption : seen m (dhcpOption m opt s) =
    if m opt = dhcpOptionPad then seen m s else seen m s ++ [opt] := by
  rw [seen, places_dhcpOption, List.filter_append]
  by_cases hpad : m opt = dhcpOptionPad
  · rw [if_pos hpad, List.filter_cons_of_neg (by simp [hpad]), List.filter_nil, List.append_nil]
    rfl
  · rw [if_neg hpad, List.filter_cons_of_pos (by simp [hpad]), List.filter_nil]
    rfl

theorem dhcpOption_other (hip : m opt ≠ dhcpOptionRequestedIp)
    (htype : m opt ≠ dhcpOptionMessageType) :
    (dhcpOption m opt s).messageType = s.messageType ∧
      (dhcpOption m opt s).requestIp = s.requestIp := by
  simp only [dhcpOption, if_neg hip, if_neg htype, and_self]

/-- What one round finds out of an option. -/
theorem dhcpOption_finds {o : DhcpOption} {len : UInt8} {rest : List UInt8}
    (hm : m.Holds opt (o.code :: len :: (o.value ++ rest))) (hlen : o.value.length = len.toNat)
    (htype : o.code = dhcpOptionMessageType → len = 1)
    (haddr : o.code = dhcpOptionRequestedIp → len = 4) :
    (dhcpOption m opt s).messageType = messageTypeOf [o] s.messageType ∧
      (dhcpOption m opt s).requestIp = requestedIpOf [o] s.requestIp := by
  obtain ⟨hopt, hm⟩ := holds_cons.mp hm
  obtain ⟨-, hm⟩ := holds_cons.mp hm
  have hvalue := hm.append_left
  unfold dhcpOption messageTypeOf requestedIpOf
  by_cases hip : o.code = dhcpOptionRequestedIp
  · have hne : o.code ≠ dhcpOptionMessageType := by
      rw [hip]
      decide
    have hfour : o.value.length = 4 := by
      rw [hlen, haddr hip]
      rfl
    have hbyte : ∀ i, i < 4 → m (opt + 1 + 1 + i) = o.value.getD i 0 := by
      intro i hi
      rw [hvalue i (by omega), List.getD_eq_getElem _ _ (by omega)]
    simp only [hopt, if_pos hip, List.foldl_cons, List.foldl_nil, if_neg hne, true_and]
    rw [← hbyte 0 (by omega), ← hbyte 1 (by omega), ← hbyte 2 (by omega), ← hbyte 3 (by omega)]
  · by_cases htp : o.code = dhcpOptionMessageType
    · have hone : o.value.length = 1 := by
        rw [hlen, htype htp]
        rfl
      have hbyte : m (opt + 2) = o.value.getD 0 0 := by
        rw [List.getD_eq_getElem _ _ (by omega), ← hvalue 0 (by omega)]
      simp only [hopt, if_neg hip, if_pos htp, List.foldl_cons, List.foldl_nil, hbyte, and_self]
    · simp only [hopt, if_neg hip, if_neg htp, List.foldl_cons, List.foldl_nil, and_self]

/-- **The scan sees every option** where it is, when the pads come in pairs. -/
theorem dhcpScan_of_paired (hp : Paired bs) : ∀ {fuel opt e : Nat} {s r : DhcpScan}
    {os : List DhcpOption}, Options opt bs os e → dhcpScan m fuel opt s = some r → m.Holds opt bs →
    r.messageType = messageTypeOf os s.messageType ∧
      r.requestIp = requestedIpOf os s.requestIp ∧
      seen m r = seen m s ++ (os.map DhcpOption.place ++ [e]) := by
  induction hp with
  | done =>
    intro fuel opt e s r os hos hscan hm
    obtain ⟨hopt, -⟩ := holds_cons.mp hm
    cases fuel with
    | zero => cases hscan
    | succ fuel =>
      rw [dhcpScan, if_pos hopt] at hscan
      cases hscan
      cases hos with
      | done =>
        obtain ⟨htype, hip⟩ := @dhcpOption_other m opt s (by rw [hopt]; decide)
          (by rw [hopt]; decide)
        refine ⟨htype, hip, ?_⟩
        · rw [seen_dhcpOption, if_neg (by rw [hopt]; decide), List.map_nil, List.nil_append]
      | option _ hend => exact absurd rfl hend
  | @pads rest _ ih =>
    intro fuel opt e s r os hos hscan hm
    obtain ⟨hopt, hm⟩ := holds_cons.mp hm
    obtain ⟨hlength, hm⟩ := holds_cons.mp hm
    cases hos with
    | option hpad => exact absurd rfl hpad
    | pad hos =>
      cases hos with
      | option hpad => exact absurd rfl hpad
      | pad hos =>
        cases fuel with
        | zero => cases hscan
        | succ fuel =>
          rw [dhcpScan, if_neg (by rw [hopt]; decide), hlength] at hscan
          obtain ⟨htype, hip, hseen⟩ := ih hos hscan hm
          rw [seen_dhcpOption, if_pos hopt] at hseen
          obtain ⟨htype', hip'⟩ := @dhcpOption_other m opt s (by rw [hopt]; decide)
            (by rw [hopt]; decide)
          rw [htype'] at htype
          rw [hip'] at hip
          exact ⟨htype, hip, hseen⟩
  | @option code len value rest hpad hend hlen _ ih =>
    intro fuel opt e s r os hos hscan hm
    generalize hbs : code :: len :: (value ++ rest) = bs at hos
    cases hos with
    | done => exact absurd (List.cons.inj hbs).1 hend
    | pad => exact absurd (List.cons.inj hbs).1 hpad
    | @option _ _ code' len' value' rest' os hpad' hend' hlen' htype haddr hos =>
      obtain ⟨hcodes, htail⟩ := List.cons.inj hbs
      obtain ⟨hlens, hvalues⟩ := List.cons.inj htail
      subst hcodes hlens
      obtain ⟨rfl, rfl⟩ := List.append_inj hvalues (hlen.trans hlen'.symm)
      obtain ⟨htypeNow, hipNow⟩ := @dhcpOption_finds m opt s ⟨opt, code, value⟩ len rest hm hlen
        htype haddr
      obtain ⟨hopt, hm⟩ := holds_cons.mp hm
      obtain ⟨hlength, hm⟩ := holds_cons.mp hm
      have hrest := hm.append_right
      rw [hlen, show opt + 1 + 1 + len.toNat = opt + (2 + len.toNat) by omega] at hrest
      cases fuel with
      | zero => cases hscan
      | succ fuel =>
        rw [dhcpScan, if_neg (by rw [hopt]; exact hend), hlength] at hscan
        obtain ⟨htypeRest, hipRest, hseen⟩ := ih hos hscan hrest
        rw [seen_dhcpOption, if_neg (by rw [hopt]; exact hpad)] at hseen
        refine ⟨?_, ?_, ?_⟩
        · rw [htypeRest, htypeNow]
          rfl
        · rw [hipRest, hipNow]
          rfl
        · rw [hseen, List.append_assoc]
          rfl

/-- **A pad that hides what follows it**: the places seen are not those of the options. -/
theorem paired_of_dhcpScan : ∀ {fuel opt e : Nat} {s r : DhcpScan} {os : List DhcpOption}
    {bs : List UInt8}, Options opt bs os e → dhcpScan m fuel opt s = some r → m.Holds opt bs →
    seen m r = seen m s ++ (os.map DhcpOption.place ++ [e]) → Paired bs := by
  intro fuel
  induction fuel with
  | zero => exact fun _ h => nomatch h
  | succ fuel ih =>
    intro opt e s r os bs hos hscan hm hseen
    cases hos with
    | done => exact Paired.done
    | @pad _ _ rest _ hos =>
      obtain ⟨hopt, hm⟩ := holds_cons.mp hm
      rw [dhcpScan, if_neg (by rw [hopt]; decide)] at hscan
      obtain ⟨-, more, hplaces, hmore⟩ := dhcpScan_grows hscan
      -- the place behind the pad is not seen if the byte there is taken for a length
      have hlength : ∀ {p : Nat}, p = opt + 1 → p ∈ os.map DhcpOption.place ++ [e] →
          m (opt + 1) = dhcpOptionPad := by
        rintro p rfl hp
        by_contra hne
        have hmem : opt + 1 ∈ more.filter fun p => m p ≠ dhcpOptionPad := by
          have heq : seen m r = seen m s ++ more.filter fun p => m p ≠ dhcpOptionPad := by
            rw [seen, hplaces, List.filter_append]
            congr 1
            have := @seen_dhcpOption m opt s
            rwa [if_pos hopt] at this
          rw [heq] at hseen
          rw [List.append_cancel_left hseen]
          exact hp
        have hle := hmore _ (List.mem_filter.mp hmem).1
        have hpos : (m (opt + 1)).toNat ≠ 0 := fun h0 => hne (UInt8.toNat_inj.mp h0)
        omega
      cases hos with
      | done =>
        obtain ⟨hnext, -⟩ := holds_cons.mp hm
        exact absurd (hnext.symm.trans (hlength rfl (by simp))) (by decide)
      | option hpad =>
        obtain ⟨hnext, -⟩ := holds_cons.mp hm
        exact absurd (hnext.symm.trans (hlength rfl (by simp))) hpad
      | pad hos =>
        obtain ⟨hnext, hm⟩ := holds_cons.mp hm
        rw [hnext] at hscan
        refine Paired.pads (ih hos hscan hm ?_)
        rw [seen_dhcpOption, if_pos hopt]
        exact hseen
    | @option _ _ code len value rest os hpad hend hlen htype haddr hos =>
      obtain ⟨hopt, hm⟩ := holds_cons.mp hm
      obtain ⟨hlength, hm⟩ := holds_cons.mp hm
      have hrest := hm.append_right
      rw [hlen, show opt + 1 + 1 + len.toNat = opt + (2 + len.toNat) by omega] at hrest
      rw [dhcpScan, if_neg (by rw [hopt]; exact hend), hlength] at hscan
      refine Paired.option hpad hend hlen (ih hos hscan hrest ?_)
      rw [seen_dhcpOption, if_neg (by rw [hopt]; exact hpad), hseen, List.append_assoc]
      rfl

end Scan

-- --------
-- The reply
-- --------

theorem fst_of_mem_writesAt {opt : Nat} {bytes : List UInt8} {w : Nat × UInt8}
    (h : w ∈ writesAt opt bytes) : w.1 < opt + bytes.length := by
  obtain ⟨⟨b, i⟩, hb, rfl⟩ := List.mem_map.mp h
  exact (List.mem_zipIdx hb).2.1

theorem length_dhcpdReplyOptions (cfg : DhcpdConfig) (messageType : UInt8) :
    (dhcpdReplyOptions cfg messageType).length ≤ 33 := by
  unfold dhcpdReplyOptions
  dsimp only
  split
  · simp
  · split
    · split <;> simp
    · simp

/-- **The reply stays inside the receive buffer**, and so does what is sent of it. -/
theorem dhcpdReply_inside (cfg : DhcpdConfig) (clientIp3 : UInt8) (s : DhcpScan) :
    (∀ w ∈ (dhcpdReply cfg clientIp3 s).writes, w.1 < dhcpdBufSz) ∧
      ∀ n ∈ (dhcpdReply cfg clientIp3 s).sendByte, n ≤ dhcpdBufSz := by
  have hofs : dhcpOptionsOfs = 240 := rfl
  have hbuf : dhcpdBufSz = 1024 := rfl
  have hlen := length_dhcpdReplyOptions cfg s.messageType
  unfold dhcpdReply
  dsimp only
  split
  · refine ⟨fun w hw => ?_, fun n hn => ?_⟩
    · have := fst_of_mem_writesAt hw
      simp only [List.length_cons, List.length_nil] at this
      omega
    · cases hn
      decide
  · split
    · refine ⟨fun w hw => ?_, fun n hn => ?_⟩
      · rcases List.mem_append.mp hw with hw | hw
        · rcases List.mem_append.mp hw with hw | hw
          · have := fst_of_mem_writesAt hw
            rw [List.length_append, List.length_singleton] at this
            omega
          · cases List.mem_singleton.mp hw
            decide
        · have := fst_of_mem_writesAt hw
          simp only [List.length_cons, List.length_nil] at this
          omega
      · cases hn
        rw [List.length_append, List.length_singleton]
        omega
    · refine ⟨fun w hw => ?_, fun n hn => nomatch hn⟩
      have := fst_of_mem_writesAt hw
      rw [List.length_append, List.length_singleton] at this
      omega

-- --------
-- A datagram
-- --------

/-- **What is promised** of a datagram `d` in the buffer: the handler comes to an end, it reads
options from bytes of the datagram only, it sees every option of a well-formed option field with
what it says, and it writes into the buffer only. -/
def Handles (cfg : DhcpdConfig) (clientIp3 : UInt8) (m : ByteMem) (d : List UInt8) : Prop :=
  ∃ fuel s reply, dhcpdHandle cfg clientIp3 m d.length fuel = some (s, reply) ∧
    (∀ a ∈ s.reads, a < d.length) ∧
    (∀ os e, Options dhcpOptionsOfs (d.drop dhcpOptionsOfs) os e →
      s.messageType = messageTypeOf os 0 ∧ s.requestIp = requestedIpOf os 0 ∧
        seen m s = os.map DhcpOption.place ++ [e]) ∧
    (∀ w ∈ reply.writes, w.1 < dhcpdBufSz) ∧ ∀ n ∈ reply.sendByte, n ≤ dhcpdBufSz

/-- **The option scan.** A request is handled as it should be exactly when its option bytes, every
byte in the place of a code taken for one, come to an end option that is not the last byte, and
the pads of a well-formed option field come in pairs. -/
theorem dhcpd_handles_iff (cfg : DhcpdConfig) (clientIp3 : UInt8) (m : ByteMem) (d : List UInt8)
    (hshort : dhcpMsgLen ≤ d.length) (hm : m.Holds 0 d) (hop : m 0 = dhcpBootRequest)
    (hcookie : m.loadBytes dhcpMsgLen 4 = [0x63, 0x82, 0x53, 0x63]) :
    Handles cfg clientIp3 m d ↔ Fields (d.drop dhcpOptionsOfs) ∧
      ((∃ os e, Options dhcpOptionsOfs (d.drop dhcpOptionsOfs) os e) →
        Paired (d.drop dhcpOptionsOfs)) := by
  have hhandle : ∀ fuel, dhcpdHandle cfg clientIp3 m d.length fuel =
      (dhcpScan m fuel dhcpOptionsOfs {}).map fun s => (s, dhcpdReply cfg clientIp3 s) := by
    intro fuel
    rw [dhcpdHandle, if_neg (by omega), if_neg (by simp [hop, hcookie])]
  -- the option bytes are where the scan begins, if there are any
  have hoptions : dhcpOptionsOfs ≤ d.length → m.Holds dhcpOptionsOfs (d.drop dhcpOptionsOfs) ∧
      dhcpOptionsOfs + (d.drop dhcpOptionsOfs).length = d.length := by
    intro hle
    refine ⟨fun i hi => ?_, by rw [List.length_drop]; omega⟩
    rw [List.length_drop] at hi
    have := hm (dhcpOptionsOfs + i) (by omega)
    rwa [Nat.zero_add, ← List.getElem_drop] at this
  constructor
  · rintro ⟨fuel, s, reply, hrun, hreads, hsees, -⟩
    rw [hhandle] at hrun
    obtain ⟨r, hscan, hr⟩ := Option.map_eq_some_iff.mp hrun
    cases hr
    have hfirst := hreads _ ((dhcpScan_grows hscan).1 dhcpOptionsOfs
      (mem_reads_dhcpOption.mpr (Or.inr (Or.inl rfl))))
    obtain ⟨hat, hlen⟩ := hoptions (Nat.le_of_lt hfirst)
    refine ⟨fields_of_dhcpScan hscan hreads hat hlen, ?_⟩
    rintro ⟨os, e, hos⟩
    exact paired_of_dhcpScan hos hscan hat (hsees os e hos).2.2
  · rintro ⟨hfields, hpaired⟩
    have hle : dhcpOptionsOfs ≤ d.length := by
      by_contra hlt
      rw [List.drop_eq_nil_of_le (by omega)] at hfields
      cases hfields
    obtain ⟨hat, hlen⟩ := hoptions hle
    obtain ⟨fuel, r, hscan, hreads⟩ := @dhcpScan_of_fields m d.length _ hfields dhcpOptionsOfs {}
      hat hlen
    obtain ⟨hwrites, hsend⟩ := dhcpdReply_inside cfg clientIp3 r
    refine ⟨fuel, r, _, by rw [hhandle, hscan]; rfl, fun a ha => ?_, fun os e hos => ?_, hwrites,
      hsend⟩
    · rcases hreads a ha with ha | ha
      · cases ha
      · exact ha
    · exact dhcpScan_of_paired (hpaired ⟨os, e, hos⟩) hos hscan hat

/-- A request with these option bytes, in a buffer that is clear behind it. -/
def requestWith (options : List UInt8) : List UInt8 :=
  dhcpBootRequest :: (List.replicate 235 0 ++ [0x63, 0x82, 0x53, 0x63] ++ options)

def bufferOf (d : List UInt8) : ByteMem := fun i => d.getD i 0

theorem holds_bufferOf (d : List UInt8) : (bufferOf d).Holds 0 d := by
  intro i hi
  rw [Nat.zero_add]
  exact List.getD_eq_getElem _ _ hi

def sampleConfig : DhcpdConfig := ⟨(192, 168, 169, 1), false, (192, 168, 169, 1)⟩

theorem dhcpd_handles_discover : Handles sampleConfig 2
    (bufferOf (requestWith [0, 0, 53, 1, 1, 255, 0])) (requestWith [0, 0, 53, 1, 1, 255, 0]) := by
  refine (dhcpd_handles_iff _ _ _ _ (by decide +kernel) (holds_bufferOf _) rfl (by decide +kernel)).mpr
    ⟨?_, fun _ => ?_⟩
  · show Fields [0, 0, 53, 1, 1, 255, 0]
    exact @Fields.field 0 0 [] _ (by decide) rfl (by decide) (@Fields.field 53 1 [1] _ (by decide)
      rfl (by decide) Fields.done)
  · show Paired [0, 0, 53, 1, 1, 255, 0]
    exact Paired.pads (@Paired.option 53 1 [1] _ (by decide) (by decide) rfl Paired.done)

theorem dhcpScan_clear {m : ByteMem} (fuel : Nat) : ∀ (opt : Nat) (s : DhcpScan),
    (∀ i, opt ≤ i → m i = 0) → dhcpScan m fuel opt s = none := by
  induction fuel with
  | zero => exact fun _ _ _ => rfl
  | succ fuel ih =>
    intro opt s hclear
    rw [dhcpScan, if_neg (by rw [hclear opt (Nat.le_refl opt)]; decide)]
    exact ih _ _ fun i hi => hclear i (by omega)

/-- A pad in front of the message type: the scan runs out of the datagram and does not end. -/
theorem dhcpd_pad_runs_away :
    Options dhcpOptionsOfs ((requestWith [0, 53, 1, 1, 255]).drop dhcpOptionsOfs)
      [⟨241, dhcpOptionMessageType, [dhcpDiscover]⟩] 244 ∧
    ∀ fuel, dhcpdHandle sampleConfig 2 (bufferOf (requestWith [0, 53, 1, 1, 255])) 245 fuel =
      none := by
  constructor
  · show Options 240 [0, 53, 1, 1, 255] _ _
    exact Options.pad (@Options.option 241 244 53 1 [1] [255] [] (by decide) (by decide) rfl
      (fun _ => rfl) (by decide) Options.done)
  · intro fuel
    have hcookie : (bufferOf (requestWith [0, 53, 1, 1, 255])).loadBytes dhcpMsgLen 4 =
        [0x63, 0x82, 0x53, 0x63] := by decide +kernel
    have hheader : ¬ (bufferOf (requestWith [0, 53, 1, 1, 255]) 0 ≠ dhcpBootRequest ∨
        (bufferOf (requestWith [0, 53, 1, 1, 255])).loadBytes dhcpMsgLen 4 ≠
          [0x63, 0x82, 0x53, 0x63]) := fun h => h.elim (fun hop => hop rfl) fun hne => hne hcookie
    rw [dhcpdHandle, if_neg (by decide), if_neg hheader]
    cases fuel with
    | zero => rfl
    | succ fuel =>
      have hpad : bufferOf (requestWith [0, 53, 1, 1, 255]) dhcpOptionsOfs ≠ dhcpOptionEnd := by
        decide +kernel
      rw [dhcpScan, if_neg hpad, dhcpScan_clear]
      · rfl
      · intro i hi
        have hplace : dhcpOptionsOfs + (2 + (bufferOf (requestWith [0, 53, 1, 1, 255])
            (dhcpOptionsOfs + 1)).toNat) = 295 := by decide +kernel
        exact List.getD_eq_default _ _ (by
          rw [hplace] at hi
          simp only [requestWith, List.length_cons, List.length_append, List.length_replicate,
            List.length_nil]
          omega)

end Dhcpd

end RTThread
