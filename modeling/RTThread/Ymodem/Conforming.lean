import RTThread.Ymodem.Session

/-!
# A YMODEM receiver and a conforming sender

A conforming sender gives a packet until its acknowledgement has come, and goes on only then. An
acknowledgement that is lost is one that it takes no notice of. While it waits for that of a
header, it takes a `C` for a NAK: the receiver may have announced itself several times.

The receiver drops a header that comes again without an answer, so the sender never gets the
acknowledgement that it waits for (`comes_answered_lost`), and hands a data packet over each time
it comes. `rymDoRecv_genuine` says which files come out right.
-/

namespace RTThread.Ymodem

open Interact

-- --------
-- The sender
-- --------

/-- A file as it is sent. -/
structure SentFile where
  header : SentPacket
  packets : List SentPacket

/-- The packet with a number. -/
def SentPacket.bytes (p : SentPacket) (index : UInt8) : List UInt8 :=
  packetBytes p.code index p.data

/-- One part behind the other, if that went well. -/
def afterPart (q : Rym Bool) : Bool → Rym Bool
  | true => q
  | false => return false

/-- A packet, until an acknowledgement comes; the first `lost` ones do not. -/
def sendUntilAcked (bytes : List UInt8) : Nat → Rym Bool
  | 0 => do
    rymWrite bytes
    let c ← rymGetchar
    return c == rymCodeAck
  | lost + 1 => do
    rymWrite bytes
    let _ ← rymGetchar
    sendUntilAcked bytes lost

/-- The answer to a header: a `C` is taken for a NAK, and an acknowledgement has a `C` behind it. -/
def headerAnswer (again : Nat → Rym Bool) (lost : Nat) : Rym Bool := do
  let c ← rymGetchar
  if c = rymCodeC then again lost
  else
    let c' ← rymGetchar
    if lost = 0 then return c == rymCodeAck && c' == rymCodeC else again (lost - 1)

/-- A header, at most `tries` times. -/
def sendHeader (bytes : List UInt8) : Nat → Nat → Rym Bool
  | 0, _ => return false
  | tries + 1, lost => do
    rymWrite bytes
    headerAnswer (sendHeader bytes tries) lost

/-- The data packets, with their numbers modulo 256. -/
def sendData : UInt8 → List SentPacket → Rym Bool
  | _, [] => return true
  | index, p :: ps => sendUntilAcked (p.bytes index) p.again >>= afterPart (sendData (index + 1) ps)

/-- The end of a file: EOT, a NAK, EOT once more. -/
def sendEot : Rym Bool := do
  rymPutchar rymCodeEot
  let nak ← rymGetchar
  rymPutchar rymCodeEot
  let ack ← rymGetchar
  let c ← rymGetchar
  return nak == rymCodeNak && ack == rymCodeAck && c == rymCodeC

/-- The files, and the packet that is that of no file. -/
def sendFiles (tries : Nat) : List SentFile → Rym Bool
  | [] => sendUntilAcked (packetBytes rymCodeSoh 0 (List.replicate 128 0)) 0
  | f :: fs => sendHeader (f.header.bytes 0) tries f.header.again >>= afterPart
    (sendData 1 f.packets >>= afterPart (sendEot >>= afterPart (sendFiles tries fs)))

/-- **A conforming sender**: it waits for the receiver to announce itself. -/
def conformingSend (tries : Nat) (files : List SentFile) : Rym Bool := do
  let c ← rymGetchar
  if c = rymCodeC then sendFiles tries files else return false

-- --------
-- What is to come out
-- --------

/-- What the receiver should hand over of a file: its packets in order, each once. -/
def SentFile.calls (f : SentFile) : List RymCall :=
  .began f.header.data :: f.packets.map fun p => .data p.data

/-- What it hands over of data packets. -/
def handedData (ps : List SentPacket) : List RymCall :=
  ps.flatMap fun p => List.replicate (p.again + 1) (.data p.data)

/-- What it hands over of files: nothing comes behind a header whose acknowledgement is lost. -/
def handedFiles : List SentFile → List RymCall
  | [] => []
  | f :: fs => .began f.header.data ::
    if f.header.again = 0 then handedData f.packets ++ handedFiles fs else []

/-- No acknowledgement is lost, but perhaps that of a last header with nothing behind it. -/
def Undisturbed : List SentFile → Prop
  | [] => True
  | f :: fs => (f.header.again = 0 ∧ (∀ p ∈ f.packets, p.again = 0) ∧ Undisturbed fs) ∨
    (f.packets = [] ∧ fs = [])

/-- It is a call of `on_data`. -/
def RymCall.isData : RymCall → Bool
  | began _ => false
  | data _ => true

theorem isData_of_mem_handedData {ps : List SentPacket} {c : RymCall} (h : c ∈ handedData ps) :
    c.isData = true := by
  obtain ⟨p, -, hc⟩ := List.mem_flatMap.mp h
  rw [List.eq_of_mem_replicate hc]
  rfl

/-- The calls of the data and those of the files behind it do not mix. -/
theorem data_append_inj {a b c d : List RymCall} (ha : ∀ x ∈ a, x.isData = true)
    (hc : ∀ x ∈ c, x.isData = true) (hb : ∀ x ∈ b.head?, x.isData = false)
    (hd : ∀ x ∈ d.head?, x.isData = false) : a ++ b = c ++ d ↔ a = c ∧ b = d := by
  have hfront : ∀ {l r : List RymCall}, (∀ x ∈ l, x.isData = true) →
      (∀ x ∈ r.head?, x.isData = false) → (l ++ r).takeWhile RymCall.isData = l := by
    intro l r hl hr
    rw [List.takeWhile_append_of_pos hl]
    cases r with
    | nil => exact List.append_nil l
    | cons x r =>
      rw [List.takeWhile_cons_of_neg (by rw [hr x rfl]; decide), List.append_nil]
  constructor
  · intro heq
    have hac : a = c := by rw [← hfront ha hb, heq, hfront hc hd]
    subst hac
    exact ⟨rfl, List.append_cancel_left heq⟩
  · rintro ⟨rfl, rfl⟩
    rfl

theorem handedData_eq_iff (ps : List SentPacket) :
    handedData ps = (ps.map fun p => .data p.data) ↔ ∀ p ∈ ps, p.again = 0 := by
  constructor
  · intro heq
    have hlen := congrArg List.length heq
    rw [handedData, List.length_flatMap, List.length_map] at hlen
    clear heq
    induction ps with
    | nil => nofun
    | cons p ps ih =>
      have hle : ps.length ≤ (ps.map fun p => (List.replicate (p.again + 1)
          (RymCall.data p.data)).length).sum := by
        clear ih hlen
        induction ps with
        | nil => exact Nat.zero_le _
        | cons q ps ih =>
          rw [List.map_cons, List.sum_cons, List.length_replicate, List.length_cons]
          omega
      rw [List.map_cons, List.sum_cons, List.length_replicate, List.length_cons] at hlen
      intro q hq
      rcases List.mem_cons.mp hq with rfl | hq
      · omega
      · exact ih (by omega) q hq
  · intro hone
    rw [handedData, List.map_eq_flatMap]
    refine congrArg List.flatten (List.map_congr_left fun p hp => ?_)
    rw [hone p hp]
    rfl

/-- **The files come out right** exactly when they are undisturbed. -/
theorem handedFiles_eq_iff (files : List SentFile) :
    handedFiles files = files.flatMap SentFile.calls ↔ Undisturbed files := by
  induction files with
  | nil => exact iff_of_true rfl trivial
  | cons f fs ih =>
    have hhanded : ∀ x ∈ (handedFiles fs).head?, x.isData = false := by
      cases fs with
      | nil => nofun
      | cons g gs =>
        rintro x ⟨⟩
        rfl
    have hcalls : ∀ x ∈ (fs.flatMap SentFile.calls).head?, x.isData = false := by
      cases fs with
      | nil => nofun
      | cons g gs =>
        rintro x ⟨⟩
        rfl
    have hdata : ∀ x ∈ f.packets.map fun p => RymCall.data p.data, x.isData = true := by
      intro x hx
      obtain ⟨p, -, rfl⟩ := List.mem_map.mp hx
      rfl
    rw [handedFiles, List.flatMap_cons, SentFile.calls, List.cons_append, List.cons.injEq,
      Undisturbed]
    by_cases hlost : f.header.again = 0
    · rw [if_pos hlost, data_append_inj (fun _ => isData_of_mem_handedData) hdata hhanded hcalls,
        handedData_eq_iff, ih]
      constructor
      · rintro ⟨-, hone, hrest⟩
        exact Or.inl ⟨hlost, hone, hrest⟩
      · rintro (⟨-, hone, hrest⟩ | ⟨hnil, rfl⟩)
        · exact ⟨rfl, hone, hrest⟩
        · rw [hnil]
          exact ⟨rfl, nofun, trivial⟩
    · rw [if_neg hlost]
      constructor
      · rintro ⟨-, hnone⟩
        obtain ⟨hp, hf⟩ := List.append_eq_nil_iff.mp hnone.symm
        refine Or.inr ⟨List.map_eq_nil_iff.mp hp, ?_⟩
        cases fs with
        | nil => rfl
        | cons g gs => cases hf
      · rintro (⟨h, -⟩ | ⟨hp, rfl⟩)
        · exact absurd h hlost
        · rw [hp]
          exact ⟨rfl, rfl⟩

-- --------
-- The sender, from one wait to the next
-- --------

section Sender

variable {α : Type} {w : RymWorld} {ins : List UInt8} {bytes : List UInt8} {tries lost : Nat}

theorem goes_write (bytes : List UInt8) (f : Unit → Rym α) :
    Goes (rymWrite bytes >>= f) w ins (f (), w) ins bytes := by
  have h := Goes.bind (plays_write bytes) (@Solo.refl _ _ rymMove (f (), w) ins)
  rwa [List.append_nil] at h

/-- What `sendUntilAcked` does behind an answer. -/
def afterAnswer (bytes : List UInt8) : Nat → Rym Bool
  | 0 => ret true
  | lost + 1 => sendUntilAcked bytes lost

theorem goes_sendUntilAcked (bytes : List UInt8) (lost : Nat) :
    ∃ s : Rym Bool × RymWorld, Goes (sendUntilAcked bytes lost) w ins s ins bytes ∧
      Goes s.1 s.2 [rymCodeAck] (afterAnswer bytes lost, w) [] [] := by
  cases lost with
  | zero => exact ⟨_, goes_write _ _, Goes.getchar Plays.ret⟩
  | succ lost => exact ⟨_, goes_write _ _, Goes.getchar (Solo.refl _ _)⟩

/-- The header is sent for each `C` that is there, and once more. -/
theorem goes_sendHeader (n : Nat) : ∀ tries, n < tries →
    Goes (sendHeader bytes tries lost) w (List.replicate n rymCodeC)
      (headerAnswer (sendHeader bytes (tries - (n + 1))) lost, w) []
      (List.replicate (n + 1) bytes).flatten := by
  induction n with
  | zero =>
    intro tries htries
    obtain ⟨tries, rfl⟩ : ∃ k, tries = k + 1 := ⟨tries - 1, by omega⟩
    rw [List.replicate_one, List.flatten_singleton]
    exact goes_write bytes _
  | succ n ih =>
    intro tries htries
    obtain ⟨tries, rfl⟩ : ∃ k, tries = k + 1 := ⟨tries - 1, by omega⟩
    rw [List.replicate_succ, List.replicate_succ, List.flatten_cons, Nat.add_sub_add_right]
    refine Solo.trans (goes_write bytes _) (Goes.getchar (Goes.pos rfl ?_))
    exact ih tries (Nat.lt_of_succ_lt_succ htries)

/-- The answer comes, and is not lost. -/
theorem goes_headerAnswer (again : Nat → Rym Bool) :
    Goes (headerAnswer again 0) w [rymCodeAck, rymCodeC] (ret true, w) [] [] :=
  Goes.getchar (Goes.neg (by decide) (Goes.getchar (Goes.pos rfl Plays.ret)))

/-- The answer is lost. -/
theorem goes_headerAnswer_lost (again : Nat → Rym Bool) :
    Goes (headerAnswer again (lost + 1)) w [rymCodeAck, rymCodeC] (again lost, w) [] [] :=
  Goes.getchar (Goes.neg (by decide) (Goes.getchar (Goes.neg (Nat.succ_ne_zero lost)
    (Solo.refl _ _))))

/-- The end of a file. -/
theorem goes_sendEot : ∃ s₁ s₂ : Rym Bool × RymWorld,
    Goes sendEot w [] s₁ [] [rymCodeEot] ∧ Goes s₁.1 s₁.2 [rymCodeNak] s₂ [] [rymCodeEot] ∧
      Goes s₂.1 s₂.2 [rymCodeAck, rymCodeC] (ret true, w) [] [] :=
  ⟨_, _, Goes.putchar (Solo.refl _ _), Goes.getchar (Goes.putchar (Solo.refl _ _)),
    Goes.getchar (Goes.getchar Plays.ret)⟩

end Sender

-- --------
-- Both sides
-- --------

section Sides

variable {α : Type} {w w' : RymWorld} {k : Bool → Rym α}
  {g : Except RymErr RymCtx → Rym (Except RymErr RymCtx)} {fuel rounds files tries tries' lost : Nat}

/-- **A data packet** is handed over as often as it is sent. -/
theorem comes_packet (p : SentPacket) (index : UInt8) (lost : Nat) : ∀ (fuel : Nat) (ctx : RymCtx)
    (w' : RymWorld), lost + 1 ≤ fuel → (ctx.stage = .established → index ≠ 0) →
    ∃ ctx', ctx'.stage = .transmitting ∧ Net.Reaches rymMove rymMove
      ⟨(sendUntilAcked (p.bytes index) lost >>= k, w), (rymTransLoop fuel ctx >>= g, w'), [], []⟩
      ⟨(k true, w), (rymTransLoop (fuel - (lost + 1)) ctx' >>= g,
        { w' with calls := w'.calls ++ List.replicate (lost + 1) (.data p.data) }), [], []⟩ := by
  induction lost with
  | zero =>
    intro fuel ctx w' hfuel hfirst
    obtain ⟨fuel, rfl⟩ : ∃ k, fuel = k + 1 := ⟨fuel - 1, by omega⟩
    obtain ⟨s, hsend, hack⟩ := @goes_sendUntilAcked w [] (p.bytes index) 0
    obtain ⟨ctx', hstage, hrecv⟩ := @goes_transLoop_data w' ctx fuel p index hfirst
    exact ⟨ctx', hstage, ((comes_left (Goes.under k hsend) _).trans
      (comes_right (Goes.under g hrecv) _)).trans (comes_left (Goes.under k hack) _)⟩
  | succ lost ih =>
    intro fuel ctx w' hfuel hfirst
    obtain ⟨fuel, rfl⟩ : ∃ k, fuel = k + 1 := ⟨fuel - 1, by omega⟩
    obtain ⟨s, hsend, hack⟩ := @goes_sendUntilAcked w [] (p.bytes index) (lost + 1)
    obtain ⟨ctx₁, hstage₁, hrecv⟩ := @goes_transLoop_data w' ctx fuel p index hfirst
    obtain ⟨ctx', hstage, hrest⟩ := ih fuel ctx₁ { w' with calls := w'.calls ++ [.data p.data] }
      (Nat.le_of_succ_le_succ hfuel) (fun hest => by rw [hstage₁] at hest; cases hest)
    have hcalls : w'.calls ++ List.replicate (lost + 1 + 1) (.data p.data) =
        w'.calls ++ [.data p.data] ++ List.replicate (lost + 1) (.data p.data) := by
      rw [List.replicate_succ, List.append_cons]
    rw [Nat.add_sub_add_right, hcalls]
    exact ⟨ctx', hstage, (((comes_left (Goes.under k hsend) _).trans
      (comes_right (Goes.under g hrecv) _)).trans (comes_left (Goes.under k hack) _)).trans hrest⟩

/-- **The data of a file.** -/
theorem comes_data (ps : List SentPacket) : ∀ (index : UInt8) (fuel : Nat) (ctx : RymCtx)
    (w' : RymWorld), (handedData ps).length ≤ fuel → (ctx.stage = .established → index ≠ 0) →
    ∃ ctx', Net.Reaches rymMove rymMove
      ⟨(sendData index ps >>= k, w), (rymTransLoop fuel ctx >>= g, w'), [], []⟩
      ⟨(k true, w), (rymTransLoop (fuel - (handedData ps).length) ctx' >>= g,
        { w' with calls := w'.calls ++ handedData ps }), [], []⟩ := by
  induction ps with
  | nil =>
    intro index fuel ctx w' _ _
    refine ⟨ctx, ?_⟩
    rw [show handedData [] = [] from rfl, List.append_nil]
    exact Net.Reaches.refl _
  | cons p ps ih =>
    intro index fuel ctx w' hfuel hfirst
    have hcons : handedData (p :: ps) =
        List.replicate (p.again + 1) (.data p.data) ++ handedData ps := rfl
    rw [hcons, List.length_append, List.length_replicate] at hfuel
    obtain ⟨ctx₁, hstage, hpacket⟩ := @comes_packet α w
      (fun b => afterPart (sendData (index + 1) ps) b >>= k) g p index p.again fuel ctx w' (by omega)
      hfirst
    obtain ⟨ctx', hrest⟩ := ih (index + 1) (fuel - (p.again + 1)) ctx₁
      { w' with calls := w'.calls ++ List.replicate (p.again + 1) (.data p.data) } (by omega)
      (fun hest => by rw [hstage] at hest; cases hest)
    refine ⟨ctx', ?_⟩
    rw [sendData, bind_assoc, hcons, List.length_append, List.length_replicate, Nat.sub_add_eq,
      ← List.append_assoc]
    exact hpacket.trans hrest

/-- **The end of a file**: the receiver waits for what follows. -/
theorem comes_eot (ctx : RymCtx) : ∃ t : Rym (Except RymErr RymCtx) × RymWorld,
    Net.Reaches rymMove rymMove
      ⟨(sendEot >>= k, w), (rymTransLoop (fuel + 1) ctx >>= afterTrans rounds files, w'), [], []⟩
      ⟨(k true, w), (t.1 >>= afterFile rounds files, t.2), [], []⟩ ∧
    (∃ ctx', ctx'.stage = .finished ∧ Goes t.1 t.2
      (packetBytes rymCodeSoh 0 (List.replicate 128 0)) (ret (.ok ctx'), w') [] [rymCodeAck]) ∧
    ∀ header : List UInt8, header.length = 128 → header.head? ≠ some 0 →
      ∃ ctx', ctx'.stage = .finishing ∧ Goes t.1 t.2 (packetBytes rymCodeSoh 0 header)
        (ret (.ok ctx'), { w' with calls := w'.calls ++ [.began header] }) [] [] := by
  obtain ⟨s₁, s₂, hs₁, hs₂, hs₃⟩ := @goes_sendEot w
  obtain ⟨ctx₁, heot⟩ := @goes_transLoop_eot w' ctx fuel
  obtain ⟨t₁, t₂, ht₁, ht₂, hlast, hnext⟩ := @goes_doFin w' ctx₁
  refine ⟨t₂, ?_, hlast, hnext⟩
  -- EOT, NAK, EOT, ACK and C
  exact (((((comes_left (Goes.under k hs₁) _).trans (comes_right (Goes.under _ heot) _)).trans
    (comes_right (Goes.under _ ht₁) _)).trans (comes_left (Goes.under k hs₂) _)).trans
    (comes_right (Goes.under _ ht₂) _)).trans (comes_left (Goes.under k hs₃) _)

-- --------
-- Files
-- --------

/-- The two sides and their channels. -/
abbrev SessionNet := Net UInt8 (Rym Bool × RymWorld) (Rym (Except RymErr RymCtx) × RymWorld)

/-- Both sides come to an end, or to a wait for what never comes, with these calls. -/
def EndsWith (n : SessionNet) (calls : List RymCall) : Prop :=
  ∃ net, Net.Reaches rymMove rymMove n net ∧ (∀ c, ¬ Net.Step rymMove rymMove net c) ∧
    net.right.2.calls = calls

theorem EndsWith.after {n n' : SessionNet} {calls : List RymCall}
    (h : Net.Reaches rymMove rymMove n n') (h' : EndsWith n' calls) : EndsWith n calls := by
  obtain ⟨net, hreaches, hend⟩ := h'
  exact ⟨net, h.trans hreaches, hend⟩

/-- **An acknowledgement of a header that is lost**: the receiver drops the header when it comes
again, and both sides wait. -/
theorem comes_answered_lost {k : Bool → Rym Bool} (p : SentPacket) {ctx : RymCtx}
    (hstage : ctx.stage = .established) (htries : 0 < tries) (hfuel : 2 ≤ fuel) :
    EndsWith ⟨(headerAnswer (sendHeader (p.bytes 0) tries) (lost + 1) >>= k, w),
      (rymTransLoop fuel ctx >>= g, w'), [], [rymCodeAck, rymCodeC]⟩ w'.calls := by
  obtain ⟨fuel, rfl⟩ : ∃ k, fuel = k + 2 := ⟨fuel - 2, by omega⟩
  have hsend : Goes (headerAnswer (sendHeader (p.bytes 0) tries) (lost + 1)) w
      [rymCodeAck, rymCodeC] (headerAnswer (sendHeader (p.bytes 0) (tries - 1)) lost, w) []
      (p.bytes 0) := by
    have hagain := @goes_sendHeader w (p.bytes 0) lost 0 tries htries
    rw [List.replicate_one, List.flatten_singleton] at hagain
    have h := Solo.trans (goes_headerAnswer_lost (sendHeader (p.bytes 0) tries)) hagain
    rwa [List.nil_append] at h
  obtain ⟨ctx', -, hdrop⟩ := @goes_transLoop_drop w' ctx (fuel + 1) p hstage
  refine ⟨_, (comes_left (Goes.under k hsend) _).trans (comes_right (Goes.under g hdrop) _),
    Net.not_step (fun _ _ _ => Acts.not_get rfl) (fun _ _ _ => Acts.not_get rfl), rfl⟩

/-- What is sent behind the header of a file. -/
def sendRest (tries : Nat) (f : SentFile) (fs : List SentFile) : Rym Bool :=
  sendData 1 f.packets >>= afterPart (sendEot >>= afterPart (sendFiles tries fs))

/-- What is handed over behind the header of a file. -/
def handedRest (f : SentFile) (fs : List SentFile) : List RymCall :=
  if f.header.again = 0 then handedData f.packets ++ handedFiles fs else []

/-- The receiver has acknowledged a header. -/
theorem endsWith_answered (f : SentFile) (fs : List SentFile) {ctx : RymCtx}
    (hstage : ctx.stage = .established) (htries : 0 < tries) (hfuel : 2 ≤ fuel)
    (hrest : EndsWith ⟨(sendRest tries' f fs, w), (rymTransLoop fuel ctx >>= g, w'), [], []⟩
      (w'.calls ++ (handedData f.packets ++ handedFiles fs))) :
    EndsWith ⟨(headerAnswer (sendHeader (f.header.bytes 0) tries) f.header.again >>=
        afterPart (sendRest tries' f fs), w), (rymTransLoop fuel ctx >>= g, w'), [],
      [rymCodeAck, rymCodeC]⟩ (w'.calls ++ handedRest f fs) := by
  rw [handedRest]
  cases hlost : f.header.again with
  | zero =>
    rw [if_pos rfl]
    exact hrest.after (comes_left (Goes.under _ (goes_headerAnswer _)) _)
  | succ lost =>
    rw [if_neg (Nat.succ_ne_zero lost), List.append_nil]
    exact comes_answered_lost f.header hstage htries hfuel

theorem goes_doTrans (ctx : RymCtx) (ins : List UInt8) : Goes (rymDoTrans fuel ctx) w ins
    (rymTransLoop fuel ⟨.established, ctx.buf⟩, w) ins [rymCodeAck, rymCodeC] :=
  Goes.putchar (Goes.putchar (Solo.refl _ _))

/-- **All files** of a session, behind the first header. -/
theorem endsWith_files (fs : List SentFile) (htries : 2 ≤ tries)
    (hnext : ∀ g ∈ fs, g.header.data.length = 128 ∧ g.header.data.head? ≠ some 0)
    (hrounds : ∀ g ∈ fs, (handedData g.packets).length + 2 ≤ rounds) :
    ∀ (f : SentFile) (files fuel : Nat) (ctx : RymCtx) (w' : RymWorld), fs.length ≤ files →
      (handedData f.packets).length < fuel →
      EndsWith ⟨(sendRest tries f fs, w), (rymTransLoop fuel ctx >>= afterTrans rounds files, w'),
        [], []⟩ (w'.calls ++ (handedData f.packets ++ handedFiles fs)) := by
  induction fs with
  | nil =>
    intro f files fuel ctx w' _ hfuel
    obtain ⟨ctx₁, hdata⟩ := @comes_data Bool w
      (afterPart (sendEot >>= afterPart (sendFiles tries []))) (afterTrans rounds files) f.packets 1
      fuel ctx w' (Nat.le_of_lt hfuel) fun _ => by decide
    obtain ⟨n, hn⟩ : ∃ n, fuel - (handedData f.packets).length = n + 1 :=
      ⟨fuel - (handedData f.packets).length - 1, by omega⟩
    rw [hn] at hdata
    obtain ⟨t, heot, ⟨ctx₂, hstage, hlast⟩, -⟩ := @comes_eot Bool w
      { w' with calls := w'.calls ++ handedData f.packets } (afterPart (sendFiles tries [])) n rounds
      files ctx₁
    obtain ⟨s, hsend, hack⟩ := @goes_sendUntilAcked w []
      (packetBytes rymCodeSoh 0 (List.replicate 128 0)) 0
    have hend : ret (.ok ctx₂) >>= afterFile rounds files = ret (.ok ctx₂) := by
      rw [ret_bind, afterFile, if_pos hstage]
    have hright := comes_right (Goes.under (afterFile rounds files) hlast) s
    rw [hend] at hright
    rw [handedFiles, List.append_nil]
    exact ⟨_, ((((hdata.trans heot).trans (comes_left hsend _)).trans hright).trans
      (comes_left hack _)), Net.not_step_of_halt rfl rfl, rfl⟩
  | cons g gs ih =>
    intro f files fuel ctx w' hfiles hfuel
    obtain ⟨files, rfl⟩ : ∃ k, files = k + 1 := ⟨files - 1, by rw [List.length_cons] at hfiles; omega⟩
    obtain ⟨hsmall, hname⟩ := hnext g List.mem_cons_self
    have hg := hrounds g List.mem_cons_self
    obtain ⟨ctx₁, hdata⟩ := @comes_data Bool w
      (afterPart (sendEot >>= afterPart (sendFiles tries (g :: gs))))
      (afterTrans rounds (files + 1)) f.packets 1 fuel ctx w' (Nat.le_of_lt hfuel) fun _ => by decide
    obtain ⟨n, hn⟩ : ∃ n, fuel - (handedData f.packets).length = n + 1 :=
      ⟨fuel - (handedData f.packets).length - 1, by omega⟩
    rw [hn] at hdata
    obtain ⟨t, heot, -, hheader⟩ := @comes_eot Bool w
      { w' with calls := w'.calls ++ handedData f.packets }
      (afterPart (sendFiles tries (g :: gs))) n rounds (files + 1) ctx₁
    obtain ⟨ctx₂, hstage, hbegin⟩ := hheader _ hsmall hname
    -- the next header, its call, and its acknowledgement
    have hsend := @goes_sendHeader w (g.header.bytes 0) g.header.again 0 tries (by omega)
    rw [List.replicate_one, List.flatten_singleton] at hsend
    have hbytes : g.header.bytes 0 = packetBytes rymCodeSoh 0 g.header.data :=
      congrArg (fun c => packetBytes c 0 g.header.data) (if_pos hsmall)
    have hloop : ret (.ok ctx₂) >>= afterFile rounds (files + 1) =
        rymDoTrans rounds ctx₂ >>= afterTrans rounds files := by
      rw [ret_bind, afterFile, if_neg (by rw [hstage]; decide), rymRecvLoop_eq]
    have hright := Goes.under (afterFile rounds (files + 1)) hbegin
    rw [hloop, ← hbytes] at hright
    have hrest := ih (fun h hh => hnext h (List.mem_cons_of_mem g hh))
      (fun h hh => hrounds h (List.mem_cons_of_mem g hh)) g files rounds ⟨.established, ctx₂.buf⟩
      { w' with calls := w'.calls ++ handedData f.packets ++ [.began g.header.data] }
      (Nat.le_of_succ_le_succ hfiles) (by omega)
    have hans := endsWith_answered g gs rfl (show 0 < tries - 1 by omega) (by omega) hrest
    have hcalls : w'.calls ++ (handedData f.packets ++ handedFiles (g :: gs)) =
        w'.calls ++ handedData f.packets ++ [.began g.header.data] ++ handedRest g gs := by
      simp [handedFiles, handedRest]
    rw [hcalls]
    exact hans.after ((((hdata.trans heot).trans (comes_left (Goes.under _ hsend) _)).trans
      (comes_right (Solo.trans hright (Goes.under _ (goes_doTrans ctx₂ []))) _)))

/-- The header that comes again for each further announcement is dropped. -/
theorem goes_drops (p : SentPacket) (n : Nat) : ∀ (fuel : Nat) (ctx : RymCtx),
    ctx.stage = .established → n ≤ fuel → ∃ ctx', ctx'.stage = .established ∧
      Goes (rymTransLoop fuel ctx) w (List.replicate n (p.bytes 0)).flatten
        (rymTransLoop (fuel - n) ctx', w) [] [] := by
  induction n with
  | zero => exact fun fuel ctx hstage _ => ⟨ctx, hstage, Solo.refl _ _⟩
  | succ n ih =>
    intro fuel ctx hstage hle
    obtain ⟨fuel, rfl⟩ : ∃ k, fuel = k + 1 := ⟨fuel - 1, by omega⟩
    obtain ⟨ctx₁, hstage₁, hdrop⟩ := @goes_transLoop_drop w ctx fuel p hstage
    obtain ⟨ctx', hstage', hrest⟩ := ih fuel ctx₁ hstage₁ (Nat.le_of_succ_le_succ hle)
    refine ⟨ctx', hstage', ?_⟩
    rw [List.replicate_succ, List.flatten_cons, Nat.add_sub_add_right]
    exact Solo.trans (hdrop.more _) hrest

/-- Both sides are started; `waits` waits of the receiver's handshake run out. -/
def sessionStart (ms100 fuel tmSec tries waits : Nat) (ticks : List Nat) (ctx : RymCtx)
    (files : List SentFile) : SessionNet where
  left := (conformingSend tries files, { waits := 0 })
  right := (rymDoRecv ms100 fuel tmSec ctx, { waits, ticks })
  toRight := []
  toLeft := []

variable {ms100 waits tmSec tick now later : Nat} {ctx : RymCtx} {f : SentFile}
  {fs : List SentFile}

/-- The sender has given the header as often as the receiver has announced itself. -/
theorem goes_conformingSend (htries : waits + 1 < tries) :
    Goes (conformingSend tries (f :: fs)) w (List.replicate (waits + 1) rymCodeC)
      (headerAnswer (sendHeader (f.header.bytes 0) (tries - (waits + 1))) f.header.again >>=
        afterPart (sendRest tries f fs), w) []
      (f.header.bytes 0 ++ (List.replicate waits (f.header.bytes 0)).flatten) :=
  Goes.getchar (Goes.pos rfl (Goes.under _ (goes_sendHeader waits tries (by omega))))

/-- **A session.** -/
theorem endsWith_session
    (hnext : ∀ g ∈ fs, g.header.data.length = 128 ∧ g.header.data.head? ≠ some 0)
    (hfuel : ∀ g ∈ f :: fs, waits + (handedData g.packets).length + 2 ≤ fuel)
    (hfiles : fs.length < fuel) (hwaits : waits < tmSec) (htries : waits + 1 < tries) :
    EndsWith (sessionStart ms100 fuel tmSec tries waits [tick, now, later] ctx (f :: fs))
      (if now ≤ (tick + ms100) % 2 ^ 32 then handedFiles (f :: fs) else []) := by
  have hf := hfuel f List.mem_cons_self
  obtain ⟨n, hn⟩ : ∃ n, fuel = n + 1 := ⟨fuel - 1, by omega⟩
  obtain ⟨t, ht₁, ht₂, ht₃⟩ := @goes_doHandshake { waits := 0 } { ctx with stage := .none } ms100 fuel
    waits tmSec tick now later f.header hwaits (by omega)
  rw [sessionStart, rymDoRecv_eq]
  have hstart := (comes_right (Goes.under (afterHello fuel) ht₁)
    (conformingSend tries (f :: fs), { waits := 0 })).trans
    (comes_left (goes_conformingSend htries) _)
  by_cases hnow : now ≤ (tick + ms100) % 2 ^ 32
  · rw [if_pos hnow]
    obtain ⟨ctx₁, hbegin⟩ := ht₂ hnow
    obtain ⟨ctx₂, hstage, hdrops⟩ := @goes_drops
      { waits := 0, ticks := [], calls := [.began f.header.data] } f.header waits fuel
      ⟨.established, ctx₁.buf⟩ rfl (by omega)
    have hloop : ret (.ok ctx₁) >>= afterHello fuel =
        rymDoTrans fuel ctx₁ >>= afterTrans fuel n := by
      rw [ret_bind, afterHello, ← rymRecvLoop_eq, ← hn]
    have hright := Goes.under (afterHello fuel)
      (hbegin.more (List.replicate waits (f.header.bytes 0)).flatten)
    rw [hloop] at hright
    have hrest := @endsWith_files { waits := 0 } fuel tries fs (by omega) hnext
      (fun g hg => by have := hfuel g (List.mem_cons_of_mem f hg); omega) f n (fuel - waits) ctx₂
      { waits := 0, ticks := [], calls := [.began f.header.data] } (by omega) (by omega)
    have hans := endsWith_answered f fs hstage (show 0 < tries - (waits + 1) by omega)
      (by omega) hrest
    exact hans.after (hstart.trans (comes_right (Solo.trans hright (Solo.trans
      (Goes.under _ (goes_doTrans ctx₁ _)) (Goes.under _ hdrops))) _))
  · rw [if_neg hnow]
    obtain ⟨w', ins, hcalls, hlate⟩ := ht₃ hnow
    exact ⟨_, hstart.trans (comes_right (Goes.under (afterHello fuel) (hlate.more _)) _),
      Net.not_step (fun _ _ _ => Acts.not_get rfl) (fun _ _ _ h => h.not_halt rfl), hcalls⟩

/-- Every order of the steps comes to that end. -/
theorem EndsWith.settles {n : SessionNet} {calls : List RymCall} (h : EndsWith n calls) :
    ∃ net, Net.Settles rymMove rymMove n net ∧ net.right.2.calls = calls := by
  obtain ⟨net, hreaches, hend, hcalls⟩ := h
  exact ⟨net, hreaches.settles hend, hcalls⟩

end Sides

/-- **The receiver.** Along every run each buffer handed to `on_begin` or `on_data` is the payload of
the packet received last; and of a session with a conforming sender, whatever the order of the steps,
the files are handed over as they should be exactly when the deadline of the handshake had not
wrapped around and no acknowledgement was lost. -/
theorem rymDoRecv_genuine (ms100 fuel tmSec : Nat) (ctx : RymCtx) :
    (∀ (h : History RymOp RymOp.Ans) (e : RymOp) (k : e.Ans → Rym (Except RymErr RymCtx)),
      Run (Relied ms100) (rymDoRecv ms100 fuel tmSec ctx) [] (op e k) h → Genuine h e) ∧
    ∀ (waits tries tick now later : Nat) (f : SentFile) (fs : List SentFile),
      (∀ g ∈ fs, g.header.data.length = 128 ∧ g.header.data.head? ≠ some 0) →
      (∀ g ∈ f :: fs, waits + (handedData g.packets).length + 2 ≤ fuel) →
      fs.length < fuel → waits < tmSec → waits + 1 < tries →
      ∃ net, Net.Settles rymMove rymMove
          (sessionStart ms100 fuel tmSec tries waits [tick, now, later] ctx (f :: fs)) net ∧
        (net.right.2.calls = (f :: fs).flatMap SentFile.calls ↔
          now ≤ (tick + ms100) % 2 ^ 32 ∧ Undisturbed (f :: fs)) := by
  refine ⟨fun h e k hrun => rymDoRecv_calls hrun, ?_⟩
  intro waits tries tick now later f fs hnext hfuel hfiles hwaits htries
  obtain ⟨net, hsettles, hcalls⟩ := (@endsWith_session fuel tries ms100 waits tmSec tick now later
    ctx f fs hnext hfuel hfiles hwaits htries).settles
  refine ⟨net, hsettles, ?_⟩
  rw [hcalls]
  by_cases hnow : now ≤ (tick + ms100) % 2 ^ 32
  · rw [if_pos hnow, handedFiles_eq_iff]
    exact (and_iff_right hnow).symm
  · rw [if_neg hnow]
    exact iff_of_false nofun fun h => hnow h.1

/-- A packet of 128 bytes `c`. -/
def smallPacket (c : UInt8) (again : Nat) : SentPacket :=
  ⟨List.replicate 128 c, Or.inl List.length_replicate, again⟩

/-- A file of two packets, and an empty one. -/
def twoFiles : List SentFile :=
  [⟨smallPacket 0x61 0, [smallPacket 0x62 0, smallPacket 0x63 0]⟩, ⟨smallPacket 0x64 0, []⟩]

theorem rymDoRecv_genuine_once :
    Genuine [] (.putchar rymCodeC) ∧ ∃ net, Net.Settles rymMove rymMove
        (sessionStart 100 5 3 3 1 [7, 7, 8] ⟨.none, fun _ => 0⟩ twoFiles) net ∧
      net.right.2.calls = twoFiles.flatMap SentFile.calls := by
  obtain ⟨hgenuine, hsession⟩ := rymDoRecv_genuine 100 5 3 ⟨.none, fun _ => 0⟩
  obtain ⟨net, hsettles, hcalls⟩ := hsession 1 3 7 7 8
    ⟨smallPacket 0x61 0, [smallPacket 0x62 0, smallPacket 0x63 0]⟩ [⟨smallPacket 0x64 0, []⟩]
    (by simp [smallPacket]) (by simp [handedData, smallPacket]) (by decide) (by decide) (by decide)
  exact ⟨hgenuine [] _ _ (.refl _ _), net, hsettles, hcalls.mpr ⟨by decide, Or.inl ⟨rfl,
    by simp [smallPacket], Or.inl ⟨rfl, nofun, trivial⟩⟩⟩⟩

/-- The acknowledgement of a data packet is lost, and the receiver hands the packet over twice. That
of a header is lost, and no data come. -/
theorem rymDoRecv_repeats :
    (∃ net, Net.Settles rymMove rymMove (sessionStart 100 5 3 3 1 [7, 7, 8] ⟨.none, fun _ => 0⟩
        [⟨smallPacket 0x61 0, [smallPacket 0x62 1]⟩]) net ∧
      net.right.2.calls = [.began (List.replicate 128 0x61), .data (List.replicate 128 0x62),
        .data (List.replicate 128 0x62)]) ∧
    ∃ net, Net.Settles rymMove rymMove (sessionStart 100 5 3 3 1 [7, 7, 8] ⟨.none, fun _ => 0⟩
        [⟨smallPacket 0x61 1, [smallPacket 0x62 0]⟩]) net ∧
      net.right.2.calls = [.began (List.replicate 128 0x61)] :=
  ⟨(endsWith_session (by simp) (by simp [handedData, smallPacket]) (by decide) (by decide)
      (by decide)).settles,
    (endsWith_session (by simp) (by simp [handedData, smallPacket]) (by decide) (by decide)
      (by decide)).settles⟩

end RTThread.Ymodem
