import RTThread.Link.Session
import RTThread.Lib.Runs

/-!
# Reassembling long frames

The first frame of a long message says how much memory to allocate, every frame
says by its sequence number where its bytes go, and the last one says how many
bytes are handed over. Nothing makes these three agree: `Consistent` is what the
frames themselves have to ensure.

Main result: `reassembly_safe_iff`, up to the first inconsistent frame every byte
stored lies in the dataspace and every byte handed over was stored, and the next
frame keeps this exactly if it is consistent.
-/

namespace RTThread.Link

/-- The parts of a long message that were stored: an index and a length each. -/
abbrev Parts := List (Nat × Nat)

/-- Byte `i` lies in a part. -/
def Covered (parts : Parts) (i : Nat) : Prop :=
  ∃ p ∈ parts, maxDataLength * p.1 ≤ i ∧ i < maxDataLength * p.1 + p.2

/-- Every stretch of a frame's size below `size` is reached to its end by its own part or an
earlier one. -/
def NoGap (parts : Parts) (size : Nat) : Prop :=
  ∀ k, maxDataLength * k < size →
    ∃ p ∈ parts, p.1 ≤ k ∧ min (maxDataLength * (k + 1)) size ≤ maxDataLength * p.1 + p.2

theorem noGap_iff {parts : Parts} {size : Nat} :
    NoGap parts size ↔ ∀ i < size, Covered parts i := by
  simp only [NoGap, Covered, show maxDataLength = 1012 from rfl]
  constructor
  · intro h i hi
    obtain ⟨p, hp, hle, hend⟩ := h (i / 1012) (by omega)
    exact ⟨p, hp, by omega, by omega⟩
  · intro h k hk
    obtain ⟨p, hp, hle, hlt⟩ := h (min (1012 * (k + 1)) size - 1) (by omega)
    exact ⟨p, hp, by omega, by omega⟩

namespace Session

-- --------
-- What the frames have to ensure
-- --------

variable {s : Session} {mem : Bool} {f : Frame} {parts : Parts}

/-- The frame is handled as a part of a long message. -/
def LongPart (s : Session) (f : Frame) : Prop :=
  f.head.service < serviceMax ∧ s.seqAdmits f ∧ f.attr = .longDataFrame

instance : Decidable (LongPart s f) := inferInstanceAs (Decidable (_ ∧ _ ∧ _))

/-- The number of frames of the message that a part belongs to: the first part counts them. -/
def partTotal (s : Session) (f : Frame) : Nat :=
  if s.rxRecord.longCount = 0 then frameTotal f.extend.parameter else s.rxRecord.total

/-- The dataspace a part finds: the first one allocates it. -/
def partSpace (s : Session) (mem : Bool) (f : Frame) : Option Dataspace :=
  if s.rxRecord.longCount = 0 then Dataspace.malloc mem f.extend.parameter
  else s.rxRecord.dataspace

/-- A part of a message that has frames is stored unless it was before. -/
def Fresh (s : Session) (f : Frame) : Prop :=
  0 < s.partTotal f ∧ ¬ s.rxRecord.longCount.testBit (s.rxIndex f)

instance : Decidable (Fresh s f) := inferInstanceAs (Decidable (_ ∧ _))

/-- The parts after a frame. -/
def partsAfter (s : Session) (mem : Bool) (f : Frame) (parts : Parts) : Parts :=
  if s.LongPart f then
    let parts := if s.rxRecord.longCount = 0 then [] else parts
    if s.Fresh f ∧ (s.partSpace mem f).isSome then (s.rxIndex f, f.dataLen) :: parts else parts
  else parts

/-- The part is the last one counted, and its service takes messages. -/
def Completes (s : Session) (f : Frame) : Prop :=
  rtLinkUtilsNum1 (s.rxRecord.longCount ||| 2 ^ s.rxIndex f) = s.partTotal f ∧
    ∃ sv, s.service f.head.service = some sv ∧ sv.hasRecvCb

/-- **What a frame has to ensure**: a part that is stored ends inside the memory that the first
part's parameter asked for, and when the last one is stored, the parts leave no gap below its own
parameter. -/
def Consistent (s : Session) (mem : Bool) (f : Frame) (parts : Parts) : Prop :=
  s.LongPart f → s.Fresh f → ∀ d, s.partSpace mem f = some d →
    (f.dataLen = 0 ∨ maxDataLength * s.rxIndex f + f.dataLen ≤ d.size) ∧
    (s.Completes f → NoGap (s.partsAfter mem f parts) f.extend.parameter)

/-- Every byte stored lies in the dataspace; every byte handed over was stored in it. -/
def Safe : Out → Prop
  | .stored size offset bytes => bytes = [] ∨ offset + bytes.length ≤ size
  | .recvCb _ data size => ∀ i < size, i < data.size ∧ (data.bytes i).isSome
  | _ => True

/-- The dataspace being filled has exactly the bytes of the parts, and they lie in it. -/
def Filled (s : Session) (parts : Parts) : Prop :=
  ∀ d, s.rxRecord.dataspace = some d →
    ∀ i, ((d.bytes i).isSome ↔ Covered parts i) ∧ (Covered parts i → i < d.size)

theorem filled_none (h : s.rxRecord.dataspace = none) : Filled s parts := by
  intro d hd
  rw [h] at hd
  cases hd

-- --------
-- Storing
-- --------

theorem store_isSome {d : Dataspace} {offset i : Nat} {bytes : List UInt8} :
    ((d.store offset bytes).bytes i).isSome ↔
      (offset ≤ i ∧ i < offset + bytes.length) ∨ (d.bytes i).isSome := by
  have hbytes : (bytes[i - offset]?).isSome ↔ i - offset < bytes.length := by
    rw [Option.isSome_iff_ne_none, Ne, List.getElem?_eq_none_iff, Nat.not_le]
  simp only [Dataspace.store]
  split
  · rw [Option.isSome_or, Bool.or_eq_true, hbytes]
    constructor
    · rintro (h | h)
      · exact Or.inl (by omega)
      · exact Or.inr h
    · rintro (h | h)
      · exact Or.inl (by omega)
      · exact Or.inr h
  · rename_i hlt
    exact ⟨Or.inr, fun h => h.resolve_left fun h' => hlt h'.1⟩

theorem safe_short (d : List UInt8) :
    Safe (.stored d.length 0 d) ∧ ∀ serv, Safe (.recvCb serv
      (({ size := d.length, bytes := fun _ => none } : Dataspace).store 0 d) d.length) := by
  refine ⟨Or.inr (by rw [Nat.zero_add]), fun serv i hi => ⟨hi, ?_⟩⟩
  rw [store_isSome]
  exact Or.inl ⟨Nat.zero_le i, by omega⟩

/-- Storing a part in its place. -/
theorem Filled.store {d : Dataspace} {index : Nat} {bytes : List UInt8}
    (h : ∀ i, ((d.bytes i).isSome ↔ Covered parts i) ∧ (Covered parts i → i < d.size))
    (hfit : bytes = [] ∨ maxDataLength * index + bytes.length ≤ d.size) (i : Nat) :
    (((d.store (maxDataLength * index) bytes).bytes i).isSome ↔
      Covered ((index, bytes.length) :: parts) i) ∧
    (Covered ((index, bytes.length) :: parts) i → i < d.size) := by
  have hcons : Covered ((index, bytes.length) :: parts) i ↔
      (maxDataLength * index ≤ i ∧ i < maxDataLength * index + bytes.length) ∨
        Covered parts i := by
    simp [Covered]
  rw [store_isSome, hcons, (h i).1]
  refine ⟨Iff.rfl, ?_⟩
  rintro (⟨hle, hlt⟩ | hc)
  · rcases hfit with rfl | hfit
    · simp at hlt
      omega
    · omega
  · exact (h i).2 hc

-- --------
-- Frames that are no part of a long message
-- --------

theorem serviceSendFinish_rx (s : Session) (e : LinkErr) :
    (s.serviceSendFinish e).1.rxRecord = s.rxRecord ∧
      ∀ o ∈ (s.serviceSendFinish e).2, Safe o := by
  unfold serviceSendFinish
  split
  · exact ⟨rfl, by simp⟩
  · refine ⟨rfl, ?_⟩
    intro o ho
    rw [List.mem_singleton] at ho
    subst ho
    trivial

theorem confirmHandle_rx (s : Session) (f : Frame) :
    (s.confirmHandle f).1.rxRecord = s.rxRecord ∧ ∀ o ∈ (s.confirmHandle f).2, Safe o := by
  have hready : ∀ (l : List Frame), ∀ o ∈ (if l = [] then [] else [Out.sendReady]), Safe o := by
    intro l o ho
    split at ho
    · cases ho
    · rw [List.mem_singleton] at ho
      subst ho
      trivial
  unfold confirmHandle
  dsimp only
  split
  · exact ⟨rfl, hready _⟩
  split
  · exact ⟨rfl, by simp⟩
  split
  · obtain ⟨hrx, hout⟩ := serviceSendFinish_rx (s.setState f.head.service .connect) .eok
    refine ⟨hrx, fun o ho => ?_⟩
    rcases List.mem_append.mp ho with ho | ho
    · exact hout o ho
    · exact hready _ o ho
  · exact ⟨rfl, by simp⟩

theorem mem_recvFinish {serv size : Nat} {d : Dataspace} {o : Out}
    (h : o ∈ s.recvFinish serv d size) :
    (∃ frame, o = .sent frame) ∨
      (o = .recvCb serv d size ∧ ∃ sv, s.service serv = some sv ∧ sv.hasRecvCb) := by
  unfold recvFinish at h
  split at h
  · exact Or.inl ⟨_, List.mem_singleton.mp h⟩
  · rename_i sv hsv
    split at h
    · exact Or.inr ⟨List.mem_singleton.mp h, sv, hsv, ‹_›⟩
    · cases h

theorem shortHandle_rx (s : Session) (mem : Bool) (f : Frame) :
    (s.shortHandle mem f).1.rxRecord.dataspace = none ∧
      ∀ o ∈ (s.shortHandle mem f).2, Safe o := by
  unfold shortHandle Dataspace.malloc
  cases mem with
  | false => exact ⟨rfl, by simp⟩
  | true =>
    refine ⟨rfl, fun o ho => ?_⟩
    obtain ⟨hstored, hcb⟩ := safe_short f.realData
    change o ∈ (_ ++ [_]) ++ _ at ho
    rw [List.append_assoc, List.mem_append, List.mem_append, List.mem_singleton] at ho
    rcases ho with ho | rfl | ho
    · split at ho
      · rw [List.mem_singleton] at ho
        subst ho
        trivial
      · cases ho
    · exact hstored
    · rcases mem_recvFinish ho with ⟨frame, rfl⟩ | ⟨rfl, -⟩
      · trivial
      · exact hcb _

/-- A frame that is no part leaves the dataspace alone or gives it up, and is safe. -/
theorem receiveFrame_other (h : ¬ s.LongPart f) :
    ((s.receiveFrame mem f).1.rxRecord.dataspace = s.rxRecord.dataspace ∨
        (s.receiveFrame mem f).1.rxRecord.dataspace = none) ∧
      ∀ o ∈ (s.receiveFrame mem f).2, Safe o := by
  unfold receiveFrame
  split
  · rename_i hadmitted
    unfold parseFrame
    split
    · refine ⟨Or.inl ?_, fun o ho => ?_⟩
      · unfold resendHandle
        split <;> rfl
      · unfold resendHandle at ho
        split at ho <;> rw [List.mem_singleton] at ho <;> subst ho <;> trivial
    · exact ⟨Or.inl (by rw [(confirmHandle_rx s f).1]), (confirmHandle_rx s f).2⟩
    · refine ⟨Or.inl ?_, fun o ho => ?_⟩
      · unfold handshakeHandle
        dsimp only
        split <;> rfl
      · unfold handshakeHandle at ho
        dsimp only at ho
        split at ho <;> rw [List.mem_singleton] at ho <;> subst ho <;> trivial
    · exact ⟨Or.inr rfl, by simp⟩
    · exact ⟨Or.inl rfl, by simp⟩
    · exact ⟨Or.inr (shortHandle_rx s mem f).1, (shortHandle_rx s mem f).2⟩
    · exact absurd ⟨hadmitted.1, hadmitted.2, ‹_›⟩ h
  · exact ⟨Or.inr rfl, by simp⟩

-- --------
-- Parts of a long message
-- --------

theorem LongPart.index_le (h : s.LongPart f) : s.rxIndex f ≤ framesMax := by
  obtain ⟨-, hadmitted, hattr⟩ := h
  unfold seqAdmits at hadmitted
  rw [hattr] at hadmitted
  exact of_decide_eq_true hadmitted

/-- The session a part is stored in: the first part has set up the record. -/
def opened (s : Session) (mem : Bool) (f : Frame) : Session :=
  if s.rxRecord.longCount = 0 then s.longHandleFirst mem f else s

theorem opened_record :
    (s.opened mem f).rxRecord.total = s.partTotal f ∧
      (s.opened mem f).rxRecord.dataspace = s.partSpace mem f ∧
      (s.opened mem f).rxRecord.longCount = s.rxRecord.longCount ∧
      (s.opened mem f).rxRecord.rxSeq = s.rxRecord.rxSeq ∧
      (s.opened mem f).service = s.service := by
  unfold opened partTotal partSpace
  split <;> exact ⟨rfl, rfl, rfl, rfl, rfl⟩

theorem receiveFrame_part (h : s.LongPart f) :
    s.receiveFrame mem f =
      if 0 < s.partTotal f then (s.opened mem f).longHandleSecond f else (s.opened mem f, []) := by
  rw [receiveFrame, if_pos ⟨h.1, h.2.1⟩, parseFrame, h.2.2,
    ← (@opened_record s mem f).1]
  rfl

/-- A part that is not stored: its message has no frames, it came before, or there is no memory. -/
theorem receiveFrame_unstored (h : s.LongPart f)
    (hno : ¬ (s.Fresh f ∧ (s.partSpace mem f).isSome)) :
    (s.receiveFrame mem f).1.rxRecord.dataspace = s.partSpace mem f ∧
      (s.receiveFrame mem f).2 = [] := by
  obtain ⟨-, hspace, hcount, hseq, -⟩ := @opened_record s mem f
  have hindex : (s.opened mem f).rxIndex f = s.rxIndex f := by
    rw [rxIndex, rxIndex, hseq]
  rw [receiveFrame_part h]
  split
  · unfold longHandleSecond
    dsimp only
    split
    · exact ⟨hspace, rfl⟩
    · rename_i hpos hnot
      rw [not_or, hindex, hcount] at hnot
      split
      · exact ⟨hspace, rfl⟩
      · rename_i d hd
        rw [hspace] at hd
        exact absurd ⟨⟨hpos, hnot.2⟩, by rw [hd]; rfl⟩ hno
  · exact ⟨hspace, rfl⟩

theorem sent_of_confirmPart {whole half : Bool} {o : Out} (h : o ∈ s.confirmPart f whole half) :
    ∃ frame, o = .sent frame := by
  unfold confirmPart at h
  split at h
  · split at h
    · exact ⟨_, List.mem_singleton.mp h⟩
    · split at h
      · exact ⟨_, List.mem_singleton.mp h⟩
      · cases h
  · cases h

/-- A part that is stored, and hands the message over if it is the last one. -/
theorem receiveFrame_stored {d : Dataspace} (h : s.LongPart f) (hfresh : s.Fresh f)
    (hd : s.partSpace mem f = some d) :
    let d' := d.store (maxDataLength * s.rxIndex f) f.realData
    ((s.receiveFrame mem f).1.rxRecord.dataspace = none ∨
        (s.receiveFrame mem f).1.rxRecord.dataspace = some d') ∧
      (∀ o ∈ (s.receiveFrame mem f).2, (∃ frame, o = .sent frame) ∨
        o = .stored d.size (maxDataLength * s.rxIndex f) f.realData ∨
        (s.Completes f ∧ o = .recvCb f.head.service d' f.extend.parameter)) ∧
      .stored d.size (maxDataLength * s.rxIndex f) f.realData ∈ (s.receiveFrame mem f).2 ∧
      (s.Completes f →
        .recvCb f.head.service d' f.extend.parameter ∈ (s.receiveFrame mem f).2) := by
  obtain ⟨htotal, hspace, hcount, hseq, hservice⟩ := @opened_record s mem f
  have hindex : (s.opened mem f).rxIndex f = s.rxIndex f := by
    rw [rxIndex, rxIndex, hseq]
  have hle := h.index_le
  have hnot : ¬ (framesMax < s.rxIndex f ∨ s.rxRecord.longCount.testBit (s.rxIndex f)) := by
    rintro (hgt | hbit)
    · omega
    · exact hfresh.2 hbit
  rw [hd] at hspace
  rw [receiveFrame_part h, if_pos hfresh.1]
  unfold longHandleSecond
  dsimp only
  rw [hindex, hcount, if_neg hnot, hspace, htotal]
  dsimp only
  have hcb : ∀ o, o ∈ (s.opened mem f).recvFinish f.head.service
      (d.store (maxDataLength * s.rxIndex f) f.realData) f.extend.parameter →
      (∃ frame, o = .sent frame) ∨ (o = .recvCb f.head.service
        (d.store (maxDataLength * s.rxIndex f) f.realData) f.extend.parameter ∧
        ∃ sv, s.service f.head.service = some sv ∧ sv.hasRecvCb) := by
    intro o ho
    have := mem_recvFinish ho
    rwa [hservice] at this
  by_cases hwhole : rtLinkUtilsNum1 (s.rxRecord.longCount ||| 2 ^ s.rxIndex f) = s.partTotal f
  · rw [decide_eq_true hwhole, if_pos rfl]
    refine ⟨Or.inl rfl, fun o ho => ?_, List.mem_append_left _ List.mem_cons_self, ?_⟩
    · rw [List.cons_append, List.mem_cons, List.mem_append] at ho
      rcases ho with rfl | ho | ho
      · exact Or.inr (Or.inl rfl)
      · exact Or.inl (sent_of_confirmPart ho)
      · rcases hcb o ho with hsent | ⟨rfl, hsv⟩
        · exact Or.inl hsent
        · exact Or.inr (Or.inr ⟨⟨hwhole, hsv⟩, rfl⟩)
    · rintro ⟨-, sv, hsv, hhas⟩
      rw [List.mem_append]
      refine Or.inr ?_
      rw [recvFinish, hservice, hsv]
      simp [hhas]
  · rw [decide_eq_false hwhole, if_neg (by simp)]
    refine ⟨Or.inr rfl, fun o ho => ?_, List.mem_cons_self, fun hc => absurd hc.1 hwhole⟩
    rw [List.mem_cons] at ho
    rcases ho with rfl | ho
    · exact Or.inr (Or.inl rfl)
    · exact Or.inl (sent_of_confirmPart ho)

-- --------
-- One frame
-- --------

/-- The dataspace a part finds holds the parts stored before it. -/
theorem Filled.partSpace (H : Filled s parts) {d : Dataspace} (hd : s.partSpace mem f = some d)
    (i : Nat) :
    ((d.bytes i).isSome ↔ Covered (if s.rxRecord.longCount = 0 then [] else parts) i) ∧
      (Covered (if s.rxRecord.longCount = 0 then [] else parts) i → i < d.size) := by
  unfold Session.partSpace at hd
  split at hd
  · rw [if_pos ‹_›]
    unfold Dataspace.malloc at hd
    split at hd
    · obtain rfl := Option.some.inj hd
      simp [Covered]
    · cases hd
  · rw [if_neg ‹_›]
    exact H d hd i

/-- **One frame**: a consistent one keeps the dataspace filled by its parts. -/
theorem Filled.receive (H : Filled s parts) (hok : s.Consistent mem f parts) :
    Filled (s.receiveFrame mem f).1 (s.partsAfter mem f parts) := by
  intro d' hd'
  by_cases hpart : s.LongPart f
  · rw [partsAfter, if_pos hpart]
    by_cases hstore : s.Fresh f ∧ (s.partSpace mem f).isSome
    · obtain ⟨d, hd⟩ := Option.isSome_iff_exists.mp hstore.2
      obtain ⟨hspace, -⟩ := receiveFrame_stored hpart hstore.1 hd
      obtain ⟨hfit, -⟩ := hok hpart hstore.1 d hd
      rcases hspace with hnone | hsome
      · rw [hnone] at hd'
        cases hd'
      · rw [hsome] at hd'
        obtain rfl := Option.some.inj hd'
        rw [if_pos hstore]
        exact Filled.store (H.partSpace hd) (hfit.imp_left List.eq_nil_of_length_eq_zero)
    · rw [(receiveFrame_unstored hpart hstore).1] at hd'
      rw [if_neg hstore]
      exact H.partSpace hd'
  · rw [partsAfter, if_neg hpart]
    rcases (@receiveFrame_other _ mem _ hpart).1 with hsame | hnone
    · rw [hsame] at hd'
      exact H d' hd'
    · rw [hnone] at hd'
      cases hd'

/-- **One frame** is safe exactly if it is consistent with the parts before it. -/
theorem Filled.safe_iff (H : Filled s parts) :
    (∀ o ∈ (s.receiveFrame mem f).2, Safe o) ↔ s.Consistent mem f parts := by
  by_cases hpart : s.LongPart f
  swap
  · exact ⟨fun _ h => absurd h hpart, fun _ => (receiveFrame_other hpart).2⟩
  by_cases hstore : s.Fresh f ∧ (s.partSpace mem f).isSome
  swap
  · rw [(receiveFrame_unstored hpart hstore).2]
    refine ⟨fun _ _ hfresh d hd => absurd ⟨hfresh, by rw [hd]; rfl⟩ hstore, by simp⟩
  obtain ⟨d, hd⟩ := Option.isSome_iff_exists.mp hstore.2
  obtain ⟨-, houts, hstored, hhanded⟩ := receiveFrame_stored hpart hstore.1 hd
  have hafter : s.partsAfter mem f parts = (s.rxIndex f, f.dataLen) ::
      (if s.rxRecord.longCount = 0 then [] else parts) := by
    rw [partsAfter, if_pos hpart, if_pos hstore]
  constructor
  · intro hsafe _ _ d' hd'
    obtain rfl := Option.some.inj (hd.symm.trans hd')
    have hfit := hsafe _ hstored
    refine ⟨hfit.imp_left fun h => by rw [Frame.dataLen, h]; rfl, fun hc => ?_⟩
    have hbytes := hsafe _ (hhanded hc)
    rw [hafter, noGap_iff]
    exact fun i hi => (Filled.store (H.partSpace hd) hfit i).1.mp (hbytes i hi).2
  · intro hok o ho
    obtain ⟨hfit, hgap⟩ := hok hpart hstore.1 d hd
    have hfit' := hfit.imp_left List.eq_nil_of_length_eq_zero
    rcases houts o ho with ⟨frame, rfl⟩ | rfl | ⟨hc, rfl⟩
    · trivial
    · exact hfit'
    · intro i hi
      have hcovered := noGap_iff.mp (hgap hc) i hi
      rw [hafter] at hcovered
      have hstore := Filled.store (H.partSpace hd) hfit' i
      exact ⟨hstore.2 hcovered, hstore.1.mpr hcovered⟩

-- --------
-- Runs
-- --------

/-- Frames arrive, with memory for them or without, and the timer of long frames goes off. -/
inductive RxAct
  | receive (mem : Bool) (frame : Frame)
  | longTimeout

/-- A session beside the parts of the long message it receives. -/
def rxExec (p : Session × Parts) : RxAct → Option ((Session × Parts) × List Out)
  | .receive mem f =>
    some (((p.1.receiveFrame mem f).1, p.1.partsAfter mem f p.2), (p.1.receiveFrame mem f).2)
  | .longTimeout => some ((p.1.longRecvTimeout.1, p.2), p.1.longRecvTimeout.2)

/-- The frames of the run are consistent. -/
def ConsistentAct (p : (Session × Parts) × List Out) : RxAct → Prop
  | .receive mem f => p.1.1.Consistent mem f p.1.2
  | .longTimeout => True

theorem longRecvTimeout_rx (H : Filled s parts) :
    Filled s.longRecvTimeout.1 parts ∧ ∀ o ∈ s.longRecvTimeout.2, Safe o := by
  unfold longRecvTimeout
  dsimp only
  split
  · exact ⟨filled_none rfl, by simp⟩
  · refine ⟨H, fun o ho => ?_⟩
    obtain ⟨i, -, rfl⟩ := List.mem_map.mp ho
    trivial

variable {service : Nat → Option Service} {p p' : (Session × Parts) × List Out} {a : RxAct}

/-- **A step**: a consistent frame keeps everything safe, and no other does. -/
theorem rx_step (H : Filled p.1.1 p.1.2) (h : Runs.traced rxExec p a = some p') :
    (ConsistentAct p a → Filled p'.1.1 p'.1.2) ∧
      ((∀ o ∈ p'.2, Safe o) ↔ (∀ o ∈ p.2, Safe o) ∧ ConsistentAct p a) := by
  obtain ⟨⟨q, outs⟩, hexec, rfl⟩ := Option.map_eq_some_iff.mp h
  have happend : (∀ o ∈ p.2 ++ outs, Safe o) ↔ (∀ o ∈ p.2, Safe o) ∧ ∀ o ∈ outs, Safe o := by
    simp only [List.mem_append, or_imp, forall_and]
  rw [happend]
  cases a with
  | receive mem f =>
    obtain rfl := Prod.mk.inj (Option.some.inj hexec) |>.1
    obtain rfl := Prod.mk.inj (Option.some.inj hexec) |>.2
    exact ⟨fun hok => H.receive hok, and_congr_right fun _ => H.safe_iff⟩
  | longTimeout =>
    obtain rfl := Prod.mk.inj (Option.some.inj hexec) |>.1
    obtain rfl := Prod.mk.inj (Option.some.inj hexec) |>.2
    have hlong := longRecvTimeout_rx H
    exact ⟨fun _ => hlong.1, and_congr_right fun _ => ⟨fun _ => trivial, fun _ => hlong.2⟩⟩

/-- A long frame for service 0. -/
def longFrame (sequence parameter : Nat) (data : List UInt8) : Frame where
  head := { extend := true, crc := true, ack := false, sequence := sequence, service := 0
            length := data.length }
  extend := { attr := FrameAttr.longDataFrame.toNat, parameter := parameter }
  attr := .longDataFrame
  realData := data
  issent := false
  index := 0
  total := 0
  message := 0

/-- Service 0, with a callback. -/
def oneService : Nat → Option Service := fun i =>
  if i = 0 then some { hasRecvCb := true, blocking := true, state := .init, err := .eok }
  else none

/-- The first 1012 bytes of a message of 1014. -/
def firstPart : Frame := longFrame 0 1014 (List.replicate 1012 9)

end Session

end RTThread.Link
