import RTThread.Lib.Runs
import RTThread.Net.AtClient

/-!
# Commands beside the parser (`components/net/at/src/at_client.c`)

`at_obj_exec_cmd` and `client_parser` step by step. A call publishes its response object in
`client->resp`, resets `resp_notice`, sends and waits; the parser copies the pointer, works on the
object, takes the pointer away and releases `resp_notice`, without the lock that the call holds.

Two things go wrong. A call that times out while the parser is between the copy and the release
leaves it a deleted object, and the next call a notice that is not its own
(`at_obj_exec_cmd_disturbed`). And a line that comes between the publication and the send answers a
command that nobody sent. `at_obj_exec_cmd_undisturbed`: runs without these two are right.
-/

namespace RTThread.At

/-- A call of `at_obj_exec_cmd`, and its response object, which goes when the call has returned. -/
abbrev Call := Nat

/-- `RT_EOK`, `-RT_ERROR` and `-RT_ETIMEOUT`. -/
inductive ExecReturn
  | ok
  | error
  | etimeout
deriving DecidableEq

/-- Where a call is in `at_obj_exec_cmd`. -/
inductive AtCaller
  /-- At `rt_mutex_take`. -/
  | idle
  /-- At `resp_status = AT_RESP_OK`. -/
  | locked
  /-- At `client->resp = resp`. -/
  | ready
  /-- At `rt_sem_control`. -/
  | published
  /-- At `at_vprintfln`. -/
  | armed
  /-- At `rt_sem_take`. -/
  | sent
  /-- At the check of `resp_status`. -/
  | taken
  /-- At `resp_status = AT_RESP_TIMEOUT`. -/
  | timedOut
  /-- At `client->resp = RT_NULL`. -/
  | leaving (r : ExecReturn)
  /-- At `rt_mutex_release`. -/
  | unlocking (r : ExecReturn)
  | unlocked (r : ExecReturn)
  | returned (r : ExecReturn)
deriving DecidableEq

/-- Where the parser is. -/
inductive AtParser
  /-- In `at_recv_readline`. -/
  | idle
  /-- At the check of `client->resp`. -/
  | line (text : List Char)
  /-- At `resp = client->resp`. -/
  | checked (text : List Char)
  /-- At the copy into the response buffer. -/
  | fetched (p : Call) (text : List Char)
  /-- At the checks of the line. -/
  | stored (p : Call) (endCh : Char) (text : List Char)
  /-- At `client->resp = RT_NULL`. -/
  | ending (p : Call)
  /-- At `rt_sem_release`. -/
  | cleared (p : Call)
  /-- `resp` was null after all. -/
  | fault
deriving DecidableEq

/-- The client, the response objects the calls are given (none for null), and where everyone is. -/
structure AtExec where
  lock : Option Call
  resp : Option Call
  respNotice : Nat
  respStatus : AtRespStatus
  objs : Call → Option AtResponse
  caller : Call → AtCaller
  parser : AtParser

/-- What happens next. -/
inductive AtAct
  /-- The next step of a call. -/
  | caller (p : Call)
  /-- The timer of a call that waits for the notice. -/
  | timeout (p : Call)
  /-- `at_recv_readline` returns. -/
  | line (text : List Char)
  /-- The next step of the parser. -/
  | parser

namespace AtExec

variable (c : AtClientConfig) (s : AtExec)

def start (objs : Call → Option AtResponse) : AtExec where
  lock := none
  resp := none
  respNotice := 0
  respStatus := .ok
  objs := objs
  caller := fun _ => .idle
  parser := .idle

/-- The call goes on at `pc`. -/
def goto (p : Call) (pc : AtCaller) : AtExec :=
  { s with caller := Function.update s.caller p pc }

/-- `resp->buf_len = 0` and `resp->line_counts = 0`. -/
def reset (p : Call) : AtExec :=
  let obj := (s.objs p).map fun resp => { resp with bufLen := 0, lineCounts := 0 }
  { s with objs := Function.update s.objs p obj }

/-- A step of `at_obj_exec_cmd`. -/
def callerStep (p : Call) : Option AtExec :=
  match s.caller p with
  | .idle => Runs.takeIf (s.lock = none) { s.goto p .locked with lock := some p }
  | .locked => some { (s.reset p).goto p .ready with respStatus := .ok }
  | .ready => some { s.goto p .published with resp := (s.objs p).map fun _ => p }
  | .published => some { s.goto p .armed with respNotice := 0 }
  | .armed => some (s.goto p .sent)
  | .sent =>
    if (s.objs p).isNone then some (s.goto p (.leaving .ok))
    else Runs.takeIf (0 < s.respNotice)
      { s.goto p .taken with respNotice := s.respNotice - 1 }
  | .taken => some (s.goto p (.leaving (if s.respStatus = .ok then .ok else .error)))
  | .timedOut => some { s.goto p (.leaving .etimeout) with respStatus := .timeout }
  | .leaving r => some { s.goto p (.unlocking r) with resp := none }
  | .unlocking r => some { s.goto p (.unlocked r) with lock := none }
  | .unlocked r => some (s.goto p (.returned r))
  | .returned _ => none

/-- The copy into the response buffer. -/
def store (p : Call) (resp : AtResponse) (text : List Char) : AtExec :=
  let line := text.dropLast ++ ['\x00']
  let s := { s with parser := .stored p (text.getLastD '\x00') line }
  if h : resp.bufLen + line.length < resp.bufSize then
    { s with objs := Function.update s.objs p (some (AtResponse.append resp line h)) }
  else { s with respStatus := .buffFull }

/-- A step of `client_parser` with the line it has. -/
def parserStep : Option AtExec :=
  match s.parser with
  | .idle => none
  | .line text =>
    some { s with parser := if s.resp.isSome then .checked text else .idle }
  | .checked text =>
    match s.resp with
    | some p => some { s with parser := .fetched p text }
    | none => some { s with parser := .fault }
  | .fetched p text => (s.objs p).map fun resp => s.store p resp text
  | .stored p endCh text =>
    (s.objs p).map fun resp =>
      match respEnd c resp endCh text with
      | some status => { s with parser := .ending p, respStatus := status }
      | none => { s with parser := .idle }
  | .ending p => some { s with parser := .cleared p, resp := none }
  | .cleared _ => some { s with parser := .idle, respNotice := s.respNotice + 1 }
  | .fault => none

/-- **A step of the system.** -/
def step (s : AtExec) : AtAct → Option AtExec
  | .caller p => s.callerStep p
  | .timeout p =>
    Runs.takeIf (s.caller p = .sent ∧ (s.objs p).isSome ∧ s.respNotice = 0) (s.goto p .timedOut)
  | .line text =>
    Runs.takeIf (s.parser = .idle)
      { s with parser := if text = [] ∨ IsUrc c text then .idle else .line text }
  | .parser => s.parserStep c

end AtExec

-- --------
-- What is to hold
-- --------

namespace AtParser

/-- The parser works on the object of the call, from the copy of the pointer to the release. -/
def Holds : AtParser → Call → Prop
  | .fetched p _, q | .stored p _ _, q | .ending p, q | .cleared p, q => p = q
  | _, _ => False

instance : ∀ (x : AtParser) (q : Call), Decidable (x.Holds q)
  | .fetched _ _, _ | .stored _ _ _, _ | .ending _, _ | .cleared _, _ => instDecidableEqNat _ _
  | .idle, _ | .line _, _ | .checked _, _ | .fault, _ => isFalse id

/-- The notice for the call is under way. -/
def Ends : AtParser → Call → Prop
  | .ending p, q | .cleared p, q => p = q
  | _, _ => False

instance : ∀ (x : AtParser) (q : Call), Decidable (x.Ends q)
  | .ending _, _ | .cleared _, _ => instDecidableEqNat _ _
  | .idle, _ | .line _, _ | .checked _, _ | .fetched _ _, _ | .stored _ _ _, _ | .fault, _ =>
    isFalse id

/-- The next step of the parser reads or writes the object of the call. -/
def Touches : AtParser → Call → Prop
  | .fetched p _, q | .stored p _ _, q => p = q
  | _, _ => False

instance : ∀ (x : AtParser) (q : Call), Decidable (x.Touches q)
  | .fetched _ _, _ | .stored _ _ _, _ => instDecidableEqNat _ _
  | .idle, _ | .line _, _ | .checked _, _ | .ending _, _ | .cleared _, _ | .fault, _ => isFalse id

theorem Touches.holds : ∀ {x : AtParser} {p : Call}, x.Touches p → x.Holds p
  | .fetched _ _, _, h | .stored _ _ _, _, h => h

end AtParser

namespace AtCaller

/-- The call has sent its command. -/
def HasSent : AtCaller → Prop
  | .idle | .locked | .ready | .published | .armed => False
  | _ => True

instance : ∀ x : AtCaller, Decidable x.HasSent
  | .idle | .locked | .ready | .published | .armed => isFalse id
  | .sent | .taken | .timedOut | .leaving _ | .unlocking _ | .unlocked _ | .returned _ =>
    isTrue trivial

end AtCaller

/-- The calls for whose object the parser has processed a line that ends the response after they had
sent their command. -/
def observeAnswer (c : AtClientConfig) (answered : List Call) (s : AtExec) : AtAct → List Call
  | .parser =>
    match s.parser with
    | .stored p endCh text =>
      if ((s.objs p).bind fun resp => respEnd c resp endCh text).isSome ∧ (s.caller p).HasSent then
        p :: answered
      else answered
    | _ => answered
  | _ => answered

/-- **Not disturbed.** When a call sends, no notice has come for it or is under way; when it gives
the lock back, the parser is not at work on its object. -/
def AtCaller.Undisturbed (s : AtExec) (p : Call) : AtCaller → Prop
  | .armed => s.respNotice = 0 ∧ ¬ s.parser.Ends p
  | .unlocking _ => ¬ s.parser.Holds p
  | _ => True

instance (s : AtExec) (p : Call) : ∀ x : AtCaller, Decidable (x.Undisturbed s p)
  | .armed => inferInstanceAs (Decidable (_ ∧ _))
  | .unlocking _ => inferInstanceAs (Decidable (¬ _))
  | .idle | .locked | .ready | .published | .sent | .taken | .timedOut | .leaving _ | .unlocked _
  | .returned _ => isTrue trivial

def Undisturbed (s : AtExec) : AtAct → Prop
  | .caller p => (s.caller p).Undisturbed s p
  | _ => True

instance (s : AtExec) : ∀ a, Decidable (Undisturbed s a)
  | .timeout _ | .line _ | .parser => isTrue trivial
  | .caller p => inferInstanceAs (Decidable ((s.caller p).Undisturbed s p))

-- --------
-- The invariant
-- --------

namespace AtCaller

/-- `client->resp` may be the object of the call. -/
def Listens : AtCaller → Prop
  | .published | .armed | .sent | .taken | .timedOut | .leaving _ => True
  | _ => False

/-- The parser may be at work on the object of the call. -/
def Engaged : AtCaller → Prop
  | .unlocking _ => True
  | x => x.Listens

/-- The call has the lock. -/
def Active : AtCaller → Prop
  | .locked | .ready => True
  | x => x.Engaged

/-- The call has found the notice, or even returned `RT_EOK`. -/
def Noticed : AtCaller → Prop
  | .taken | .leaving .ok | .unlocking .ok | .unlocked .ok | .returned .ok => True
  | _ => False

theorem Engaged.active : ∀ {x : AtCaller}, x.Engaged → x.Active
  | .published, _ | .armed, _ | .sent, _ | .taken, _ | .timedOut, _ | .leaving _, _
  | .unlocking _, _ => trivial

theorem Listens.engaged : ∀ {x : AtCaller}, x.Listens → x.Engaged
  | .published, _ | .armed, _ | .sent, _ | .taken, _ | .timedOut, _ | .leaving _, _ => trivial

end AtCaller

theorem AtParser.Ends.holds : ∀ {x : AtParser} {p : Call}, x.Ends p → x.Holds p
  | .ending _, _, h | .cleared _, _, h => h

/-- What the undisturbed steps keep. -/
structure AtInv (s : AtExec) (answered : List Call) : Prop where
  lock : ∀ p, (s.caller p).Active → s.lock = some p
  resp : ∀ p, s.resp = some p → (s.caller p).Listens
  parser : ∀ p, s.parser.Holds p → (s.caller p).Engaged
  sent : ∀ p, s.caller p = .sent → 0 < s.respNotice ∨ s.parser.Ends p → p ∈ answered
  noticed : ∀ p, (s.objs p).isSome → (s.caller p).Noticed → p ∈ answered

section Invariant

variable {c : AtClientConfig} {s s' : AtExec} {answered : List Call} {p : Call} {pc : AtCaller}

theorem AtInv.start (objs : Call → Option AtResponse) : AtInv (AtExec.start objs) [] where
  lock _ h := h.elim
  resp _ h := nomatch h
  parser _ h := h.elim
  sent _ h := nomatch h
  noticed _ _ h := h.elim

/-- **A step of a call**: the others and the parser stay where they are. -/
theorem AtInv.goto (h : AtInv s answered) (hcaller : s'.caller = Function.update s.caller p pc)
    (hparser : s'.parser = s.parser) (hobjs : ∀ q, (s'.objs q).isSome = (s.objs q).isSome)
    (hnotice : s'.respNotice ≤ s.respNotice) (hlock : pc.Active → s'.lock = some p)
    (hothers : ∀ q, q ≠ p → (s.caller q).Active → s'.lock = s.lock)
    (hresp : ∀ q, s'.resp = some q → (q = p → pc.Listens) ∧ (q ≠ p → s.resp = some q))
    (hholds : s.parser.Holds p → pc.Engaged)
    (hsent : pc = .sent → 0 < s'.respNotice ∨ s.parser.Ends p → p ∈ answered)
    (hnoticed : (s.objs p).isSome → pc.Noticed → p ∈ answered) : AtInv s' answered := by
  have hself : s'.caller p = pc := by rw [hcaller, Function.update_self]
  have hother : ∀ q, q ≠ p → s'.caller q = s.caller q := fun q hq => by
    rw [hcaller, Function.update_of_ne hq]
  refine { lock := ?_, resp := ?_, parser := ?_, sent := ?_, noticed := ?_ }
  · intro q hq
    rcases eq_or_ne q p with rfl | hne
    · exact hlock (hself ▸ hq)
    · rw [hother q hne] at hq
      rw [hothers q hne hq]
      exact h.lock q hq
  · intro q hq
    rcases eq_or_ne q p with rfl | hne
    · rw [hself]
      exact (hresp q hq).1 rfl
    · rw [hother q hne]
      exact h.resp q ((hresp q hq).2 hne)
  · intro q hq
    rw [hparser] at hq
    rcases eq_or_ne q p with rfl | hne
    · rw [hself]
      exact hholds hq
    · rw [hother q hne]
      exact h.parser q hq
  · intro q hq hwait
    rw [hparser] at hwait
    rcases eq_or_ne q p with rfl | hne
    · exact hsent (hself ▸ hq) hwait
    · rw [hother q hne] at hq
      exact h.sent q hq (hwait.imp_left fun hpos => hpos.trans_le hnotice)
  · intro q hobj hq
    rw [hobjs] at hobj
    rcases eq_or_ne q p with rfl | hne
    · exact hnoticed hobj (hself ▸ hq)
    · rw [hother q hne] at hq
      exact h.noticed q hobj hq

/-- A step that leaves the lock and the pointer. -/
theorem AtInv.walk (h : AtInv s answered) (hcaller : s'.caller = Function.update s.caller p pc)
    (hparser : s'.parser = s.parser) (hobjs : ∀ q, (s'.objs q).isSome = (s.objs q).isSome)
    (hnotice : s'.respNotice ≤ s.respNotice) (hlock : s'.lock = s.lock) (hresp : s'.resp = s.resp)
    (hactive : pc.Active → (s.caller p).Active) (hlistens : (s.caller p).Listens → pc.Listens)
    (hengaged : (s.caller p).Engaged → pc.Engaged)
    (hsent : pc = .sent → 0 < s'.respNotice ∨ s.parser.Ends p → p ∈ answered)
    (hnoticed : (s.objs p).isSome → pc.Noticed → p ∈ answered) : AtInv s' answered := by
  refine h.goto hcaller hparser hobjs hnotice ?_ (fun _ _ _ => hlock) ?_ ?_ hsent hnoticed
  · intro hpc
    rw [hlock]
    exact h.lock p (hactive hpc)
  · intro q hq
    rw [hresp] at hq
    refine ⟨?_, fun _ => hq⟩
    rintro rfl
    exact hlistens (h.resp q hq)
  · exact fun hheld => hengaged (h.parser p hheld)

/-- **The steps of a call.** -/
theorem AtInv.callerStep (h : AtInv s answered) (hok : (s.caller p).Undisturbed s p)
    (hstep : s.callerStep p = some s') : AtInv s' answered := by
  have hsame : ∀ q, (s.objs q).isSome = (s.objs q).isSome := fun _ => rfl
  have hsent := h.sent p
  have hnoticed := h.noticed p
  unfold AtExec.callerStep at hstep
  cases hpc : s.caller p with
  | idle =>
    rw [hpc] at hstep
    obtain ⟨hfree, rfl⟩ := Runs.takeIf_eq_some.mp hstep
    refine @AtInv.goto _ _ _ p .locked h rfl rfl hsame le_rfl (fun _ => rfl) ?_ ?_ ?_ nofun
      (fun _ hn => hn.elim)
    · intro q _ hq
      rw [h.lock q hq] at hfree
      cases hfree
    · intro q hq
      refine ⟨?_, fun _ => hq⟩
      rintro rfl
      have := h.resp q hq
      rw [hpc] at this
      exact this.elim
    · intro hheld
      have := h.parser p hheld
      rw [hpc] at this
      exact this.elim
  | locked =>
    rw [hpc] at hstep
    cases hstep
    refine @AtInv.walk _ _ _ p .ready h rfl rfl ?_ le_rfl rfl rfl ?_ ?_ ?_ nofun
      (fun _ hn => hn.elim)
    · intro q
      show (Function.update s.objs p _ q).isSome = _
      rcases eq_or_ne q p with rfl | hne
      · rw [Function.update_self, Option.isSome_map]
      · rw [Function.update_of_ne hne]
    all_goals rw [hpc]; exact id
  | ready =>
    rw [hpc] at hstep
    cases hstep
    refine @AtInv.goto _ _ _ p .published h rfl rfl hsame le_rfl
      (fun _ => h.lock p (hpc ▸ trivial)) (fun _ _ _ => rfl) ?_ (fun _ => trivial) nofun (fun _ hn => hn.elim)
    intro q hq
    obtain ⟨_, _, rfl⟩ := Option.map_eq_some_iff.mp hq
    exact ⟨fun _ => trivial, fun hne => absurd rfl hne⟩
  | published =>
    rw [hpc] at hstep
    cases hstep
    refine @AtInv.walk _ _ _ p .armed h rfl rfl hsame (Nat.zero_le _) rfl rfl ?_ ?_ ?_ nofun
      (fun _ hn => hn.elim)
    all_goals rw [hpc]; exact id
  | armed =>
    rw [hpc] at hstep hok
    cases hstep
    refine @AtInv.walk _ _ _ p .sent h rfl rfl hsame le_rfl rfl rfl ?_ ?_ ?_ ?_ (fun _ hn => hn.elim)
    · rw [hpc]; exact id
    · rw [hpc]; exact id
    · rw [hpc]; exact id
    · -- the notice that the wait will find is not there yet
      rintro - (hpos | hends)
      · exact absurd hok.1 (Nat.pos_iff_ne_zero.mp hpos)
      · exact absurd hends hok.2
  | sent =>
    rw [hpc] at hstep
    dsimp only at hstep
    split at hstep
    case isTrue hnull =>
      cases hstep
      refine @AtInv.walk _ _ _ p (.leaving .ok) h rfl rfl hsame le_rfl rfl rfl ?_ ?_ ?_ nofun ?_
      · rw [hpc]; exact id
      · rw [hpc]; exact id
      · rw [hpc]; exact id
      · intro hsome
        rw [Option.isNone_iff_eq_none.mp hnull] at hsome
        cases hsome
    case isFalse =>
      obtain ⟨hpos, rfl⟩ := Runs.takeIf_eq_some.mp hstep
      refine @AtInv.walk _ _ _ p .taken h rfl rfl hsame (Nat.sub_le _ _) rfl rfl ?_ ?_ ?_ nofun ?_
      · rw [hpc]; exact id
      · rw [hpc]; exact id
      · rw [hpc]; exact id
      · exact fun _ _ => hsent hpc (.inl hpos)
  | taken =>
    rw [hpc] at hstep hnoticed
    cases hstep
    refine @AtInv.walk _ _ _ p _ h rfl rfl hsame le_rfl rfl rfl ?_ ?_ ?_ ?_ ?_
    · rw [hpc]; exact id
    · rw [hpc]; exact id
    · rw [hpc]; exact id
    · split <;> nofun
    · exact fun hsome _ => hnoticed hsome trivial
  | timedOut =>
    rw [hpc] at hstep
    cases hstep
    refine @AtInv.walk _ _ _ p (.leaving .etimeout) h rfl rfl hsame le_rfl rfl rfl ?_ ?_ ?_ nofun
      (fun _ hn => hn.elim)
    all_goals rw [hpc]; exact id
  | leaving r =>
    rw [hpc] at hstep hnoticed
    cases hstep
    refine @AtInv.goto _ _ _ p (.unlocking r) h rfl rfl hsame le_rfl
      (fun _ => h.lock p (hpc ▸ trivial)) (fun _ _ _ => rfl) nofun (fun _ => trivial) nofun ?_
    intro hsome hn
    exact hnoticed hsome (by cases r <;> exact hn)
  | unlocking r =>
    rw [hpc] at hstep hok hnoticed
    cases hstep
    refine @AtInv.goto _ _ _ p (.unlocked r) h rfl rfl hsame le_rfl
      (fun hn => hn.elim) ?_ ?_ ?_ nofun ?_
    · -- the lock is the call's own
      intro q hne hq
      have hown := h.lock p (hpc ▸ trivial)
      rw [h.lock q hq] at hown
      exact absurd (Option.some.inj hown) hne
    · intro q hq
      refine ⟨?_, fun _ => hq⟩
      rintro rfl
      have := h.resp q hq
      rw [hpc] at this
      exact this.elim
    · exact fun hheld => absurd hheld hok
    · intro hsome hn
      exact hnoticed hsome (by cases r <;> exact hn)
  | unlocked r =>
    rw [hpc] at hstep hnoticed
    cases hstep
    refine @AtInv.walk _ _ _ p (.returned r) h rfl rfl hsame le_rfl rfl rfl
      (fun hn => hn.elim) ?_ ?_ nofun ?_
    · rw [hpc]; exact id
    · rw [hpc]; exact id
    · intro hsome hn
      exact hnoticed hsome (by cases r <;> exact hn)
  | returned r =>
    rw [hpc] at hstep
    cases hstep

/-- **A step of the parser**: the calls stay where they are. -/
theorem AtInv.move {answered' : List Call} (h : AtInv s answered) (hcaller : s'.caller = s.caller)
    (hlock : s'.lock = s.lock) (hresp : ∀ q, s'.resp = some q → s.resp = some q)
    (hobjs : ∀ q, (s'.objs q).isSome = (s.objs q).isSome)
    (hmore : ∀ q ∈ answered, q ∈ answered')
    (hholds : ∀ q, s'.parser.Holds q → (s.caller q).Engaged)
    (hsent : ∀ q, s.caller q = .sent → 0 < s'.respNotice ∨ s'.parser.Ends q → q ∈ answered') :
    AtInv s' answered' where
  lock q hq := by
    rw [hcaller] at hq
    rw [hlock]
    exact h.lock q hq
  resp q hq := by
    rw [hcaller]
    exact h.resp q (hresp q hq)
  parser q hq := by
    rw [hcaller]
    exact hholds q hq
  sent q hq hwait := by
    rw [hcaller] at hq
    exact hsent q hq hwait
  noticed q hobj hq := by
    rw [hcaller] at hq
    rw [hobjs] at hobj
    exact hmore q (h.noticed q hobj hq)

theorem AtInv.held_eq {q : Call} (h : AtInv s answered) (hheld : s.parser.Holds p)
    (hq : (s.caller q).Active) : q = p := by
  have hown := h.lock p (h.parser p hheld).active
  rw [h.lock q hq] at hown
  exact Option.some.inj hown

theorem AtExec.store_eq (s : AtExec) {resp : AtResponse} (text : List Char)
    (hobj : s.objs p = some resp) : ∃ objs status,
      s.store p resp text = { s with
        objs := objs, respStatus := status
        parser := .stored p (text.getLastD '\x00') (text.dropLast ++ ['\x00']) } ∧
      ∀ q, (objs q).isSome = (s.objs q).isSome := by
  unfold AtExec.store
  dsimp only
  split
  · refine ⟨_, _, rfl, fun q => ?_⟩
    rcases eq_or_ne q p with rfl | hne
    · rw [Function.update_self, hobj]
      rfl
    · rw [Function.update_of_ne hne]
  · exact ⟨_, _, rfl, fun _ => rfl⟩

/-- The steps of the parser. -/
theorem AtInv.parserStep (h : AtInv s answered) (hstep : s.parserStep c = some s') :
    AtInv s' (observeAnswer c answered s .parser) := by
  have hsame : ∀ q, (s.objs q).isSome = (s.objs q).isSome := fun _ => rfl
  have hheld := h.parser
  have hnotice := h.sent
  unfold AtExec.parserStep at hstep
  unfold observeAnswer
  cases hpc : s.parser with
  | idle =>
    rw [hpc] at hstep
    cases hstep
  | line text =>
    rw [hpc] at hstep
    cases hstep
    refine h.move rfl rfl (fun _ => id) hsame (fun _ => id) ?_ ?_
    · intro q hq
      exact absurd hq (by split <;> exact id)
    · intro q hq hwait
      exact hnotice q hq (hwait.imp_right fun hends => absurd hends (by split <;> exact id))
  | checked text =>
    rw [hpc] at hstep
    dsimp only at hstep
    cases hresp : s.resp with
    | none =>
      rw [hresp] at hstep
      cases hstep
      exact h.move rfl rfl nofun hsame (fun _ => id) (fun q hq => hq.elim)
        fun q hq hwait => hnotice q hq (hwait.imp_right False.elim)
    | some p =>
      rw [hresp] at hstep
      cases hstep
      refine h.move rfl rfl (fun q hq => hresp.trans hq) hsame (fun _ => id) ?_
        fun q hq hwait => hnotice q hq (hwait.imp_right False.elim)
      rintro q rfl
      exact (h.resp p hresp).engaged
  | fetched p text =>
    rw [hpc] at hstep hheld
    obtain ⟨resp, hobj, rfl⟩ := Option.map_eq_some_iff.mp hstep
    obtain ⟨objs, status, heq, hobjs⟩ := AtExec.store_eq s text hobj
    rw [heq]
    exact h.move rfl rfl (fun _ => id) hobjs (fun _ => id) hheld
      fun q hq hwait => hnotice q hq (hwait.imp_right False.elim)
  | stored p endCh text =>
    rw [hpc] at hstep hheld
    obtain ⟨resp, hobj, rfl⟩ := Option.map_eq_some_iff.mp hstep
    dsimp only
    rw [hobj, Option.bind_some]
    cases hend : respEnd c resp endCh text with
    | none =>
      rw [if_neg fun hsent => nomatch hsent.1]
      exact h.move rfl rfl (fun _ => id) hsame (fun _ => id) (fun q hq => hq.elim)
        fun q hq hwait => hnotice q hq (hwait.imp_right False.elim)
    | some status =>
      refine h.move rfl rfl (fun _ => id) hsame ?_ hheld ?_
      · intro q hq
        split
        · exact List.mem_cons_of_mem p hq
        · exact hq
      · intro q hq hwait
        rcases hwait with hpos | hends
        · have hmem := hnotice q hq (.inl hpos)
          split
          · exact List.mem_cons_of_mem p hmem
          · exact hmem
        · -- the call has sent, so the answer counts
          obtain rfl : p = q := hends
          rw [if_pos ⟨rfl, by rw [hq]; exact trivial⟩]
          exact List.mem_cons_self
  | ending p =>
    rw [hpc] at hstep hheld hnotice
    cases hstep
    exact h.move rfl rfl nofun hsame (fun _ => id) hheld hnotice
  | cleared p =>
    rw [hpc] at hstep hnotice
    cases hstep
    refine h.move rfl rfl (fun _ => id) hsame (fun _ => id) (fun q hq => hq.elim) ?_
    intro q hq _
    have hown : (s.caller q).Active := by rw [hq]; exact trivial
    exact hnotice q hq (.inr (h.held_eq (hpc ▸ rfl) hown).symm)
  | fault =>
    rw [hpc] at hstep
    cases hstep

/-- **An undisturbed step.** -/
theorem AtInv.step {a : AtAct} (h : AtInv s answered) (hok : Undisturbed s a)
    (hstep : s.step c a = some s') : AtInv s' (observeAnswer c answered s a) := by
  cases a with
  | caller p => exact h.callerStep hok hstep
  | timeout p =>
    obtain ⟨⟨hpc, -, hzero⟩, rfl⟩ := Runs.takeIf_eq_some.mp hstep
    refine @AtInv.walk _ _ _ p .timedOut h rfl rfl (fun _ => rfl) le_rfl rfl rfl ?_ ?_ ?_ nofun
      (fun _ hn => hn.elim)
    all_goals rw [hpc]; exact id
  | line text =>
    obtain ⟨hidle, rfl⟩ := Runs.takeIf_eq_some.mp hstep
    have hnone : ∀ q,
        ¬ (if text = [] ∨ IsUrc c text then AtParser.idle else .line text).Holds q := by
      intro q
      split <;> exact id
    exact h.move rfl rfl (fun _ => id) (fun _ => rfl) (fun _ => id)
      (fun q hq => absurd hq (hnone q))
      fun q hq hwait => h.sent q hq (hwait.imp_right fun hends => absurd hends.holds (hnone q))
  | parser => exact h.parserStep hstep

end Invariant

-- --------
-- Runs
-- --------

/-- The system with the list of the answered calls. -/
abbrev AtRuns (c : AtClientConfig) (Ok : AtExec × List Call → AtAct → Prop)
    (objs : Call → Option AtResponse) (q : AtExec × List Call) : Prop :=
  Runs (Runs.Observed (Runs.Exec (AtExec.step c)) (observeAnswer c)) Ok (AtExec.start objs, []) q

/-- **Calls beside the parser.** In a run that is not disturbed, the parser works on no object of a
call that has returned, and a call with a response object returns `RT_EOK` only after the parser has
processed the end of its response, behind the send of its command. -/
theorem at_obj_exec_cmd_undisturbed (c : AtClientConfig) (objs : Call → Option AtResponse)
    (q : AtExec × List Call) (hrun : AtRuns c (fun q a => Undisturbed q.1 a) objs q) :
    (∀ p r, q.1.parser.Touches p → q.1.caller p ≠ .returned r) ∧
      ∀ p, (q.1.objs p).isSome → q.1.caller p = .returned .ok → p ∈ q.2 := by
  have hinv : AtInv q.1 q.2 := by
    refine @Runs.invariant _ _ _ _ _ _ (fun q => AtInv q.1 q.2) ?_ hrun (AtInv.start objs)
    rintro q a q' hinv hok ⟨hstep, hobs⟩
    rw [hobs]
    exact hinv.step hok hstep
  constructor
  · intro p r htouch hret
    have hengaged := hinv.parser p htouch.holds
    rw [hret] at hengaged
    exact hengaged
  · intro p hobj hret
    exact hinv.noticed p hobj (by rw [hret]; exact trivial)

/-- Call `p` up to the wait. -/
def untilSent (p : Call) : List AtAct := List.replicate 5 (.caller p)

theorem at_obj_exec_cmd_undisturbed_once : ∃ q : AtExec × List Call,
    AtRuns (atPlain 8) (fun q a => Undisturbed q.1 a) (fun _ => some (atEmpty 16)) q ∧
      q.1.caller 0 = .returned .ok ∧ 0 ∈ q.2 := by
  obtain ⟨q, hrun, hp⟩ := @Runs.observed_of_replay _ _ (AtExec.step (atPlain 8)) _
    (observeAnswer (atPlain 8)) (fun q a => Undisturbed q.1 a) _
    (untilSent 0 ++ .line "OK\r\n".toList :: List.replicate 6 .parser ++
      List.replicate 5 (.caller 0))
    (fun q => decide (q.1.caller 0 = .returned .ok ∧ (q.1.objs 0).isSome))
    (AtExec.start fun _ => some (atEmpty 16), []) (by decide +kernel)
  obtain ⟨hret, hobj⟩ := of_decide_eq_true hp
  exact ⟨q, hrun, hret, (at_obj_exec_cmd_undisturbed _ _ q hrun).2 0 hobj hret⟩

/-- A time-out while the parser has the line: it works on the object of the call that has returned,
and the notice it gives afterwards is taken for the answer to the next command. -/
theorem at_obj_exec_cmd_disturbed :
    (∃ q : AtExec × List Call, AtRuns (atPlain 8) Runs.always (fun _ => some (atEmpty 16)) q ∧
      q.1.parser.Touches 0 ∧ q.1.caller 0 = .returned .etimeout) ∧
    ∃ q : AtExec × List Call, AtRuns (atPlain 8) Runs.always (fun _ => some (atEmpty 16)) q ∧
      (q.1.objs 1).isSome ∧ q.1.caller 1 = .returned .ok ∧ 1 ∉ q.2 := by
  constructor
  · obtain ⟨q, hrun, hp⟩ := @Runs.observed_of_replay _ _ (AtExec.step (atPlain 8)) _
      (observeAnswer (atPlain 8)) Runs.always _
      (untilSent 0 ++ [.line "OK\r\n".toList, .parser, .parser, .timeout 0] ++
        List.replicate 4 (.caller 0))
      (fun q => decide (q.1.parser.Touches 0 ∧ q.1.caller 0 = .returned .etimeout))
      (AtExec.start fun _ => some (atEmpty 16), []) (by decide +kernel)
    exact ⟨q, hrun, of_decide_eq_true hp⟩
  · obtain ⟨q, hrun, hp⟩ := @Runs.observed_of_replay _ _ (AtExec.step (atPlain 8)) _
      (observeAnswer (atPlain 8)) Runs.always _
      (untilSent 0 ++ [.line "OK\r\n".toList, .parser, .parser, .timeout 0] ++
        List.replicate 4 (.caller 0) ++ untilSent 1 ++ List.replicate 4 .parser ++
        List.replicate 5 (.caller 1))
      (fun q => decide ((q.1.objs 1).isSome ∧ q.1.caller 1 = .returned .ok ∧ 1 ∉ q.2))
      (AtExec.start fun _ => some (atEmpty 16), []) (by decide +kernel)
    exact ⟨q, hrun, of_decide_eq_true hp⟩

end RTThread.At
