import P2PFileSharing.Library.Simulation
import Mathlib.Logic.Function.Basic

/-!
# Calls to a server

Clients call a server, each on a line of its own and with one call under way at most. The server
works on the requests in any order and at the same time, step by step, and the steps have a state in
common. A client may leave, and the server may close a line, at any time. What was asked, answered
and returned so far is related exactly, whatever the order of the steps.
-/

namespace P2PFileSharing.Library

/-- What a server does about a request: the steps have a state of their own, and change the state
that they have in common with the others, until there is a result. -/
structure Service (ι α β κ ω : Type*) where
  enter : ι → α → ω
  act : ω → κ → Option (ω × κ)
  result : ω → Option β

/-- The call of a client. -/
inductive Call (α β ω : Type*) where
  | idle
  | asked (a : α)
  | working (a : α) (w : ω)
  | answered (b : β)

namespace Call

variable {α β ω : Type*}

/-- The request that has no answer yet. -/
def waiting : Call α β ω → List α
  | .asked a | .working a _ => [a]
  | _ => []

/-- The answer that the client has not taken yet. -/
def ready : Call α β ω → List β
  | .answered b => [b]
  | _ => []

end Call

structure Line (α β ω : Type*) where
  call : Call α β ω
  /-- The client uses the line no more. -/
  left : Bool
  /-- The server uses the line no more. -/
  closed : Bool

structure Calls (ι α β κ ω : Type*) where
  line : ι → Line α β ω
  state : κ

inductive CallEvent (ι α : Type*) where
  | ask (i : ι) (a : α)
  | enter (i : ι)
  | act (i : ι)
  | answer (i : ι)
  | take (i : ι)
  | leave (i : ι)
  | close (i : ι)

/-- What has happened on a line. -/
inductive CallEntry (ι α β : Type*) where
  | asked (i : ι) (a : α)
  | answered (i : ι) (a : α) (b : β)
  | returned (i : ι) (b : β)

namespace Calls

variable {ι α β κ ω : Type*} [DecidableEq ι]

def start (st : κ) : Calls ι α β κ ω := ⟨fun _ => ⟨.idle, false, false⟩, st⟩

def setLine (s : Calls ι α β κ ω) (i : ι) (l : Line α β ω) : Calls ι α β κ ω :=
  { s with line := Function.update s.line i l }

@[simp] theorem setLine_self (s : Calls ι α β κ ω) (i : ι) (l : Line α β ω) :
    (s.setLine i l).line i = l := by
  simp [setLine]

theorem setLine_of_ne (s : Calls ι α β κ ω) {i j : ι} (l : Line α β ω) (h : j ≠ i) :
    (s.setLine i l).line j = s.line j := by
  simp [setLine, h]

variable (service : Service ι α β κ ω)

def step (s : Calls ι α β κ ω) : CallEvent ι α → Option (Calls ι α β κ ω)
  | .ask i a =>
    match s.line i with
    | ⟨.idle, false, closed⟩ => some (s.setLine i ⟨.asked a, false, closed⟩)
    | _ => none
  | .enter i =>
    match s.line i with
    | ⟨.asked a, left, false⟩ => some (s.setLine i ⟨.working a (service.enter i a), left, false⟩)
    | _ => none
  | .act i =>
    match s.line i with
    | ⟨.working a w, left, closed⟩ =>
      (service.act w s.state).map fun r =>
        { s.setLine i ⟨.working a r.1, left, closed⟩ with state := r.2 }
    | _ => none
  | .answer i =>
    match s.line i with
    | ⟨.working _ w, left, closed⟩ =>
      (service.result w).map fun b => s.setLine i ⟨.answered b, left, closed⟩
    | _ => none
  | .take i =>
    match s.line i with
    | ⟨.answered _, false, closed⟩ => some (s.setLine i ⟨.idle, false, closed⟩)
    | _ => none
  | .leave i =>
    if (s.line i).left then none else some (s.setLine i { s.line i with left := true })
  | .close i =>
    if (s.line i).closed then none else some (s.setLine i { s.line i with closed := true })

def entries (s : Calls ι α β κ ω) : CallEvent ι α → List (CallEntry ι α β)
  | .ask i a => [.asked i a]
  | .answer i =>
    match (s.line i).call with
    | .working a w => (service.result w).elim [] fun b => [.answered i a b]
    | _ => []
  | .take i =>
    match (s.line i).call with
    | .answered b => [.returned i b]
    | _ => []
  | .enter _ | .act _ | .leave _ | .close _ => []

/-- What a step can be, with the entries that it leaves. -/
inductive Move (s : Calls ι α β κ ω) :
    CallEvent ι α → List (CallEntry ι α β) → Calls ι α β κ ω → Prop
  | ask {i : ι} {a : α} {closed : Bool} (line : s.line i = ⟨.idle, false, closed⟩) :
      Move s (.ask i a) [.asked i a] (s.setLine i ⟨.asked a, false, closed⟩)
  | enter {i : ι} {a : α} {left : Bool} (line : s.line i = ⟨.asked a, left, false⟩) :
      Move s (.enter i) [] (s.setLine i ⟨.working a (service.enter i a), left, false⟩)
  | act {i : ι} {a : α} {w w' : ω} {st : κ} {left closed : Bool}
      (line : s.line i = ⟨.working a w, left, closed⟩)
      (act : service.act w s.state = some (w', st)) :
      Move s (.act i) [] { s.setLine i ⟨.working a w', left, closed⟩ with state := st }
  | answer {i : ι} {a : α} {w : ω} {b : β} {left closed : Bool}
      (line : s.line i = ⟨.working a w, left, closed⟩) (result : service.result w = some b) :
      Move s (.answer i) [.answered i a b] (s.setLine i ⟨.answered b, left, closed⟩)
  | take {i : ι} {b : β} {closed : Bool} (line : s.line i = ⟨.answered b, false, closed⟩) :
      Move s (.take i) [.returned i b] (s.setLine i ⟨.idle, false, closed⟩)
  | leave {i : ι} : Move s (.leave i) [] (s.setLine i { s.line i with left := true })
  | close {i : ι} : Move s (.close i) [] (s.setLine i { s.line i with closed := true })

variable {service}

theorem step_cases {s t : Calls ι α β κ ω} {e : CallEvent ι α} (h : step service s e = some t) :
    Move service s e (entries service s e) t := by
  cases e with
  | ask i a =>
    rw [step] at h
    split at h
    next closed hline =>
      cases h
      exact .ask hline
    next => cases h
  | enter i =>
    rw [step] at h
    split at h
    next a left hline =>
      cases h
      exact .enter hline
    next => cases h
  | act i =>
    rw [step] at h
    split at h
    next a w left closed hline =>
      obtain ⟨r, hact, rfl⟩ := Option.map_eq_some_iff.mp h
      exact .act hline hact
    next => cases h
  | answer i =>
    rw [step] at h
    split at h
    next a w left closed hline =>
      obtain ⟨b, hresult, rfl⟩ := Option.map_eq_some_iff.mp h
      have hentries : entries service s (.answer i) = [.answered i a b] := by
        simp [entries, hline, hresult]
      rw [hentries]
      exact .answer hline hresult
    next => cases h
  | take i =>
    rw [step] at h
    split at h
    next b closed hline =>
      cases h
      have hentries : entries service s (.take i) = [.returned i b] := by
        simp [entries, hline]
      rw [hentries]
      exact .take hline
    next => cases h
  | leave i =>
    rw [step] at h
    split at h
    · cases h
    · cases h
      exact .leave
  | close i =>
    rw [step] at h
    split at h
    · cases h
    · cases h
      exact .close

/-! ## What was asked, answered and returned -/

def askedBy (i : ι) (log : List (CallEntry ι α β)) : List α :=
  log.filterMap fun
    | .asked j a => if j = i then some a else none
    | _ => none

/-- The requests of a line that were answered, with their answers. -/
def answersTo (i : ι) (log : List (CallEntry ι α β)) : List (α × β) :=
  log.filterMap fun
    | .answered j a b => if j = i then some (a, b) else none
    | _ => none

def returnedTo (i : ι) (log : List (CallEntry ι α β)) : List β :=
  log.filterMap fun
    | .returned j b => if j = i then some b else none
    | _ => none

/-- The log tells where every call is. -/
structure Accounts (s : Calls ι α β κ ω) (log : List (CallEntry ι α β)) : Prop where
  asked : ∀ i, askedBy i log = (answersTo i log).map Prod.fst ++ (s.line i).call.waiting
  answered : ∀ i, (answersTo i log).map Prod.snd = returnedTo i log ++ (s.line i).call.ready

theorem accounts_start (st : κ) : Accounts (start st : Calls ι α β κ ω) [] :=
  ⟨fun _ => rfl, fun _ => rfl⟩

variable {s t : Calls ι α β κ ω} {e : CallEvent ι α} {past new : List (CallEntry ι α β)} {i : ι}

/-- One line goes on, and the new entries are about this line. -/
theorem Accounts.set (h : Accounts s past) {l : Line α β ω}
    (hothers : ∀ j, j ≠ i → askedBy j new = [] ∧ answersTo j new = [] ∧ returnedTo j new = [])
    (hasked : (s.line i).call.waiting ++ askedBy i new =
      (answersTo i new).map Prod.fst ++ l.call.waiting)
    (hanswered : (s.line i).call.ready ++ (answersTo i new).map Prod.snd =
      returnedTo i new ++ l.call.ready) : Accounts (s.setLine i l) (past ++ new) := by
  have happend (j : ι) : askedBy j (past ++ new) = askedBy j past ++ askedBy j new ∧
      answersTo j (past ++ new) = answersTo j past ++ answersTo j new ∧
      returnedTo j (past ++ new) = returnedTo j past ++ returnedTo j new :=
    ⟨List.filterMap_append, List.filterMap_append, List.filterMap_append⟩
  refine ⟨fun j => ?_, fun j => ?_⟩
  · obtain ⟨hask, hans, -⟩ := happend j
    rw [hask, hans, h.asked j]
    by_cases hj : j = i
    · subst hj
      rw [setLine_self, List.append_assoc, hasked, List.map_append, List.append_assoc]
    · obtain ⟨hask, hans, -⟩ := hothers j hj
      rw [hask, hans, setLine_of_ne _ _ hj, List.append_nil, List.append_nil]
  · obtain ⟨-, hans, hret⟩ := happend j
    rw [hans, hret, List.map_append, h.answered j]
    by_cases hj : j = i
    · subst hj
      rw [setLine_self, List.append_assoc, hanswered, List.append_assoc]
    · obtain ⟨-, hans, hret⟩ := hothers j hj
      rw [hans, hret, setLine_of_ne _ _ hj, List.map_nil, List.append_nil, List.append_nil]

/-- Nothing is entered, and the call is where it was for the log. -/
theorem Accounts.set_silent (h : Accounts s past) {l : Line α β ω}
    (hwaiting : l.call.waiting = (s.line i).call.waiting)
    (hready : l.call.ready = (s.line i).call.ready) : Accounts (s.setLine i l) (past ++ []) :=
  h.set (fun _ _ => ⟨rfl, rfl, rfl⟩) (by simp [askedBy, answersTo, hwaiting])
    (by simp [answersTo, returnedTo, hready])

theorem Accounts.move (h : Accounts s past) (hmove : Move service s e new t) :
    Accounts t (past ++ new) := by
  cases hmove with
  | @ask i a closed hline =>
    refine h.set (fun j hj => ?_) ?_ ?_
    · simp [askedBy, answersTo, returnedTo, Ne.symm hj]
    · simp [askedBy, answersTo, Call.waiting, hline]
    · simp [answersTo, returnedTo, Call.ready, hline]
  | enter hline =>
    exact h.set_silent (by simp [Call.waiting, hline]) (by simp [Call.ready, hline])
  | @act i a w w' st left closed hline hact =>
    have hset : Accounts (s.setLine i ⟨.working a w', left, closed⟩) (past ++ []) :=
      h.set_silent (by simp [Call.waiting, hline]) (by simp [Call.ready, hline])
    exact ⟨hset.asked, hset.answered⟩
  | @answer i a w b left closed hline hresult =>
    refine h.set (fun j hj => ?_) ?_ ?_
    · simp [askedBy, answersTo, returnedTo, Ne.symm hj]
    · simp [askedBy, answersTo, Call.waiting, hline]
    · simp [answersTo, returnedTo, Call.ready, hline]
  | @take i b closed hline =>
    refine h.set (fun j hj => ?_) ?_ ?_
    · simp [askedBy, answersTo, returnedTo, Ne.symm hj]
    · simp [askedBy, answersTo, Call.waiting, hline]
    · simp [answersTo, returnedTo, Call.ready, hline]
  | leave => exact h.set_silent rfl rfl
  | close => exact h.set_silent rfl rfl

/-- The calls of a run are accounted for. -/
theorem accounts_of_run {st : κ} {es : List (CallEvent ι α)}
    (hrun : Machine.run (step service) (start st) es = some t) :
    Accounts t (Machine.log (step service) (entries service) (start st) es) := by
  have keep : ∀ s e t past, Accounts s past → step service s e = some t →
      Accounts t (past ++ entries service s e) :=
    fun s e t past h hstep => h.move (step_cases hstep)
  have haccounts := Machine.run_log_invariant keep (accounts_start st) hrun
  rwa [List.nil_append] at haccounts

/-! ## One call at a time -/

end Calls

/-- Calls that are not in each other's way are answered with the replies to their own requests.
`sound` says what is known of a call on the way to its reply, and does not depend on the state
unless the call is in the middle of its work. -/
structure Service.Replies {ι α β κ ω : Type*} (service : Service ι α β κ ω) (proper : α → Prop)
    (reply : α → β) (inv : κ → Prop) (middle : ω → Prop) (sound : α → ω → κ → Prop) : Prop where
  enter : ∀ i a st, proper a → inv st → sound a (service.enter i a) st
  act : ∀ a w st w' st', sound a w st → inv st → service.act w st = some (w', st') →
    sound a w' st' ∧ inv st'
  frame : ∀ a w st st', sound a w st → ¬ middle w → inv st' → sound a w st'
  result : ∀ a w st b, sound a w st → service.result w = some b → b = reply a

namespace Calls

variable {ι α β κ ω : Type*} [DecidableEq ι] {service : Service ι α β κ ω} {proper : α → Prop}
  {reply : α → β} {inv : κ → Prop} {middle : ω → Prop} {sound : α → ω → κ → Prop}
  {s t : Calls ι α β κ ω} {e : CallEvent ι α} {past new : List (CallEntry ι α β)} {i : ι}

/-- What is asked is proper, and a call makes a step only when no other one is in the middle of its
work. -/
def Undivided (proper : α → Prop) (middle : ω → Prop) (s : Calls ι α β κ ω) : CallEvent ι α → Prop
  | .ask _ a => proper a
  | .act i => ∀ j a w, j ≠ i → (s.line j).call = .working a w → ¬ middle w
  | .enter _ | .answer _ | .take _ | .leave _ | .close _ => True

/-- All calls are on the way to their replies, and there has been no other answer. -/
structure Replying (proper : α → Prop) (reply : α → β) (inv : κ → Prop)
    (sound : α → ω → κ → Prop) (s : Calls ι α β κ ω) (log : List (CallEntry ι α β)) : Prop where
  state : inv s.state
  asked : ∀ i a, (s.line i).call = .asked a → proper a
  working : ∀ i a w, (s.line i).call = .working a w → sound a w s.state
  answers : ∀ i a b, .answered i a b ∈ log → b = reply a

/-- One line goes on, and perhaps the state. -/
theorem Replying.set (h : Replying proper reply inv sound s past) {l : Line α β ω} {st : κ}
    (hst : inv st) (hasked : ∀ a, l.call = .asked a → proper a)
    (hworking : ∀ a w, l.call = .working a w → sound a w st)
    (hframe : ∀ j a w, j ≠ i → (s.line j).call = .working a w → sound a w st)
    (hnew : ∀ j a b, .answered j a b ∈ new → b = reply a) :
    Replying proper reply inv sound { s.setLine i l with state := st } (past ++ new) := by
  refine ⟨hst, fun j a hj => ?_, fun j a w hj => ?_, fun j a b hmem => ?_⟩
  · by_cases hji : j = i
    · subst hji
      exact hasked a (by simpa using hj)
    · exact h.asked j a (by simpa [setLine_of_ne _ _ hji] using hj)
  · by_cases hji : j = i
    · subst hji
      exact hworking a w (by simpa using hj)
    · exact hframe j a w hji (by simpa [setLine_of_ne _ _ hji] using hj)
  · rcases List.mem_append.mp hmem with hmem | hmem
    · exact h.answers j a b hmem
    · exact hnew j a b hmem

/-- One line goes on, and the state stays. -/
theorem Replying.set_line (h : Replying proper reply inv sound s past) {l : Line α β ω}
    (hasked : ∀ a, l.call = .asked a → proper a)
    (hworking : ∀ a w, l.call = .working a w → sound a w s.state)
    (hnew : ∀ j a b, .answered j a b ∈ new → b = reply a) :
    Replying proper reply inv sound (s.setLine i l) (past ++ new) :=
  h.set h.state hasked hworking (fun j a w _ hj => h.working j a w hj) hnew

theorem Replying.move (hservice : service.Replies proper reply inv middle sound)
    (h : Replying proper reply inv sound s past) (hok : Undivided proper middle s e)
    (hmove : Move service s e new t) : Replying proper reply inv sound t (past ++ new) := by
  cases hmove with
  | @ask i a closed hline =>
    refine h.set_line (fun b hb => ?_) (by simp) (by simp)
    cases hb
    exact hok
  | @enter i a left hline =>
    refine h.set_line (by simp) (fun b w hw => ?_) (by simp)
    cases hw
    exact hservice.enter i a s.state (h.asked i a (by rw [hline])) h.state
  | @act i a w w' st left closed hline hact =>
    have hsound := h.working i a w (by rw [hline])
    obtain ⟨hsound', hst⟩ := hservice.act a w s.state w' st hsound h.state hact
    refine h.set hst (by simp) (fun b v hv => ?_) (fun j b v hj hv => ?_) (by simp)
    · cases hv
      exact hsound'
    · exact hservice.frame b v s.state st (h.working j b v hv) (hok j b v hj hv) hst
  | @answer i a w b left closed hline hresult =>
    refine h.set_line (by simp) (by simp) (fun j a' b' hmem => ?_)
    cases List.mem_singleton.mp hmem
    exact hservice.result a w s.state b (h.working i a w (by rw [hline])) hresult
  | take => exact h.set_line (by simp) (by simp) (by simp)
  | leave => exact h.set_line (h.asked _) (h.working _) (by simp)
  | close => exact h.set_line (h.asked _) (h.working _) (by simp)

/-- In a run in which no call is in the way of another one, the answers that have been taken on a
line are the replies to its first requests, in their order. -/
theorem returned_of_replies (hservice : service.Replies proper reply inv middle sound) {st : κ}
    (hst : inv st) {es : List (CallEvent ι α)}
    (hsteps : Machine.AllSteps (step service) (Undivided proper middle) (start st) es)
    (hrun : Machine.run (step service) (start st) es = some t) (i : ι) :
    let log := Machine.log (step service) (entries service) (start st) es
    returnedTo i log <+: (askedBy i log).map reply ∧
      ((t.line i).call = .idle → returnedTo i log = (askedBy i log).map reply) := by
  intro log
  have hstart : Replying proper reply inv sound (start st : Calls ι α β κ ω) [] :=
    ⟨hst, by simp [start], by simp [start], by simp⟩
  have hreplying : Replying proper reply inv sound t ([] ++ log) :=
    Machine.run_log_invariant_of
      (fun s e t past h hok hstep => h.move hservice hok (step_cases hstep)) hstart hsteps hrun
  have haccounts := accounts_of_run hrun
  have hanswers : (answersTo i log).map Prod.snd = ((answersTo i log).map Prod.fst).map reply := by
    rw [List.map_map]
    refine List.map_congr_left fun p hp => ?_
    obtain ⟨entry, hmem, hentry⟩ := List.mem_filterMap.mp hp
    cases entry with
    | answered j a b =>
      obtain ⟨-, rfl⟩ : j = i ∧ (a, b) = p := by simpa using hentry
      exact hreplying.answers j a b (by simpa using hmem)
    | asked => cases hentry
    | returned => cases hentry
  have hasked := haccounts.asked i
  have hanswered := haccounts.answered i
  constructor
  · rw [hasked, List.map_append, ← hanswers, hanswered, List.append_assoc]
    exact List.prefix_append _ _
  · intro hidle
    rw [hidle] at hasked hanswered
    simp only [Call.waiting, Call.ready, List.append_nil] at hasked hanswered
    rw [hasked, ← hanswers, hanswered]

end Calls

end P2PFileSharing.Library
