import P2PFileSharing.Http.Conversations

/-!
# Calls can be finished

No run of clients, network and server comes to a point where a call cannot be finished, unless one
side has given the connection up.
-/

namespace P2PFileSharing.Http

open Library InetSocket

variable {ι κ ω : Type} [DecidableEq ι]

/-- A callback that runs alone comes to its end. -/
def Worker.Finishes (worker : Worker κ ω) (w : ω) (st : κ) : Prop :=
  ∃ r st', worker.Returns w st r st'

namespace Network

variable {good : ω → Prop} {addr : ι → SockAddr} {inv : κ → Prop} {s t : Network ι κ ω}
  {a : Calls ι Request Response κ ω} {worker : Worker κ ω} {fuel : Nat} {i : ι}

/-- With enough fuel these events are possible and allowed. They leave these entries and lead to
`u`. -/
def Leads (worker : Worker κ ω) (s : Network ι κ ω) (es : List (NetEvent ι))
    (log : List (CallEntry ι Request Response)) (u : Network ι κ ω) : Prop :=
  ∃ n, ∀ fuel, n ≤ fuel → Machine.run (step worker fuel) s es = some u ∧
    Machine.AllSteps (step worker fuel) Allowed s es ∧
    Machine.log (step worker fuel) (entries worker fuel) s es = log

theorem Leads.refl (s : Network ι κ ω) : Leads worker s [] [] s :=
  ⟨0, fun _ _ => ⟨rfl, trivial, rfl⟩⟩

theorem Leads.cons {e : NetEvent ι} {es : List (NetEvent ι)} {u : Network ι κ ω}
    {new log : List (CallEntry ι Request Response)} (hallowed : s.Allowed e)
    (hstep : Converges (fun fuel => step worker fuel s e) (some t))
    (hentries : Converges (fun fuel => entries worker fuel s e) new)
    (h : Leads worker t es log u) : Leads worker s (e :: es) (new ++ log) u := by
  obtain ⟨n, hn⟩ := hstep
  obtain ⟨k, hk⟩ := hentries
  obtain ⟨l, hl⟩ := h
  refine ⟨n + k + l, fun fuel hfuel => ?_⟩
  have hfirst : step worker fuel s e = some t := hn fuel (by omega)
  have hnew : entries worker fuel s e = new := hk fuel (by omega)
  obtain ⟨hrun, hothers, hlog⟩ := hl fuel (by omega)
  refine ⟨Machine.run_cons.mpr ⟨t, hfirst, hrun⟩, fun t' ht' => ?_, ?_⟩
  · cases hfirst.symm.trans ht'
    exact ⟨hallowed, hothers⟩
  · rw [Machine.log, hfirst, hnew, Option.elim_some, hlog]

/-- Nothing happens on the other connections. -/
def SameOthers (i : ι) (s t : Network ι κ ω) : Prop := ∀ j, j ≠ i → t.conn j = s.conn j

theorem sameOthers_set (s : Network ι κ ω) (i : ι) (c : Connection ω) :
    SameOthers i s (s.set i c) := fun _ hj => set_of_ne s c hj

omit [DecidableEq ι] in
theorem SameOthers.trans {u : Network ι κ ω} (h : SameOthers i s t) (h' : SameOthers i t u) :
    SameOthers i s u := fun j hj => (h' j hj).trans (h j hj)

omit [DecidableEq ι] in
theorem Matches.awaits (h : Matches good addr inv s a) {call : Call Request Response ω}
    {left closed : Bool} (hline : a.line i = ⟨call, left, closed⟩) (hcall : call ≠ .idle) :
    (s.conn i).awaits = true := by
  by_contra hnot
  rw [Bool.not_eq_true] at hnot
  have hidle := (h.lines i).awaits.mp hnot
  rw [hline] at hidle
  exact hcall hidle

/-- What is on the wire to the server is delivered. -/
theorem exists_carry (worker : Worker κ ω) (h : Matches good addr inv s a) (i : ι) :
    ∃ blocks s', Delivery (s.conn i).client.wire blocks ∧
      (∀ fuel, step worker fuel s (.carry i blocks) = some s') ∧ Matches good addr inv s' a ∧
        (s'.conn i).client.wire = [] ∧ SameOthers i s s' := by
  obtain ⟨blocks, hblocks⟩ := exists_delivery (h.lines i).requests
  refine ⟨blocks, _, hblocks, fun fuel => ?_, h.carry hblocks, ?_, sameOthers_set _ _ _⟩
  · rw [step, if_pos (by rw [hblocks.whole])]
  · simp [hblocks.whole]

/-- What is on the wire to the client is delivered. -/
theorem exists_carryBack (worker : Worker κ ω) (h : Matches good addr inv s a) (i : ι) :
    ∃ blocks s', Delivery (s.conn i).server.wire blocks ∧
      (∀ fuel, step worker fuel s (.carryBack i blocks) = some s') ∧ Matches good addr inv s' a ∧
        (s'.conn i).server.wire = [] ∧ SameOthers i s s' := by
  obtain ⟨blocks, hblocks⟩ := exists_delivery (h.lines i).responses
  refine ⟨blocks, _, hblocks, fun fuel => ?_, h.carryBack hblocks, ?_, sameOthers_set _ _ _⟩
  · rw [step, if_pos (by rw [hblocks.whole])]
  · simp [hblocks.whole]

/-- The call of client `i` comes to its end, with one response. -/
def Completes (worker : Worker κ ω) (s : Network ι κ ω) (i : ι) : Prop :=
  ∃ es log u res, Leads worker s es log u ∧ Calls.returnedTo i log = [res] ∧
    (u.conn i).awaits = false ∧ SameOthers i s u

/-- One more step in front. -/
theorem Completes.after {e : NetEvent ι} {new : List (CallEntry ι Request Response)}
    (h : Completes worker t i) (hallowed : s.Allowed e)
    (hstep : Converges (fun fuel => step worker fuel s e) (some t))
    (hentries : Converges (fun fuel => entries worker fuel s e) new)
    (hnew : Calls.returnedTo i new = []) (hsame : SameOthers i s t) : Completes worker s i := by
  obtain ⟨es, log, u, res, hleads, hlog, hdone, hothers⟩ := h
  refine ⟨e :: es, new ++ log, u, res, hleads.cons hallowed hstep hentries, ?_, hdone,
    hsame.trans hothers⟩
  rw [Calls.returnedTo, List.filterMap_append]
  exact congrArg₂ (· ++ ·) hnew hlog

/-- A response that is on its way is read. -/
theorem completes_answered (worker : Worker κ ω) {res : Response} {closed : Bool}
    (h : Matches good addr inv s a) (hline : a.line i = ⟨.answered res, false, closed⟩) :
    Completes worker s i := by
  obtain ⟨blocks, s', hblocks, hcarry, hthere, hwire, hothers⟩ := exists_carryBack worker h i
  have hawaits := hthere.awaits hline (by simp)
  have hi := hthere.lines i
  rw [hline] at hi
  obtain ⟨-, n, hn⟩ := hi.responses.read_arrived hi.client.delivers hwire
  have hread (fuel : Nat) (hfuel : n ≤ fuel) :
      readResponse fuel (s'.conn i).client = (.ok res, (s'.conn i).client.leaving []) :=
    hn fuel hfuel
  have hstep (fuel : Nat) (hfuel : n ≤ fuel) : step worker fuel s' (.receive i) =
      some (s'.set i { s'.conn i with
        client := (s'.conn i).client.leaving [], awaits := false }) := by
    simp [step, hawaits, hi.left, hread fuel hfuel]
  have hentries (fuel : Nat) (hfuel : n ≤ fuel) :
      entries worker fuel s' (.receive i) = [.returned i res] := by
    simp [entries, hread fuel hfuel]
  have hlast : Leads worker s' [.receive i] [.returned i res] _ :=
    .cons (e := .receive i) trivial ⟨n, hstep⟩ ⟨n, hentries⟩ (.refl _)
  have hreceive : Completes worker s' i :=
    ⟨_, _, _, res, hlast, by simp [Calls.returnedTo], by simp, sameOthers_set _ _ _⟩
  exact hreceive.after (e := .carryBack i blocks) hblocks ⟨0, fun fuel _ => hcarry fuel⟩ (.const [])
    rfl hothers

/-- A callback comes to its end, and its response is read. -/
theorem completes_working (hworker : worker.AnswersWell good inv) {req : Request} {w : ω} {st : κ}
    {closed : Bool} (hfinishes : worker.Finishes w st) (h : Matches good addr inv s a)
    (hst : s.state = st) (hline : a.line i = ⟨.working req w, false, closed⟩) :
    Completes worker s i := by
  obtain ⟨r, st', hreturns⟩ := hfinishes
  induction hreturns generalizing s a with
  | @now w st r hresult =>
    have hi := h.lines i
    rw [hline] at hi
    obtain ⟨res, rfl, hres⟩ := hworker.result w r (hi.good req w rfl) hresult
    obtain ⟨n, hn⟩ := writeLoop_converges_whole hi.server.sends hres.small
    have hwrite (fuel : Nat) (hfuel : n ≤ fuel) : writeResponse fuel res (s.conn i).server =
        (.ok (), { (s.conn i).server with wire := (s.conn i).server.wire ++ res.bytes }) := by
      rw [writeResponse_of_serialize (res.serialize_of_size hres.small)]
      exact hn fuel hfuel
    have hwork : (s.conn i).work = some (req, w) := hi.work
    have hstep (fuel : Nat) (hfuel : n ≤ fuel) : step worker fuel s (.write i) =
        some (s.set i { s.conn i with
          server := { (s.conn i).server with wire := (s.conn i).server.wire ++ res.bytes },
          work := none }) := by
      simp [step, hwork, hresult, hwrite fuel hfuel]
    have hentries (fuel : Nat) : entries worker fuel s (.write i) = [.answered i req res] := by
      simp [entries, hwork, hresult]
    have hread := completes_answered worker (h.write hline hres) (Calls.setLine_self a i _)
    exact hread.after (e := .write i) trivial ⟨n, hstep⟩ ⟨0, fun fuel _ => hentries fuel⟩ rfl
      (sameOthers_set _ _ _)
  | @after w w' st st' st'' r hact hrest ih =>
    have hi := h.lines i
    rw [hline] at hi
    have hwork : (s.conn i).work = some (req, w) := hi.work
    rw [← hst] at hact
    have hstep (fuel : Nat) : step worker fuel s (.act i) =
        some { s.set i { s.conn i with work := some (req, w') } with state := st' } := by
      simp [step, hwork, hact]
    have hothers := ih (h.act hworker hline hact) rfl (Calls.setLine_self a i _)
    exact hothers.after (e := .act i) trivial ⟨0, fun fuel _ => hstep fuel⟩ (.const []) rfl
      (sameOthers_set _ _ _)

/-- A request that is on its way is read and answered. -/
theorem completes_asked (hworker : worker.AnswersWell good inv)
    (hfinishes : ∀ w st, good w → inv st → worker.Finishes w st) {req : Request}
    (h : Matches good addr inv s a) (hline : a.line i = ⟨.asked req, false, false⟩) :
    Completes worker s i := by
  obtain ⟨blocks, s', hblocks, hcarry, hthere, hwire, hothers⟩ := exists_carry worker h i
  have hi := hthere.lines i
  rw [hline] at hi
  obtain ⟨hcarried, n, hn⟩ := hi.requests.read_arrived hi.server.delivers hwire
  have hread (fuel : Nat) (hfuel : n ≤ fuel) :
      nextRequest fuel (s'.conn i).server = (.ok req, (s'.conn i).server.leaving []) :=
    nextRequest_of_small (hn fuel hfuel) hcarried.small
  have haddr : ((s'.conn i).server.leaving []).remoteAddr = addr i := hi.addr
  have hidle : (s'.conn i).work = none := hi.work
  have hstep (fuel : Nat) (hfuel : n ≤ fuel) : step worker fuel s' (.read i) =
      some (s'.set i { s'.conn i with
        server := (s'.conn i).server.leaving [], work := some (req, worker.enter req (addr i)) }) :=
      by
    simp [step, hi.closed, hidle, hread fuel hfuel, haddr]
  have hgood := hworker.enter req (addr i) hcarried
  have hworking := completes_working hworker (hfinishes _ _ hgood hthere.inv)
    (hthere.read hworker hline hcarried hwire) rfl (Calls.setLine_self a i _)
  have hserved := hworking.after (e := .read i) trivial ⟨n, hstep⟩ (.const []) rfl
    (sameOthers_set _ _ _)
  exact hserved.after (e := .carry i blocks) hblocks ⟨0, fun fuel _ => hcarry fuel⟩ (.const []) rfl
    hothers

/-- Whatever has happened so far, a call on a connection that neither side has given up can be
finished by steps that concern this connection only, if callbacks that run alone end. -/
theorem call_can_finish (hworker : worker.AnswersWell good inv)
    (hfinishes : ∀ w st, good w → inv st → worker.Finishes w st) {serverAddr : SockAddr} {st : κ}
    (hst : inv st) {es : List (NetEvent ι)}
    (hallowed : Machine.AllSteps (step worker fuel) Allowed (opened serverAddr addr st) es)
    (hrun : Machine.run (step worker fuel) (opened serverAddr addr st) es = some t)
    (hawaits : (t.conn i).awaits = true) (hleft : (t.conn i).left = false)
    (hopen : (t.conn i).closed = false) : Completes worker t i := by
  obtain ⟨ds, a, -, h, -⟩ := run_matches hworker hst hallowed hrun
  have hi := h.lines i
  rcases hline : a.line i with ⟨call, left, closed⟩
  rw [hline] at hi
  obtain rfl : left = false := hi.left.symm.trans hleft
  obtain rfl : closed = false := hi.closed.symm.trans hopen
  cases call with
  | idle =>
    rw [hi.awaits.mpr rfl] at hawaits
    cases hawaits
  | asked req => exact completes_asked hworker hfinishes h hline
  | working req w =>
    exact completes_working hworker (hfinishes w _ (hi.good req w rfl) h.inv) h rfl hline
  | answered res => exact completes_answered worker h hline

theorem counting_finishes (w : Request × SockAddr ⊕ Except ExnClass Response) (st : Nat) :
    counting.Finishes w st := by
  rcases w with ⟨req, addr⟩ | r
  · exact ⟨_, _, .after rfl (.now rfl)⟩
  · exact ⟨_, _, .now rfl⟩

/-- The first client gets its response too. -/
theorem twoGreetings_can_finish :
    ∃ t, Machine.run (step counting 4) twoClients twoGreetings = some t ∧
      Completes counting t false := by
  obtain ⟨t, hrun, -, -, hawaits, hleft, hopen⟩ := twoGreetings_run
  exact ⟨t, hrun, call_can_finish counting_answersWell (fun w st _ _ => counting_finishes w st)
    trivial twoGreetings_allowed hrun hawaits hleft hopen⟩

end Network

end P2PFileSharing.Http
