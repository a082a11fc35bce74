import P2PFileSharing.Http.Network
import P2PFileSharing.Http.Transit

/-!
# One thread of the server alone

The network takes the loop of `handle_client` apart, so that other threads come in between. A thread
that is not interrupted makes the rounds of that loop, and when it closes the connection, it has
done what `handle_client` does.
-/

namespace P2PFileSharing.Http

open Library InetSocket Action

variable {ι κ ω : Type} [DecidableEq ι]

/-- The body of the loop in `handle_client`: does the loop go on? -/
def round (callback : Callback κ) (fuel : Nat) : Action (InetSocket × κ) Fault Bool :=
  (serve callback fuel).catching (Fault.handlerFor (serveHandlers fuel))

theorem handleClient_succ (callback : Callback κ) (fuel : Nat) :
    handleClient callback (fuel + 1) = (do
      let goOn ← round callback fuel
      if goOn then handleClient callback fuel else pure ()) := rfl

namespace Network

theorem round_of_handle {callback : Callback κ} {fuel : Nat} {s t : Network ι κ ω} {i : ι}
    {c : Connection ω} {f : Fault} {start : InetSocket × κ}
    (hserve : serve callback fuel start = (.error f, c.server, s.state))
    (hopen : c.closed = false) (hhandle : s.handle fuel i c f = some t) :
    round callback fuel start = (.ok (!(t.conn i).closed), (t.conn i).server, t.state) := by
  rw [handle] at hhandle
  split at hhandle
  next => cases hhandle
  next handler hhandler =>
    rw [round, Action.catching_of_error hserve hhandler]
    split at hhandle
    next u st hrun =>
      cases hhandle
      simp [hrun, hopen]
    next u st hrun =>
      cases hhandle
      simp [hrun]
    next => cases hhandle

theorem work_of_handle {fuel : Nat} {s t : Network ι κ ω} {i : ι} {c : Connection ω} {f : Fault}
    (h : s.handle fuel i c f = some t) : (t.conn i).work = c.work := by
  rw [handle] at h
  split at h
  next => cases h
  next handler _ =>
    split at h
    next =>
      cases h
      simp
    next =>
      cases h
      simp
    next => cases h

/-- A thread that has read a request, and whose callback and whose writer are not interrupted, has
made a round. -/
theorem round_of_steps {callback : Callback κ} {fuel : Nat} {i : ι}
    {s s₁ s₂ s₃ : Network ι κ (Request × SockAddr ⊕ Except ExnClass Response)}
    (hread : step (.ofCallback callback) fuel s (.read i) = some s₁)
    (hact : step (.ofCallback callback) fuel s₁ (.act i) = some s₂)
    (hwrite : step (.ofCallback callback) fuel s₂ (.write i) = some s₃) :
    round callback fuel ((s.conn i).server, s.state) =
      (.ok (!(s₃.conn i).closed), (s₃.conn i).server, s₃.state) := by
  obtain ⟨hopen, hidle, ⟨req, u, hreq, rfl⟩ | ⟨f, u, hreq, hhandle⟩⟩ := read_cases hread
  · have hserve {r : Except Fault Bool × InetSocket × κ}
        (hrest : (do
          let res ← Action.onSnd ((callback req u.remoteAddr).mapError .thrown)
          Action.onFst (writeResponse fuel res)
          pure true : Action (InetSocket × κ) Fault Bool) (u, s.state) = r) :
        serve callback fuel ((s.conn i).server, s.state) = r := by
      rw [serve, Action.bind_of_ok (Action.onFst_of_ok hreq s.state), Action.get_bind_run, hrest]
    rcases hcall : callback req u.remoteAddr s.state with ⟨e | res, st⟩
    · have hs₂ : s₂ = { s.set i { s.conn i with
          server := u, work := some (req, .inr (.error e)) } with state := st } := by
        simpa [step, Worker.ofCallback, set, hcall] using hact.symm
      have hthrown : serve callback fuel ((s.conn i).server, s.state) =
          (.error (.thrown e), u, st) :=
        hserve (Action.bind_of_error (by
          simp [Action.onSnd, Action.mapError, hcall, Except.mapError]))
      rw [hs₂] at hwrite
      simp only [step, set_self, Worker.ofCallback] at hwrite
      exact round_of_handle hthrown (by exact hopen) hwrite
    · have hs₂ : s₂ = { s.set i { s.conn i with
          server := u, work := some (req, .inr (.ok res)) } with state := st } := by
        simpa [step, Worker.ofCallback, set, hcall] using hact.symm
      have hanswer : (Action.onSnd ((callback req u.remoteAddr).mapError .thrown) :
          Action (InetSocket × κ) Fault Response) (u, s.state) = (.ok res, (u, st)) := by
        simp [Action.onSnd, Action.mapError, hcall, Except.mapError]
      rw [hs₂] at hwrite
      simp only [step, set_self, Worker.ofCallback] at hwrite
      rcases hsent : writeResponse fuel res u with ⟨f | ⟨⟩, v⟩
      · have hfailed : serve callback fuel ((s.conn i).server, s.state) = (.error f, v, st) := by
          refine hserve ?_
          rw [Action.bind_of_ok hanswer]
          exact Action.bind_of_error (by simp [Action.onFst, hsent])
        rw [hsent] at hwrite
        exact round_of_handle hfailed (by exact hopen) hwrite
      · have hdone : serve callback fuel ((s.conn i).server, s.state) = (.ok true, v, st) := by
          refine hserve ?_
          rw [Action.bind_of_ok hanswer, Action.bind_of_ok (Action.onFst_of_ok hsent st)]
          rfl
        rw [hsent] at hwrite
        cases hwrite
        rw [round, Action.catching_of_ok hdone]
        simp [hopen]
  · have hnone := work_of_handle hhandle
    simp [step, hnone, hidle] at hact

/-- A thread that has found no request has made a round as well. -/
theorem round_of_read {worker : Worker κ ω} {fuel : Nat} {s t : Network ι κ ω} {i : ι}
    (callback : Callback κ) (hread : step worker fuel s (.read i) = some t)
    (hidle : (t.conn i).work = none) : round callback fuel ((s.conn i).server, s.state) =
      (.ok (!(t.conn i).closed), (t.conn i).server, t.state) := by
  obtain ⟨hopen, -, ⟨req, u, hreq, rfl⟩ | ⟨f, u, hreq, hhandle⟩⟩ := read_cases hread
  · simp at hidle
  · have hserve : serve callback fuel ((s.conn i).server, s.state) = (.error f, u, s.state) :=
      Action.bind_of_error (by simp [Action.onFst, hreq])
    exact round_of_handle hserve (by exact hopen) hhandle

/-- The steps that the thread of connection `i` makes. -/
def OfThread (i : ι) (e : NetEvent ι) : Prop := e = .read i ∨ e = .act i ∨ e = .write i

section Steps

variable {callback : Callback κ} {fuel : Nat} {i : ι} {e : NetEvent ι}
  {s t : Network ι κ (Request × SockAddr ⊕ Except ExnClass Response)} {req : Request}

/-- A thread without a request reads one. -/
theorem eq_read_of_step (he : OfThread i e) (hidle : (s.conn i).work = none)
    (h : step (.ofCallback callback) fuel s e = some t) : e = .read i := by
  obtain rfl | rfl | rfl := he
  · rfl
  · simp [step, hidle] at h
  · simp [step, hidle] at h

/-- A thread with a request calls the callback. -/
theorem eq_act_of_step {p : Request × SockAddr} (he : OfThread i e)
    (hwork : (s.conn i).work = some (req, .inl p))
    (h : step (.ofCallback callback) fuel s e = some t) :
    e = .act i ∧ (t.conn i).closed = (s.conn i).closed ∧
      ∃ r, (t.conn i).work = some (req, .inr r) := by
  obtain rfl | rfl | rfl := he
  · simp [step, hwork] at h
  · simp only [step, hwork, Worker.ofCallback, Option.map_some] at h
    cases h
    exact ⟨rfl, by simp [set], _, by simp [set]; rfl⟩
  · simp [step, hwork, Worker.ofCallback] at h

/-- A thread with a result writes it. -/
theorem eq_write_of_step {r : Except ExnClass Response} (he : OfThread i e)
    (hwork : (s.conn i).work = some (req, .inr r))
    (h : step (.ofCallback callback) fuel s e = some t) :
    e = .write i ∧ (t.conn i).work = none := by
  obtain rfl | rfl | rfl := he
  · simp [step, hwork] at h
  · simp [step, hwork, Worker.ofCallback] at h
  · refine ⟨rfl, ?_⟩
    simp only [step, hwork, Worker.ofCallback] at h
    rcases r with e | res
    · exact work_of_handle h
    · dsimp only at h
      split at h
      next =>
        cases h
        simp
      next => exact work_of_handle h

end Steps

end Network

/-! ## All rounds of a connection -/

section Rounds

variable (callback : Callback κ)

theorem serve_settles : Settles .outOfFuel (serve callback) := by
  intro n m hnm
  refine .bind (.onFst (nextRequest_settles n m hnm)) fun req => ?_
  refine .bind .rfl fun s => .bind .rfl fun res => ?_
  exact .bind (.onFst (writeResponse_settles res n m hnm)) fun _ => .rfl

theorem round_settles : Settles .outOfFuel (round callback) := by
  intro n m hnm
  have hanswer (status : Status) (text : Str) :
      Extends .outOfFuel (do
          Action.onFst (writeResponse n (Response.new status text))
          pure true : Action (InetSocket × κ) Fault Bool) (do
          Action.onFst (writeResponse m (Response.new status text))
          pure true) :=
    .bind (.onFst (writeResponse_settles _ n m hnm)) fun _ => .rfl
  have hhandlers : List.Forall₂ (fun c d => c.1 = d.1 ∧ Extends .outOfFuel c.2 d.2)
      (serveHandlers n : List (ExnClass × Action (InetSocket × κ) Fault Bool))
      (serveHandlers m) :=
    .cons ⟨rfl, .rfl⟩ (.cons ⟨rfl, .rfl⟩ (.cons ⟨rfl, hanswer _ _⟩ (.cons ⟨rfl, .rfl⟩
      (.cons ⟨rfl, hanswer _ _⟩ (.cons ⟨rfl, .rfl⟩ .nil)))))
  exact (serve_settles callback n m hnm).catching rfl (Fault.handlerFor_rel hhandlers)

variable {callback} {fuel n : Nat} {s t : InetSocket × κ} {goOn : Bool}

theorem round_of_le (hround : round callback fuel s = (.ok goOn, t)) (hn : fuel ≤ n) :
    round callback n s = (.ok goOn, t) := by
  rw [← hround]
  exact round_settles callback fuel n hn s (by simp [hround])

/-- The last round. -/
theorem handleClient_of_last (hround : round callback fuel s = (.ok false, t)) :
    Converges (fun fuel => handleClient callback fuel s) (.ok (), t) := by
  refine ⟨fuel + 1, fun m hm => ?_⟩
  obtain ⟨k, rfl⟩ := Nat.exists_eq_add_of_le' hm
  change handleClient callback (k + fuel + 1) s = _
  rw [handleClient_succ, Action.bind_of_ok (round_of_le hround (Nat.le_add_left fuel k))]
  rfl

/-- A round, and those behind it. -/
theorem handleClient_of_round {r : Except Fault Unit × InetSocket × κ}
    (hround : round callback fuel s = (.ok true, t))
    (hrest : Converges (fun fuel => handleClient callback fuel t) r) :
    Converges (fun fuel => handleClient callback fuel s) r := by
  obtain ⟨n, hn⟩ := hrest
  refine ⟨fuel + n + 1, fun m hm => ?_⟩
  obtain ⟨k, rfl⟩ := Nat.exists_eq_add_of_le' hm
  change handleClient callback (k + (fuel + n) + 1) s = _
  rw [handleClient_succ, Action.bind_of_ok (round_of_le hround (by omega))]
  exact hn _ (by omega)

end Rounds

namespace Network

variable {callback : Callback κ} {fuel : Nat} {i : ι} {es : List (NetEvent ι)}
  {s t : Network ι κ (Request × SockAddr ⊕ Except ExnClass Response)}

/-- The steps of a thread up to the end of a round. -/
theorem exists_round (hes : ∀ e ∈ es, OfThread i e)
    (hrun : Machine.run (step (.ofCallback callback) fuel) s es = some t)
    (hidle : (s.conn i).work = none) (hopen : (s.conn i).closed = false)
    (hclosed : (t.conn i).closed = true) :
    ∃ u es', es' <:+ es ∧ es'.length < es.length ∧
      Machine.run (step (.ofCallback callback) fuel) u es' = some t ∧ (u.conn i).work = none ∧
      round callback fuel ((s.conn i).server, s.state) =
        (.ok (!(u.conn i).closed), (u.conn i).server, u.state) := by
  obtain _ | ⟨e, es⟩ := es
  · cases hrun
    simp [hopen] at hclosed
  obtain ⟨s₁, h₁, hrun₁⟩ := Machine.run_cons.mp hrun
  obtain rfl := eq_read_of_step (hes e (by simp)) hidle h₁
  rcases hwork : (s₁.conn i).work with _ | ⟨req, w⟩
  · exact ⟨s₁, es, List.suffix_cons _ _, by simp, hrun₁, hwork, round_of_read callback h₁ hwork⟩
  have hentered : (s₁.conn i).closed = false ∧ ∃ p, w = .inl p := by
    obtain ⟨-, -, ⟨req', u, -, rfl⟩ | ⟨f, u, -, hhandle⟩⟩ := read_cases h₁
    · simp only [set_self, Option.some.injEq, Prod.mk.injEq] at hwork
      exact ⟨by simpa using hopen, _, hwork.2.symm⟩
    · rw [work_of_handle hhandle] at hwork
      simp [hidle] at hwork
  obtain ⟨hopen₁, p, rfl⟩ := hentered
  obtain _ | ⟨e, es⟩ := es
  · cases hrun₁
    simp [hopen₁] at hclosed
  obtain ⟨s₂, h₂, hrun₂⟩ := Machine.run_cons.mp hrun₁
  obtain ⟨rfl, hsame, r, hwork₂⟩ := eq_act_of_step (hes e (by simp)) hwork h₂
  obtain _ | ⟨e, es⟩ := es
  · cases hrun₂
    simp [hsame, hopen₁] at hclosed
  obtain ⟨s₃, h₃, hrun₃⟩ := Machine.run_cons.mp hrun₂
  obtain ⟨rfl, hwork₃⟩ := eq_write_of_step (hes e (by simp)) hwork₂ h₃
  exact ⟨s₃, es, List.suffix_append [_, _, _] es, by simp; omega, hrun₃, hwork₃,
    round_of_steps h₁ h₂ h₃⟩

/-- Steps of one thread only, from a connection without a request until it is closed, are what
`handle_client` does with this connection. -/
theorem handleClient_of_run (hes : ∀ e ∈ es, OfThread i e)
    (hrun : Machine.run (step (.ofCallback callback) fuel) s es = some t)
    (hidle : (s.conn i).work = none) (hopen : (s.conn i).closed = false)
    (hclosed : (t.conn i).closed = true) :
    Converges (fun fuel => handleClient callback fuel ((s.conn i).server, s.state))
      (.ok (), (t.conn i).server, t.state) := by
  induction hn : es.length using Nat.strong_induction_on generalizing es s with
  | _ n ih =>
    obtain ⟨u, es', hsuffix, hlen, hrest, hidle', hround⟩ :=
      exists_round hes hrun hidle hopen hclosed
    have hes' (e : NetEvent ι) (he : e ∈ es') : OfThread i e := hes e (hsuffix.subset he)
    cases hend : (u.conn i).closed with
    | false =>
      rw [hend] at hround
      exact handleClient_of_round hround (ih _ (hn ▸ hlen) hes' hrest hidle' hend rfl)
    | true =>
      rw [hend] at hround
      -- a closed connection makes no further step
      obtain _ | ⟨e, es'⟩ := es'
      · cases hrest
        exact handleClient_of_last hround
      · obtain ⟨v, hv, -⟩ := Machine.run_cons.mp hrest
        obtain rfl := eq_read_of_step (hes' e (by simp)) hidle' hv
        simp [step, hend] at hv

/-- A request has arrived, and the client has closed its end. -/
def oneGreeting : Network Unit Nat (Request × SockAddr ⊕ Except ExnClass Response) where
  conn _ :=
    { client := ⟨[], .silent, [], [], .new⟩
      server := ⟨[greeting.bytes], .closed, [], [], .new⟩
      awaits := true, left := true, work := none, closed := false }
  state := 0

/-- It counts its calls. -/
def tally : Callback Nat := replying fun _ _ n => (.new .OK (lit "successful"), n + 1)

/-- The thread answers the request, and finds the end of the stream. -/
theorem oneGreeting_handled : ∃ server, Converges (fun fuel => handleClient tally fuel
    (⟨[greeting.bytes], .closed, [], [], .new⟩, 0)) (.ok (), server, 1) := by
  have hrun : (Machine.run (step (.ofCallback tally) 4) oneGreeting
      [.read (), .act (), .write (), .read ()]).map (fun t => ((t.conn ()).closed, t.state)) =
        some (true, 1) := by decide +kernel
  obtain ⟨t, ht, hend⟩ := Option.map_eq_some_iff.mp hrun
  obtain ⟨hclosed, hstate⟩ := Prod.mk.inj hend
  refine ⟨(t.conn ()).server, ?_⟩
  rw [← hstate]
  exact handleClient_of_run (by simp [OfThread]) ht rfl rfl hclosed

end Network

end P2PFileSharing.Http
