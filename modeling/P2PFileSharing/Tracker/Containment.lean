import P2PFileSharing.Tracker.Outcome
import P2PFileSharing.Tracker.System

/-!
# Exceptions that end the process

`callback` ends with a handler for `std::exception`, which the exceptions of a statement are not.
They are contained only where an endpoint names them itself, and two endpoints leave one out.
-/

namespace P2PFileSharing.Tracker

open Http Library

/-- `callback` returns a response. -/
def Contained (order : AssignOrder) (req : Request) (remoteAddr : SockAddr) (s : Tracker) : Prop :=
  ∃ res t, callback order req remoteAddr s = (.ok res, t)

instance (order : AssignOrder) (req : Request) (remoteAddr : SockAddr) (s : Tracker) :
    Decidable (Contained order req remoteAddr s) :=
  match h : callback order req remoteAddr s with
  | (.ok res, t) => .isTrue ⟨res, t, h⟩
  | (.error e, t) => .isFalse (by rintro ⟨res, t', h'⟩; rw [h] at h'; cases h')

/-- A constraint refuses the new token of a login. -/
def LoginCrashes (s : Tracker) (uid passwd : Str) : Prop :=
  ∃ tables tables', s.NoToken uid passwd tables ∧
    s.db.reply 2 (.insertToken (generateToken uid passwd) uid) tables =
      (.error .constraintFailedException, tables')

/-- A statement of the creation of a group fails. -/
def CreateCrashes (s : Tracker) (uid gid : Str) : Prop :=
  (∃ tables, s.db.reply 0 (.insertGroup gid uid) s.db.tables = (.error .sqliteException, tables)) ∨
    ∃ rows tables tables',
      s.db.reply 0 (.insertGroup gid uid) s.db.tables = (.ok rows, tables) ∧
        s.db.reply 1 (.addMember uid gid) tables = (.error .sqliteException, tables')

/-- A constraint refuses a deletion, which takes a text that is more than a deletion. -/
def LeaveCrashes (s : Tracker) (uid gid : Str) : Prop :=
  (∃ tables, s.db.reply 0 (.removeMember uid gid) s.db.tables =
      (.error .constraintFailedException, tables)) ∨
    ∃ rows tables, s.db.reply 0 (.removeMember uid gid) s.db.tables = (.ok rows, tables) ∧
      uid = s.owner gid ∧
        ((∃ tables', s.db.reply 1 (.removeAllMembers gid) tables =
            (.error .constraintFailedException, tables')) ∨
          ∃ rows' tables' tables'',
            s.db.reply 1 (.removeAllMembers gid) tables = (.ok rows', tables') ∧
              s.db.reply 2 (.removeGroup gid) tables' =
                (.error .constraintFailedException, tables''))

/-- The operations that throw what no handler takes. -/
def Crashes (s : Tracker) : Operation → Prop
  | .login uid passwd _ => LoginCrashes s uid passwd
  | .createGroup uid gid => CreateCrashes s uid gid
  | .leaveGroup uid gid => LeaveCrashes s uid gid
  | _ => False

/-- The endpoint has a handler for the exception, or `callback` has. -/
def handledBy (handlers : List (ExnClass × Response)) (e : ExnClass) : Bool :=
  (handlerFor handlers e).isSome || ExnClass.exception.takes e

/-- Nothing is thrown that is not handled. -/
def Handled {α : Type} (handlers : List (ExnClass × Response)) (r : Except ExnClass α) : Prop :=
  ∀ e, r = .error e → handledBy handlers e = true

section Handled

variable {α β : Type} {handlers : List (ExnClass × Response)}

theorem handled_ok (a : α) : Handled handlers (.ok a : Except ExnClass α) := by
  intro e he
  cases he

@[simp] theorem handled_error {e : ExnClass} :
    Handled handlers (.error e : Except ExnClass α) ↔ handledBy handlers e = true :=
  ⟨fun h => h e rfl, by rintro h _ ⟨⟩; exact h⟩

/-- Steps that only return do not matter. -/
theorem handled_bind_iff {x : TrackerM α} {k : α → TrackerM β} {s : Tracker}
    (hk : ∀ a t, ∃ b u, k a t = (.ok b, u)) :
    Handled handlers ((x >>= k) s).1 ↔ Handled handlers (x s).1 := by
  rcases hx : x s with ⟨e | a, t⟩
  · rw [Action.bind_of_error hx, handled_error, handled_error]
  · obtain ⟨b, u, hk⟩ := hk a t
    rw [Action.bind_of_ok hx, hk]
    exact iff_of_true (handled_ok b) (handled_ok a)

theorem answered_eq_ok_iff {r : Except ExnClass Response} :
    (∃ res, answered handlers r = .ok res) ↔ Handled handlers r := by
  cases r with
  | ok res => exact iff_of_true ⟨res, rfl⟩ (handled_ok res)
  | error e =>
    rw [handled_error, handledBy, answered]
    cases handlerFor handlers e with
    | some res => simp
    | none => cases htakes : ExnClass.exception.takes e <;> simp

end Handled

theorem contained_iff {order : AssignOrder} {req : Request} {remoteAddr : SockAddr} {s : Tracker} :
    Contained order req remoteAddr s ↔ ∀ op, classify s.tokenMap req remoteAddr = .ok op →
      Handled op.handlers (op.perform order s).1 := by
  rw [Contained, callback_eq]
  cases classify s.tokenMap req remoteAddr with
  | error res =>
    refine iff_of_true ⟨res, s, rfl⟩ ?_
    intro op hop
    cases hop
  | ok op =>
    constructor
    · rintro ⟨res, t, hrun⟩ _ ⟨⟩
      exact answered_eq_ok_iff.mp ⟨res, congrArg Prod.fst hrun⟩
    · intro h
      obtain ⟨res, hres⟩ := answered_eq_ok_iff.mpr (h op rfl)
      exact ⟨res, (op.perform order s).2, by rw [react, Operation.respond, hres]⟩

/-! ## One operation -/

theorem Single.handled {α : Type} {s : Tracker} {st : Statement} {a : α} {after : Tables → Contents}
    {r : Except ExnClass α} {c : Contents} (h : Single s st a after r c)
    {handlers : List (ExnClass × Response)} (hsqlite : handledBy handlers .sqliteException = true)
    (hconstraint : handledBy handlers .constraintFailedException = true) : Handled handlers r := by
  cases h with
  | fails h0 =>
    rw [handled_error]
    rcases Database.error_of_reply (congrArg Prod.fst h0) with rfl | ⟨rfl, -⟩
    · exact hsqlite
    · exact hconstraint
  | done h0 => exact handled_ok a

theorem login_handled_iff {s : Tracker} {uid passwd : Str} {r : Except ExnClass Str} {c : Contents}
    (h : Login s uid passwd r c) : Handled loginHandlers r ↔ ¬ LoginCrashes s uid passwd := by
  have hsqlite : Handled loginHandlers (.error .sqliteException : Except ExnClass Str) :=
    handled_error.mpr (by decide)
  cases h with
  | userFails h0 =>
    rcases Database.error_of_reply (congrArg Prod.fst h0) with rfl | ⟨-, hquery⟩
    · exact iff_of_true hsqlite (by simp [LoginCrashes, NoToken, h0])
    · cases hquery
  | refused h0 hrows =>
    exact iff_of_true (handled_error.mpr (by decide)) (by simp [LoginCrashes, NoToken, h0, hrows])
  | found h0 hrows h1 => exact iff_of_true (handled_ok _) (by simp [LoginCrashes, NoToken, h0, h1])
  | tokenFails hno h2 =>
    rcases Database.error_of_reply (congrArg Prod.fst h2) with rfl | ⟨rfl, -⟩
    · refine iff_of_true hsqlite ?_
      rintro ⟨tables, tables', hno', h2'⟩
      rw [hno.unique hno', h2] at h2'
      cases h2'
    · refine iff_of_false ?_ (not_not.mpr ⟨_, _, hno, h2⟩)
      rw [handled_error]
      decide
  | issued hno h2 =>
    refine iff_of_true (handled_ok _) ?_
    rintro ⟨tables, tables', hno', h2'⟩
    rw [hno.unique hno', h2] at h2'
    cases h2'

theorem createGroup_handled_iff {s : Tracker} {uid gid : Str} {r : Except ExnClass Unit}
    {c : Contents} (h : CreateGroup s gid uid r c) :
    Handled createGroupHandlers r ↔ ¬ CreateCrashes s uid gid := by
  have hcrash : ¬ Handled createGroupHandlers (.error .sqliteException : Except ExnClass Unit) := by
    rw [handled_error]
    decide
  have htaken : Handled createGroupHandlers
      (.error .constraintFailedException : Except ExnClass Unit) := handled_error.mpr (by decide)
  cases h with
  | groupFails h0 =>
    rcases Database.error_of_reply (congrArg Prod.fst h0) with rfl | ⟨rfl, -⟩
    · exact iff_of_false hcrash (not_not.mpr (.inl ⟨_, h0⟩))
    · exact iff_of_true htaken (by simp [CreateCrashes, h0])
  | memberFails h0 h1 =>
    rcases Database.error_of_reply (congrArg Prod.fst h1) with rfl | ⟨rfl, -⟩
    · exact iff_of_false hcrash (not_not.mpr (.inr ⟨_, _, _, h0, h1⟩))
    · exact iff_of_true htaken (by simp [CreateCrashes, h0, h1])
  | created h0 h1 => exact iff_of_true (handled_ok ()) (by simp [CreateCrashes, h0, h1])

theorem leaveGroup_handled_iff {s : Tracker} {uid gid : Str} {r : Except ExnClass Unit}
    {c : Contents} (h : LeaveGroup s uid gid r c) :
    Handled leaveGroupHandlers r ↔ ¬ LeaveCrashes s uid gid := by
  have hsqlite : Handled leaveGroupHandlers (.error .sqliteException : Except ExnClass Unit) :=
    handled_error.mpr (by decide)
  have hcrash : ¬ Handled leaveGroupHandlers
      (.error .constraintFailedException : Except ExnClass Unit) := by
    rw [handled_error]
    decide
  cases h with
  | memberFails h0 =>
    rcases Database.error_of_reply (congrArg Prod.fst h0) with rfl | ⟨rfl, -⟩
    · exact iff_of_true hsqlite (by simp [LeaveCrashes, h0])
    · exact iff_of_false hcrash (not_not.mpr (.inl ⟨_, h0⟩))
  | left h0 howner => exact iff_of_true (handled_ok ()) (by simp [LeaveCrashes, h0, howner])
  | membersFail h0 howner h1 =>
    rcases Database.error_of_reply (congrArg Prod.fst h1) with rfl | ⟨rfl, -⟩
    · exact iff_of_true hsqlite (by simp [LeaveCrashes, h0, h1])
    · exact iff_of_false hcrash (not_not.mpr (.inr ⟨_, _, h0, howner, .inl ⟨_, h1⟩⟩))
  | groupFails h0 howner h1 h2 =>
    rcases Database.error_of_reply (congrArg Prod.fst h2) with rfl | ⟨rfl, -⟩
    · exact iff_of_true hsqlite (by simp [LeaveCrashes, h0, h1, h2])
    · exact iff_of_false hcrash (not_not.mpr (.inr ⟨_, _, h0, howner, .inr ⟨_, _, _, h1, h2⟩⟩))
  | deleted h0 howner h1 h2 =>
    exact iff_of_true (handled_ok ()) (by simp [LeaveCrashes, h0, h1, h2])

theorem stoll_handled {α : Type} {handlers : List (ExnClass × Response)} {text : Str} {e : ExnClass}
    (h : stoll text = .error e) : Handled handlers (.error e : Except ExnClass α) := by
  have htakes : ExnClass.exception.takes e = true := by
    rcases stoll_error h with rfl | rfl <;> decide
  rw [handled_error, handledBy, htakes, Bool.or_true]

theorem ShareFile.handled {order : AssignOrder} {s : Tracker} {uid gid fname serverAddr : Str}
    {r : Except ExnClass Response} {c : Contents}
    (h : ShareFile order s uid gid fname serverAddr r c) : Handled shareFileHandlers r := by
  cases h with
  | noMember hno => exact handled_error.mpr (by decide)
  | conflict hg hu hf => exact handled_error.mpr (by decide)
  | badNumber hg hu hf hn => exact stoll_handled hn
  | shared hg hu hf hn => exact handled_ok _

theorem Peers.handled {order : AssignOrder} {s : Tracker} {uid gid fname serverAddr : Str}
    {r : Except ExnClass Response} {c : Contents}
    (h : Peers order s uid gid fname serverAddr r c) : Handled peersHandlers r := by
  cases h with
  | badNumber hn => exact stoll_handled hn
  | noMember hn hno => exact handled_ok _
  | noFile hn hg hu hf => exact handled_error.mpr (by decide)
  | alone hn hg hu hf halone => exact handled_error.mpr (by decide)
  | listed hn hg hu hf hother => exact handled_ok _

/-- The handlers take everything that an operation throws, unless it is one that crashes. -/
theorem handled_iff (order : AssignOrder) (s : Tracker) (op : Operation) :
    Handled op.handlers (op.perform order s).1 ↔ ¬ Crashes s op := by
  cases op with
  | signup uid pass =>
    exact iff_of_true ((signup_cases s order uid pass).handled rfl rfl) (fun h => h)
  | login uid passwd remoteAddr =>
    refine (handled_bind_iff fun auth t => ⟨_, _, rfl⟩).trans ?_
    exact login_handled_iff (login_cases s uid passwd)
  | logout token => exact iff_of_true (handled_ok _) (fun h => h)
  | createGroup uid gid =>
    refine (handled_bind_iff fun _ t => ⟨_, _, rfl⟩).trans ?_
    exact createGroup_handled_iff (createGroup_cases s gid uid)
  | joinGroup uid gid =>
    refine iff_of_true ((handled_bind_iff fun _ t => ⟨_, _, rfl⟩).mpr ?_) (fun h => h)
    exact (joinGroup_cases s uid gid).handled rfl rfl
  | leaveGroup uid gid =>
    refine (handled_bind_iff fun _ t => ⟨_, _, rfl⟩).trans ?_
    exact leaveGroup_handled_iff (leaveGroup_cases s uid gid)
  | shareFile uid gid fname serverAddr =>
    exact iff_of_true (shareFile_cases order s uid gid fname serverAddr).handled (fun h => h)
  | peers uid gid fname serverAddr =>
    exact iff_of_true (peers_cases order s uid gid fname serverAddr).handled (fun h => h)

/-! ## Runs -/

/-- A request that asks for an operation that crashes. -/
def Crashing : System → Event → Prop
  | .up s, .request req remoteAddr =>
    ∃ op, classify s.tokenMap req remoteAddr = .ok op ∧ Crashes s op
  | _, _ => False

/-- A request that is answered, where a process is there to answer it. -/
def Safe (order : AssignOrder) : System → Event → Prop
  | .up s, .request req remoteAddr => Contained order req remoteAddr s
  | _, _ => True

theorem safe_iff_not_crashing (order : AssignOrder) (sys : System) (event : Event) :
    Safe order sys event ↔ ¬ Crashing sys event := by
  cases sys with
  | down db => exact iff_of_true trivial (fun h => h)
  | up s =>
    cases event with
    | restart => exact iff_of_true trivial (fun h => h)
    | request req remoteAddr =>
      refine contained_iff.trans ?_
      rw [Crashing, not_exists]
      refine forall_congr' fun op => ?_
      rw [not_and]
      exact imp_congr_right fun _ => handled_iff order s op

/-- Two users whose names and passwords run together to the same token. -/
def colliding : List Event :=
  [.request (posting "/signup" [("Username", "ann"), ("Password", "pw")]) .new,
    .request (posting "/signup" [("Username", "annp"), ("Password", "w")]) .new,
    .request (posting "/login" [("Username", "ann"), ("Password", "pw")]) .new]

end P2PFileSharing.Tracker
