import Mathlib.Data.List.Forall2
import P2PFileSharing.Library.Action

/-!
# Exception classes and handlers

The classes that the program throws, with the bases they name and whether they inherit them
publicly. A handler for a base class takes an exception only through public inheritance: the
SQLite exceptions name their bases without `public`, so inside a `class` they are private.
-/

namespace P2PFileSharing

open Library

inductive ExnClass where
  | exception
  | outOfRange
  | invalidArgument
  -- http.cpp
  | parseException
  | httpException
  | contentLengthMissingException
  | noSuchHeaderException
  | remoteEndClosedException
  -- socket.cpp
  | socketException
  | socketTimeOutException
  | invalidSocketDescriptorException
  | connRefusedException
  | connResetException
  | invalidBufAddrException
  | interruptException
  | noConnectionModeException
  | invalidArgsException
  | memAllocFailedException
  | sockNotConnectedException
  | notSockException
  | invalidMsgsizeException
  | isConnectedException
  | noBufAvailableException
  | flagNotSupportedException
  | permissionException
  | addressInUseException
  | addressNotAvailableException
  | addressFormatUnsupportedException
  | networkUnreachableException
  | protocolUnsupportedException
  | brokenPipeException
  -- sqlite_client.cpp
  | sqliteException
  | constraintFailedException
  -- tracker.cpp
  | invalidGidException
  | invalidUidException
  | invalidCredException
  | fnameConflictException
  | noSuchFileException
  -- client.cpp
  | invalidPieceNoException
  | indexOutOfRangeException
  | streamFailure
  | shaMismatchException
  | invalidRequestException
  | invalidResponseException
  deriving DecidableEq, Repr

inductive Access where
  | publicly
  | privately
  deriving DecidableEq, Repr

namespace ExnClass

/-- The base class of a class, with the access of the inheritance. -/
def base : ExnClass → Option (Access × ExnClass)
  | exception => none
  | contentLengthMissingException | noSuchHeaderException | remoteEndClosedException =>
    some (.publicly, httpException)
  | socketTimeOutException | invalidSocketDescriptorException | connRefusedException
  | connResetException | invalidBufAddrException | interruptException
  | noConnectionModeException | invalidArgsException | memAllocFailedException
  | sockNotConnectedException | notSockException | invalidMsgsizeException
  | isConnectedException | noBufAvailableException | flagNotSupportedException
  | permissionException | addressInUseException | addressNotAvailableException
  | addressFormatUnsupportedException | networkUnreachableException
  | protocolUnsupportedException | brokenPipeException => some (.publicly, socketException)
  | sqliteException => some (.privately, exception)
  | constraintFailedException => some (.privately, sqliteException)
  | _ => some (.publicly, exception)

/-- The class itself and its public bases, up to `depth` levels. -/
def publicBases : Nat → ExnClass → List ExnClass
  | 0, e => [e]
  | depth + 1, e =>
    match e.base with
    | some (.publicly, b) => e :: publicBases depth b
    | _ => [e]

/-- Does a handler for `handler` take an exception of class `thrown`? No class of the program
is more than two levels below `std::exception`. -/
def takes (handler thrown : ExnClass) : Bool := handler ∈ thrown.publicBases 2

/-- Everything except the SQLite exceptions is a `std::exception` to a handler. -/
theorem exception_takes_iff (thrown : ExnClass) :
    takes exception thrown = true ↔
      thrown ≠ sqliteException ∧ thrown ≠ constraintFailedException := by
  cases thrown <;> decide

/-- A handler for `sqlite_exception` does not take its derived class. -/
theorem sqliteException_takes_iff (thrown : ExnClass) :
    takes sqliteException thrown = true ↔ thrown = sqliteException := by
  cases thrown <;> decide

end ExnClass

/-- The handler of a `catch` list that takes an exception: the first one that matches. -/
def handlerFor {β : Type*} (handlers : List (ExnClass × β)) (thrown : ExnClass) : Option β :=
  (handlers.find? (fun h => h.1.takes thrown)).map Prod.snd

theorem handlerFor_singleton {β : Type*} (c : ExnClass) (b : β) (thrown : ExnClass) :
    handlerFor [(c, b)] thrown = if c.takes thrown then some b else none := by
  cases h : c.takes thrown <;> simp [handlerFor, h]

theorem exists_of_handlerFor {β : Type*} {handlers : List (ExnClass × β)} {thrown : ExnClass}
    {b : β}
    (h : handlerFor handlers thrown = some b) :
    ∃ c, (c, b) ∈ handlers ∧ c.takes thrown = true := by
  obtain ⟨⟨c, b⟩, hfind, rfl⟩ := Option.map_eq_some_iff.mp h
  have htakes := List.find?_some hfind
  exact ⟨c, List.mem_of_find?_eq_some hfind, htakes⟩

/-- What ends a function other than a value: an exception, behaviour that C++ leaves
undefined, or a loop that is still running when the fuel is used up. -/
inductive Fault where
  | thrown (e : ExnClass)
  | undefined
  | outOfFuel
  deriving DecidableEq, Repr

/-- A `catch` list. Only exceptions are caught. -/
def Fault.handlerFor {β : Type*} (handlers : List (ExnClass × β)) : Fault → Option β
  | .thrown e => P2PFileSharing.handlerFor handlers e
  | _ => none

/-! ## Two lists of handlers for the same exceptions -/

section Related

variable {β γ : Type*} {R : β → γ → Prop} {handlers : List (ExnClass × β)}
  {handlers' : List (ExnClass × γ)}

theorem handlerFor_rel
    (h : List.Forall₂ (fun c d => c.1 = d.1 ∧ R c.2 d.2) handlers handlers') (e : ExnClass) :
    Option.Rel R (handlerFor handlers e) (handlerFor handlers' e) := by
  induction h with
  | nil => exact .none
  | @cons c d cs ds hcd _ ih =>
    obtain ⟨hclass, hR⟩ := hcd
    unfold handlerFor at ih ⊢
    rw [List.find?_cons, List.find?_cons, ← hclass]
    cases c.1.takes e with
    | true => exact .some hR
    | false => exact ih

theorem Fault.handlerFor_rel
    (h : List.Forall₂ (fun c d => c.1 = d.1 ∧ R c.2 d.2) handlers handlers') (f : Fault) :
    Option.Rel R (Fault.handlerFor handlers f) (Fault.handlerFor handlers' f) := by
  cases f with
  | thrown e => exact P2PFileSharing.handlerFor_rel h e
  | undefined => exact .none
  | outOfFuel => exact .none

end Related

end P2PFileSharing
