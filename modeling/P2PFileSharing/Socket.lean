import P2PFileSharing.SockAddr
import P2PFileSharing.Util

/-!
# Connected sockets

A connected socket is seen from one end: the results that `recv` will return, how the stream
ends, the results that `send` will return, and the bytes that were put on the wire.
-/

namespace P2PFileSharing

open Library

/-- What `read_bytes` finds once all arrivals have been read. -/
inductive Ending where
  /-- the remote end has closed: `recv` returns 0 -/
  | closed
  /-- nothing arrives any more: `poll` times out -/
  | silent
  /-- `poll` reports an error -/
  | pollError
  /-- `recv` fails with this `errno` -/
  | failed (err : Nat)
  deriving DecidableEq, Repr

/-- The result of one `send`. -/
inductive SendResult where
  /-- it takes this many bytes, or all of them if there are fewer -/
  | sent (count : Nat)
  | failed (err : Nat)
  deriving DecidableEq, Repr

structure InetSocket where
  /-- The bytes that each of the next `recv` calls returns. -/
  arrivals : List BString
  ending : Ending
  /-- The results of the next `send` calls; after them every `send` takes all it is given. -/
  sends : List SendResult
  wire : BString
  remoteAddr : SockAddr
  deriving DecidableEq

namespace InetSocket

/-- The tests of `throw_exception`, in their order, with the values that Linux gives to the
error constants. -/
def errnoTable : List (Nat × ExnClass) :=
  [(9, .invalidSocketDescriptorException), -- EBADF
    (111, .connRefusedException), -- ECONNREFUSED
    (14, .invalidBufAddrException), -- EFAULT
    (4, .interruptException), -- EINTR
    (22, .invalidArgsException), -- EINVAL
    (12, .memAllocFailedException), -- ENOMEM
    (107, .sockNotConnectedException), -- ENOTCONN
    (88, .notSockException), -- ENOTSOCK
    (104, .connResetException), -- ECONNRESET
    (89, .noConnectionModeException), -- EDESTADDRREQ
    (90, .invalidMsgsizeException), -- EMSGSIZE
    (105, .noBufAvailableException), -- ENOBUFS
    (95, .flagNotSupportedException), -- EOPNOTSUPP
    (106, .isConnectedException), -- EISCONN
    (13, .permissionException), -- EACCES | EPERM
    (98, .addressInUseException), -- EADDRINUSE
    (99, .addressNotAvailableException), -- EADDRNOTAVAIL
    (97, .addressFormatUnsupportedException), -- EAFNOSUPPORT
    (101, .networkUnreachableException), -- ENETUNREACH
    (91, .protocolUnsupportedException), -- EPROTOTYPE
    (32, .brokenPipeException)] -- EPIPE

/-- The exception for an error number, if any test of the chain holds. The tests are bitwise. -/
def throwException (err : Nat) : Option ExnClass :=
  (errnoTable.find? (fun entry => err &&& entry.1 ≠ 0)).map Prod.snd

/-- The socket after reading up to `rest`. -/
def leaving (s : InetSocket) (rest : List BString) : InetSocket := { s with arrivals := rest }

@[simp] theorem leaving_arrivals (s : InetSocket) (rest : List BString) :
    (s.leaving rest).arrivals = rest := rfl

@[simp] theorem leaving_ending (s : InetSocket) (rest : List BString) :
    (s.leaving rest).ending = s.ending := rfl

@[simp] theorem leaving_leaving (s : InetSocket) (rest rest' : List BString) :
    (s.leaving rest).leaving rest' = s.leaving rest' := rfl

theorem leaving_of_eq {s : InetSocket} {rest : List BString} (h : s.arrivals = rest) :
    s.leaving rest = s := by
  rw [← h, leaving]

/-- The return value of `read_bytes` and the bytes it wrote to the buffer. -/
def readBytes (count : Nat) : Action InetSocket Fault (Int × BString) := fun s =>
  match s.arrivals with
  | c :: rest =>
    let left := if c.length ≤ count then rest else c.drop count :: rest
    (.ok ((c.take count).length, c.take count), s.leaving left)
  | [] =>
    match s.ending with
    | .closed => (.ok (0, []), s)
    | .silent => (.error (.thrown .socketTimeOutException), s)
    | .pollError => (.error (.thrown .socketException), s)
    | .failed err =>
      match throwException err with
      | some e => (.error (.thrown e), s)
      | none => (.ok (-1, []), s)

/-- `write_bytes` hands `count` bytes from the start of the buffer to `send`. It swallows the
exception for a failed `send` and returns -1. A `count` beyond the buffer is undefined. -/
def writeBytes (buf : BString) (count : Nat) : Action InetSocket Fault Int := fun s =>
  if buf.length < count then (.error .undefined, s)
  else
    match s.sends with
    | [] => (.ok count, { s with wire := s.wire ++ buf.take count })
    | .sent n :: rest =>
      let took := min n count
      (.ok took, { s with sends := rest, wire := s.wire ++ buf.take took })
    | .failed _ :: rest => (.ok (-1), { s with sends := rest })

/-- The bytes that have arrived and are not yet read. -/
def pending (s : InetSocket) : BString := s.arrivals.flatten

/-- An arrival that fits into the buffer is returned whole. -/
theorem readBytes_arrival {count : Nat} {s : InetSocket} {c : BString} {rest : List BString}
    (harr : s.arrivals = c :: rest) (hc : c.length ≤ count) :
    readBytes count s = (.ok (c.length, c), s.leaving rest) := by
  simp [readBytes, harr, hc, List.take_of_length_le hc]

theorem readBytes_closed (count : Nat) {s : InetSocket} (harr : s.arrivals = [])
    (hend : s.ending = .closed) : readBytes count s = (.ok (0, []), s) := by
  simp [readBytes, harr, hend]

theorem readBytes_silent (count : Nat) {s : InetSocket} (harr : s.arrivals = [])
    (hend : s.ending = .silent) :
    readBytes count s = (.error (.thrown .socketTimeOutException), s) := by
  simp [readBytes, harr, hend]

end InetSocket

end P2PFileSharing
