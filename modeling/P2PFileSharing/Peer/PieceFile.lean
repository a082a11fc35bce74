import P2PFileSharing.Library.Chunk
import P2PFileSharing.Peer.UploadServer

/-!
# Pieces in a file

`write_piece` puts a downloaded piece at its place in the file, wherever the file ends now. The
pieces that an upload server reads, written in any order, put its file together.
-/

namespace P2PFileSharing.Peer

open Library

namespace FStream

/-- `seekp(pos)`: a file stream has one position for reading and writing. Unlike `seekg` it does
nothing on a failed stream, and does not throw. -/
def seekp (pos : Int) : Action FStream ExnClass Unit := do
  if (← Action.get).failed then return
  else seekg pos

/-- `write(buf, count)` of the `count` bytes of `data`, flushed. Behind the end of the file the gap
is filled with zeros. Nothing is written through a failed stream, and nothing thrown. -/
def write (data : BString) : Action FStream ExnClass Unit := do
  if (← Action.get).failed then return
  else Action.modify fun s =>
    { s with content := patch 0 s.pos data s.content, pos := s.pos + data.length }

theorem seekp_run (content : BString) (old : Nat) (pos : Int) :
    seekp pos ⟨content, old, false⟩ = seekg pos ⟨content, old, false⟩ := by
  rw [seekp, Action.get_bind_run, if_neg Bool.false_ne_true]

end FStream

/-- `downloader::write_piece` -/
def writePiece (pieceId : Int) (data : BString) : Action FStream ExnClass Unit := do
  FStream.seekp (toInt64 (pieceId * pieceLength))
  FStream.write data

theorem writePiece_run {i : Nat} (hi : i * pieceLength < 2 ^ 63) (data content : BString)
    (old : Nat) :
    writePiece i data ⟨content, old, false⟩ =
      (.ok (), ⟨patch 0 (i * pieceLength) data content, i * pieceLength + data.length, false⟩) := by
  have hpos : toInt64 ((i : Int) * pieceLength) = (i * pieceLength : Nat) := by
    rw [toInt64_eq_self] <;> omega
  have hseek : FStream.seekp (i * pieceLength : Nat) ⟨content, old, false⟩ =
      (.ok (), ⟨content, i * pieceLength, false⟩) :=
    (FStream.seekp_run content old _).trans (FStream.seekg_run content old _)
  rw [writePiece, hpos, Action.bind_of_ok hseek]
  rfl

/-- Through a failed stream, `write_piece` returns and has written nothing. -/
theorem writePiece_failed (i : Int) (data content : BString) (old : Nat) :
    writePiece i data ⟨content, old, true⟩ = (.ok (), ⟨content, old, true⟩) := rfl

/-- For the id of a piece `write_piece` returns, and the piece is in the file unless the stream has
failed before. -/
theorem writePiece_returns {i : Nat} (hi : i * pieceLength < 2 ^ 63) (data : BString)
    (fs : FStream) : ∃ fs', writePiece i data fs = (.ok (), fs') ∧ fs'.failed = fs.failed ∧
      fs'.content = if fs.failed then fs.content
        else patch 0 (i * pieceLength) data fs.content := by
  obtain ⟨content, old, failed⟩ := fs
  cases failed with
  | true => exact ⟨_, writePiece_failed i data content old, rfl, (if_pos rfl).symm⟩
  | false =>
    exact ⟨_, writePiece_run hi data content old, rfl, (if_neg Bool.false_ne_true).symm⟩

theorem piece_eq_chunk (content : BString) (i : Nat) :
    UploadServer.piece content i = chunk pieceLength i content := rfl

/-! ## From one file to another -/

/-- `write_piece(i, read_piece(i))` for each id of a list in its turn, where the pieces are read by
an upload server and written to another stream. -/
def copyPieces : List Nat → Action (UploadServer × FStream) ExnClass Unit
  | [] => pure ()
  | i :: ids => do
    let data ← Action.onFst (UploadServer.readPiece i)
    Action.onSnd (writePiece i data)
    copyPieces ids

/-- The pieces are written over what is there, in the order of the list. -/
theorem copyPieces_run {content : BString} {ids : List Nat}
    (hids : ∀ i ∈ ids, i < chunkCount pieceLength content) (hint : ∀ i ∈ ids, i < 2 ^ 31)
    {server : UploadServer} {file : FStream} (hserver : server.tsfs.content = content ∧
      server.tsfs.failed = false) (hfile : file.failed = false) :
    ∃ server' file', copyPieces ids (server, file) = (.ok (), server', file') ∧
      file'.content = ids.foldl (fun written i =>
        patch 0 (i * pieceLength) (chunk pieceLength i content) written) file.content := by
  induction ids generalizing server file with
  | nil => exact ⟨server, file, rfl, rfl⟩
  | cons i ids ih =>
    obtain ⟨hi, hids⟩ := List.forall_mem_cons.mp hids
    obtain ⟨hlt, hint⟩ := List.forall_mem_cons.mp hint
    obtain ⟨⟨bytes, old, _⟩, buf⟩ := server
    obtain ⟨rfl, rfl⟩ := hserver
    obtain ⟨start, pos, _⟩ := file
    cases hfile
    have hsize := UploadServer.mul_pieceLength_lt hlt
    have hstart : i * pieceLength < bytes.length := (lt_chunkCount (by decide)).mp hi
    obtain ⟨old', buf', hread⟩ := UploadServer.readPiece_run hstart hsize old buf
    have hwrite := writePiece_run hsize (UploadServer.piece bytes i) start pos
    rw [piece_eq_chunk] at hread hwrite
    rw [List.foldl_cons, copyPieces, Action.bind_of_ok (Action.onFst_of_ok hread _),
      Action.bind_of_ok (Action.onSnd_of_ok hwrite _)]
    exact ih hids hint ⟨rfl, rfl⟩ rfl

/-- The pieces of a file, read and written in any order and each as often as one likes, put the
file together when all of them are among them. -/
theorem reassembly_independent_of_order {ids : List Nat} {server : UploadServer} {file : FStream}
    (hids : ∀ i ∈ ids, i < chunkCount pieceLength server.tsfs.content)
    (hint : ∀ i ∈ ids, i < 2 ^ 31)
    (hcover : ∀ i < chunkCount pieceLength server.tsfs.content, i ∈ ids)
    (hserver : server.tsfs.failed = false) (hfile : file.failed = false)
    (hstart : file.content.length ≤ server.tsfs.content.length) :
    ∃ server' file', copyPieces ids (server, file) = (.ok (), server', file') ∧
      file'.content = server.tsfs.content := by
  obtain ⟨server', file', hrun, hcontent⟩ := copyPieces_run hids hint ⟨rfl, hserver⟩ hfile
  rw [foldl_patch_chunk (by decide) hids hcover hstart] at hcontent
  exact ⟨server', file', hrun, hcontent⟩

/-- The second piece of a file, the first one, and the second one again. -/
theorem two_pieces_backwards : ∃ server' file', copyPieces [1, 0, 1]
    (⟨⟨List.replicate (pieceLength + 1) 7, 0, false⟩, []⟩, ⟨[], 0, false⟩) =
      (.ok (), server', file') ∧ file'.content = List.replicate (pieceLength + 1) 7 := by
  have hcount : chunkCount pieceLength (List.replicate (pieceLength + 1) (7 : UInt8)) = 2 := by
    rw [chunkCount, List.length_replicate]
    decide
  refine reassembly_independent_of_order ?_ ?_ ?_ rfl rfl (Nat.zero_le _)
  · rw [hcount]
    decide
  · decide
  · rw [hcount]
    decide

end P2PFileSharing.Peer
