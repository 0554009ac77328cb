import Crossbow.Protocol.Calls
import Crossbow.Protocol.Server

/-! Bounds of the socket reads against any peer. The recorded size and the length of the
array are changed apart from each other; each read and each copy is logged with both of them
as they are at that moment. -/
namespace Crossbow.Protocol.Bounds
open Kernel Serving Calling

/-- An `async_read_some` at `bytesRead` for `asked` bytes. -/
structure Access where
  bytesRead : Nat
  asked : Nat
  recorded : Nat
  allocated : Nat
  deriving DecidableEq, Repr

structure Copy where
  length : Nat
  source : Nat
  target : Nat
  deriving DecidableEq, Repr

structure Log where
  accesses : List Access
  copies : List Copy
  deriving DecidableEq, Repr

def Access.InBounds (access : Access) : Prop :=
  access.bytesRead ≤ access.recorded ∧ access.recorded ≤ access.allocated ∧
    access.bytesRead + access.asked ≤ access.allocated

def Copy.InBounds (copy : Copy) : Prop := copy.length ≤ copy.source ∧ copy.length ≤ copy.target

def Log.InBounds (log : Log) : Prop :=
  (∀ access ∈ log.accesses, access.InBounds) ∧ ∀ copy ∈ log.copies, copy.InBounds

def Log.append (log : Log) (accesses : List Access) (copies : List Copy) : Log :=
  ⟨log.accesses ++ accesses, log.copies ++ copies⟩

theorem Log.InBounds.append {log : Log} (hlog : log.InBounds) {accesses : List Access}
    {copies : List Copy} (haccesses : ∀ access ∈ accesses, access.InBounds)
    (hcopies : ∀ copy ∈ copies, copy.InBounds) : (log.append accesses copies).InBounds :=
  ⟨List.forall_mem_append.mpr ⟨hlog.1, haccesses⟩, List.forall_mem_append.mpr ⟨hlog.2, hcopies⟩⟩

/-- The copy that both sides make when the size at the front of the buffer is larger than
the recorded one. -/
def growth (buffer : Memory) (recorded allocated bytesRead : Nat) : List Copy :=
  let size := decodeLE (load buffer 0 8)
  if bytesRead ≥ 8 ∧ size ≠ bytesRead ∧ size > recorded then [⟨recorded, allocated, size⟩] else []

variable {bytesRead : Nat}

theorem growth_inBounds {buffer : Memory} {recorded allocated : Nat}
    (hrecorded : recorded ≤ allocated) :
    ∀ copy ∈ growth buffer recorded allocated bytesRead, copy.InBounds := by
  intro copy hcopy
  simp only [growth] at hcopy
  split at hcopy
  · rename_i hgrows
    cases List.mem_singleton.mp hcopy
    exact ⟨hrecorded, Nat.le_of_lt hgrows.2.2⟩
  · contradiction

theorem decodeLE_load_lt (buffer : Memory) : decodeLE (load buffer 0 8) < wordRange := by
  have hlt := decodeLE_lt (load buffer 0 8)
  rwa [length_load] at hlt

/-! ### The server -/

structure ServerRun where
  server : Server
  log : Log

/-- The reads that follow. After `io_service::stop` one is started too, although its handler
does not run. -/
def serverAccess (server : Server) : List Access :=
  match server.phase with
  | .reading bytesRead =>
      [⟨bytesRead, server.readSize bytesRead, server.mBufSize, server.allocated⟩]
  | .stopped => [⟨0, server.readSize 0, server.mBufSize, server.allocated⟩]
  | .executing | .responding => []

def ServerRun.read (run : ServerRun) (bytesRead : Nat) (fresh : Memory) : ServerRun :=
  let server := run.server.read bytesRead fresh
  ⟨server, run.log.append (serverAccess server)
    (growth run.server.mBuffer run.server.mBufSize run.server.allocated bytesRead)⟩

inductive ServerLabel where
  | deliver (bytes : List UInt8) (fresh : Memory)
  | respondVoid
  | respond (size : Nat) (payload : List UInt8) (fresh : Memory)
  | written (fresh : Memory)
  | fail
  | quit

def serverNext (run : ServerRun) : ServerLabel → Option ServerRun
  | .deliver bytes fresh =>
      match run.server.phase with
      | .reading bytesRead =>
          if bytes.length ≤ run.server.readSize bytesRead then
            some (ServerRun.read ⟨run.server.receive bytesRead bytes, run.log⟩
              (bytesRead + bytes.length) fresh)
          else none
      | _ => none
  | .respondVoid =>
      match run.server.phase with
      | .executing => some { run with server := run.server.respondVoid }
      | _ => none
  | .respond size payload fresh =>
      match run.server.phase with
      | .executing => some { run with server := run.server.respond size payload fresh }
      | _ => none
  | .written fresh =>
      match run.server.phase with
      | .responding => some (run.read 0 fresh)
      | _ => none
  | .fail => some { run with server := { run.server with phase := .stopped } }
  | .quit => some { run with server := { run.server with doQuit := true } }

def serverMachine : Machine ServerRun ServerLabel where
  initial := fun run => ∃ mBuffer fresh,
    run = ServerRun.read ⟨⟨1024, mBuffer, 1024, false, .responding, []⟩, ⟨[], []⟩⟩ 0 fresh
  next := serverNext

structure ServerRun.Inv (run : ServerRun) : Prop where
  recorded : run.server.mBufSize ≤ run.server.allocated
  range : run.server.mBufSize < wordRange
  reading : ∀ bytesRead, run.server.phase = .reading bytesRead → bytesRead ≤ run.server.mBufSize
  log : run.log.InBounds

theorem serverAccess_inBounds {server : Server} (hrecorded : server.mBufSize ≤ server.allocated)
    (hrange : server.mBufSize < wordRange)
    (hreading : ∀ bytesRead, server.phase = .reading bytesRead → bytesRead ≤ server.mBufSize) :
    ∀ access ∈ serverAccess server, access.InBounds := by
  intro access haccess
  have hroom : ∀ bytesRead ≤ server.mBufSize, Access.InBounds
      ⟨bytesRead, server.readSize bytesRead, server.mBufSize, server.allocated⟩ := by
    intro bytesRead hle
    refine ⟨hle, hrecorded, ?_⟩
    rw [Server.readSize, wrapSub_of_le hle hrange, Nat.add_sub_of_le hle]
    exact hrecorded
  unfold serverAccess at haccess
  split at haccess
  · rename_i bytesRead hphase
    cases List.mem_singleton.mp haccess
    exact hroom bytesRead (hreading bytesRead hphase)
  · cases List.mem_singleton.mp haccess
    exact hroom 0 (Nat.zero_le _)
  · contradiction
  · contradiction

theorem read_sizes (server : Server) (fresh : Memory)
    (hrecorded : server.mBufSize ≤ server.allocated) (hrange : server.mBufSize < wordRange)
    (hroom : bytesRead ≤ server.mBufSize) :
    (server.read bytesRead fresh).mBufSize ≤ (server.read bytesRead fresh).allocated ∧
      (server.read bytesRead fresh).mBufSize < wordRange ∧
      ∀ count, (server.read bytesRead fresh).phase = .reading count →
        count ≤ (server.read bytesRead fresh).mBufSize := by
  unfold Server.read
  split
  · exact ⟨hrecorded, hrange, by simp⟩
  · have hword : (if bytesRead ≠ 0 then decodeLE (load server.mBuffer 0 8) else 0) < wordRange := by
      split
      · exact decodeLE_load_lt _
      · exact wordRange_pos
    generalize (if bytesRead ≠ 0 then decodeLE (load server.mBuffer 0 8) else 0) = reqSize
      at hword ⊢
    dsimp only
    split
    · exact ⟨hrecorded, hrange, by simp⟩
    · split
      · rename_i hgrows
        refine ⟨Nat.le_refl _, hword, ?_⟩
        rintro count ⟨rfl⟩
        exact hroom.trans (Nat.le_of_lt hgrows.2)
      · refine ⟨hrecorded, hrange, ?_⟩
        rintro count ⟨rfl⟩
        exact hroom

theorem ServerRun.read_inv (run : ServerRun) (fresh : Memory)
    (hrecorded : run.server.mBufSize ≤ run.server.allocated)
    (hrange : run.server.mBufSize < wordRange) (hroom : bytesRead ≤ run.server.mBufSize)
    (hlog : run.log.InBounds) : (run.read bytesRead fresh).Inv := by
  obtain ⟨hsizes, hword, hreading⟩ := read_sizes run.server fresh hrecorded hrange hroom
  refine ⟨hsizes, hword, hreading, ?_⟩
  exact hlog.append (serverAccess_inBounds hsizes hword hreading) (growth_inBounds hrecorded)

theorem ServerRun.Inv.next {run after : ServerRun} {label : ServerLabel} (hinv : run.Inv)
    (hnext : serverNext run label = some after) : after.Inv := by
  obtain ⟨hrecorded, hrange, hreading, hlog⟩ := hinv
  cases label with
  | deliver bytes fresh =>
      simp only [serverNext] at hnext
      split at hnext
      · rename_i bytesRead hphase
        split at hnext
        · rename_i hasked
          cases hnext
          have hroom := hreading bytesRead hphase
          rw [Server.readSize, wrapSub_of_le hroom hrange] at hasked
          exact ServerRun.read_inv ⟨run.server.receive bytesRead bytes, run.log⟩ fresh hrecorded
            hrange
            (show bytesRead + bytes.length ≤ run.server.mBufSize by omega) hlog
        · contradiction
      · contradiction
  | respondVoid =>
      simp only [serverNext] at hnext
      split at hnext
      · cases hnext
        exact ⟨hrecorded, hrange, by simp [Server.respondVoid], hlog⟩
      · contradiction
  | respond size payload fresh =>
      simp only [serverNext] at hnext
      split at hnext
      · cases hnext
        refine ⟨?_, hrange, by simp [Server.respond], hlog⟩
        -- the array grows past the recorded size, or stays
        dsimp only [Server.respond]
        split
        · rename_i hgrows
          exact Nat.le_of_lt hgrows
        · exact hrecorded
      · contradiction
  | written fresh =>
      simp only [serverNext] at hnext
      split at hnext
      · cases hnext
        exact run.read_inv fresh hrecorded hrange (Nat.zero_le _) hlog
      · contradiction
  | fail =>
      cases hnext
      exact ⟨hrecorded, hrange, by simp, hlog⟩
  | quit =>
      cases hnext
      exact ⟨hrecorded, hrange, hreading, hlog⟩

theorem server_inBounds {run : ServerRun} (hreach : serverMachine.Reachable run) :
    run.log.InBounds := by
  have hinv : run.Inv := by
    apply hreach.invariant ServerRun.Inv
    · rintro _ ⟨mBuffer, fresh, rfl⟩
      exact ServerRun.read_inv _ fresh (Nat.le_refl _) (show 1024 < wordRange by decide)
        (Nat.zero_le _) ⟨by simp, by simp⟩
    · intro before label after hinv _ hnext
      exact hinv.next hnext
  exact hinv.log

/-! ### The client -/

structure Pending where
  bytesRead : Nat
  asked : Nat
  array : Nat
  deriving DecidableEq, Repr

/-- `array` counts the allocations and `writes` the requests that are being written. -/
structure ClientRun where
  client : Client
  array : Nat
  writes : Nat
  reads : List Pending
  log : Log

/-- `readResponse(callback, bytes_read)`; a complete response only runs the callback. -/
def ClientRun.readResponse (run : ClientRun) (bytesRead : Nat) (fresh : Memory) : ClientRun :=
  let (client, complete) := run.client.readResponse bytesRead fresh
  let copies :=
    growth run.client.mCurrentRequest run.client.mCurrSize run.client.allocated bytesRead
  let array := run.array + copies.length
  let asked := client.readSize bytesRead
  if complete then { run with client := client }
  else { run with
    client := client
    array := array
    reads := run.reads ++ [⟨bytesRead, asked, array⟩]
    log := run.log.append [⟨bytesRead, asked, client.mCurrSize, client.allocated⟩] copies }

/-- The peer sends any bytes, and commands may be issued while others are outstanding. -/
inductive ClientLabel where
  | execute (request : List UInt8) (fresh : Memory)
  | written (fresh : Memory)
  | writeFailed
  | deliver (index : Nat) (bytes : List UInt8) (fresh : Memory)
  | readFailed (index : Nat)

def clientNext (run : ClientRun) : ClientLabel → Option ClientRun
  | .execute request fresh =>
      if request.length < wordRange then
        some { run with
          client := run.client.writeRequest request fresh
          array := if run.client.mCurrSize < request.length then run.array + 1 else run.array
          writes := run.writes + 1 }
      else none
  | .written fresh =>
      if run.writes = 0 then none
      else some (ClientRun.readResponse { run with writes := run.writes - 1 } 0 fresh)
  | .writeFailed => if run.writes = 0 then none else some { run with writes := run.writes - 1 }
  | .deliver index bytes fresh =>
      match run.reads[index]? with
      | some read =>
          if bytes.length ≤ read.asked then
            -- a read into an array that was replaced does not reach the new one
            let client := if read.array = run.array then run.client.receive read.bytesRead bytes
              else run.client
            some (ClientRun.readResponse
              { run with client := client, reads := run.reads.eraseIdx index }
              (read.bytesRead + bytes.length) fresh)
          else none
      | none => none
  | .readFailed index =>
      match run.reads[index]? with
      | some _ => some { run with reads := run.reads.eraseIdx index }
      | none => none

def clientMachine : Machine ClientRun ClientLabel where
  initial := fun run => ∃ mCurrentRequest,
    run = ⟨⟨1024, mCurrentRequest, 1024⟩, 0, 0, [], ⟨[], []⟩⟩
  next := clientNext

structure ClientRun.Inv (run : ClientRun) : Prop where
  recorded : run.client.mCurrSize ≤ run.client.allocated
  range : run.client.mCurrSize < wordRange
  reads : ∀ read ∈ run.reads, read.bytesRead + read.asked ≤ run.client.mCurrSize
  log : run.log.InBounds

theorem readResponse_sizes (client : Client) (bytesRead : Nat) (fresh : Memory)
    (hrecorded : client.mCurrSize ≤ client.allocated) :
    (client.readResponse bytesRead fresh).1.mCurrSize = client.mCurrSize ∧
      client.mCurrSize ≤ (client.readResponse bytesRead fresh).1.allocated := by
  unfold Client.readResponse
  dsimp only
  split
  · exact ⟨rfl, hrecorded⟩
  · split
    · rename_i hgrows
      exact ⟨rfl, Nat.le_of_lt hgrows.2⟩
    · exact ⟨rfl, hrecorded⟩

variable {run : ClientRun}

theorem ClientRun.Inv.readResponse (hinv : run.Inv) (hroom : bytesRead ≤ run.client.mCurrSize)
    (fresh : Memory) :
    (run.readResponse bytesRead fresh).Inv := by
  obtain ⟨hsame, hsizes⟩ := readResponse_sizes run.client bytesRead fresh hinv.recorded
  have hasked : bytesRead + (run.client.readResponse bytesRead fresh).1.readSize bytesRead =
      run.client.mCurrSize := by
    rw [Client.readSize, hsame, wrapSub_of_le hroom hinv.range, Nat.add_sub_of_le hroom]
  have hrecorded : (run.client.readResponse bytesRead fresh).1.mCurrSize ≤
      (run.client.readResponse bytesRead fresh).1.allocated := hsame.trans_le hsizes
  have hreads : ∀ read ∈ run.reads, read.bytesRead + read.asked ≤
      (run.client.readResponse bytesRead fresh).1.mCurrSize := by
    rw [hsame]
    exact hinv.reads
  unfold ClientRun.readResponse
  dsimp only
  split
  · exact ⟨hrecorded, hsame.trans_lt hinv.range, hreads, hinv.log⟩
  · refine ⟨hrecorded, hsame.trans_lt hinv.range, ?_, ?_⟩
    · exact List.forall_mem_append.mpr
        ⟨hreads, List.forall_mem_singleton.mpr (hasked.trans hsame.symm).le⟩
    · apply hinv.log.append
      · exact List.forall_mem_singleton.mpr
          ⟨hroom.trans hsame.ge, hrecorded, hasked.trans_le hsizes⟩
      · exact growth_inBounds hinv.recorded

theorem ClientRun.Inv.execute (hinv : run.Inv) {request : List UInt8}
    (hrequest : request.length < wordRange) (fresh : Memory) (array writes : Nat) :
    ClientRun.Inv { run with
      client := run.client.writeRequest request fresh
      array := array
      writes := writes } := by
  unfold Client.writeRequest
  split
  · rename_i hgrows
    refine ⟨Nat.le_refl _, hrequest, ?_, hinv.log⟩
    intro read hread
    exact (hinv.reads read hread).trans (Nat.le_of_lt hgrows)
  · exact ⟨hinv.recorded, hinv.range, hinv.reads, hinv.log⟩

theorem ClientRun.Inv.next {after : ClientRun} {label : ClientLabel} (hinv : run.Inv)
    (hnext : clientNext run label = some after) : after.Inv := by
  cases label with
  | execute request fresh =>
      simp only [clientNext] at hnext
      split at hnext
      · rename_i hrequest
        cases hnext
        exact hinv.execute hrequest fresh _ _
      · contradiction
  | written fresh =>
      simp only [clientNext] at hnext
      split at hnext
      · contradiction
      · cases hnext
        have hkeep : ClientRun.Inv { run with writes := run.writes - 1 } :=
          ⟨hinv.recorded, hinv.range, hinv.reads, hinv.log⟩
        exact hkeep.readResponse (Nat.zero_le _) fresh
  | writeFailed =>
      simp only [clientNext] at hnext
      split at hnext
      · contradiction
      · cases hnext
        exact ⟨hinv.recorded, hinv.range, hinv.reads, hinv.log⟩
  | deliver index bytes fresh =>
      simp only [clientNext] at hnext
      split at hnext
      · rename_i read hread
        split at hnext
        · rename_i hasked
          cases hnext
          have hroom := hinv.reads read (List.mem_of_getElem? hread)
          have hrest : ∀ other ∈ run.reads.eraseIdx index,
              other.bytesRead + other.asked ≤ run.client.mCurrSize :=
            fun other hother => hinv.reads other (List.mem_of_mem_eraseIdx hother)
          split
          · have hkeep : ClientRun.Inv { run with
                client := run.client.receive read.bytesRead bytes
                reads := run.reads.eraseIdx index } :=
              ⟨hinv.recorded, hinv.range, hrest, hinv.log⟩
            exact hkeep.readResponse ((Nat.add_le_add_left hasked _).trans hroom) fresh
          · have hkeep : ClientRun.Inv { run with reads := run.reads.eraseIdx index } :=
              ⟨hinv.recorded, hinv.range, hrest, hinv.log⟩
            exact hkeep.readResponse ((Nat.add_le_add_left hasked _).trans hroom) fresh
        · contradiction
      · contradiction
  | readFailed index =>
      simp only [clientNext] at hnext
      split at hnext
      · cases hnext
        exact ⟨hinv.recorded, hinv.range,
          fun other hother => hinv.reads other (List.mem_of_mem_eraseIdx hother), hinv.log⟩
      · contradiction

theorem client_inBounds (hreach : clientMachine.Reachable run) :
    run.log.InBounds := by
  have hinv : run.Inv := by
    apply hreach.invariant ClientRun.Inv
    · rintro _ ⟨mCurrentRequest, rfl⟩
      exact ⟨Nat.le_refl _, show 1024 < wordRange by decide, by simp, by simp, by simp⟩
    · intro before label after hinv _ hnext
      exact hinv.next hnext
  exact hinv.log

/-- Whatever the peer sends, every read and every copy of both sides stays inside the arrays. -/
theorem buffers_never_overrun :
    (∀ run, serverMachine.Reachable run → run.log.InBounds) ∧
      ∀ run, clientMachine.Reachable run → run.log.InBounds :=
  ⟨fun _ => server_inBounds, fun _ => client_inBounds⟩

/-- Both sides get a size of 2000 and grow; the server goes on reading past 1024 bytes. -/
theorem grown_buffers_in_bounds :
    (∃ run, serverMachine.Reachable run ∧ run.log.copies = [⟨1024, 1024, 2000⟩] ∧
        ⟨1100, 900, 2000, 2000⟩ ∈ run.log.accesses ∧ run.log.InBounds) ∧
      ∃ run, clientMachine.Reachable run ∧ run.log.copies = [⟨1024, 1024, 2000⟩] ∧
        ⟨8, 1016, 1024, 2000⟩ ∈ run.log.accesses ∧ run.log.InBounds := by
  constructor
  · obtain ⟨run, hreach, htest⟩ := Machine.exists_reachable_of_replay serverMachine
      (ServerRun.read ⟨⟨1024, fun _ => 0, 1024, false, .responding, []⟩, ⟨[], []⟩⟩ 0 fun _ => 0)
      [.deliver (natLE 8 2000) fun _ => 0, .deliver (List.replicate 1092 0) fun _ => 0]
      (fun run => decide (run.log.copies = [⟨1024, 1024, 2000⟩] ∧
        ⟨1100, 900, 2000, 2000⟩ ∈ run.log.accesses)) ⟨_, _, rfl⟩ (by decide +kernel)
    obtain ⟨hcopies, haccess⟩ := of_decide_eq_true htest
    exact ⟨run, hreach, hcopies, haccess, buffers_never_overrun.1 run hreach⟩
  · obtain ⟨run, hreach, htest⟩ := Machine.exists_reachable_of_replay clientMachine
      ⟨⟨1024, fun _ => 0, 1024⟩, 0, 0, [], ⟨[], []⟩⟩
      [.execute (List.replicate 12 0) fun _ => 0, .written fun _ => 0,
        .deliver 0 (natLE 8 2000) fun _ => 0]
      (fun run => decide (run.log.copies = [⟨1024, 1024, 2000⟩] ∧
        ⟨8, 1016, 1024, 2000⟩ ∈ run.log.accesses)) ⟨_, rfl⟩ (by decide +kernel)
    obtain ⟨hcopies, haccess⟩ := of_decide_eq_true htest
    exact ⟨run, hreach, hcopies, haccess, buffers_never_overrun.2 run hreach⟩

end Crossbow.Protocol.Bounds
