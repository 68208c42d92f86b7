import InferenceServer.Lib.Channels
import InferenceServer.Lib.Run

/-!
# Broadcast through shared memory

`MessageQueue` broadcasts objects from one writer to the readers of one machine
(`vllm/distributed/device_communicators/shm_broadcast.py`). Its ring buffer has a number of chunks,
each with a byte that says whether it is written and a byte for each reader that says whether that
reader has read it. There are no locks: the writer and the readers poll these bytes, and each of them
goes around the ring with an index of its own. An object that is too large for a chunk is sent on a
socket, and its chunk holds a mark only.

A step is one access to one byte of the metadata, or to the data of one chunk, by one process; it
comes with what that process computes from it alone. The sockets are lossless and keep the order of
the messages of each reader. There are no timeouts, so that a process whose condition does not hold
polls again, and there are no remote readers. Pickling is left out: a chunk holds the object that was
pickled into it, and only the size of its pickle counts.
-/

namespace InferenceServer.Distributed

/-- The data of a chunk: the first byte, and what is pickled into the rest. -/
structure Chunk (α : Type) where
  overflow : Bool := false
  obj : Option α := none
  deriving DecidableEq, Repr

/-- Where the writer is in `enqueue` of an object. -/
inductive WriterPc (α : Type) where
  | idle
  /-- `sum(metadata_buffer[1:])`: the first `i` flags have been read, `count` of them were set. -/
  | countReads (obj : α) (i count : Nat)
  | checkWritten (obj : α) (readCount : Nat)
  | clearWritten (obj : α)
  | writeChunk (obj : α)
  /-- The first `i` flags of the readers have been reset. -/
  | clearReads (obj : α) (i : Nat)
  | setWritten (obj : α)
  | send (obj : α)
  deriving DecidableEq, Repr

/-- Where a reader is in `dequeue`. -/
inductive ReaderPc (α : Type) where
  | idle
  | checkRead
  | checkWritten (readFlag : Bool)
  | readChunk
  /-- The object in the chunk was loaded, `none` if the chunk is marked. -/
  | setRead (obj : Option α)
  | recv
  deriving DecidableEq, Repr

/-- Why a step is not possible. -/
inductive QueueError where
  /-- The process has nothing to do, or waits on its socket. -/
  | blocked
  /-- A chunk is loaded that holds no object. -/
  | unpicklingError
  deriving DecidableEq, Repr

/-- A message queue with `n` readers. -/
structure MessageQueue (n : Nat) (α : Type) where
  writtenFlag : Nat → Bool := fun _ => false
  readFlag : Nat → Fin n → Bool := fun _ _ => false
  chunks : Nat → Chunk α := fun _ => {}
  sockets : Channels (Fin n) α := .empty
  writer : WriterPc α := .idle
  /-- `current_idx` of the writer. -/
  writerIdx : Nat := 0
  reader : Fin n → ReaderPc α := fun _ => .idle
  /-- `current_idx` of the readers. -/
  readerIdx : Fin n → Nat := fun _ => 0
  /-- History: the objects that `enqueue` was called with. -/
  enqueued : List α := []
  /-- History: the objects that `dequeue` has returned. -/
  dequeued : Fin n → List α := fun _ => []
  /-- History: how many chunks have been marked as written. -/
  published : Nat := 0
  /-- History: how many chunks the readers have marked as read. -/
  finished : Fin n → Nat := fun _ => 0

/-- A process starts a call, or makes a step. -/
inductive QueueOp (n : Nat) (α : Type) where
  | enqueue (obj : α)
  | write
  | dequeue (r : Fin n)
  | read (r : Fin n)
  deriving DecidableEq, Repr

namespace MessageQueue

variable {n : Nat} {α : Type} (maxChunks : Nat) (maxChunkBytes : Nat) (size : α → Nat)

/-- `len(serialized_obj) >= max_chunk_bytes`. -/
def overflows (obj : α) : Bool := maxChunkBytes ≤ size obj

/-- `acquire_write`, with the rest of `enqueue`: the next step of the writer. -/
def write (s : MessageQueue n α) : Except QueueError (MessageQueue n α) :=
  match s.writer with
  | .idle => .error .blocked
  | .countReads obj i count =>
    if h : i < n then
      .ok { s with
        writer := .countReads obj (i + 1) (count + (s.readFlag s.writerIdx ⟨i, h⟩).toNat) }
    else .ok { s with writer := .checkWritten obj count }
  | .checkWritten obj readCount =>
    if s.writtenFlag s.writerIdx = true ∧ readCount ≠ n then
      .ok { s with writer := .countReads obj 0 0 }
    else .ok { s with writer := .clearWritten obj }
  | .clearWritten obj =>
    .ok { s with
      writtenFlag := Function.update s.writtenFlag s.writerIdx false
      writer := .writeChunk obj }
  | .writeChunk obj =>
    -- the mark alone is written for a large object
    let chunk : Chunk α :=
      if overflows maxChunkBytes size obj then { s.chunks s.writerIdx with overflow := true }
      else { overflow := false, obj := some obj }
    .ok { s with
      chunks := Function.update s.chunks s.writerIdx chunk
      writer := .clearReads obj 0 }
  | .clearReads obj i =>
    if h : i < n then
      .ok { s with
        readFlag := Function.update s.readFlag s.writerIdx
          (Function.update (s.readFlag s.writerIdx) ⟨i, h⟩ false)
        writer := .clearReads obj (i + 1) }
    else .ok { s with writer := .setWritten obj }
  | .setWritten obj =>
    .ok { s with
      writtenFlag := Function.update s.writtenFlag s.writerIdx true
      writerIdx := (s.writerIdx + 1) % maxChunks
      published := s.published + 1
      writer := if overflows maxChunkBytes size obj then .send obj else .idle }
  | .send obj => .ok { s with sockets := s.sockets.broadcast obj, writer := .idle }

/-- A reader goes on to `pc`. -/
def goTo (s : MessageQueue n α) (r : Fin n) (pc : ReaderPc α) : MessageQueue n α :=
  { s with reader := Function.update s.reader r pc }

/-- A call of `dequeue` returns. -/
def returns (s : MessageQueue n α) (r : Fin n) (obj : α) : MessageQueue n α :=
  { s with
    reader := Function.update s.reader r .idle
    dequeued := Function.update s.dequeued r (s.dequeued r ++ [obj]) }

/-- The chunk is marked as read, and the reader goes to the next one. -/
def finish (s : MessageQueue n α) (r : Fin n) : MessageQueue n α :=
  { s with
    readFlag := Function.update s.readFlag (s.readerIdx r)
      (Function.update (s.readFlag (s.readerIdx r)) r true)
    readerIdx := Function.update s.readerIdx r ((s.readerIdx r + 1) % maxChunks)
    finished := Function.update s.finished r (s.finished r + 1) }

/-- `acquire_read`, with the rest of `dequeue`: the next step of a reader. -/
def read (s : MessageQueue n α) (r : Fin n) : Except QueueError (MessageQueue n α) :=
  match s.reader r with
  | .idle => .error .blocked
  | .checkRead => .ok (s.goTo r (.checkWritten (s.readFlag (s.readerIdx r) r)))
  | .checkWritten readFlag =>
    if s.writtenFlag (s.readerIdx r) = false ∨ readFlag = true then .ok (s.goTo r .checkRead)
    else .ok (s.goTo r .readChunk)
  | .readChunk =>
    match s.chunks (s.readerIdx r) with
    | { overflow := true, .. } => .ok (s.goTo r (.setRead none))
    | { overflow := false, obj := some obj } => .ok (s.goTo r (.setRead (some obj)))
    | { overflow := false, obj := none } => .error .unpicklingError
  | .setRead none => .ok ((s.finish maxChunks r).goTo r .recv)
  | .setRead (some obj) => .ok ((s.finish maxChunks r).returns r obj)
  | .recv =>
    match s.sockets.receive r with
    | none => .error .blocked
    | some (obj, sockets) => .ok ({ s with sockets }.returns r obj)

/-- The step function. A process starts a call when its last one has returned. -/
def apply (s : MessageQueue n α) : QueueOp n α → Except QueueError (MessageQueue n α)
  | .enqueue obj =>
    match s.writer with
    | .idle => .ok { s with writer := .countReads obj 0 0, enqueued := s.enqueued ++ [obj] }
    | _ => .error .blocked
  | .write => s.write maxChunks maxChunkBytes size
  | .dequeue r =>
    match s.reader r with
    | .idle => .ok (s.goTo r .checkRead)
    | _ => .error .blocked
  | .read r => s.read maxChunks r

end MessageQueue

/-- All interleavings of the steps of the writer and of `n` readers. -/
def messageQueueMachine (n : Nat) {α : Type} (maxChunks maxChunkBytes : Nat) (size : α → Nat) :
    Machine (MessageQueue n α) (QueueOp n α) QueueError where
  init := {}
  step := MessageQueue.apply maxChunks maxChunkBytes size

end InferenceServer.Distributed
