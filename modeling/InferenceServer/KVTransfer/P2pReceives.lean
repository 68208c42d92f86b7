import InferenceServer.KVTransfer.TensorMemoryPool

/-!
# Receives of the P2P connector

With `send_type` PUT or PUT_ASYNC, the listener of `P2pNcclEngine` (`p2p_nccl_engine.py`) enters the
tensors that arrive into `recv_store`. A tensor stays on the device while `buffer_size` is below the
threshold, and goes to a memory pool on the host otherwise; if the device is out of memory, `None` is
entered. `recv_tensor` reads an entry, and takes the size of a device tensor off `buffer_size`. The
entries of a request leave the store when it has finished (`get_finished`).

`buffer_size` is to be the size of the device tensors that have not been received. **It drifts in three
ways**: an entry that is received again is taken off again, one that is never received is not taken off
when it is cleaned up, and one that is replaced is neither taken off nor given back to the pool.

The threshold is an integer: sizes are compared with the floor of the float.
-/

namespace InferenceServer.KVTransfer

open Outcome

/-- A tensor, as far as its size goes. -/
structure DeviceTensor where
  elementSize : Nat
  shape : List Nat

def DeviceTensor.numel (t : DeviceTensor) : Nat := t.shape.prod

/-- `tensor.element_size() * tensor.numel()`. -/
def DeviceTensor.size (t : DeviceTensor) : Nat := t.elementSize * t.numel

/-- What is entered into `recv_store`. -/
inductive RecvEntry where
  | tensor (t : DeviceTensor)
  /-- `(addr, dtype, shape)`. -/
  | pooled (addr : Int) (t : DeviceTensor)
  | none

/-- An entry, and whether `recv_tensor` has read it. -/
structure Received where
  entry : RecvEntry
  /-- History. -/
  received : Bool := false

/-- The size of a device tensor. -/
def Received.size (e : Received) : Nat :=
  match e.entry with
  | .tensor t => t.size
  | _ => 0

/-- What `buffer_size` is to have for the entry. -/
def Received.owed (e : Received) : Int := if e.received then 0 else e.size

/-- The block of the pool that the entry has. -/
def Received.addr? (e : Received) : Option Int :=
  match e.entry with
  | .pooled addr _ => some addr
  | _ => none

namespace TensorMemoryPool

/-- `store_tensor`. The block is given back before it raises. -/
def storeTensor (p : TensorMemoryPool) (tensor : DeviceTensor) :
    Except PyError (Int × TensorMemoryPool) := do
  let (addr, p) ← p.allocate tensor.size
  match p.allocatedBlocks.get? addr with
  | none => .error .keyError
  | some block => do
    require (¬ block.size < tensor.size) .valueError
    return (addr, p)

/-- The checks of `load_tensor`. -/
def loadTensor (p : TensorMemoryPool) (addr : Int) (tensor : DeviceTensor) : Except PyError Unit :=
  match p.allocatedBlocks.get? addr with
  | none => .error .valueError
  | some block => require (¬ block.size < tensor.size) .valueError

end TensorMemoryPool

/-- The receiving side of `P2pNcclEngine`. -/
structure P2pReceiver where
  recvStore : Dict String Received := ∅
  bufferSize : Int := 0
  pool : TensorMemoryPool

inductive RecvOp where
  /-- A tensor arrives; the device may be out of memory. -/
  | put (tensorId : String) (tensor : DeviceTensor) (outOfMemory : Bool)
  | recvTensor (tensorId : String)
  | getFinished (finishedReqIds noCompileLayers : List String)

/-- The ids of the tensors of the requests. -/
def tensorIds (reqIds layers : List String) : List String :=
  reqIds.flatMap fun requestId => layers.map fun layerName => requestId ++ "#" ++ layerName

namespace P2pReceiver

variable (threshold : Int)

/-- `listen_for_requests`, for a PUT. -/
def put (s : P2pReceiver) (tensorId : String) (tensor : DeviceTensor) (outOfMemory : Bool) :
    Except PyError P2pReceiver :=
  if outOfMemory then .ok { s with recvStore := s.recvStore.set tensorId { entry := .none } }
  else if threshold < s.bufferSize + tensor.size then do
    let (addr, pool) ← s.pool.storeTensor tensor
    return { s with pool, recvStore := s.recvStore.set tensorId { entry := .pooled addr tensor } }
  else
    .ok { s with
      bufferSize := s.bufferSize + tensor.size
      recvStore := s.recvStore.set tensorId { entry := .tensor tensor } }

/-- `recv_tensor`. It waits for a tensor that is not there, so that there is no step. -/
def recvTensor (s : P2pReceiver) (tensorId : String) : Except PyError P2pReceiver :=
  match s.recvStore.get? tensorId with
  | none => .error .timeoutError
  | some e =>
    let s := { s with recvStore := s.recvStore.set tensorId { e with received := true } }
    match e.entry with
    | .tensor t => .ok { s with bufferSize := s.bufferSize - t.size }
    | .pooled addr t => do
      s.pool.loadTensor addr t
      return s
    | .none => .ok s

/-- One round of `get_finished`. -/
def cleanUp (tensorId : String) (s : P2pReceiver) : Except PyError P2pReceiver :=
  match s.recvStore.get? tensorId with
  | none => .ok s
  | some e => do
    let s := { s with recvStore := s.recvStore.erase tensorId }
    match e.entry with
    | .pooled addr _ => do
      let pool ← s.pool.free addr
      return { s with pool }
    | _ => return s

/-- `get_finished`. -/
def getFinished (s : P2pReceiver) (finishedReqIds noCompileLayers : List String) :
    Except PyError P2pReceiver :=
  threadM cleanUp (tensorIds finishedReqIds noCompileLayers) s

def step (s : P2pReceiver) : RecvOp → Except PyError P2pReceiver
  | .put tensorId tensor outOfMemory => s.put threshold tensorId tensor outOfMemory
  | .recvTensor tensorId => s.recvTensor tensorId
  | .getFinished finishedReqIds noCompileLayers => s.getFinished finishedReqIds noCompileLayers

/-- All runs of the receiving side. -/
def receiver (pool : TensorMemoryPool) : Machine P2pReceiver RecvOp PyError where
  init := { pool }
  step := step threshold

/-- **The receive buffer is accounted exactly.** -/
structure Accounted (s : P2pReceiver) : Prop where
  bufferSize : s.bufferSize = s.recvStore.total Received.owed
  nonneg : 0 ≤ s.bufferSize
  empty : s.recvStore = ∅ → s.bufferSize = 0
  pool : ∀ addr, addr ∈ s.pool.allocatedBlocks ↔ ∃ e ∈ s.recvStore.entries, e.2.addr? = some addr

end P2pReceiver

/-- Nothing is owed for an entry that is replaced or cleaned up, a replaced one has no block, and
what is received again has no size. -/
def RecvOp.Settles (s : P2pReceiver) : RecvOp → Prop
  | .put tensorId _ _ => ∀ e ∈ s.recvStore.get? tensorId, e.owed = 0 ∧ e.addr? = none
  | .recvTensor tensorId => ∀ e ∈ s.recvStore.get? tensorId, e.received = true → e.size = 0
  | .getFinished finishedReqIds noCompileLayers =>
    ∀ id ∈ tensorIds finishedReqIds noCompileLayers, ∀ e ∈ s.recvStore.get? id, e.owed = 0

instance (s : P2pReceiver) : DecidablePred fun op : RecvOp => op.Settles s
  | .put _ _ _ => inferInstanceAs (Decidable (∀ e ∈ _, _ ∧ _))
  | .recvTensor _ => inferInstanceAs (Decidable (∀ e ∈ _, _ → _))
  | .getFinished _ _ => inferInstanceAs (Decidable (∀ id ∈ _, ∀ e ∈ _, _))

namespace TensorMemoryPool

variable {p p' : TensorMemoryPool} {K : Nat} {addr : Int}

theorem Tiled.storeTensor (h : p.Tiled K) {tensor : DeviceTensor}
    (hstore : p.storeTensor tensor = .ok (addr, p')) : addr ∉ p.allocatedBlocks ∧
      (∀ a, a ∈ p'.allocatedBlocks ↔ a = addr ∨ a ∈ p.allocatedBlocks) ∧ p'.Tiled K := by
  obtain ⟨⟨addr₁, p₁⟩, halloc, hstore⟩ := bind_eq_ok.mp hstore
  obtain ⟨_, hpos, -⟩ := bind_eq_ok.mp halloc
  obtain ⟨herr, -⟩ | ⟨b, f, hok, -, -, hnew, h'⟩ := h.allocate (require_eq_ok.mp hpos)
  · exact nomatch herr.symm.trans halloc
  obtain ⟨rfl, rfl⟩ := Prod.mk.inj (Except.ok.inj (hok.symm.trans halloc))
  simp only [withAllocated, Dict.get?_set_self] at hstore
  obtain ⟨_, -, hstore⟩ := bind_eq_ok.mp hstore
  cases hstore
  exact ⟨hnew, fun a => Dict.mem_set, h'⟩

theorem Tiled.of_free (h : p.Tiled K) (hfree : p.free addr = .ok p') :
    (∀ a, a ∈ p'.allocatedBlocks ↔ a ≠ addr ∧ a ∈ p.allocatedBlocks) ∧ p'.Tiled K := by
  obtain ⟨herr, -⟩ | ⟨f, hok, -, h'⟩ := h.free addr
  · exact nomatch herr.symm.trans hfree
  · obtain rfl := Except.ok.inj (hok.symm.trans hfree)
    exact ⟨fun a => Dict.mem_erase, h'⟩

end TensorMemoryPool

namespace P2pReceiver

variable {K : Nat} {threshold : Int} {s s' : P2pReceiver}
  {id : String} {e : Received} {addr : Int}

/-! ## Who has a block -/

/-- The entry of the id has the block. -/
def Holds (s : P2pReceiver) (id : String) (addr : Int) : Prop :=
  ∃ e ∈ s.recvStore.get? id, e.addr? = some addr

/-- Every allocated block has one holder. -/
structure Blocks (s : P2pReceiver) : Prop where
  held : ∀ addr, addr ∈ s.pool.allocatedBlocks ↔ ∃ id, s.Holds id addr
  distinct : ∀ {id id' addr}, s.Holds id addr → s.Holds id' addr → id = id'

/-- The counter, and the blocks. -/
structure Books (K : Nat) (s : P2pReceiver) : Prop extends Blocks s where
  tiled : s.pool.Tiled K
  bufferSize : s.bufferSize = s.recvStore.total Received.owed

theorem holds_set (hs : s'.recvStore = s.recvStore.set id e) (j : String) :
    s'.Holds j addr ↔ if j = id then e.addr? = some addr else s.Holds j addr := by
  unfold Holds
  rw [hs, Dict.get?_set]
  split_ifs <;> simp

theorem holds_erase (hs : s'.recvStore = s.recvStore.erase id) (j : String) :
    s'.Holds j addr ↔ j ≠ id ∧ s.Holds j addr := by
  unfold Holds
  rw [hs, Dict.get?_erase]
  split_ifs with h <;> simp [h]

/-- An entry is replaced by one with the same block, if any. -/
theorem Blocks.set (h : Blocks s) (hs : s'.recvStore = s.recvStore.set id e)
    (hpool : s'.pool = s.pool) (hsame : ∀ addr, e.addr? = some addr ↔ s.Holds id addr) :
    Blocks s' := by
  have hholds : ∀ j addr, s'.Holds j addr ↔ s.Holds j addr := fun j addr => by
    rw [holds_set hs]
    split_ifs with hj
    · rw [hj, hsame]
    · rfl
  exact ⟨fun addr => by simp only [hpool, h.held, hholds], fun hid hid' =>
    h.distinct ((hholds _ _).mp hid) ((hholds _ _).mp hid')⟩

/-- The counter follows an entry for which nothing is owed. -/
theorem total_set_of_settled (h : ∀ e ∈ s.recvStore.get? id, e.owed = 0) :
    (s.recvStore.set id e).total Received.owed = s.recvStore.total Received.owed + e.owed := by
  have hset := Dict.total_set Received.owed s.recvStore id e
  cases hget : s.recvStore.get? id with
  | none => simpa [hget] using hset
  | some e' => simpa [hget, h e' hget] using hset

/-! ## The calls -/

variable (h : Books K s)

include h

theorem Books.put {tensor : DeviceTensor} {outOfMemory : Bool}
    (hok : (RecvOp.put id tensor outOfMemory).Settles s)
    (hput : s.put threshold id tensor outOfMemory = .ok s') : Books K s' := by
  have htotal := fun e : Received => total_set_of_settled (e := e) fun e' he' => (hok e' he').1
  -- the old entry has no block
  have hold : ∀ addr, ¬ s.Holds id addr := fun addr ⟨e', he', haddr⟩ => by
    simp [(hok e' he').2] at haddr
  unfold P2pReceiver.put at hput
  split_ifs at hput with hoom hfull
  · cases hput
    refine ⟨h.toBlocks.set rfl rfl fun addr => ?_, h.tiled, ?_⟩
    · exact iff_of_false nofun (hold addr)
    · exact h.bufferSize.trans ((htotal _).trans (add_zero _)).symm
  · obtain ⟨⟨addr, pool⟩, hstore, hput⟩ := bind_eq_ok.mp hput
    cases hput
    obtain ⟨hnew, hmem, htiled⟩ := h.tiled.storeTensor hstore
    have hholds : ∀ a j,
        Holds ⟨s.recvStore.set id { entry := .pooled addr tensor }, s.bufferSize, pool⟩ j a ↔
          if j = id then Received.addr? { entry := .pooled addr tensor } = some a else s.Holds j a :=
      fun a => holds_set rfl
    have hsome : ∀ a, Received.addr? { entry := .pooled addr tensor } = some a ↔ a = addr :=
      fun a => by simp [Received.addr?, eq_comm]
    refine ⟨⟨fun a => ?_, fun {j j' a} hj hj' => ?_⟩, htiled, ?_⟩
    · simp only [hmem, h.held, hholds, hsome]
      constructor
      · rintro (rfl | ⟨j, hj⟩)
        · exact ⟨id, by simp⟩
        · have hne : j ≠ id := by
            rintro rfl
            exact hold a hj
          exact ⟨j, by rwa [if_neg hne]⟩
      · rintro ⟨j, hj⟩
        split_ifs at hj
        · exact .inl hj
        · exact .inr ⟨j, hj⟩
    · -- the new block was not allocated, so nobody else has it
      have hother : ∀ {i}, s.Holds i addr → False := fun hi => hnew ((h.held addr).mpr ⟨_, hi⟩)
      rw [hholds, hsome] at hj hj'
      split_ifs at hj hj' with h₁ h₂ h₂
      · rw [h₁, h₂]
      · exact (hother (hj ▸ hj')).elim
      · exact (hother (hj' ▸ hj)).elim
      · exact h.distinct hj hj'
    · exact h.bufferSize.trans ((htotal _).trans (add_zero _)).symm
  · cases hput
    refine ⟨h.toBlocks.set rfl rfl fun addr => ?_, h.tiled, ?_⟩
    · exact iff_of_false nofun (hold addr)
    · rw [h.bufferSize]
      exact (htotal { entry := .tensor tensor }).symm

theorem Books.recvTensor (hok : (RecvOp.recvTensor id).Settles s)
    (hrecv : s.recvTensor id = .ok s') : Books K s' := by
  unfold P2pReceiver.recvTensor at hrecv
  cases hget : s.recvStore.get? id with
  | none => simp [hget] at hrecv
  | some e =>
    simp only [hget] at hrecv
    have hreread := hok e hget
    have hsame : ∀ addr, Received.addr? { e with received := true } = some addr ↔ s.Holds id addr :=
      fun addr => by simp [Holds, hget, Received.addr?]
    -- the size is taken off the first time only
    have htotal : (s.recvStore.set id { e with received := true }).total Received.owed =
        s.bufferSize - e.size := by
      have hset := Dict.total_set Received.owed s.recvStore id { e with received := true }
      rw [hget, Option.map_some, Option.getD_some, ← h.bufferSize] at hset
      cases hrec : e.received with
      | true => simp_all [Received.owed]
      | false =>
        simp only [Received.owed, hrec, if_true, Bool.false_eq_true, if_false] at hset
        omega
    obtain ⟨hstore, hpool, hsize⟩ : s'.recvStore = s.recvStore.set id { e with received := true } ∧
        s'.pool = s.pool ∧ s'.bufferSize = s.bufferSize - e.size := by
      cases hentry : e.entry with
      | tensor t =>
        simp only [hentry] at hrecv
        cases hrecv
        exact ⟨by simp, rfl, by simp [Received.size, hentry]⟩
      | pooled addr t =>
        simp only [hentry] at hrecv
        obtain ⟨_, -, hrecv⟩ := bind_eq_ok.mp hrecv
        cases hrecv
        exact ⟨by simp, rfl, by simp [Received.size, hentry]⟩
      | none =>
        simp only [hentry] at hrecv
        cases hrecv
        exact ⟨by simp, rfl, by simp [Received.size, hentry]⟩
    exact ⟨h.toBlocks.set hstore hpool hsame, hpool ▸ h.tiled, by rw [hsize, hstore, htotal]⟩

/-- One round of the clean-up gives up one entry and its block. -/
theorem Books.cleanUp (hok : ∀ e ∈ s.recvStore.get? id, e.owed = 0)
    (hclean : s.cleanUp id = .ok s') :
    Books K s' ∧ ∀ j, ∀ e ∈ s'.recvStore.get? j, e ∈ s.recvStore.get? j := by
  unfold P2pReceiver.cleanUp at hclean
  cases hget : s.recvStore.get? id with
  | none =>
    simp only [hget] at hclean
    cases hclean
    exact ⟨h, fun _ _ he => he⟩
  | some e =>
    simp only [hget] at hclean
    have htotal := Dict.total_erase Received.owed s.recvStore id
    rw [hget, Option.map_some, Option.getD_some, hok e hget, add_zero] at htotal
    -- what is left of the blocks, if the pool has given up that of the entry
    have hrest : ∀ {pool : TensorMemoryPool}, pool.Tiled K → (∀ a, a ∈ pool.allocatedBlocks ↔
          e.addr? ≠ some a ∧ a ∈ s.pool.allocatedBlocks) →
        s' = { s with recvStore := s.recvStore.erase id, pool } →
        Books K s' ∧ ∀ j, ∀ e ∈ s'.recvStore.get? j, e ∈ s.recvStore.get? j := by
      rintro pool htiled hpool rfl
      have hholds : ∀ a j, Holds { s with recvStore := s.recvStore.erase id, pool } j a ↔
          j ≠ id ∧ s.Holds j a := fun a => holds_erase rfl
      have hid : ∀ a, s.Holds id a ↔ e.addr? = some a := fun a => by simp [Holds, hget]
      refine ⟨⟨⟨fun a => ?_, fun hj hj' => ?_⟩, htiled, h.bufferSize.trans htotal.symm⟩, fun j e' he' => ?_⟩
      · simp only [hpool, h.held, hholds]
        constructor
        · rintro ⟨hne, j, hj⟩
          refine ⟨j, ?_, hj⟩
          rintro rfl
          exact hne ((hid a).mp hj)
        · rintro ⟨j, hne, hj⟩
          exact ⟨fun ha => hne (h.distinct hj ((hid a).mpr ha)), j, hj⟩
      · exact h.distinct ((hholds _ _).mp hj).2 ((hholds _ _).mp hj').2
      · rw [Dict.get?_erase] at he'
        split_ifs at he' with hj
        · simp at he'
        · exact he'
    cases hentry : e.entry with
    | pooled addr t =>
      simp only [hentry] at hclean
      obtain ⟨pool, hfree, hclean⟩ := bind_eq_ok.mp hclean
      cases hclean
      obtain ⟨hmem, htiled⟩ := h.tiled.of_free hfree
      refine hrest htiled (fun a => ?_) rfl
      rw [hmem]
      simp [Received.addr?, hentry, eq_comm]
    | tensor t =>
      simp only [hentry] at hclean
      cases hclean
      exact hrest h.tiled (fun a => by simp [Received.addr?, hentry]) rfl
    | none =>
      simp only [hentry] at hclean
      cases hclean
      exact hrest h.tiled (fun a => by simp [Received.addr?, hentry]) rfl

theorem Books.getFinished {ids layers : List String}
    (hok : (RecvOp.getFinished ids layers).Settles s) (hstep : s.getFinished ids layers = .ok s') :
    Books K s' := by
  refine (threadM_invariant (I := fun rest t => Books K t ∧
    ∀ id ∈ rest, ∀ e ∈ t.recvStore.get? id, e.owed = 0)
    (fun id rest t t' ⟨ht, hrest⟩ hclean => ?_) ⟨h, hok⟩ hstep).1
  obtain ⟨h', hless⟩ := ht.cleanUp (hrest id (.head _)) hclean
  exact ⟨h', fun j hj e he => hrest j (.tail _ hj) e (hless j e he)⟩

theorem Books.accounted : s.Accounted where
  bufferSize := h.bufferSize
  nonneg := by
    rw [h.bufferSize]
    refine List.sum_nonneg fun x hx => ?_
    obtain ⟨e, -, rfl⟩ := List.mem_map.mp hx
    unfold Received.owed
    split_ifs <;> omega
  empty hempty := by rw [h.bufferSize, hempty, Dict.total_empty]
  pool addr := by
    rw [h.held]
    constructor
    · rintro ⟨id, e, hget, haddr⟩
      exact ⟨(id, e), Dict.get?_eq_some_iff.mp hget, haddr⟩
    · rintro ⟨⟨id, e⟩, hmem, haddr⟩
      exact ⟨id, e, Dict.get?_eq_some_iff.mpr hmem, haddr⟩

omit h

/-- **Every run** whose operations settle what they replace, receive again or clean up. -/
theorem accounted_of_reach {maxBlockSize : Nat} {base : Int} {pool : TensorMemoryPool}
    (hpool : TensorMemoryPool.init maxBlockSize 512 base = .ok pool)
    (hs : (receiver threshold pool).Reach (fun s op => op.Settles s) s) : s.Accounted := by
  obtain ⟨_, -, hrest⟩ := bind_eq_ok.mp hpool
  obtain ⟨_, hle, -⟩ := bind_eq_ok.mp hrest
  obtain ⟨K, p, hinit, htiled, hempty, -⟩ :=
    TensorMemoryPool.exists_init (not_lt.mp (require_eq_ok.mp hle)) base
  obtain rfl := Except.ok.inj (hinit.symm.trans hpool)
  refine Books.accounted (K := K) (hs.invariant ⟨⟨fun addr => ?_, nofun⟩, htiled, rfl⟩
    fun s op t h hok hstep => ?_)
  · refine iff_of_false ?_ nofun
    change addr ∉ p.allocatedBlocks
    rw [hempty]
    exact Dict.notMem_empty addr
  · cases op with
    | put id tensor outOfMemory => exact h.put hok hstep
    | recvTensor id => exact h.recvTensor hok hstep
    | getFinished ids layers => exact h.getFinished hok hstep

/-- A pool of one page. -/
def onePagePool : TensorMemoryPool :=
  match TensorMemoryPool.init 4096 512 0 with
  | .ok pool => pool
  | .error _ => { maxBlockSize := 0, minBlockSize := 0, baseAddress := 0, freeLists := ∅ }

theorem init_onePagePool : TensorMemoryPool.init 4096 512 0 = .ok onePagePool := by
  obtain ⟨K, p, hinit, -⟩ := TensorMemoryPool.exists_init (by decide : 512 ≤ 4096) 0
  rw [onePagePool, hinit]

theorem accounted_three_tensors : ∃ s : P2pReceiver, s.recvStore.keys = ["b#x", "c#x"] ∧
    s.bufferSize = 4 ∧ s.Accounted := by
  obtain ⟨s, hs, hkeys, hsize⟩ := (receiver 10 onePagePool).exists_reach
    (fun s op => op.Settles s) [.put "a#x" ⟨4, [1]⟩ false, .put "b#x" ⟨4, [1]⟩ false,
      .put "c#x" ⟨4, [1]⟩ false, .recvTensor "a#x", .recvTensor "c#x", .getFinished ["a"] ["x"]]
    (fun s => s.recvStore.keys = ["b#x", "c#x"] ∧ s.bufferSize = 4) (by decide +kernel)
  exact ⟨s, hkeys, hsize, accounted_of_reach init_onePagePool hs⟩

/-- A tensor that is received again is taken off again. -/
theorem not_accounted_received_twice : ¬ ∀ (threshold : Int) (maxBlockSize : Nat) (base : Int)
    (pool : TensorMemoryPool) (s : P2pReceiver), TensorMemoryPool.init maxBlockSize 512 base = .ok pool →
    (receiver threshold pool).Reach (fun _ _ => True) s → s.Accounted := by
  intro hall
  obtain ⟨s, hs, hneg⟩ := (receiver 10 onePagePool).exists_reach (fun _ _ => True)
    [.put "a#x" ⟨4, [1]⟩ false, .recvTensor "a#x", .recvTensor "a#x"] (fun s => s.bufferSize = -4)
    (by decide +kernel)
  have := (hall 10 4096 0 onePagePool s init_onePagePool hs).nonneg
  omega

end P2pReceiver

end InferenceServer.KVTransfer
