/-
The packet queue between capture and analysis: `src/src/rxlockfreequeue.c`.

A ring of packet nodes with two 64-bit positions. A push copies the caller's node
into a slot, a pop copies a slot into a node of the caller; in both the pointer
`app_data`, which points into the `data` of its own node, is moved over to the
`data` of the copy. The copying is one definition here (`copy_node`), since both
functions spell it out alike.

Seen from outside a node is a `Packet`: header, captured bytes, ports, lengths,
and how far into the data `app_data` points. Copying keeps all of it but for one
thing (`copy_node_packet`): the pointer of a node that is not marked `valid`
becomes NULL. So the queue is the bounded FIFO of the packets with that pointer
dropped (`lfq_refines_fifo`).

An access outside an array, or a pointer moved outside of one, is the result
`none` of the model. NULL arguments, which each function refuses first, are left
out, and so is the memory order of the two positions: the calls here come one
after another.
-/
import RxNetCap.Lib.Ring
import Mathlib.Data.List.OfFn
import Mathlib.Tactic.Ring

set_option autoImplicit false

namespace RxNetCap.Core

open RxNetCap.Ring

/-! ## Nodes -/

structure pcap_pkthdr where
  ts_sec : ℤ
  ts_usec : ℤ
  caplen : ℕ
  len : ℕ
  deriving DecidableEq, Repr

/-- The length of `PacketNode::data`. -/
def DATA_SIZE : ℕ := 65536

/-- `app_data` is an address, `none` where it is NULL. -/
structure PacketNode where
  header : pcap_pkthdr
  data : Fin DATA_SIZE → UInt8
  src_port : UInt16
  dst_port : UInt16
  app_data : Option ℤ
  app_len : UInt32
  valid : Bool

/-- Where `data` lies in a node at an address. -/
def data_at (node_at : ℤ) : ℤ := node_at + 24

/-- `sizeof(PacketNode)`. -/
def PACKET_NODE_SIZE : ℤ := 65584

def memcpy (dst src : Fin DATA_SIZE → UInt8) (n : ℕ) : Option (Fin DATA_SIZE → UInt8) :=
  if n ≤ DATA_SIZE then some fun i => if (i : ℕ) < n then src i else dst i else none

/-- The pointer that is as far from `dst` as `app_data` is from `src`, two arrays
of `DATA_SIZE` bytes. -/
def rebase (app_data src dst : ℤ) : Option ℤ :=
  let offset := app_data - src
  if 0 ≤ offset ∧ offset ≤ DATA_SIZE then some (dst + offset) else none

/-- What `lfq_push` makes of its slot and `lfq_pop` of its item. -/
def copy_node (src : PacketNode) (src_at : ℤ) (dst : PacketNode) (dst_at : ℤ) :
    Option PacketNode := do
  let data ← memcpy dst.data src.data src.header.caplen
  let app_data ←
    match src.app_data, src.valid with
    | some pointer, true => (rebase pointer (data_at src_at) (data_at dst_at)).map some
    | _, _ => some none
  some { src with data, app_data }

/-! ## The queue -/

structure LockFreeQueue where
  write_pos : ℕ
  read_pos : ℕ
  capacity : ℕ
  mask : ℕ
  buffer : ℕ → PacketNode
  buffer_at : ℤ

def LockFreeQueue.slot_at (queue : LockFreeQueue) (index : ℕ) : ℤ :=
  queue.buffer_at + PACKET_NODE_SIZE * index

/-- The difference of two `uint64_t`. -/
def distance (a b : ℕ) : ℕ := (a + 2 ^ 64 - b) % 2 ^ 64

def next_power_of_2 (n : ℕ) : ℕ :=
  if n = 0 then 1
  else
    let n := n - 1
    let n := n ||| n >>> 1
    let n := n ||| n >>> 2
    let n := n ||| n >>> 4
    let n := n ||| n >>> 8
    let n := n ||| n >>> 16
    (n + 1) % 2 ^ 32

/-- `malloc_queue` and `malloc_buffer` are what the two calls of `malloc` give:
whether there is memory for the queue, and where the slots lie and what is in them. -/
def lfq_create (malloc_queue : Bool) (malloc_buffer : Option (ℤ × (ℕ → PacketNode)))
    (capacity : ℕ) : Option LockFreeQueue :=
  if capacity = 0 then none
  else if !malloc_queue then none
  else
    let real_capacity := next_power_of_2 capacity
    match malloc_buffer with
    | none => none
    | some (buffer_at, buffer) =>
      some { write_pos := 0, read_pos := 0, capacity := real_capacity, mask := real_capacity - 1,
             buffer, buffer_at }

def lfq_push (queue : LockFreeQueue) (item : PacketNode) (item_at : ℤ) :
    Option (LockFreeQueue × Bool) :=
  if distance queue.write_pos queue.read_pos ≥ queue.capacity then some (queue, false)
  else do
    let index := (queue.write_pos &&& queue.mask) % 2 ^ 32
    guard (index < queue.capacity)
    let slot ← copy_node item item_at (queue.buffer index) (queue.slot_at index)
    some ({ queue with buffer := Function.update queue.buffer index slot,
                       write_pos := (queue.write_pos + 1) % 2 ^ 64 }, true)

def lfq_pop (queue : LockFreeQueue) (item : PacketNode) (item_at : ℤ) :
    Option (LockFreeQueue × Bool × PacketNode) :=
  if queue.read_pos ≥ queue.write_pos then some (queue, false, item)
  else do
    let index := (queue.read_pos &&& queue.mask) % 2 ^ 32
    guard (index < queue.capacity)
    let item ← copy_node (queue.buffer index) (queue.slot_at index) item item_at
    some ({ queue with read_pos := (queue.read_pos + 1) % 2 ^ 64 }, true, item)

def lfq_size (queue : LockFreeQueue) : ℕ := distance queue.write_pos queue.read_pos % 2 ^ 32

def lfq_is_empty (queue : LockFreeQueue) : Bool := lfq_size queue == 0

def lfq_is_full (queue : LockFreeQueue) : Bool :=
  distance queue.write_pos queue.read_pos ≥ queue.capacity

/-- A call on the queue, with the node of the caller and its address. -/
inductive LfqCall where
  | push (item : PacketNode) (item_at : ℤ)
  | pop (item : PacketNode) (item_at : ℤ)

inductive LfqResult where
  | pushed (ok : Bool)
  | popped (ok : Bool) (item : PacketNode) (item_at : ℤ)

def lfq_call (queue : LockFreeQueue) : LfqCall → Option (LockFreeQueue × LfqResult)
  | .push item item_at => do
    let (queue, ok) ← lfq_push queue item item_at
    some (queue, .pushed ok)
  | .pop item item_at => do
    let (queue, ok, item) ← lfq_pop queue item item_at
    some (queue, .popped ok item item_at)

/-! ## Capacities -/

/-- The capacity of a queue is the least power of two that is not below the request. -/
theorem next_power_of_2_eq {n : ℕ} (hpos : 1 ≤ n) (hle : n ≤ 2 ^ 31) :
    next_power_of_2 n = 2 ^ (n - 1).size := by
  have hsmall : n - 1 < 2 ^ 32 := by omega
  have hspread := (Spread.one (n - 1)).double.double.double.double.double
  have hall := spread_all hsmall hspread
  have hsize : (n - 1).size ≤ 31 := Nat.size_le.mpr (by omega)
  have hpow : 2 ^ (n - 1).size ≤ 2 ^ 31 := Nat.pow_le_pow_right Nat.two_pos hsize
  have hone : 1 ≤ 2 ^ (n - 1).size := Nat.one_le_two_pow
  unfold next_power_of_2
  rw [if_neg (by omega)]
  simp only at hall ⊢
  rw [hall, Nat.sub_add_cancel hone, Nat.mod_eq_of_lt (by omega)]

theorem next_power_of_2_le_iff {n j : ℕ} (hpos : 1 ≤ n) (hle : n ≤ 2 ^ 31) :
    next_power_of_2 n ≤ 2 ^ j ↔ n ≤ 2 ^ j := by
  rw [next_power_of_2_eq hpos hle, Nat.pow_le_pow_iff_right Nat.one_lt_two, Nat.size_le]
  have hone : 1 ≤ 2 ^ j := Nat.one_le_two_pow
  omega

/-! ## What a node holds -/

/-- A node seen from outside. -/
structure Packet where
  header : pcap_pkthdr
  bytes : List UInt8
  src_port : UInt16
  dst_port : UInt16
  app_offset : Option ℤ
  app_len : UInt32
  valid : Bool
  deriving DecidableEq, Repr

def PacketNode.packet (node : PacketNode) (node_at : ℤ) : Packet where
  header := node.header
  bytes := (List.ofFn node.data).take node.header.caplen
  src_port := node.src_port
  dst_port := node.dst_port
  app_offset := node.app_data.map (· - data_at node_at)
  app_len := node.app_len
  valid := node.valid

/-- The captured bytes fit, and `app_data` points into them or just behind. -/
structure Packet.Fits (p : Packet) : Prop where
  caplen : p.header.caplen ≤ DATA_SIZE
  offset : ∀ offset ∈ p.app_offset, 0 ≤ offset ∧ offset ≤ DATA_SIZE

/-- The packet without the pointer of a node that is not valid. -/
def Packet.kept (p : Packet) : Packet :=
  if p.valid then p else { p with app_offset := none }

theorem Packet.kept_kept (p : Packet) : p.kept.kept = p.kept := by
  unfold Packet.kept
  by_cases h : p.valid = true <;> simp [h]

theorem Packet.Fits.kept {p : Packet} (h : p.Fits) : p.kept.Fits := by
  unfold Packet.kept
  split
  · exact h
  · exact ⟨h.caplen, fun _ hnone => nomatch hnone⟩

/-- Only the first bytes of a copy are those of the source. -/
theorem memcpy_bytes {dst src data : Fin DATA_SIZE → UInt8} {n : ℕ} (h : memcpy dst src n = some data) :
    (List.ofFn data).take n = (List.ofFn src).take n := by
  unfold memcpy at h
  split at h
  · cases h
    refine List.ext_getElem (by simp) fun i hi _ => ?_
    have hlt : i < n := by
      simp only [List.length_take, List.length_ofFn] at hi
      omega
    simp only [List.getElem_take, List.getElem_ofFn, if_pos hlt]
  · cases h

/-- **What a copy is**: the packet of its source, without the pointer of a node
that is not valid. -/
theorem copy_node_packet {src : PacketNode} {src_at : ℤ} (h : (src.packet src_at).Fits)
    (dst : PacketNode) (dst_at : ℤ) : ∃ node, copy_node src src_at dst dst_at = some node ∧
      node.packet dst_at = (src.packet src_at).kept := by
  obtain ⟨data, hdata⟩ : ∃ data, memcpy dst.data src.data src.header.caplen = some data :=
    ⟨_, if_pos h.caplen⟩
  have hbytes := memcpy_bytes hdata
  cases hvalid : src.valid with
  | false =>
    refine ⟨{ src with data, app_data := none }, ?_, ?_⟩
    · unfold copy_node
      simp [hdata, hvalid]
    · simp [PacketNode.packet, Packet.kept, hvalid, hbytes]
  | true =>
    cases happ : src.app_data with
    | none =>
      refine ⟨{ src with data, app_data := none }, ?_, ?_⟩
      · unfold copy_node
        simp [hdata, happ]
      · simp [PacketNode.packet, Packet.kept, hvalid, hbytes, happ]
    | some pointer =>
      have hinside := h.offset (pointer - data_at src_at) (by simp [PacketNode.packet, happ])
      have hrebase : rebase pointer (data_at src_at) (data_at dst_at)
          = some (data_at dst_at + (pointer - data_at src_at)) := if_pos hinside
      refine ⟨{ src with data, app_data := some (data_at dst_at + (pointer - data_at src_at)) }, ?_, ?_⟩
      · unfold copy_node
        simp [hdata, hvalid, happ, hrebase]
      · simp [PacketNode.packet, Packet.kept, hvalid, hbytes, happ]

/-! ## The ring against the queue -/

/-- The packet in a slot. -/
def LockFreeQueue.packet (queue : LockFreeQueue) (index : ℕ) : Packet :=
  (queue.buffer index).packet (queue.slot_at index)

/-- After `calls` calls the ring holds these packets. -/
structure Holds (calls : ℕ) (queue : LockFreeQueue) (stored : List Packet) : Prop where
  bits : ∃ k ≤ 31, queue.capacity = 2 ^ k
  mask : queue.mask = queue.capacity - 1
  read_le : queue.read_pos ≤ queue.write_pos
  near : queue.write_pos - queue.read_pos ≤ queue.capacity
  count : queue.write_pos ≤ calls
  contents : contents queue.capacity queue.read_pos queue.write_pos queue.packet = stored
  fits : ∀ p ∈ stored, p.Fits
  kept : ∀ p ∈ stored, p.kept = p

variable {calls : ℕ} {queue : LockFreeQueue} {stored : List Packet}

theorem Holds.length (h : Holds calls queue stored) : stored.length = queue.write_pos - queue.read_pos := by
  rw [← h.contents, contents_length]

theorem Holds.distance (h : Holds calls queue stored) (hcalls : calls < 2 ^ 64) :
    distance queue.write_pos queue.read_pos = stored.length := by
  have hle := h.read_le
  have hcount := h.count
  have hsum : queue.write_pos + 2 ^ 64 - queue.read_pos
      = (queue.write_pos - queue.read_pos) + 2 ^ 64 := by omega
  rw [h.length, Core.distance, hsum, Nat.add_mod_right, Nat.mod_eq_of_lt (by omega)]

/-- The mask finds the slot of a position. -/
theorem Holds.index (h : Holds calls queue stored) (pos : ℕ) :
    (pos &&& queue.mask) % 2 ^ 32 = pos % queue.capacity ∧ pos % queue.capacity < queue.capacity := by
  obtain ⟨k, hk, hcapacity⟩ := h.bits
  have hpos : 0 < 2 ^ k := Nat.two_pow_pos k
  have hpow : 2 ^ k ≤ 2 ^ 31 := Nat.pow_le_pow_right Nat.two_pos hk
  have hlt : pos % 2 ^ k < 2 ^ k := Nat.mod_lt _ hpos
  rw [h.mask, hcapacity, Nat.and_two_pow_sub_one_eq_mod, Nat.mod_eq_of_lt (by omega)]
  exact ⟨rfl, hlt⟩

/-- The queue that a call sees of a call on the ring. -/
def LfqCall.asked (see : Packet → Packet) : LfqCall → Call Packet
  | .push item item_at => .push (see (item.packet item_at))
  | .pop _ _ => .pop

def LfqResult.answer : LfqResult → Answer Packet
  | .pushed ok => .pushed ok
  | .popped ok item item_at => .popped (if ok then some (item.packet item_at) else none)

/-- What the caller of a push keeps to. -/
def LfqCall.Fits : LfqCall → Prop
  | .push item item_at => (item.packet item_at).Fits
  | .pop _ _ => True

/-- Filling a slot puts one packet in place. -/
theorem packet_filled (queue : LockFreeQueue) (index pos : ℕ) (slot : PacketNode) :
    LockFreeQueue.packet { queue with buffer := Function.update queue.buffer index slot, write_pos := pos }
      = Function.update queue.packet index (slot.packet (queue.slot_at index)) := by
  funext i
  by_cases hi : i = index
  · subst hi
    simp only [LockFreeQueue.packet, Function.update_self]
    rfl
  · simp only [LockFreeQueue.packet, Function.update_of_ne hi]
    rfl

/-- A push stores the packet where there is room for it. -/
theorem Holds.push (h : Holds calls queue stored) (hcalls : calls + 1 < 2 ^ 64) {item : PacketNode}
    {item_at : ℤ} (hitem : (item.packet item_at).Fits) : ∃ queue' ok,
      lfq_push queue item item_at = some (queue', ok) ∧ queue'.capacity = queue.capacity ∧
      Holds (calls + 1) queue' (ask queue.capacity stored (.push (item.packet item_at).kept)).1 ∧
      .pushed ok = (ask queue.capacity stored (.push (item.packet item_at).kept)).2 := by
  have hdistance := h.distance (by omega)
  have hcount := h.count
  unfold lfq_push
  by_cases hroom : stored.length < queue.capacity
  · obtain ⟨hindex, hlt⟩ := h.index queue.write_pos
    obtain ⟨slot, hcopy, hslot⟩ := copy_node_packet hitem
      (queue.buffer (queue.write_pos % queue.capacity)) (queue.slot_at (queue.write_pos % queue.capacity))
    have hwrite : (queue.write_pos + 1) % 2 ^ 64 = queue.write_pos + 1 := Nat.mod_eq_of_lt (by omega)
    rw [if_neg (by omega), ask_room hroom]
    simp only [hindex, hwrite, hcopy, hlt, guard_true, Option.bind_eq_bind, Option.pure_def, Option.bind_some]
    refine ⟨_, true, rfl, rfl, ?_, rfl⟩
    have hlength := h.length
    have hle := h.read_le
    have hnear : queue.write_pos - queue.read_pos < queue.capacity := by omega
    refine { h with read_le := ?_, near := ?_, count := ?_, contents := ?_, fits := ?_, kept := ?_ }
    · exact hle.trans (Nat.le_succ _)
    · simp only
      omega
    · simp only
      omega
    · rw [packet_filled, hslot, contents_store hle hnear, h.contents]
    · intro p hp
      rcases List.mem_append.mp hp with hold | hnew
      · exact h.fits p hold
      · rw [List.mem_singleton.mp hnew]
        exact hitem.kept
    · intro p hp
      rcases List.mem_append.mp hp with hold | hnew
      · exact h.kept p hold
      · rw [List.mem_singleton.mp hnew]
        exact Packet.kept_kept _
  · rw [if_pos (by omega), ask_full hroom]
    exact ⟨queue, false, rfl, rfl, { h with count := hcount.trans (Nat.le_succ _) }, rfl⟩

/-- A pop hands out the oldest packet, where there is one. -/
theorem Holds.pop (h : Holds calls queue stored) (hcalls : calls + 1 < 2 ^ 64) (item : PacketNode)
    (item_at : ℤ) : ∃ queue' ok item', lfq_pop queue item item_at = some (queue', ok, item') ∧
      queue'.capacity = queue.capacity ∧
      Holds (calls + 1) queue' (ask queue.capacity stored .pop).1 ∧
      .popped (if ok then some (item'.packet item_at) else none) = (ask queue.capacity stored .pop).2 := by
  have hlength := h.length
  have hcount := h.count
  unfold lfq_pop
  by_cases hsome : queue.read_pos < queue.write_pos
  · obtain ⟨hindex, hlt⟩ := h.index queue.read_pos
    have hcontents := h.contents
    rw [contents_next hsome] at hcontents
    subst hcontents
    obtain ⟨node, hcopy, hnode⟩ := copy_node_packet (h.fits _ List.mem_cons_self) item item_at
    have hread : (queue.read_pos + 1) % 2 ^ 64 = queue.read_pos + 1 := Nat.mod_eq_of_lt (by omega)
    rw [if_neg (by omega)]
    simp only [hindex, hread, hcopy, hlt, guard_true, Option.bind_eq_bind, Option.pure_def, Option.bind_some]
    refine ⟨_, true, node, rfl, rfl, ?_, ?_⟩
    · have hnear := h.near
      refine { h with read_le := hsome, near := ?_, count := hcount.trans (Nat.le_succ _), contents := rfl,
                      fits := ?_, kept := ?_ }
      · simp only
        omega
      · exact fun p hp => h.fits p (List.mem_cons_of_mem _ hp)
      · exact fun p hp => h.kept p (List.mem_cons_of_mem _ hp)
    · have hkept := h.kept _ List.mem_cons_self
      rw [if_pos rfl, hnode]
      exact congrArg (fun p => Answer.popped (some p)) hkept
  · obtain rfl : stored = [] := List.length_eq_zero_iff.mp (by omega)
    rw [if_pos (by omega)]
    exact ⟨queue, false, item, rfl, rfl, { h with count := hcount.trans (Nat.le_succ _) }, rfl⟩

/-- A new queue holds nothing. -/
theorem Holds.create {capacity : ℕ} (hpos : 1 ≤ capacity) (hle : capacity ≤ 2 ^ 31) (buffer_at : ℤ)
    (buffer : ℕ → PacketNode) : ∃ queue, lfq_create true (some (buffer_at, buffer)) capacity = some queue ∧
      queue.capacity = next_power_of_2 capacity ∧ Holds 0 queue [] := by
  have hsize : (capacity - 1).size ≤ 31 := Nat.size_le.mpr (by omega)
  have hcapacity := next_power_of_2_eq hpos hle
  unfold lfq_create
  rw [if_neg (by omega), if_neg (by decide)]
  refine ⟨_, rfl, rfl, ?_⟩
  exact { bits := ⟨_, hsize, hcapacity⟩, mask := rfl, read_le := le_rfl, near := Nat.zero_le _,
          count := le_rfl, contents := rfl, fits := fun _ hp => (List.not_mem_nil hp).elim,
          kept := fun _ hp => (List.not_mem_nil hp).elim }

/-- Every call answers as the queue does. -/
theorem Holds.call {capacity : ℕ} (h : Holds calls queue stored ∧ queue.capacity = capacity)
    (hcalls : calls + 1 < 2 ^ 64) {c : LfqCall} (hc : c.Fits) : ∃ queue' result,
      lfq_call queue c = some (queue', result) ∧
      (Holds (calls + 1) queue' (ask capacity stored (c.asked Packet.kept)).1 ∧ queue'.capacity = capacity) ∧
      result.answer = (ask capacity stored (c.asked Packet.kept)).2 := by
  obtain ⟨h, rfl⟩ := h
  cases c with
  | push item item_at =>
    obtain ⟨queue', ok, hpush, hcapacity, hholds, hanswer⟩ := h.push hcalls hc
    refine ⟨queue', .pushed ok, ?_, ⟨hholds, hcapacity⟩, hanswer⟩
    simp only [lfq_call, hpush, Option.bind_eq_bind, Option.bind_some]
  | pop item item_at =>
    obtain ⟨queue', ok, item', hpop, hcapacity, hholds, hanswer⟩ := h.pop hcalls item item_at
    refine ⟨queue', .popped ok item' item_at, ?_, ⟨hholds, hcapacity⟩, hanswer⟩
    simp only [lfq_call, hpop, Option.bind_eq_bind, Option.bind_some]

theorem Holds.size (h : Holds calls queue stored) (hcalls : calls < 2 ^ 64) :
    lfq_size queue = stored.length := by
  obtain ⟨k, hk, hcapacity⟩ := h.bits
  have hpow : 2 ^ k ≤ 2 ^ 31 := Nat.pow_le_pow_right Nat.two_pos hk
  have hnear := h.near
  have hlength := h.length
  rw [lfq_size, h.distance hcalls, Nat.mod_eq_of_lt (by omega)]

theorem Holds.is_full (h : Holds calls queue stored) (hcalls : calls < 2 ^ 64) :
    lfq_is_full queue = true ↔ stored.length = queue.capacity := by
  have hnear := h.near
  have hlength := h.length
  rw [lfq_is_full, h.distance hcalls, decide_eq_true_iff]
  omega

theorem Holds.is_empty (h : Holds calls queue stored) (hcalls : calls < 2 ^ 64) :
    lfq_is_empty queue = true ↔ stored = [] := by
  rw [lfq_is_empty, h.size hcalls, beq_iff_eq, List.length_eq_zero_iff]

/-- The answers of the ring to these calls, each of which can be carried out, are
those of the queue of at most `2 ^ k` packets, `see` saying what it is given; and
the sizes agree. -/
def AnswersAs (see : Packet → Packet) (queue : LockFreeQueue) (k : ℕ) (calls : List LfqCall) : Prop :=
  ∃ queue' results, talk lfq_call queue calls = some (queue', results) ∧
    results.map LfqResult.answer = (asks (2 ^ k) [] (calls.map (LfqCall.asked see))).2 ∧
    lfq_size queue' = (asks (2 ^ k) [] (calls.map (LfqCall.asked see))).1.length ∧
    (lfq_is_full queue' = true ↔ lfq_size queue' = 2 ^ k) ∧
    (lfq_is_empty queue' = true ↔ lfq_size queue' = 0)

/-- From its creation on the ring answers as the queue of the kept packets does. -/
theorem Holds.answers {k : ℕ} (h : Holds 0 queue []) (hk : queue.capacity = 2 ^ k)
    {calls : List LfqCall} (hcalls : calls.length < 2 ^ 64) (hfits : ∀ c ∈ calls, c.Fits) :
    AnswersAs Packet.kept queue k calls := by
  have hlimit : 0 + calls.length < 2 ^ 64 := by omega
  obtain ⟨queue', results, htalk, ⟨hafter, hsame⟩, hanswers⟩ :=
    talk_follows (R := fun n q stored => Holds n q stored ∧ q.capacity = 2 ^ k) (P := LfqCall.Fits)
      (fun n q stored c hn hR hc => Holds.call (c := c) hR hn hc) hlimit ⟨h, hk⟩ hfits
  rw [Nat.zero_add] at hafter
  have hsize := hafter.size hcalls
  refine ⟨queue', results, htalk, hanswers, hsize, ?_, ?_⟩
  · rw [hafter.is_full hcalls, hsize, hsame]
  · rw [hafter.is_empty hcalls, hsize, List.length_eq_zero_iff]

/-- **The ring is a bounded queue.** It holds as many packets as the least power
of two that is not below the request, and answers every list of calls as the
queue of that size does that is given each packet without the pointer of a node
that is not valid. -/
theorem lfq_refines_fifo (capacity : ℕ) (hpos : 1 ≤ capacity) (hle : capacity ≤ 2 ^ 31)
    (buffer_at : ℤ) (buffer : ℕ → PacketNode) :
    ∃ queue k, lfq_create true (some (buffer_at, buffer)) capacity = some queue ∧
      (∀ j, 2 ^ k ≤ 2 ^ j ↔ capacity ≤ 2 ^ j) ∧
      ∀ calls, calls.length < 2 ^ 64 → (∀ c ∈ calls, c.Fits) → AnswersAs Packet.kept queue k calls := by
  obtain ⟨queue, hcreate, hcapacity, hholds⟩ := Holds.create hpos hle buffer_at buffer
  obtain ⟨k, -, hk⟩ := hholds.bits
  have hpow : next_power_of_2 capacity = 2 ^ k := hcapacity.symm.trans hk
  refine ⟨queue, k, hcreate, fun j => ?_, fun calls hcalls hfits => hholds.answers hk hcalls hfits⟩
  rw [← hpow]
  exact next_power_of_2_le_iff hpos hle

/-- A node whose pointer is set, and that is not valid. -/
def unparsed_node : PacketNode where
  header := { ts_sec := 0, ts_usec := 0, caplen := 0, len := 0 }
  data := fun _ => 0
  src_port := 0
  dst_port := 0
  app_data := some (data_at 0)
  app_len := 0
  valid := false

/-- The node goes into a queue and comes back. -/
def one_exchange : List LfqCall := [.push unparsed_node 0, .pop unparsed_node 0]

theorem one_exchange_fits : ∀ c ∈ one_exchange, c.Fits := by
  have hnode : (unparsed_node.packet 0).Fits := ⟨by decide, by decide⟩
  intro c hc
  rcases List.mem_cons.mp hc with rfl | hc
  · exact hnode
  · rw [List.mem_singleton.mp hc]
    trivial

theorem lfq_refines_fifo_three : ∃ queue k,
    lfq_create true (some (1000000, fun _ => unparsed_node)) 3 = some queue ∧
      (∀ j, 2 ^ k ≤ 2 ^ j ↔ 3 ≤ 2 ^ j) ∧ AnswersAs Packet.kept queue k one_exchange := by
  obtain ⟨queue, k, hcreate, hleast, hanswers⟩ :=
    lfq_refines_fifo 3 (by decide) (by decide) 1000000 fun _ => unparsed_node
  exact ⟨queue, k, hcreate, hleast, hanswers one_exchange (by decide) one_exchange_fits⟩

/-- The pointer of a node that is not valid is lost on the way. -/
theorem unparsed_pointer_lost : ∃ queue k,
    lfq_create true (some (1000000, fun _ => unparsed_node)) 1 = some queue ∧
      (∀ j, 2 ^ k ≤ 2 ^ j ↔ 1 ≤ 2 ^ j) ∧ (∀ c ∈ one_exchange, c.Fits) ∧
      ¬ AnswersAs id queue k one_exchange := by
  obtain ⟨queue, hcreate, hcapacity, hholds⟩ :=
    Holds.create (by decide : 1 ≤ 1) (by decide) 1000000 fun _ => unparsed_node
  have hone : queue.capacity = 2 ^ 0 := hcapacity
  refine ⟨queue, 0, hcreate, fun j => ?_, one_exchange_fits, ?_⟩
  · rw [Nat.pow_zero]
  · rintro ⟨after, results, htalk, hanswers, -⟩
    obtain ⟨after', results', htalk', hanswers', -⟩ := hholds.answers hone (by decide) one_exchange_fits
    rw [htalk] at htalk'
    cases htalk'
    -- one answer would name a packet with the pointer and without it
    have hsame := hanswers.symm.trans hanswers'
    simp only [one_exchange, List.map_cons, List.map_nil, asks, ask, LfqCall.asked] at hsame
    have hpacket : unparsed_node.packet 0 = (unparsed_node.packet 0).kept := by simpa using hsame
    exact absurd (congrArg Packet.app_offset hpacket) (by decide)

end RxNetCap.Core
