import CantayaOS.Virtio.Block

/-!
# One block request

From an idle driver, a request either finds too few descriptors or is served by
the device, and in both cases the driver is idle again: all descriptors are free
and nothing waits in the rings.
-/

namespace CantayaOS.Virtio

open Lib.Bytes Lib.Checked Virtqueue List

namespace BlkState

structure Idle (state : BlkState) : Prop where
  free : state.dev.vq.freeDescs.Perm state.dev.vq.table
  polled : state.dev.vq.lastUsedIdx = state.dev.vq.usedIdx
  taken : state.device.lastAvailIdx = state.dev.vq.availIdx
  capacity : state.device.capacity = state.dev.capacity.toNat

/-- The driver's page, its view of the device and the size of its queue stay. -/
structure SameSetup (state after : BlkState) : Prop where
  reqPagePhys : after.dev.reqPagePhys = state.dev.reqPagePhys
  capacity : after.dev.capacity = state.dev.capacity
  queueSize : after.dev.vq.queueSize = state.dev.vq.queueSize
  sectors : after.device.capacity = state.device.capacity

variable {state : BlkState}

theorem Idle.length_free (idle : state.Idle) :
    state.dev.vq.freeDescs.length = state.dev.vq.queueSize.toNat := by
  rw [idle.free.length_eq, length_table]

theorem Idle.unique (idle : state.Idle) : state.dev.vq.freeDescs.Nodup :=
  idle.free.nodup_iff.mpr (nodup_table _)

end BlkState

open BlkState VirtqDesc

/-! ## Setting up a chain -/

variable {vq : Virtqueue} {d0 d1 d2 : UInt16} {page : Nat}

variable {rest : List UInt16} {state : BlkState} {memory : Nat → UInt8} {dataPhys : Nat}
  {dataFlags : UInt16}

section Prepare

variable {state : BlkState} (reqType : Nat) (sector : UInt64) (dataPhys : Nat) (dataFlags : UInt16)

theorem onQueue_of {α : Type} {change : Virtqueue → α × Virtqueue} {result : α}
    (computed : change state.dev.vq = (result, vq)) :
    onQueue change state = .ok (result, state.setQueue vq) := by
  change Except.ok ((change state.dev.vq).1, state.setQueue (change state.dev.vq).2) = _
  rw [computed]

def headed (state : BlkState) (reqType : Nat) (sector : UInt64) : Nat → UInt8 :=
  overlay
    (overlay state.memory state.dev.reqPagePhys
      (toLe 4 reqType ++ toLe 4 0 ++ toLe 8 sector.toNat))
    (state.dev.reqPagePhys + 128) [0xFF]

def headerState (state : BlkState) (reqType : Nat) (sector : UInt64) : BlkState :=
  { state with memory := headed state reqType sector }

theorem writeHeader_eq (reqType : Nat) (sector : UInt64) (state : BlkState) :
    writeHeader reqType sector state = .ok ((), headerState state reqType sector) := rfl

structure Linked3 (page dataPhys : Nat) (dataFlags : UInt16) (vq : Virtqueue)
    (d0 d1 d2 : UInt16) : Prop where
  distinct : [d0, d1, d2].Nodup
  header : vq.desc d0 = ⟨page, 16, vringDescFNext, d1⟩
  data : vq.desc d1 = ⟨dataPhys, sectorSize, dataFlags, d2⟩
  status : vq.desc d2 = ⟨page + 128, 1, vringDescFWrite, 0⟩

theorem prepare_some (free : state.dev.vq.freeDescs = d0 :: d1 :: d2 :: rest)
    (unique : (d0 :: d1 :: d2 :: rest).Nodup) :
    ∃ vq, prepare reqType sector dataPhys dataFlags state =
        .ok (some d0, (headerState state reqType sector).setQueue vq) ∧
      vq.freeDescs = rest ∧ SameRings state.dev.vq vq ∧
      Linked3 state.dev.reqPagePhys dataPhys dataFlags vq d0 d1 d2 := by
  obtain ⟨vq0, alloc0, free0, _, rings0⟩ := allocDesc_cons free
  obtain ⟨vq1, alloc1, free1, _, rings1⟩ := allocDesc_cons free0
  obtain ⟨vq2, alloc2, free2, _, rings2⟩ := allocDesc_cons free1
  simp only [nodup_cons, mem_cons, not_or] at unique
  obtain ⟨⟨ne01, ne02, out0⟩, ⟨ne12, out1⟩, out2, _⟩ := unique
  let linked0 := vq2.setDesc d0 ⟨state.dev.reqPagePhys, 16, vringDescFNext, d1⟩
  let linked1 := linked0.setDesc d1 ⟨dataPhys, sectorSize, dataFlags, d2⟩
  let linked2 := linked1.setDesc d2 ⟨state.dev.reqPagePhys + 128, 1, vringDescFWrite, 0⟩
  have isFree0 : linked0.freeDescs = rest := by
    rw [freeDescs_setDesc _ (by rwa [free2]), free2]
  have isFree1 : linked1.freeDescs = rest := by
    rw [freeDescs_setDesc _ (by rwa [isFree0]), isFree0]
  have isFree2 : linked2.freeDescs = rest := by
    rw [freeDescs_setDesc _ (by rwa [isFree1]), isFree1]
  refine ⟨linked2, ?_, isFree2, ((rings0.trans rings1).trans rings2).trans
    ⟨rfl, rfl, rfl, rfl, rfl, rfl⟩, ?_⟩
  · let headed := headerState state reqType sector
    have step0 : onQueue allocDesc headed = .ok (some d0, headed.setQueue vq0) := onQueue_of alloc0
    have step1 : onQueue allocDesc (headed.setQueue vq0) = .ok (some d1, headed.setQueue vq1) :=
      onQueue_of alloc1
    have step2 : onQueue allocDesc (headed.setQueue vq1) = .ok (some d2, headed.setQueue vq2) :=
      onQueue_of alloc2
    rw [prepare, bind_of_ok (writeHeader_eq reqType sector state), bind_of_ok step0]
    dsimp only
    rw [bind_of_ok step1]
    dsimp only
    rw [bind_of_ok step2]
    rfl
  · refine ⟨by simp [ne01, ne02, ne12], ?_, ?_, ?_⟩
    · simp [linked2, linked1, linked0, setDesc, ne01, ne02]
    · simp [linked2, linked1, setDesc, ne12]
    · simp [linked2, setDesc]

/-- Too few descriptors: what was allocated is freed again. -/
theorem prepare_none (short : state.dev.vq.freeDescs.length < 3)
    (unique : state.dev.vq.freeDescs.Nodup) :
    ∃ vq, prepare reqType sector dataPhys dataFlags state =
        .ok (none, (headerState state reqType sector).setQueue vq) ∧
      vq.freeDescs.Perm state.dev.vq.freeDescs ∧ SameRings state.dev.vq vq := by
  let headed := headerState state reqType sector
  have same : SameRings state.dev.vq state.dev.vq := ⟨rfl, rfl, rfl, rfl, rfl, rfl⟩
  match free : state.dev.vq.freeDescs with
  | [] =>
    have step0 : onQueue allocDesc headed = .ok (none, headed) := onQueue_of (allocDesc_nil free)
    refine ⟨state.dev.vq, ?_, by rw [free], same⟩
    rw [prepare, bind_of_ok (writeHeader_eq reqType sector state), bind_of_ok step0]
    rfl
  | [d0] =>
    obtain ⟨vq0, alloc0, free0, _, rings0⟩ := allocDesc_cons free
    have step0 : onQueue allocDesc headed = .ok (some d0, headed.setQueue vq0) :=
      onQueue_of alloc0
    have step1 : onQueue allocDesc (headed.setQueue vq0) = .ok (none, headed.setQueue vq0) :=
      onQueue_of (allocDesc_nil free0)
    refine ⟨vq0.freeDesc d0, ?_, ?_, rings0.trans (sameRings_freeDesc vq0 d0)⟩
    · rw [prepare, bind_of_ok (writeHeader_eq reqType sector state), bind_of_ok step0]
      dsimp only
      rw [bind_of_ok step1]
      rfl
    · rw [freeDescs_freeDesc (by simp [free0]) (by simp [free0]), free0]
  | [d0, d1] =>
    obtain ⟨vq0, alloc0, free0, _, rings0⟩ := allocDesc_cons free
    obtain ⟨vq1, alloc1, free1, _, rings1⟩ := allocDesc_cons free0
    have step0 : onQueue allocDesc headed = .ok (some d0, headed.setQueue vq0) :=
      onQueue_of alloc0
    have step1 : onQueue allocDesc (headed.setQueue vq0) = .ok (some d1, headed.setQueue vq1) :=
      onQueue_of alloc1
    have step2 : onQueue allocDesc (headed.setQueue vq1) = .ok (none, headed.setQueue vq1) :=
      onQueue_of (allocDesc_nil free1)
    have isFree0 : (vq1.freeDesc d0).freeDescs = [d0] := by
      rw [freeDescs_freeDesc (by simp [free1]) (by simp [free1]), free1]
    have differ : d1 ∉ [d0] := by
      rw [free] at unique
      simp only [nodup_cons, mem_singleton] at unique ⊢
      exact fun same => unique.1 same.symm
    refine ⟨(vq1.freeDesc d0).freeDesc d1, ?_, ?_, ((rings0.trans rings1).trans
      (sameRings_freeDesc vq1 d0)).trans (sameRings_freeDesc _ d1)⟩
    · rw [prepare, bind_of_ok (writeHeader_eq reqType sector state), bind_of_ok step0]
      dsimp only
      rw [bind_of_ok step1]
      dsimp only
      rw [bind_of_ok step2]
      rfl
    · rw [freeDescs_freeDesc (by rwa [isFree0]) (by simp [isFree0]), isFree0]
      exact List.Perm.swap ..
  | _ :: _ :: _ :: _ =>
    rw [free] at short
    simp only [length_cons] at short
    omega

theorem BlkState.Idle.reorder (idle : state.Idle) {vq : Virtqueue} (reqType : Nat) (sector : UInt64)
    (free : vq.freeDescs.Perm state.dev.vq.freeDescs) (rings : SameRings state.dev.vq vq) :
    ((headerState state reqType sector).setQueue vq).Idle where
  free := by
    change vq.freeDescs.Perm vq.table
    rw [Virtqueue.table, rings.queueSize]
    exact free.trans idle.free
  polled := by
    change vq.lastUsedIdx = vq.usedIdx
    rw [rings.lastUsedIdx, rings.usedIdx, idle.polled]
  taken := by
    change state.device.lastAvailIdx = vq.availIdx
    rw [rings.availIdx, idle.taken]
  capacity := idle.capacity

theorem cons3_of_length {α : Type} {items : List α} (long : 3 ≤ items.length) :
    ∃ a b c rest, items = a :: b :: c :: rest := by
  match items with
  | a :: b :: c :: rest => exact ⟨a, b, c, rest, rfl⟩
  | [] => simp at long
  | [_] => simp at long
  | [_, _] => simp at long

end Prepare

def BlkState.advance (state : BlkState) : BlkState :=
  state.setQueue { state.dev.vq with lastUsedIdx := state.dev.vq.lastUsedIdx + 1 }

theorem pollUsed_nothing (polled : vq.lastUsedIdx = vq.usedIdx) : vq.pollUsed = (none, vq) :=
  if_pos polled

theorem ne_add_one (counter : UInt16) : counter ≠ counter + 1 := by
  intro same
  have equal := congrArg UInt16.toNat same
  change counter.toNat = (counter.toNat + 1) % 2 ^ 16 at equal
  omega

/-- The first poll after the device has served a chain returns its head. -/
theorem onQueue_pollUsed_serve (env : BlkEnv) (head : UInt16)
    (nodes : List UInt16) (polled : state.dev.vq.lastUsedIdx = state.dev.vq.usedIdx) :
    ∃ len, onQueue pollUsed (state.serve env head nodes) =
      .ok (some (head, len), (state.serve env head nodes).advance) := by
  have news : (state.serve env head nodes).dev.vq.lastUsedIdx ≠
      (state.serve env head nodes).dev.vq.usedIdx := by
    change state.dev.vq.lastUsedIdx ≠ state.dev.vq.usedIdx + 1
    rw [polled]
    exact ne_add_one _
  have entry : ((state.serve env head nodes).dev.vq.usedRing
      (state.dev.vq.lastUsedIdx % state.dev.vq.queueSize).toNat).id = head.toUInt32 := by
    rw [polled]
    simp only [serve, Function.update_self]
  refine ⟨((state.serve env head nodes).dev.vq.usedRing
    (state.dev.vq.lastUsedIdx % state.dev.vq.queueSize).toNat).len, onQueue_of ?_⟩
  rw [pollUsed, if_neg news]
  refine Prod.ext (congrArg some (Prod.ext ?_ rfl)) rfl
  exact (congrArg UInt32.toUInt16 entry).trans head.toUInt16_toUInt32

theorem waitUsed_ends (env : BlkEnv) {head : UInt16} {nodes : List UInt16}
    (news : state.device.lastAvailIdx ≠ state.dev.vq.availIdx)
    (next : state.dev.vq.availRing
      (state.device.lastAvailIdx % state.dev.vq.queueSize).toNat = head)
    (ends : state.dev.vq.chain head = some nodes)
    (polled : state.dev.vq.lastUsedIdx = state.dev.vq.usedIdx) :
    ∃ len, Ends (waitUsed env) state (.ok ((head, len), (state.serve env head nodes).advance)) := by
  obtain ⟨len, served⟩ := onQueue_pollUsed_serve env head nodes polled
  refine ⟨len, env.delay state.device.served - state.device.waited + 1, ?_⟩
  generalize waits : env.delay state.device.served - state.device.waited = turns
  induction turns generalizing state with
  | zero =>
    intro fuel large
    obtain ⟨fuel, rfl⟩ := Nat.exists_eq_add_of_le' large
    have turn : state.deviceTurn env = state.serve env head nodes := by
      simp only [deviceTurn]
      rw [if_neg news, if_neg (by omega), next, ends]
    rw [waitUsed, bind_modify, turn, bind_of_ok served]
    rfl
  | succ turns ih =>
    intro fuel large
    obtain ⟨fuel, rfl⟩ := Nat.exists_eq_add_of_le' (Nat.le_of_add_left_le large)
    let longer : BlkState :=
      { state with device := { state.device with waited := state.device.waited + 1 } }
    have turn : state.deviceTurn env = longer := by
      simp only [deviceTurn]
      rw [if_neg news, if_pos (by omega)]
    have nothing : onQueue pollUsed longer = .ok (none, longer) :=
      onQueue_of (pollUsed_nothing polled)
    have same : longer.serve env head nodes = state.serve env head nodes := rfl
    rw [waitUsed, bind_modify, turn, bind_of_ok nothing]
    have later : env.delay longer.device.served - longer.device.waited = turns := by
      change env.delay state.device.served - (state.device.waited + 1) = turns
      omega
    have rest := @ih longer news next ends polled (same ▸ served) later fuel (by omega)
    rwa [same] at rest

/-! ## What the device sees and answers -/

@[simp] theorem writable_next (addr len : Nat) (next : UInt16) :
    writable ⟨addr, len, vringDescFNext, next⟩ = false := by
  change (!decide (vringDescFNext &&& vringDescFWrite = 0)) = false
  decide

@[simp] theorem writable_write (addr len : Nat) (next : UInt16) :
    writable ⟨addr, len, vringDescFWrite, next⟩ = true := by
  change (!decide (vringDescFWrite &&& vringDescFWrite = 0)) = true
  decide

@[simp] theorem writable_both (addr len : Nat) (next : UInt16) :
    writable ⟨addr, len, vringDescFNext ||| vringDescFWrite, next⟩ = true := by
  change (!decide ((vringDescFNext ||| vringDescFWrite) &&& vringDescFWrite = 0)) = true
  decide

section Exchange

variable {state : BlkState} {reqType : Nat} {sector : UInt64}

theorem window_headed (state : BlkState) (reqType : Nat) (sector : UInt64) :
    window (headed state reqType sector) state.dev.reqPagePhys 16 =
      toLe 4 reqType ++ toLe 4 0 ++ toLe 8 sector.toNat := by
  rw [headed, window_overlay_apart (by omega)]
  exact window_overlay_self state.memory _ (toLe 4 reqType ++ toLe 4 0 ++ toLe 8 sector.toNat)

theorem header_fields (small : reqType < 256 ^ 4) (sector : UInt64) (rest : List UInt8) :
    fromLe ((toLe 4 reqType ++ toLe 4 0 ++ toLe 8 sector.toNat ++ rest).take 4) = reqType ∧
      fromLe (((toLe 4 reqType ++ toLe 4 0 ++ toLe 8 sector.toNat ++ rest).drop 8).take 8) =
        sector.toNat ∧
      (toLe 4 reqType ++ toLe 4 0 ++ toLe 8 sector.toNat ++ rest).drop 16 = rest := by
  refine ⟨?_, ?_, ?_⟩
  · rw [append_assoc, append_assoc, take_left' (length_toLe ..), fromLe_toLe,
      Nat.mod_eq_of_lt small]
  · have bound : sector.toNat < 256 ^ 8 := sector.toNat_lt
    rw [append_assoc, drop_left' (by simp), take_left' (length_toLe ..), fromLe_toLe,
      Nat.mod_eq_of_lt bound]
  · exact drop_left' (by simp)

def buffers (page dataPhys : Nat) (dataFlags d1 d2 : UInt16) : List VirtqDesc :=
  [⟨page, 16, vringDescFNext, d1⟩, ⟨dataPhys, sectorSize, dataFlags, d2⟩,
    ⟨page + 128, 1, vringDescFWrite, 0⟩]

theorem requestOf_in (small : reqType < 256 ^ 4) (dataPhys : Nat) (d1 d2 : UInt16) :
    requestOf (headed state reqType sector)
        (buffers state.dev.reqPagePhys dataPhys (vringDescFNext ||| vringDescFWrite) d1 d2) =
      ⟨reqType, sector.toNat, [], sectorSize⟩ := by
  obtain ⟨isType, isSector, noData⟩ := header_fields small sector []
  simp only [append_nil] at isType isSector noData
  simp only [requestOf, gather, buffers, filter_cons, filter_nil, writable_next,
    writable_write, writable_both, Bool.not_false, Bool.not_true, if_true, flatMap_cons,
    flatMap_nil, append_nil, window_headed, map_cons, map_nil, sum_cons,
    sum_nil, Bool.false_eq_true, if_false, isType, isSector, noData]
  rfl

theorem requestOf_out (small : reqType < 256 ^ 4) (dataPhys : Nat) (d1 d2 : UInt16) :
    requestOf (headed state reqType sector)
        (buffers state.dev.reqPagePhys dataPhys vringDescFNext d1 d2) =
      ⟨reqType, sector.toNat, window (headed state reqType sector) dataPhys sectorSize, 0⟩ := by
  obtain ⟨isType, isSector, isData⟩ := header_fields small sector
    (window (headed state reqType sector) dataPhys sectorSize)
  simp only [requestOf, gather, buffers, filter_cons, filter_nil, writable_next,
    writable_write, Bool.not_false, Bool.not_true, if_true, flatMap_cons, flatMap_nil,
    append_nil, window_headed, map_cons, map_nil, sum_cons, sum_nil,
    Bool.false_eq_true, if_false, isType, isSector, isData]
  rfl

theorem scatter_in {reply : List UInt8} (status : UInt8)
    (d1 d2 : UInt16) (full : reply.length = sectorSize) :
    scatter ((buffers page dataPhys (vringDescFNext ||| vringDescFWrite) d1 d2).filter
        writable) (reply ++ [status]) memory =
      overlay (overlay memory dataPhys reply) (page + 128) [status] := by
  simp [buffers, scatter, ← full]

theorem scatter_out (status : UInt8) (d1 d2 : UInt16) :
    scatter ((buffers page dataPhys vringDescFNext d1 d2).filter writable) [status]
      memory = overlay memory (page + 128) [status] := by
  simp [buffers, scatter]

theorem BlkError.status_ne_ok (error : BlkError) : error.status ≠ virtioBlkSOk := by
  cases error <;> decide

section

variable (env : BlkEnv) (device : BlkDevice)
include env device

theorem handle_in (sector : Nat) :
    let result := device.handle env ⟨virtioBlkTIn, sector, [], sectorSize⟩
    result.bytes = device.bytes ∧
      (result.status = virtioBlkSOk ↔
        sector < device.capacity ∧ env.error device.served = none) ∧
      (result.status = virtioBlkSOk →
        result.reply = window device.bytes (sector * sectorSize) sectorSize) := by
  have bad : virtioBlkSIoerr ≠ virtioBlkSOk := by decide
  simp only [BlkDevice.handle, if_true]
  split
  · next inside =>
    have within : sector < device.capacity := by
      simp only [sectorSize] at inside
      omega
    cases env.error device.served with
    | none => simp [within]
    | some error => simp [error.status_ne_ok]
  · next outside =>
    refine ⟨rfl, iff_of_false bad fun fine => outside ?_, fun isOk => absurd isOk bad⟩
    simp only [sectorSize]
    omega

theorem handle_out (sector : Nat) {data : List UInt8} (full : data.length = sectorSize) :
    let result := device.handle env ⟨virtioBlkTOut, sector, data, 0⟩
    (∀ addr, addr < sector * sectorSize ∨ (sector + 1) * sectorSize ≤ addr →
        result.bytes addr = device.bytes addr) ∧
      (result.status = virtioBlkSOk ↔
        sector < device.capacity ∧ env.error device.served = none) ∧
      (result.status = virtioBlkSOk →
        result.bytes = overlay device.bytes (sector * sectorSize) data) := by
  have bad : virtioBlkSIoerr ≠ virtioBlkSOk := by decide
  have other : virtioBlkTOut ≠ virtioBlkTIn := by decide
  have next : (sector + 1) * sectorSize = sector * sectorSize + sectorSize := Nat.succ_mul ..
  simp only [BlkDevice.handle, if_neg other, if_true, full]
  split
  · next inside =>
    have within : sector < device.capacity := by
      simp only [sectorSize] at inside
      omega
    cases env.error device.served with
    | none =>
      refine ⟨fun addr outside => overlay_of_not_mem ?_, by simp [within], fun _ => rfl⟩
      rwa [full, ← next]
    | some error =>
      refine ⟨fun addr outside => overlay_of_not_mem ?_, by simp [error.status_ne_ok],
        fun isOk => absurd isOk error.status_ne_ok⟩
      rwa [length_window, ← next]
  · next outside =>
    refine ⟨fun _ _ => rfl, iff_of_false bad fun fine => outside ?_, fun isOk => absurd isOk bad⟩
    simp only [sectorSize]
    omega

theorem length_reply (request : BlkRequest) :
    (device.handle env request).reply.length = request.room := by
  simp only [BlkDevice.handle]
  repeat' split
  all_goals exact length_window ..

end

theorem Linked3.chainFrom (linked : Linked3 page dataPhys dataFlags vq d0 d1 d2)
    (more : dataFlags &&& vringDescFNext ≠ 0) (fuel : Nat) :
    Virtqueue.chainFrom vq.desc (fuel + 3) d0 = some [d0, d1, d2] := by
  have first : vringDescFNext &&& vringDescFNext ≠ 0 := by decide
  have last : vringDescFWrite &&& vringDescFNext = 0 := by decide
  rw [Virtqueue.chainFrom, linked.header, if_neg first, Virtqueue.chainFrom, linked.data,
    if_neg more, Virtqueue.chainFrom, linked.status, if_pos last]
  rfl

/-- The state in which a prepared chain has been submitted. -/
def submitted (state : BlkState) (reqType : Nat) (sector : UInt64) (vq : Virtqueue) (d0 : UInt16) :
    BlkState :=
  (headerState state reqType sector).setQueue (vq.submit d0)

/-- The device has served the submitted chain, and the driver has seen it. -/
def served (env : BlkEnv) (state : BlkState) (reqType : Nat) (sector : UInt64) (vq : Virtqueue)
    (d0 d1 d2 : UInt16) : BlkState :=
  ((submitted state reqType sector vq d0).serve env d0 [d0, d1, d2]).advance

/-- What the device answers to a request of an idle driver. -/
def answer (env : BlkEnv) (state : BlkState) (reqType : Nat) (sector : UInt64) (dataPhys : Nat)
    (dataFlags d1 d2 : UInt16) : BlkResult :=
  state.device.handle env (requestOf (headed state reqType sector)
    (buffers state.dev.reqPagePhys dataPhys dataFlags d1 d2))

theorem Linked3.map_desc (linked : Linked3 page dataPhys dataFlags vq d0 d1 d2) :
    [d0, d1, d2].map vq.desc = buffers page dataPhys dataFlags d1 d2 := by
  change [vq.desc d0, vq.desc d1, vq.desc d2] = _
  rw [linked.header, linked.data, linked.status]
  rfl

section

variable (env : BlkEnv) (idle : state.Idle) (more : dataFlags &&& vringDescFNext ≠ 0)
  (before : state.dev.vq.freeDescs = d0 :: d1 :: d2 :: rest) (rings : SameRings state.dev.vq vq)
  (linked : Linked3 state.dev.reqPagePhys dataPhys dataFlags vq d0 d1 d2)
include idle more before rings linked

theorem waitUsed_submitted : ∃ len, Ends (waitUsed env) (submitted state reqType sector vq d0)
    (.ok ((d0, len), served env state reqType sector vq d0 d1 d2)) := by
  refine waitUsed_ends env ?_ ?_ ?_ ?_
  · change state.device.lastAvailIdx ≠ vq.availIdx + 1
    rw [idle.taken, ← rings.availIdx]
    exact ne_add_one _
  · change Function.update vq.availRing _ d0 (state.device.lastAvailIdx % vq.queueSize).toNat = d0
    rw [idle.taken, ← rings.availIdx]
    exact Function.update_self ..
  · change Virtqueue.chainFrom vq.desc vq.queueSize.toNat d0 = _
    rw [rings.queueSize, ← idle.length_free, before]
    exact linked.chainFrom more rest.length
  · change vq.lastUsedIdx = vq.usedIdx
    rw [rings.lastUsedIdx, rings.usedIdx, idle.polled]

/-- Freeing the served chain makes the driver idle again. -/
theorem freeChain_served (free : vq.freeDescs = rest) : ∃ after,
    Ends (fun fuel => freeChain fuel d0) (served env state reqType sector vq d0 d1 d2)
        (.ok ((), after)) ∧ after.Idle ∧ SameSetup state after ∧
      after.device = (served env state reqType sector vq d0 d1 d2).device := by
  have unique := idle.unique
  have room := idle.length_free
  have small := state.dev.vq.queueSize.toNat_lt
  rw [before] at unique room
  have held : ∀ d ∈ [d0, d1, d2], d ∉ vq.freeDescs := by
    rw [free]
    have apart := (nodup_append.mp (show ([d0, d1, d2] ++ rest).Nodup from unique)).2.2
    exact fun d member free => apart d member d free rfl
  have ends : Virtqueue.chainFrom (served env state reqType sector vq d0 d1 d2).dev.vq.desc 3 d0 =
      some [d0, d1, d2] := linked.chainFrom more 0
  obtain ⟨vq', freed, spec⟩ := freeChain_eq ends held (by
    change vq.freeDescs.length + 3 < _
    rw [free]
    simp only [length_cons] at room
    omega)
  have sizes : vq'.queueSize = state.dev.vq.queueSize := spec.rings.queueSize.trans rings.queueSize
  refine ⟨(served env state reqType sector vq d0 d1 d2).setQueue vq', ⟨3, fun fuel large => ?_⟩,
    ⟨?_, ?_, ?_, idle.capacity⟩, ⟨rfl, rfl, sizes, rfl⟩, rfl⟩
  · change CantayaOS.Virtio.freeChain fuel d0 _ = _
    rw [CantayaOS.Virtio.freeChain, bind_get, freeChain_mono freed large]
    rfl
  · change vq'.freeDescs.Perm vq'.table
    rw [spec.freeDescs, Virtqueue.table, sizes]
    refine List.Perm.trans ?_ idle.free
    rw [before, ← free]
    exact (reverse_perm [d0, d1, d2]).append_right vq.freeDescs
  · change vq'.lastUsedIdx = vq'.usedIdx
    rw [spec.rings.lastUsedIdx, spec.rings.usedIdx]
    change vq.lastUsedIdx + 1 = vq.usedIdx + 1
    rw [rings.lastUsedIdx, rings.usedIdx, idle.polled]
  · change state.device.lastAvailIdx + 1 = vq'.availIdx
    rw [spec.rings.availIdx, idle.taken, ← rings.availIdx]
    rfl

end

/-- A request of an idle driver finds too few descriptors, or it is served and its chain freed. -/
theorem request_cases (env : BlkEnv) (idle : state.Idle) (reqType : Nat) (sector : UInt64)
    (dataPhys : Nat) (more : dataFlags &&& vringDescFNext ≠ 0) :
    (state.dev.vq.queueSize.toNat < 3 ∧ ∃ after,
      prepare reqType sector dataPhys dataFlags state = .ok (none, after) ∧ after.Idle ∧
        SameSetup state after ∧ after.device = state.device) ∨
    3 ≤ state.dev.vq.queueSize.toNat ∧ ∃ d0 d1 d2 len middle seen after,
      prepare reqType sector dataPhys dataFlags state = .ok (some d0, middle) ∧
      Ends (waitUsed env) (middle.setQueue (middle.dev.vq.submit d0)) (.ok ((d0, len), seen)) ∧
      Ends (fun fuel => freeChain fuel d0) seen (.ok ((), after)) ∧ after.Idle ∧
      SameSetup state after ∧
      seen.memory = scatter
        ((buffers state.dev.reqPagePhys dataPhys dataFlags d1 d2).filter writable)
        ((answer env state reqType sector dataPhys dataFlags d1 d2).reply ++
          [(answer env state reqType sector dataPhys dataFlags d1 d2).status])
        (headed state reqType sector) ∧
      after.device.bytes = (answer env state reqType sector dataPhys dataFlags d1 d2).bytes ∧
      after.device.served = state.device.served + 1 := by
  rcases Nat.lt_or_ge state.dev.vq.queueSize.toNat 3 with few | enough
  · obtain ⟨vq, prepared, free, rings⟩ := prepare_none reqType sector dataPhys dataFlags
      (idle.length_free.trans_lt few) idle.unique
    exact .inl ⟨few, _, prepared, idle.reorder reqType sector free rings,
      ⟨rfl, rfl, rings.queueSize, rfl⟩, rfl⟩
  · obtain ⟨d0, d1, d2, rest, before⟩ := cons3_of_length (enough.trans_eq idle.length_free.symm)
    obtain ⟨vq, prepared, free, rings, linked⟩ := prepare_some reqType sector dataPhys dataFlags
      before (before ▸ idle.unique)
    obtain ⟨len, waits⟩ := waitUsed_submitted env idle more before rings linked
    obtain ⟨after, frees, idle', setup, device⟩ :=
      freeChain_served env idle more before rings linked free
    refine .inr ⟨enough, d0, d1, d2, len, _, _, after, prepared, waits, frees, idle', setup, ?_, ?_, ?_⟩
    · rw [answer, ← linked.map_desc]
      rfl
    · rw [device, answer, ← linked.map_desc]
      rfl
    · rw [device]
      rfl

end Exchange

end CantayaOS.Virtio
