import CantayaOS.Virtio.BlockRequest

/-!
# Transfers of sectors

Reading and writing ranges of sectors, one request a sector.  Every call leaves
the driver idle, a write changes only the sectors of its range, and what a
successful write has put there is what a read gets back.
-/

namespace CantayaOS.Virtio

open Lib Lib.Bytes Lib.Checked Virtqueue BlkState List Nat Ends

variable {after : BlkState} {count lba : UInt64} {env : BlkEnv}

section Requests

variable {state : BlkState}

/-- There are descriptors for a request, and the device can serve it. -/
def BlkState.Serves (env : BlkEnv) (state : BlkState) (sector n : Nat) : Prop :=
  3 ≤ state.dev.vq.queueSize.toNat ∧ sector < state.device.capacity ∧ env.error n = none

/-- What holds after every request. -/
structure Requested (env : BlkEnv) (state : BlkState) (sector : Nat) (ok : Bool)
    (after : BlkState) : Prop where
  idle : after.Idle
  setup : SameSetup state after
  ok_iff : ok = true ↔ state.Serves env sector state.device.served
  served : ok = true → after.device.served = state.device.served + 1

structure ReadDone (env : BlkEnv) (state : BlkState) (sector : Nat) (buf : List UInt8)
    (ok : Bool) (part : List UInt8) (after : BlkState) : Prop
    extends Requested env state sector ok after where
  bytes : after.device.bytes = state.device.bytes
  length : buf.length = sectorSize → part.length = sectorSize
  read : ok = true → part = window state.device.bytes (sector * sectorSize) sectorSize

theorem finishRead_ends {served : BlkState} {page : Nat} {d0 : UInt16} {status : UInt8}
    {reply : List UInt8}
    (frees : Ends (fun fuel => CantayaOS.Virtio.freeChain fuel d0) served (.ok ((), after)))
    (isStatus : served.memory (page + 128) = status)
    (isReply : window served.memory (page + 512) sectorSize = reply) (buf : List UInt8) :
    Ends (fun fuel => finishRead fuel page d0 buf) served
      (.ok ((decide (status = virtioBlkSOk), if status = virtioBlkSOk then reply else buf),
        after)) := by
  subst isStatus isReply
  exact (frees.andThen (pure (_, _) after)).congr fun _ => rfl

theorem finishWrite_ends {served : BlkState} {page : Nat} {d0 : UInt16} {status : UInt8}
    (frees : Ends (fun fuel => CantayaOS.Virtio.freeChain fuel d0) served (.ok ((), after)))
    (isStatus : served.memory (page + 128) = status) :
    Ends (fun fuel => finishWrite fuel page d0) served
      (.ok (decide (status = virtioBlkSOk), after)) := by
  subst isStatus
  exact (frees.andThen (pure _ after)).congr fun _ => rfl

theorem doRequest_ends (env : BlkEnv) (idle : state.Idle) (sector : UInt64) (buf : List UInt8) :
    ∃ ok part after,
      Ends (fun fuel => doRequest env fuel virtioBlkTIn sector buf) state
        (.ok ((ok, part), after)) ∧
      ReadDone env state sector.toNat buf ok part after := by
  generalize isPage : state.dev.reqPagePhys = page
  rcases request_cases env idle virtioBlkTIn sector (page + 512)
      (show (vringDescFNext ||| vringDescFWrite) &&& vringDescFNext ≠ 0 by decide) with
    ⟨few, after, prepared, idle', setup, device⟩ |
    ⟨enough, d0, d1, d2, len, _, seen, after, prepared, waits, frees, idle', setup, memory, bytes,
      count⟩
  · refine ⟨false, buf, after, of_eq fun fuel => ?_,
      ⟨idle', setup, iff_of_false nofun fun serves => serves.1.not_gt few, nofun⟩,
      congrArg _ device, id, nofun⟩
    rw [doRequest, bind_get, isPage, bind_of_ok prepared]
    rfl
  · have asked : answer env state virtioBlkTIn sector (page + 512)
        (vringDescFNext ||| vringDescFWrite) d1 d2 =
          state.device.handle env ⟨virtioBlkTIn, sector.toNat, [], sectorSize⟩ :=
      congrArg (state.device.handle env) (requestOf_in (by decide) ..)
    rw [asked] at memory bytes
    obtain ⟨unchanged, isOk, reads⟩ := handle_in env state.device sector.toNat
    have full : (state.device.handle env ⟨virtioBlkTIn, sector.toNat, [], sectorSize⟩).reply.length =
        sectorSize := length_reply ..
    generalize state.device.handle env ⟨virtioBlkTIn, sector.toNat, [], sectorSize⟩ = result at *
    rw [scatter_in _ _ _ full, isPage] at memory
    have isStatus : seen.memory (page + 128) = result.status := by
      rw [memory]
      exact overlay_of_mem (i := 0) (by simp)
    have isReply : window seen.memory (page + 512) sectorSize = result.reply := by
      rw [memory, window_overlay_apart (by simp), ← full]
      exact window_overlay_self ..
    refine ⟨decide (result.status = virtioBlkSOk),
      if result.status = virtioBlkSOk then result.reply else buf, after, ?_,
      ⟨idle', setup, ?_, fun _ => count⟩, bytes.trans unchanged, ?_, ?_⟩
    · refine (waits.andThen (finishRead_ends frees isStatus isReply buf)).congr ?_
      intro fuel
      rw [doRequest, bind_get, isPage, bind_of_ok prepared]
      rfl
    · rw [decide_eq_true_iff, isOk, Serves, and_iff_right enough]
    · intro whole
      split
      · exact full
      · exact whole
    · intro isOk
      have isOk := of_decide_eq_true isOk
      rw [if_pos isOk, reads isOk]

structure WriteDone (env : BlkEnv) (state : BlkState) (sector : Nat) (staged : List UInt8) (ok : Bool)
    (after : BlkState) : Prop extends Requested env state sector ok after where
  elsewhere : ∀ addr, addr < sector * sectorSize ∨ (sector + 1) * sectorSize ≤ addr →
    after.device.bytes addr = state.device.bytes addr
  written : ok = true →
    after.device.bytes = overlay state.device.bytes (sector * sectorSize) staged

theorem doRequestRaw_ends (env : BlkEnv) (idle : state.Idle) (sector : UInt64) :
    ∃ ok after,
      Ends (fun fuel => doRequestRaw env fuel virtioBlkTOut sector) state (.ok (ok, after)) ∧
      WriteDone env state sector.toNat
        (window state.memory (state.dev.reqPagePhys + 256) sectorSize) ok after := by
  generalize isPage : state.dev.reqPagePhys = page
  rcases request_cases env idle virtioBlkTOut sector (page + 256)
      (show vringDescFNext &&& vringDescFNext ≠ 0 by decide) with
    ⟨few, after, prepared, idle', setup, device⟩ |
    ⟨enough, d0, d1, d2, len, _, seen, after, prepared, waits, frees, idle', setup, memory, bytes,
      count⟩
  · refine ⟨false, after, of_eq fun fuel => ?_,
      ⟨idle', setup, iff_of_false nofun fun serves => serves.1.not_gt few, nofun⟩,
      fun _ _ => ?_, nofun⟩
    · rw [doRequestRaw, bind_get, isPage, bind_of_ok prepared]
      rfl
    · rw [device]
  · have staged : window (headed state virtioBlkTOut sector) (page + 256) sectorSize =
        window state.memory (page + 256) sectorSize := by
      rw [headed, isPage, window_overlay_apart (by simp), window_overlay_apart (by simp)]
    have asked : answer env state virtioBlkTOut sector (page + 256) vringDescFNext d1 d2 =
        state.device.handle env
          ⟨virtioBlkTOut, sector.toNat, window state.memory (page + 256) sectorSize, 0⟩ := by
      rw [← staged]
      exact congrArg (state.device.handle env) (requestOf_out (by decide) ..)
    rw [asked] at memory bytes
    obtain ⟨elsewhere, isOk, written⟩ := handle_out env state.device sector.toNat
      (length_window state.memory (page + 256) sectorSize)
    have noReply : (state.device.handle env
        ⟨virtioBlkTOut, sector.toNat, window state.memory (page + 256) sectorSize, 0⟩).reply = [] :=
      eq_nil_of_length_eq_zero (length_reply ..)
    generalize state.device.handle env ⟨virtioBlkTOut, sector.toNat,
      window state.memory (page + 256) sectorSize, 0⟩ = result at *
    rw [noReply, nil_append, scatter_out, isPage] at memory
    have isStatus : seen.memory (page + 128) = result.status := by
      rw [memory]
      exact overlay_of_mem (i := 0) (by simp)
    refine ⟨decide (result.status = virtioBlkSOk), after, ?_,
      ⟨idle', setup, ?_, fun _ => count⟩, ?_, ?_⟩
    · refine (waits.andThen (finishWrite_ends frees isStatus)).congr ?_
      intro fuel
      rw [doRequestRaw, bind_get, isPage, bind_of_ok prepared]
      rfl
    · rw [decide_eq_true_iff, isOk, Serves, and_iff_right enough]
    · rwa [bytes]
    · exact fun isOk => bytes.trans (written (of_decide_eq_true isOk))

end Requests

/-! ## Loops over sectors -/

def sectorAt (buf : List UInt8) (i : Nat) : List UInt8 :=
  (buf.drop (i * sectorSize)).take sectorSize

section Sectors

variable {buf part : List UInt8} {i j : Nat}

theorem sectorSlice_ok (inside : (i + 1) * sectorSize ≤ buf.length) :
    sectorSlice buf i = .ok (sectorAt buf i) :=
  if_pos inside

theorem sectorSlice_panic (outside : ¬ (i + 1) * sectorSize ≤ buf.length) :
    sectorSlice buf i = .error .panic :=
  if_neg outside

section

variable (inside : (i + 1) * sectorSize ≤ buf.length)
include inside

theorem length_sectorAt : (sectorAt buf i).length = sectorSize := by
  rw [sectorAt, length_take, length_drop]
  simp only [sectorSize] at inside ⊢
  omega

theorem length_putSector
    (full : part.length = sectorSize) : (putSector buf i part).length = buf.length := by
  simp only [putSector, length_append, length_take, length_drop, full]
  simp only [sectorSize] at inside ⊢
  omega

theorem length_take_sectors : (buf.take (i * sectorSize)).length = i * sectorSize := by
  rw [length_take]
  simp only [sectorSize] at inside ⊢
  omega

theorem sectorAt_putSector_self
    (full : part.length = sectorSize) : sectorAt (putSector buf i part) i = part := by
  rw [sectorAt, putSector, append_assoc, drop_left' (length_take_sectors inside), take_left' full]

theorem sectorAt_putSector_before (earlier : j < i) :
    sectorAt (putSector buf i part) j = sectorAt buf j := by
  have whole : j * sectorSize + sectorSize ≤ i * sectorSize := by
    simp only [sectorSize]
    omega
  have before := length_take_sectors inside
  rw [sectorAt, sectorAt, putSector, append_assoc, drop_append_of_le_length (by omega),
    take_append_of_le_length (by rw [length_drop]; omega), drop_take,
    take_take, min_eq_left (by omega)]

end

theorem take_eq_of_sectorAt {other : List UInt8} {count : Nat}
    (agree : ∀ i < count, sectorAt buf i = sectorAt other i) :
    buf.take (count * sectorSize) = other.take (count * sectorSize) := by
  induction count with
  | zero => simp
  | succ count ih =>
    rw [succ_mul, take_add, take_add, ih fun i below => agree i (by omega)]
    exact congrArg _ (agree count (lt_succ_self count))

end Sectors

theorem toNat_add_ofNat {i : Nat} (low : lba.toNat + i < 2 ^ 64) :
    (lba + UInt64.ofNat i).toNat = lba.toNat + i := by
  rw [UInt64.toNat_add, UInt64.toNat_ofNat_of_lt' (show i < 2 ^ 64 by omega)]
  exact mod_eq_of_lt low

theorem BlkState.SameSetup.trans {state middle : BlkState} (first : SameSetup state middle)
    (second : SameSetup middle after) : SameSetup state after where
  reqPagePhys := second.reqPagePhys.trans first.reqPagePhys
  capacity := second.capacity.trans first.capacity
  queueSize := second.queueSize.trans first.queueSize
  sectors := second.sectors.trans first.sectors

theorem BlkState.Idle.next_lt {state : BlkState} (idle : state.Idle) {sector first : Nat}
    (inside : sector + first < state.device.capacity) : sector + (first + 1) < 2 ^ 64 := by
  have capacity := state.dev.capacity.toNat_lt
  rw [idle.capacity] at inside
  omega

theorem outside_range {sector count addr : Nat}
    (outside : addr < sector * sectorSize ∨ (sector + (count + 1)) * sectorSize ≤ addr) :
    (addr < sector * sectorSize ∨ (sector + 1) * sectorSize ≤ addr) ∧
      (addr < (sector + 1) * sectorSize ∨ (sector + 1 + count) * sectorSize ≤ addr) := by
  simp only [sectorSize] at outside ⊢
  omega

theorem before_next {sector j : Nat} (inside : j < sectorSize) :
    sector * sectorSize + j < (sector + 1) * sectorSize := by
  rw [succ_mul]
  omega

/-- What holds after requests for the sectors `lba + first` and on. -/
structure Transferred (env : BlkEnv) (state : BlkState) (lba first count : Nat) (ok : Bool)
    (after : BlkState) : Prop where
  idle : after.Idle
  setup : SameSetup state after
  ok_iff : ok = true ↔
    ∀ k < count, state.Serves env (lba + (first + k)) (state.device.served + k)

structure Stored (env : BlkEnv) (state : BlkState) (lba first count : Nat) (buf : List UInt8)
    (ok : Bool) (after : BlkState) : Prop extends Transferred env state lba first count ok after where
  elsewhere : ∀ addr, addr < (lba + first) * sectorSize ∨ (lba + first + count) * sectorSize ≤ addr →
    after.device.bytes addr = state.device.bytes addr
  stored : ok = true → ∀ i, first ≤ i → i < first + count →
    window after.device.bytes ((lba + i) * sectorSize) sectorSize = sectorAt buf i

section Transfer

variable {state middle : BlkState} {sector first remaining : Nat} {ok : Bool}

theorem BlkState.SameSetup.serves (setup : SameSetup state after) (n : Nat) :
    after.Serves env sector n ↔ state.Serves env sector n := by
  rw [Serves, Serves, setup.queueSize, setup.sectors]

theorem Transferred.nothing (idle : state.Idle) :
    Transferred env state sector first 0 true state :=
  ⟨idle, ⟨rfl, rfl, rfl, rfl⟩, iff_of_true rfl nofun⟩

theorem Requested.stop (done : Requested env state (sector + first) false after) :
    Transferred env state sector first (remaining + 1) false after :=
  ⟨done.idle, done.setup, iff_of_false nofun fun serves =>
    nomatch done.ok_iff.mpr (serves 0 (succ_pos _))⟩

theorem Requested.next (done : Requested env state (sector + first) true middle)
    (rest : Transferred env middle sector (first + 1) remaining ok after) :
    Transferred env state sector first (remaining + 1) ok after := by
  refine ⟨rest.idle, done.setup.trans rest.setup, ?_⟩
  rw [rest.ok_iff, forall_lt_succ_left', done.served rfl]
  refine (forall₂_congr fun k _ => ?_).trans (and_iff_right (done.ok_iff.mp rfl)).symm
  rw [done.setup.serves, add_assoc first, add_assoc _ 1, add_comm 1 k]

end Transfer

variable {state : BlkState}

theorem writeLoop_ends (env : BlkEnv) (buf : List UInt8)
    (idle : state.Idle) (count first : Nat) (low : lba.toNat + first < 2 ^ 64) :
    ∃ outcome, Ends (fun fuel => writeLoop env fuel lba buf count first) state outcome ∧
      (outcome = .error .panic ∧ buf.length < (first + count) * sectorSize ∨
        ∃ ok after, outcome = .ok (ok, after) ∧
          Stored env state lba.toNat first count buf ok after) := by
  induction count generalizing first state with
  | zero =>
    refine ⟨_, pure true state, .inr ⟨true, state, rfl, .nothing idle, fun _ _ => rfl, ?_⟩⟩
    intro _ i atLeast below
    omega
  | succ count ih =>
    by_cases inBuf : (first + 1) * sectorSize ≤ buf.length
    case neg =>
      refine ⟨.error .panic, of_eq fun fuel => ?_, .inl ⟨rfl, ?_⟩⟩
      · rw [writeLoop, bind_lift_error (sectorSlice_panic inBuf)]
      · simp only [sectorSize] at inBuf ⊢
        omega
    -- one sector is staged and written
    let staged : BlkState :=
      { state with memory := overlay state.memory (state.dev.reqPagePhys + 256) (sectorAt buf first) }
    have idleStaged : staged.Idle := ⟨idle.free, idle.polled, idle.taken, idle.capacity⟩
    obtain ⟨ok, middle, requested, done⟩ :=
      doRequestRaw_ends env idleStaged (lba + UInt64.ofNat first)
    have isStaged : window staged.memory (staged.dev.reqPagePhys + 256) sectorSize =
        sectorAt buf first := by
      rw [← length_sectorAt inBuf]
      exact window_overlay_self ..
    rw [isStaged, toNat_add_ofNat low] at done
    have requested' : Requested env state (lba.toNat + first) ok middle :=
      ⟨done.idle, ⟨done.setup.1, done.setup.2, done.setup.3, done.setup.4⟩, done.ok_iff, done.served⟩
    have goes (fuel : Nat) : writeLoop env fuel lba buf (count + 1) first state =
        (doRequestRaw env fuel virtioBlkTOut (lba + UInt64.ofNat first) >>= fun ok =>
          if ok = true then writeLoop env fuel lba buf count (first + 1) else pure false)
            staged := by
      rw [writeLoop, bind_lift_ok (sectorSlice_ok inBuf)]
      rfl
    cases ok with
    | false =>
      have stops : Ends (fun fuel => if false = true then
          writeLoop env fuel lba buf count (first + 1) else pure false) middle
          (.ok (false, middle)) := pure false middle
      refine ⟨.ok (false, middle), congr (bind requested stops) goes,
        .inr ⟨false, middle, rfl, requested'.stop, ?_, (absurd · Bool.false_ne_true)⟩⟩
      intro addr outside
      exact done.elsewhere addr (outside_range outside).1
    | true =>
      obtain ⟨outcome, ends, result⟩ := ih done.idle (first + 1)
        (idle.next_lt (requested'.ok_iff.mp rfl).2.1)
      have continues := ends.congr fun _ => rfl
      refine ⟨outcome, congr (bind requested continues) goes, ?_⟩
      rcases result with ⟨panics, short⟩ | ⟨ok, after, isOk, rest⟩
      · refine .inl ⟨panics, ?_⟩
        rwa [add_right_comm] at short
      refine .inr ⟨ok, after, isOk, requested'.next rest.toTransferred, ?_, ?_⟩
      · intro addr outside
        rw [rest.elsewhere addr (outside_range outside).2]
        exact done.elsewhere addr (outside_range outside).1
      · intro isOk i atLeast below
        rcases eq_or_lt_of_le atLeast with rfl | later
        · have kept : window after.device.bytes ((lba.toNat + first) * sectorSize) sectorSize =
              window middle.device.bytes ((lba.toNat + first) * sectorSize) sectorSize :=
            window_congr fun j small => rest.elsewhere _ (.inl (before_next small))
          rw [kept, done.written rfl, ← length_sectorAt inBuf]
          exact window_overlay_self ..
        · exact rest.stored isOk i later (by omega)

/-- What reading the sectors `lba + first` and on into a buffer does. -/
structure Fetched (env : BlkEnv) (state : BlkState) (lba first count : Nat) (buf : List UInt8)
    (result : Bool × List UInt8) (after : BlkState) : Prop
    extends Transferred env state lba first count result.1 after where
  bytes : after.device.bytes = state.device.bytes
  kept : ∀ j < first, sectorAt result.2 j = sectorAt buf j
  fetched : result.1 = true → ∀ i, first ≤ i → i < first + count →
    sectorAt result.2 i = window state.device.bytes ((lba + i) * sectorSize) sectorSize

theorem readLoop_ends (env : BlkEnv) (buf : List UInt8)
    (idle : state.Idle) (count first : Nat) (low : lba.toNat + first < 2 ^ 64) :
    ∃ outcome, Ends (fun fuel => readLoop env fuel lba count first buf) state outcome ∧
      (outcome = .error .panic ∧ buf.length < (first + count) * sectorSize ∨
        ∃ result after, outcome = .ok (result, after) ∧
          Fetched env state lba.toNat first count buf result after) := by
  induction count generalizing first state buf with
  | zero =>
    refine ⟨_, pure (true, buf) state, .inr ⟨(true, buf), state, rfl, .nothing idle, rfl,
      fun _ _ => rfl, ?_⟩⟩
    intro _ i atLeast below
    omega
  | succ count ih =>
    by_cases inBuf : (first + 1) * sectorSize ≤ buf.length
    case neg =>
      refine ⟨.error .panic, of_eq fun fuel => ?_, .inl ⟨rfl, ?_⟩⟩
      · rw [readLoop, bind_lift_error (sectorSlice_panic inBuf)]
      · simp only [sectorSize] at inBuf ⊢
        omega
    obtain ⟨ok, part, middle, requested, done⟩ :=
      doRequest_ends env idle (lba + UInt64.ofNat first) (sectorAt buf first)
    rw [toNat_add_ofNat low] at done
    have full : part.length = sectorSize := done.length (length_sectorAt inBuf)
    have goes (fuel : Nat) : readLoop env fuel lba (count + 1) first buf state =
        (doRequest env fuel virtioBlkTIn (lba + UInt64.ofNat first) (sectorAt buf first) >>=
          fun result =>
            if result.1 = true then
              readLoop env fuel lba count (first + 1) (putSector buf first result.2)
            else pure (false, putSector buf first result.2)) state := by
      rw [readLoop, bind_lift_ok (sectorSlice_ok inBuf)]
    cases ok with
    | false =>
      have stops : Ends (fun fuel => if false = true then
          readLoop env fuel lba count (first + 1) (putSector buf first part)
          else pure (false, putSector buf first part)) middle
          (.ok ((false, putSector buf first part), middle)) := pure _ middle
      refine ⟨_, congr (bind requested stops) goes,
        .inr ⟨(false, putSector buf first part), middle, rfl, done.toRequested.stop, done.bytes,
          fun j before => sectorAt_putSector_before inBuf before, (absurd · Bool.false_ne_true)⟩⟩
    | true =>
      obtain ⟨outcome, ends, result⟩ := ih (putSector buf first part) done.idle (first + 1)
        (idle.next_lt (done.ok_iff.mp rfl).2.1)
      have continues := ends.congr fun _ => rfl
      refine ⟨outcome, congr (bind requested continues) goes, ?_⟩
      rcases result with ⟨panics, short⟩ | ⟨result, after, isOk, rest⟩
      · refine .inl ⟨panics, ?_⟩
        rwa [length_putSector inBuf full, add_right_comm] at short
      refine .inr ⟨result, after, isOk, done.toRequested.next rest.toTransferred,
        rest.bytes.trans done.bytes, ?_, ?_⟩
      · intro j before
        rw [rest.kept j (by omega), sectorAt_putSector_before inBuf before]
      · intro isOk i atLeast below
        rcases eq_or_lt_of_le atLeast with rfl | later
        · rw [rest.kept first (by omega), sectorAt_putSector_self inBuf full, done.read rfl]
        · rw [rest.fetched isOk i later (by omega), done.bytes]

/-! ## Calls -/

theorem fit64_ok {value fitted : Nat} (fits : fit64 env value = .ok fitted) :
    fitted ≤ value ∧ (value < 2 ^ 64 → fitted = value) := by
  rw [fit64] at fits
  split at fits
  · cases fits
    exact ⟨le_rfl, fun _ => rfl⟩
  split at fits
  · cases fits
  · next large _ =>
    cases fits
    exact ⟨mod_le _ _, fun small => absurd small large⟩

theorem fit64_error {value : Nat} {fault : Fault}
    (overflows : fit64 env value = .error fault) : fault = .panic ∧ 2 ^ 64 ≤ value := by
  rw [fit64] at overflows
  split at overflows
  · cases overflows
  next large =>
  split at overflows
  · cases overflows
    exact ⟨rfl, Nat.le_of_not_lt large⟩
  · cases overflows

/-- A size or an end of the range that does not fit 64 bits. -/
def Overflows (lba count : UInt64) : Prop :=
  2 ^ 64 ≤ count.toNat * sectorSize ∨ 2 ^ 64 ≤ lba.toNat + count.toNat

/-- The checks accept the range for every buffer that can hold it. -/
def Admits (env : BlkEnv) (lba count : UInt64) (state : BlkState) : Prop :=
  ∀ (length : Nat) (after : BlkState), after.dev.capacity = state.dev.capacity →
    count.toNat * sectorSize ≤ length → rangeFits env lba count length after = .ok (true, after)

/-- The checks panic on an overflow, refuse the call, or accept it. -/
theorem rangeFits_cases (env : BlkEnv) (lba count : UInt64) (length : Nat) (state : BlkState) :
    rangeFits env lba count length state = .error .panic ∧ Overflows lba count ∨
      rangeFits env lba count length state = .ok (false, state) ∧
        (length < count.toNat * sectorSize ∨ state.dev.capacity.toNat < lba.toNat + count.toNat) ∨
      rangeFits env lba count length state = .ok (true, state) ∧ Admits env lba count state ∧
        (¬ Overflows lba count → count.toNat * sectorSize ≤ length) := by
  unfold Admits rangeFits
  cases size : fit64 env (count.toNat * sectorSize) with
  | error fault =>
    obtain ⟨rfl, large⟩ := fit64_error size
    exact .inl ⟨rfl, .inl large⟩
  | ok need =>
    obtain ⟨le, eq⟩ := fit64_ok size
    simp only [bind_lift_ok rfl]
    by_cases short : length < need
    · rw [if_pos short]
      exact .inr (.inl ⟨rfl, .inl (short.trans_le le)⟩)
    rw [if_neg short]
    cases sum : fit64 env (lba.toNat + count.toNat) with
    | error fault =>
      obtain ⟨rfl, large⟩ := fit64_error sum
      exact .inl ⟨rfl, .inr large⟩
    | ok last =>
      simp only [bind_lift_ok rfl, bind_get]
      by_cases beyond : last > state.dev.capacity.toNat
      · rw [decide_eq_true beyond]
        exact .inr (.inl ⟨rfl, .inr (beyond.trans_le (fit64_ok sum).1)⟩)
      refine .inr (.inr ⟨?_, fun longer after capacity enough => ?_, fun fits => ?_⟩)
      · rw [decide_eq_false beyond]
        rfl
      · rw [if_neg (by omega), bind_lift_ok rfl, bind_get, capacity, decide_eq_false beyond]
        rfl
      · rw [← eq (Nat.lt_of_not_le fun large => fits (.inl large))]
        omega

/-- How a call on a range ends: it panics on an overflow, is refused, or its loop ends. -/
inductive RangeCall {α : Type} (env : BlkEnv) (lba count : UInt64) (length : Nat)
    (state : BlkState) (refusal : α) (Done : α → BlkState → Prop) :
    Except Fault (α × BlkState) → Prop where
  | panics (large : Overflows lba count) :
      RangeCall env lba count length state refusal Done (.error .panic)
  | refused (why : length < count.toNat * sectorSize ∨
        state.dev.capacity.toNat < lba.toNat + count.toNat) :
      RangeCall env lba count length state refusal Done (.ok (refusal, state))
  | done {result : α} {after : BlkState} (admits : Admits env lba count state)
      (done : Done result after) :
      RangeCall env lba count length state refusal Done (.ok (result, after))

theorem rangeCall_ends {α : Type} {loop : Nat → BlkM α} {length : Nat}
    {Done : α → BlkState → Prop} (env : BlkEnv) (lba count : UInt64) (refusal : α)
    (loops : ∃ outcome, Ends loop state outcome ∧
      (outcome = .error .panic ∧ length < (0 + count.toNat) * sectorSize ∨
        ∃ result after, outcome = .ok (result, after) ∧ Done result after)) :
    ∃ outcome, Ends (fun fuel => do
        if ← rangeFits env lba count length then loop fuel else return refusal) state outcome ∧
      RangeCall env lba count length state refusal Done outcome := by
  rcases rangeFits_cases env lba count length state with
    ⟨panics, large⟩ | ⟨refused, why⟩ | ⟨admitted, admits, fits⟩
  · exact ⟨.error .panic, of_eq fun _ => bind_of_error panics _, .panics large⟩
  · refine ⟨.ok (refusal, state), of_eq fun fuel => ?_, .refused why⟩
    rw [bind_of_ok refused]
    rfl
  · obtain ⟨outcome, ends, result⟩ := loops
    refine ⟨outcome, ends.congr fun fuel => ?_, ?_⟩
    · rw [bind_of_ok admitted]
      rfl
    · rcases result with ⟨rfl, short⟩ | ⟨result, after, rfl, done⟩
      · rw [zero_add] at short
        exact .panics (not_not.mp fun small => (fits small).not_gt short)
      · exact .done admits done

theorem writeSectors_ends (env : BlkEnv) (lba count : UInt64) (buf : List UInt8)
    (idle : state.Idle) :
    ∃ outcome, Ends (fun fuel => writeSectors env fuel lba count buf) state outcome ∧
      RangeCall env lba count buf.length state false
        (Stored env state lba.toNat 0 count.toNat buf) outcome :=
  rangeCall_ends env lba count false (writeLoop_ends env buf idle count.toNat 0 lba.toNat_lt)

theorem readSectors_ends (env : BlkEnv) (lba count : UInt64) (buf : List UInt8)
    (idle : state.Idle) :
    ∃ outcome, Ends (fun fuel => readSectors env fuel lba count buf) state outcome ∧
      RangeCall env lba count buf.length state (false, buf)
        (Fetched env state lba.toNat 0 count.toNat buf) outcome :=
  rangeCall_ends env lba count (false, buf) (readLoop_ends env buf idle count.toNat 0 lba.toNat_lt)

/-- After a successful write, reading the range gives the bytes that were written, unless the
device fails a request. -/
theorem read_after_write {buf target : List UInt8} (admits : Admits env lba count state)
    (stored : Stored env state lba.toNat 0 count.toNat buf true after)
    (enough : count.toNat * sectorSize ≤ target.length) :
    ∃ ok back last, Ends (fun fuel => readSectors env fuel lba count target) after
        (.ok ((ok, back), last)) ∧ last.Idle ∧
      (ok = true → back.take (count.toNat * sectorSize) = buf.take (count.toNat * sectorSize)) ∧
      ((∀ n, after.device.served ≤ n → env.error n = none) → ok = true) := by
  obtain ⟨outcome, ends, result⟩ := readLoop_ends env target stored.idle count.toNat 0 lba.toNat_lt
  rcases result with ⟨_, short⟩ | ⟨_, last, rfl, fetched⟩
  · rw [zero_add] at short
    exact absurd short enough.not_gt
  refine ⟨_, _, last, ends.congr fun fuel => ?_, fetched.idle, fun isOk => ?_, ?_⟩
  · rw [readSectors, bind_of_ok (admits _ after stored.setup.capacity enough)]
    rfl
  · refine take_eq_of_sectorAt fun i below => ?_
    rw [fetched.fetched isOk i (Nat.zero_le i) (by omega),
      stored.stored rfl i (Nat.zero_le i) (by omega)]
  · refine fun fine => fetched.ok_iff.mpr fun k below => (stored.setup.serves _).mpr ?_
    obtain ⟨large, inside, _⟩ := stored.ok_iff.mp rfl k below
    exact ⟨large, inside, fine _ (Nat.le_add_right ..)⟩

/-! ## Runs -/

/-- The driver after its initialisation: its queue is new, and it has asked the device for its
capacity. -/
def BlkState.init (vq : Virtqueue) (reqPagePhys : Nat) (capacity : UInt64)
    (memory bytes : Nat → UInt8) : BlkState :=
  ⟨⟨vq, capacity, reqPagePhys⟩, memory, ⟨capacity.toNat, bytes, 0, 0, 0⟩⟩

inductive Reachable (env : BlkEnv) (start : BlkState) : BlkState → Prop where
  | start : Reachable env start start
  | read {state after : BlkState} {lba count : UInt64} {buf : List UInt8} {result : Bool × List UInt8}
      (reached : Reachable env start state)
      (returns : Ends (fun fuel => readSectors env fuel lba count buf) state (.ok (result, after))) :
      Reachable env start after
  | write {state after : BlkState} {lba count : UInt64} {buf : List UInt8} {result : Bool}
      (reached : Reachable env start state)
      (returns : Ends (fun fuel => writeSectors env fuel lba count buf) state
        (.ok (result, after))) :
      Reachable env start after

def AllFree (state : BlkState) : Prop := state.dev.vq.freeDescs.Perm state.dev.vq.table

theorem init_idle {allocateContiguousFrames : Nat → Option Nat} {queueSize : UInt16}
    {vq : Virtqueue} (created : Virtqueue.new allocateContiguousFrames queueSize = some vq)
    (reqPagePhys : Nat) (capacity : UInt64) (memory bytes : Nat → UInt8) :
    (BlkState.init vq reqPagePhys capacity memory bytes).Idle := by
  obtain ⟨phys, rfl, _⟩ := new_eq created
  refine ⟨?_, rfl, rfl, rfl⟩
  change (blank queueSize phys).freeDescs.Perm (blank queueSize phys).table
  rw [freeDescs_blank]

theorem Reachable.idle {start state : BlkState} (initial : start.Idle)
    (reached : Reachable env start state) : state.Idle := by
  induction reached with
  | start => exact initial
  | read _ returns ih =>
    obtain ⟨outcome, ends, result⟩ := readSectors_ends env _ _ _ ih
    cases returns.unique ends
    cases result with
    | refused => exact ih
    | done _ fetched => exact fetched.idle
  | write _ returns ih =>
    obtain ⟨outcome, ends, result⟩ := writeSectors_ends env _ _ _ ih
    cases returns.unique ends
    cases result with
    | refused => exact ih
    | done _ stored => exact stored.idle

structure WriteGuarantee (env : BlkEnv) (state : BlkState) (lba count : UInt64) (buf : List UInt8)
    (ok : Bool) (after : BlkState) : Prop where
  allFree : AllFree after
  setup : SameSetup state after
  /-- Only sectors of the range have changed. -/
  elsewhere : ∀ addr, addr / sectorSize < lba.toNat ∨ lba.toNat + count.toNat ≤ addr / sectorSize →
    after.device.bytes addr = state.device.bytes addr
  /-- A successful write has put the buffer's sectors onto the device. -/
  stored : ok = true → ∀ i < count.toNat,
    window after.device.bytes ((lba.toNat + i) * sectorSize) sectorSize = sectorAt buf i
  /-- A write of sectors that the device has fails only if the device does. -/
  succeeds : 3 ≤ state.dev.vq.queueSize.toNat → count.toNat * sectorSize ≤ buf.length →
    lba.toNat + count.toNat ≤ state.dev.capacity.toNat →
      (∀ n, state.device.served ≤ n → env.error n = none) → ok = true
  /-- A read of the range that follows gives the bytes back; it fails only if the device does. -/
  readBack : ok = true → ∀ target, count.toNat * sectorSize ≤ target.length →
    ∃ ok' back last,
      Ends (fun fuel => readSectors env fuel lba count target) after (.ok ((ok', back), last)) ∧
      AllFree last ∧
      (ok' = true → back.take (count.toNat * sectorSize) = buf.take (count.toNat * sectorSize)) ∧
      ((∀ n, after.device.served ≤ n → env.error n = none) → ok' = true)

structure ReadGuarantee (state : BlkState) (lba count : UInt64) (ok : Bool) (back : List UInt8)
    (after : BlkState) : Prop where
  allFree : AllFree after
  bytes : after.device.bytes = state.device.bytes
  /-- A successful read has fetched the sectors from the device. -/
  fetched : ok = true → ∀ i < count.toNat, sectorAt back i =
    window state.device.bytes ((lba.toNat + i) * sectorSize) sectorSize

/-- From every state between calls, a write and a read of any range return, unless a size
overflows, and keep their guarantees. -/
theorem sectors_kept_along_runs {allocateContiguousFrames : Nat → Option Nat} {queueSize : UInt16}
    {vq : Virtqueue} (created : Virtqueue.new allocateContiguousFrames queueSize = some vq)
    (env : BlkEnv) (reqPagePhys : Nat) (capacity : UInt64) (memory bytes : Nat → UInt8)
    {state : BlkState}
    (reached : Reachable env (BlkState.init vq reqPagePhys capacity memory bytes) state)
    (lba count : UInt64) (buf : List UInt8) :
    AllFree state ∧
      (∃ outcome, Ends (fun fuel => writeSectors env fuel lba count buf) state outcome ∧
        (outcome = .error .panic ∧ Overflows lba count ∨
          ∃ ok after, outcome = .ok (ok, after) ∧
            WriteGuarantee env state lba count buf ok after)) ∧
      ∃ outcome, Ends (fun fuel => readSectors env fuel lba count buf) state outcome ∧
        (outcome = .error .panic ∧ Overflows lba count ∨
          ∃ ok back after, outcome = .ok ((ok, back), after) ∧
            ReadGuarantee state lba count ok back after) := by
  have idle := reached.idle (init_idle created reqPagePhys capacity memory bytes)
  refine ⟨idle.free, ?_, ?_⟩
  · obtain ⟨outcome, ends, result⟩ := writeSectors_ends env lba count buf idle
    refine ⟨outcome, ends, ?_⟩
    rcases result with large | why | ⟨admits, stored⟩
    · exact .inl ⟨rfl, large⟩
    · refine .inr ⟨false, state, rfl, idle.free, ⟨rfl, rfl, rfl, rfl⟩, fun _ _ => rfl, nofun,
        fun _ long inside _ => ?_, nofun⟩
      omega
    refine .inr ⟨_, _, rfl, stored.idle.free, stored.setup, ?_, ?_, ?_, ?_⟩
    · intro addr outside
      refine stored.elsewhere addr ?_
      simp only [sectorSize] at outside ⊢
      omega
    · exact fun isOk i below => stored.stored isOk i (Nat.zero_le i) (by omega)
    · intro large _ inside fine
      refine stored.ok_iff.mpr fun k below => ⟨large, ?_, fine _ (Nat.le_add_right ..)⟩
      rw [idle.capacity]
      omega
    · rintro rfl target enough
      obtain ⟨ok', back, last, reads, rest, same, succeeds⟩ :=
        read_after_write admits stored enough
      exact ⟨ok', back, last, reads, rest.free, same, succeeds⟩
  · obtain ⟨outcome, ends, result⟩ := readSectors_ends env lba count buf idle
    refine ⟨outcome, ends, ?_⟩
    rcases result with large | _ | ⟨_, fetched⟩
    · exact .inl ⟨rfl, large⟩
    · exact .inr ⟨false, buf, state, rfl, idle.free, rfl, nofun⟩
    · refine .inr ⟨_, _, _, rfl, fetched.idle.free, fetched.bytes, fun isOk i below => ?_⟩
      exact fetched.fetched isOk i (Nat.zero_le i) (by omega)

/-- A device that answers at the third poll and never fails. -/
def slowEnv : BlkEnv where
  delay _ := 2
  error _ := none
  residue _ _ := 0xAA
  overflowChecks := false

/-- After a first write, two sectors are written over it and read back. -/
theorem sectors_kept_slow :
    ∃ vq first after back last, Virtqueue.new (fun _ => some 0x8000) 4 = some vq ∧
      Ends (fun fuel => writeSectors slowEnv fuel 2 3 (List.replicate 1536 5))
        (BlkState.init vq 0x20000 8 (fun _ => 0) fun _ => 0) (.ok (true, first)) ∧
      Ends (fun fuel => writeSectors slowEnv fuel 3 2 (List.replicate 1024 7)) first
        (.ok (true, after)) ∧
      Ends (fun fuel => readSectors slowEnv fuel 3 2 (List.replicate 1024 0)) after
        (.ok ((true, back), last)) ∧
      back.take 1024 = List.replicate 1024 7 ∧ AllFree last := by
  have created : Virtqueue.new (fun _ => some 0x8000) 4 = some (blank 4 0x8000) := rfl
  have kept {state : BlkState} (reached : Reachable slowEnv
      (BlkState.init (blank 4 0x8000) 0x20000 8 (fun _ => 0) fun _ => 0) state) :=
    sectors_kept_along_runs created slowEnv 0x20000 8 (fun _ => 0) (fun _ => 0) reached
  obtain ⟨-, ⟨_, first, result⟩, -⟩ := kept .start 2 3 (List.replicate 1536 5)
  rcases result with ⟨_, large⟩ | ⟨ok, middle, rfl, done⟩
  · exact absurd large (by rw [Overflows]; decide)
  obtain rfl := done.succeeds (by decide) (by rw [length_replicate]; decide) (by decide) fun _ _ => rfl
  obtain ⟨-, ⟨_, second, result⟩, -⟩ := kept (.write .start first) 3 2 (List.replicate 1024 7)
  rcases result with ⟨_, large⟩ | ⟨ok, after, rfl, done'⟩
  · exact absurd large (by rw [Overflows]; decide)
  obtain rfl := done'.succeeds (by rw [done.setup.queueSize]; decide) (by rw [length_replicate]; decide)
    (by rw [done.setup.capacity]; decide) fun _ _ => rfl
  obtain ⟨ok, back, last, read, allFree, same, succeeds⟩ :=
    done'.readBack rfl (List.replicate 1024 0) (by rw [length_replicate]; decide)
  obtain rfl := succeeds fun _ _ => rfl
  exact ⟨_, middle, after, back, last, created, first, second, read,
    (same rfl).trans (take_of_length_le (by rw [length_replicate]; decide)), allFree⟩

end CantayaOS.Virtio
