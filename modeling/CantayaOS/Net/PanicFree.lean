import CantayaOS.Net.Regime

/-!
# Which frames can panic the kernel

Frames with an IPv4 header that gives a total length below its own header
length, and only those, panic the kernel.
-/

namespace CantayaOS.Net

open Lib

/-- The frames that the driver hands up are not crashing, and the kernel may not panic. -/
def calm (config : NetConfig) : Regime where
  config := config
  frames := fun frame => ¬ Crashing config frame
  replies := fun _ => True
  panics := False

theorem calm_sound (config : NetConfig) : (calm config).Sound :=
  ⟨fun _ received fatal => received (crashing_of_fatal fatal), fun _ _ _ _ => trivial⟩

/-- As long as the other frames that the driver hands up are not crashing, processing a frame
panics the kernel exactly if that frame is crashing. -/
theorem processFrame_ne_panic_iff (env : NetEnv) (state : NetState) (frame : Bytes)
    (queued : ∀ other ∈ state.rxQueue, ¬ Crashing state.config other)
    (arriving : ∀ n, ∀ other ∈ env.arrivals n, ¬ Crashing state.config other) :
    (∀ fuel, processFrame env fuel frame state ≠ .error .panic) ↔
      ¬ Crashing state.config frame := by
  constructor
  · intro safe crashing
    exact safe 0 (processFrameWith_panics env _ 0 crashing)
  · intro received fuel
    have sound := calm_sound state.config
    have polls : (calm state.config).Maintains (poll env fuel) :=
      Regime.poll_maintains arriving sound fuel
    have holds : (calm state.config).Holds state := ⟨rfl, queued, fun _ _ => trivial⟩
    exact (Regime.processFrameWith_maintains sound polls fuel received state holds).2

/-- The configuration that the kernel starts with, on a device with the given address. -/
def NetConfig.new (mac : Mac) : NetConfig where
  ip := ⟨[10, 0, 2, 15], rfl⟩
  netmask := ⟨[255, 255, 255, 0], rfl⟩
  gateway := ⟨[10, 0, 2, 2], rfl⟩
  mac := mac

/-- The state after the network has come up on a device. -/
def NetState.init (mac : Mac) : NetState where
  config := NetConfig.new mac
  up := true
  stats := ⟨0, 0, 0, 0, 0, 0, 0, 0, 0, 0⟩
  arpCache := fun _ => ⟨⟨[0, 0, 0, 0], rfl⟩, ⟨[0, 0, 0, 0, 0, 0], rfl⟩, false⟩
  ipId := 1
  icmpSeq := 1
  pingReply := none
  sockets := fun _ => none
  rxQueue := []
  sent := []
  polls := 0
  checks := 0

def exampleMac : Mac := ⟨[0x52, 0x54, 0x00, 0x12, 0x34, 0x56], rfl⟩

/-- A driver that delivers nothing while a frame is processed. -/
def silentEnv : NetEnv := ⟨fun _ => [], fun _ => true⟩

/-- A broadcast frame with an IPv4 header of 24 bytes and the given total length. -/
def broadcastPacket (totalLen cksum : UInt16) : Bytes :=
  buildFrame broadcastMac exampleMac .ipv4
    ([0x46, 0x00] ++ toBeBytes totalLen ++ [0, 0, 0, 0, 64, 1] ++ toBeBytes cksum ++
      [10, 0, 2, 2, 10, 0, 2, 15, 0, 0, 0, 0])

theorem processFrame_ne_panic_fullHeader :
    (broadcastPacket 24 0x61D5).length ≤ 1514 ∧
      ∀ fuel, processFrame silentEnv fuel (broadcastPacket 24 0x61D5) (NetState.init exampleMac) ≠
        .error .panic :=
  ⟨by decide,
    (processFrame_ne_panic_iff silentEnv (NetState.init exampleMac) (broadcastPacket 24 0x61D5)
      (fun _ queued => absurd queued List.not_mem_nil)
      fun _ _ arrived => absurd arrived List.not_mem_nil).mpr
      fun crashing => absurd crashing.packet.short (by decide)⟩

theorem processFrame_panics_shortTotal :
    (broadcastPacket 20 0x61D9).length ≤ 1514 ∧
      processFrame silentEnv 0 (broadcastPacket 20 0x61D9) (NetState.init exampleMac) =
        .error .panic := by
  refine ⟨by decide, processFrameWith_panics silentEnv _ 0 ⟨by decide, .inr (by decide), by decide, ?_⟩⟩
  exact ⟨by decide, by decide, by decide, by decide, by rfl, by decide⟩

end CantayaOS.Net
