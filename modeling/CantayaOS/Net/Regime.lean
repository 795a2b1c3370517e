import CantayaOS.Net.Traffic

/-!
# What the stack maintains whatever it receives

Frames are processed while other frames are, so a fact about the state after a
poll has to hold at every nested poll as well.  A regime says which frames may
be received and which echo replies may be waiting; every operation of the stack
keeps to it if each single frame does.
-/

namespace CantayaOS.Net

open Lib Lib.Checked

/-- A configuration, the frames that may be received, the echo replies that may be waiting, and
whether the kernel may panic. -/
structure Regime where
  config : NetConfig
  frames : Bytes → Prop
  replies : PingReply → Prop
  panics : Prop

/-! ## The queue -/

variable {env : NetEnv}

section Queue

variable {process : Bytes → NetM Unit} {state : NetState} {fuel : Nat}

theorem drain_nil (queue : state.rxQueue = []) :
    drain process (fuel + 1) state = .ok ((), state) := by
  have empty : recvFrame state = .ok (none, state) := by
    rw [recvFrame, bind_get, queue]
    rfl
  rw [drain, bind_of_ok empty]
  rfl

theorem drain_cons {frame : Bytes} {rest : List Bytes} (queue : state.rxQueue = frame :: rest) :
    drain process (fuel + 1) state =
      (process frame >>= fun _ => drain process fuel)
        (NetState.statRx frame.length { state with rxQueue := rest }) := by
  have taken : recvFrame state = .ok (some frame, { state with rxQueue := rest }) := by
    rw [recvFrame, bind_get, queue]
    rfl
  rw [drain, bind_of_ok taken]
  dsimp only
  rw [bind_modify]

def NetState.arrive (env : NetEnv) (state : NetState) : NetState :=
  { state with rxQueue := state.rxQueue ++ env.arrivals state.polls, polls := state.polls + 1 }

theorem poll_of_up (up : state.up = true) : poll env (fuel + 1) state =
      drain (processFrameWith env (poll env fuel) fuel) fuel (state.arrive env) := by
  rw [poll, bind_get, up]
  rfl

theorem poll_of_down (down : state.up = false) : poll env (fuel + 1) state = .ok ((), state) := by
  rw [poll, bind_get, down]
  rfl

end Queue

namespace Regime

structure Holds (regime : Regime) (state : NetState) : Prop where
  config : state.config = regime.config
  queued : ∀ frame ∈ state.rxQueue, regime.frames frame
  reply : ∀ reply, state.pingReply = some reply → regime.replies reply

/-- No frame that may be received breaks the regime. -/
structure Sound (regime : Regime) : Prop where
  fatal : ∀ frame, regime.frames frame → traffic regime.config frame = .fatal → regime.panics
  reply : ∀ frame reply, regime.frames frame → traffic regime.config frame = .echoReply reply →
    regime.replies reply

/-- From a state that keeps to the regime a program ends in one, or panics only if it may. -/
def Maintains {α : Type} (regime : Regime) (program : NetM α) : Prop :=
  ∀ state, regime.Holds state →
    (∀ a after, program state = .ok (a, after) → regime.Holds after) ∧
      (program state = .error .panic → regime.panics)

section Rules

variable {α β : Type} {regime : Regime}

theorem maintains_at {outcome : Except Fault (α × NetState)} {a : α} {after : NetState}
    (ends : outcome = .ok (a, after)) (holds : regime.Holds after) :
    (∀ a after, outcome = .ok (a, after) → regime.Holds after) ∧
      (outcome = .error .panic → regime.panics) := by
  subst ends
  refine ⟨fun b other same => ?_, nofun⟩
  rw [← (Prod.mk.inj (Except.ok.inj same)).2]
  exact holds

theorem maintains_fault {outcome : Except Fault (α × NetState)} {fault : Fault}
    (ends : outcome = .error fault) (mayPanic : fault = .panic → regime.panics) :
    (∀ a after, outcome = .ok (a, after) → regime.Holds after) ∧
      (outcome = .error .panic → regime.panics) := by
  subst ends
  exact ⟨nofun, fun panics => mayPanic (Except.error.inj panics)⟩

theorem Maintains.done (a : α) : regime.Maintains (pure a : NetM α) :=
  fun _ holds => maintains_at rfl holds

theorem Maintains.stopped : regime.Maintains (throw .outOfFuel : NetM α) :=
  fun _ _ => maintains_fault rfl nofun

theorem Maintains.andThen {program : NetM α} {rest : α → NetM β}
    (first : regime.Maintains program) (next : ∀ a, regime.Maintains (rest a)) :
    regime.Maintains (program >>= rest) := by
  intro state holds
  cases ran : program state with
  | ok result =>
    obtain ⟨a, after⟩ := result
    rw [bind_of_ok ran]
    exact next a after ((first state holds).1 a after ran)
  | error fault =>
    refine maintains_fault (bind_of_error ran rest) fun isPanic => ?_
    rw [isPanic] at ran
    exact (first state holds).2 ran

theorem Maintains.fetch {rest : NetState → NetM β}
    (next : ∀ state, regime.Holds state → regime.Maintains (rest state)) :
    regime.Maintains (get >>= rest) := by
  intro state holds
  exact next state holds state holds

theorem Maintains.change {change : NetState → NetState}
    (keeps : ∀ state, regime.Holds state → regime.Holds (change state)) :
    regime.Maintains (modify change) :=
  fun state holds => maintains_at rfl (keeps state holds)

theorem Maintains.read {outcome : Except Fault α} {a : α} {rest : α → NetM β}
    (computed : outcome = .ok a) (next : regime.Maintains (rest a)) :
    regime.Maintains ((liftM outcome : NetM α) >>= rest) := by
  intro state holds
  rw [bind_lift_ok computed]
  exact next state holds

theorem Maintains.branch {condition : Prop} [Decidable condition] {yes no : NetM α}
    (whenTrue : condition → regime.Maintains yes) (whenFalse : ¬ condition → regime.Maintains no) :
    regime.Maintains (if condition then yes else no) := by
  split
  next holds => exact whenTrue holds
  next fails => exact whenFalse fails

theorem Holds.of_alike {before after : NetState} (holds : regime.Holds before)
    (alike : Alike before after) : regime.Holds after := by
  refine ⟨alike.config.trans holds.config, ?_, ?_⟩
  · rw [alike.rxQueue]
    exact holds.queued
  · rw [alike.pingReply]
    exact holds.reply

theorem Maintains.elsewhere {change : NetState → NetState}
    (same : ∀ state, Alike state (change state)) : regime.Maintains (modify change) :=
  Maintains.change fun state holds => holds.of_alike (same state)

theorem Maintains.count (change : NetStats → NetStats) :
    regime.Maintains (modify (NetState.count change)) :=
  Maintains.elsewhere (Alike.count change)

end Rules

section Waiting

variable {env : NetEnv} {regime : Regime} {poll : NetM Unit}

theorem sendRaw_maintains (frame : Bytes) : regime.Maintains (sendRaw frame) := by
  intro state holds
  obtain ⟨after, sent, alike⟩ := sendRaw_alike frame state
  exact maintains_at sent (holds.of_alike alike)

theorem sendRequest_maintains (ip : Ip) : regime.Maintains (sendRequest ip) :=
  Maintains.fetch fun _ _ => sendRaw_maintains _

theorem timeIsUp_maintains : regime.Maintains (timeIsUp env) :=
  Maintains.fetch fun _ _ =>
    Maintains.andThen (Maintains.elsewhere fun _ => ⟨rfl, rfl, rfl, rfl, rfl, rfl, rfl⟩) fun _ =>
      Maintains.done _

section

variable (polls : regime.Maintains poll)
include polls

theorem awaitReply_maintains (ip : Ip) (fuel : Nat) :
    regime.Maintains (awaitReply env poll ip fuel) := by
  induction fuel with
  | zero => exact Maintains.stopped
  | succ fuel ih =>
    refine Maintains.andThen polls fun _ => Maintains.fetch fun state _ => ?_
    cases state.lookup ip with
    | some mac => exact Maintains.done _
    | none =>
      refine Maintains.andThen timeIsUp_maintains fun up => ?_
      exact Maintains.branch (fun _ => Maintains.done _) fun _ => ih

theorem resolveAttempts_maintains (fuel : Nat) (ip : Ip)
    (attempts : Nat) : regime.Maintains (resolveAttempts env poll fuel ip attempts) := by
  induction attempts with
  | zero => exact Maintains.done _
  | succ attempts ih =>
    refine Maintains.andThen (sendRequest_maintains ip) fun _ =>
      Maintains.andThen (awaitReply_maintains polls ip fuel) fun reply => ?_
    cases reply with
    | some mac => exact Maintains.done _
    | none => exact ih

theorem resolveBlocking_maintains (fuel : Nat) (ip : Ip) :
    regime.Maintains (resolveBlocking env poll fuel ip) := by
  refine Maintains.fetch fun state _ => ?_
  cases state.lookup ip with
  | some mac => exact Maintains.done _
  | none => exact resolveAttempts_maintains polls fuel ip 4

theorem ipv4Send_maintains (fuel : Nat) (dstIp : Ip) (protocol : UInt8) (payload : Bytes) :
    regime.Maintains (ipv4Send env poll fuel dstIp protocol payload) := by
  refine Maintains.fetch fun state _ => Maintains.fetch fun _ _ => ?_
  refine Maintains.andThen
    (Maintains.elsewhere fun _ => ⟨rfl, rfl, rfl, rfl, rfl, rfl, rfl⟩) fun _ => ?_
  obtain ⟨packet, built⟩ := buildPacket_total _ _ _ _ _
  refine Maintains.read built
    (Maintains.andThen (resolveBlocking_maintains polls fuel _) fun reply => ?_)
  cases reply with
  | none => exact Maintains.done _
  | some dstMac => exact sendRaw_maintains _

end

end Waiting

section Receiving

variable {env : NetEnv} {regime : Regime} {poll : NetM Unit}

theorem sendEchoReply_maintains (polls : regime.Maintains poll) (fuel : Nat) (dstIp : Ip)
    {request : Bytes} (long : 4 ≤ request.length) :
    regime.Maintains (sendEchoReply env poll fuel dstIp request) := by
  refine Maintains.read (slice_ok long le_rfl) ?_
  obtain ⟨cksum, computed⟩ := checksum_total
    ([icmpEchoReply, 0, 0, 0] ++ (request.take request.length).drop 4)
  refine Maintains.read computed (Maintains.read (overwrite_ok ?_) ?_)
  · simp [toBeBytes]
  · exact Maintains.andThen (Maintains.count _) fun _ => ipv4Send_maintains polls fuel dstIp _ _

variable (sound : regime.Sound)
include sound

theorem processFrameWith_maintains (polls : regime.Maintains poll) (fuel : Nat) {data : Bytes}
    (received : regime.frames data) : regime.Maintains (processFrameWith env poll fuel data) := by
  intro state holds
  have digests := processFrameWith_digests env state data
  rw [holds.config] at digests
  cases kind : traffic regime.config data with
  | arp senderIp senderMac =>
    rw [kind] at digests
    obtain ⟨after, alike, ends⟩ := digests
    have learned : regime.Holds (state.insert senderIp senderMac) :=
      ⟨holds.config, holds.queued, holds.reply⟩
    exact maintains_at (ends poll fuel) (learned.of_alike alike)
  | echoRequest srcIp message =>
    rw [kind] at digests
    obtain ⟨long, answers⟩ := digests
    have answer := answers poll fuel
    dsimp only at answer
    rw [answer]
    exact sendEchoReply_maintains polls fuel srcIp (by omega) _ (holds.of_alike (Alike.count _ _))
  | echoReply reply =>
    rw [kind] at digests
    obtain ⟨after, alike, ends⟩ := digests
    have stored : regime.Holds { state with pingReply := some reply } := by
      refine ⟨holds.config, holds.queued, fun other waiting => ?_⟩
      rw [← Option.some.inj waiting]
      exact sound.reply data reply received kind
    exact maintains_at (ends poll fuel) (stored.of_alike alike)
  | fatal =>
    rw [kind] at digests
    exact maintains_fault (digests poll fuel) fun _ => sound.fatal data received kind
  | other =>
    rw [kind] at digests
    obtain ⟨after, alike, ends⟩ := digests
    exact maintains_at (ends poll fuel) (holds.of_alike alike)

end Receiving

section Polling

variable {env : NetEnv} {regime : Regime}

/-- Draining the queue runs `process` on frames that may be received. -/
theorem drain_maintains {process : Bytes → NetM Unit}
    (processes : ∀ frame, regime.frames frame → regime.Maintains (process frame)) (fuel : Nat) :
    regime.Maintains (drain process fuel) := by
  induction fuel with
  | zero => exact Maintains.stopped
  | succ fuel ih =>
    intro state holds
    cases queue : state.rxQueue with
    | nil => exact maintains_at (drain_nil queue) holds
    | cons frame rest =>
      have received : regime.frames frame := holds.queued frame (by simp [queue])
      have remaining : regime.Holds { state with rxQueue := rest } :=
        ⟨holds.config, fun other queued => holds.queued other (by simp [queue, queued]),
          holds.reply⟩
      rw [drain_cons queue]
      exact Maintains.andThen (processes frame received) (fun _ => ih) _
        (remaining.of_alike (Alike.count _ _))

variable (arriving : ∀ n, ∀ frame ∈ env.arrivals n, regime.frames frame)
include arriving

theorem pollRx_maintains : regime.Maintains (pollRx env) := by
  refine Maintains.change fun state holds => ⟨holds.config, fun frame queued => ?_, holds.reply⟩
  rcases List.mem_append.mp queued with old | new
  · exact holds.queued frame old
  · exact arriving _ frame new

variable (sound : regime.Sound)
include sound

theorem poll_maintains (fuel : Nat) : regime.Maintains (poll env fuel) := by
  induction fuel with
  | zero => exact Maintains.stopped
  | succ fuel ih =>
    refine Maintains.fetch fun state _ => Maintains.branch (fun _ => Maintains.done _) fun _ => ?_
    refine Maintains.andThen (pollRx_maintains arriving) fun _ => drain_maintains ?_ fuel
    exact fun frame received => processFrameWith_maintains sound ih fuel received

end Polling

end Regime

end CantayaOS.Net
