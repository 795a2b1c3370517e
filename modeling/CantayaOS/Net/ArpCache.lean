import CantayaOS.Lib.Transition
import CantayaOS.Net.Nesting

/-!
# The ARP cache as a last-writer map

Every ARP packet for Ethernet and IPv4 teaches the address of its sender.  The
cache has one entry for each sender it remembers and forgets a sender only to
store another one when all entries are in use.
-/

namespace CantayaOS.Net

open Lib List Option Transition Function

def receiveArp (state : NetState) (payload : Bytes) : Option NetState :=
  (processArp payload state).toOption.map Prod.snd

/-- The sender's addresses that a packet teaches. -/
def announced (payload : Bytes) : Option (Ip × Mac) :=
  match arpTraffic payload with
  | .arp senderIp senderMac => some (senderIp, senderMac)
  | _ => none

variable {i : Fin arpCacheSize}

namespace NetState

def Caches (state : NetState) (ip : Ip) (i : Fin arpCacheSize) : Prop :=
  (state.arpCache i).valid = true ∧ (state.arpCache i).ip = ip

/-- No address has two valid entries. -/
def Unambiguous (state : NetState) : Prop :=
  ∀ ip i j, state.Caches ip i → state.Caches ip j → i = j

def Evicts (now next : NetState) (ip : Ip) : Prop :=
  now.lookup ip ≠ none ∧ next.lookup ip = none

def clearCache (state : NetState) : NetState :=
  { state with arpCache := (init state.config.mac).arpCache }

variable {state now next : NetState} {ip other : Ip} {mac : Mac}

theorem caches_of_find (found : (List.finRange arpCacheSize).find? (fun i =>
      (state.arpCache i).valid && (state.arpCache i).ip == ip) = some i) : state.Caches ip i := by
  have holds := find?_some found
  rwa [Bool.and_eq_true, beq_iff_eq] at holds

theorem lookup_eq_none_iff : state.lookup ip = none ↔ ∀ i, ¬ state.Caches ip i := by
  simp only [lookup, map_eq_none_iff, find?_eq_none, mem_finRange,
    Bool.and_eq_true, beq_iff_eq, true_imp_iff, Caches]

theorem lookup_of_caches (single : state.Unambiguous)
    (here : state.Caches ip i) : state.lookup ip = some (state.arpCache i).mac := by
  have known : state.lookup ip ≠ none := fun missing => lookup_eq_none_iff.mp missing i here
  obtain ⟨found, isFound⟩ := ne_none_iff_exists'.mp known
  obtain ⟨j, there, isMac⟩ := map_eq_some_iff.mp isFound
  rw [isFound, ← isMac, single ip j i (caches_of_find there) here]

/-- Where an address goes: to its own entry, or to an entry not in use unless all are. -/
theorem insert_cases (state : NetState) (ip : Ip) (mac : Mac) :
    ∃ slot, (state.insert ip mac).arpCache =
        update state.arpCache slot ⟨ip, mac, true⟩ ∧
      (state.Caches ip slot ∨ (∀ i, ¬ state.Caches ip i) ∧
        ((state.arpCache slot).valid = false ∨ ∀ i, (state.arpCache i).valid = true)) := by
  refine ⟨_, rfl, ?_⟩
  cases known : (List.finRange arpCacheSize).find? fun i =>
      (state.arpCache i).valid && (state.arpCache i).ip == ip with
  | some i => exact .inl (caches_of_find known)
  | none =>
    refine .inr ⟨lookup_eq_none_iff.mp (map_eq_none_iff.mpr known), ?_⟩
    cases free : (List.finRange arpCacheSize).find? fun i => !(state.arpCache i).valid with
    | some i => exact .inl (by simpa using find?_some free)
    | none => exact .inr fun i => by simpa using find?_eq_none.mp free i (mem_finRange i)

/-- What a packet that may announce an address does to the cache. -/
structure Teaches (now next : NetState) (lesson : Option (Ip × Mac)) : Prop where
  unambiguous : next.Unambiguous
  learned : ∀ ip mac, lesson = some (ip, mac) → next.lookup ip = some mac
  kept : ∀ ip, (∀ mac, lesson ≠ some (ip, mac)) →
    next.lookup ip = now.lookup ip ∨ now.Evicts next ip
  single : ∀ ip other, now.Evicts next ip → now.Evicts next other → ip = other
  full : ∀ ip, now.Evicts next ip → ∀ i, (now.arpCache i).valid = true

theorem Teaches.nothing (single : now.Unambiguous) (same : next.arpCache = now.arpCache) :
    now.Teaches next none := by
  have equal (ip : Ip) : next.lookup ip = now.lookup ip := lookup_congr same ip
  have never (ip : Ip) : ¬ now.Evicts next ip := fun evicts =>
    evicts.1 ((equal ip).symm.trans evicts.2)
  refine ⟨?_, nofun, fun ip _ => .inl (equal ip), fun ip _ evicts => absurd evicts (never ip),
    fun ip evicts => absurd evicts (never ip)⟩
  simp only [Unambiguous, Caches, same]
  exact single

theorem Teaches.stored {slot : Fin arpCacheSize} (single : now.Unambiguous)
    (stored : next.arpCache = update now.arpCache slot ⟨ip, mac, true⟩)
    (place : now.Caches ip slot ∨ (∀ i, ¬ now.Caches ip i) ∧
      ((now.arpCache slot).valid = false ∨ ∀ i, (now.arpCache i).valid = true)) :
    now.Teaches next (some (ip, mac)) := by
  have here (other : Ip) : next.Caches other slot ↔ ip = other := by simp [Caches, stored]
  have there {other : Ip} {i : Fin arpCacheSize} (elsewhere : i ≠ slot) :
      next.Caches other i ↔ now.Caches other i := by simp [Caches, stored, elsewhere]
  -- Behind another entry than the slot there is another address.
  have foreign {other : Ip} {i : Fin arpCacheSize} (elsewhere : i ≠ slot)
      (cached : now.Caches other i) : ip ≠ other := by
    rintro rfl
    rcases place with own | ⟨missing, -⟩
    · exact elsewhere (single ip i slot cached own)
    · exact missing i cached
  have unambiguous : next.Unambiguous := by
    intro other i j first second
    by_cases isI : i = slot <;> by_cases isJ : j = slot
    · rw [isI, isJ]
    · rw [isI, here] at first
      exact absurd first (foreign isJ ((there isJ).mp second))
    · rw [isJ, here] at second
      exact absurd second (foreign isI ((there isI).mp first))
    · exact single other i j ((there isI).mp first) ((there isJ).mp second)
  have evicted {other : Ip} (evicts : now.Evicts next other) :
      now.Caches other slot ∧ ip ≠ other := by
    obtain ⟨known, gone⟩ := evicts
    rw [Ne, lookup_eq_none_iff, not_forall_not] at known
    rw [lookup_eq_none_iff] at gone
    obtain ⟨i, cached⟩ := known
    by_cases isI : i = slot
    · subst isI
      exact ⟨cached, fun same => gone i ((here other).mpr same)⟩
    · exact absurd ((there isI).mpr cached) (gone i)
  refine ⟨unambiguous, ?_, fun other differs => ?_, fun first second one two =>
    (evicted one).1.2.symm.trans (evicted two).1.2, fun other evicts => ?_⟩
  · rintro _ _ ⟨⟩
    rw [lookup_of_caches unambiguous ((here ip).mpr rfl), stored, update_self]
  · have differs : ip ≠ other := fun same => differs mac (by rw [same])
    by_cases known : ∃ i, now.Caches other i
    · obtain ⟨i, cached⟩ := known
      by_cases isI : i = slot
      · subst isI
        refine .inr ⟨fun missing => lookup_eq_none_iff.mp missing i cached,
          lookup_eq_none_iff.mpr fun j again => ?_⟩
        by_cases isJ : j = i
        · rw [isJ, here] at again
          exact differs again
        · exact isJ (single other j i ((there isJ).mp again) cached)
      · rw [lookup_of_caches unambiguous ((there isI).mpr cached), lookup_of_caches single cached,
          stored, update_of_ne isI]
        exact .inl rfl
    · have missing := not_exists.mp known
      rw [lookup_eq_none_iff.mpr missing]
      refine .inl (lookup_eq_none_iff.mpr fun i cached => ?_)
      by_cases isI : i = slot
      · rw [isI, here] at cached
        exact differs cached
      · exact missing i ((there isI).mp cached)
  · obtain ⟨cached, differs⟩ := evicted evicts
    rcases place with own | ⟨-, free | all⟩
    · exact absurd (own.2.symm.trans cached.2) differs
    · rw [cached.1] at free
      cases free
    · exact all

end NetState

variable {state now next final : NetState} {ip : Ip} {mac : Mac}

/-- A packet is always processed, and changes the cache as the rules say. -/
theorem receiveArp_teaches (single : now.Unambiguous) (packet : Bytes) :
    ∃ next, receiveArp now packet = some next ∧ now.Teaches next (announced packet) := by
  have kinds : arpTraffic packet = .other ∨ ∃ ip mac, arpTraffic packet = .arp ip mac := by
    unfold arpTraffic
    split
    · exact .inl rfl
    · split
      · exact .inr ⟨_, _, rfl⟩
      · exact .inl rfl
  have digests := processArp_digests silentEnv now packet
  rw [announced]
  rcases kinds with kind | ⟨ip, mac, kind⟩
  · rw [kind] at digests ⊢
    obtain ⟨next, alike, outcome⟩ := digests
    exact ⟨next, congrArg (·.toOption.map Prod.snd) (outcome (pure ()) 0),
      .nothing single alike.arpCache⟩
  rw [kind] at digests ⊢
  obtain ⟨next, alike, outcome⟩ := digests
  obtain ⟨slot, stored, place⟩ := now.insert_cases ip mac
  exact ⟨next, congrArg (·.toOption.map Prod.snd) (outcome (pure ()) 0),
    .stored single (alike.arpCache.trans stored) place⟩

/-- The address is forgotten while the packets are received. -/
def EvictedBy (start : NetState) (packets : List Bytes) (ip : Ip) : Prop :=
  ∃ front evictor back before after, packets = front ++ evictor :: back ∧
    Transition.run receiveArp start front = some before ∧
    receiveArp before evictor = some after ∧ before.Evicts after ip

/-- While no packet announces it again, an address stays cached until a packet evicts it. -/
theorem lookup_kept_or_evicted {late : List Bytes} (single : now.Unambiguous)
    (known : now.lookup ip = some mac)
    (quiet : ∀ packet ∈ late, ∀ mac, announced packet ≠ some (ip, mac))
    (reached : run receiveArp now late = some final) :
    final.lookup ip = some mac ∨ EvictedBy now late ip := by
  induction late generalizing now with
  | nil =>
    cases reached
    exact .inl known
  | cons packet rest ih =>
    obtain ⟨next, received, teaches⟩ := receiveArp_teaches single packet
    rcases teaches.kept ip (quiet packet (.head _)) with same | evicts
    · rw [run, received] at reached
      refine (ih teaches.unambiguous (same.trans known)
        (fun later member => quiet later (mem_cons_of_mem _ member)) reached).imp_right ?_
      rintro ⟨front, evictor, back, before, after, rfl, earlier, evicting⟩
      refine ⟨packet :: front, evictor, back, before, after, rfl, ?_, evicting⟩
      rw [run, received]
      exact earlier
    · exact .inr ⟨[], packet, rest, now, next, rfl, rfl, received, evicts⟩

theorem receiveArps_total (single : now.Unambiguous) (packets : List Bytes) :
    ∃ final, run receiveArp now packets = some final ∧ final.Unambiguous := by
  refine run_total (fun now packet single _ => ?_) single
    (meets_of_forall (fun _ _ _ => trivial) now)
  obtain ⟨next, received, teaches⟩ := receiveArp_teaches single packet
  exact ⟨next, received, teaches.unambiguous⟩

/-- After any packets the cache has one entry per address.  The next packet evicts at most one
address, not its own and only from a full cache, and the address that it announces stays cached
with its MAC until it is announced again or evicted. -/
theorem arpCache_lastWriter (state : NetState) (early : List Bytes) (packet : Bytes)
    (late : List Bytes) :
    ∃ now next final, Transition.run receiveArp state.clearCache early = some now ∧
      receiveArp now packet = some next ∧ Transition.run receiveArp next late = some final ∧
      now.Unambiguous ∧
      (∀ ip other, now.Evicts next ip → now.Evicts next other → ip = other) ∧
      (∀ ip, now.Evicts next ip →
        (∀ mac, announced packet ≠ some (ip, mac)) ∧ ∀ i, (now.arpCache i).valid = true) ∧
      ∀ ip mac, announced packet = some (ip, mac) →
        (∀ later ∈ late, ∀ mac, announced later ≠ some (ip, mac)) →
          final.lookup ip = some mac ∨ EvictedBy next late ip := by
  have vacant : state.clearCache.Unambiguous := fun _ _ _ cached =>
    absurd cached.1 Bool.false_ne_true
  obtain ⟨now, reached, single⟩ := receiveArps_total vacant early
  obtain ⟨next, received, teaches⟩ := receiveArp_teaches single packet
  obtain ⟨final, ended, -⟩ := receiveArps_total teaches.unambiguous late
  refine ⟨now, next, final, reached, received, ended, single, teaches.single, fun ip evicts =>
    ⟨fun mac taught => ?_, teaches.full ip evicts⟩, fun ip mac taught quiet =>
      lookup_kept_or_evicted teaches.unambiguous (teaches.learned ip mac taught) quiet ended⟩
  rw [NetState.Evicts, teaches.learned ip mac taught] at evicts
  cases evicts.2

end CantayaOS.Net
