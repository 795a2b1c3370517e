import CantayaOS.Lib.OnesComplement
import CantayaOS.Net.Packet

/-!
# Packets read back

What is built is parsed back to the fields it was built from, whatever bytes
follow it.  For IPv4 this rests on the checksum: a header that carries its own
checksum adds up to zero in ones' complement.
-/

namespace CantayaOS.Net

open Lib Lib.Checked OnesComplement List Nat UInt16

theorem be16_toNat (high low : UInt8) : (be16 high low).toNat = high.toNat * 256 + low.toNat := by
  have highSmall := high.toNat_lt
  have lowSmall := low.toNat_lt
  have shifted : (high.toUInt16 <<< 8).toNat = high.toNat <<< 8 := by
    exact mod_eq_of_lt (show high.toNat <<< 8 < 2 ^ 16 by rw [shiftLeft_eq]; omega)
  rw [be16, UInt16.toNat_or, shifted, UInt8.toNat_toUInt16,
    ← shiftLeft_add_eq_or_of_lt lowSmall, shiftLeft_eq]

theorem be16_toBeBytes (value : UInt16) : be16 (value >>> 8).toUInt8 value.toUInt8 = value := by
  have small := value.toNat_lt
  have high : (value >>> 8).toNat = value.toNat / 2 ^ 8 := by
    rw [UInt16.toNat_shiftRight, shiftRight_eq_div_pow]
    rfl
  rw [← UInt16.toNat_inj, be16_toNat, UInt16.toNat_toUInt8, UInt16.toNat_toUInt8]
  omega

@[simp] theorem length_toBeBytes (value : UInt16) : (toBeBytes value).length = 2 := rfl

section Fields

variable {first last : Nat} (front rest : Bytes)

theorem index_append (byte : UInt8) (starts : front.length = first) :
    index (front ++ byte :: rest) first = .ok byte := by
  subst starts
  simp [index]

theorem readU16_append (value : UInt16) (starts : front.length = first) :
    readU16 (front ++ (toBeBytes value ++ rest)) first = .ok value := by
  have low : index (front ++ (toBeBytes value ++ rest)) (first + 1) = .ok value.toUInt8 := by
    have split : front ++ (toBeBytes value ++ rest) =
        (front ++ [(value >>> 8).toUInt8]) ++ value.toUInt8 :: rest := by
      simp [toBeBytes]
    rw [split]
    exact index_append _ _ _ (by simp [starts])
  rw [readU16, low, toBeBytes, cons_append, index_append _ _ _ starts]
  simp only [ok_bind, be16_toBeBytes]
  rfl

theorem slice_append (bytes : Bytes) (starts : front.length = first)
    (ends : first + bytes.length = last) :
    slice (front ++ (bytes ++ rest)) first last = .ok bytes := by
  subst starts ends
  rw [slice_ok (Nat.le_add_right _ _) (by simp), take_length_add_append, drop_left, take_left]

theorem octets_slice_append {n : Nat} (bytes : Octets n) (starts : front.length = first)
    (ends : first + n = last) :
    (slice (front ++ (bytes.val ++ rest)) first last >>= octets n) = .ok bytes := by
  rw [slice_append _ _ _ starts (by rw [bytes.property, ends]), ok_bind, octets_ok bytes.property]

theorem overwrite_append (old new : Bytes) (starts : front.length = first)
    (size : new.length = old.length) :
    overwrite (front ++ (old ++ rest)) first new = .ok (front ++ (new ++ rest)) := by
  subst starts
  rw [overwrite_ok (by simp [size]), size, take_left, drop_length_add_append,
    drop_left, append_assoc]

end Fields

/-! ## Checksums -/

/-- The sum of the 16-bit words of some bytes, a single last byte being a high half. -/
def wordSum : Bytes → Nat
  | [] => 0
  | [last] => last.toNat * 256
  | high :: low :: rest => (be16 high low).toNat + wordSum rest

theorem wordSum_append (front rest : Bytes) (even : 2 ∣ front.length) :
    wordSum (front ++ rest) = wordSum front + wordSum rest := by
  induction front using wordSum.induct with
  | case1 => simp [wordSum]
  | case2 last => simp at even
  | case3 high low front ih =>
    have tail : 2 ∣ front.length := by
      simp only [length_cons] at even
      omega
    simp only [cons_append, wordSum]
    omega

theorem wordSum_toBeBytes (value : UInt16) : wordSum (toBeBytes value) = value.toNat := by
  simp [toBeBytes, wordSum, be16_toBeBytes]

theorem wordSum_drop {data : Bytes} {i : Nat} (more : i + 1 < data.length) : wordSum (data.drop i) =
    (be16 (data.getD i 0) (data.getD (i + 1) 0)).toNat + wordSum (data.drop (i + 2)) := by
  rw [drop_eq_getElem_cons (show i < data.length by omega),
    drop_eq_getElem_cons more, wordSum, getD_eq_getElem _ _ more,
    getD_eq_getElem _ _ (show i < data.length by omega)]

/-- The loop and the last byte add up the words that remain in 32 bits. -/
theorem sumWords_eq (data : Bytes) (fuel i sum : Nat) (enough : data.length ≤ fuel + i)
    (small : sum < 2 ^ 32) :
    (sumWords data (fuel + 1) i sum >>= fun reached => addLastByte data reached.1 reached.2) =
      .ok ((sum + wordSum (data.drop i)) % 2 ^ 32) := by
  induction fuel generalizing i sum with
  | zero =>
    have ended : data.drop i = [] := drop_eq_nil_of_le (by omega)
    rw [sumWords, if_neg (by omega), ok_bind, addLastByte, if_neg (by omega), ended]
    exact congrArg _ (mod_eq_of_lt small).symm
  | succ fuel ih =>
    rw [sumWords]
    by_cases more : i + 1 < data.length
    · rw [if_pos more, readU16_ok more, ok_bind, ih (i + 2) _ (by omega) (mod_lt _ (by decide)),
        mod_add_mod, wordSum_drop more, add_assoc]
    · rw [if_neg more, ok_bind, addLastByte]
      by_cases inside : i < data.length
      · have words : data.drop i = [data.getD i 0] := by
          rw [drop_eq_getElem_cons inside, drop_eq_nil_of_le (by omega), getD_eq_getElem _ _ inside]
        rw [if_pos inside, index_ok inside, ok_bind, words, shiftLeft_eq]
        rfl
      · rw [if_neg inside, drop_eq_nil_of_le (by omega)]
        exact congrArg _ (mod_eq_of_lt small).symm

/-- Folding all carries: the ones' complement value of the sum. -/
theorem foldCarries_spec {sum : Nat} (small : sum < 2 ^ 32) :
    ∃ folded, foldCarries 3 sum = .ok folded ∧ folded < 2 ^ 16 ∧
      folded ≡ sum [MOD 2 ^ 16 - 1] ∧ (0 < folded ↔ 0 < sum) := by
  by_cases low : sum < 2 ^ 16
  · exact ⟨sum, foldCarries_low 2 low, low, rfl, .rfl⟩
  rw [foldCarries_high 2 (by omega)]
  have once := fold_modEq 16 sum
  have oncePos : 0 < OnesComplement.fold 16 sum ↔ 0 < sum := fold_pos_iff
  rw [OnesComplement.fold] at once oncePos
  by_cases settled : sum % 2 ^ 16 + sum / 2 ^ 16 < 2 ^ 16
  · exact ⟨_, foldCarries_low 1 settled, settled, once, oncePos⟩
  rw [foldCarries_high 1 (by omega)]
  generalize foldedOnce : sum % 2 ^ 16 + sum / 2 ^ 16 = next at *
  have twice := fold_modEq 16 next
  rw [OnesComplement.fold] at twice
  exact ⟨_, foldCarries_low 0 (by omega), by omega, twice.trans once,
    fold_pos_iff.trans oncePos⟩

theorem checksum_eq (data : Bytes) :
    ∃ folded, checksum data = .ok (~~~(ofNat folded)) ∧ folded < 2 ^ 16 ∧
      folded ≡ wordSum data % 2 ^ 32 [MOD 2 ^ 16 - 1] ∧
      (0 < folded ↔ 0 < wordSum data % 2 ^ 32) := by
  have summed := sumWords_eq data data.length 0 0 (by omega) (by decide)
  obtain ⟨folded, settled, rest⟩ := foldCarries_spec (mod_lt (wordSum data) (by decide))
  refine ⟨folded, ?_, rest⟩
  rw [drop_zero, zero_add] at summed
  cases words : sumWords data (data.length + 1) 0 0 with
  | error fault => rw [words] at summed; cases summed
  | ok reached =>
    rw [words, ok_bind] at summed
    simp only [checksum, words, summed, settled, ok_bind]
    rfl

theorem checksum_total (data : Bytes) : ∃ value, checksum data = .ok value := by
  obtain ⟨folded, computed, -⟩ := checksum_eq data
  exact ⟨_, computed⟩

theorem not_ofNat_toNat {folded : Nat} (small : folded < 2 ^ 16) :
    (~~~(ofNat folded)).toNat = 2 ^ 16 - 1 - folded := by
  rw [toNat_not, toNat_ofNat_of_lt' small]
  rfl

/-- The checksum is zero if the sum is a positive multiple of `2 ^ 16 - 1`. -/
theorem checksum_eq_zero_iff {data : Bytes} : checksum data = .ok 0 ↔
    0 < wordSum data % 2 ^ 32 ∧ wordSum data % 2 ^ 32 ≡ 2 ^ 16 - 1 [MOD 2 ^ 16 - 1] := by
  obtain ⟨folded, computed, small, same, positive⟩ := checksum_eq data
  have value := not_ofNat_toNat small
  rw [computed, ← positive]
  constructor
  · intro zero
    rw [Except.ok.inj zero, UInt16.toNat_zero] at value
    have ones : folded = 2 ^ 16 - 1 := by omega
    rw [ones] at same ⊢
    exact ⟨by decide, same.symm⟩
  · rintro ⟨nonzero, ones⟩
    rw [eq_of_modEq (same.trans ones) nonzero (by decide) small (by decide)]
    rfl

/-- Bytes that carry their own checksum, at an even place, have the checksum zero. -/
theorem checksum_filled {front rest : Bytes} {cksum : UInt16} (even : 2 ∣ front.length)
    (computed : checksum (front ++ ([0, 0] ++ rest)) = .ok cksum) :
    checksum (front ++ (toBeBytes cksum ++ rest)) = .ok 0 := by
  obtain ⟨folded, isCksum, small, same, positive⟩ := checksum_eq (front ++ ([0, 0] ++ rest))
  have isValue : cksum.toNat = 2 ^ 16 - 1 - folded := by
    rw [computed] at isCksum
    injection isCksum with isCksum
    rw [isCksum, not_ofNat_toNat small]
  have blank : wordSum (front ++ ([0, 0] ++ rest)) = wordSum front + wordSum rest := by
    rw [wordSum_append _ _ even]
    simp [wordSum, be16_toNat]
  have total : wordSum (front ++ (toBeBytes cksum ++ rest)) =
      wordSum front + wordSum rest + (2 ^ 16 - 1 - folded) := by
    rw [wordSum_append _ _ even, wordSum_append _ rest (by simp), wordSum_toBeBytes]
    omega
  rw [blank] at same positive
  -- The complement makes the sum a multiple of `2 ^ 16 - 1`, so it does not wrap.
  have fits : (wordSum front + wordSum rest) % 2 ^ 32 + (2 ^ 16 - 1 - folded) < 2 ^ 32 := by
    rw [Nat.ModEq] at same
    omega
  rw [checksum_eq_zero_iff, total, ← mod_add_mod, mod_eq_of_lt fits]
  exact ⟨by omega, add_complement_modEq same small⟩

theorem wordSum_le (data : Bytes) : wordSum data ≤ 65535 * data.length := by
  induction data using wordSum.induct with
  | case1 => exact le_rfl
  | case2 last =>
    have small := last.toNat_lt
    rw [wordSum, length_singleton]
    omega
  | case3 high low rest ih =>
    have small := (be16 high low).toNat_lt
    rw [wordSum, length_cons, length_cons]
    omega

section

variable {data changed : Bytes} {place : Nat} {old new : UInt16}

theorem wordSum_of_checked (short : data.length ≤ 65535) (zero : checksum data = .ok 0) :
    wordSum data ≡ 2 ^ 16 - 1 [MOD 2 ^ 16 - 1] := by
  have bound := wordSum_le data
  have ones := (checksum_eq_zero_iff.mp zero).2
  rwa [mod_eq_of_lt (by omega)] at ones

/-- A word that is replaced leaves its place in the sum to the new one. -/
theorem wordSum_overwrite (even : 2 ∣ place) (reads : readU16 data place = .ok old)
    (written : overwrite data place (toBeBytes new) = .ok changed) :
    changed.length = data.length ∧ wordSum changed + old.toNat = wordSum data + new.toNat := by
  by_cases inside : place + (toBeBytes new).length ≤ data.length
  · rw [overwrite_ok inside] at written
    rw [length_toBeBytes] at inside
    rw [readU16_ok (by omega)] at reads
    cases written
    cases reads
    have front : 2 ∣ (data.take place).length := by
      rwa [length_take_of_le (by omega)]
    have whole := wordSum_append _ (data.drop place) front
    rw [take_append_drop, wordSum_drop (by omega)] at whole
    constructor
    · simp only [length_append, length_take, length_drop, length_toBeBytes]
      omega
    · rw [append_assoc, wordSum_append _ _ front, wordSum_append _ _ (by simp), wordSum_toBeBytes,
        length_toBeBytes]
      omega
  · rw [overwrite, if_neg inside] at written
    cases written

end

/-- A message that carries its own checksum has the checksum zero, and no longer has it when an
aligned word gets another residue. -/
theorem checksum_protects (data : Bytes) (short : data.length ≤ 65535) (offset : Nat)
    (even : 2 ∣ offset) (inside : offset + 2 ≤ data.length) :
    ∃ blank cksum filled, overwrite data offset [0, 0] = .ok blank ∧ checksum blank = .ok cksum ∧
      overwrite blank offset (toBeBytes cksum) = .ok filled ∧ checksum filled = .ok 0 ∧
      ∀ place old new changed, 2 ∣ place → readU16 filled place = .ok old →
        overwrite filled place (toBeBytes new) = .ok changed →
        ¬ new.toNat ≡ old.toNat [MOD 65535] → checksum changed ≠ .ok 0 := by
  have starts : (data.take offset).length = offset := length_take_of_le (by omega)
  obtain ⟨cksum, computed⟩ :=
    checksum_total (data.take offset ++ ([0, 0] ++ data.drop (offset + 2)))
  have checked := checksum_filled (starts.symm ▸ even) computed
  refine ⟨_, cksum, _, (overwrite_ok inside).trans (congrArg _ (append_assoc ..)), computed,
    overwrite_append _ _ _ _ starts rfl, checked, ?_⟩
  intro place old new changed aligned reads written differ zero
  obtain ⟨length, sum⟩ := wordSum_overwrite aligned reads written
  have fits : (data.take offset ++ (toBeBytes cksum ++ data.drop (offset + 2))).length ≤ 65535 := by
    simp only [length_append, length_drop, length_toBeBytes, starts]
    omega
  have before := wordSum_of_checked fits checked
  have after := wordSum_of_checked (length ▸ fits) zero
  exact differ (.add_left_cancel (before.trans after.symm) (sum ▸ .rfl))

/-- The first word of five bytes is changed from 0x0102 to 0x0103. -/
theorem checksum_protects_five :
    ∃ blank cksum filled changed, overwrite [1, 2, 3, 4, 5] 2 [0, 0] = .ok blank ∧
      checksum blank = .ok cksum ∧ overwrite blank 2 (toBeBytes cksum) = .ok filled ∧
      checksum filled = .ok 0 ∧ overwrite filled 0 (toBeBytes 0x0103) = .ok changed ∧
      checksum changed ≠ .ok 0 := by
  obtain ⟨blank, cksum, filled, cleared, computed, written, checked, protects⟩ :=
    checksum_protects [1, 2, 3, 4, 5] (by decide) 2 (by decide) (by decide)
  cases cleared
  cases computed
  cases written
  exact ⟨_, _, _, _, rfl, rfl, rfl, checked, rfl,
    protects 0 0x0102 0x0103 _ (by decide) rfl rfl (by decide)⟩

theorem EthernetFrame.parse_buildFrame (dstMac srcMac : Mac) (payload : Bytes) :
    EthernetFrame.parse (buildFrame dstMac srcMac .ipv4 payload) =
      .ok (some ⟨dstMac, srcMac, .ipv4, payload⟩) := by
  have shape : buildFrame dstMac srcMac .ipv4 payload =
      dstMac.val ++ (srcMac.val ++ (toBeBytes 0x0800 ++ payload)) := by
    simp [buildFrame, EtherType.toU16]
  have length : (buildFrame dstMac srcMac .ipv4 payload).length = 14 + payload.length := by
    rw [shape]
    simp only [length_append, length_toBeBytes]
    omega
  have destination := octets_slice_append [] (srcMac.val ++ (toBeBytes 0x0800 ++ payload)) dstMac
    (show _ = 0 from rfl) (show 0 + 6 = 6 from rfl)
  have source := octets_slice_append dstMac.val (toBeBytes 0x0800 ++ payload) srcMac
    dstMac.property (show 6 + 6 = 12 from rfl)
  have ethertype := readU16_append (dstMac.val ++ srcMac.val) payload 0x0800
    (show _ = 12 by rw [length_append, dstMac.property, srcMac.property])
  have body := slice_append (dstMac.val ++ srcMac.val ++ toBeBytes 0x0800) [] payload
    (show _ = 14 by simp [dstMac.property, srcMac.property]) (show _ = 14 + payload.length from rfl)
  simp only [nil_append, append_nil, append_assoc, ← shape] at *
  rw [parse, length, if_neg (by omega), destination, source, ethertype, body]
  rfl

/-! ## IPv4 -/

def ipv4Header (srcIp dstIp : Ip) (totalLen id : UInt16) (protocol : UInt8) (cksum : UInt16) :
    Bytes :=
  [0x45, 0x00] ++ toBeBytes totalLen ++ toBeBytes id ++ [0x40, 0x00, 64, protocol] ++
    toBeBytes cksum ++ srcIp.val ++ dstIp.val

section Ipv4

variable (srcIp dstIp : Ip) (totalLen id : UInt16) (protocol : UInt8) (cksum : UInt16)

@[simp] theorem length_ipv4Header :
    (ipv4Header srcIp dstIp totalLen id protocol cksum).length = 20 := by
  simp [ipv4Header, srcIp.property, dstIp.property]

/-- Building fills in a checksum that makes the header's own checksum zero. -/
theorem buildPacket_eq (payload : Bytes) :
    ∃ cksum, buildPacket srcIp dstIp id protocol payload = .ok
        (ipv4Header srcIp dstIp (ofNat (20 + payload.length)) id protocol cksum ++ payload) ∧
      checksum (ipv4Header srcIp dstIp (ofNat (20 + payload.length)) id protocol cksum) =
        .ok 0 := by
  generalize isLen : ofNat (20 + payload.length) = totalLen
  generalize isFront :
    [0x45, 0x00] ++ toBeBytes totalLen ++ toBeBytes id ++ [0x40, 0x00, 64, protocol] = front
  generalize isAddresses : srcIp.val ++ dstIp.val = addresses
  have header (cksum : UInt16) : ipv4Header srcIp dstIp totalLen id protocol cksum =
      front ++ (toBeBytes cksum ++ addresses) := by
    simp [ipv4Header, ← isFront, ← isAddresses]
  have blank : [0x45, 0x00] ++ toBeBytes totalLen ++ toBeBytes id ++
      [0x40, 0x00, 64, protocol, 0, 0] ++ srcIp.val ++ dstIp.val ++ payload =
        front ++ ([0, 0] ++ (addresses ++ payload)) := by
    simp [← isFront, ← isAddresses]
  have frontLength : front.length = 10 := by simp [← isFront]
  have addressesLength : addresses.length = 8 := by
    simp [← isAddresses, srcIp.property, dstIp.property]
  obtain ⟨cksum, computed⟩ := checksum_total (front ++ ([0, 0] ++ addresses))
  have sliced := slice_append [] payload (front ++ ([0, 0] ++ addresses)) (show _ = 0 from rfl)
    (show _ = 20 by simp [frontLength, addressesLength])
  have written := overwrite_append front (addresses ++ payload) [0, 0] (toBeBytes cksum)
    frontLength rfl
  refine ⟨cksum, ?_, ?_⟩
  · simp only [nil_append, append_assoc] at sliced computed ⊢
    simp only [buildPacket, isLen, header, append_assoc]
    simp only [append_assoc] at blank
    rw [blank, sliced, ok_bind, computed, ok_bind, written]
  · rw [header]
    exact checksum_filled (by rw [frontLength]; decide) computed

/-- The fixed fields of a header, followed by any bytes. -/
theorem Ipv4Packet.readFields_header (payload padding : Bytes) :
    Ipv4Packet.readFields
        (ipv4Header srcIp dstIp totalLen id protocol cksum ++ (payload ++ padding)) 20
        (20 + payload.length) =
      .ok ⟨srcIp, dstIp, protocol, 64, id, 20, 20 + payload.length, payload⟩ := by
  have body := slice_append (ipv4Header srcIp dstIp totalLen id protocol cksum) padding payload
    (length_ipv4Header ..) rfl
  generalize payload ++ padding = rest at body ⊢
  have identification := readU16_append ([0x45, 0x00] ++ toBeBytes totalLen)
    ([0x40, 0x00, 64, protocol] ++ toBeBytes cksum ++ srcIp.val ++ dstIp.val ++ rest) id
    (show _ = 4 from rfl)
  have source := octets_slice_append
    ([0x45, 0x00] ++ toBeBytes totalLen ++ toBeBytes id ++ [0x40, 0x00, 64, protocol] ++
      toBeBytes cksum) (dstIp.val ++ rest) srcIp (show _ = 12 from rfl) (show _ = 16 from rfl)
  have destination := octets_slice_append
    ([0x45, 0x00] ++ toBeBytes totalLen ++ toBeBytes id ++ [0x40, 0x00, 64, protocol] ++
      toBeBytes cksum ++ srcIp.val) rest dstIp (show _ = 16 by simp [srcIp.property])
    (show _ = 20 from rfl)
  simp only [ipv4Header, append_assoc] at body identification source destination ⊢
  rw [readFields, identification, source, destination, body]
  rfl

/-- A packet with a correct header is read back, and what follows its total length is cut off. -/
theorem Ipv4Packet.parse_header {payload : Bytes} (padding : Bytes)
    (isTotal : totalLen.toNat = 20 + payload.length)
    (checked : checksum (ipv4Header srcIp dstIp totalLen id protocol cksum) = .ok 0) :
    Ipv4Packet.parse (ipv4Header srcIp dstIp totalLen id protocol cksum ++ (payload ++ padding)) =
      .ok (some ⟨srcIp, dstIp, protocol, 64, id, 20, 20 + payload.length, payload⟩) := by
  have fields := readFields_header srcIp dstIp totalLen id protocol cksum payload padding
  have header := slice_append [] (payload ++ padding)
    (ipv4Header srcIp dstIp totalLen id protocol cksum) (show _ = 0 from rfl)
    (show _ = 20 by simp)
  rw [nil_append] at header
  generalize isBytes : ipv4Header srcIp dstIp totalLen id protocol cksum ++ (payload ++ padding) =
    bytes at fields header ⊢
  have total : readU16 bytes 2 = .ok totalLen := by
    rw [← isBytes]
    simp only [ipv4Header, append_assoc]
    exact readU16_append [0x45, 0x00] _ totalLen rfl
  have first : index bytes 0 = .ok 0x45 := by
    rw [← isBytes]
    rfl
  have length : bytes.length = 20 + payload.length + padding.length := by
    rw [← isBytes, length_append, length_append, length_ipv4Header]
    omega
  have version : (0x45 : UInt8) >>> 4 = 4 := by decide
  have headerLen : ((0x45 : UInt8) &&& 0x0F).toNat * 4 = 20 := by decide
  rw [parse, if_neg (by omega), first, ok_bind, if_neg (not_not.mpr version), ok_bind]
  dsimp only
  rw [headerLen, if_neg (by omega), total, ok_bind, isTotal, if_neg (by omega), header, ok_bind,
    checked, ok_bind, fields]
  rfl

end Ipv4

end CantayaOS.Net
