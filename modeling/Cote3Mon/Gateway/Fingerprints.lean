import Cote3Mon.Gateway.Server
import Cote3Mon.Lib.Absorb
import Cote3Mon.Protocol.CFrames

namespace Cote3Mon.Gateway
open ByteText Stream Protocol Protocol.C Absorb

/-- The body of the loop of `fingerprint_update`. -/
def hashStep (hash : UInt64) (byte : UInt8) : UInt64 := (hash ^^^ byte.toUInt64) * 1099511628211

theorem fingerprintUpdate_eq (hash : UInt64) (data : Bytes) :
    fingerprintUpdate hash data = data.foldl hashStep hash := rfl

/-- The factor is odd, so it has an inverse modulo 2^64. -/
theorem mul_prime_injective : Function.Injective fun x : UInt64 => x * 1099511628211 := by
  have hinverse : (1099511628211 : UInt64) * 14886173955864302971 = 1 := by decide
  intro x y h
  have happly := congrArg (· * (14886173955864302971 : UInt64)) h
  simpa only [UInt64.mul_assoc, hinverse, UInt64.mul_one] using happly

theorem hashStep_state_injective (byte : UInt8) :
    Function.Injective fun hash => hashStep hash byte := by
  intro hash hash' h
  exact UInt64.xor_left_inj _ |>.mp (mul_prime_injective h)

theorem hashStep_byte_injective (hash : UInt64) : Function.Injective (hashStep hash) := by
  intro byte byte' h
  exact UInt8.toUInt64_inj.mp ((UInt64.xor_right_inj _).mp (mul_prime_injective h))

def finishHash (secret hash : UInt64) : UInt64 := (hash ^^^ (secret >>> 17)) * 1099511628211

theorem finishHash_injective (secret : UInt64) : Function.Injective (finishHash secret) := by
  intro hash hash' h
  exact (UInt64.xor_left_inj _).mp (mul_prime_injective h)

def keyBytes (request : Request) : Bytes := request.key.take request.keyLen.toNat

def valueBytes (request : Request) : Bytes := request.value.take request.valueLen.toNat

structure Filled (request : Request) : Prop where
  key : request.keyLen.toNat ≤ request.key.length
  value : request.valueLen.toNat ≤ request.value.length

/-- What `keyed_fingerprint` feeds to the hash. -/
def fingerprintInput (order : ByteOrder) (request : Request) (includeValue : Bool) : Bytes :=
  order.store 4 request.keyLen.toNat ++ (keyBytes request ++
    if includeValue then
      order.store 2 request.operation.toNat ++
        (order.store 4 request.valueLen.toNat ++ valueBytes request)
    else [])

theorem keyedFingerprint_eq (cfg : Config) (request : Request) (includeValue : Bool) :
    keyedFingerprint cfg request includeValue = finishHash cfg.fingerprintSecret
      (fingerprintUpdate (1469598103934665603 ^^^ cfg.fingerprintSecret)
        (fingerprintInput cfg.order request includeValue)) := by
  rw [keyedFingerprint, finishHash, fingerprintInput]
  cases includeValue with
  | false =>
    simp only [fingerprintUpdate_eq, List.foldl_append, Bool.false_eq_true, if_false, List.foldl_nil]
    rfl
  | true =>
    simp only [fingerprintUpdate_eq, List.foldl_append, if_true]
    rfl

variable {order : ByteOrder} {request request' : Request}

theorem store_length (order : ByteOrder) (k n : ℕ) : (order.store k n).length = k := by
  cases order with
  | little => exact leBytes_length k n
  | big => exact beBytes_length k n

theorem store_injective {k m n : ℕ} (hm : m < 256 ^ k) (hn : n < 256 ^ k)
    (h : order.store k m = order.store k n) : m = n := by
  have hload : order.load (order.store k m) = m := ByteOrder.load_store hm
  rw [← hload, h, ByteOrder.load_store hn]

/-- A length of four bytes and as many bytes as it says are read back, whatever follows them. -/
theorem sized_injective {n n' : UInt32} {data data' rest rest' : Bytes}
    (hdata : data.length = n.toNat)
    (hdata' : data'.length = n'.toNat)
    (h : order.store 4 n.toNat ++ (data ++ rest) = order.store 4 n'.toNat ++ (data' ++ rest')) :
    data = data' ∧ rest = rest' := by
  obtain ⟨hfield, htail⟩ := List.append_inj h (by rw [store_length, store_length])
  have hsame : n.toNat = n'.toNat := store_injective n.toNat_lt n'.toNat_lt hfield
  exact List.append_inj htail (by rw [hdata, hdata', hsame])

theorem Filled.keyBytes_length (h : Filled request) :
    (keyBytes request).length = request.keyLen.toNat := by
  rw [keyBytes, List.length_take, Nat.min_eq_left h.key]

theorem Filled.valueBytes_length (h : Filled request) :
    (valueBytes request).length = request.valueLen.toNat := by
  rw [valueBytes, List.length_take, Nat.min_eq_left h.value]

theorem fingerprintInput_key (h : Filled request) (h' : Filled request')
    (hinput : fingerprintInput order request false = fingerprintInput order request' false) :
    keyBytes request = keyBytes request' :=
  (sized_injective h.keyBytes_length h'.keyBytes_length hinput).1

theorem fingerprintInput_request (h : Filled request) (h' : Filled request')
    (hinput : fingerprintInput order request true = fingerprintInput order request' true) :
    request.operation = request'.operation ∧ keyBytes request = keyBytes request' ∧
      valueBytes request = valueBytes request' := by
  obtain ⟨hkey, htail⟩ := sized_injective h.keyBytes_length h'.keyBytes_length hinput
  rw [if_pos rfl, if_pos rfl] at htail
  obtain ⟨hoperation, hvalue⟩ := List.append_inj htail (by rw [store_length, store_length])
  rw [← List.append_nil (valueBytes request), ← List.append_nil (valueBytes request')] at hvalue
  exact ⟨UInt16.toNat_inj.mp (store_injective request.operation.toNat_lt
    request'.operation.toNat_lt hoperation), hkey,
    (sized_injective h.valueBytes_length h'.valueBytes_length hvalue).1⟩

theorem keyedFingerprint_ne (cfg : Config) {includeValue : Bool}
    (h : DiffersOnce (fingerprintInput cfg.order request includeValue)
      (fingerprintInput cfg.order request' includeValue)) :
    keyedFingerprint cfg request includeValue ≠ keyedFingerprint cfg request' includeValue := by
  rw [keyedFingerprint_eq, keyedFingerprint_eq]
  intro hsame
  exact foldl_ne hashStep_state_injective hashStep_byte_injective h _ (finishHash_injective _ hsame)

/-- **The fingerprints separate near-identical requests.** The hashed bytes determine the key, or
the operation, the key and the value; and two requests of the same lengths and operation that differ
in one byte have different fingerprints, for every secret. -/
theorem fingerprints_separate (cfg : Config) (request request' : Request) (h : Filled request)
    (h' : Filled request') :
    (fingerprintInput cfg.order request false = fingerprintInput cfg.order request' false →
        keyBytes request = keyBytes request') ∧
      (fingerprintInput cfg.order request true = fingerprintInput cfg.order request' true →
        request.operation = request'.operation ∧ keyBytes request = keyBytes request' ∧
          valueBytes request = valueBytes request') ∧
      (request.keyLen = request'.keyLen → request.valueLen = request'.valueLen →
        request.operation = request'.operation →
        (DiffersOnce (keyBytes request) (keyBytes request') →
            valueBytes request = valueBytes request' →
              keyedFingerprint cfg request true ≠ keyedFingerprint cfg request' true ∧
                keyedFingerprint cfg request false ≠ keyedFingerprint cfg request' false) ∧
          (keyBytes request = keyBytes request' →
            DiffersOnce (valueBytes request) (valueBytes request') →
              keyedFingerprint cfg request true ≠ keyedFingerprint cfg request' true)) := by
  refine ⟨fingerprintInput_key h h', fingerprintInput_request h h',
    fun hkeyLen hvalueLen hoperation => ⟨fun hkey hvalue => ?_, fun hkey hvalue => ?_⟩⟩
  · have hdiffers : ∀ rest,
        DiffersOnce (cfg.order.store 4 request'.keyLen.toNat ++ (keyBytes request ++ rest))
          (cfg.order.store 4 request'.keyLen.toNat ++ (keyBytes request' ++ rest)) :=
      fun rest => (hkey.append_right rest).append_left _
    constructor
    · apply keyedFingerprint_ne
      rw [fingerprintInput, fingerprintInput, hkeyLen, hvalueLen, hoperation, hvalue]
      exact hdiffers _
    · apply keyedFingerprint_ne
      rw [fingerprintInput, fingerprintInput, hkeyLen]
      exact hdiffers _
  · apply keyedFingerprint_ne
    rw [fingerprintInput, fingerprintInput, hkeyLen, hvalueLen, hoperation, hkey]
    exact (((hvalue.append_left _).append_left _).append_left _).append_left _

/-- A GET of the key `a` and one of the key `b`. -/
theorem fingerprints_separate_two_keys :
    keyedFingerprint ⟨.little, .terminate, 0, [], [], [], false, true⟩
      ⟨1, 2, 1, 0, [0x61], []⟩ false ≠
      keyedFingerprint ⟨.little, .terminate, 0, [], [], [], false, true⟩
        ⟨2, 2, 1, 0, [0x62], []⟩ false :=
  (((fingerprints_separate ⟨.little, .terminate, 0, [], [], [], false, true⟩
    ⟨1, 2, 1, 0, [0x61], []⟩ ⟨2, 2, 1, 0, [0x62], []⟩ ⟨by decide, by decide⟩
      ⟨by decide, by decide⟩).2.2 rfl rfl rfl).1 ⟨[], 0x61, 0x62, [], by decide, rfl, rfl⟩ rfl).2

end Cote3Mon.Gateway
