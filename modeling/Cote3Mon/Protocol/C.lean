import Cote3Mon.Lib.Stream
import Cote3Mon.Protocol.Wire

namespace Cote3Mon.Protocol.C
open ByteText Stream

-- `src/common/protocol.c`, for a machine of either byte order. A function that returns `-1` fails;
-- the arguments that it fills in are its result.

/-- `__BYTE_ORDER__`. -/
inductive ByteOrder where
  | little
  | big
  deriving DecidableEq

namespace ByteOrder

/-- The bytes in memory of a number of `k` bytes. -/
def store : ByteOrder → ℕ → ℕ → Bytes
  | little, k, n => leBytes k n
  | big, k, n => beBytes k n

def load : ByteOrder → Bytes → ℕ
  | little, bs => leNat bs
  | big, bs => beNat bs

end ByteOrder

variable (order : ByteOrder)

/-- The number whose bytes in memory are those of `x` in network order. -/
def htonl (x : UInt32) : UInt32 := UInt32.ofNat (order.load (beBytes 4 x.toNat))

def htons (x : UInt16) : UInt16 := UInt16.ofNat (order.load (beBytes 2 x.toNat))

/-- The number whose bytes in network order are those of `x` in memory. -/
def ntohl (x : UInt32) : UInt32 := UInt32.ofNat (beNat (order.store 4 x.toNat))

def ntohs (x : UInt16) : UInt16 := UInt16.ofNat (beNat (order.store 2 x.toNat))

def hostToNetworkU64 (value : UInt64) : UInt64 :=
  match order with
  | .little =>
    (htonl order (value >>> 32).toUInt32).toUInt64 ||| (htonl order value.toUInt32).toUInt64 <<< 32
  | .big => value

def networkToHostU64 (value : UInt64) : UInt64 := hostToNetworkU64 order value

def putU16 (value : UInt16) : Bytes := order.store 2 (htons order value).toNat
def putU32 (value : UInt32) : Bytes := order.store 4 (htonl order value).toNat
def putU64 (value : UInt64) : Bytes := order.store 8 (hostToNetworkU64 order value).toNat

def getU16 (buffer : Bytes) : UInt16 := ntohs order (UInt16.ofNat (order.load (buffer.take 2)))
def getU32 (buffer : Bytes) : UInt32 := ntohl order (UInt32.ofNat (order.load (buffer.take 4)))
def getU64 (buffer : Bytes) : UInt64 :=
  networkToHostU64 order (UInt64.ofNat (order.load (buffer.take 8)))

abbrev Recv := Exec Unit Input

def readFull (length : ℕ) : Recv Bytes := fun input =>
  if length = 0 then (.ok [], input)
  else
    match _h : input.read length with
    | (.data [], input') => (.error (), input')
    | (.data (b :: bs), input') =>
      let out := readFull (length - (b :: bs).length) input'
      (out.1.map (b :: bs ++ ·), out.2)
    | (.interrupted, input') => readFull length input'
    | (.failed, input') => (.error (), input')
termination_by input => length + input.interruptions
decreasing_by
  · have hread := (Input.read_data _h).2
    simp only [List.length_cons] at hread ⊢
    omega
  · have hread := Input.read_interrupted _h
    omega

/-- A broken pipe raises `SIGPIPE` before `write` returns. -/
def writeFull (sigpipe : Disposition) (buffer : Bytes) (out : Output) : Outcome × Output :=
  if _hne : buffer = [] then (.done, out)
  else
    match _h : out.write buffer with
    | (.count n, out') => writeFull sigpipe (buffer.drop n) out'
    | (.interrupted, out') => writeFull sigpipe buffer out'
    | (.brokenPipe, out') => (sigpipe.brokenPipe, out')
termination_by buffer.length + out.answers.length
decreasing_by
  · obtain ⟨hpos, hle, -, -, -, hanswers⟩ := Output.write_count _h _hne
    rw [List.length_drop]
    omega
  · have hanswers := (Output.write_interrupted _h).2.2
    omega

def c3mMagic : UInt32 := 0x43334d31
def c3mVersion : UInt16 := 1
def c3mOpPut : UInt16 := 1
def c3mOpGet : UInt16 := 2
def c3mOpDelete : UInt16 := 3
def c3mStatusOk : UInt16 := 0
def c3mStatusInvalid : UInt16 := 1
def c3mStatusNotFound : UInt16 := 2
def c3mStatusBackendError : UInt16 := 3
def c3mStatusTooLarge : UInt16 := 4
def c3mStatusProtocolError : UInt16 := 5
def c3mMaxKeyBytes : UInt32 := 64
def c3mMaxValueBytes : UInt32 := 4096

/-- `struct c3m_request`; of the two buffers the part in use. -/
@[ext] structure Request where
  requestId : UInt64
  operation : UInt16
  keyLen : UInt32
  valueLen : UInt32
  key : Bytes
  value : Bytes
  deriving DecidableEq

/-- `struct c3m_response`. -/
@[ext] structure Response where
  requestId : UInt64
  status : UInt16
  valueLen : UInt32
  value : Bytes
  deriving DecidableEq

/-- `valueLen && read_full(...)`. -/
def readValue (valueLen : UInt32) : Recv Bytes :=
  if valueLen ≠ 0 then readFull valueLen.toNat else pure []

def recvRequest : Recv Request := do
  let header ← readFull 24
  let magic := getU32 order header
  let version := getU16 order (header.drop 4)
  let operation := getU16 order (header.drop 6)
  let requestId := getU64 order (header.drop 8)
  let keyLen := getU32 order (header.drop 16)
  let valueLen := getU32 order (header.drop 20)
  if magic ≠ c3mMagic ∨ version ≠ c3mVersion then throw ()
  else if operation < c3mOpPut ∨ c3mOpDelete < operation then throw ()
  else if keyLen = 0 ∨ c3mMaxKeyBytes < keyLen ∨ c3mMaxValueBytes < valueLen then throw ()
  else if operation ≠ c3mOpPut ∧ valueLen ≠ 0 then throw ()
  else
    let key ← readFull keyLen.toNat
    let value ← readValue valueLen
    return ⟨requestId, operation, keyLen, valueLen, key, value⟩

/-- `if (write_full(...) || ...)`, for one write after another. -/
def writeParts (sigpipe : Disposition) : List Bytes → Output → Outcome × Output
  | [], out => (.done, out)
  | part :: parts, out => Outcome.andThen (writeParts sigpipe parts) (writeFull sigpipe part out)

def sendRequest (sigpipe : Disposition) (request : Request) (out : Output) : Outcome × Output :=
  if request.keyLen = 0 ∨ c3mMaxKeyBytes < request.keyLen ∨
      c3mMaxValueBytes < request.valueLen then (.failed, out)
  else
    let header := putU32 order c3mMagic ++ putU16 order c3mVersion ++
      putU16 order request.operation ++ putU64 order request.requestId ++
      putU32 order request.keyLen ++ putU32 order request.valueLen
    writeParts sigpipe ([header, request.key.take request.keyLen.toNat] ++
      if request.valueLen ≠ 0 then [request.value.take request.valueLen.toNat] else []) out

def recvResponse : Recv Response := do
  let header ← readFull 20
  if getU32 order header ≠ c3mMagic ∨ getU16 order (header.drop 4) ≠ c3mVersion then throw ()
  else
    let status := getU16 order (header.drop 6)
    let requestId := getU64 order (header.drop 8)
    let valueLen := getU32 order (header.drop 16)
    if c3mStatusProtocolError < status ∨ c3mMaxValueBytes < valueLen then throw ()
    else
      let value ← readValue valueLen
      return ⟨requestId, status, valueLen, value⟩

def sendResponse (sigpipe : Disposition) (response : Response) (out : Output) :
    Outcome × Output :=
  if c3mMaxValueBytes < response.valueLen then (.failed, out)
  else
    let header := putU32 order c3mMagic ++ putU16 order c3mVersion ++
      putU16 order response.status ++ putU64 order response.requestId ++
      putU32 order response.valueLen
    writeParts sigpipe ([header] ++
      if response.valueLen ≠ 0 then [response.value.take response.valueLen.toNat] else []) out

namespace ByteOrder

theorem load_lt {order : ByteOrder} {k : ℕ} {bs : Bytes} (h : bs.length = k) :
    order.load bs < 256 ^ k := by
  subst h
  cases order with
  | little => exact leNat_lt bs
  | big => exact beNat_lt rfl

theorem store_load {order : ByteOrder} {k : ℕ} {bs : Bytes} (h : bs.length = k) :
    order.store k (order.load bs) = bs := by
  subst h
  cases order with
  | little => exact leBytes_leNat bs
  | big => exact beBytes_beNat bs

theorem load_store {order : ByteOrder} {k n : ℕ} (h : n < 256 ^ k) :
    order.load (order.store k n) = n := by
  cases order with
  | little => exact (leNat_leBytes k n).trans (Nat.mod_eq_of_lt h)
  | big => exact beNat_beBytes h

end ByteOrder

variable {order}

theorem putU16_eq (value : UInt16) : putU16 order value = beBytes 2 value.toNat := by
  have hlt : order.load (beBytes 2 value.toNat) < 256 ^ 2 :=
    ByteOrder.load_lt (beBytes_length 2 value.toNat)
  rw [putU16, htons, UInt16.toNat_ofNat_of_lt' hlt]
  exact ByteOrder.store_load (beBytes_length 2 value.toNat)

theorem putU32_eq (value : UInt32) : putU32 order value = beBytes 4 value.toNat := by
  have hlt : order.load (beBytes 4 value.toNat) < 256 ^ 4 :=
    ByteOrder.load_lt (beBytes_length 4 value.toNat)
  rw [putU32, htonl, UInt32.toNat_ofNat_of_lt' hlt]
  exact ByteOrder.store_load (beBytes_length 4 value.toNat)

/-- On a little-endian machine the two halves are swapped and each is reversed. -/
theorem hostToNetworkU64_little (value : UInt64) :
    (hostToNetworkU64 .little value).toNat = leNat (beBytes 8 value.toNat) := by
  have hhigh : (value >>> 32).toUInt32.toNat = value.toNat / 256 ^ 4 := by
    have hlt := value.toNat_lt
    have hshift : (value >>> 32).toNat = value.toNat / 2 ^ 32 := by
      rw [UInt64.toNat_shiftRight, Nat.shiftRight_eq_div_pow]
      rfl
    rw [UInt64.toNat_toUInt32, hshift]
    omega
  have hlow : value.toUInt32.toNat = value.toNat % 256 ^ 4 := UInt64.toNat_toUInt32 value
  have hload : ∀ x : UInt32, (htonl .little x).toNat = leNat (beBytes 4 x.toNat) := fun x =>
    UInt32.toNat_ofNat_of_lt' ((leNat_lt _).trans_eq (by rw [beBytes_length]; rfl))
  have hsplit := beBytes_add 4 4 value.toNat
  have hor : ∀ x y : UInt32, (x.toUInt64 ||| y.toUInt64 <<< 32).toNat =
      x.toNat + 2 ^ 32 * y.toNat := by
    intro x y
    have hx := x.toNat_lt
    have hy := y.toNat_lt
    have hshift : (y.toUInt64 <<< 32).toNat = 2 ^ 32 * y.toNat := by
      rw [UInt64.toNat_shiftLeft, Nat.shiftLeft_eq]
      change y.toNat * 2 ^ 32 % 2 ^ 64 = _
      omega
    rw [UInt64.toNat_or, hshift, UInt32.toNat_toUInt64, Nat.or_comm,
      ← Nat.two_pow_add_eq_or_of_lt hx]
    omega
  rw [hostToNetworkU64, hor, hload, hload, hhigh, hlow, beBytes_mod, hsplit, leNat_append,
    beBytes_length]
  rfl

theorem putU64_eq (value : UInt64) : putU64 order value = beBytes 8 value.toNat := by
  cases order with
  | little =>
    rw [putU64, hostToNetworkU64_little]
    have hstore : ByteOrder.little.store 8 (ByteOrder.little.load (beBytes 8 value.toNat)) =
        beBytes 8 value.toNat := ByteOrder.store_load (beBytes_length 8 value.toNat)
    exact hstore
  | big => rfl

theorem getU16_eq {buffer : Bytes} (h : 2 ≤ buffer.length) :
    getU16 order buffer = UInt16.ofNat (beNat (buffer.take 2)) := by
  have hlen : (buffer.take 2).length = 2 := by rw [List.length_take]; omega
  have hlt : order.load (buffer.take 2) < 256 ^ 2 := ByteOrder.load_lt hlen
  rw [getU16, ntohs, UInt16.toNat_ofNat_of_lt' hlt, ByteOrder.store_load hlen]

theorem getU32_eq {buffer : Bytes} (h : 4 ≤ buffer.length) :
    getU32 order buffer = UInt32.ofNat (beNat (buffer.take 4)) := by
  have hlen : (buffer.take 4).length = 4 := by rw [List.length_take]; omega
  have hlt : order.load (buffer.take 4) < 256 ^ 4 := ByteOrder.load_lt hlen
  rw [getU32, ntohl, UInt32.toNat_ofNat_of_lt' hlt, ByteOrder.store_load hlen]

theorem getU64_eq {buffer : Bytes} (h : 8 ≤ buffer.length) :
    getU64 order buffer = UInt64.ofNat (beNat (buffer.take 8)) := by
  have hlen : (buffer.take 8).length = 8 := by rw [List.length_take]; omega
  cases order with
  | little =>
    have hlt : leNat (buffer.take 8) < 2 ^ 64 := (leNat_lt _).trans_eq (by rw [hlen]; rfl)
    have hrev : beBytes 8 (leNat (buffer.take 8)) = (buffer.take 8).reverse := by
      have hround := leBytes_leNat (buffer.take 8)
      rw [hlen] at hround
      rw [beBytes, hround]
    apply UInt64.toNat_inj.mp
    rw [getU64, networkToHostU64, hostToNetworkU64_little, ByteOrder.load,
      UInt64.toNat_ofNat_of_lt' hlt, hrev, UInt64.toNat_ofNat_of_lt' ((beNat_lt hlen).trans_eq rfl)]
    rfl
  | big => rfl

theorem readFull_enough (length : ℕ) (input : Input) (hlen : length ≤ input.bytes.length) :
    ∃ input', readFull length input = (.ok (input.bytes.take length), input') ∧
      input'.bytes = input.bytes.drop length := by
  fun_induction readFull length input with
  | case1 input => exact ⟨input, rfl, rfl⟩
  | case2 length input hpos input' hread =>
    rw [Input.read_nil hread (by omega)] at hlen
    exact absurd (Nat.le_zero.mp hlen) hpos
  | case3 length input hpos b bs input' hread out ih =>
    obtain ⟨hbytes, hle, -⟩ := Input.read_data hread
    have hrest : length - (b :: bs).length ≤ input'.bytes.length := by
      rw [hbytes, List.length_append] at hlen
      omega
    obtain ⟨input'', hout, hdrop⟩ := ih hrest
    refine ⟨input'', ?_, ?_⟩
    · rw [show out = _ from hout, hbytes, List.take_append, List.take_of_length_le hle]
      rfl
    · rw [hdrop, hbytes, List.drop_append, List.drop_eq_nil_of_le hle, List.nil_append]
  | case4 length input hpos input' hread ih =>
    rw [(Input.read_interrupted hread).1] at hlen ⊢
    exact ih hlen
  | case5 length input hpos input' hread =>
    rw [Input.read_failed hread] at hlen
    exact absurd (Nat.le_zero.mp hlen) hpos

theorem readFull_short (length : ℕ) (input : Input) (hlen : input.bytes.length < length) :
    ∃ e input', readFull length input = (.error e, input') := by
  fun_induction readFull length input with
  | case1 input => exact absurd hlen (Nat.not_lt_zero _)
  | case2 length input hpos input' hread => exact ⟨(), input', rfl⟩
  | case3 length input hpos b bs input' hread out ih =>
    have hbytes := (Input.read_data hread).1
    have hrest : input'.bytes.length < length - (b :: bs).length := by
      rw [hbytes, List.length_append] at hlen
      omega
    obtain ⟨e, input'', hout⟩ := ih hrest
    exact ⟨e, input'', by rw [show out = _ from hout]; rfl⟩
  | case4 length input hpos input' hread ih =>
    rw [(Input.read_interrupted hread).1] at hlen
    exact ih hlen
  | case5 length input hpos input' hread => exact ⟨(), input', rfl⟩

theorem readFull_exact : ReadsExactly readFull := ⟨readFull_enough, readFull_short⟩

theorem writeFull_enough (sigpipe : Disposition) (bs : Bytes) (out : Output)
    (hroom : out.HasRoom bs.length) :
    (writeFull sigpipe bs out).1 = .done ∧
      (writeFull sigpipe bs out).2.written = out.written ++ bs ∧
      (writeFull sigpipe bs out).2.room = out.room.map (· - bs.length) := by
  fun_induction writeFull sigpipe bs out with
  | case1 out =>
    refine ⟨rfl, (List.append_nil _).symm, ?_⟩
    cases out.room <;> rfl
  | case2 bs out hne n out' hwrite ih =>
    obtain ⟨-, hle, hn, hwritten, hleft, -⟩ := Output.write_count hwrite hne
    have hsplit : bs.length = n + (bs.drop n).length := by
      rw [List.length_drop]
      omega
    rw [hsplit, Output.hasRoom_add hleft hn] at hroom
    obtain ⟨hdone, hwritten', hleft'⟩ := ih hroom
    refine ⟨hdone, ?_, ?_⟩
    · rw [hwritten', hwritten, List.append_assoc, List.take_append_drop]
    · rw [hleft', hleft, Option.map_map, hsplit]
      congr 1
      funext k
      rw [Function.comp_apply, Nat.sub_sub, List.length_drop]
  | case3 bs out hne out' hwrite ih =>
    obtain ⟨hwritten, hleft, -⟩ := Output.write_interrupted hwrite
    have hsame : out'.HasRoom bs.length := fun k hk => hroom k (by rw [← hleft, hk])
    rw [← hwritten, ← hleft]
    exact ih hsame
  | case4 bs out hne out' hwrite =>
    have hzero := hroom 0 (Output.write_brokenPipe hwrite)
    exact absurd (List.length_eq_zero_iff.mp (Nat.le_zero.mp hzero)) hne

theorem writeFull_gone (sigpipe : Disposition) (bs : Bytes) (out : Output)
    (hroom : ¬ out.HasRoom bs.length) :
    (writeFull sigpipe bs out).1 = sigpipe.brokenPipe := by
  fun_induction writeFull sigpipe bs out with
  | case1 out => exact absurd (fun _ _ => Nat.zero_le _) hroom
  | case2 bs out hne n out' hwrite ih =>
    obtain ⟨-, hle, hn, -, hleft, -⟩ := Output.write_count hwrite hne
    have hsplit : bs.length = n + (bs.drop n).length := by
      rw [List.length_drop]
      omega
    rw [hsplit, Output.hasRoom_add hleft hn] at hroom
    exact ih hroom
  | case3 bs out hne out' hwrite ih =>
    obtain ⟨-, hleft, -⟩ := Output.write_interrupted hwrite
    exact ih fun h => hroom fun k hk => h k (by rw [hleft, hk])
  | case4 bs out hne out' hwrite => rfl

theorem writeFull_writes (sigpipe : Disposition) (bs : Bytes) :
    Writes sigpipe bs (writeFull sigpipe bs) :=
  ⟨writeFull_enough sigpipe bs, writeFull_gone sigpipe bs⟩

/-- Writes one after another are one write of all the parts. -/
theorem writeParts_writes (sigpipe : Disposition) (parts : List Bytes) :
    Writes sigpipe parts.flatten (writeParts sigpipe parts) := by
  induction parts with
  | nil => exact writes_nil sigpipe
  | cons part parts ih => exact (writeFull_writes sigpipe part).andThen ih

end Cote3Mon.Protocol.C
