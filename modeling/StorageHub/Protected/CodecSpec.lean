import StorageHub.Library.Windows
import StorageHub.Protected.Codec

/-! Encoded payloads read back range by range. Both modes mask byte by byte, by
the position in the file, so a range is decoded with the mask of its place. -/
namespace StorageHub.Protected
open Library WriteCache

variable (c : Crypto)

/-! ### The masks of the two modes -/

def obfuscateMask (userId keySlotId : Text) (seed : Bytes) (blockSize : Nat) (prng : ProtectedPrng)
    (position : Nat) (b : UInt8) : UInt8 :=
  b ^^^ maskByte c userId keySlotId seed prng (position / max blockSize 1) (position % max blockSize 1)

def encryptMask (key nonce : Bytes) (position : Nat) (b : UInt8) : UInt8 :=
  b ^^^ keystreamByte c key (bigEndian nonce) position

theorem xor_undoes (b m : UInt8) : b ^^^ m ^^^ m = b := by
  rw [UInt8.xor_assoc,UInt8.xor_self,UInt8.xor_zero]

theorem obfuscate_masked (buf : Bytes) (userId keySlotId : Text) (seed : Bytes) (blockSize : Nat)
    (prng : ProtectedPrng) (first : Nat) :
    obfuscateInPlaceFromBlock c buf userId keySlotId seed blockSize prng first =
      masked (obfuscateMask c userId keySlotId seed blockSize prng) (first * max blockSize 1) buf := by
  have positive : 0 < max blockSize 1 := by omega
  apply List.ext_getElem?
  intro i
  rw [getElem?_masked,obfuscateInPlaceFromBlock,List.getElem?_mapIdx]
  have block : (first * max blockSize 1 + i) / max blockSize 1 = first + i / max blockSize 1 := by
    rw [Nat.add_comm,Nat.add_mul_div_right _ _ positive,Nat.add_comm]
  have offset : (first * max blockSize 1 + i) % max blockSize 1 = i % max blockSize 1 := by
    rw [Nat.add_comm,Nat.add_mul_mod_self_right]
  refine congrArg (fun mask => Option.map mask buf[i]?) (funext fun b => ?_)
  simp only [obfuscateMask,block,offset]

theorem encrypt_masked (buf key nonce : Bytes) :
    encryptInPlace c buf key nonce = masked (encryptMask c key nonce) 0 buf := by
  apply List.ext_getElem?
  intro i
  rw [getElem?_masked,encryptInPlace,List.getElem?_mapIdx,Nat.zero_add]
  rfl

/-- The counter entered at a block and the bytes skipped in it are the place of
the range in the one stream. -/
theorem encryptRange_masked (buf key nonce : Bytes) (logicalOffset : Nat) :
    encryptRangeInPlace c buf key nonce logicalOffset =
      masked (encryptMask c key nonce) logicalOffset buf := by
  apply List.ext_getElem?
  intro i
  rw [getElem?_masked,encryptRangeInPlace,List.getElem?_mapIdx]
  have block : (logicalOffset % 16 + i) / 16 + logicalOffset / 16 = (logicalOffset + i) / 16 := by omega
  have offset : (logicalOffset % 16 + i) % 16 = (logicalOffset + i) % 16 := by omega
  have counter : ((bigEndian nonce + logicalOffset / 16) % 2 ^ 128 + (logicalOffset % 16 + i) / 16) %
      2 ^ 128 = (bigEndian nonce + (logicalOffset + i) / 16) % 2 ^ 128 := by
    rw [Nat.mod_add_mod]
    congr 1
    omega
  refine congrArg (fun mask => Option.map mask buf[i]?) (funext fun b => ?_)
  simp only [encryptMask,keystreamByte,counter,offset]

/-! ### Blocks in any order -/

/-- One block masked, the `index`th of the buffer. -/
def obfuscateBlock (userId keySlotId : Text) (seed : Bytes) (blockSize : Nat) (prng : ProtectedPrng)
    (startBlockIndex index : Nat) (buf : Bytes) : Bytes :=
  buf.mapIdx fun i b =>
    if i / max blockSize 1 = index then
      b ^^^ maskByte c userId keySlotId seed prng (startBlockIndex + index) (i % max blockSize 1)
    else b

/-- The blocks of a buffer masked one after the other, as one worker or several
of them come to them. -/
def obfuscateBlocks (userId keySlotId : Text) (seed : Bytes) (blockSize : Nat) (prng : ProtectedPrng)
    (startBlockIndex : Nat) (order : List Nat) (buf : Bytes) : Bytes :=
  order.foldl (fun buf index =>
    obfuscateBlock c userId keySlotId seed blockSize prng startBlockIndex index buf) buf

/-- Whatever the workers and their schedule, every block is masked once. -/
theorem obfuscateBlocks_eq (userId keySlotId : Text) (seed : Bytes) (blockSize : Nat)
    (prng : ProtectedPrng) (startBlockIndex : Nat) (buf : Bytes) {order : List Nat}
    (scheduled : order.Perm (List.range (integrityChunkCount buf.length blockSize))) :
    obfuscateBlocks c userId keySlotId seed blockSize prng startBlockIndex order buf =
      obfuscateInPlaceFromBlock c buf userId keySlotId seed blockSize prng startBlockIndex := by
  let mask (i : Nat) (b : UInt8) : UInt8 :=
    b ^^^ maskByte c userId keySlotId seed prng (startBlockIndex + i / max blockSize 1)
      (i % max blockSize 1)
  -- after some blocks exactly their bytes are masked
  have partly (order : List Nat) (once : order.Nodup) (done : List Nat)
      (apart : ∀ index ∈ order, index ∉ done) :
      obfuscateBlocks c userId keySlotId seed blockSize prng startBlockIndex order
          (buf.mapIdx fun i b => if i / max blockSize 1 ∈ done then mask i b else b) =
        buf.mapIdx fun i b => if i / max blockSize 1 ∈ done ++ order then mask i b else b := by
    induction order generalizing done with
    | nil =>
      rw [List.append_nil]
      rfl
    | cons index rest ih =>
      obtain ⟨fresh,once⟩ := List.nodup_cons.mp once
      have here := apart index List.mem_cons_self
      have step : obfuscateBlock c userId keySlotId seed blockSize prng startBlockIndex index
          (buf.mapIdx fun i b => if i / max blockSize 1 ∈ done then mask i b else b) =
          buf.mapIdx fun i b => if i / max blockSize 1 ∈ done ++ [index] then mask i b else b := by
        apply List.ext_getElem?
        intro i
        rw [obfuscateBlock,List.getElem?_mapIdx,List.getElem?_mapIdx,List.getElem?_mapIdx,Option.map_map]
        congr 1
        funext b
        simp only [Function.comp,List.mem_append,List.mem_singleton]
        by_cases same : i / max blockSize 1 = index
        · have untouched : i / max blockSize 1 ∉ done := by rwa [same]
          rw [if_pos same,if_neg untouched,if_pos (.inr same)]
          simp only [mask,same]
        · simp [same]
      have later : ∀ other ∈ rest, other ∉ done ++ [index] := by
        intro other member
        rw [List.mem_append,List.mem_singleton]
        rintro (before | same)
        · exact apart other (List.mem_cons_of_mem index member) before
        · exact fresh (same ▸ member)
      have order' : done ++ index::rest = done ++ [index] ++ rest := by simp
      rw [obfuscateBlocks,List.foldl_cons,step,order']
      exact ih once (done ++ [index]) later
  have started := partly order (scheduled.nodup_iff.mpr List.nodup_range) [] (by simp)
  have untouched : (buf.mapIdx fun i b => if i / max blockSize 1 ∈ ([] : List Nat) then mask i b else b) =
      buf := by
    apply List.ext_getElem?
    intro i
    rw [List.getElem?_mapIdx]
    simp
  rw [untouched] at started
  rw [started,obfuscateInPlaceFromBlock]
  apply List.ext_getElem?
  intro i
  rw [List.getElem?_mapIdx,List.getElem?_mapIdx]
  by_cases inside : i < buf.length
  · have positive : 0 < max blockSize 1 := by omega
    have counted : i / max blockSize 1 < integrityChunkCount buf.length blockSize := by
      have quotient := Nat.div_mul_le_self i (max blockSize 1)
      rw [integrityChunkCount,Nat.lt_iff_add_one_le,Nat.le_div_iff_mul_le positive,Nat.succ_mul]
      omega
    have member : i / max blockSize 1 ∈ [] ++ order := by
      rw [List.nil_append]
      exact scheduled.mem_iff.mpr (List.mem_range.mpr counted)
    simp only [if_pos member,mask]
  · have beyond : buf[i]? = none := List.getElem?_eq_none (by omega)
    rw [beyond]
    rfl

/-! ### Decoding a window -/

theorem obfuscateMask_unit (userId keySlotId : Text) (seed : Bytes) (blockSize : Nat)
    (prng : ProtectedPrng) : obfuscateMask c userId keySlotId seed (max blockSize 1) prng =
      obfuscateMask c userId keySlotId seed blockSize prng := by
  have unit : max (max blockSize 1) 1 = max blockSize 1 := by omega
  funext position b
  simp only [obfuscateMask,unit]

/-- The part of a decoded window between two places of the file. -/
theorem window_part {plain : Bytes} {first start stop clamp : Nat} (before : first ≤ start)
    (within : stop ≤ clamp) : ((window first clamp plain).take (stop - first)).drop (start - first) =
      window start stop plain := by
  by_cases empty : stop ≤ start
  · rw [window_empty empty]
    apply List.drop_eq_nil_of_le
    rw [List.length_take]
    omega
  · have inside : first + (stop - first) ≤ clamp := by omega
    have start' : first + (start - first) = start := by omega
    have stop' : first + (stop - first) = stop := by omega
    have part := window_window (c := start - first) inside plain
    rw [start',stop'] at part
    exact part

theorem decodeObfuscateRange_window (userId keySlotId : Text) (header : ProtectedHeader)
    (plain : Bytes) {first start stop clamp : Nat} (before : first * max header.blockSize 1 ≤ start)
    (ordered : start ≤ stop) (within : stop ≤ clamp) (short : clamp ≤ plain.length) :
    decodeObfuscateRange c userId keySlotId header
        (window (first * max header.blockSize 1) clamp
          (masked (obfuscateMask c userId keySlotId header.seedOrNonce header.blockSize header.prng) 0
            plain)) (first * max header.blockSize 1) start stop = .ok (window start stop plain) := by
  have positive : 0 < max header.blockSize 1 := by omega
  have unit : max (max header.blockSize 1) 1 = max header.blockSize 1 := by omega
  have undoes (i : Nat) (b : UInt8) : obfuscateMask c userId keySlotId header.seedOrNonce
      header.blockSize header.prng i (obfuscateMask c userId keySlotId header.seedOrNonce
        header.blockSize header.prng i b) = b := xor_undoes _ _
  have decoded := masked_window undoes (first * max header.blockSize 1) clamp plain
  have size := length_window (first * max header.blockSize 1) clamp plain
  have stop' : start - first * max header.blockSize 1 + (stop - start) =
      stop - first * max header.blockSize 1 := by omega
  have room : ¬(window (first * max header.blockSize 1) clamp plain).length <
      stop - first * max header.blockSize 1 := by omega
  rw [decodeObfuscateRange]
  simp only [obfuscate_masked,obfuscateMask_unit,unit,Nat.mul_div_cancel _ positive,decoded,stop',
    if_neg room]
  rw [window_part before within]

theorem decodeEncryptRange_window (key : Bytes) (header : ProtectedHeader) (cipher : Bytes)
    {first start stop clamp : Nat} (before : first ≤ start) (ordered : start ≤ stop)
    (within : stop ≤ clamp) (short : clamp ≤ cipher.length) :
    decodeEncryptRange c (some key) header (window first clamp cipher) first start stop =
      .ok (window start stop (masked (encryptMask c key header.seedOrNonce) 0 cipher)) := by
  have decoded := window_masked (encryptMask c key header.seedOrNonce) 0 first clamp cipher
  rw [Nat.zero_add] at decoded
  have size := length_window first clamp (masked (encryptMask c key header.seedOrNonce) 0 cipher)
  rw [length_masked] at size
  have stop' : start - first + (stop - start) = stop - first := by omega
  have room : ¬(window first clamp (masked (encryptMask c key header.seedOrNonce) 0 cipher)).length <
      stop - first := by omega
  have order : ¬start < first := by omega
  rw [decodeEncryptRange]
  simp only [if_neg order,encryptRange_masked,← decoded,stop',if_neg room]
  rw [window_part before within]

/-! ### The table of authentication codes -/

theorem lt_chunkCount_iff {i size chunkSize : Nat} :
    i < integrityChunkCount size chunkSize ↔ i * max chunkSize 1 < size := by
  have positive : 0 < max chunkSize 1 := by omega
  rw [integrityChunkCount,Nat.lt_iff_add_one_le,Nat.le_div_iff_mul_le positive,Nat.succ_mul]
  omega

/-- The code of a chunk of a payload at an index. -/
def chunkMac (key : Bytes) (chunkSize : Nat) (payload : Bytes) (i : Nat) : Bytes :=
  computeChunkMacWithKey c (c.deriveEncryptMacKey key) i (cell (max chunkSize 1) i payload)

theorem length_chunkMac (key : Bytes) (chunkSize : Nat) (payload : Bytes) (i : Nat) :
    (chunkMac c key chunkSize payload i).length = protectedMacLen := c.hmacSha256_length _ _

theorem length_macTable (key : Bytes) (chunkSize : Nat) (payload : Bytes) :
    (buildEncryptMacTable c key chunkSize payload).length =
      integrityChunkCount payload.length chunkSize * protectedMacLen :=
  length_table (length_chunkMac c key chunkSize payload) _

theorem cell_macTable {key : Bytes} {chunkSize : Nat} {payload : Bytes} {i : Nat}
    (inside : i < integrityChunkCount payload.length chunkSize) :
    cell protectedMacLen i (buildEncryptMacTable c key chunkSize payload) =
      chunkMac c key chunkSize payload i :=
  cell_table (length_chunkMac c key chunkSize payload) inside

/-- A window is accepted exactly when there is a code for every chunk of it and
each is that of the chunk at its index. -/
theorem verifyEncryptWindow_ok_iff {key : Bytes} {chunkSize start : Nat} {payload table : Bytes} :
    verifyEncryptWindow c key chunkSize start payload table = .ok () ↔
      table.length = integrityChunkCount payload.length chunkSize * protectedMacLen ∧
      ∀ i < integrityChunkCount payload.length chunkSize,
        cell protectedMacLen i table =
          computeChunkMacWithKey c (c.deriveEncryptMacKey key) (start / max chunkSize 1 + i)
            (cell (max chunkSize 1) i payload) := by
  have unit : max (max chunkSize 1) 1 = max chunkSize 1 := by omega
  have count : integrityChunkCount payload.length (max chunkSize 1) =
      integrityChunkCount payload.length chunkSize := by simp only [integrityChunkCount,unit]
  rw [verifyEncryptWindow]
  simp only [count]
  by_cases size : table.length = integrityChunkCount payload.length chunkSize * protectedMacLen
  · simp only [size,ne_eq,not_true_eq_false,if_false,true_and]
    have right (i : Nat) : ((table.drop (i * protectedMacLen)).take protectedMacLen !=
        computeChunkMacWithKey c (c.deriveEncryptMacKey key) (start / max chunkSize 1 + i)
          (chunkAt (max chunkSize 1) payload i)) = false ↔ cell protectedMacLen i table =
        computeChunkMacWithKey c (c.deriveEncryptMacKey key) (start / max chunkSize 1 + i)
          (cell (max chunkSize 1) i payload) := by
      rw [bne_eq_false_iff_eq,chunkAt,unit]
      exact Iff.rfl
    cases first : (List.range (integrityChunkCount payload.length chunkSize)).find? fun i =>
        (table.drop (i * protectedMacLen)).take protectedMacLen !=
          computeChunkMacWithKey c (c.deriveEncryptMacKey key) (start / max chunkSize 1 + i)
            (chunkAt (max chunkSize 1) payload i) with
    | none =>
      constructor
      · intro _ i inside
        have good := List.find?_eq_none.mp first i (List.mem_range.mpr inside)
        exact (right i).mp (Bool.eq_false_iff.mpr good)
      · intro _
        rfl
    | some i =>
      have bad := List.find?_some first
      have inside := List.mem_range.mp (List.mem_of_find?_eq_some first)
      constructor
      · intro impossible
        cases impossible
      · intro all
        rw [(right i).mpr (all i inside)] at bad
        cases bad
  · simp only [ne_eq,size,not_false_eq_true,if_true,false_and,iff_false]
    intro impossible
    cases impossible

/-- Where an aligned read may end: at a chunk or with the payload. -/
def WholeChunks (unit stop size : Nat) : Prop := stop ≤ size ∧ (stop = size ∨ ∃ m, stop = m * unit)

/-- The chunks of a window of a payload are chunks of the payload. -/
theorem cell_payload {unit first stop i : Nat} {payload : Bytes}
    (whole : WholeChunks unit stop payload.length) (inside : (first + i) * unit < stop) :
    cell unit i (window (first * unit) stop payload) = cell unit (first + i) payload := by
  apply cell_of_window
  rcases whole.2 with all | ⟨m,multiple⟩
  · right
    omega
  · left
    rw [multiple] at inside ⊢
    have below : first + i < m := Nat.lt_of_mul_lt_mul_right inside
    exact Nat.mul_le_mul_right unit below

theorem chunk_inside {unit first stop i : Nat} (positive : 0 < unit)
    (inside : i < integrityChunkCount (stop - first * unit) unit) : (first + i) * unit < stop := by
  have place := lt_chunkCount_iff.mp inside
  have unit' : max unit 1 = unit := by omega
  rw [unit'] at place
  rw [Nat.add_mul]
  omega

/-- The codes of whole chunks of a payload are read from its table and accepted. -/
theorem verifyEncryptWindow_genuine {key payload : Bytes} {unit first stop : Nat} (positive : 0 < unit)
    (whole : WholeChunks unit stop payload.length) (started : first * unit < payload.length) :
    verifyEncryptWindow c key unit (first * unit) (window (first * unit) stop payload)
      (window (first * protectedMacLen)
        ((first + integrityChunkCount (stop - first * unit) unit) * protectedMacLen)
        (buildEncryptMacTable c key unit payload)) = .ok () := by
  have unit' : max unit 1 = unit := by omega
  have size : (window (first * unit) stop payload).length = stop - first * unit := by
    rw [length_window]
    have short := whole.1
    omega
  have counted {i : Nat} (inside : i < integrityChunkCount (stop - first * unit) unit) :
      first + i < integrityChunkCount payload.length unit := by
    have before := chunk_inside positive inside
    have short := whole.1
    rw [lt_chunkCount_iff,unit']
    omega
  have enough : first + integrityChunkCount (stop - first * unit) unit ≤
      integrityChunkCount payload.length unit := by
    by_cases none : integrityChunkCount (stop - first * unit) unit = 0
    · have here : first < integrityChunkCount payload.length unit := by
        rw [lt_chunkCount_iff,unit']
        exact started
      omega
    · have last : integrityChunkCount (stop - first * unit) unit - 1 <
          integrityChunkCount (stop - first * unit) unit := by omega
      have known := counted last
      omega
  rw [verifyEncryptWindow_ok_iff,size,unit',Nat.mul_div_cancel _ positive]
  constructor
  · have room := Nat.mul_le_mul_right protectedMacLen enough
    rw [length_window,length_macTable,Nat.add_mul]
    rw [Nat.add_mul] at room
    omega
  · intro i inside
    have within : (first + i + 1) * protectedMacLen ≤
        (first + integrityChunkCount (stop - first * unit) unit) * protectedMacLen :=
      Nat.mul_le_mul_right protectedMacLen (by omega)
    rw [cell_of_window (.inl within),cell_macTable c (counted inside),
      cell_payload whole (chunk_inside positive inside),chunkMac,unit']

/-! ### Encoded blobs -/

@[simp] theorem length_littleEndian (width n : Nat) : (littleEndian width n).length = width := by
  simp [littleEndian]

theorem littleEndian_succ (width n : Nat) :
    littleEndian (width + 1) n = UInt8.ofNat n::littleEndian width (n / 256) := by
  rw [littleEndian,List.range_succ_eq_map,List.map_cons,List.map_map,pow_zero,Nat.div_one,littleEndian]
  congr 1
  apply List.map_congr_left
  intro i _
  rw [Function.comp_apply,Nat.succ_eq_add_one,pow_succ',Nat.div_div_eq_div_mul]

theorem length_header (header : ProtectedHeader) (seed : header.seedOrNonce.length = 16) :
    header.encode.length = protectedHeaderLen := by
  have magic : "FUPR".toUTF8.toList.length = 4 := by decide +kernel
  simp only [ProtectedHeader.encode,List.length_append,length_littleEndian,magic,seed,List.length_cons,
    List.length_nil,protectedHeaderLen]

/-- The header of a payload encoded under a plan. -/
def encodedHeader (plan : ProtectedPathPlan) (nonce : Nonce) (plaintext : Bytes) : ProtectedHeader :=
  ⟨plan.mode,plan.prng,plan.blockSize % 2 ^ 32,plaintext.length,nonce.bytes⟩

/-- What an encrypted payload is encoded to. -/
def encryptedPayload (key : Bytes) (plan : ProtectedPathPlan) (nonce : Nonce) (plaintext : Bytes) :
    EncodedPayload where
  blob := (encodedHeader plan nonce plaintext).encode ++
    encryptInPlace c plaintext key nonce.bytes ++
      buildEncryptMacTable c key defaultEncryptIntegrityChunkSize
        (encryptInPlace c plaintext key nonce.bytes)
  header := encodedHeader plan nonce plaintext
  metadata :=
    { ProtectedMetaRecord.fromHeader (encodedHeader plan nonce plaintext) with
      integrity := .hmacSha256Chunked
      integrityChunkSize := some defaultEncryptIntegrityChunkSize }

variable {c} {userId : Text} {plan : ProtectedPathPlan} {nonce : Nonce} {plaintext : Bytes}
  {encoded : EncodedPayload}

theorem encodePayload_encrypt (mode : plan.mode = .encrypt)
    (made : encodePayload c userId plan nonce plaintext = .ok encoded) :
    ∃ key, plan.encryptKey = some key ∧ encoded = encryptedPayload c key plan nonce plaintext := by
  rw [encodePayload] at made
  simp only [mode] at made
  cases known : plan.encryptKey with
  | none => rw [known] at made; cases made
  | some key =>
    rw [known] at made
    refine ⟨key,rfl,?_⟩
    rw [← Except.ok.inj made]
    simp only [encryptedPayload,encodedHeader,mode]

theorem encodePayload_obfuscate (mode : plan.mode = .obfuscate) :
    encodePayload c userId plan nonce plaintext = .ok
      ⟨(encodedHeader plan nonce plaintext).encode ++
          masked (obfuscateMask c userId plan.keySlotId nonce.bytes plan.blockSize plan.prng) 0 plaintext,
        encodedHeader plan nonce plaintext,
        ProtectedMetaRecord.fromHeader (encodedHeader plan nonce plaintext)⟩ := by
  rw [encodePayload]
  simp only [mode,obfuscate_masked,obfuscateMask_unit,Nat.zero_mul,encodedHeader]

theorem length_encodedHeader (plan : ProtectedPathPlan) (nonce : Nonce) (plaintext : Bytes) :
    (encodedHeader plan nonce plaintext).encode.length = protectedHeaderLen :=
  length_header _ nonce.length_bytes

theorem length_encryptInPlace (key nonce : Bytes) (plaintext : Bytes) :
    (encryptInPlace c plaintext key nonce).length = plaintext.length := by
  rw [encrypt_masked,length_masked]

end StorageHub.Protected
