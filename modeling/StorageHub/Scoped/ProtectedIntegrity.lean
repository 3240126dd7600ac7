import StorageHub.Scoped.ProtectedRange

/-! What the codes of an encrypted payload bind: each chunk to its index under
the key, and no chunk to its file. -/
namespace StorageHub.Protected
open Library WriteCache

theorem littleEndian_injective {width n m : Nat} (small : n < 256 ^ width) (small' : m < 256 ^ width)
    (same : littleEndian width n = littleEndian width m) : n = m := by
  induction width generalizing n m with
  | zero => omega
  | succ width ih =>
    rw [littleEndian_succ,littleEndian_succ,List.cons.injEq] at same
    obtain ⟨first,rest⟩ := same
    rw [pow_succ] at small small'
    have low : n % 256 = m % 256 := by
      have bytes := congrArg UInt8.toNat first
      rwa [UInt8.toNat_ofNat',UInt8.toNat_ofNat'] at bytes
    have high : n / 256 = m / 256 := ih (by omega) (by omega) rest
    omega

theorem macInput_injective {i j : Nat} {chunk chunk' : Bytes} (small : i < 2 ^ 64) (small' : j < 2 ^ 64)
    (same : macInput i chunk = macInput j chunk') : i = j ∧ chunk = chunk' := by
  have width : (256 : Nat) ^ 8 = 2 ^ 64 := by norm_num
  rw [macInput,macInput] at same
  have sizes : (littleEndian 8 i).length = (littleEndian 8 j).length := by
    rw [length_littleEndian,length_littleEndian]
  obtain ⟨index,bytes⟩ := List.append_inj same sizes
  exact ⟨littleEndian_injective (width ▸ small) (width ▸ small') index,bytes⟩

end StorageHub.Protected

namespace StorageHub.Scoped
open Library WriteCache Protected Vfs

namespace Engine

/-- The bytes of chunk `i` where the payload of a blob lies. -/
def chunkOf (unit size : Nat) (blob : Bytes) (i : Nat) : Bytes :=
  cell unit i (window protectedHeaderLen (protectedHeaderLen + size) blob)

/-- The code of chunk `i` where the table of a blob lies. -/
def codeOf (size : Nat) (blob : Bytes) (i : Nat) : Bytes :=
  cell protectedMacLen i (blob.drop (protectedHeaderLen + size))

/-- A chunk a range has bytes of. -/
def Covers (unit start stop i : Nat) : Prop := start / unit ≤ i ∧ i * unit < stop

variable {e : Engine} {w : World} {row : IndexRow} {key : Text} {metadata : ProtectedMetaRecord}
  {unit start stop : Nat} {blob : Bytes}

theorem covered_index {size i : Nat} (positive : 0 < unit) (inside : stop ≤ size)
    (covers : Covers unit start stop i) :
    ∃ j, i = firstChunk unit start + j ∧ j < coveredChunks unit start stop size := by
  obtain ⟨first,before⟩ := covers
  refine ⟨i - firstChunk unit start,?_,?_⟩
  · rw [firstChunk]
    omega
  · have within := stop_le_alignedEnd positive inside
    have unit' : max unit 1 = unit := by omega
    have place : (i - firstChunk unit start) * unit + firstChunk unit start * unit = i * unit := by
      rw [← Nat.add_mul,firstChunk,Nat.sub_add_cancel first]
    rw [coveredChunks,lt_chunkCount_iff,unit']
    omega

/-- The payload of a read as a window of the place of the payload. -/
theorem payload_window :
    (guardedRead unit metadata start stop blob).payload =
      window (firstChunk unit start * unit) (alignedEnd unit stop metadata.logicalSize)
        (window protectedHeaderLen (protectedHeaderLen + metadata.logicalSize) blob) := by
  have short := alignedEnd_le unit stop metadata.logicalSize
  rw [window_window (Nat.add_le_add_left short protectedHeaderLen)]
  rfl

/-- A range that is decoded had all its bytes. -/
theorem decoded_length {c : Crypto} {secret payload data : Bytes} {header : ProtectedHeader} {first : Nat}
    (before : first ≤ start) (ordered : start ≤ stop)
    (decoded : decodeEncryptRange c (some secret) header payload first start stop = .ok data) :
    stop ≤ first + payload.length := by
  have order : ¬start < first := by omega
  have stop' : start - first + (stop - start) = stop - first := by omega
  rw [decodeEncryptRange] at decoded
  simp only [if_neg order,encryptRange_masked,length_masked,stop'] at decoded
  by_contra short
  have early : payload.length < stop - first := by omega
  rw [if_pos early] at decoded
  cases decoded

/-- What an accepted read says of the blob it came from. -/
theorem accepted_codes {plan : ProtectedPathPlan} {secret : Bytes} (positive : 0 < unit)
    (mode : metadata.mode = .encrypt) (integrity : metadata.integrity = .hmacSha256Chunked)
    (unit_eq : chunkUnit metadata = unit) (secret_eq : plan.encryptKey = some secret)
    (started : start < stop) (inside : stop ≤ metadata.logicalSize)
    (checked : e.verifyPayload plan (guardedRead unit metadata start stop blob) = .ok ())
    (complete : stop ≤ firstChunk unit start * unit +
      (guardedRead unit metadata start stop blob).payload.length) :
    protectedHeaderLen + metadata.logicalSize ≤ blob.length ∧
      ∀ i, Covers unit start stop i → codeOf metadata.logicalSize blob i =
        computeChunkMacWithKey e.crypto (e.crypto.deriveEncryptMacKey secret) i
          (chunkOf unit metadata.logicalSize blob i) := by
  have before := firstChunk_le unit start
  have unit' : max unit 1 = unit := by omega
  have verified : verifyEncryptWindow e.crypto secret unit (firstChunk unit start * unit)
      (guardedRead unit metadata start stop blob).payload
      (window (protectedHeaderLen + metadata.logicalSize + firstChunk unit start * protectedMacLen)
        (protectedHeaderLen + metadata.logicalSize +
          (firstChunk unit start + coveredChunks unit start stop metadata.logicalSize) *
            protectedMacLen) blob) = .ok () := by
    rw [verifyPayload_guarded mode integrity unit_eq secret_eq] at checked
    cases result : verifyEncryptWindow e.crypto secret unit (firstChunk unit start * unit)
        (guardedRead unit metadata start stop blob).payload
        (window (protectedHeaderLen + metadata.logicalSize + firstChunk unit start * protectedMacLen)
          (protectedHeaderLen + metadata.logicalSize +
            (firstChunk unit start + coveredChunks unit start stop metadata.logicalSize) *
              protectedMacLen) blob) with
    | ok _ => rfl
    | error message =>
      rw [guardedRead] at result
      dsimp only at result
      rw [result] at checked
      cases checked
  obtain ⟨size,codes⟩ := verifyEncryptWindow_ok_iff e.crypto |>.mp verified
  -- a blob too short for its codes has none, and then no payload
  have whole : protectedHeaderLen + metadata.logicalSize ≤ blob.length := by
    have some_ : 0 < integrityChunkCount (guardedRead unit metadata start stop blob).payload.length unit := by
      rw [lt_chunkCount_iff]
      omega
    rw [length_window] at size
    have macs : protectedMacLen = 32 := rfl
    rw [macs] at size
    omega
  refine ⟨whole,?_⟩
  have payloadSize : (window protectedHeaderLen (protectedHeaderLen + metadata.logicalSize) blob).length =
      metadata.logicalSize := by
    rw [length_window]
    omega
  have chunks : WholeChunks unit (alignedEnd unit stop metadata.logicalSize)
      (window protectedHeaderLen (protectedHeaderLen + metadata.logicalSize) blob).length := by
    rw [payloadSize]
    exact alignedEnd_whole unit stop metadata.logicalSize
  have count : integrityChunkCount (guardedRead unit metadata start stop blob).payload.length unit =
      coveredChunks unit start stop metadata.logicalSize := by
    have short := chunks.1
    rw [payload_window,length_window,coveredChunks]
    congr 2
    omega
  intro i covers
  obtain ⟨j,rfl,counted⟩ := covered_index positive inside covers
  have here := codes j (by rw [count]; exact counted)
  have within : (firstChunk unit start + j + 1) * protectedMacLen ≤
      (firstChunk unit start + coveredChunks unit start stop metadata.logicalSize) * protectedMacLen :=
    Nat.mul_le_mul_right protectedMacLen (by omega)
  rw [unit',Nat.mul_div_cancel _ positive,window_drop,cell_of_window (.inl within),payload_window,
    cell_payload chunks (chunk_inside positive counted)] at here
  exact here

theorem covers_of_aligned {size i : Nat} (positive : 0 < unit) (inside : stop ≤ size)
    (late : firstChunk unit start ≤ i) (early : i * unit < alignedEnd unit stop size) :
    Covers unit start stop i := by
  refine ⟨late,?_⟩
  have clamped : min stop size = stop := Nat.min_eq_left inside
  rw [alignedEnd,clamped] at early
  have before : i < (stop + (unit - 1)) / unit :=
    Nat.lt_of_mul_lt_mul_right (Nat.lt_of_lt_of_le early (Nat.min_le_left _ _))
  have room := (Nat.le_div_iff_mul_le positive).mp (Nat.succ_le_of_lt before)
  rw [Nat.succ_mul] at room
  omega

/-- A payload whose covered chunks are those of the ciphertext decodes to the plaintext. -/
theorem decoded_same {secret cipher data : Bytes} (positive : 0 < unit) (started : start < stop)
    (inside : stop ≤ metadata.logicalSize) (size : cipher.length = metadata.logicalSize)
    (same : ∀ i, Covers unit start stop i → chunkOf unit metadata.logicalSize blob i = cell unit i cipher)
    (decoded : decodeEncryptRange e.crypto (some secret) metadata.intoHeader
      (guardedRead unit metadata start stop blob).payload (firstChunk unit start * unit) start stop =
        .ok data) :
    data = window start stop (masked (encryptMask e.crypto secret metadata.seedOrNonce) 0 cipher) := by
  have short := alignedEnd_le unit stop metadata.logicalSize
  have windows : (guardedRead unit metadata start stop blob).payload =
      window (firstChunk unit start * unit) (alignedEnd unit stop metadata.logicalSize) cipher := by
    rw [payload_window]
    apply window_eq_of_cells positive
    intro i late early
    exact same i (covers_of_aligned positive inside late early)
  have genuine := decodeEncryptRange_window e.crypto secret metadata.intoHeader cipher
    (firstChunk_le unit start) (Nat.le_of_lt started) (stop_le_alignedEnd positive inside)
    (size.symm ▸ short)
  rw [windows,genuine] at decoded
  exact (Except.ok.inj decoded).symm

/-! ### Tampered blobs -/

variable {path : Text} {plan : ProtectedPathPlan} {nonce : Nonce} {plaintext : Bytes}

/-- An accepted range passed both checks. -/
theorem accepted_cases {secret data : Bytes} {info : VfsFileInfo} {w' : World}
    {rest : List (Choice EngineEnv)}
    (found : Index.getFileMetadata e.userId path w.index = some row)
    (guarded : Guarded row key metadata unit) (positive : 0 < unit)
    (secret_eq : plan.encryptKey = some secret) (size : row.size.toNat = metadata.logicalSize)
    (served : e.poolContent w key = some blob) (started : start < min stop metadata.logicalSize)
    (accepted : e.protectedReadRangeImpl path start stop plan w [] = .done (data,info) w' rest) :
    (∀ i, Covers unit start (min stop metadata.logicalSize) i →
      codeOf metadata.logicalSize blob i =
        computeChunkMacWithKey e.crypto (e.crypto.deriveEncryptMacKey secret) i
          (chunkOf unit metadata.logicalSize blob i)) ∧
      decodeEncryptRange e.crypto (some secret) metadata.intoHeader
        (guardedRead unit metadata start (min stop metadata.logicalSize) blob).payload
        (firstChunk unit start * unit) start (min stop metadata.logicalSize) = .ok data := by
  have inside := Nat.min_le_right stop metadata.logicalSize
  have read := readPayload_guarded guarded served positive started inside
  have started' : start < min stop row.size.toNat := by rwa [size]
  rw [← size] at read
  rw [protectedReadRange_run found started' read,size] at accepted
  cases checked : e.verifyPayload plan
      (guardedRead unit metadata start (min stop metadata.logicalSize) blob) with
  | error err => rw [checked] at accepted; cases accepted
  | ok _ =>
    rw [checked] at accepted
    dsimp only at accepted
    have mode : (guardedRead unit metadata start (min stop metadata.logicalSize) blob).header.mode =
        .encrypt := guarded.mode
    rw [decodeRange_encrypt e.crypto e.userId plan.keySlotId plan.encryptKey mode _ started inside,
      secret_eq] at accepted
    cases decoded : decodeEncryptRange e.crypto (some secret)
        (guardedRead unit metadata start (min stop metadata.logicalSize) blob).header
        (guardedRead unit metadata start (min stop metadata.logicalSize) blob).payload
        (guardedRead unit metadata start (min stop metadata.logicalSize) blob).payloadLogicalStart
        start (min stop metadata.logicalSize) with
    | error err => rw [decoded] at accepted; cases accepted
    | ok found =>
      rw [decoded] at accepted
      cases accepted
      have complete := decoded_length (firstChunk_le unit start) (Nat.le_of_lt started) decoded
      refine ⟨(accepted_codes positive guarded.mode guarded.integrity guarded.chunkUnit secret_eq started
        inside checked complete).2,decoded⟩

theorem chunkOf_encrypted {c : Crypto} {secret : Bytes} (i : Nat) :
    chunkOf unit plaintext.length (encryptedPayload c secret plan nonce plaintext).blob i =
      cell unit i (encryptInPlace c plaintext secret nonce.bytes) := by
  have size := length_encryptInPlace (c := c) secret nonce.bytes plaintext
  have cut : window (protectedHeaderLen + 0) (protectedHeaderLen + plaintext.length)
      ((encodedHeader plan nonce plaintext).encode ++ encryptInPlace c plaintext secret nonce.bytes ++
        buildEncryptMacTable c secret defaultEncryptIntegrityChunkSize
          (encryptInPlace c plaintext secret nonce.bytes)) =
      window 0 plaintext.length (encryptInPlace c plaintext secret nonce.bytes) :=
    cut_payload (length_encodedHeader plan nonce plaintext) (Nat.le_of_eq size.symm)
  have all : window 0 plaintext.length (encryptInPlace c plaintext secret nonce.bytes) =
      encryptInPlace c plaintext secret nonce.bytes := by
    rw [window,List.drop_zero,List.take_of_length_le (Nat.le_of_eq size)]
  rw [chunkOf,encryptedPayload]
  rw [Nat.add_zero,all] at cut
  rw [cut]

theorem codeOf_encrypted {c : Crypto} {secret : Bytes} {i : Nat}
    (inside : i * defaultEncryptIntegrityChunkSize < plaintext.length) :
    codeOf plaintext.length (encryptedPayload c secret plan nonce plaintext).blob i =
      computeChunkMacWithKey c (c.deriveEncryptMacKey secret) i
        (chunkOf defaultEncryptIntegrityChunkSize plaintext.length
          (encryptedPayload c secret plan nonce plaintext).blob i) := by
  have size := length_encryptInPlace (c := c) secret nonce.bytes plaintext
  have unit' : max defaultEncryptIntegrityChunkSize 1 = defaultEncryptIntegrityChunkSize := by decide
  have front : ((encodedHeader plan nonce plaintext).encode ++
      encryptInPlace c plaintext secret nonce.bytes).length = protectedHeaderLen + plaintext.length := by
    rw [List.length_append,length_encodedHeader,size]
  have counted : i < integrityChunkCount (encryptInPlace c plaintext secret nonce.bytes).length
      defaultEncryptIntegrityChunkSize := by
    rw [lt_chunkCount_iff,size,unit']
    exact inside
  rw [chunkOf_encrypted,codeOf,encryptedPayload]
  dsimp only
  rw [← front,List.drop_left,cell_macTable c counted,chunkMac,unit']

/-- A blob that was encrypted under a key. -/
def WrittenUnder (c : Crypto) (secret : Bytes) (encoded : EncodedPayload) : Prop :=
  ∃ plan nonce plaintext, plaintext.length < 2 ^ 64 ∧
    encoded = encryptedPayload c secret plan nonce plaintext

/-- The authentication code tells some inputs apart. -/
def NoCollision (c : Crypto) (secret : Bytes) (inputs : Set Bytes) : Prop :=
  Set.InjOn (c.hmacSha256 (c.deriveEncryptMacKey secret)) inputs

/-- What is authenticated in the covered chunks of a blob and in all of others. -/
def macInputs (size start stop : Nat) (tampered : Bytes) (written : List EncodedPayload) : Set Bytes :=
  { m | ∃ i, Covers defaultEncryptIntegrityChunkSize start stop i ∧
      m = macInput i (chunkOf defaultEncryptIntegrityChunkSize size tampered i) } ∪
  { m | ∃ other ∈ written, ∃ j, j * defaultEncryptIntegrityChunkSize < other.header.logicalSize ∧
      m = macInput j (chunkOf defaultEncryptIntegrityChunkSize other.header.logicalSize other.blob j) }

/-- A covered chunk of a tampered blob that is not the stored one. -/
def Differs (size start stop : Nat) (stored tampered : Bytes) (i : Nat) : Prop :=
  Covers defaultEncryptIntegrityChunkSize start stop i ∧
    chunkOf defaultEncryptIntegrityChunkSize size tampered i ≠
      chunkOf defaultEncryptIntegrityChunkSize size stored i

theorem written_code {c : Crypto} {secret : Bytes} {other : EncodedPayload}
    (written : WrittenUnder c secret other) {j : Nat}
    (inside : j * defaultEncryptIntegrityChunkSize < other.header.logicalSize) :
    j < 2 ^ 64 ∧ codeOf other.header.logicalSize other.blob j =
      computeChunkMacWithKey c (c.deriveEncryptMacKey secret) j
        (chunkOf defaultEncryptIntegrityChunkSize other.header.logicalSize other.blob j) := by
  obtain ⟨plan,nonce,plaintext,small,rfl⟩ := written
  refine ⟨?_,codeOf_encrypted inside⟩
  have size : j * defaultEncryptIntegrityChunkSize < plaintext.length := inside
  exact Nat.lt_of_le_of_lt (Nat.le_mul_of_pos_right j unit_pos) (Nat.lt_trans size small)

/-- A read of a tampered blob that is not refused gives the plaintext, unless a
covered chunk was replaced by one with a valid code for its index; and where the
codes come from blobs written under the key, that chunk is one of theirs. -/
theorem tampered_range {encoded : EncodedPayload} {tampered data secret : Bytes} {info : VfsFileInfo}
    {w' : World} {rest : List (Choice EngineEnv)} (mode : plan.mode = .encrypt)
    (secret_eq : plan.encryptKey = some secret) (small : plaintext.length < 2 ^ 64)
    (made : encodePayload e.crypto e.userId plan nonce plaintext = .ok encoded)
    (found : Index.getFileMetadata e.userId path w.index = some row)
    (described : Describes row key encoded) (served : e.poolContent w key = some tampered)
    (accepted : e.protectedReadRangeImpl path start stop plan w [] = .done (data,info) w' rest) :
    (data = window (min start plaintext.length) (min stop plaintext.length) plaintext ∨
      ∃ i, Differs plaintext.length start (min stop plaintext.length) encoded.blob tampered i ∧
        codeOf plaintext.length tampered i =
          computeChunkMacWithKey e.crypto (e.crypto.deriveEncryptMacKey secret) i
            (chunkOf defaultEncryptIntegrityChunkSize plaintext.length tampered i)) ∧
    ∀ written : List EncodedPayload, (∀ other ∈ written, WrittenUnder e.crypto secret other) →
      (∀ i, Covers defaultEncryptIntegrityChunkSize start (min stop plaintext.length) i →
        ∃ other ∈ written, ∃ j, j * defaultEncryptIntegrityChunkSize < other.header.logicalSize ∧
          codeOf plaintext.length tampered i = codeOf other.header.logicalSize other.blob j) →
      NoCollision e.crypto secret
        (macInputs plaintext.length start (min stop plaintext.length) tampered written) →
      data = window (min start plaintext.length) (min stop plaintext.length) plaintext ∨
        ∃ i, Differs plaintext.length start (min stop plaintext.length) encoded.blob tampered i ∧
          ∃ other ∈ written, i * defaultEncryptIntegrityChunkSize < other.header.logicalSize ∧
            chunkOf defaultEncryptIntegrityChunkSize plaintext.length tampered i =
              chunkOf defaultEncryptIntegrityChunkSize other.header.logicalSize other.blob i := by
  obtain ⟨secret',known,rfl⟩ := encodePayload_encrypt mode made
  have same : secret' = secret := Option.some.inj (known.symm.trans secret_eq)
  subst same
  have size : row.size.toNat = plaintext.length := by
    rw [described.size]
    rfl
  by_cases started : start < min stop plaintext.length
  · have begun : min start plaintext.length = start := by omega
    have guarded := guarded_of_describes mode described
    obtain ⟨codes,decoded⟩ := accepted_cases found guarded unit_pos known size served started accepted
    by_cases unchanged : ∀ i, Covers defaultEncryptIntegrityChunkSize start (min stop plaintext.length) i →
        chunkOf defaultEncryptIntegrityChunkSize plaintext.length tampered i =
          cell defaultEncryptIntegrityChunkSize i (encryptInPlace e.crypto plaintext secret' nonce.bytes)
    · have plain : masked (encryptMask e.crypto secret' nonce.bytes) 0
          (encryptInPlace e.crypto plaintext secret' nonce.bytes) = plaintext := by
        rw [encrypt_masked,masked_masked]
        intro i b
        exact xor_undoes _ _
      have answer := decoded_same unit_pos started (Nat.min_le_right stop plaintext.length)
        (length_encryptInPlace secret' nonce.bytes plaintext) unchanged decoded
      have genuine : data = window (min start plaintext.length) (min stop plaintext.length) plaintext := by
        rw [begun,answer]
        exact congrArg (window start (min stop plaintext.length)) plain
      exact ⟨.inl genuine,fun _ _ _ _ => .inl genuine⟩
    · push Not at unchanged
      obtain ⟨i,covers,changed⟩ := unchanged
      have code := codes i covers
      have differs : Differs plaintext.length start (min stop plaintext.length)
          (encryptedPayload e.crypto secret' plan nonce plaintext).blob tampered i := by
        refine ⟨covers,?_⟩
        rw [chunkOf_encrypted]
        exact changed
      refine ⟨.inr ⟨i,differs,code⟩,?_⟩
      intro written under copied apart
      obtain ⟨other,member,j,inside,from_⟩ := copied i covers
      obtain ⟨low,code'⟩ := written_code (under other member) inside
      have low' : i < 2 ^ 64 := by
        have before : i * defaultEncryptIntegrityChunkSize < plaintext.length :=
          Nat.lt_of_lt_of_le covers.2 (Nat.min_le_right stop plaintext.length)
        exact Nat.lt_of_le_of_lt (Nat.le_mul_of_pos_right i unit_pos) (Nat.lt_trans before small)
      -- equal codes are codes of equal inputs
      have inputs : macInput i
            (chunkOf defaultEncryptIntegrityChunkSize plaintext.length tampered i) =
          macInput j (chunkOf defaultEncryptIntegrityChunkSize other.header.logicalSize other.blob j) := by
        apply apart (.inl ⟨i,covers,rfl⟩) (.inr ⟨other,member,j,inside,rfl⟩)
        have codes' := code.symm.trans (from_.trans code')
        rw [computeChunkMacWithKey,computeChunkMacWithKey] at codes'
        exact codes'
      obtain ⟨index,bytes⟩ := macInput_injective low' low inputs
      subst index
      exact .inr ⟨i,differs,other,member,inside,bytes⟩
  · have nothing : min stop row.size.toNat ≤ start := by omega
    have empty : data = window (min start plaintext.length) (min stop plaintext.length) plaintext := by
      rw [protectedReadRangeImpl,bind_run (e.getIndexMetadata_run w path),found] at accepted
      dsimp only at accepted
      rw [if_pos nothing] at accepted
      rw [window_empty (by omega)]
      exact (congrArg Prod.fst (Effect.pure_done accepted).1)
    exact ⟨.inl empty,fun _ _ _ _ => .inl empty⟩

/-- Another file of the same user, under the same key. -/
def foreignEncoded : EncodedPayload :=
  encryptedPayload sampleCrypto (List.replicate 32 7) encryptPlan (sampleNonce 9) [1,2,3,4,5]

/-- The blob of one file in the place of another's passes the check and is
decoded with the wrong key stream. -/
theorem foreign_blob_accepted :
    encodePayload protectedEngine.crypto protectedEngine.userId encryptPlan (sampleNonce 3)
        [10,20,30,40,50] = .ok sampleEncoded ∧
      encodePayload protectedEngine.crypto protectedEngine.userId encryptPlan (sampleNonce 9)
        [1,2,3,4,5] = .ok foreignEncoded ∧
      Differs 5 0 5 sampleEncoded.blob foreignEncoded.blob 0 ∧
      codeOf 5 sampleEncoded.blob 0 ≠ codeOf 5 foreignEncoded.blob 0 ∧
      NoCollision protectedEngine.crypto (List.replicate 32 7)
        (macInputs 5 0 5 foreignEncoded.blob [sampleEncoded,foreignEncoded]) ∧
      ∃ data, (protectedEngine.protectedReadRangeImpl "/f".toList 0 5 encryptPlan
          (protectedWorld sampleEncoded foreignEncoded.blob) []).value?.map (·.1) = some data ∧
        data ≠ [10,20,30,40,50] := by
  have first (i : Nat) (early : i * defaultEncryptIntegrityChunkSize < 5) : i = 0 := by
    have unit : defaultEncryptIntegrityChunkSize = 1048576 := rfl
    rw [unit] at early
    omega
  have apart : protectedEngine.crypto.hmacSha256
      (protectedEngine.crypto.deriveEncryptMacKey (List.replicate 32 7))
        (macInput 0 (chunkOf defaultEncryptIntegrityChunkSize 5 sampleEncoded.blob 0)) ≠
      protectedEngine.crypto.hmacSha256
        (protectedEngine.crypto.deriveEncryptMacKey (List.replicate 32 7))
          (macInput 0 (chunkOf defaultEncryptIntegrityChunkSize 5 foreignEncoded.blob 0)) := by
    decide +kernel
  -- only the first chunks of the two files are authenticated
  have inputs : ∀ m ∈ macInputs 5 0 5 foreignEncoded.blob [sampleEncoded,foreignEncoded],
      m = macInput 0 (chunkOf defaultEncryptIntegrityChunkSize 5 sampleEncoded.blob 0) ∨
        m = macInput 0 (chunkOf defaultEncryptIntegrityChunkSize 5 foreignEncoded.blob 0) := by
    rintro m (⟨i,covers,rfl⟩ | ⟨other,member,j,inside,rfl⟩)
    · rw [first i covers.2]
      exact .inr rfl
    · rcases List.mem_cons.mp member with rfl | member
      · rw [first j inside]
        exact .inl rfl
      · cases List.mem_singleton.mp member
        rw [first j inside]
        exact .inr rfl
  refine ⟨rfl,rfl,⟨⟨Nat.zero_le _,by decide⟩,by decide +kernel⟩,by decide +kernel,?_,?_⟩
  · intro m member m' member' same
    rcases inputs m member with rfl | rfl
    · rcases inputs m' member' with rfl | rfl
      · rfl
      · exact absurd same apart
    · rcases inputs m' member' with rfl | rfl
      · exact absurd same.symm apart
      · rfl
  · have served : ((protectedEngine.protectedReadRangeImpl "/f".toList 0 5 encryptPlan
        (protectedWorld sampleEncoded foreignEncoded.blob) []).value?.map (·.1)).any
          (fun data => data != [10,20,30,40,50]) = true := by decide +kernel
    obtain ⟨data,read,differs⟩ := (Option.any_eq_true _ _).mp served
    exact ⟨data,read,bne_iff_ne.mp differs⟩

/-- That read is explained by the foreign chunk. -/
theorem tampered_range_foreign :
    ∃ data, data ≠ [20,30] ∧ ∃ i, Differs 5 1 3 sampleEncoded.blob foreignEncoded.blob i ∧
      codeOf 5 foreignEncoded.blob i =
        computeChunkMacWithKey protectedEngine.crypto
          (protectedEngine.crypto.deriveEncryptMacKey (List.replicate 32 7)) i
          (chunkOf defaultEncryptIntegrityChunkSize 5 foreignEncoded.blob i) ∧
      (protectedEngine.protectedReadRangeImpl "/f".toList 1 3 encryptPlan
        (protectedWorld sampleEncoded foreignEncoded.blob) []).value?.map (·.1) = some data := by
  have made : encodePayload protectedEngine.crypto protectedEngine.userId encryptPlan (sampleNonce 3)
      [10,20,30,40,50] = .ok sampleEncoded := rfl
  have found : Index.getFileMetadata protectedEngine.userId "/f".toList
      (protectedWorld sampleEncoded foreignEncoded.blob).index = some (protectedRow sampleEncoded) := rfl
  have described : Describes (protectedRow sampleEncoded) ['b'] sampleEncoded := ⟨rfl,rfl,rfl,rfl⟩
  have served : protectedEngine.poolContent (protectedWorld sampleEncoded foreignEncoded.blob) ['b'] =
      some foreignEncoded.blob := by decide +kernel
  have returned : (protectedEngine.protectedReadRangeImpl "/f".toList 1 3 encryptPlan
      (protectedWorld sampleEncoded foreignEncoded.blob) []).value?.isSome = true := by decide +kernel
  obtain ⟨⟨data,info⟩,w',rest,accepted⟩ := Outcome.done_of_value returned
  have wrong : data ≠ [20,30] := by
    have other : (protectedEngine.protectedReadRangeImpl "/f".toList 1 3 encryptPlan
        (protectedWorld sampleEncoded foreignEncoded.blob) []).value?.map (·.1) ≠ some [20,30] := by
      decide +kernel
    rw [accepted] at other
    exact fun same => other (congrArg some same)
  have explained := (tampered_range rfl rfl (by decide) made found described served accepted).1
  rcases explained with genuine | ⟨i,differs,code⟩
  · exact absurd genuine wrong
  · exact ⟨data,wrong,i,differs,code,by rw [accepted]; rfl⟩

end Engine
end StorageHub.Scoped
