import StorageHub.Protected.CodecSpec
import StorageHub.Scoped.ReadSpec

/-! Ranges of protected files, read from the stored blob and its index row. -/
namespace StorageHub.Scoped
open Library WriteCache Protected Vfs

namespace Engine
variable (e : Engine)

def protectedReadRangeImpl (path : Text) (start stop : Nat) (plan : ProtectedPathPlan) :
    Vfs (Bytes × VfsFileInfo) := do
  match ← e.getIndexMetadata path with
  | none => Effect.fail (.notFound path)
  | some row => do
    let logicalEnd := min stop row.size.toNat
    if logicalEnd ≤ start then pure ([],infoOfRow row)
    else do
      let read ← e.protectedReadPayloadRange row start logicalEnd
      Effect.ofExcept (e.verifyPayload plan read)
      let data ← Effect.ofExcept (textError (decodeRange e.crypto e.userId plan.keySlotId
        plan.encryptKey read.header read.payload read.payloadLogicalStart start logicalEnd))
      pure (data,infoOfRow row)

/-! ### What the pool serves -/

/-- The data at a physical path: pending, cached, or a file of an operator. -/
def poolContent (w : World) (path : Text) : Option Bytes :=
  match (e.pendingRecord path w).bind fun inner => w.shared.content inner.blob with
  | some data => some data
  | none =>
    match e.cached w path with
    | some data => some data
    | none =>
      match w.primary.stat path with
      | some _ => w.primary.read path
      | none => e.backup.bind fun backup => backup.read path

end Engine

theorem sliceBytes_window (data : Bytes) (start stop : Nat) :
    Engine.sliceBytes data start stop = window start stop data := by
  have size := length_window start stop data
  unfold Engine.sliceBytes
  dsimp only
  split
  next empty =>
    symm
    apply List.eq_nil_of_length_eq_zero
    omega
  next =>
    apply List.ext_getElem?
    intro i
    rw [List.getElem?_drop,List.getElem?_take,getElem?_window]
    by_cases inside : start + i < data.length
    · have start' : min start data.length = start := by omega
      rw [start']
      by_cases before : start + i < stop
      · have before' : start + i < min stop data.length := by omega
        rw [if_pos before,if_pos before']
      · have after : ¬start + i < min stop data.length := by omega
        rw [if_neg before,if_neg after]
    · have beyond : data[start + i]? = none := List.getElem?_eq_none (by omega)
      have past : ¬min start data.length + i < min stop data.length := by omega
      rw [beyond,if_neg past]
      split <;> rfl

namespace Engine
variable {e : Engine} {w : World} {path : Text} {data : Bytes}

theorem poolPendingRead_run (e : Engine) (w : World) (path : Text) :
    ∃ hit, e.poolPendingRead path w [] = .done hit w [] ∧
      hit.map (·.1) = (e.pendingRecord path w).bind fun inner => w.shared.content inner.blob := by
  refine ⟨_,rfl,?_⟩
  cases e.pendingRecord path w with
  | none => rfl
  | some inner =>
    simp only [Option.bind_some,Option.map_map]
    cases inner.blob with
    | memory data => rfl
    | disk file =>
      have read : (default : EngineEnv).ok = true := rfl
      simp only [read,if_true]
      exact Option.map_id'

/-- A range of what the pool serves. -/
theorem poolReadRange_run (served : e.poolContent w path = some data) (start stop : Nat) :
    e.poolReadRange path start stop w [] = .done (window start stop data) w [] := by
  obtain ⟨hit,pending,known⟩ := e.poolPendingRead_run w path
  rw [poolContent,← known] at served
  rw [poolReadRange,bind_run pending,← sliceBytes_window]
  cases hit with
  | some found =>
    cases served
    rfl
  | none =>
    dsimp only [Option.map_none] at served ⊢
    rw [bind_run e.readCacheGet_run]
    cases copy : e.cached w path with
    | some found =>
      rw [copy] at served
      cases served
      rfl
    | none =>
      rw [copy] at served
      dsimp only at served ⊢
      cases there : w.primary.stat path with
      | some info =>
        rw [there] at served
        dsimp only at served
        have asked : primaryStat path w [] = .done (fileInfo path info) w [] := by
          rw [primaryStat_run,there]
        have read : primaryRead path w [] = .done data w [] := by rw [primaryRead_run,served]
        rw [bind_run (attempt_done asked)]
        dsimp only
        rw [bind_run read]
        rfl
      | none =>
        rw [there] at served
        obtain ⟨backup,saved,found⟩ := Option.bind_eq_some_iff.mp served
        have refused : primaryStat path w [] = .failed (.notFound path) w [] := by
          rw [primaryStat_run,there]
        have asked : backupStat backup path w [] = .done (fileInfo path ⟨false,data.length⟩) w [] := by
          rw [backupStat_run,stat_of_read found]
        have read : backupRead backup path w [] = .done data w [] := by rw [backupRead_run,found]
        rw [bind_run (attempt_failed refused),saved]
        dsimp only
        rw [bind_run asked,bind_run read]
        rfl

/-! ### The payload of a range -/

/-- Where the aligned read of a range ends. -/
def alignedEnd (unit stop size : Nat) : Nat := min ((min stop size + (unit - 1)) / unit * unit) size

theorem le_alignedEnd {unit : Nat} (positive : 0 < unit) (stop size : Nat) :
    min stop size ≤ alignedEnd unit stop size := by
  have remainder := Nat.mod_lt (min stop size + (unit - 1)) positive
  have division := Nat.div_add_mod' (min stop size + (unit - 1)) unit
  rw [alignedEnd]
  omega

theorem alignedEnd_le (unit stop size : Nat) : alignedEnd unit stop size ≤ size := Nat.min_le_right _ _

variable {row : IndexRow} {key : Text} {metadata : ProtectedMetaRecord}

theorem readPayload_obfuscate (located : row.backendKey = some key)
    (known : row.protectedMeta = some metadata) (mode : metadata.mode = .obfuscate)
    (served : e.poolContent w key = some data) (start stop : Nat) :
    e.protectedReadPayloadRange row start stop w [] =
      .done
        ⟨metadata.intoHeader,metadata,start / max metadata.blockSize 1 * max metadata.blockSize 1,
          window (protectedHeaderLen + start / max metadata.blockSize 1 * max metadata.blockSize 1)
            (protectedHeaderLen + alignedEnd (max metadata.blockSize 1) stop metadata.logicalSize) data,
          none⟩ w [] := by
  rw [protectedReadPayloadRange,located,known]
  simp only [ProtectedMetaRecord.intoHeader,mode]
  rw [bind_run (poolReadRange_run served _ _)]
  rfl

/-- The unit the authentication codes cover. -/
def chunkUnit (metadata : ProtectedMetaRecord) : Nat :=
  metadata.integrityChunkSize.getD defaultEncryptIntegrityChunkSize

theorem readPayload_encrypt (located : row.backendKey = some key)
    (known : row.protectedMeta = some metadata) (mode : metadata.mode = .encrypt)
    (guarded : metadata.integrity = .hmacSha256Chunked)
    (served : e.poolContent w key = some data) (start stop : Nat) :
    e.protectedReadPayloadRange row start stop w [] =
      .done
        ⟨metadata.intoHeader,metadata,start / chunkUnit metadata * chunkUnit metadata,
          window (protectedHeaderLen + start / chunkUnit metadata * chunkUnit metadata)
            (protectedHeaderLen + alignedEnd (chunkUnit metadata) stop metadata.logicalSize) data,
          some (window
            (protectedHeaderLen + metadata.logicalSize +
              start / chunkUnit metadata * chunkUnit metadata / chunkUnit metadata * protectedMacLen)
            (min
              (protectedHeaderLen + metadata.logicalSize +
                start / chunkUnit metadata * chunkUnit metadata / chunkUnit metadata * protectedMacLen +
                integrityChunkCount (alignedEnd (chunkUnit metadata) stop metadata.logicalSize -
                  start / chunkUnit metadata * chunkUnit metadata) (chunkUnit metadata) *
                    protectedMacLen)
              (row.physicalSize.getD 0).toNat) data)⟩ w [] := by
  rw [protectedReadPayloadRange,located,known]
  simp only [ProtectedMetaRecord.intoHeader,mode,guarded,if_true]
  rw [bind_run (poolReadRange_run served _ _),bind_run (poolReadRange_run served _ _)]
  rfl

theorem alignedEnd_whole (unit stop size : Nat) : WholeChunks unit (alignedEnd unit stop size) size := by
  refine ⟨alignedEnd_le unit stop size,?_⟩
  rcases Nat.le_total ((min stop size + (unit - 1)) / unit * unit) size with below | above
  · exact .inr ⟨_,Nat.min_eq_left below⟩
  · exact .inl (Nat.min_eq_right above)

/-- The row of a file whose content is encoded in a blob. -/
structure Describes (row : IndexRow) (key : Text) (encoded : EncodedPayload) : Prop where
  backendKey : row.backendKey = some key
  protectedMeta : row.protectedMeta = some encoded.metadata
  size : row.size = encoded.header.logicalSize
  physicalSize : row.physicalSize = some (encoded.blob.length : Int)

/-- Once the payload is read, the answer is that of the two pure checks. -/
theorem protectedReadRange_run {path : Text} {start stop : Nat} {plan : ProtectedPathPlan}
    {read : ProtectedPayload} (found : Index.getFileMetadata e.userId path w.index = some row)
    (started : start < min stop row.size.toNat)
    (payload : e.protectedReadPayloadRange row start (min stop row.size.toNat) w [] = .done read w []) :
    e.protectedReadRangeImpl path start stop plan w [] =
      match e.verifyPayload plan read with
      | .error err => .failed err w []
      | .ok _ =>
        match textError (decodeRange e.crypto e.userId plan.keySlotId plan.encryptKey read.header
          read.payload read.payloadLogicalStart start (min stop row.size.toNat)) with
        | .error err => .failed err w []
        | .ok data => .done (data,infoOfRow row) w [] := by
  have later : ¬min stop row.size.toNat ≤ start := by omega
  rw [protectedReadRangeImpl,bind_run (e.getIndexMetadata_run w path),found]
  dsimp only
  rw [if_neg later,bind_run payload]
  cases e.verifyPayload plan read with
  | error err => rfl
  | ok _ =>
    dsimp only
    cases textError (decodeRange e.crypto e.userId plan.keySlotId plan.encryptKey read.header
      read.payload read.payloadLogicalStart start (min stop row.size.toNat)) with
    | error err => rfl
    | ok data => rfl

theorem protectedReadRange_done {path : Text} {start stop : Nat} {plan : ProtectedPathPlan}
    {read : ProtectedPayload} (found : Index.getFileMetadata e.userId path w.index = some row)
    (started : start < min stop row.size.toNat)
    (payload : e.protectedReadPayloadRange row start (min stop row.size.toNat) w [] = .done read w [])
    (checked : e.verifyPayload plan read = .ok ())
    (decoded : decodeRange e.crypto e.userId plan.keySlotId plan.encryptKey read.header read.payload
      read.payloadLogicalStart start (min stop row.size.toNat) = .ok data) :
    e.protectedReadRangeImpl path start stop plan w [] = .done (data,infoOfRow row) w [] := by
  rw [protectedReadRange_run found started payload,checked]
  dsimp only
  rw [decoded]
  rfl

section exactRanges
variable {path : Text} {plan : ProtectedPathPlan} {nonce : Nonce} {plaintext : Bytes}
  {encoded : EncodedPayload} {start stop : Nat}

theorem decodeRange_obfuscate (c : Crypto) (userId keySlotId : Text) (encryptKey : Option Bytes)
    {header : ProtectedHeader} (mode : header.mode = .obfuscate) (payload : Bytes) {first : Nat}
    (started : start < stop) (inside : stop ≤ header.logicalSize) :
    decodeRange c userId keySlotId encryptKey header payload first start stop =
      decodeObfuscateRange c userId keySlotId header payload first start stop := by
  have clamped : max (min stop header.logicalSize) (min start header.logicalSize) = stop := by omega
  have later : ¬stop ≤ start := by omega
  rw [decodeRange,clamped]
  simp only [if_neg later,mode]

theorem decodeRange_encrypt (c : Crypto) (userId keySlotId : Text) (encryptKey : Option Bytes)
    {header : ProtectedHeader} (mode : header.mode = .encrypt) (payload : Bytes) {first : Nat}
    (started : start < stop) (inside : stop ≤ header.logicalSize) :
    decodeRange c userId keySlotId encryptKey header payload first start stop =
      decodeEncryptRange c encryptKey header payload first start stop := by
  have clamped : max (min stop header.logicalSize) (min start header.logicalSize) = stop := by omega
  have later : ¬stop ≤ start := by omega
  rw [decodeRange,clamped]
  simp only [if_neg later,mode]

/-- The aligned blocks of a range, read behind the header, decode to the range. -/
theorem decode_obfuscated (c : Crypto) (userId keySlotId : Text) (encryptKey : Option Bytes)
    (header : ProtectedHeader) (mode : header.mode = .obfuscate) {plain head : Bytes}
    (size : header.logicalSize = plain.length) (skipped : head.length = protectedHeaderLen)
    (started : start < stop) (inside : stop ≤ plain.length) :
    decodeRange c userId keySlotId encryptKey header
        (window (protectedHeaderLen + start / max header.blockSize 1 * max header.blockSize 1)
          (protectedHeaderLen + alignedEnd (max header.blockSize 1) stop header.logicalSize)
          (head ++ masked (obfuscateMask c userId keySlotId header.seedOrNonce header.blockSize
            header.prng) 0 plain))
        (start / max header.blockSize 1 * max header.blockSize 1) start stop =
      .ok (window start stop plain) := by
  have positive : 0 < max header.blockSize 1 := by omega
  have before := Nat.div_mul_le_self start (max header.blockSize 1)
  have clamped := le_alignedEnd positive stop plain.length
  have short := alignedEnd_le (max header.blockSize 1) stop plain.length
  have within : stop ≤ alignedEnd (max header.blockSize 1) stop plain.length := by omega
  rw [decodeRange_obfuscate c userId keySlotId encryptKey mode _ started (size ▸ inside),size,← skipped,
    window_append_right]
  exact decodeObfuscateRange_window c userId keySlotId header plain before (Nat.le_of_lt started) within
    short

theorem read_obfuscated (mode : plan.mode = .obfuscate) (fits : plan.blockSize < 2 ^ 32)
    (made : encodePayload e.crypto e.userId plan nonce plaintext = .ok encoded)
    (found : Index.getFileMetadata e.userId path w.index = some row)
    (described : Describes row key encoded) (served : e.poolContent w key = some encoded.blob)
    (started : start < min stop plaintext.length) :
    e.protectedReadRangeImpl path start stop plan w [] =
      .done (window start (min stop plaintext.length) plaintext,infoOfRow row) w [] := by
  rw [encodePayload_obfuscate mode] at made
  cases made
  have blockSize : (encodedHeader plan nonce plaintext).blockSize = plan.blockSize := Nat.mod_eq_of_lt fits
  have size : row.size.toNat = plaintext.length := by
    rw [described.size]
    rfl
  have unverified (read : ProtectedPayload) (mode : read.header.mode = .obfuscate) :
      e.verifyPayload plan read = .ok () := by simp [verifyPayload,mode]
  have decoded := decode_obfuscated e.crypto e.userId plan.keySlotId plan.encryptKey
    (encodedHeader plan nonce plaintext) mode rfl (length_encodedHeader plan nonce plaintext) started
    (Nat.min_le_right stop plaintext.length)
  have sameMask : obfuscateMask e.crypto e.userId plan.keySlotId nonce.bytes plan.blockSize plan.prng =
      obfuscateMask e.crypto e.userId plan.keySlotId (encodedHeader plan nonce plaintext).seedOrNonce
        (encodedHeader plan nonce plaintext).blockSize (encodedHeader plan nonce plaintext).prng := by
    rw [blockSize]
    rfl
  rw [sameMask] at served
  have read := readPayload_obfuscate described.backendKey described.protectedMeta mode served start
    (min stop row.size.toNat)
  rw [← size] at started decoded ⊢
  exact protectedReadRange_done found started read (unverified _ mode) decoded

theorem cut_payload {head cipher table : Bytes} (skipped : head.length = protectedHeaderLen)
    {start stop : Nat} (inside : stop ≤ cipher.length) :
    window (protectedHeaderLen + start) (protectedHeaderLen + stop) (head ++ cipher ++ table) =
      window start stop cipher := by
  rw [List.append_assoc,← skipped,window_append_right,window_append_left inside]

theorem cut_codes {head cipher table : Bytes} (skipped : head.length = protectedHeaderLen)
    (start stop : Nat) :
    window (protectedHeaderLen + cipher.length + start) (protectedHeaderLen + cipher.length + stop)
      (head ++ cipher ++ table) = window start stop table := by
  rw [← skipped,← List.length_append,window_append_right]

end exactRanges

/-! ### Encrypted ranges -/

theorem unit_pos : 0 < defaultEncryptIntegrityChunkSize := by decide

section encryptedRanges
variable {unit start stop size : Nat}

/-- The first chunk a range touches. -/
def firstChunk (unit start : Nat) : Nat := start / unit

def coveredChunks (unit start stop size : Nat) : Nat :=
  integrityChunkCount (alignedEnd unit stop size - firstChunk unit start * unit) unit

theorem firstChunk_le (unit start : Nat) : firstChunk unit start * unit ≤ start :=
  Nat.div_mul_le_self start unit

theorem stop_le_alignedEnd (positive : 0 < unit) (inside : stop ≤ size) :
    stop ≤ alignedEnd unit stop size := by
  have clamped := le_alignedEnd positive stop size
  rw [Nat.min_eq_left inside] at clamped
  exact clamped

/-- A covered chunk begins before the end of the payload. -/
theorem covered_inside {i : Nat} (positive : 0 < unit) (covered : i < coveredChunks unit start stop size) :
    (firstChunk unit start + i) * unit < size := by
  have before := chunk_inside positive covered
  have short := alignedEnd_le unit stop size
  omega

/-- The codes of the chunks of a range lie in the table behind the payload. -/
theorem covered_le (positive : 0 < unit) (started : start < stop) (inside : stop ≤ size) :
    firstChunk unit start + coveredChunks unit start stop size ≤ integrityChunkCount size unit := by
  have before := firstChunk_le unit start
  have within := stop_le_alignedEnd positive inside
  have unit' : max unit 1 = unit := by omega
  have some_ : 0 < coveredChunks unit start stop size := by
    rw [coveredChunks,lt_chunkCount_iff]
    omega
  have among : coveredChunks unit start stop size - 1 < coveredChunks unit start stop size := by omega
  have last := covered_inside positive among
  have counted : firstChunk unit start + (coveredChunks unit start stop size - 1) <
      integrityChunkCount size unit := by
    rw [lt_chunkCount_iff,unit']
    exact last
  omega

/-- The row of an encrypted payload with codes for chunks of `unit` bytes. -/
structure Guarded (row : IndexRow) (key : Text) (metadata : ProtectedMetaRecord) (unit : Nat) : Prop where
  backendKey : row.backendKey = some key
  protectedMeta : row.protectedMeta = some metadata
  mode : metadata.mode = .encrypt
  integrity : metadata.integrity = .hmacSha256Chunked
  chunkUnit : chunkUnit metadata = unit
  physicalSize : (row.physicalSize.getD 0).toNat = protectedHeaderLen + metadata.logicalSize +
    integrityChunkCount metadata.logicalSize unit * protectedMacLen

/-- What the read of a range takes from a blob of an encrypted payload. -/
def guardedRead (unit : Nat) (metadata : ProtectedMetaRecord) (start stop : Nat) (blob : Bytes) :
    ProtectedPayload where
  header := metadata.intoHeader
  metadata
  payloadLogicalStart := firstChunk unit start * unit
  payload := window (protectedHeaderLen + firstChunk unit start * unit)
    (protectedHeaderLen + alignedEnd unit stop metadata.logicalSize) blob
  macBytes := some (window
    (protectedHeaderLen + metadata.logicalSize + firstChunk unit start * protectedMacLen)
    (protectedHeaderLen + metadata.logicalSize +
      (firstChunk unit start + coveredChunks unit start stop metadata.logicalSize) * protectedMacLen) blob)

/-- By the row of an encrypted payload, whatever blob lies there now. -/
theorem readPayload_guarded {blob : Bytes} (guarded : Guarded row key metadata unit)
    (served : e.poolContent w key = some blob) (positive : 0 < unit) (started : start < stop)
    (inside : stop ≤ metadata.logicalSize) :
    e.protectedReadPayloadRange row start stop w [] =
      .done (guardedRead unit metadata start stop blob) w [] := by
  have read := readPayload_encrypt guarded.backendKey guarded.protectedMeta guarded.mode
    guarded.integrity served start stop
  have index : start / unit * unit / unit = start / unit := Nat.mul_div_cancel (start / unit) positive
  have codes := Nat.mul_le_mul_right protectedMacLen (covered_le positive started inside)
  have codesEnd : min (protectedHeaderLen + metadata.logicalSize + start / unit * protectedMacLen +
      coveredChunks unit start stop metadata.logicalSize * protectedMacLen)
        (row.physicalSize.getD 0).toNat =
      protectedHeaderLen + metadata.logicalSize +
        (firstChunk unit start + coveredChunks unit start stop metadata.logicalSize) *
          protectedMacLen := by
    rw [guarded.physicalSize]
    rw [firstChunk,Nat.add_mul] at codes ⊢
    omega
  rw [coveredChunks,firstChunk] at codesEnd
  rw [guarded.chunkUnit,index,codesEnd] at read
  exact read

theorem verifyPayload_guarded {plan : ProtectedPathPlan} {secret blob : Bytes}
    (mode : metadata.mode = .encrypt) (integrity : metadata.integrity = .hmacSha256Chunked)
    (unit_eq : chunkUnit metadata = unit) (secret_eq : plan.encryptKey = some secret) :
    e.verifyPayload plan (guardedRead unit metadata start stop blob) =
      textError (verifyEncryptWindow e.crypto secret unit (firstChunk unit start * unit)
        (window (protectedHeaderLen + firstChunk unit start * unit)
          (protectedHeaderLen + alignedEnd unit stop metadata.logicalSize) blob)
        (window (protectedHeaderLen + metadata.logicalSize + firstChunk unit start * protectedMacLen)
          (protectedHeaderLen + metadata.logicalSize +
            (firstChunk unit start + coveredChunks unit start stop metadata.logicalSize) *
              protectedMacLen) blob)) := by
  rw [chunkUnit] at unit_eq
  simp only [verifyPayload,guardedRead,ProtectedMetaRecord.intoHeader,mode,integrity,and_self,if_true,
    secret_eq,unit_eq]

/-- The stored payload itself passes and decodes to the range. -/
theorem guarded_genuine {path : Text} {plan : ProtectedPathPlan} {secret head cipher : Bytes}
    (found : Index.getFileMetadata e.userId path w.index = some row)
    (guarded : Guarded row key metadata unit) (positive : 0 < unit)
    (secret_eq : plan.encryptKey = some secret) (skipped : head.length = protectedHeaderLen)
    (size : cipher.length = metadata.logicalSize) (size' : row.size.toNat = metadata.logicalSize)
    (served : e.poolContent w key =
      some (head ++ cipher ++ buildEncryptMacTable e.crypto secret unit cipher))
    (started : start < min stop metadata.logicalSize) :
    e.protectedReadRangeImpl path start stop plan w [] =
      .done (window start (min stop metadata.logicalSize)
        (masked (encryptMask e.crypto secret metadata.seedOrNonce) 0 cipher),infoOfRow row) w [] := by
  have inside := Nat.min_le_right stop metadata.logicalSize
  have read := readPayload_guarded guarded served positive started inside
  have before := firstChunk_le unit start
  have within := stop_le_alignedEnd positive inside
  have whole : WholeChunks unit (alignedEnd unit (min stop metadata.logicalSize) metadata.logicalSize)
      cipher.length := by
    rw [size]
    exact alignedEnd_whole unit _ _
  rw [← size'] at read started
  apply protectedReadRange_done found started read
  · rw [size',verifyPayload_guarded guarded.mode guarded.integrity guarded.chunkUnit secret_eq,
      cut_payload skipped whole.1,← size,cut_codes skipped,coveredChunks,size]
    have begun : firstChunk unit start * unit < cipher.length := by omega
    rw [verifyEncryptWindow_genuine e.crypto positive whole begun]
    rfl
  · rw [size']
    rw [size'] at started
    rw [decodeRange_encrypt e.crypto e.userId plan.keySlotId plan.encryptKey guarded.mode _ started inside,
      secret_eq]
    have decoded := decodeEncryptRange_window e.crypto secret metadata.intoHeader cipher before
      (Nat.le_of_lt started) within whole.1
    rw [← cut_payload skipped whole.1] at decoded
    exact decoded

end encryptedRanges

section exactRanges
variable {path : Text} {plan : ProtectedPathPlan} {nonce : Nonce} {plaintext : Bytes}
  {encoded : EncodedPayload} {start stop : Nat}

theorem guarded_of_describes {secret : Bytes} (mode : plan.mode = .encrypt)
    (described : Describes row key (encryptedPayload e.crypto secret plan nonce plaintext)) :
    Guarded row key (encryptedPayload e.crypto secret plan nonce plaintext).metadata
      defaultEncryptIntegrityChunkSize := by
  have size : (encryptedPayload e.crypto secret plan nonce plaintext).blob.length =
      protectedHeaderLen + plaintext.length +
        integrityChunkCount plaintext.length defaultEncryptIntegrityChunkSize * protectedMacLen := by
    rw [encryptedPayload,List.length_append,List.length_append,length_encodedHeader,length_macTable,
      length_encryptInPlace]
  refine ⟨described.backendKey,described.protectedMeta,mode,rfl,rfl,?_⟩
  rw [described.physicalSize,size]
  rfl

theorem read_encrypted (mode : plan.mode = .encrypt)
    (made : encodePayload e.crypto e.userId plan nonce plaintext = .ok encoded)
    (found : Index.getFileMetadata e.userId path w.index = some row)
    (described : Describes row key encoded) (served : e.poolContent w key = some encoded.blob)
    (started : start < min stop plaintext.length) :
    e.protectedReadRangeImpl path start stop plan w [] =
      .done (window start (min stop plaintext.length) plaintext,infoOfRow row) w [] := by
  obtain ⟨secret,known,rfl⟩ := encodePayload_encrypt mode made
  have size : row.size.toNat = plaintext.length := by
    rw [described.size]
    rfl
  have undoes (i : Nat) (b : UInt8) : encryptMask e.crypto secret nonce.bytes i
      (encryptMask e.crypto secret nonce.bytes i b) = b := xor_undoes _ _
  have answer := guarded_genuine found (guarded_of_describes mode described) unit_pos known
    (length_encodedHeader plan nonce plaintext) (length_encryptInPlace secret nonce.bytes plaintext) size
    served started
  have plain : masked (encryptMask e.crypto secret nonce.bytes) 0
      (encryptInPlace e.crypto plaintext secret nonce.bytes) = plaintext := by
    rw [encrypt_masked,masked_masked undoes]
  have answer' : e.protectedReadRangeImpl path start stop plan w [] =
      .done (window start (min stop plaintext.length) (masked (encryptMask e.crypto secret nonce.bytes) 0
        (encryptInPlace e.crypto plaintext secret nonce.bytes)),infoOfRow row) w [] := answer
  rw [answer',plain]

/-- A range read of an encoded file is exact, whatever the order in which the
workers came to the blocks. -/
theorem protectedReadRange_exact (e : Engine) {w : World} {key : Text} {row : IndexRow}
    (fits : plan.blockSize < 2 ^ 32)
    (made : encodePayload e.crypto e.userId plan nonce plaintext = .ok encoded)
    (found : Index.getFileMetadata e.userId path w.index = some row)
    (described : Describes row key encoded) (served : e.poolContent w key = some encoded.blob)
    (start stop : Nat) :
    e.protectedReadRangeImpl path start stop plan w [] =
        .done (window (min start plaintext.length) (min stop plaintext.length) plaintext,infoOfRow row)
          w [] ∧
      ∀ (buf : Bytes) (first : Nat) (order : List Nat),
        order.Perm (List.range (integrityChunkCount buf.length plan.blockSize)) →
        obfuscateBlocks e.crypto e.userId plan.keySlotId nonce.bytes plan.blockSize plan.prng first order
            buf =
          obfuscateInPlaceFromBlock e.crypto buf e.userId plan.keySlotId nonce.bytes plan.blockSize
            plan.prng first := by
  refine ⟨?_,fun buf first order scheduled => obfuscateBlocks_eq _ _ _ _ _ _ _ _ scheduled⟩
  have size : row.size.toNat = plaintext.length := by
    rw [described.size]
    cases mode : plan.mode with
    | obfuscate =>
      rw [encodePayload_obfuscate mode] at made
      cases made
      rfl
    | encrypt =>
      obtain ⟨secret,-,rfl⟩ := encodePayload_encrypt mode made
      rfl
  by_cases started : start < min stop plaintext.length
  · have begun : min start plaintext.length = start := by omega
    rw [begun]
    cases mode : plan.mode with
    | obfuscate => exact read_obfuscated mode fits made found described served started
    | encrypt => exact read_encrypted mode made found described served started
  · have nothing : min stop row.size.toNat ≤ start := by omega
    rw [protectedReadRangeImpl,bind_run (e.getIndexMetadata_run w path),found]
    dsimp only
    rw [if_pos nothing,window_empty (by omega)]
    rfl

end exactRanges

/-- Primitives small enough to compute with. -/
def sampleCrypto : Crypto where
  deriveBlockMaterial := fun userId keySlotId seed index =>
    (List.range 32).map fun i => UInt8.ofNat (userId.length + keySlotId.length + seed.length + index + i)
  cipherBlock := fun key counter => (List.range 16).map fun i => UInt8.ofNat (key.length + counter * 7 + i)
  deriveEncryptMacKey := fun key => key.map (· + 1)
  hmacSha256 := fun key message => List.replicate 32
    (message.foldl (fun acc b => acc * 31 + b) (key.foldl (fun acc b => acc * 17 + b) 7))
  hmacSha256_length := fun _ _ => List.length_replicate

def protectedEngine : Engine := { plainEngine with crypto := sampleCrypto }

def sampleNonce (seed : Nat) : Nonce := ⟨List.replicate 16 (UInt8.ofNat seed),List.length_replicate⟩

def encryptPlan : ProtectedPathPlan := ⟨⟨.encrypt,"slot-b".toList,64,.xorshift,some (List.replicate 32 7)⟩,['/']⟩

/-- The file `/f` whose content is encoded in the blob `b`. -/
def protectedRow (encoded : EncodedPayload) : IndexRow where
  id := 1
  userId := "u".toList
  parentPath := ['/']
  name := ['f']
  path := "/f".toList
  isDir := false
  storageId := none
  backendType := none
  backendKey := some ['b']
  size := encoded.header.logicalSize
  physicalSize := some (encoded.blob.length : Int)
  protectedMeta := some encoded.metadata
  fileTrashedAt := none
  rowCreatedAt := 0
  rowUpdatedAt := 0
  favoriteColor := 0
  originalPath := none

/-- Five bytes of the file `/f`, encoded and stored. -/
def sampleEncoded : EncodedPayload :=
  encryptedPayload sampleCrypto (List.replicate 32 7) encryptPlan (sampleNonce 3) [10,20,30,40,50]

def protectedWorld (encoded : EncodedPayload) (blob : Bytes) : World :=
  worldOf [(['b'],blob)] [] [protectedRow encoded]

theorem protectedReadRange_exact_middle :
    (protectedEngine.protectedReadRangeImpl "/f".toList 1 4 encryptPlan
      (protectedWorld sampleEncoded sampleEncoded.blob) []).value?.map (·.1) = some [20,30,40] := by
  have made : encodePayload protectedEngine.crypto protectedEngine.userId encryptPlan (sampleNonce 3)
      [10,20,30,40,50] = .ok sampleEncoded := rfl
  have found : Index.getFileMetadata protectedEngine.userId "/f".toList
      (protectedWorld sampleEncoded sampleEncoded.blob).index = some (protectedRow sampleEncoded) := rfl
  have described : Describes (protectedRow sampleEncoded) ['b'] sampleEncoded := ⟨rfl,rfl,rfl,rfl⟩
  have served : protectedEngine.poolContent (protectedWorld sampleEncoded sampleEncoded.blob) ['b'] =
      some sampleEncoded.blob := by decide +kernel
  have read := (protectedReadRange_exact protectedEngine (by decide) made found described served 1 4).1
  rw [read]
  rfl

end Engine
end StorageHub.Scoped
