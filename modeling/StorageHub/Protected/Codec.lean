import StorageHub.Library.Subtree
import StorageHub.WriteCache.Record

/-! The payload format of protected files: a header, the masked or encrypted
bytes and, in encrypted mode, a table of message authentication codes. -/
namespace StorageHub.Protected
open Library WriteCache

/-- The primitives the format builds on: the key derivations of a mask block and
of the authentication key, one block of the cipher and the authentication code. -/
structure Crypto where
  deriveBlockMaterial : Text → Text → Bytes → Nat → Bytes
  cipherBlock : Bytes → Nat → Bytes
  deriveEncryptMacKey : Bytes → Bytes
  hmacSha256 : Bytes → Bytes → Bytes
  hmacSha256_length : ∀ key message, (hmacSha256 key message).length = 32

inductive ProtectedMode
  | obfuscate
  | encrypt
  deriving DecidableEq,Repr

inductive ProtectedPrng
  | xorshift
  | pcg
  deriving DecidableEq,Repr

def ProtectedMode.toByte : ProtectedMode → UInt8
  | .obfuscate => 1
  | .encrypt => 2

def ProtectedPrng.toByte : ProtectedPrng → UInt8
  | .xorshift => 1
  | .pcg => 2

inductive Integrity
  | none
  | hmacSha256Chunked
  deriving DecidableEq,Repr

def protectedHeaderLen : Nat := 36

def protectedMacLen : Nat := 32

def defaultEncryptIntegrityChunkSize : Nat := 1024 * 1024

/-- What the files under one protected root are encoded with. -/
structure ProtectedDomain where
  mode : ProtectedMode
  keySlotId : Text
  blockSize : Nat
  prng : ProtectedPrng
  encryptKey : Option Bytes
  deriving DecidableEq,Repr

structure ProtectedPathPlan extends ProtectedDomain where
  root : Text
  deriving DecidableEq,Repr

/-- The random part of a header. -/
structure Nonce where
  bytes : Bytes
  length_bytes : bytes.length = 16

/-- A path without trailing slashes, the root for none left. -/
def trimmedOrRoot (path : Text) : Text :=
  let trimmed := Text.trimEnd '/' path
  if trimmed = [] then ['/'] else trimmed

/-- Whether a path is the root of the protected tree or below it. -/
def matchesRoot (root path : Text) : Bool :=
  let root := trimmedOrRoot root
  root == ['/'] || Text.within root (trimmedOrRoot path)

def ProtectedPathPlan.matchesPath (plan : ProtectedPathPlan) (path : Text) : Bool :=
  if plan.root = ['/'] then true
  else Text.within (trimmedOrRoot plan.root) (trimmedOrRoot path)

structure ProtectedHeader where
  mode : ProtectedMode
  prng : ProtectedPrng
  blockSize : Nat
  logicalSize : Nat
  seedOrNonce : Bytes
  deriving DecidableEq,Repr

structure ProtectedMetaRecord where
  version : Nat
  mode : ProtectedMode
  prng : ProtectedPrng
  blockSize : Nat
  logicalSize : Nat
  seedOrNonce : Bytes
  integrity : Integrity
  integrityChunkSize : Option Nat
  deriving DecidableEq,Repr

def littleEndian (width n : Nat) : Bytes :=
  (List.range width).map fun i => UInt8.ofNat (n / 256 ^ i)

def ProtectedHeader.encode (h : ProtectedHeader) : Bytes :=
  "FUPR".toUTF8.toList ++ [1,h.mode.toByte,h.prng.toByte,0] ++ littleEndian 4 h.blockSize ++
    littleEndian 8 h.logicalSize ++ h.seedOrNonce

def ProtectedMetaRecord.fromHeader (h : ProtectedHeader) : ProtectedMetaRecord where
  version := 1
  mode := h.mode
  prng := h.prng
  blockSize := h.blockSize
  logicalSize := h.logicalSize
  seedOrNonce := h.seedOrNonce
  integrity := .none
  integrityChunkSize := none

def ProtectedMetaRecord.intoHeader (r : ProtectedMetaRecord) : ProtectedHeader :=
  ⟨r.mode,r.prng,r.blockSize,r.logicalSize,r.seedOrNonce⟩

def shown (n : Nat) : Text := (toString n).toList

/-! ### Masks -/

def readU64 (bytes : Bytes) : UInt64 :=
  (bytes.take 8).zipIdx.foldl (fun acc b => acc ||| (b.1.toUInt64 <<< (8 * UInt64.ofNat b.2))) 0

def xorshift64starNext (state : UInt64) : UInt64 :=
  let x := state ^^^ (state >>> 12)
  let x := x ^^^ (x <<< 25)
  x ^^^ (x >>> 27)

/-- Byte `offset` of the mask `apply_xorshift_mask` draws for a block. -/
def xorshiftMask (material : Bytes) (offset : Nat) : UInt8 :=
  let seed := readU64 material
  let state := if seed = 0 then 0x9e3779b97f4a7c15 else seed
  let word := xorshift64starNext^[offset / 8 + 1] state * 0x2545f4914f6cdd1d
  (word >>> (8 * UInt64.ofNat (offset % 8))).toUInt8

def pcg32Output (state : UInt64) : UInt32 :=
  let xorshifted := (((state >>> 18) ^^^ state) >>> 27).toUInt32
  let rot := (state >>> 59).toUInt32
  (xorshifted >>> rot) ||| (xorshifted <<< ((32 - rot) % 32))

/-- Byte `offset` of the mask `apply_pcg_mask` draws for a block. -/
def pcgMask (material : Bytes) (offset : Nat) : UInt8 :=
  let seed := readU64 material
  let state := if seed = 0 then 0x853c49e6748fea9b else seed
  let inc := readU64 (material.drop 8) ||| 1
  let word := pcg32Output ((fun s => s * 6364136223846793005 + (inc ||| 1))^[offset / 4] state)
  (word >>> (8 * UInt32.ofNat (offset % 4))).toUInt8

section codec
variable (c : Crypto)

def maskByte (userId keySlotId : Text) (seed : Bytes) (prng : ProtectedPrng) (block offset : Nat) :
    UInt8 :=
  let material := c.deriveBlockMaterial userId keySlotId seed block
  match prng with
  | .xorshift => xorshiftMask material offset
  | .pcg => pcgMask material offset

/-- Every byte is masked with the stream of its block; the blocks may be done
in parallel. -/
def obfuscateInPlaceFromBlock (buf : Bytes) (userId keySlotId : Text) (seed : Bytes)
    (blockSize : Nat) (prng : ProtectedPrng) (startBlockIndex : Nat) : Bytes :=
  let size := max blockSize 1
  buf.mapIdx fun i b =>
    b ^^^ maskByte c userId keySlotId seed prng (startBlockIndex + i / size) (i % size)

def bigEndian (bytes : Bytes) : Nat := bytes.foldl (fun acc b => acc * 256 + b.toNat) 0

def keystreamByte (key : Bytes) (counter offset : Nat) : UInt8 :=
  (c.cipherBlock key ((counter + offset / 16) % 2 ^ 128)).getD (offset % 16) 0

def encryptInPlace (buf key nonce : Bytes) : Bytes :=
  buf.mapIdx fun i b => b ^^^ keystreamByte c key (bigEndian nonce) i

/-- The keystream is entered at the block of the offset and its first bytes
skipped. -/
def encryptRangeInPlace (buf key nonce : Bytes) (logicalOffset : Nat) : Bytes :=
  let counter := (bigEndian nonce + logicalOffset / 16) % 2 ^ 128
  buf.mapIdx fun i b => b ^^^ keystreamByte c key counter (logicalOffset % 16 + i)

/-- What is authenticated of a chunk: its index and its bytes. -/
def macInput (chunkIndex : Nat) (ciphertext : Bytes) : Bytes :=
  littleEndian 8 chunkIndex ++ ciphertext

def computeChunkMacWithKey (macKey : Bytes) (chunkIndex : Nat) (ciphertext : Bytes) : Bytes :=
  c.hmacSha256 macKey (macInput chunkIndex ciphertext)

def integrityChunkCount (logicalSize chunkSize : Nat) : Nat :=
  (logicalSize + max chunkSize 1 - 1) / max chunkSize 1

def chunkAt (chunkSize : Nat) (buf : Bytes) (i : Nat) : Bytes :=
  (buf.drop (i * max chunkSize 1)).take (max chunkSize 1)

def buildEncryptMacTable (key : Bytes) (chunkSize : Nat) (ciphertext : Bytes) : Bytes :=
  let macKey := c.deriveEncryptMacKey key
  (List.range (integrityChunkCount ciphertext.length chunkSize)).flatMap fun i =>
    computeChunkMacWithKey c macKey i (chunkAt chunkSize ciphertext i)

structure EncodedPayload where
  blob : Bytes
  header : ProtectedHeader
  metadata : ProtectedMetaRecord

/-- `encode_payload`, its random seed given. -/
def encodePayload (userId : Text) (plan : ProtectedPathPlan) (nonce : Nonce) (plaintext : Bytes) :
    Except Text EncodedPayload :=
  let seedOrNonce := nonce.bytes
  let header : ProtectedHeader :=
    ⟨plan.mode,plan.prng,plan.blockSize % 2 ^ 32,plaintext.length,seedOrNonce⟩
  let metadata := ProtectedMetaRecord.fromHeader header
  match plan.mode with
  | .obfuscate =>
    let payload := obfuscateInPlaceFromBlock c plaintext userId plan.keySlotId seedOrNonce
      (max plan.blockSize 1) plan.prng 0
    .ok ⟨header.encode ++ payload,header,metadata⟩
  | .encrypt =>
    match plan.encryptKey with
    | none => .error "Protected encrypt key is missing".toList
    | some key =>
      let payload := encryptInPlace c plaintext key seedOrNonce
      let macTable := buildEncryptMacTable c key defaultEncryptIntegrityChunkSize payload
      .ok ⟨header.encode ++ payload ++ macTable,header,
        { metadata with
          integrity := .hmacSha256Chunked
          integrityChunkSize := some defaultEncryptIntegrityChunkSize }⟩

def decodeObfuscateRange (userId keySlotId : Text) (header : ProtectedHeader) (payload : Bytes)
    (payloadLogicalStart start stop : Nat) : Except Text Bytes :=
  let blockSize := max header.blockSize 1
  let buf := obfuscateInPlaceFromBlock c payload userId keySlotId header.seedOrNonce blockSize
    header.prng (payloadLogicalStart / blockSize)
  let sliceStart := start - payloadLogicalStart
  let sliceEnd := sliceStart + (stop - start)
  if buf.length < sliceEnd then
    .error ("obfuscate range slice out of bounds: slice_end=".toList ++ shown sliceEnd ++
      " window_len=".toList ++ shown buf.length)
  else .ok ((buf.take sliceEnd).drop sliceStart)

def decodeEncryptRange (encryptKey : Option Bytes) (header : ProtectedHeader) (payload : Bytes)
    (payloadLogicalStart start stop : Nat) : Except Text Bytes :=
  match encryptKey with
  | none => .error "Protected encrypt key is missing".toList
  | some key =>
    if start < payloadLogicalStart then
      .error ("encrypt range start ".toList ++ shown start ++ " < payload_logical_start ".toList ++
        shown payloadLogicalStart)
    else
      let buf := encryptRangeInPlace c payload key header.seedOrNonce payloadLogicalStart
      let sliceStart := start - payloadLogicalStart
      let sliceEnd := sliceStart + (stop - start)
      if buf.length < sliceEnd then
        .error ("encrypt range slice out of bounds: slice_end=".toList ++ shown sliceEnd ++
          " buf_len=".toList ++ shown buf.length)
      else .ok ((buf.take sliceEnd).drop sliceStart)

def decodeRange (userId keySlotId : Text) (encryptKey : Option Bytes) (header : ProtectedHeader)
    (payload : Bytes) (payloadLogicalStart start stop : Nat) : Except Text Bytes :=
  let logicalEnd := max (min stop header.logicalSize) (min start header.logicalSize)
  if logicalEnd ≤ start then .ok []
  else
    match header.mode with
    | .obfuscate =>
      decodeObfuscateRange c userId keySlotId header payload payloadLogicalStart start logicalEnd
    | .encrypt => decodeEncryptRange c encryptKey header payload payloadLogicalStart start logicalEnd

def verifyEncryptWindow (key : Bytes) (chunkSize payloadLogicalStart : Nat)
    (ciphertextWindow macTable : Bytes) : Except Text Unit :=
  let size := max chunkSize 1
  let startChunk := payloadLogicalStart / size
  let expectedChunks := integrityChunkCount ciphertextWindow.length size
  let macKey := c.deriveEncryptMacKey key
  if macTable.length ≠ expectedChunks * protectedMacLen then
    .error "protected MAC table window size mismatch".toList
  else
    let wrong (i : Nat) : Bool := (macTable.drop (i * protectedMacLen)).take protectedMacLen !=
      computeChunkMacWithKey c macKey (startChunk + i) (chunkAt size ciphertextWindow i)
    match (List.range expectedChunks).find? wrong with
    | none => .ok ()
    | some i => .error ("protected MAC verification failed at chunk ".toList ++ shown (startChunk + i))

end codec
end StorageHub.Protected
