import StorageHub.Protected.CodecSpec
import StorageHub.Scoped.Sandbox

/-! The two forms a header is kept in: the bytes in front of a blob, and the record
of texts beside the index row. -/
namespace StorageHub.Protected
open Library WriteCache

/-- A header whose numbers have the widths of their fields. -/
structure SizedHeader where
  mode : ProtectedMode
  prng : ProtectedPrng
  blockSize : UInt32
  logicalSize : UInt64
  seedOrNonce : Nonce

def SizedHeader.header (h : SizedHeader) : ProtectedHeader :=
  ⟨h.mode,h.prng,h.blockSize.toNat,h.logicalSize.toNat,h.seedOrNonce.bytes⟩

def SizedHeader.encode (h : SizedHeader) : Bytes := h.header.encode

/-! ### Bytes -/

def protectedMagic : Bytes := "FUPR".toUTF8.toList

def ProtectedMode.fromByte (raw : UInt8) : Except Text ProtectedMode :=
  if raw = 1 then .ok .obfuscate
  else if raw = 2 then .ok .encrypt
  else .error ("unsupported protected mode byte: ".toList ++ shown raw.toNat)

def ProtectedPrng.fromByte (raw : UInt8) : Except Text ProtectedPrng :=
  if raw = 1 then .ok .xorshift
  else if raw = 2 then .ok .pcg
  else .error ("unsupported protected PRNG byte: ".toList ++ shown raw.toNat)

def fromLittleEndian (bytes : Bytes) : Nat := bytes.foldr (fun b rest => b.toNat + 256 * rest) 0

theorem length_window {raw : Bytes} (long : ¬raw.length < protectedHeaderLen) :
    ((raw.drop 20).take 16).length = 16 := by
  rw [protectedHeaderLen] at long
  rw [List.length_take,List.length_drop]
  omega

def SizedHeader.decode (raw : Bytes) : Except Text SizedHeader :=
  if short : raw.length < protectedHeaderLen then .error "protected payload header too short".toList
  else if raw.take 4 ≠ protectedMagic then .error "protected payload magic mismatch".toList
  else if raw.getD 4 0 ≠ 1 then
    .error ("unsupported protected payload version: ".toList ++ shown (raw.getD 4 0).toNat)
  else do
    let mode ← ProtectedMode.fromByte (raw.getD 5 0)
    let prng ← ProtectedPrng.fromByte (raw.getD 6 0)
    pure ⟨mode,prng,UInt32.ofNat (fromLittleEndian ((raw.drop 8).take 4)),
      UInt64.ofNat (fromLittleEndian ((raw.drop 12).take 8)),⟨(raw.drop 20).take 16,length_window short⟩⟩

theorem fromLittleEndian_littleEndian (width n : Nat) :
    fromLittleEndian (littleEndian width n) = n % 256 ^ width := by
  induction width generalizing n with
  | zero => simp [littleEndian,fromLittleEndian,Nat.mod_one]
  | succ width ih =>
    have first : (UInt8.ofNat n).toNat = n % 256 := UInt8.toNat_ofNat'
    have later : fromLittleEndian (UInt8.ofNat n::littleEndian width (n / 256)) =
        (UInt8.ofNat n).toNat + 256 * fromLittleEndian (littleEndian width (n / 256)) := rfl
    rw [littleEndian_succ,later,ih,first,pow_succ',Nat.mod_mul]

theorem littleEndian_fromLittleEndian (bytes : Bytes) :
    littleEndian bytes.length (fromLittleEndian bytes) = bytes := by
  induction bytes with
  | nil => rfl
  | cons b rest ih =>
    have whole : fromLittleEndian (b::rest) = b.toNat + 256 * fromLittleEndian rest := rfl
    have bound : b.toNat < 256 := b.toNat_lt
    have digit : UInt8.ofNat (b.toNat + 256 * fromLittleEndian rest) = b := by
      apply UInt8.toNat_inj.mp
      rw [UInt8.toNat_ofNat']
      omega
    have quotient : (b.toNat + 256 * fromLittleEndian rest) / 256 = fromLittleEndian rest := by omega
    rw [List.length_cons,littleEndian_succ,whole,digit,quotient,ih]

theorem fromLittleEndian_lt (bytes : Bytes) : fromLittleEndian bytes < 256 ^ bytes.length := by
  induction bytes with
  | nil => decide
  | cons b rest ih =>
    have whole : fromLittleEndian (b::rest) = b.toNat + 256 * fromLittleEndian rest := rfl
    have bound : b.toNat < 256 := b.toNat_lt
    rw [whole,List.length_cons,pow_succ']
    omega

theorem ProtectedMode.fromByte_toByte (mode : ProtectedMode) : fromByte mode.toByte = .ok mode := by
  cases mode <;> rfl

theorem ProtectedMode.toByte_of_fromByte {raw : UInt8} {mode : ProtectedMode} (read : fromByte raw = .ok mode) :
    raw = mode.toByte := by
  unfold fromByte at read
  split at read
  next one =>
    cases read
    exact one
  next =>
    split at read
    next two =>
      cases read
      exact two
    next => cases read

theorem ProtectedPrng.fromByte_toByte (prng : ProtectedPrng) : fromByte prng.toByte = .ok prng := by
  cases prng <;> rfl

theorem ProtectedPrng.toByte_of_fromByte {raw : UInt8} {prng : ProtectedPrng} (read : fromByte raw = .ok prng) :
    raw = prng.toByte := by
  unfold fromByte at read
  split at read
  next one =>
    cases read
    exact one
  next =>
    split at read
    next two =>
      cases read
      exact two
    next => cases read

/-! ### Reading back -/

theorem SizedHeader.ext_parts {h : SizedHeader} {mode : ProtectedMode} {prng : ProtectedPrng} {blockSize : UInt32}
    {logicalSize : UInt64} {seed : Nonce} (sameMode : mode = h.mode) (samePrng : prng = h.prng)
    (sameBlock : blockSize = h.blockSize) (sameSize : logicalSize = h.logicalSize)
    (sameSeed : seed.bytes = h.seedOrNonce.bytes) : (⟨mode,prng,blockSize,logicalSize,seed⟩ : SizedHeader) = h := by
  obtain ⟨hMode,hPrng,hBlock,hSize,⟨bytes,length⟩⟩ := h
  obtain ⟨bytes',length'⟩ := seed
  dsimp only at sameMode samePrng sameBlock sameSize sameSeed
  subst sameMode samePrng sameBlock sameSize sameSeed
  rfl

/-- The bytes that hold a header, all but the reserved one. -/
structure Holds (raw : Bytes) (h : SizedHeader) : Prop where
  long : protectedHeaderLen ≤ raw.length
  magic : raw.take 4 = protectedMagic
  version : raw.getD 4 0 = 1
  mode : raw.getD 5 0 = h.mode.toByte
  prng : raw.getD 6 0 = h.prng.toByte
  blockSize : (raw.drop 8).take 4 = littleEndian 4 h.blockSize.toNat
  logicalSize : (raw.drop 12).take 8 = littleEndian 8 h.logicalSize.toNat
  seed : (raw.drop 20).take 16 = h.seedOrNonce.bytes

theorem block_read (n : UInt32) : UInt32.ofNat (fromLittleEndian (littleEndian 4 n.toNat)) = n := by
  have bound : n.toNat < 2 ^ 32 := n.toNat_lt
  rw [fromLittleEndian_littleEndian,Nat.mod_eq_of_lt (by omega),UInt32.ofNat_toNat]

theorem block_written {bytes : Bytes} (size : bytes.length = 4) :
    littleEndian 4 (UInt32.ofNat (fromLittleEndian bytes)).toNat = bytes := by
  have bound := fromLittleEndian_lt bytes
  rw [size] at bound
  have kept : (UInt32.ofNat (fromLittleEndian bytes)).toNat = fromLittleEndian bytes :=
    UInt32.toNat_ofNat_of_lt' (by rw [UInt32.size]; omega)
  rw [kept,← size,littleEndian_fromLittleEndian]

theorem size_read (n : UInt64) : UInt64.ofNat (fromLittleEndian (littleEndian 8 n.toNat)) = n := by
  have bound : n.toNat < 2 ^ 64 := n.toNat_lt
  rw [fromLittleEndian_littleEndian,Nat.mod_eq_of_lt (by omega),UInt64.ofNat_toNat]

theorem size_written {bytes : Bytes} (size : bytes.length = 8) :
    littleEndian 8 (UInt64.ofNat (fromLittleEndian bytes)).toNat = bytes := by
  have bound := fromLittleEndian_lt bytes
  rw [size] at bound
  have kept : (UInt64.ofNat (fromLittleEndian bytes)).toNat = fromLittleEndian bytes :=
    UInt64.toNat_ofNat_of_lt' (by rw [UInt64.size]; omega)
  rw [kept,← size,littleEndian_fromLittleEndian]

/-- A header is read from exactly the bytes that hold it. -/
theorem decode_ok_iff {raw : Bytes} {h : SizedHeader} : SizedHeader.decode raw = .ok h ↔ Holds raw h := by
  unfold SizedHeader.decode
  constructor
  · intro read
    split at read
    next => cases read
    next long =>
    split at read
    next => cases read
    next magic =>
    split at read
    next => cases read
    next version =>
    have enough : protectedHeaderLen ≤ raw.length := Nat.le_of_not_lt long
    cases mode : ProtectedMode.fromByte (raw.getD 5 0) with
    | error e =>
      rw [mode] at read
      cases read
    | ok m =>
      cases prng : ProtectedPrng.fromByte (raw.getD 6 0) with
      | error e =>
        rw [mode,prng] at read
        cases read
      | ok p =>
        rw [mode,prng] at read
        have made := Except.ok.inj read
        rw [← made]
        rw [protectedHeaderLen] at enough
        refine ⟨Nat.le_of_not_lt long,not_not.mp magic,not_not.mp version,ProtectedMode.toByte_of_fromByte mode,
          ProtectedPrng.toByte_of_fromByte prng,?_,?_,rfl⟩
        · exact (block_written (by rw [List.length_take,List.length_drop]; omega)).symm
        · exact (size_written (by rw [List.length_take,List.length_drop]; omega)).symm
  · intro held
    have long : ¬raw.length < protectedHeaderLen := Nat.not_lt.mpr held.long
    rw [dif_neg long,if_neg (not_not.mpr held.magic),if_neg (not_not.mpr held.version),held.mode,held.prng,
      ProtectedMode.fromByte_toByte,ProtectedPrng.fromByte_toByte]
    have same : (⟨h.mode,h.prng,UInt32.ofNat (fromLittleEndian ((raw.drop 8).take 4)),
        UInt64.ofNat (fromLittleEndian ((raw.drop 12).take 8)),⟨(raw.drop 20).take 16,length_window long⟩⟩ :
          SizedHeader) = h :=
      SizedHeader.ext_parts rfl rfl (by rw [held.blockSize,block_read]) (by rw [held.logicalSize,size_read])
        held.seed
    exact congrArg Except.ok same

/-- Two byte strings that agree on the header but for its reserved byte. -/
def AgreeOnHeader (a b : Bytes) : Prop := ∀ i, i < protectedHeaderLen → i ≠ 7 → a[i]? = b[i]?

theorem getElem?_window {a : Bytes} {start n i : Nat} (first : start ≤ i) (last : i < start + n) :
    a[i]? = ((a.drop start).take n)[i - start]? := by
  have inside : i - start < n := by omega
  have place : start + (i - start) = i := by omega
  rw [List.getElem?_take_of_lt inside,List.getElem?_drop,place]

theorem AgreeOnHeader.window {a b : Bytes} (agree : AgreeOnHeader a b) {start n : Nat}
    (inside : start + n ≤ protectedHeaderLen) (beside : 7 < start ∨ start + n ≤ 7) :
    (a.drop start).take n = (b.drop start).take n := by
  apply List.ext_getElem?
  intro i
  by_cases bound : i < n
  · rw [List.getElem?_take_of_lt bound,List.getElem?_take_of_lt bound,List.getElem?_drop,List.getElem?_drop]
    exact agree _ (by omega) (by omega)
  · rw [List.getElem?_take_eq_none (by omega),List.getElem?_take_eq_none (by omega)]

theorem AgreeOnHeader.byte {a b : Bytes} (agree : AgreeOnHeader a b) {i : Nat} (inside : i < protectedHeaderLen)
    (beside : i ≠ 7) : a.getD i 0 = b.getD i 0 := by
  rw [List.getD_eq_getElem?_getD,List.getD_eq_getElem?_getD,agree i inside beside]

theorem holds_of_agree {a b : Bytes} {h : SizedHeader} (agree : AgreeOnHeader a b)
    (long : protectedHeaderLen ≤ a.length) (held : Holds b h) : Holds a h where
  long := long
  magic := by
    have same : (a.drop 0).take 4 = (b.drop 0).take 4 := agree.window (by decide) (.inr (by decide))
    rw [← held.magic]
    exact same
  version := by rw [agree.byte (by decide) (by decide),held.version]
  mode := by rw [agree.byte (by decide) (by decide),held.mode]
  prng := by rw [agree.byte (by decide) (by decide),held.prng]
  blockSize := by rw [agree.window (by decide) (.inl (by decide)),held.blockSize]
  logicalSize := by rw [agree.window (by decide) (.inl (by decide)),held.logicalSize]
  seed := by rw [agree.window (by decide) (.inl (by decide)),held.seed]

theorem agree_of_holds {a b : Bytes} {h : SizedHeader} (held : Holds a h) (held' : Holds b h) :
    AgreeOnHeader a b := by
  have byte {i : Nat} (inside : i < protectedHeaderLen) (same : a.getD i 0 = b.getD i 0) : a[i]? = b[i]? := by
    have left := held.long
    have right := held'.long
    rw [List.getD_eq_getElem a 0 (by omega),List.getD_eq_getElem b 0 (by omega)] at same
    rw [List.getElem?_eq_getElem (by omega),List.getElem?_eq_getElem (by omega),same]
  have window (start n : Nat) {i : Nat} (first : start ≤ i) (last : i < start + n)
      (same : (a.drop start).take n = (b.drop start).take n) : a[i]? = b[i]? := by
    rw [getElem?_window first last,getElem?_window first last,same]
  intro i inside beside
  rw [protectedHeaderLen] at inside
  by_cases magic : i < 4
  · exact window 0 4 (Nat.zero_le i) (by omega) (held.magic.trans held'.magic.symm)
  by_cases version : i = 4
  · rw [version]
    exact byte (by decide) (held.version.trans held'.version.symm)
  by_cases mode : i = 5
  · rw [mode]
    exact byte (by decide) (held.mode.trans held'.mode.symm)
  by_cases prng : i = 6
  · rw [prng]
    exact byte (by decide) (held.prng.trans held'.prng.symm)
  by_cases block : i < 12
  · exact window 8 4 (by omega) (by omega) (held.blockSize.trans held'.blockSize.symm)
  by_cases size : i < 20
  · exact window 12 8 (by omega) (by omega) (held.logicalSize.trans held'.logicalSize.symm)
  · exact window 20 16 (by omega) (by omega) (held.seed.trans held'.seed.symm)

theorem holds_encode (h : SizedHeader) (rest : Bytes) : Holds (h.encode ++ rest) h := by
  have magic : protectedMagic = [70,85,80,82] := by decide +kernel
  have laid : h.encode ++ rest = protectedMagic ++ 1::h.mode.toByte::h.prng.toByte::0::
      (littleEndian 4 h.blockSize.toNat ++ (littleEndian 8 h.logicalSize.toNat ++ (h.seedOrNonce.bytes ++ rest))) := by
    simp only [SizedHeader.encode,ProtectedHeader.encode,SizedHeader.header,protectedMagic,List.append_assoc,
      List.cons_append,List.nil_append]
  have counted := length_header h.header h.seedOrNonce.length_bytes
  have long : protectedHeaderLen ≤ (h.encode ++ rest).length := by
    rw [List.length_append,SizedHeader.encode,counted]
    exact Nat.le_add_right _ _
  refine ⟨long,?_,?_,?_,?_,?_,?_,?_⟩ <;> rw [laid,magic]
  · rfl
  · rfl
  · rfl
  · rfl
  · exact List.take_left' (length_littleEndian 4 _)
  · have dropped : (littleEndian 4 h.blockSize.toNat ++ (littleEndian 8 h.logicalSize.toNat ++
        (h.seedOrNonce.bytes ++ rest))).drop 4 = littleEndian 8 h.logicalSize.toNat ++ (h.seedOrNonce.bytes ++ rest) :=
      List.drop_left' (length_littleEndian 4 _)
    change (List.drop 4 (littleEndian 4 _ ++ _)).take 8 = _
    rw [dropped]
    exact List.take_left' (length_littleEndian 8 _)
  · have dropped : (littleEndian 4 h.blockSize.toNat ++ (littleEndian 8 h.logicalSize.toNat ++
        (h.seedOrNonce.bytes ++ rest))).drop 12 = h.seedOrNonce.bytes ++ rest := by
      rw [← List.append_assoc]
      apply List.drop_left'
      rw [List.length_append,length_littleEndian,length_littleEndian]
    change (List.drop 12 (littleEndian 4 _ ++ _)).take 16 = _
    rw [dropped]
    exact List.take_left' h.seedOrNonce.length_bytes

/-- Accepted bytes are those of the header, whatever stands in the reserved place
and after it. -/
theorem decode_ok_iff_agree {raw : Bytes} {h : SizedHeader} :
    SizedHeader.decode raw = .ok h ↔ protectedHeaderLen ≤ raw.length ∧ AgreeOnHeader raw h.encode := by
  have own : Holds h.encode h := by
    have held := holds_encode h []
    rw [List.append_nil] at held
    exact held
  rw [decode_ok_iff]
  constructor
  · intro held
    exact ⟨held.long,agree_of_holds held own⟩
  · rintro ⟨long,agree⟩
    exact holds_of_agree agree long own

/-! ### The record of texts -/

/-- The hexadecimal form of bytes, with what reads it back. -/
structure HexCodec where
  encode : Bytes → Text
  decode : Text → Except Text Bytes
  decode_encode : ∀ bytes, decode (encode bytes) = .ok bytes

def ProtectedMode.fromStr (raw : Text) : Except Text ProtectedMode :=
  let lowered := Text.toAsciiLowercase (trim raw)
  if lowered = "obfuscate".toList then .ok .obfuscate
  else if lowered = "encrypt".toList then .ok .encrypt
  else .error ("unsupported protected mode: ".toList ++ raw)

def ProtectedPrng.fromStr (raw : Text) : Except Text ProtectedPrng :=
  let lowered := Text.toAsciiLowercase (trim raw)
  if lowered = "xorshift".toList then .ok .xorshift
  else if lowered = "pcg".toList then .ok .pcg
  else .error ("unsupported protected PRNG: ".toList ++ raw)

def ProtectedMode.name : ProtectedMode → Text
  | .obfuscate => "obfuscate".toList
  | .encrypt => "encrypt".toList

def ProtectedPrng.name : ProtectedPrng → Text
  | .xorshift => "xorshift".toList
  | .pcg => "pcg".toList

/-- The metadata record with the texts it is stored as. -/
structure StoredRecord where
  version : UInt8
  mode : Text
  prng : Text
  blockSize : UInt32
  logicalSize : UInt64
  seedOrNonceHex : Text
  integrity : Text
  integrityChunkSize : Option UInt32
  deriving DecidableEq,Repr

def StoredRecord.fromHeader (hex : HexCodec) (h : SizedHeader) : StoredRecord where
  version := 1
  mode := h.mode.name
  prng := h.prng.name
  blockSize := h.blockSize
  logicalSize := h.logicalSize
  seedOrNonceHex := hex.encode h.seedOrNonce.bytes
  integrity := "none".toList
  integrityChunkSize := none

def decodeSeed (hex : HexCodec) (text : Text) : Except Text Nonce :=
  match hex.decode text with
  | .error e => .error ("decode protected seed failed: ".toList ++ e)
  | .ok seed => if size : seed.length = 16 then .ok ⟨seed,size⟩ else .error "invalid protected seed size".toList

def StoredRecord.intoHeader (hex : HexCodec) (r : StoredRecord) : Except Text SizedHeader := do
  let mode ← ProtectedMode.fromStr r.mode
  let prng ← ProtectedPrng.fromStr r.prng
  let seedOrNonce ← decodeSeed hex r.seedOrNonceHex
  pure ⟨mode,prng,r.blockSize,r.logicalSize,seedOrNonce⟩

theorem ProtectedMode.fromStr_name (mode : ProtectedMode) : fromStr mode.name = .ok mode := by
  cases mode <;> decide +kernel

theorem ProtectedPrng.fromStr_name (prng : ProtectedPrng) : fromStr prng.name = .ok prng := by
  cases prng <;> decide +kernel

theorem decodeSeed_encode (hex : HexCodec) (nonce : Nonce) : decodeSeed hex (hex.encode nonce.bytes) = .ok nonce := by
  rw [decodeSeed,hex.decode_encode]
  exact dif_pos nonce.length_bytes

theorem intoHeader_fromHeader (hex : HexCodec) (h : SizedHeader) :
    (StoredRecord.fromHeader hex h).intoHeader hex = .ok h := by
  have mode : ProtectedMode.fromStr (StoredRecord.fromHeader hex h).mode = .ok h.mode :=
    ProtectedMode.fromStr_name h.mode
  have prng : ProtectedPrng.fromStr (StoredRecord.fromHeader hex h).prng = .ok h.prng :=
    ProtectedPrng.fromStr_name h.prng
  have seed : decodeSeed hex (StoredRecord.fromHeader hex h).seedOrNonceHex = .ok h.seedOrNonce :=
    decodeSeed_encode hex h.seedOrNonce
  rw [StoredRecord.intoHeader,mode,prng,seed]
  rfl

/-! ### Hexadecimal digits -/

def hexChar (n : Nat) : Char := Char.ofNat (if n < 10 then 48 + n else 87 + n)

def hexEncode (bytes : Bytes) : Text := bytes.flatMap fun b => [hexChar (b.toNat / 16),hexChar (b.toNat % 16)]

def invalidCharacter (c : Char) (index : Nat) : Text :=
  "Invalid character '".toList ++ [c] ++ "' at position ".toList ++ shown index

def hexDecodeFrom (index : Nat) : Text → Except Text Bytes
  | [] => .ok []
  | [_] => .error "Odd number of digits".toList
  | a::b::rest =>
    (Scoped.hexDigit a).elim (.error (invalidCharacter a index)) fun high =>
      (Scoped.hexDigit b).elim (.error (invalidCharacter b (index + 1))) fun low =>
        (hexDecodeFrom (index + 2) rest).map (UInt8.ofNat (high * 16 + low)::·)

def hexDecode (text : Text) : Except Text Bytes :=
  if text.length % 2 = 1 then .error "Odd number of digits".toList else hexDecodeFrom 0 text

theorem hexDigit_hexChar {n : Nat} (digit : n < 16) : Scoped.hexDigit (hexChar n) = some n := by
  have all : ∀ n < 16, Scoped.hexDigit (hexChar n) = some n := by decide +kernel
  exact all n digit

theorem hexDecodeFrom_encode (bytes : Bytes) (index : Nat) : hexDecodeFrom index (hexEncode bytes) = .ok bytes := by
  induction bytes generalizing index with
  | nil => rfl
  | cons b rest ih =>
    have bound : b.toNat < 256 := b.toNat_lt
    have digits : hexEncode (b::rest) = hexChar (b.toNat / 16)::hexChar (b.toNat % 16)::hexEncode rest := rfl
    have whole : UInt8.ofNat (b.toNat / 16 * 16 + b.toNat % 16) = b := by
      rw [Nat.div_add_mod',UInt8.ofNat_toNat]
    rw [digits,hexDecodeFrom,hexDigit_hexChar (by omega),hexDigit_hexChar (by omega)]
    simp only [Option.elim_some,ih,Except.map,whole]

theorem length_hexEncode (bytes : Bytes) : (hexEncode bytes).length = 2 * bytes.length := by
  induction bytes with
  | nil => rfl
  | cons b rest ih =>
    have digits : hexEncode (b::rest) = hexChar (b.toNat / 16)::hexChar (b.toNat % 16)::hexEncode rest := rfl
    rw [digits,List.length_cons,List.length_cons,List.length_cons,ih]
    omega

def hexCodec : HexCodec where
  encode := hexEncode
  decode := hexDecode
  decode_encode bytes := by
    rw [hexDecode,length_hexEncode,if_neg (by omega),hexDecodeFrom_encode]

/-! ### Both forms -/

/-- Both forms give back the header they were made from, and the bytes that are read
as a header are the bytes it is written as, up to the reserved one. -/
theorem header_codecs_faithful (hex : HexCodec) :
    (∀ (h : SizedHeader) (rest : Bytes), SizedHeader.decode (h.encode ++ rest) = .ok h) ∧
      (∀ h : SizedHeader, (StoredRecord.fromHeader hex h).intoHeader hex = .ok h) ∧
      ∀ (raw : Bytes) (h : SizedHeader), SizedHeader.decode raw = .ok h →
        protectedHeaderLen ≤ raw.length ∧ ∀ i, i < protectedHeaderLen → i ≠ 7 → raw[i]? = h.encode[i]? := by
  refine ⟨?_,intoHeader_fromHeader hex,?_⟩
  · intro h rest
    exact decode_ok_iff.mpr (holds_encode h rest)
  · intro raw h read
    exact decode_ok_iff_agree.mp read

def sampleHeader : SizedHeader := ⟨.encrypt,.pcg,65536,5,⟨List.replicate 16 0xAB,rfl⟩⟩

theorem sample_header_kept : (StoredRecord.fromHeader hexCodec sampleHeader).intoHeader hexCodec = .ok sampleHeader :=
  (header_codecs_faithful hexCodec).2.1 sampleHeader

end StorageHub.Protected
