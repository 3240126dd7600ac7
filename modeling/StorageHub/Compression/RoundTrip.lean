import StorageHub.Compression.ExtractRuns
import StorageHub.Compression.PlainStorage

/-! Compressing a source and unpacking its archive into an empty directory. -/
namespace StorageHub.Compression.Native
open Library LinkTree WriteCache Scoped Mounts Effect

/-- The places and texts of a compression and of the decompression after it. -/
structure Trip where
  src : HostPath
  arch : HostPath
  dst : HostPath
  srcText : Text
  archText : Text
  dstText : Text
  stageDir : HostPath
  packDir : HostPath
  tempDir : HostPath
  opts : CompressionOptions
  deleteSource : Bool

/-- What the source is to come back as. A single file comes back under its own name,
from gzip under that of the archive. -/
def restored (trip : Trip) (t : HostNode) : HostNode :=
  if t.kind = .dir then t
  else if trip.opts.format = .gzip then .dir [(Text.fileStem trip.archText).getD []] fun _ => t
  else .dir [trip.src.getLastD []] fun _ => t

section trips
variable {σ ω : Type}

/-- The compression ends well, and its archive, unpacked into the empty directory then
or later, brings the source back there. -/
def RoundTrips (codecs : Codecs) (config : CompressConfig) (engine : UserEngine σ ω) (calm : Choice ω → Prop)
    (look : σ → View) (trip : Trip) (t : HostNode) (s : σ) (host : HostNode) : Prop :=
  ∃ enough, ∀ fuel, enough ≤ fuel →
    Ends calm (compressTask codecs config engine fuel trip.stageDir trip.packDir trip.srcText trip.archText trip.opts
        trip.deleteSource) (s,host) fun _ after =>
      ∀ s' host', look s' trip.arch = look after.1 trip.arch → Empty (look s') trip.dst → host'.Distinct →
        Fresh host' trip.tempDir → ∀ opts,
          Ends calm (decompressTask codecs config.toFileCompressConfig engine fuel trip.tempDir trip.archText
              trip.dstText opts trip.opts.password) (s',host') fun _ final =>
            ∀ rest, look final.1 (trip.dst ++ rest) = (restored trip t).look rest

variable {codecs : Codecs} {config : CompressConfig} {engine : UserEngine σ ω} {calm : Choice ω → Prop}
  {look : σ → View} {spells : Text → HostPath → Prop} {valid : Text → Prop} {trip : Trip} {t : HostNode}
  {s : σ} {host : HostNode}

/-- What is asked of the way back: the archive is named after its format, and there is
an empty directory that the compression does not touch. -/
structure WayBack (look : σ → View) (spells : Text → HostPath → Prop) (codecs : Codecs) (config : CompressConfig)
    (trip : Trip) (t : HostNode) (s : σ) (host : HostNode) : Prop where
  known : CompressionFormat.fromPath codecs.lower trip.archText = some trip.opts.format
  listed : isExtensionAllowed codecs.lower trip.archText config.decompressionFormats = true
  named : Text.fileName trip.archText ≠ some "output".toList
  fits : fileBytes t ≤ config.maxExtractSizeGb * 1024 * 1024 * 1024
  toText : spells trip.dstText trip.dst
  empty : Empty (look s) trip.dst
  outside : ¬ trip.dst <+: trip.arch
  kept : trip.deleteSource = true → ¬ trip.src <+: trip.dst
  fresh : Fresh host trip.tempDir
  apart : trip.tempDir ≠ trip.stageDir ∧ trip.tempDir ≠ trip.packDir

/-- The formats that are offered: archives for every source, gzip for a file. -/
def Offered (format : CompressionFormat) (t : HostNode) : Prop :=
  format = .zip ∨ format = .tarGz ∨ format = .gzip ∧ t.kind = .file

theorem WayBack.still_empty (back : WayBack look spells codecs config trip t s host) (archive : Bytes) :
    Empty (afterCompression (look s) trip.src trip.arch trip.deleteSource archive) trip.dst := by
  constructor
  · rw [afterCompression,if_neg fun both => back.kept both.1 both.2,Function.update_of_ne,back.empty.here]
    intro same
    exact back.outside (same ▸ List.prefix_rfl)
  · intro rest given
    rw [afterCompression]
    split
    next => rfl
    next =>
      rw [Function.update_of_ne,back.empty.nothing given]
      intro same
      exact back.outside (same ▸ List.prefix_append _ _)

theorem WayBack.still_fresh (back : WayBack look spells codecs config trip t s host)
    (request : Request look spells config t s host trip.src trip.arch trip.stageDir trip.packDir trip.srcText
      trip.archText) {host' : HostNode}
    (same : ∀ path, ¬ trip.stageDir <+: path → ¬ trip.packDir <+: path → host'.look path = host.look path) :
    Fresh host' trip.tempDir := by
  have outside : ¬ trip.stageDir <+: trip.tempDir :=
    fun within => back.apart.1 (request.staging.same back.fresh within).symm
  have outside' : ¬ trip.packDir <+: trip.tempDir :=
    fun within => back.apart.2 (request.packing.same back.fresh within).symm
  constructor
  · rw [same _ outside outside',back.fresh.nothing]
  · intro above before differ
    rw [same above (fun within => outside (within.trans before)) fun within => outside' (within.trans before)]
    exact back.fresh.rooted above before differ

theorem file_of_single (unlinked : ∀ path text, t.look path ≠ some (.link text)) (other : t.kind ≠ .dir) :
    ∃ data, t = .file data := by
  cases t with
  | file data => exact ⟨data,rfl⟩
  | link text => exact absurd Node.look_nil (unlinked [] text)
  | dir names child => exact absurd rfl other

theorem suited_of_offered {format : CompressionFormat} (offered : Offered format t)
    (single : ¬(t.kind ≠ .dir ∧ format ≠ .gzip)) : Suited format t := by
  rcases offered with zip | tarGz | gzip
  · refine .inl ⟨.inl zip,?_⟩
    by_contra other
    exact single ⟨other,by rw [zip]; decide⟩
  · refine .inl ⟨.inr tarGz,?_⟩
    by_contra other
    exact single ⟨other,by rw [tarGz]; decide⟩
  · exact .inr gzip

theorem restored_broughtBack (suited : Suited trip.opts.format t) :
    broughtBack trip.opts.format ((Text.fileStem trip.archText).getD []) t = restored trip t := by
  rw [broughtBack,restored]
  rcases suited with ⟨archives,dir⟩ | ⟨gzip,file⟩
  · have other : trip.opts.format ≠ .gzip := by
      rintro gzip
      rw [gzip] at archives
      simp at archives
    rw [if_neg other,if_pos dir]
  · have other : t.kind ≠ .dir := by
      rw [file]
      exact fun impossible => by cases impossible
    rw [if_pos gzip,if_neg other,if_pos gzip]

end trips

/-! ### A trip -/

def sampleTrip : Trip where
  src := ["d".toList]
  arch := ["d.zip".toList]
  dst := ["o".toList]
  srcText := "/d".toList
  archText := "/d.zip".toList
  dstText := "/o".toList
  stageDir := ["s".toList]
  packDir := ["p".toList]
  tempDir := ["t".toList]
  opts := ⟨.zip,none,6⟩
  deleteSource := true

def sampleConfig : CompressConfig where
  decompressionFormats := ["zip".toList]
  maxDecompressArchiveSizeMb := 1
  maxExtractSizeGb := 1
  enabled := true
  maxCompressItems := 10
  maxCompressTotalSizeMb := 1

theorem sample_request {source : HostNode} {s : PlainTree} (stored : s.tree = shelf source) (distinct : source.Distinct)
    (allowed : Allowed sampleConfig source) :
    Request (fun s : PlainTree => s.tree.look) leadsTo sampleConfig source s bareHost sampleTrip.src sampleTrip.arch
      sampleTrip.stageDir sampleTrip.packDir sampleTrip.srcText sampleTrip.archText where
  allowed := allowed
  distinct := distinct
  source := by
    intro rest
    rw [stored]
    exact look_shelf source rest
  fromText := ⟨by decide,by decide⟩
  toText := ⟨by decide,by decide⟩
  parent := by rw [stored]; rfl
  free := by rw [stored]; exact fun impossible => by cases impossible
  whole := ⟨List.nodup_nil,fun _ member => by cases member⟩
  staging := bareHost_fresh _
  packing := bareHost_fresh _
  apart := by decide

theorem sample_back {source : HostNode} {s : PlainTree} (stored : s.tree = shelf source)
    (fits : fileBytes source ≤ 1 * 1024 * 1024 * 1024) :
    WayBack (fun s : PlainTree => s.tree.look) leadsTo flatCodecs sampleConfig sampleTrip source s bareHost where
  known := by decide
  listed := by decide
  named := by decide
  fits := fits
  toText := ⟨by decide,by decide⟩
  empty := by
    rw [stored]
    constructor
    · rfl
    · intro rest given
      by_contra there
      obtain ⟨shape,seen⟩ := Option.ne_none_iff_exists'.mp there
      rcases shelf_cases seen with ⟨same,-⟩ | ⟨same,-⟩ | ⟨later,same,-⟩
      · cases same
      · exact given (List.append_right_eq_self.mp same)
      · exact absurd (List.cons.inj same).1 (by decide)
  outside := by decide
  kept := by decide
  fresh := bareHost_fresh _
  apart := by decide

/-! ### There and back -/

section trips
variable {σ ω : Type} {codecs : Codecs} {config : CompressConfig} {engine : UserEngine σ ω} {calm : Choice ω → Prop}
  {look : σ → View} {spells : Text → HostPath → Prop} {valid : Text → Prop} {trip : Trip} {t : HostNode}
  {s : σ} {host : HostNode}

end trips

end StorageHub.Compression.Native
