import Mathlib.Data.List.Sort
import StorageHub.Batch.Targets
import StorageHub.Library.Store
import StorageHub.WriteCache.Policy

/-! The batch that compresses the videos of a selection one after the other:
where each result goes, and what the storage has of it at the end. -/
namespace StorageHub.Video
open Library Batch WriteCache

/-! ### Options and names -/

structure VideoCompressionOptions where
  includeSubdirectories : Bool
  outputContainer : Text
  outputSuffix : Option Text
  deleteSource : Bool
  overwriteExisting : Bool

namespace VideoCompressionOptions
variable (options : VideoCompressionOptions)

def normalizedContainer : Text :=
  if Text.toAsciiLowercase (trim options.outputContainer) = "mkv".toList then "mkv".toList else "mp4".toList

def normalizedSuffix : Text :=
  ((options.outputSuffix.map trim).filter fun value => !value.isEmpty).getD "_compressed".toList

/-- The part of `validate` about the suffix. -/
def valid : Bool := options.normalizedSuffix.all fun c => c != '/' && c != '\\'

end VideoCompressionOptions

def normalizeLogicalPath (path : Text) : Text := if Text.startsWith ['/'] path then path else '/'::path

def fileStemFromPath (path : Text) : Text :=
  (Text.fileStem (fileNameFromPath path)).getD (fileNameFromPath path)

def pathParent (path : Text) : Text := ((Text.rsplitOnce '/' path).map (·.1)).getD []

def isGeneratedOutput (path outputSuffix : Text) : Bool := Text.endsWith outputSuffix (fileStemFromPath path)

def videoExtensions : List Text :=
  ["mp4","mov","mkv","avi","webm","m4v","mpg","mpeg","wmv","flv","ts","m2ts"].map String.toList

def isVideoFilePath (path : Text) : Bool :=
  videoExtensions.contains (Text.toAsciiLowercase ((Text.extension path).getD []))

/-- A source without a stem is refused. -/
def buildOutputPath (sourcePath : Text) (options : VideoCompressionOptions) : Option Text :=
  if fileStemFromPath sourcePath = [] then none
  else some (pathParent sourcePath ++ '/'::(fileStemFromPath sourcePath ++ options.normalizedSuffix ++
    '.'::options.normalizedContainer))

/-- `taken` tells which paths the storage has. -/
def resolveOutputPath (taken : Text → Bool) (sourcePath : Text) (options : VideoCompressionOptions) : Option Text :=
  (buildOutputPath sourcePath options).bind fun outputPath =>
    if outputPath = sourcePath then none
    else if options.overwriteExisting then some outputPath
    else some (getUniquePath taken outputPath)

/-! ### The storage -/

/-- What a file holds, told by where it comes from. -/
inductive Footage
  | original (path : Text)
  | encoding (input : Footage)
  deriving DecidableEq,Repr

/-- The listings give files that are there, directories marked. -/
structure VideoStorage where
  files : Store Text Footage
  untouched : ∀ path video, files.lookup path = some video → video = .original path
  isDir : Text → Bool
  list : Text → List (Text × Bool)
  listRecursive : Text → List (Text × Bool)
  listed : ∀ dir, ∀ entry ∈ list dir ++ listRecursive dir, entry.2 = false → (files.lookup entry.1).isSome = true

/-! ### The task -/

section
variable (storage : VideoStorage) (options : VideoCompressionOptions)

def wanted (path : Text) : Bool := isVideoFilePath path && !isGeneratedOutput path options.normalizedSuffix

/-- The sources one input path stands for, or nothing when it does not exist. -/
def collectFrom (path : Text) : Option (List Text) :=
  let logical := normalizeLogicalPath path
  if (storage.files.lookup logical).isSome then some (if wanted options logical then [logical] else [])
  else if storage.isDir logical then
    let entries := if options.includeSubdirectories then storage.listRecursive logical else storage.list logical
    some ((entries.filter fun entry => !entry.2 && wanted options entry.1).map (·.1))
  else none

/-- In order and each once. -/
def collectVideoFilePaths (inputPaths : List Text) : Option (List Text) :=
  (inputPaths.mapM (collectFrom storage options)).map fun found =>
    (found.flatten.insertionSort fun a b => a ≤ b).dedup

def taken (files : Store Text Footage) (path : Text) : Bool := (files.lookup path).isSome || storage.isDir path

/-- `refuses` tells which deletions fail; the task goes on all the same. -/
def discardSource (refuses : Text → Bool) (source : Text) (files : Store Text Footage) : Store Text Footage :=
  if options.deleteSource && !refuses source then files.erase source else files

/-- A turn that does not succeed gives nothing. -/
def compressOne (refuses : Text → Bool) (source : Text) (files : Store Text Footage) :
    Option (Text × Store Text Footage) :=
  (resolveOutputPath (taken storage files) source options).bind fun output =>
    (files.lookup source).bind fun input =>
      if options.valid && !storage.isDir output then
        some (output,discardSource options refuses source (files.insert output (.encoding input)))
      else none

/-- The sources with their outputs, and the files at the end, when every turn
succeeds. -/
def compressAll (refuses : Text → Bool) : List Text → Store Text Footage →
    Option (List (Text × Text) × Store Text Footage)
  | [], files => some ([],files)
  | source::rest, files =>
    (compressOne storage options refuses source files).bind fun turn =>
      (compressAll refuses rest turn.2).map fun done => ((source,turn.1)::done.1,done.2)

/-- `execute_batch_video_compress` with all encodes succeeding. -/
def executeBatchVideoCompress (refuses : Text → Bool) (inputPaths : List Text) :
    Option (List (Text × Text) × Store Text Footage) :=
  (collectVideoFilePaths storage options inputPaths).bind fun sources =>
    if sources.isEmpty then none else compressAll storage options refuses sources storage.files

end

/-- Every source has an output of its own at the end. -/
structure OwnOutputs (turns : List (Text × Text)) (files : Store Text Footage) : Prop where
  apart : (turns.map (·.2)).Nodup
  encoded : ∀ turn ∈ turns, files.lookup turn.2 = some (.encoding (.original turn.1))
  kept : ∀ turn ∈ turns, files.lookup turn.1 = none → (files.lookup turn.2).isSome = true

/-! ### When they have -/

section
variable (storage : VideoStorage) (options : VideoCompressionOptions)

/-- The name of an output and every numbered variant that is tried are taken. -/
def AllTaken (files : Store Text Footage) (output : Text) : Prop :=
  taken storage files output = true ∧
    ∀ i, 1 ≤ i → i ≤ 100 → taken storage files (numberedName output i) = true

/-- The turn of a source does no harm: with leave to overwrite no earlier source
has its directory and stem, otherwise the hundredth variant, if it comes to
that, holds no encoding and is no source to come. -/
def TurnClear (earlier : List Text) (files : Store Text Footage) (source : Text) (coming : List Text) : Prop :=
  if options.overwriteExisting then
    ∀ other ∈ earlier, buildOutputPath other options ≠ buildOutputPath source options
  else ∀ output, buildOutputPath source options = some output → AllTaken storage files output →
    (∀ video, files.lookup (numberedName output 100) ≠ some (.encoding video)) ∧
      numberedName output 100 ∉ coming

def TurnsClear (refuses : Text → Bool) : List Text → List Text → Store Text Footage → Prop
  | _, [], _ => True
  | earlier, source::rest, files =>
    TurnClear storage options earlier files source rest ∧
      (compressOne storage options refuses source files).elim True fun turn =>
        TurnsClear refuses (earlier ++ [source]) rest turn.2

end

/-! ### Names of outputs -/

section
variable {options : VideoCompressionOptions} {source output : Text}

theorem container_plain (options : VideoCompressionOptions) :
    options.normalizedContainer ≠ [] ∧ '.' ∉ options.normalizedContainer ∧ '/' ∉ options.normalizedContainer := by
  unfold VideoCompressionOptions.normalizedContainer
  split
  · decide
  · decide

theorem suffix_filled (options : VideoCompressionOptions) : options.normalizedSuffix ≠ [] := by
  unfold VideoCompressionOptions.normalizedSuffix
  cases given : (options.outputSuffix.map trim).filter fun value => !value.isEmpty with
  | none => decide
  | some value =>
    have kept := (Option.filter_eq_some_iff.mp given).2
    intro empty
    rw [Option.getD_some] at empty
    rw [empty] at kept
    cases kept

theorem afterLast_slashless (path : Text) : '/' ∉ Text.afterLast '/' path := by
  intro slash
  have other := List.mem_rtakeWhile_imp slash
  simp at other

theorem stem_slashless (path : Text) : '/' ∉ fileStemFromPath path := by
  have plain := afterLast_slashless path
  rw [fileStemFromPath,fileNameFromPath]
  cases stem : Text.fileStem (Text.afterLast '/' path) with
  | none => exact plain
  | some part => exact fun slash => plain ((Text.fileStem_bare plain stem).subset slash)

theorem suffix_slashless (valid : options.valid = true) : '/' ∉ options.normalizedSuffix := by
  intro slash
  have plain := List.all_eq_true.mp valid '/' slash
  cases plain

/-- What an output is called, and what its parts are. -/
theorem buildOutputPath_some (built : buildOutputPath source options = some output) :
    fileStemFromPath source ≠ [] ∧ output = pathParent source ++
      '/'::(fileStemFromPath source ++ options.normalizedSuffix ++ '.'::options.normalizedContainer) := by
  rw [buildOutputPath] at built
  split at built
  next => cases built
  next given => exact ⟨given,(Option.some.inj built).symm⟩

theorem name_slashless (valid : options.valid = true) (path more : Text) (plain : '/' ∉ more) :
    '/' ∉ fileStemFromPath path ++ options.normalizedSuffix ++ more ++ '.'::options.normalizedContainer := by
  simp only [List.mem_append,List.mem_cons,not_or]
  exact ⟨⟨⟨stem_slashless path,suffix_slashless valid⟩,plain⟩,by decide,(container_plain options).2.2⟩

theorem afterLast_named {name : Text} (dir : Text) (plain : '/' ∉ name) : fileNameFromPath (dir ++ '/'::name) = name := by
  rw [fileNameFromPath,Text.afterLast_append dir List.mem_cons_self,Text.afterLast,List.rtakeWhile,
    List.reverse_cons,List.takeWhile_append_of_pos]
  · simp
  · intro c member
    rw [List.mem_reverse] at member
    simp only [bne_iff_ne,ne_eq]
    intro same
    exact plain (same ▸ member)

/-- The stem of a name in a directory, as a task takes it. -/
theorem fileStemFromPath_named {base ext : Text} (given : base ≠ []) (slashless : '/' ∉ base ++ '.'::ext)
    (plain : '.' ∉ ext) (ended : ext ≠ []) (dir : Text) :
    fileStemFromPath (dir ++ '/'::(base ++ '.'::ext)) = base := by
  rw [fileStemFromPath,afterLast_named dir slashless,
    (Text.named_parts given slashless plain ended (.inl rfl)).1,Option.getD_some]

/-- An output is recognised by its suffix. -/
theorem output_generated (valid : options.valid = true) (built : buildOutputPath source options = some output) :
    isGeneratedOutput output options.normalizedSuffix = true := by
  obtain ⟨given,rfl⟩ := buildOutputPath_some built
  obtain ⟨ended,plain,-⟩ := container_plain options
  have slashless := name_slashless valid source [] List.not_mem_nil
  rw [List.append_nil] at slashless
  have filled : fileStemFromPath source ++ options.normalizedSuffix ≠ [] := List.append_ne_nil_of_left_ne_nil given _
  rw [isGeneratedOutput,fileStemFromPath_named filled slashless plain ended,Text.endsWith,List.isSuffixOf_iff_suffix]
  exact List.suffix_append _ _

/-- A numbered variant is never its own source: its stem is longer. -/
theorem numbered_ne_source (valid : options.valid = true) (built : buildOutputPath source options = some output)
    (i : Nat) : numberedName output i ≠ source := by
  obtain ⟨given,placed⟩ := buildOutputPath_some built
  obtain ⟨ended,plain,-⟩ := container_plain options
  have slashless := name_slashless valid source [] List.not_mem_nil
  rw [List.append_nil] at slashless
  have filled : fileStemFromPath source ++ options.normalizedSuffix ≠ [] := List.append_ne_nil_of_left_ne_nil given _
  obtain ⟨stem,ext⟩ := Text.named_parts filled slashless plain ended (.inr ⟨_,placed⟩)
  have digits : '/' ∉ '_'::shown i := by
    intro slash
    rcases List.mem_cons.mp slash with mark | digit
    · cases mark
    · rw [shown,Nat.toString_eq_repr,Nat.toList_repr] at digit
      exact absurd (Nat.isDigit_of_mem_toDigits (by decide) (by decide) digit) (by decide)
  have longer : '/' ∉ (fileStemFromPath source ++ options.normalizedSuffix ++ '_'::shown i) ++
      '.'::options.normalizedContainer := name_slashless valid source ('_'::shown i) digits
  have named : numberedName output i = Text.trimEnd '/' ((Text.parent output).getD ['/']) ++
      '/'::((fileStemFromPath source ++ options.normalizedSuffix ++ '_'::shown i) ++ '.'::options.normalizedContainer) := by
    rw [numberedName,stem,ext,Option.getD_some,Option.elim_some]
    simp
  intro same
  have own := fileStemFromPath_named (List.append_ne_nil_of_left_ne_nil filled ('_'::shown i)) longer plain ended
    (Text.trimEnd '/' ((Text.parent output).getD ['/']))
  rw [← named,same] at own
  have lengths := congrArg List.length own
  simp only [List.length_append,List.length_cons] at lengths
  omega

end

theorem getUniquePath_last {exists_ : Text → Bool} {path : Text} (here : exists_ path = true)
    (all : ∀ i, 1 ≤ i → i ≤ 100 → exists_ (numberedName path i) = true) :
    getUniquePath exists_ path = numberedName path 100 := by
  have probed (fuel counter : Nat) (lower : 1 ≤ counter) (upper : counter ≤ 100) (enough : 100 < counter + fuel)
      (current : Text) (taken : exists_ current = true) :
      probeNames exists_ path fuel counter current = numberedName path 100 := by
    induction fuel generalizing counter current with
    | zero => omega
    | succ fuel ih =>
      rw [probeNames,if_pos taken]
      by_cases last : 100 < counter + 1
      · have same : counter = 100 := by omega
        rw [if_pos last,same]
      · rw [if_neg last]
        exact ih (counter + 1) (by omega) (by omega) (by omega) _ (all counter lower upper)
  rw [getUniquePath,if_pos here]
  exact probed 101 1 (by decide) (by decide) (by decide) path here

/-! ### One turn -/

section
variable {storage : VideoStorage} {options : VideoCompressionOptions} {refuses : Text → Bool}
  {files files' : Store Text Footage} {source output : Text} {earlier : List (Text × Text)} {coming : List Text}

/-- What a turn that succeeds does. -/
theorem compressOne_some (turned : compressOne storage options refuses source files = some (output,files')) :
    ∃ input, resolveOutputPath (taken storage files) source options = some output ∧
      files.lookup source = some input ∧ options.valid = true ∧
      files' = discardSource options refuses source (files.insert output (.encoding input)) := by
  obtain ⟨path,resolved,turned⟩ := Option.bind_eq_some_iff.mp turned
  obtain ⟨input,read,turned⟩ := Option.bind_eq_some_iff.mp turned
  split at turned
  next ready =>
    obtain ⟨rfl,rfl⟩ := Prod.mk.inj (Option.some.inj turned)
    rw [Bool.and_eq_true] at ready
    exact ⟨input,resolved,read,ready.1,rfl⟩
  next => cases turned

theorem discardSource_lookup (source : Text) (files : Store Text Footage) {path : Text} (other : path ≠ source) :
    (discardSource options refuses source files).lookup path = files.lookup path := by
  rw [discardSource]
  split
  next => rw [Store.lookup_erase_eq,if_neg other]
  next => rfl

/-- A file is what it was, or it is the output, or it is gone. -/
theorem turn_lookup (turned : compressOne storage options refuses source files = some (output,files')) (path : Text) :
    files'.lookup path = none ∨ path ≠ output ∧ files'.lookup path = files.lookup path ∨
      path = output ∧ ∃ input, files'.lookup path = some (.encoding input) := by
  obtain ⟨input,-,-,-,rfl⟩ := compressOne_some turned
  by_cases gone : path = source
  · rw [discardSource]
    split
    next => exact .inl (by rw [Store.lookup_erase_eq,if_pos gone])
    next =>
      rw [Store.lookup_insert_eq]
      split
      next same => exact .inr (.inr ⟨same,input,rfl⟩)
      next other => exact .inr (.inl ⟨other,rfl⟩)
  · rw [discardSource_lookup source _ gone,Store.lookup_insert_eq]
    split
    next same => exact .inr (.inr ⟨same,input,rfl⟩)
    next other => exact .inr (.inl ⟨other,rfl⟩)

/-- What holds between two turns, as long as every turn was clear. -/
structure Between (storage : VideoStorage) (options : VideoCompressionOptions) (earlier : List (Text × Text))
    (coming : List Text) (files : Store Text Footage) : Prop where
  own : OwnOutputs earlier files
  built : options.overwriteExisting = true → ∀ turn ∈ earlier, buildOutputPath turn.1 options = some turn.2
  encodings : ∀ path video, files.lookup path = some (.encoding video) → path ∈ earlier.map (·.2)
  waiting : ∀ source ∈ coming, files.lookup source = some (.original source)
  wanted : ∀ source ∈ coming, isGeneratedOutput source options.normalizedSuffix = false
  outside : ∀ turn ∈ earlier, turn.2 ∉ coming
  distinct : coming.Nodup

theorem Between.present (between : Between storage options earlier coming files) :
    (∀ path ∈ earlier.map (·.2), taken storage files path = true) ∧ ∀ path ∈ coming, taken storage files path = true := by
  constructor
  · intro path member
    obtain ⟨turn,inside,rfl⟩ := List.mem_map.mp member
    rw [taken,between.own.encoded turn inside]
    rfl
  · intro path member
    rw [taken,between.waiting path member]
    rfl

/-- A clear turn is one whose output is new among the outputs and no source to
come. It is never the source itself. -/
theorem turn_iff (between : Between storage options earlier (source::coming) files) (valid : options.valid = true)
    (resolved : resolveOutputPath (taken storage files) source options = some output) :
    output ≠ source ∧ (TurnClear storage options (earlier.map (·.1)) files source coming ↔
      output ∉ earlier.map (·.2) ∧ output ∉ coming) := by
  obtain ⟨path,built,chosen⟩ := Option.bind_eq_some_iff.mp resolved
  split at chosen
  next => cases chosen
  next other =>
    rw [TurnClear]
    cases overwrite : options.overwriteExisting with
    | true =>
      rw [overwrite,if_pos rfl] at chosen
      cases chosen
      refine ⟨other,?_⟩
      have apart : output ∉ coming := by
        intro member
        have wanted := between.wanted output (List.mem_cons_of_mem _ member)
        rw [output_generated valid built] at wanted
        cases wanted
      rw [if_pos rfl,built]
      constructor
      · intro clear
        refine ⟨?_,apart⟩
        intro member
        obtain ⟨turn,inside,same⟩ := List.mem_map.mp member
        apply clear turn.1 (List.mem_map_of_mem inside)
        rw [between.built overwrite turn inside,same]
      · intro fresh first member same
        obtain ⟨turn,inside,rfl⟩ := List.mem_map.mp member
        rw [between.built overwrite turn inside] at same
        apply fresh.1
        rw [← Option.some.inj same]
        exact List.mem_map_of_mem inside
    | false =>
      rw [overwrite,if_neg Bool.false_ne_true] at chosen
      have chosen := Option.some.inj chosen
      rw [if_neg Bool.false_ne_true]
      by_cases all : AllTaken storage files path
      · have last := getUniquePath_last all.1 all.2
        rw [last] at chosen
        rw [← chosen]
        refine ⟨numbered_ne_source valid built 100,?_⟩
        constructor
        · intro clear
          obtain ⟨plain,away⟩ := clear path built all
          refine ⟨fun member => ?_,away⟩
          obtain ⟨turn,inside,same⟩ := List.mem_map.mp member
          have encoded := between.own.encoded turn inside
          rw [same] at encoded
          exact plain _ encoded
        · intro fresh path' built' _
          rw [built] at built'
          cases built'
          exact ⟨fun video encoded => fresh.1 (between.encodings _ video encoded),fresh.2⟩
      · have free : taken storage files output = false := by
          rw [← chosen,getUniquePath_free_iff]
          by_contra none_
          rw [not_or] at none_
          apply all
          refine ⟨by simpa using none_.1,fun i lower upper => ?_⟩
          by_contra free
          exact none_.2 ⟨i,lower,upper,by simpa using free⟩
        obtain ⟨outputs,sources⟩ := between.present
        have absent {path : Text} (present : taken storage files path = true) : output ≠ path := by
          intro same
          rw [← same,free] at present
          cases present
        refine ⟨absent (sources source List.mem_cons_self),?_⟩
        constructor
        · intro _
          exact ⟨fun member => absent (outputs output member) rfl,
            fun member => absent (sources output (List.mem_cons_of_mem _ member)) rfl⟩
        · intro _ path' built' all'
          rw [built] at built'
          cases built'
          exact absurd all' all

/-- After a clear turn things stand as before, with one more output. -/
theorem Between.next (between : Between storage options earlier (source::coming) files)
    (turned : compressOne storage options refuses source files = some (output,files'))
    (fresh : output ∉ earlier.map (·.2) ∧ output ∉ coming) (other : output ≠ source) :
    Between storage options (earlier ++ [(source,output)]) coming files' := by
  obtain ⟨input,resolved,read,valid,rfl⟩ := compressOne_some turned
  obtain ⟨away,distinct⟩ := List.nodup_cons.mp between.distinct
  rw [between.waiting source List.mem_cons_self] at read
  cases read
  have kept {path : Text} (apart : path ≠ source) (path' : path ≠ output) :
      (discardSource options refuses source (files.insert output (.encoding (.original source)))).lookup path =
        files.lookup path := by
    rw [discardSource_lookup source _ apart,Store.lookup_insert_eq,if_neg path']
  have encoded : ∀ turn ∈ earlier ++ [(source,output)],
      (discardSource options refuses source (files.insert output (.encoding (.original source)))).lookup turn.2 =
        some (.encoding (.original turn.1)) := by
    intro turn member
    rw [List.mem_append,List.mem_singleton] at member
    rcases member with before | rfl
    · have apart : turn.2 ≠ source := fun same =>
        between.outside turn before (by rw [same]; exact List.mem_cons_self)
      have path' : turn.2 ≠ output := fun same => fresh.1 (by rw [← same]; exact List.mem_map_of_mem before)
      rw [kept apart path']
      exact between.own.encoded turn before
    · rw [discardSource_lookup source _ other,Store.lookup_insert_eq,if_pos rfl]
  refine ⟨⟨?_,encoded,?_⟩,?_,?_,?_,?_,?_,distinct⟩
  · rw [List.map_append,List.nodup_append]
    refine ⟨between.own.apart,List.nodup_singleton _,?_⟩
    intro path member path' member' same
    rw [List.map_singleton,List.mem_singleton] at member'
    rw [same,member'] at member
    exact fresh.1 member
  · intro turn member _
    rw [encoded turn member]
    rfl
  · intro overwrite turn member
    rw [List.mem_append,List.mem_singleton] at member
    rcases member with before | rfl
    · exact between.built overwrite turn before
    · obtain ⟨path,built,chosen⟩ := Option.bind_eq_some_iff.mp resolved
      split at chosen
      next => cases chosen
      next =>
        rw [built]
        exact chosen
  · intro path video found
    rw [List.map_append,List.mem_append,List.map_singleton,List.mem_singleton]
    by_cases here : path = output
    · exact .inr here
    · have same : files.lookup path = some (.encoding video) := by
        rw [discardSource] at found
        split at found
        next =>
          rw [Store.lookup_erase_eq] at found
          split at found
          next => cases found
          next => rwa [Store.lookup_insert_eq,if_neg here] at found
        next => rwa [Store.lookup_insert_eq,if_neg here] at found
      exact .inl (between.encodings path video same)
  · intro path member
    have apart : path ≠ source := fun same => away (same ▸ member)
    have path' : path ≠ output := fun same => fresh.2 (same ▸ member)
    rw [kept apart path']
    exact between.waiting path (List.mem_cons_of_mem _ member)
  · exact fun path member => between.wanted path (List.mem_cons_of_mem _ member)
  · intro turn member inside
    rw [List.mem_append,List.mem_singleton] at member
    rcases member with before | rfl
    · exact between.outside turn before (List.mem_cons_of_mem _ inside)
    · exact fresh.2 inside

/-! ### All turns -/

variable {turns : List (Text × Text)} {final : Store Text Footage}

theorem compressAll_cons {rest : List Text}
    (ran : compressAll storage options refuses (source::rest) files = some (turns,final)) :
    ∃ output middle later, compressOne storage options refuses source files = some (output,middle) ∧
      compressAll storage options refuses rest middle = some (later,final) ∧ turns = (source,output)::later := by
  obtain ⟨turn,turned,onward⟩ := Option.bind_eq_some_iff.mp ran
  obtain ⟨done,through,same⟩ := Option.map_eq_some_iff.mp onward
  obtain ⟨rfl,rfl⟩ := Prod.mk.inj same
  exact ⟨turn.1,turn.2,done.1,turned,through,rfl⟩

/-- What no later turn puts out is left alone or deleted. -/
theorem compressAll_lookup {rest : List Text}
    (ran : compressAll storage options refuses rest files = some (turns,final)) {path : Text}
    (absent : path ∉ turns.map (·.2)) : final.lookup path = files.lookup path ∨ final.lookup path = none := by
  induction rest generalizing files turns with
  | nil =>
    cases ran
    exact .inl rfl
  | cons source rest ih =>
    obtain ⟨output,middle,later,turned,onward,rfl⟩ := compressAll_cons ran
    rw [List.map_cons,List.mem_cons,not_or] at absent
    rcases ih onward absent.2 with same | gone
    · rcases turn_lookup turned path with none_ | ⟨-,kept⟩ | ⟨here,-⟩
      · exact .inr (same.trans none_)
      · exact .inl (same.trans kept)
      · exact absurd here absent.1
    · exact .inr gone

/-- A source that has been replaced before its turn has no output of its own. -/
theorem spoiled {rest : List Text} (ran : compressAll storage options refuses rest files = some (turns,final))
    (member : source ∈ rest) (replaced : ∀ path, files.lookup source ≠ some (.original path))
    (apart : (turns.map (·.2)).Nodup) :
    ∃ turn ∈ turns, final.lookup turn.2 ≠ some (.encoding (.original turn.1)) := by
  induction rest generalizing files turns with
  | nil => exact absurd member List.not_mem_nil
  | cons first rest ih =>
    obtain ⟨output,middle,later,turned,onward,rfl⟩ := compressAll_cons ran
    rw [List.map_cons,List.nodup_cons] at apart
    by_cases here : source = first
    · refine ⟨(first,output),List.mem_cons_self,?_⟩
      obtain ⟨input,-,read,-,rfl⟩ := compressOne_some turned
      rw [here] at replaced
      have wrong : (discardSource options refuses first (files.insert output (.encoding input))).lookup output ≠
          some (.encoding (.original first)) := by
        by_cases own : output = first
        · rw [discardSource]
          split
          next =>
            rw [Store.lookup_erase_eq,if_pos own]
            exact fun same => by cases same
          next =>
            rw [Store.lookup_insert_eq,if_pos rfl]
            intro same
            cases same
            exact replaced first read
        · rw [discardSource_lookup first _ own,Store.lookup_insert_eq,if_pos rfl]
          intro same
          cases same
          exact replaced first read
      rcases compressAll_lookup onward apart.1 with same | gone
      · rw [same]
        exact wrong
      · rw [gone]
        exact fun same => by cases same
    · have inside : source ∈ rest := (List.mem_cons.mp member).resolve_left here
      have replaced' : ∀ path, middle.lookup source ≠ some (.original path) := by
        intro path
        rcases turn_lookup turned source with gone | ⟨-,kept⟩ | ⟨-,input,encoded⟩
        · rw [gone]
          exact fun same => by cases same
        · rw [kept]
          exact replaced path
        · rw [encoded]
          exact fun same => by cases same
      obtain ⟨turn,inTurns,wrong⟩ := ih onward inside replaced' apart.2
      exact ⟨turn,List.mem_cons_of_mem _ inTurns,wrong⟩

theorem compressAll_iff {rest : List Text} (between : Between storage options earlier rest files)
    (ran : compressAll storage options refuses rest files = some (turns,final)) :
    OwnOutputs (earlier ++ turns) final ↔
      TurnsClear storage options refuses (earlier.map (·.1)) rest files := by
  induction rest generalizing earlier files turns with
  | nil =>
    cases ran
    rw [List.append_nil]
    exact ⟨fun _ => trivial,fun _ => between.own⟩
  | cons source rest ih =>
    obtain ⟨output,middle,later,turned,onward,rfl⟩ := compressAll_cons ran
    obtain ⟨input,resolved,read,valid,-⟩ := compressOne_some turned
    obtain ⟨other,clear⟩ := turn_iff between valid resolved
    have split : earlier ++ (source,output)::later = earlier ++ [(source,output)] ++ later := by simp
    have sources : earlier.map (·.1) ++ [source] = (earlier ++ [(source,output)]).map (·.1) := by
      rw [List.map_append,List.map_singleton]
    rw [TurnsClear,turned,Option.elim_some,clear,sources]
    constructor
    · intro own
      have apart := own.apart
      rw [List.map_append,List.map_cons,List.nodup_append] at apart
      obtain ⟨-,apart,across⟩ := apart
      have fresh : output ∉ earlier.map (·.2) ∧ output ∉ rest := by
        refine ⟨fun member => across output member output List.mem_cons_self rfl,fun member => ?_⟩
        have replaced : ∀ path, middle.lookup output ≠ some (.original path) := by
          intro path
          rcases turn_lookup turned output with gone | ⟨different,-⟩ | ⟨-,input,encoded⟩
          · rw [gone]
            exact fun same => by cases same
          · exact absurd rfl different
          · rw [encoded]
            exact fun same => by cases same
        obtain ⟨turn,inTurns,wrong⟩ := spoiled onward member replaced (List.nodup_cons.mp apart).2
        exact wrong (own.encoded turn (List.mem_append_right _ (List.mem_cons_of_mem _ inTurns)))
      refine ⟨fresh,(ih (between.next turned fresh other) onward).mp ?_⟩
      rw [← split]
      exact own
    · intro all
      rw [split]
      exact (ih (between.next turned all.1 other) onward).mpr all.2

/-! ### The task -/

theorem wanted_collected {path : Text} {found : List Text} (collected : collectFrom storage options path = some found)
    (source : Text) (member : source ∈ found) :
    (storage.files.lookup source).isSome = true ∧ wanted options source = true := by
  rw [collectFrom] at collected
  dsimp only at collected
  split at collected
  next present =>
    cases Option.some.inj collected
    split at member
    next good =>
      rw [List.mem_singleton.mp member]
      exact ⟨present,good⟩
    next => exact absurd member List.not_mem_nil
  next =>
    split at collected
    next =>
      cases Option.some.inj collected
      obtain ⟨entry,inside,rfl⟩ := List.mem_map.mp member
      obtain ⟨inside,good⟩ := List.mem_filter.mp inside
      rw [Bool.and_eq_true,Bool.not_eq_true'] at good
      refine ⟨storage.listed (normalizeLogicalPath path) entry ?_ good.1,good.2⟩
      rw [List.mem_append]
      split at inside
      next => exact .inr inside
      next => exact .inl inside
    next => cases collected

theorem mapM_member {α β : Type} {f : α → Option β} {l : List α} {out : List β} (mapped : l.mapM f = some out)
    (b : β) (member : b ∈ out) : ∃ a ∈ l, f a = some b := by
  induction l generalizing out with
  | nil =>
    rw [List.mapM_nil] at mapped
    cases mapped
    exact absurd member List.not_mem_nil
  | cons a rest ih =>
    rw [List.mapM_cons] at mapped
    obtain ⟨first,here,mapped⟩ := Option.bind_eq_some_iff.mp mapped
    obtain ⟨others,later,mapped⟩ := Option.bind_eq_some_iff.mp mapped
    cases mapped
    rcases List.mem_cons.mp member with rfl | inside
    · exact ⟨a,List.mem_cons_self,here⟩
    · obtain ⟨a',inside',found⟩ := ih later inside
      exact ⟨a',List.mem_cons_of_mem _ inside',found⟩

theorem collected_start {inputPaths sources : List Text}
    (collected : collectVideoFilePaths storage options inputPaths = some sources) :
    Between storage options [] sources storage.files := by
  obtain ⟨found,mapped,rfl⟩ := Option.map_eq_some_iff.mp collected
  have good : ∀ source ∈ (found.flatten.insertionSort fun a b => a ≤ b).dedup,
      (storage.files.lookup source).isSome = true ∧ wanted options source = true := by
    intro source member
    rw [List.mem_dedup,List.mem_insertionSort,List.mem_flatten] at member
    obtain ⟨part,inParts,inside⟩ := member
    obtain ⟨path,-,collected⟩ := mapM_member mapped part inParts
    exact wanted_collected collected source inside
  refine ⟨⟨List.nodup_nil,fun _ member => absurd member List.not_mem_nil,fun _ member => absurd member List.not_mem_nil⟩,
    fun _ _ member => absurd member List.not_mem_nil,?_,?_,?_,fun _ member => absurd member List.not_mem_nil,
    List.nodup_dedup _⟩
  · intro path video found
    cases storage.untouched path _ found
  · intro source member
    obtain ⟨video,present⟩ := Option.isSome_iff_exists.mp (good source member).1
    rw [present,storage.untouched source video present]
  · intro source member
    have wanted := (good source member).2
    rw [Video.wanted,Bool.and_eq_true,Bool.not_eq_true'] at wanted
    exact wanted.2

end

/-! ### Two containers of one video -/

def movie : VideoStorage where
  files := (∅ : Store Text Footage).insert "/a.mkv".toList (.original "/a.mkv".toList)|>.insert "/a.mp4".toList
    (.original "/a.mp4".toList)
  untouched path video found := by
    rw [Store.lookup_insert_eq,Store.lookup_insert_eq] at found
    split at found
    next same => exact same ▸ (Option.some.inj found).symm
    next =>
      split at found
      next same => exact same ▸ (Option.some.inj found).symm
      next => cases found
  isDir _ := false
  list _ := []
  listRecursive _ := []
  listed dir entry member := absurd member List.not_mem_nil

def deleting (overwriteExisting : Bool) : VideoCompressionOptions := ⟨false,"mp4".toList,none,true,overwriteExisting⟩

def moviePaths : List Text := ["/a.mkv".toList,"/a.mp4".toList]

theorem movie_collected (overwriteExisting : Bool) :
    collectVideoFilePaths movie (deleting overwriteExisting) moviePaths = some moviePaths := by
  cases overwriteExisting with
  | false => decide +kernel
  | true => decide +kernel

theorem movie_turns :
    (executeBatchVideoCompress movie (deleting false) (fun _ => false) moviePaths).map (·.1) =
      some [("/a.mkv".toList,"/a_compressed.mp4".toList),("/a.mp4".toList,"/a_compressed_1.mp4".toList)] := by
  decide +kernel

end StorageHub.Video
