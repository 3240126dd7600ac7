import Mathlib.Logic.Function.Basic
import Mathlib.Data.List.Basic

/-! Write-back caching in general. Cells are cached through records, a record's
data lies in memory or in a file, and agents on the side put new data into a
record, write a record's data back to its cell, or take a record out of the
map. The rules say under which conditions on single steps a call that took
effect stays visible until another call takes effect after it.

Files are named by `owner` after a cell; a `reusable` file may be written more
than once, every other one is written when it is allocated and not again. -/
namespace StorageHub.Library.WriteBack
set_option linter.unusedSectionVars false

inductive Blob (φ δ : Type)
  | memory (data : δ)
  | file (f : φ)

structure Slot (κ φ δ : Type) where
  path : κ
  blob : Blob φ δ

structure Call (δ : Type) where
  data : δ
  began : Nat
  effectAt : Option Nat
  acknowledged : Bool

/-- What matters of an agent: the cell and the record it works on, the file it
has staged, the files it may still compare with or remove, the blob it has read
with the data it found, whether it is about to take its record out of the map,
and the call it serves. -/
structure Agent (κ ρ φ δ : Type) where
  path : κ
  record : Option ρ
  held : Option (φ × δ)
  known : List φ
  seen : Option (Blob φ δ × δ)
  condemns : Bool
  call : Option (Call δ)

structure State (κ ρ φ δ : Type) where
  entries : κ → Option ρ
  slots : ρ → Option (Slot κ φ δ)
  files : φ → Option δ
  cells : κ → Option δ
  issued : ρ → Prop
  allocated : φ → Prop
  agents : Nat → Option (Agent κ ρ φ δ)
  clock : Nat

variable {κ ρ φ δ : Type}

namespace State
variable (s : State κ ρ φ δ)

def content : Blob φ δ → Option δ
  | .memory data => some data
  | .file f => s.files f

/-- Some agent has decided to take the record out of the map. -/
def Condemned (r : ρ) : Prop :=
  ∃ t a, s.agents t = some a ∧ a.record = some r ∧ a.condemns = true

def Live (p : κ) (r : ρ) : Prop := s.entries p = some r ∧ ¬ s.Condemned r

/-- What a reader of the cell finds. -/
def Shown (p : κ) (data : δ) : Prop :=
  (∃ r slot, s.Live p r ∧ s.slots r = some slot ∧ s.content slot.blob = some data) ∨
    ((∀ r, ¬ s.Live p r) ∧ s.cells p = some data)

/-- A call that took effect on the cell at time `n`. -/
def Effective (p : κ) (c : Call δ) (n : Nat) : Prop :=
  ∃ t a, s.agents t = some a ∧ a.path = p ∧ a.call = some c ∧ c.effectAt = some n

/-- Some call took effect on the cell after this one began. -/
def Covered (p : κ) (c : Call δ) : Prop := ∃ c' n, s.Effective p c' n ∧ c.began ≤ n

/-- The file is not the blob of the live record of its own cell. -/
def Loose (owner : φ → κ) (f : φ) : Prop :=
  ∀ r slot, s.Live (owner f) r → s.slots r = some slot → slot.blob ≠ .file f

def advance (t : Nat) (a : Agent κ ρ φ δ) : State κ ρ φ δ :=
  { s with agents := Function.update s.agents t (some a), clock := s.clock + 1 }

end State

/-- An agent may give up the file it holds, and learn that file or the one of a
record. -/
structure Keeps (s : State κ ρ φ δ) (a a' : Agent κ ρ φ δ) : Prop where
  path : a'.path = a.path
  record : a'.record = a.record
  held : a'.held = a.held ∨ a'.held = none
  known : ∀ f ∈ a'.known, f ∈ a.known ∨ (a'.held = none ∧ ∃ d, a.held = some (f,d)) ∨
    ∃ r slot, s.slots r = some slot ∧ slot.blob = .file f

/-- It may also forget what it has read, and acknowledge its call once the call
took effect or was overtaken by one that did. -/
structure Quiet (s : State κ ρ φ δ) (a a' : Agent κ ρ φ δ) : Prop extends Keeps s a a' where
  before : a.condemns = false
  after : a'.condemns = false
  seen : a'.seen = a.seen ∨ a'.seen = none
  seenKnown : ∀ f d, a'.seen = some (.file f,d) → f ∈ a'.known
  call : a'.call = a.call ∨ ∃ c, a.call = some c ∧ a'.call = some { c with acknowledged := true } ∧
    (c.effectAt = none → s.Covered a.path c)

variable [DecidableEq κ] [DecidableEq ρ] [DecidableEq φ]

inductive Step (owner : φ → κ) (reusable : φ → Prop) :
    State κ ρ φ δ → State κ ρ φ δ → Prop
  | tick (s) : Step owner reusable s { s with clock := s.clock + 1 }
  | start (s t a) (fresh : s.agents t = none) (held : a.held = none) (known : a.known = [])
      (seen : a.seen = none) (condemns : a.condemns = false)
      (record : ∀ r, a.record = some r → ∃ slot, s.slots r = some slot ∧ slot.path = a.path)
      (call : ∀ c, a.call = some c →
        c.began = s.clock ∧ c.effectAt = none ∧ c.acknowledged = false) :
      Step owner reusable s (s.advance t a)
  | quiet (s t a a') (found : s.agents t = some a) (quiet : Quiet s a a') :
      Step owner reusable s (s.advance t a')
  | read (s t a blob data) (found : s.agents t = some a) (before : a.condemns = false)
      (present : s.content blob = some data) (known : ∀ f, blob = .file f → f ∈ a.known) :
      Step owner reusable s (s.advance t { a with seen := some (blob,data) })
  | stage (s t a f data) (allocated : φ → Prop) (found : s.agents t = some a)
      (before : a.condemns = false) (free : a.held = none) (own : owner f = a.path)
      (single : ¬ reusable f) (fresh : ¬ s.allocated f) (here : allocated f)
      (grows : ∀ g, s.allocated g → allocated g) :
      Step owner reusable s ({ s with files := Function.update s.files f (some data), allocated }.advance t
        { a with held := some (f,data) })
  | rewrite (s t a f data) (found : s.agents t = some a) (before : a.condemns = false)
      (own : owner f = a.path) (again : reusable f) (allocated : s.allocated f)
      (loose : s.Loose owner f) :
      Step owner reusable s ({ s with files := Function.update s.files f (some data) }.advance t
        { a with known := f :: a.known })
  | remove (s t a a' f) (found : s.agents t = some a) (quiet : Quiet s a a') (known : f ∈ a.known)
      (loose : s.Loose owner f) :
      Step owner reusable s ({ s with files := Function.update s.files f none }.advance t a')
  | discard (s t a a' f data) (found : s.agents t = some a) (held : a.held = some (f,data))
      (quiet : Quiet s a a') (gone : a'.held = none) :
      Step owner reusable s ({ s with files := Function.update s.files f none }.advance t a')
  | install (s t a c r slot blob known) (found : s.agents t = some a) (before : a.condemns = false)
      (call : a.call = some c)
      (staged : blob = .memory c.data ∨ ∃ f, blob = .file f ∧ a.held = some (f,c.data))
      (live : s.Live a.path r) (present : s.slots r = some slot)
      (seen : a.seen = none)
      (old : ∀ f ∈ known, f ∈ a.known ∨ slot.blob = .file f) :
      Step owner reusable s ({ s with slots := Function.update s.slots r (some { slot with blob }) }.advance t
        { a with held := none, known, call := some { c with effectAt := some s.clock } })
  | promote (s t a f data blob r slot known) (found : s.agents t = some a)
      (before : a.condemns = false) (record : a.record = some r) (held : a.held = some (f,data))
      (seen : a.seen = some (blob,data)) (present : s.slots r = some slot)
      (same : s.Live a.path r → slot.blob = blob)
      (old : ∀ g ∈ known, g ∈ a.known ∨ slot.blob = .file g) :
      Step owner reusable s ({ s with slots := Function.update s.slots r (some { slot with blob := .file f }) }.advance t
        { a with held := none, known, seen := none })
  | insert (s t a c r blob known) (issued : ρ → Prop) (found : s.agents t = some a)
      (before : a.condemns = false) (call : a.call = some c) (free : a.held = none)
      (seen : a.seen = none)
      (present : s.content blob = some c.data)
      (file : ∀ f, blob = .file f → f ∈ a.known ∧ owner f = a.path)
      (fresh : ¬ s.issued r) (here : issued r) (grows : ∀ q, s.issued q → issued q)
      (old : ∀ f ∈ known, f ∈ a.known) :
      Step owner reusable s ({ s with
          entries := Function.update s.entries a.path (some r)
          slots := Function.update s.slots r (some ⟨a.path,blob⟩)
          issued }.advance t { a with known, call := some { c with effectAt := some s.clock } })
  | writeBack (s t a a' data) (found : s.agents t = some a) (quiet : Quiet s a a')
      (kept : (∃ r, s.Live a.path r) ∨ s.cells a.path = some data) :
      Step owner reusable s ({ s with cells := Function.update s.cells a.path (some data) }.advance t a')
  | detach (s t a a' r slot) (files : φ → Option δ) (found : s.agents t = some a)
      (before : a.condemns = false) (record : a.record = some r) (present : s.slots r = some slot)
      (written : s.Live a.path r → ∃ data, a.seen = some (slot.blob,data) ∧
        s.cells a.path = some data)
      (loose : ¬ s.Live a.path r → ∀ f, slot.blob = .file f → s.Loose owner f)
      (removed : files = s.files ∨ ∃ f : φ, slot.blob = .file f ∧ files = Function.update s.files f none)
      (after : a' = { a with held := none, known := [], seen := none, condemns := true }) :
      Step owner reusable s ({ s with files }.advance t a')
  | release (s t a r) (found : s.agents t = some a) (before : a.condemns = true)
      (record : a.record = some r)
      (own : s.entries a.path = none ∨ s.entries a.path = some r) :
      Step owner reusable s ({ s with entries := Function.update s.entries a.path none }.advance t
        { a with condemns := false })

/-- Who may touch which file, and where records and agents belong. -/
structure Ownership (owner : φ → κ) (reusable : φ → Prop) (s : State κ ρ φ δ) : Prop where
  heldContent : ∀ t a f d, s.agents t = some a → a.held = some (f,d) →
    s.files f = some d ∧ owner f = a.path ∧ ¬ reusable f ∧ s.allocated f
  heldPrivate : ∀ t a f d, s.agents t = some a → a.held = some (f,d) →
    ∀ r slot, s.slots r = some slot → slot.blob ≠ .file f
  heldUnknown : ∀ t a f d, s.agents t = some a → a.held = some (f,d) →
    ∀ u b, s.agents u = some b → f ∉ b.known
  heldOnce : ∀ t a f d u b e, s.agents t = some a → a.held = some (f,d) →
    s.agents u = some b → b.held = some (f,e) → t = u
  knownAllocated : ∀ t a f, s.agents t = some a → f ∈ a.known → s.allocated f
  slotAllocated : ∀ r slot f, s.slots r = some slot → slot.blob = .file f →
    s.allocated f ∧ owner f = slot.path
  slotIssued : ∀ r slot, s.slots r = some slot → s.issued r
  entrySlot : ∀ p r, s.entries p = some r → ∃ slot, s.slots r = some slot ∧ slot.path = p
  agentSlot : ∀ t a r, s.agents t = some a → a.record = some r →
    ∃ slot, s.slots r = some slot ∧ slot.path = a.path

variable {owner : φ → κ} {reusable : φ → Prop} {s s' : State κ ρ φ δ}

section ownership
variable (own : Ownership owner reusable s)
include own

private theorem ownership_start {t : Nat} {a : Agent κ ρ φ δ} (held : a.held = none)
    (known : a.known = [])
    (record : ∀ r, a.record = some r → ∃ slot, s.slots r = some slot ∧ slot.path = a.path) :
    Ownership owner reusable (s.advance t a) := by
  obtain ⟨heldContent,heldPrivate,heldUnknown,heldOnce,knownAllocated,slotAllocated,slotIssued,
    entrySlot,agentSlot⟩ := own
  constructor <;> simp only [State.advance,Function.update_apply] <;> grind

private theorem ownership_keeps {t : Nat} {a a' : Agent κ ρ φ δ} (found : s.agents t = some a)
    (keeps : Keeps s a a') : Ownership owner reusable (s.advance t a') := by
  obtain ⟨heldContent,heldPrivate,heldUnknown,heldOnce,knownAllocated,slotAllocated,slotIssued,
    entrySlot,agentSlot⟩ := own
  obtain ⟨path,record,held,known⟩ := keeps
  constructor <;> simp only [State.advance,Function.update_apply] <;> grind

private theorem ownership_learn {t : Nat} {a : Agent κ ρ φ δ} {f : φ} (found : s.agents t = some a)
    (again : reusable f) (allocated : s.allocated f) :
    Ownership owner reusable (s.advance t { a with known := f :: a.known }) := by
  obtain ⟨heldContent,heldPrivate,heldUnknown,heldOnce,knownAllocated,slotAllocated,slotIssued,
    entrySlot,agentSlot⟩ := own
  constructor <;> simp only [State.advance,Function.update_apply] <;> grind

/-- Cells and the clock belong to nobody. -/
private theorem ownership_irrelevant {cells : κ → Option δ} {clock : Nat} :
    Ownership owner reusable { s with cells, clock } :=
  ⟨own.heldContent,own.heldPrivate,own.heldUnknown,own.heldOnce,own.knownAllocated,
    own.slotAllocated,own.slotIssued,own.entrySlot,own.agentSlot⟩

/-- Changing a file that no agent holds. -/
private theorem ownership_files {files : φ → Option δ}
    (kept : ∀ t a f d, s.agents t = some a → a.held = some (f,d) → files f = s.files f) :
    Ownership owner reusable { s with files } := by
  refine ⟨?_,own.heldPrivate,own.heldUnknown,own.heldOnce,own.knownAllocated,own.slotAllocated,
    own.slotIssued,own.entrySlot,own.agentSlot⟩
  intro t a f d present held
  have before := own.heldContent t a f d present held
  exact ⟨(kept t a f d present held).trans before.1,before.2⟩

private theorem ownership_stage {t : Nat} {a : Agent κ ρ φ δ} {f : φ} {data : δ}
    {allocated : φ → Prop} (found : s.agents t = some a) (place : owner f = a.path)
    (single : ¬ reusable f) (fresh : ¬ s.allocated f) (here : allocated f)
    (grows : ∀ g, s.allocated g → allocated g) :
    Ownership owner reusable
      ({ s with files := Function.update s.files f (some data), allocated }.advance t
        { a with held := some (f,data) }) := by
  obtain ⟨heldContent,heldPrivate,heldUnknown,heldOnce,knownAllocated,slotAllocated,slotIssued,
    entrySlot,agentSlot⟩ := own
  constructor <;> simp only [State.advance,Function.update_apply] <;> grind

/-- Putting a private file, or data that need none, into a record. -/
private theorem ownership_fill {t : Nat} {a a' : Agent κ ρ φ δ} {r : ρ} {slot : Slot κ φ δ}
    {blob : Blob φ δ} (found : s.agents t = some a) (present : s.slots r = some slot)
    (place : slot.path = a.path)
    (staged : ∀ f, blob = .file f → ∃ d, a.held = some (f,d))
    (path : a'.path = a.path) (record : a'.record = a.record) (held : a'.held = none)
    (known : ∀ f ∈ a'.known, f ∈ a.known ∨ slot.blob = .file f) :
    Ownership owner reusable
      ({ s with slots := Function.update s.slots r (some { slot with blob }) }.advance t a') := by
  obtain ⟨heldContent,heldPrivate,heldUnknown,heldOnce,knownAllocated,slotAllocated,slotIssued,
    entrySlot,agentSlot⟩ := own
  constructor <;> simp only [State.advance,Function.update_apply]
  case heldOnce =>
    intro u b f d v c e present held present' held'
    split at present
    next => grind
    next =>
      split at present'
      next => grind
      next => exact heldOnce u b f d v c e present held present' held'
  all_goals grind

private theorem ownership_insert {t : Nat} {a a' : Agent κ ρ φ δ} {r : ρ} {blob : Blob φ δ}
    {issued : ρ → Prop} (found : s.agents t = some a)
    (file : ∀ f, blob = .file f → f ∈ a.known ∧ owner f = a.path)
    (fresh : ¬ s.issued r) (here : issued r) (grows : ∀ q, s.issued q → issued q)
    (path : a'.path = a.path) (record : a'.record = a.record)
    (held : a'.held = none) (known : ∀ f ∈ a'.known, f ∈ a.known) :
    Ownership owner reusable
      ({ s with
          entries := Function.update s.entries a.path (some r)
          slots := Function.update s.slots r (some ⟨a.path,blob⟩)
          issued }.advance t a') := by
  obtain ⟨heldContent,heldPrivate,heldUnknown,heldOnce,knownAllocated,slotAllocated,slotIssued,
    entrySlot,agentSlot⟩ := own
  constructor <;> simp only [State.advance,Function.update_apply]
  case heldOnce =>
    intro u b f d v c e present held present' held'
    split at present
    next => grind
    next =>
      split at present'
      next => grind
      next => exact heldOnce u b f d v c e present held present' held'
  case entrySlot =>
    intro p q mapped
    split at mapped
    next same =>
      cases mapped
      exact ⟨⟨a.path,blob⟩,if_pos rfl,same.symm⟩
    next =>
      obtain ⟨slot,present,place⟩ := entrySlot p q mapped
      have other : q ≠ r := fun same => fresh (same ▸ slotIssued q slot present)
      exact ⟨slot,(if_neg other).trans present,place⟩
  all_goals grind

end ownership

theorem Ownership.step (own : Ownership owner reusable s) (stepped : Step owner reusable s s') :
    Ownership owner reusable s' := by
  cases stepped with
  | tick => exact ownership_irrelevant own
  | start t a fresh held known seen condemns record call => exact ownership_start own held known record
  | quiet t a a' found quiet => exact ownership_keeps own found quiet.toKeeps
  | read t a blob data found before present known =>
    exact ownership_keeps own found ⟨rfl,rfl,.inl rfl,fun f member => .inl member⟩
  | stage t a f data allocated found before free place single fresh here grows =>
    exact ownership_stage own found place single fresh here grows
  | rewrite t a f data found before place again allocated loose =>
    refine ownership_learn (ownership_files own ?_) found again allocated
    intro u b g d present held
    refine Function.update_of_ne (fun same => ?_) _ _
    subst same
    exact (own.heldContent u b g d present held).2.2.1 again
  | remove t a a' f found quiet knows loose =>
    refine ownership_keeps (ownership_files own ?_) found { quiet with }
    intro u b g d present held
    refine Function.update_of_ne (fun same => ?_) _ _
    subst same
    exact own.heldUnknown u b g d present held t a found knows
  | discard t a a' f data found held quiet gone =>
    have released := ownership_keeps own found quiet.toKeeps
    refine ownership_files released ?_
    intro u b g d present holds
    refine Function.update_of_ne (fun same => ?_) _ _
    subst same
    simp only [State.advance,Function.update_apply] at present
    split at present
    next =>
      cases present
      exact Option.some_ne_none _ (holds.symm.trans gone)
    next other => exact other (own.heldOnce t a g data u b d found held present holds).symm
  | install t a c r slot blob known found before call staged live present seen old =>
    obtain ⟨slot',present',place⟩ := own.entrySlot a.path r live.1
    cases present.symm.trans present'
    refine ownership_fill own found present place ?_ rfl rfl rfl old
    rintro f rfl
    rcases staged with memory | ⟨g,same,held⟩
    · contradiction
    · cases same
      exact ⟨_,held⟩
  | promote t a f data blob r slot known found before record held seen present same old =>
    obtain ⟨slot',present',place⟩ := own.agentSlot t a r found record
    cases present.symm.trans present'
    refine ownership_fill own found present place ?_ rfl rfl rfl old
    rintro g ⟨⟩
    exact ⟨data,held⟩
  | insert t a c r blob known issued found before call free seen present file fresh here grows old =>
    exact ownership_insert own found file fresh here grows rfl rfl free old
  | writeBack t a a' data found quiet kept =>
    exact ownership_keeps (ownership_irrelevant own) found { quiet with }
  | detach t a a' r slot files found before record present written loose removed after =>
    subst after
    refine ownership_keeps (ownership_files own ?_) found ⟨rfl,rfl,.inr rfl,by simp⟩
    rcases removed with rfl | ⟨f,filed,rfl⟩
    · intros; rfl
    · intro u b g d present' held
      refine Function.update_of_ne (fun same => ?_) _ _
      subst same
      exact own.heldPrivate u b g d present' held r slot present filed
  | release t a r found before record place =>
    have erased : Ownership owner reusable
        { s with entries := Function.update s.entries a.path none } := by
      refine ⟨own.heldContent,own.heldPrivate,own.heldUnknown,own.heldOnce,own.knownAllocated,
        own.slotAllocated,own.slotIssued,?_,own.agentSlot⟩
      intro p q mapped
      simp only [Function.update_apply] at mapped
      split at mapped
      next => contradiction
      next => exact own.entrySlot p q mapped
    exact ownership_keeps erased found ⟨rfl,rfl,.inl rfl,fun f member => .inl member⟩

theorem Live.unique {p : κ} {q r : ρ} (first : s.Live p q) (second : s.Live p r) : q = r :=
  Option.some.inj (first.1.symm.trans second.1)

theorem Ownership.place_unique (own : Ownership owner reusable s) {p : κ} {r : ρ}
    {slot : Slot κ φ δ} (live : s.Live p r) (present : s.slots r = some slot) : slot.path = p := by
  obtain ⟨slot',present',place⟩ := own.entrySlot p r live.1
  cases present.symm.trans present'
  exact place

/-- A loose file is the blob of no live record. -/
theorem Ownership.loose_ne (own : Ownership owner reusable s) {f : φ} (loose : s.Loose owner f)
    {p : κ} {r : ρ} {slot : Slot κ φ δ} (live : s.Live p r) (present : s.slots r = some slot) :
    slot.blob ≠ .file f := by
  intro same
  obtain ⟨slot',present',place⟩ := own.entrySlot p r live.1
  cases present.symm.trans present'
  have home := (own.slotAllocated r slot f present same).2.trans place
  exact loose r slot (home ▸ live) present same

theorem Ownership.loose_kept (own : Ownership owner reusable s) {f g : φ} {data : Option δ}
    (loose : s.Loose owner f) {p : κ} {r : ρ} {slot : Slot κ φ δ} (live : s.Live p r)
    (present : s.slots r = some slot) (same : slot.blob = .file g) :
    Function.update s.files f data g = s.files g := by
  refine Function.update_of_ne (fun shared => ?_) _ _
  subst shared
  exact own.loose_ne loose live present same

/-- Nor is the file of a record taken out: a live one's file is not removed. -/
theorem Ownership.detached_ne (own : Ownership owner reusable s) {t : Nat} {a : Agent κ ρ φ δ}
    {r : ρ} {slot : Slot κ φ δ} (found : s.agents t = some a) (record : a.record = some r)
    (present : s.slots r = some slot)
    (loose : ¬ s.Live a.path r → ∀ f, slot.blob = .file f → s.Loose owner f) {p : κ} {q : ρ}
    {slot' : Slot κ φ δ} (live : s.Live p q) (other : q ≠ r) (present' : s.slots q = some slot') :
    ∀ f, slot.blob = .file f → slot'.blob ≠ .file f := by
  intro f filed same
  by_cases alive : s.Live a.path r
  · obtain ⟨home,mapped,place⟩ := own.entrySlot a.path r alive.1
    cases present.symm.trans mapped
    obtain ⟨home',mapped',place'⟩ := own.entrySlot p q live.1
    cases present'.symm.trans mapped'
    have here := (own.slotAllocated r slot f present filed).2.trans place
    have there := (own.slotAllocated q slot' f present' same).2.trans place'
    have shared : p = a.path := there.symm.trans here
    exact other (Live.unique live (shared ▸ alive))
  · exact own.loose_ne (loose alive f filed) live present' same

section liveness
variable {t : Nat} {a a' : Agent κ ρ φ δ}

theorem condemned_advance (found : s.agents t = some a) (record : a'.record = a.record)
    (condemns : a'.condemns = a.condemns) {r : ρ} :
    (s.advance t a').Condemned r ↔ s.Condemned r := by
  simp only [State.Condemned,State.advance,Function.update_apply]
  constructor <;> rintro ⟨u,b,present,own,yes⟩
  · split at present
    next => grind
    next => exact ⟨u,b,present,own,yes⟩
  · by_cases same : u = t
    · exact ⟨t,a',if_pos rfl,by grind⟩
    · exact ⟨u,b,(if_neg same).trans present,own,yes⟩

theorem live_advance (found : s.agents t = some a) (record : a'.record = a.record)
    (condemns : a'.condemns = a.condemns) {p : κ} {r : ρ} :
    (s.advance t a').Live p r ↔ s.Live p r :=
  and_congr_right fun _ => not_congr (condemned_advance found record condemns)

theorem live_start (fresh : s.agents t = none) (condemns : a.condemns = false) {p : κ} {r : ρ} :
    (s.advance t a).Live p r ↔ s.Live p r := by
  refine and_congr_right fun _ => not_congr ?_
  simp only [State.Condemned,State.advance,Function.update_apply]
  grind

theorem live_detach (found : s.agents t = some a) (before : a.condemns = false) {r : ρ}
    (record : a.record = some r) (record' : a'.record = some r) (after : a'.condemns = true)
    {p : κ} {q : ρ} : (s.advance t a').Live p q ↔ s.Live p q ∧ q ≠ r := by
  simp only [State.Live,State.Condemned,State.advance,Function.update_apply]
  grind

theorem live_release (own : Ownership owner reusable s) (found : s.agents t = some a)
    (before : a.condemns = true) {r : ρ} (record : a.record = some r)
    (place : s.entries a.path = none ∨ s.entries a.path = some r) {p : κ} {q : ρ} :
    ({ s with entries := Function.update s.entries a.path none }.advance t
      { a with condemns := false }).Live p q ↔ s.Live p q := by
  have home := own.agentSlot t a r found record
  have reached := own.entrySlot p q
  simp only [State.Live,State.Condemned,State.advance,Function.update_apply]
  grind

theorem live_insert (own : Ownership owner reusable s) {home : κ} {r : ρ} (fresh : ¬ s.issued r)
    {slots : ρ → Option (Slot κ φ δ)} {issued : ρ → Prop} {p : κ} {q : ρ} :
    { s with entries := Function.update s.entries home (some r), slots, issued }.Live p q ↔
      if p = home then q = r else s.Live p q := by
  have free : ¬ s.Condemned r := by
    rintro ⟨u,b,present,mine,-⟩
    obtain ⟨slot,filed,-⟩ := own.agentSlot u b r present mine
    exact fresh (own.slotIssued r slot filed)
  simp only [State.Live,Function.update_apply]
  split
  next =>
    constructor
    · exact fun live => (Option.some.inj live.1).symm
    · rintro rfl
      exact ⟨rfl,free⟩
  next => exact Iff.rfl

end liveness

/-- What agents have read is still what a live record with the same blob holds. -/
structure Reading (s : State κ ρ φ δ) : Prop where
  seenKnown : ∀ t a f d, s.agents t = some a → a.seen = some (.file f,d) → f ∈ a.known
  seenMemory : ∀ t a d' d, s.agents t = some a → a.seen = some (.memory d',d) → d' = d
  seenContent : ∀ t a blob d r slot, s.agents t = some a → a.seen = some (blob,d) →
    a.record = some r → s.Live a.path r → s.slots r = some slot → slot.blob = blob →
    s.content blob = some d

theorem content_update_ne {f : φ} {data : Option δ} {blob : Blob φ δ} (other : blob ≠ .file f) :
    { s with files := Function.update s.files f data }.content blob = s.content blob := by
  cases blob with
  | memory d => rfl
  | file g => exact Function.update_of_ne (fun same => other (congrArg Blob.file same)) _ _

section reading
variable (reading : Reading s)
include reading

private theorem reading_agent {t : Nat} {a a' : Agent κ ρ φ δ} (found : s.agents t = some a)
    (path : a'.path = a.path) (record : a'.record = a.record) (condemns : a'.condemns = a.condemns)
    (seen : a'.seen = a.seen ∨ a'.seen = none)
    (known : ∀ f d, a'.seen = some (.file f,d) → f ∈ a'.known) : Reading (s.advance t a') := by
  obtain ⟨seenKnown,seenMemory,seenContent⟩ := reading
  have live : ∀ p r, (s.advance t a').Live p r ↔ s.Live p r :=
    fun p r => live_advance found record condemns
  constructor
  case seenContent =>
    intro u b blob d r slot present read mine alive filed same
    rw [live] at alive
    simp only [State.advance,Function.update_apply] at present
    split at present
    next => exact seenContent t a blob d r slot found (by grind) (by grind) (by grind) filed same
    next => exact seenContent u b blob d r slot present read mine alive filed same
  all_goals
    simp only [State.advance,Function.update_apply]
    grind

/-- A file may change when the live records' blobs read by agents keep their content. -/
private theorem reading_files {files : φ → Option δ} {allocated : φ → Prop}
    (kept : ∀ t a f d p r slot, s.agents t = some a → a.seen = some (.file f,d) → s.Live p r →
      s.slots r = some slot → slot.blob = .file f → files f = s.files f) :
    Reading { s with files, allocated } := by
  refine ⟨reading.seenKnown,reading.seenMemory,?_⟩
  intro t a blob d r slot present read mine alive filed same
  have before := reading.seenContent t a blob d r slot present read mine alive filed same
  cases blob with
  | memory d' => exact before
  | file f => exact (kept t a f d a.path r slot present read alive filed same).trans before

/-- A record may be filled with a file no agent knows, or with data that need none. -/
private theorem reading_fill {r : ρ} {slot : Slot κ φ δ} {blob : Blob φ δ}
    (unknown : ∀ f, blob = .file f → ∀ t a, s.agents t = some a → f ∉ a.known) :
    Reading { s with slots := Function.update s.slots r (some { slot with blob }) } := by
  refine ⟨reading.seenKnown,reading.seenMemory,?_⟩
  intro t a seen d q slot' present read mine alive filed same
  simp only [Function.update_apply] at filed
  split at filed
  next =>
    cases filed
    subst same
    cases blob with
    | memory d' => exact congrArg some (reading.seenMemory t a d' d present read)
    | file f => exact absurd (reading.seenKnown t a f d present read) (unknown f rfl t a present)
  next => exact reading.seenContent t a seen d q slot' present read mine alive filed same

/-- A new record is one that no agent has read. -/
private theorem reading_insert (own : Ownership owner reusable s) {home : κ} {r : ρ}
    {slot : Slot κ φ δ} {issued : ρ → Prop} (fresh : ¬ s.issued r) :
    Reading { s with
      entries := Function.update s.entries home (some r)
      slots := Function.update s.slots r (some slot)
      issued } := by
  refine ⟨reading.seenKnown,reading.seenMemory,?_⟩
  intro u b read d q slot present looked mine alive filed same
  obtain ⟨slot',filed',place⟩ := own.agentSlot u b q present mine
  have other : q ≠ r := fun same => fresh (same ▸ own.slotIssued q slot' filed')
  rw [live_insert own fresh] at alive
  split at alive
  next => contradiction
  next =>
    simp only [Function.update_of_ne other] at filed
    exact reading.seenContent u b read d q slot present looked mine alive filed same

end reading

theorem Reading.step (reading : Reading s) (own : Ownership owner reusable s)
    (stepped : Step owner reusable s s') : Reading s' := by
  cases stepped with
  | tick => exact ⟨reading.seenKnown,reading.seenMemory,reading.seenContent⟩
  | start t a fresh held known seen condemns record call =>
    have live : ∀ p r, (s.advance t a).Live p r ↔ s.Live p r := fun p r => live_start fresh condemns
    constructor
    case seenContent =>
      intro u b blob d r slot present read mine alive filed same
      rw [live] at alive
      simp only [State.advance,Function.update_apply] at present
      split at present
      next => grind
      next => exact reading.seenContent u b blob d r slot present read mine alive filed same
    all_goals
      simp only [State.advance,Function.update_apply]
      grind [Reading]
  | quiet t a a' found quiet =>
    exact reading_agent reading found quiet.path quiet.record (quiet.after.trans quiet.before.symm)
      quiet.seen quiet.seenKnown
  | read t a blob data found before present known =>
    have live : ∀ p r, (s.advance t { a with seen := some (blob,data) }).Live p r ↔ s.Live p r :=
      fun p r => by apply live_advance found <;> rfl
    constructor
    case seenContent =>
      intro u b blob' d r slot present' read mine alive filed same
      rw [live] at alive
      simp only [State.advance,Function.update_apply] at present'
      split at present'
      next =>
        cases present'
        cases read
        exact present
      next => exact reading.seenContent u b blob' d r slot present' read mine alive filed same
    all_goals
      simp only [State.advance,Function.update_apply]
      grind [Reading,State.content]
  | stage t a f data allocated found before free place single fresh here grows =>
    have kept : Reading { s with files := Function.update s.files f (some data), allocated } := by
      refine reading_files reading ?_
      intro u b g d p r slot present read alive filed same
      refine Function.update_of_ne (fun same => fresh ?_) _ _
      exact same ▸ own.knownAllocated u b g present (reading.seenKnown u b g d present read)
    exact reading_agent kept found rfl rfl rfl (.inl rfl) fun f d read => reading.seenKnown t a f d found read
  | rewrite t a f data found before place again allocated loose =>
    refine reading_agent (reading_files reading ?_) found rfl rfl rfl (.inl rfl)
      fun f d read => List.mem_cons_of_mem _ (reading.seenKnown t a f d found read)
    exact fun u b g d p r slot present read alive filed same => own.loose_kept loose alive filed same
  | remove t a a' f found quiet knows loose =>
    refine reading_agent (reading_files reading ?_) found quiet.path quiet.record
      (quiet.after.trans quiet.before.symm) quiet.seen quiet.seenKnown
    exact fun u b g d p r slot present read alive filed same => own.loose_kept loose alive filed same
  | discard t a a' f data found held quiet gone =>
    refine reading_agent (reading_files reading ?_) found quiet.path quiet.record
      (quiet.after.trans quiet.before.symm) quiet.seen quiet.seenKnown
    intro u b g d p r slot present read alive filed same
    refine Function.update_of_ne (fun shared => ?_) _ _
    exact own.heldPrivate t a f data found held r slot filed (shared ▸ same)
  | install t a c r slot blob known found before call staged live present seen old =>
    refine reading_agent (reading_fill reading ?_) found rfl rfl rfl (.inl rfl) (by simp [seen])
    rintro f rfl u b present'
    rcases staged with memory | ⟨g,same,held⟩
    · contradiction
    · cases same
      exact own.heldUnknown t a f c.data found held u b present'
  | promote t a f data blob r slot known found before record held seen present same old =>
    refine reading_agent (reading_fill reading ?_) found rfl rfl rfl (.inr rfl) (by simp)
    rintro g ⟨⟩ u b present'
    exact own.heldUnknown t a f data found held u b present'
  | insert t a c r blob known issued found before call free seen present file fresh here grows old =>
    have kept : Reading { s with
        entries := Function.update s.entries a.path (some r)
        slots := Function.update s.slots r (some ⟨a.path,blob⟩)
        issued } := by
      exact reading_insert reading own fresh
    exact reading_agent kept found rfl rfl rfl (.inl rfl) (by simp [seen])
  | writeBack t a a' data found quiet kept =>
    have same : Reading { s with cells := Function.update s.cells a.path (some data) } :=
      ⟨reading.seenKnown,reading.seenMemory,reading.seenContent⟩
    exact reading_agent same found quiet.path quiet.record (quiet.after.trans quiet.before.symm)
      quiet.seen quiet.seenKnown
  | detach t a a' r slot files found before record present written loose removed after =>
    have live : ∀ p q, ({ s with files }.advance t a').Live p q ↔ s.Live p q ∧ q ≠ r := fun p q =>
      live_detach (s := { s with files }) found before record (by rw [after,record]) (by rw [after])
    constructor
    case seenContent =>
      intro u b blob d q slot' present' read mine alive filed same
      rw [live] at alive
      simp only [State.advance,Function.update_apply] at present'
      split at present'
      next => grind
      next =>
        have before' := reading.seenContent u b blob d q slot' present' read mine alive.1 filed same
        have apart := own.detached_ne found record present loose alive.1 alive.2 filed
        rcases removed with rfl | ⟨f,gone,rfl⟩
        · exact before'
        · exact (content_update_ne (same ▸ apart f gone)).trans before'
    all_goals
      simp only [State.advance,Function.update_apply]
      grind [Reading]
  | release t a r found before record place =>
    constructor
    case seenContent =>
      intro u b blob d q slot present read mine alive filed same
      rw [live_release own found before record place] at alive
      simp only [State.advance,Function.update_apply] at present
      split at present
      next =>
        cases present
        exact reading.seenContent t a blob d q slot found read mine alive filed same
      next => exact reading.seenContent u b blob d q slot present read mine alive filed same
    all_goals
      simp only [State.advance,Function.update_apply]
      grind [Reading]

/-- The history of the calls: they take effect while they run, and the one that
took effect last on a cell is what the cell shows. -/
structure History (s : State κ ρ φ δ) : Prop where
  times : ∀ t a c, s.agents t = some a → a.call = some c →
    c.began ≤ s.clock ∧ ∀ n, c.effectAt = some n → c.began ≤ n ∧ n < s.clock
  covered : ∀ t a c, s.agents t = some a → a.call = some c → c.acknowledged = true →
    c.effectAt = none → s.Covered a.path c
  latest : ∀ p c n, s.Effective p c n → ∃ c' n', s.Effective p c' n' ∧
    (∀ d m, s.Effective p d m → m ≤ n') ∧ s.Shown p c'.data

/-- The same calls have taken effect, at the same times. -/
structure SameEffects (s s' : State κ ρ φ δ) : Prop where
  forth : ∀ p c n, s.Effective p c n → ∃ c', s'.Effective p c' n ∧ c'.data = c.data
  back : ∀ p c n, s'.Effective p c n → ∃ c', s.Effective p c' n

theorem SameEffects.latest {p : κ} {c : Call δ} {n : Nat} (same : SameEffects s s')
    (history : History s) (kept : ∀ data, s.Shown p data → s'.Shown p data)
    (effective : s'.Effective p c n) :
    ∃ c' n', s'.Effective p c' n' ∧ (∀ d m, s'.Effective p d m → m ≤ n') ∧ s'.Shown p c'.data := by
  obtain ⟨c₀,before⟩ := same.back p c n effective
  obtain ⟨last,m,last_effective,greatest,shown⟩ := history.latest p c₀ n before
  obtain ⟨last',last_effective',data⟩ := same.forth p last m last_effective
  refine ⟨last',m,last_effective',?_,data ▸ kept last.data shown⟩
  intro d k later
  obtain ⟨d₀,earlier⟩ := same.back p d k later
  exact greatest d₀ k earlier

theorem SameEffects.covered {p : κ} {c : Call δ} (same : SameEffects s s')
    (covered : s.Covered p c) : s'.Covered p c := by
  obtain ⟨c',n,effective,after⟩ := covered
  obtain ⟨c'',effective',-⟩ := same.forth p c' n effective
  exact ⟨c'',n,effective',after⟩

section history
variable {t : Nat} {a a' : Agent κ ρ φ δ} {base : State κ ρ φ δ}

/-- An agent that leaves its call alone, or acknowledges it. -/
theorem sameEffects_advance (agents : base.agents = s.agents) (found : s.agents t = some a)
    (path : a'.path = a.path) (call : a'.call = a.call ∨
      ∃ c, a.call = some c ∧ a'.call = some { c with acknowledged := true }) :
    SameEffects s (base.advance t a') := by
  constructor
  · rintro p c n ⟨u,b,present,place,calls,effect⟩
    simp only [State.Effective,State.advance,Function.update_apply,agents]
    by_cases same : u = t
    · subst same
      cases found.symm.trans present
      rcases call with kept | ⟨c',calls',acknowledged⟩
      · exact ⟨c,⟨u,a',if_pos rfl,path.trans place,kept.trans calls,effect⟩,rfl⟩
      · cases calls.symm.trans calls'
        exact ⟨_,⟨u,a',if_pos rfl,path.trans place,acknowledged,effect⟩,rfl⟩
    · exact ⟨c,⟨u,b,(if_neg same).trans present,place,calls,effect⟩,rfl⟩
  · rintro p c n ⟨u,b,present,place,calls,effect⟩
    simp only [State.advance,Function.update_apply,agents] at present
    split at present
    next =>
      cases present
      rcases call with kept | ⟨c',calls',acknowledged⟩
      · exact ⟨c,t,a,found,path.symm.trans place,kept.symm.trans calls,effect⟩
      · cases acknowledged.symm.trans calls
        exact ⟨c',t,a,found,path.symm.trans place,calls',effect⟩
    next => exact ⟨c,u,b,present,place,calls,effect⟩

theorem sameEffects_start (fresh : s.agents t = none)
    (call : ∀ c, a.call = some c → c.effectAt = none) : SameEffects s (s.advance t a) := by
  constructor
  · rintro p c n ⟨u,b,present,place,calls,effect⟩
    have other : u ≠ t := by
      rintro rfl
      exact Option.some_ne_none _ (present.symm.trans fresh)
    exact ⟨c,⟨u,b,(Function.update_of_ne other _ _).trans present,place,calls,effect⟩,rfl⟩
  · rintro p c n ⟨u,b,present,place,calls,effect⟩
    simp only [State.advance,Function.update_apply] at present
    split at present
    next =>
      cases present
      exact absurd (effect.symm.trans (call c calls)) (Option.some_ne_none _)
    next => exact ⟨c,u,b,present,place,calls,effect⟩

theorem shown_of_live {p : κ} {data : δ} (live : ∀ r, s'.Live p r ↔ s.Live p r)
    (cell : s'.cells p = s.cells p)
    (kept : ∀ r slot, s.Live p r → s.slots r = some slot → ∃ slot', s'.slots r = some slot' ∧
      (s.content slot.blob = some data → s'.content slot'.blob = some data))
    (shown : s.Shown p data) : s'.Shown p data := by
  rcases shown with ⟨r,slot,alive,present,holds⟩ | ⟨dead,holds⟩
  · obtain ⟨slot',present',holds'⟩ := kept r slot alive present
    exact .inl ⟨r,slot',(live r).mpr alive,present',holds' holds⟩
  · exact .inr ⟨fun r alive => dead r ((live r).mp alive),cell.trans holds⟩

variable (history : History s) (agents : base.agents = s.agents) (clock : base.clock = s.clock)
  (found : s.agents t = some a) (path : a'.path = a.path)
include history agents clock found path

private theorem history_calm
    (call : a'.call = a.call ∨ ∃ c, a.call = some c ∧
      a'.call = some { c with acknowledged := true } ∧ (c.effectAt = none → s.Covered a.path c))
    (kept : ∀ p data, s.Shown p data → (base.advance t a').Shown p data) :
    History (base.advance t a') := by
  have same : SameEffects s (base.advance t a') :=
    sameEffects_advance agents found path (call.imp_right fun ⟨c,calls,acknowledged,_⟩ =>
      ⟨c,calls,acknowledged⟩)
  refine ⟨?_,?_,fun p c n => same.latest history (kept p)⟩
  · intro u b c present calls
    have earlier := history.times
    simp only [State.advance,Function.update_apply,agents,clock] at present ⊢
    grind
  · intro u b c present calls acknowledged overtaken
    simp only [State.advance,Function.update_apply,agents] at present
    split at present
    next =>
      cases present
      rw [path]
      apply same.covered
      rcases call with before | ⟨c',before,after,cover⟩
      · exact history.covered t a c found (before.symm.trans calls) acknowledged overtaken
      · cases after.symm.trans calls
        exact cover overtaken
    next => exact same.covered (history.covered u b c present calls acknowledged overtaken)

private theorem history_effect {c : Call δ} (call : a.call = some c)
    (call' : a'.call = some { c with effectAt := some s.clock })
    (shown : (base.advance t a').Shown a.path c.data)
    (kept : ∀ p data, p ≠ a.path → s.Shown p data → (base.advance t a').Shown p data) :
    History (base.advance t a') := by
  have now : (base.advance t a').Effective a.path { c with effectAt := some s.clock } s.clock :=
    ⟨t,a',Function.update_self _ _ _,path,call',rfl⟩
  have still : ∀ p c₀ n, s.Effective p c₀ n → ∃ c' n', (base.advance t a').Effective p c' n' ∧ n ≤ n' := by
    rintro p c₀ n ⟨u,b,present,place,calls,effect⟩
    by_cases same : u = t
    · subst same
      cases found.symm.trans present
      exact ⟨_,_,place ▸ now,Nat.le_of_lt ((history.times u a c₀ found calls).2 n effect).2⟩
    · refine ⟨c₀,n,⟨u,b,?_,place,calls,effect⟩,Nat.le_refl n⟩
      exact (Function.update_of_ne same _ _).trans (agents ▸ present)
  refine ⟨?_,?_,?_⟩
  · intro u b d present calls
    have earlier := history.times
    simp only [State.advance,Function.update_apply,agents,clock] at present ⊢
    grind
  · intro u b d present calls acknowledged overtaken
    simp only [State.advance,Function.update_apply,agents] at present
    split at present
    next =>
      cases present
      cases call'.symm.trans calls
      contradiction
    next =>
      obtain ⟨c₀,n,effective,after⟩ := history.covered u b d present calls acknowledged overtaken
      obtain ⟨c',n',effective',later⟩ := still _ c₀ n effective
      exact ⟨c',n',effective',Nat.le_trans after later⟩
  · intro p d n effective
    by_cases home : p = a.path
    · subst home
      refine ⟨_,s.clock,now,?_,shown⟩
      rintro e m ⟨u,b,present,place,calls,effect⟩
      have earlier := history.times
      simp only [State.advance,Function.update_apply,agents] at present
      grind
    · -- elsewhere nothing has taken effect
      have apart : ∀ e m, (base.advance t a').Effective p e m ↔ s.Effective p e m := by
        intro e m
        simp only [State.Effective,State.advance,Function.update_apply,agents]
        grind
      obtain ⟨last,m,effective',greatest,seen⟩ := history.latest p d n ((apart d n).mp effective)
      exact ⟨last,m,(apart last m).mpr effective',fun e k later => greatest e k ((apart e k).mp later),
        kept p last.data home seen⟩

end history

/-- A file that changes is no live record's blob, so no cell shows anything else. -/
theorem shown_files {t : Nat} {a a' : Agent κ ρ φ δ} {files : φ → Option δ}
    {allocated : φ → Prop} (found : s.agents t = some a) (record : a'.record = a.record)
    (condemns : a'.condemns = a.condemns)
    (kept : ∀ p r slot f, s.Live p r → s.slots r = some slot → slot.blob = .file f →
      files f = s.files f) (p : κ) (data : δ) (shown : s.Shown p data) :
    ({ s with files, allocated }.advance t a').Shown p data := by
  have live : ∀ r, ({ s with files, allocated }.advance t a').Live p r ↔ s.Live p r :=
    fun r => live_advance (s := { s with files, allocated }) found record condemns
  refine shown_of_live live rfl ?_ shown
  intro r slot alive present
  refine ⟨slot,present,fun holds => ?_⟩
  cases blob : slot.blob with
  | memory d => simpa [blob,State.content] using holds
  | file f =>
    rw [blob] at holds
    exact (kept p r slot f alive present blob).trans holds

theorem History.step (history : History s) (own : Ownership owner reusable s)
    (reading : Reading s) (stepped : Step owner reusable s s') : History s' := by
  cases stepped with
  | tick =>
    refine ⟨?_,history.covered,history.latest⟩
    intro t a c present calls
    have before := history.times t a c present calls
    exact ⟨Nat.le_succ_of_le before.1,fun n effect =>
      ⟨(before.2 n effect).1,Nat.lt_succ_of_lt (before.2 n effect).2⟩⟩
  | start t a fresh held known seen condemns record call =>
    have same : SameEffects s (s.advance t a) := sameEffects_start fresh fun c calls => (call c calls).2.1
    have kept : ∀ p data, s.Shown p data → (s.advance t a).Shown p data := fun p data =>
      shown_of_live (fun r => live_start fresh condemns) rfl fun r slot _ present => ⟨slot,present,id⟩
    refine ⟨?_,?_,fun p c n => same.latest history (kept p)⟩
    · intro u b c present calls
      have earlier := history.times
      simp only [State.advance,Function.update_apply] at present ⊢
      grind
    · intro u b c present calls acknowledged overtaken
      simp only [State.advance,Function.update_apply] at present
      split at present
      next => grind
      next => exact same.covered (history.covered u b c present calls acknowledged overtaken)
  | quiet t a a' found quiet =>
    refine history_calm history rfl rfl found quiet.path quiet.call ?_
    exact fun p data => shown_of_live (fun r => live_advance found quiet.record
      (quiet.after.trans quiet.before.symm)) rfl fun r slot _ present => ⟨slot,present,id⟩
  | read t a blob data found before present known =>
    refine history_calm history rfl rfl found rfl (.inl rfl) ?_
    exact fun p data => shown_of_live (fun r => by apply live_advance found <;> rfl) rfl
      fun r slot _ present => ⟨slot,present,id⟩
  | stage t a f data allocated found before free place single fresh here grows =>
    refine history_calm history rfl rfl found rfl (.inl rfl) (shown_files found rfl rfl ?_)
    intro p r slot g alive present same
    refine Function.update_of_ne (fun shared => fresh ?_) _ _
    exact shared ▸ (own.slotAllocated r slot g present same).1
  | rewrite t a f data found before place again allocated loose =>
    refine history_calm history rfl rfl found rfl (.inl rfl) (shown_files found rfl rfl ?_)
    exact fun p r slot g alive present same => own.loose_kept loose alive present same
  | remove t a a' f found quiet knows loose =>
    refine history_calm history rfl rfl found quiet.path quiet.call (shown_files found quiet.record
      (quiet.after.trans quiet.before.symm) ?_)
    exact fun p r slot g alive present same => own.loose_kept loose alive present same
  | discard t a a' f data found held quiet gone =>
    refine history_calm history rfl rfl found quiet.path quiet.call (shown_files found quiet.record
      (quiet.after.trans quiet.before.symm) ?_)
    intro p r slot g alive present same
    refine Function.update_of_ne (fun shared => ?_) _ _
    exact own.heldPrivate t a f data found held r slot present (shared ▸ same)
  | install t a c r slot blob known found before call staged live present seen old =>
    obtain ⟨slot',present',place⟩ := own.entrySlot a.path r live.1
    cases present.symm.trans present'
    have holds : s.content blob = some c.data := by
      rcases staged with rfl | ⟨f,rfl,held⟩
      · rfl
      · exact (own.heldContent t a f c.data found held).1
    refine history_effect history rfl rfl found rfl call rfl ?_ ?_
    · refine .inl ⟨r,{ slot with blob },?_,Function.update_self _ _ _,holds⟩
      refine (live_advance (s := { s with slots := _ }) found ?_ ?_).mpr live <;> rfl
    · intro p d elsewhere
      refine shown_of_live (fun q => live_advance (s := { s with slots := _ }) found (by rfl) (by rfl)) rfl ?_
      intro q slot'' alive present''
      refine ⟨slot'',(Function.update_of_ne ?_ _ _).trans present'',id⟩
      rintro rfl
      exact elsewhere ((own.place_unique alive present).symm.trans place)
  | promote t a f data blob r slot known found before record held seen present same old =>
    obtain ⟨slot',present',place⟩ := own.agentSlot t a r found record
    cases present.symm.trans present'
    refine history_calm history rfl rfl found rfl (.inl rfl) ?_
    intro p d
    refine shown_of_live (fun q => live_advance (s := { s with slots := _ }) found (by rfl) (by rfl)) rfl ?_
    intro q slot'' alive present''
    by_cases mine : q = r
    · subst mine
      cases present.symm.trans present''
      refine ⟨_,Function.update_self _ _ _,fun holds => ?_⟩
      have here : s.Live a.path q := place.symm.trans (own.place_unique alive present) ▸ alive
      have read := reading.seenContent t a blob data q slot found seen record here present (same here)
      rw [same here,read] at holds
      exact (own.heldContent t a f data found held).1.trans holds
    · exact ⟨slot'',(Function.update_of_ne mine _ _).trans present'',id⟩
  | insert t a c r blob known issued found before call free seen present file fresh here grows old =>
    have live : ∀ p q, ({ s with
        entries := Function.update s.entries a.path (some r)
        slots := Function.update s.slots r (some ⟨a.path,blob⟩)
        issued }.advance t { a with known, call := some { c with effectAt := some s.clock } }).Live p q ↔
          if p = a.path then q = r else s.Live p q := by
      intro p q
      refine (live_advance (s := { s with
        entries := Function.update s.entries a.path (some r)
        slots := Function.update s.slots r (some ⟨a.path,blob⟩)
        issued }) found (by rfl) (by rfl)).trans (live_insert own fresh)
    refine history_effect history rfl rfl found rfl call rfl ?_ ?_
    · exact .inl ⟨r,_,(live a.path r).mpr (by simp),Function.update_self _ _ _,present⟩
    · intro p d elsewhere
      refine shown_of_live (fun q => (live p q).trans (by simp [elsewhere])) rfl ?_
      intro q slot alive filed
      refine ⟨slot,(Function.update_of_ne ?_ _ _).trans filed,id⟩
      rintro rfl
      exact fresh (own.slotIssued q slot filed)
  | writeBack t a a' data found quiet kept =>
    refine history_calm history rfl rfl found quiet.path quiet.call ?_
    intro p d shown
    have live : ∀ q r, ({ s with cells := Function.update s.cells a.path (some data) }.advance t
        a').Live q r ↔ s.Live q r := fun q r =>
      live_advance (s := { s with cells := Function.update s.cells a.path (some data) }) found
        quiet.record (quiet.after.trans quiet.before.symm)
    rcases shown with ⟨r,slot,alive,present,holds⟩ | ⟨dead,holds⟩
    · exact .inl ⟨r,slot,(live p r).mpr alive,present,holds⟩
    · refine .inr ⟨fun r alive => dead r ((live p r).mp alive),?_⟩
      by_cases home : p = a.path
      · subst home
        have same := kept.resolve_left fun ⟨r,alive⟩ => dead r alive
        exact (Function.update_self _ _ _).trans (same.symm.trans holds)
      · exact (Function.update_of_ne home _ _).trans holds
  | detach t a a' r slot files found before record present written loose removed after =>
    have live : ∀ p q, ({ s with files }.advance t a').Live p q ↔ s.Live p q ∧ q ≠ r := fun p q =>
      live_detach (s := { s with files }) found before record (by rw [after,record]) (by rw [after])
    refine history_calm history rfl rfl found (by rw [after]) (.inl (by rw [after])) ?_
    rintro p d (⟨q,slot',alive,present',holds⟩ | ⟨dead,holds⟩)
    · by_cases mine : q = r
      · subst mine
        cases present.symm.trans present'
        obtain ⟨home,filed,place⟩ := own.agentSlot t a q found record
        cases present.symm.trans filed
        have same : p = a.path := (own.place_unique alive present).symm.trans place
        subst same
        obtain ⟨data,read,cell⟩ := written alive
        have seen := reading.seenContent t a slot.blob data q slot found read record alive present rfl
        refine .inr ⟨fun q' alive' => ?_,cell.trans (seen.symm.trans holds)⟩
        have still := (live a.path q').mp alive'
        exact still.2 (Live.unique still.1 alive)
      · refine .inl ⟨q,slot',(live p q).mpr ⟨alive,mine⟩,present',?_⟩
        have apart := own.detached_ne found record present loose alive mine present'
        rcases removed with rfl | ⟨f,gone,rfl⟩
        · exact holds
        · exact (content_update_ne (apart f gone)).trans holds
    · exact .inr ⟨fun q alive => dead q ((live p q).mp alive).1,holds⟩
  | release t a r found before record place =>
    refine history_calm history rfl rfl found rfl (.inl rfl) ?_
    exact fun p data => shown_of_live (fun r => live_release own found before record place) rfl
      fun r slot _ present => ⟨slot,present,id⟩

/-- The three parts together are kept by every step. -/
structure Invariant (owner : φ → κ) (reusable : φ → Prop) (s : State κ ρ φ δ) : Prop where
  ownership : Ownership owner reusable s
  reading : Reading s
  history : History s

theorem Invariant.step (inv : Invariant owner reusable s) (stepped : Step owner reusable s s') :
    Invariant owner reusable s' :=
  ⟨inv.ownership.step stepped,inv.reading.step inv.ownership stepped,
    inv.history.step inv.ownership inv.reading stepped⟩

/-- An acknowledged call is shown, or one that took effect after it (after it
began, when it never took effect itself). -/
theorem Invariant.shown (inv : Invariant owner reusable s) {t : Nat} {a : Agent κ ρ φ δ}
    {c : Call δ} (found : s.agents t = some a) (call : a.call = some c)
    (acknowledged : c.acknowledged = true) :
    ∃ c' n, s.Effective a.path c' n ∧ c.effectAt.getD c.began ≤ n ∧ s.Shown a.path c'.data := by
  cases effect : c.effectAt with
  | some n =>
    have effective : s.Effective a.path c n := ⟨t,a,found,rfl,call,effect⟩
    obtain ⟨c',n',effective',greatest,shown⟩ := inv.history.latest a.path c n effective
    exact ⟨c',n',effective',greatest c n effective,shown⟩
  | none =>
    obtain ⟨c₀,n,effective,after⟩ := inv.history.covered t a c found call acknowledged effect
    obtain ⟨c',n',effective',greatest,shown⟩ := inv.history.latest a.path c₀ n effective
    exact ⟨c',n',effective',Nat.le_trans after (greatest c₀ n effective),shown⟩

end StorageHub.Library.WriteBack
