import StorageHub.Library.Store

/-! A byte counter kept beside a map of measured records. A record is measured
anew in two steps, the first of which opens it and the second settles the
difference; a record that leaves is first taken off the counter and then out of
the map. What the counter holds for each record is its booking. -/
namespace StorageHub.Library.Ledger

structure Cell where
  generation : Nat
  amount : Nat
  deriving DecidableEq,Repr

/-- What a running task has begun and not yet finished. -/
inductive Touch (κ ι : Type)
  | opened (key : κ) (id : ι) (generation previous : Nat)
  | condemned (key : κ) (id : ι)
  deriving DecidableEq

/-- `pending` is counted already for records that are not in the map yet. -/
structure Account (κ ι : Type) where
  counter : Nat
  pending : Nat
  entries : Store κ ι
  cells : ι → Option Cell
  touches : Nat → Option (Touch κ ι)

variable {κ ι : Type} [DecidableEq κ]

namespace Account
variable (a : Account κ ι)

/-- A task has opened the record at its current generation. -/
def Updating (i : ι) : Prop :=
  ∃ t k cell previous, a.touches t = some (.opened k i cell.generation previous) ∧ a.cells i = some cell

def Condemned (i : ι) : Prop := ∃ t k, a.touches t = some (.condemned k i)

def Live (k : κ) (i : ι) : Prop := a.entries.lookup k = some i ∧ ¬ a.Condemned i

/-- Whoever has opened the record found it as large as it is. -/
def Square (i : ι) : Prop :=
  ∀ t k cell previous, a.touches t = some (.opened k i cell.generation previous) →
    a.cells i = some cell → previous = cell.amount

end Account

/-- The bookings add up to the counter, and the holder of a record is the task
that has it open at its current generation or has condemned it. -/
structure Books (booked : ι → Nat) (holder : ι → Option Nat) (a : Account κ ι) : Prop where
  counter : (a.counter : Int) = a.pending + Store.total (fun _ i => (booked i : Int)) a.entries
  single : ∀ k k' i, a.entries.lookup k = some i → a.entries.lookup k' = some i → k = k'
  settled : ∀ k i cell, a.entries.lookup k = some i → a.cells i = some cell → holder i = none →
    booked i = cell.amount
  issued : ∀ t k i generation previous, a.touches t = some (.opened k i generation previous) →
    ∃ cell, a.cells i = some cell ∧ generation ≤ cell.generation
  opened : ∀ t k i cell previous, a.touches t = some (.opened k i cell.generation previous) →
    a.cells i = some cell → holder i = some t ∧ booked i = previous ∧ a.entries.lookup k = some i
  condemned : ∀ t k i, a.touches t = some (.condemned k i) →
    holder i = some t ∧ booked i = 0 ∧ a.entries.lookup k = some i
  held : ∀ t i, holder i = some t →
    (∃ k cell previous, a.touches t = some (.opened k i cell.generation previous) ∧ a.cells i = some cell) ∨
      ∃ k, a.touches t = some (.condemned k i)

section totals
variable (booked : ι → Nat) {entries : Store κ ι}

theorem total_congr {measure measure' : κ → ι → Int}
    (same : ∀ k i, entries.lookup k = some i → measure k i = measure' k i) :
    Store.total measure entries = Store.total measure' entries := by
  have equal : entries.entries.map (fun cell => measure cell.1 cell.2) =
      entries.entries.map (fun cell => measure' cell.1 cell.2) := by
    apply List.map_congr_left
    intro cell member
    exact same cell.1 cell.2 (AList.mem_lookup_iff.mpr member)
  rw [Store.total,Store.total,equal]

/-- Booking one record anew changes the total by the difference. -/
theorem total_update [DecidableEq ι] {k : κ} {i : ι} (amount : Nat) (entry : entries.lookup k = some i)
    (single : ∀ k', entries.lookup k' = some i → k' = k) :
    Store.total (fun _ j => ((Function.update booked i amount j : Nat) : Int)) entries =
      Store.total (fun _ j => (booked j : Int)) entries - booked i + amount := by
  have others : Store.total (fun _ j => ((Function.update booked i amount j : Nat) : Int)) (entries.erase k) =
      Store.total (fun _ j => (booked j : Int)) (entries.erase k) := by
    apply total_congr
    intro k' j present
    rw [Store.lookup_erase_eq] at present
    split at present
    next => contradiction
    next elsewhere =>
      have other : j ≠ i := by
        rintro rfl
        exact elsewhere (single k' present)
      simp [other]
  have before := Store.total_erase (fun _ j => (booked j : Int)) entries k
  have after := Store.total_erase (fun _ j => ((Function.update booked i amount j : Nat) : Int)) entries k
  rw [Store.share_some _ entry] at before after
  rw [Function.update_self] at after
  omega

/-- What is booked for a record is part of the total. -/
theorem booked_le_total {k : κ} {i : ι} (entry : entries.lookup k = some i) :
    (booked i : Int) ≤ Store.total (fun _ j => (booked j : Int)) entries :=
  Store.measure_le_total (fun _ j => (booked j : Int)) (fun _ _ => Int.natCast_nonneg _) entry

end totals

/-- The record a task has touched. -/
def Touch.id : Touch κ ι → ι
  | .opened _ i _ _ | .condemned _ i => i

section steps
variable {booked : ι → Nat} {holder : ι → Option Nat} {a : Account κ ι} (books : Books booked holder a)
include books

theorem Books.booked_le {k : κ} {i : ι} (entry : a.entries.lookup k = some i) :
    booked i ≤ a.counter := by
  have part := booked_le_total booked entry
  have whole := books.counter
  omega

theorem Books.touched {t : Nat} {i : ι} (holds : holder i = some t) :
    ∃ touch, a.touches t = some touch ∧ touch.id = i := by
  rcases books.held t i holds with ⟨k,cell,previous,touch,_⟩ | ⟨k,touch⟩
  · exact ⟨_,touch,rfl⟩
  · exact ⟨_,touch,rfl⟩

theorem Books.free {i : ι} (closed : ¬ a.Updating i) (spared : ¬ a.Condemned i) : holder i = none := by
  cases holds : holder i with
  | none => rfl
  | some t =>
    rcases books.held t i holds with ⟨k,cell,previous,touch,found⟩ | ⟨k,touch⟩
    · exact absurd ⟨t,k,cell,previous,touch,found⟩ closed
    · exact absurd ⟨t,k,touch⟩ spared

/-- A live record that no task has open is booked with its amount. -/
theorem Books.live {k : κ} {i : ι} {cell : Cell} (live : a.Live k i) (found : a.cells i = some cell)
    (closed : ¬ a.Updating i) : booked i = cell.amount :=
  books.settled k i cell live.1 found (books.free closed live.2)

/-- So is one that whoever opened it found as large as it is. -/
theorem Books.square {k : κ} {i : ι} {cell : Cell} (live : a.Live k i) (found : a.cells i = some cell)
    (square : a.Square i) : booked i = cell.amount := by
  by_cases updating : a.Updating i
  · obtain ⟨t,k',cell',previous,touch,found'⟩ := updating
    obtain rfl : cell = cell' := Option.some.inj (found.symm.trans found')
    rw [(books.opened t k' i cell previous touch found).2.1,square t k' cell previous touch found]
  · exact books.live live found updating

/-- Bytes are counted ahead for a record that is not in the map yet. -/
theorem Books.ahead (amount : Nat) : Books booked holder
    { a with counter := a.counter + amount, pending := a.pending + amount } := by
  have counter := books.counter
  refine ⟨?_,books.single,books.settled,books.issued,books.opened,books.condemned,books.held⟩
  simp only [Nat.cast_add]
  omega

/-- A task lets go of a record that is as large as it found it, or that another
task has opened since. -/
theorem Books.close {t : Nat}
    (square : ∀ k i cell previous, a.touches t = some (.opened k i cell.generation previous) →
      a.cells i = some cell → previous = cell.amount)
    (kept : ∀ k i, a.touches t ≠ some (.condemned k i)) :
    Books booked (fun i => if holder i = some t then none else holder i)
      { a with touches := Function.update a.touches t none } := by
  have earlier {u : Nat} {touch : Touch κ ι} (now : Function.update a.touches t none u = some touch) :
      u ≠ t ∧ a.touches u = some touch := by
    by_cases same : u = t
    · subst same
      simp at now
    · exact ⟨same,by simpa [same] using now⟩
  have stays {u : Nat} {i : ι} (other : u ≠ t) (holds : holder i = some u) :
      (if holder i = some t then none else holder i) = some u := by
    rw [holds,if_neg (by simpa using other)]
  refine ⟨books.counter,books.single,?_,?_,?_,?_,?_⟩
  · intro k i cell entry found free
    by_cases own : holder i = some t
    · rcases books.held t i own with ⟨k',cell',previous,touch,found'⟩ | ⟨k',touch⟩
      · obtain rfl : cell = cell' := Option.some.inj (found.symm.trans found')
        rw [(books.opened t k' i cell previous touch found).2.1]
        exact square k' i cell previous touch found
      · exact absurd touch (kept k' i)
    · exact books.settled k i cell entry found (by simpa [own] using free)
  · intro u k i generation previous touch
    exact books.issued u k i generation previous (earlier touch).2
  · intro u k i cell previous touch found
    obtain ⟨other,before⟩ := earlier touch
    obtain ⟨holds,rest⟩ := books.opened u k i cell previous before found
    exact ⟨stays other holds,rest⟩
  · intro u k i touch
    obtain ⟨other,before⟩ := earlier touch
    obtain ⟨holds,rest⟩ := books.condemned u k i before
    exact ⟨stays other holds,rest⟩
  · intro u i holds
    split at holds
    next => contradiction
    next free =>
      have other : u ≠ t := by
        rintro rfl
        exact free holds
      simpa [other] using books.held u i holds

section
variable [DecidableEq ι]

/-- A step that measures, opens, settles or condemns one record is judged at
that record alone. -/
theorem Books.change {t : Nat} {k : κ} {i : ι} {cell cell' : Cell} {counter amount : Nat}
    {touch : Option (Touch κ ι)} {hold : Option Nat}
    (entry : a.entries.lookup k = some i) (found : a.cells i = some cell)
    (own : ∀ old, a.touches t = some old → old.id = i) (mine : ∀ new, touch = some new → new.id = i)
    (newer : cell.generation ≤ cell'.generation)
    (counted : (counter : Int) = a.counter - booked i + amount)
    (settled : hold = none → amount = cell'.amount)
    (issued : ∀ k' generation previous, touch = some (.opened k' i generation previous) →
      generation ≤ cell'.generation)
    (opened : ∀ u k' previous,
      Function.update a.touches t touch u = some (.opened k' i cell'.generation previous) →
        hold = some u ∧ amount = previous ∧ k' = k)
    (condemned : ∀ u k', Function.update a.touches t touch u = some (.condemned k' i) →
      hold = some u ∧ amount = 0 ∧ k' = k)
    (held : ∀ u, hold = some u →
      (∃ k' previous, Function.update a.touches t touch u = some (.opened k' i cell'.generation previous)) ∨
        ∃ k', Function.update a.touches t touch u = some (.condemned k' i)) :
    Books (Function.update booked i amount) (Function.update holder i hold)
      { a with
        counter
        cells := Function.update a.cells i (some cell')
        touches := Function.update a.touches t touch } := by
  have elsewhere {u : Nat} {x : Touch κ ι} (other : x.id ≠ i)
      (now : Function.update a.touches t touch u = some x) : u ≠ t ∧ a.touches u = some x := by
    by_cases same : u = t
    · subst same
      exact absurd (mine x (by simpa using now)) other
    · exact ⟨same,by simpa [same] using now⟩
  have kept {u : Nat} {x : Touch κ ι} (other : x.id ≠ i) (before : a.touches u = some x) :
      Function.update a.touches t touch u = some x := by
    have differs : u ≠ t := by
      rintro rfl
      exact other (own x before)
    simpa [differs] using before
  refine ⟨?_,books.single,?_,?_,?_,?_,?_⟩
  · have before := books.counter
    have total := total_update booked amount entry fun k' entry' =>
      books.single k' k i entry' entry
    simp only [counted,total,before]
    omega
  · intro k' j c entry' found' free
    by_cases same : j = i
    · subst same
      have now : cell' = c := by simpa using found'
      simpa [← now] using settled (by simpa using free)
    · simpa [same] using books.settled k' j c entry' (by simpa [same] using found')
        (by simpa [same] using free)
  · intro u k' j generation previous now
    by_cases same : j = i
    · subst same
      refine ⟨cell',by simp,?_⟩
      by_cases here : u = t
      · subst here
        exact issued k' generation previous (by simpa using now)
      · obtain ⟨c,found',older⟩ :=
          books.issued u k' j generation previous (by simpa [here] using now)
        obtain rfl : cell = c := Option.some.inj (found.symm.trans found')
        exact older.trans newer
    · obtain ⟨_,before⟩ := elsewhere (x := .opened k' j generation previous) same now
      obtain ⟨c,found',older⟩ := books.issued u k' j generation previous before
      exact ⟨c,by simpa [same] using found',older⟩
  · intro u k' j c previous now found'
    by_cases same : j = i
    · subst same
      have equal : cell' = c := by simpa using found'
      subst equal
      obtain ⟨holds,booking,rfl⟩ := opened u k' previous now
      exact ⟨by simpa using holds,by simpa using booking,entry⟩
    · obtain ⟨_,before⟩ := elsewhere (x := .opened k' j c.generation previous) same now
      simpa [same] using books.opened u k' j c previous before (by simpa [same] using found')
  · intro u k' j now
    by_cases same : j = i
    · subst same
      obtain ⟨holds,booking,rfl⟩ := condemned u k' now
      exact ⟨by simpa using holds,by simpa using booking,entry⟩
    · obtain ⟨_,before⟩ := elsewhere (x := .condemned k' j) same now
      simpa [same] using books.condemned u k' j before
  · intro u j holds
    by_cases same : j = i
    · subst same
      rcases held u (by simpa using holds) with ⟨k',previous,now⟩ | ⟨k',now⟩
      · exact .inl ⟨k',cell',previous,now,by simp⟩
      · exact .inr ⟨k',now⟩
    · rcases books.held u j (by simpa [same] using holds) with ⟨k',c,previous,before,found'⟩ | ⟨k',before⟩
      · exact .inl ⟨k',c,previous,kept (x := .opened k' j c.generation previous) same before,
          by simpa [same] using found'⟩
      · exact .inr ⟨k',kept (x := .condemned k' j) same before⟩

/-- A task opens a live record at a new generation. -/
theorem Books.begin {t : Nat} {k : κ} {i : ι} {cell : Cell} (live : a.Live k i)
    (found : a.cells i = some cell) (square : a.Square i) (idle : a.touches t = none) (amount : Nat) :
    Books (Function.update booked i cell.amount) (Function.update holder i (some t))
      { a with
        cells := Function.update a.cells i (some ⟨cell.generation + 1,amount⟩)
        touches := Function.update a.touches t (some (.opened k i (cell.generation + 1) cell.amount)) } := by
  have stale {u : Nat} {k' : κ} {previous : Nat} (other : u ≠ t) :
      Function.update a.touches t (some (.opened k i (cell.generation + 1) cell.amount)) u ≠
        some (.opened k' i (cell.generation + 1) previous) := by
    intro now
    obtain ⟨c,found',older⟩ := books.issued u k' i _ previous (by simpa [other] using now)
    obtain rfl : cell = c := Option.some.inj (found.symm.trans found')
    exact absurd older (Nat.not_succ_le_self _)
  have booking := books.square live found square
  apply books.change live.1 found
  · intro old touch
    rw [idle] at touch
    cases touch
  · rintro new ⟨⟩
    rfl
  · exact Nat.le_succ _
  · omega
  · intro free
    cases free
  · rintro k' generation previous ⟨⟩
    exact le_rfl
  · intro u k' previous now
    by_cases own : u = t
    · subst own
      obtain ⟨rfl,rfl⟩ : k = k' ∧ cell.amount = previous := by simpa using now
      exact ⟨rfl,rfl,rfl⟩
    · exact absurd now (stale own)
  · intro u k' now
    by_cases own : u = t
    · subst own
      simp at now
    · exact absurd ⟨u,k',by simpa [own] using now⟩ live.2
  · rintro u ⟨⟩
    exact .inl ⟨k,cell.amount,by simp⟩

/-- The task that has a record open at its generation settles the difference. -/
theorem Books.settle {t : Nat} {k : κ} {i : ι} {cell : Cell} {previous counter amount : Nat}
    (touch : a.touches t = some (.opened k i cell.generation previous)) (found : a.cells i = some cell)
    (counted : (counter : Int) = a.counter - previous + amount) :
    Books (Function.update booked i amount) (Function.update holder i none)
      { a with
        counter
        cells := Function.update a.cells i (some ⟨cell.generation,amount⟩)
        touches := Function.update a.touches t none } := by
  obtain ⟨holds,booking,entry⟩ := books.opened t k i cell previous touch found
  have nobody {u : Nat} {x : Touch κ ι} (now : Function.update a.touches t none u = some x) :
      u ≠ t ∧ a.touches u = some x := by
    by_cases own : u = t
    · subst own
      simp at now
    · exact ⟨own,by simpa [own] using now⟩
  apply books.change entry found
  · intro old touch'
    obtain rfl := Option.some.inj (touch.symm.trans touch')
    rfl
  · intro new none_
    cases none_
  · exact le_rfl
  · rw [booking]
    exact counted
  · intro _
    rfl
  · intro k' generation previous' none_
    cases none_
  · intro u k' previous' now
    obtain ⟨other,before⟩ := nobody now
    have holds' := (books.opened u k' i cell previous' before found).1
    exact absurd (Option.some.inj (holds'.symm.trans holds)) other
  · intro u k' now
    obtain ⟨other,before⟩ := nobody now
    have holds' := (books.condemned u k' i before).1
    exact absurd (Option.some.inj (holds'.symm.trans holds)) other
  · intro u none_
    cases none_

/-- A live record that nobody has open is taken off the counter. -/
theorem Books.condemn {t : Nat} {k : κ} {i : ι} {cell : Cell} {counter : Nat} (live : a.Live k i)
    (found : a.cells i = some cell) (closed : ¬ a.Updating i) (idle : a.touches t = none)
    (counted : (counter : Int) = a.counter - cell.amount) :
    Books (Function.update booked i 0) (Function.update holder i (some t))
      { a with
        counter
        cells := Function.update a.cells i (some cell)
        touches := Function.update a.touches t (some (.condemned k i)) } := by
  have booking := books.live live found closed
  apply books.change live.1 found
  · intro old touch
    rw [idle] at touch
    cases touch
  · rintro new ⟨⟩
    rfl
  · exact le_rfl
  · rw [booking]
    simpa using counted
  · intro free
    cases free
  · intro k' generation previous other
    cases other
  · intro u k' previous now
    by_cases own : u = t
    · subst own
      simp at now
    · exact absurd ⟨u,k',cell,previous,by simpa [own] using now,found⟩ closed
  · intro u k' now
    by_cases own : u = t
    · subst own
      obtain rfl : k = k' := by simpa using now
      exact ⟨rfl,rfl,rfl⟩
    · exact absurd ⟨u,k',by simpa [own] using now⟩ live.2
  · rintro u ⟨⟩
    exact .inr ⟨k,by simp⟩

/-- A live record that nobody has open is measured and counted anew at once. -/
theorem Books.recount {t : Nat} {k : κ} {i : ι} {cell : Cell} {counter amount : Nat} (live : a.Live k i)
    (found : a.cells i = some cell) (closed : ¬ a.Updating i) (idle : a.touches t = none)
    (counted : (counter : Int) = a.counter - cell.amount + amount) :
    Books (Function.update booked i amount) (Function.update holder i none)
      { a with
        counter
        cells := Function.update a.cells i (some ⟨cell.generation,amount⟩)
        touches := Function.update a.touches t none } := by
  have booking := books.live live found closed
  apply books.change live.1 found
  · intro old touch
    rw [idle] at touch
    cases touch
  · intro new none_
    cases none_
  · exact le_rfl
  · rw [booking]
    exact counted
  · intro _
    rfl
  · intro k' generation previous none_
    cases none_
  · intro u k' previous now
    have other : u ≠ t := by
      rintro rfl
      simp at now
    exact absurd ⟨u,k',cell,previous,by simpa [other] using now,found⟩ closed
  · intro u k' now
    have other : u ≠ t := by
      rintro rfl
      simp at now
    exact absurd ⟨u,k',by simpa [other] using now⟩ live.2
  · intro u none_
    cases none_

/-- A condemned record leaves the map. -/
theorem Books.remove {t : Nat} {k : κ} {i : ι} (touch : a.touches t = some (.condemned k i)) :
    Books booked (Function.update holder i none)
      { a with
        entries := a.entries.erase k
        touches := Function.update a.touches t none } := by
  obtain ⟨holds,booking,entry⟩ := books.condemned t k i touch
  have nobody {u : Nat} {x : Touch κ ι} (now : Function.update a.touches t none u = some x) :
      u ≠ t ∧ a.touches u = some x := by
    by_cases own : u = t
    · subst own
      simp at now
    · exact ⟨own,by simpa [own] using now⟩
  have others {j : ι} {k' : κ} {u : Nat} (other : u ≠ t) (holds' : holder j = some u)
      (entry' : a.entries.lookup k' = some j) : j ≠ i ∧ (a.entries.erase k).lookup k' = some j := by
    have differs : j ≠ i := by
      rintro rfl
      exact other (Option.some.inj (holds'.symm.trans holds))
    have elsewhere : k' ≠ k := by
      rintro rfl
      exact differs (Option.some.inj (entry'.symm.trans entry))
    exact ⟨differs,by rw [Store.lookup_erase_eq,if_neg elsewhere,entry']⟩
  have earlier {k' : κ} {j : ι} (entry' : (a.entries.erase k).lookup k' = some j) :
      k' ≠ k ∧ a.entries.lookup k' = some j := by
    rw [Store.lookup_erase_eq] at entry'
    split at entry'
    next => contradiction
    next other => exact ⟨other,entry'⟩
  refine ⟨?_,?_,?_,?_,?_,?_,?_⟩
  · have before := books.counter
    simp only [Store.total_erase,Store.share_some _ entry,booking]
    omega
  · intro k₁ k₂ j first second
    exact books.single k₁ k₂ j (earlier first).2 (earlier second).2
  · intro k' j cell entry' found free
    obtain ⟨elsewhere,before⟩ := earlier entry'
    have differs : j ≠ i := by
      rintro rfl
      exact elsewhere (books.single k' k j before entry)
    exact books.settled k' j cell before found (by simpa [differs] using free)
  · intro u k' j generation previous now
    exact books.issued u k' j generation previous (nobody now).2
  · intro u k' j cell previous now found
    obtain ⟨other,before⟩ := nobody now
    obtain ⟨holds',booking',entry'⟩ := books.opened u k' j cell previous before found
    obtain ⟨differs,stays⟩ := others other holds' entry'
    exact ⟨by simpa [differs] using holds',booking',stays⟩
  · intro u k' j now
    obtain ⟨other,before⟩ := nobody now
    obtain ⟨holds',booking',entry'⟩ := books.condemned u k' j before
    obtain ⟨differs,stays⟩ := others other holds' entry'
    exact ⟨by simpa [differs] using holds',booking',stays⟩
  · intro u j holds'
    have differs : j ≠ i := by
      rintro rfl
      simp at holds'
    have holds'' : holder j = some u := by simpa [differs] using holds'
    have other : u ≠ t := by
      rintro rfl
      obtain ⟨x,touch',named⟩ := books.touched holds''
      obtain rfl := Option.some.inj (touch.symm.trans touch')
      exact differs named.symm
    simpa [other] using books.held u j holds''

/-- A new record that was counted ahead enters the map at a free key. -/
theorem Books.enter {k : κ} {i : ι} {amount pending generation : Nat} (free : a.entries.lookup k = none)
    (fresh : a.cells i = none) (unused : ∀ k', a.entries.lookup k' ≠ some i)
    (counted : a.pending = pending + amount) :
    Books (Function.update booked i amount) (Function.update holder i none)
      { a with
        pending
        entries := a.entries.insert k i
        cells := Function.update a.cells i (some ⟨generation,amount⟩) } := by
  have other {u : Nat} {k' : κ} {j : ι} (holds : holder j = some u)
      (entry : a.entries.lookup k' = some j) : j ≠ i ∧ (a.entries.insert k i).lookup k' = some j := by
    have differs : j ≠ i := by
      rintro rfl
      exact unused k' entry
    have elsewhere : k' ≠ k := by
      rintro rfl
      rw [free] at entry
      cases entry
    exact ⟨differs,by rw [Store.lookup_insert_eq,if_neg elsewhere,entry]⟩
  have earlier {k' : κ} {j : ι} (entry : (a.entries.insert k i).lookup k' = some j) :
      (k' = k ∧ j = i) ∨ (j ≠ i ∧ a.entries.lookup k' = some j) := by
    rw [Store.lookup_insert_eq] at entry
    split at entry
    next same =>
      cases entry
      exact .inl ⟨same,rfl⟩
    next =>
      refine .inr ⟨?_,entry⟩
      rintro rfl
      exact unused k' entry
  refine ⟨?_,?_,?_,?_,?_,?_,?_⟩
  · have before := books.counter
    have others : Store.total (fun _ j => ((Function.update booked i amount j : Nat) : Int)) a.entries =
        Store.total (fun _ j => (booked j : Int)) a.entries := by
      apply total_congr
      intro k' j entry
      have differs : j ≠ i := by
        rintro rfl
        exact unused k' entry
      simp [differs]
    simp only [Store.total_insert,Store.share_none _ free,others,Function.update_self]
    omega
  · intro k₁ k₂ j first second
    rcases earlier first with ⟨rfl,rfl⟩ | ⟨differs,first⟩
    · rcases earlier second with ⟨rfl,_⟩ | ⟨differs,_⟩
      · rfl
      · exact absurd rfl differs
    · rcases earlier second with ⟨_,same⟩ | ⟨_,second⟩
      · exact absurd same differs
      · exact books.single k₁ k₂ j first second
  · intro k' j cell entry found idle
    rcases earlier entry with ⟨rfl,rfl⟩ | ⟨differs,before⟩
    · have now : (⟨generation,amount⟩ : Cell) = cell := by simpa using found
      simp [← now]
    · simpa [differs] using books.settled k' j cell before (by simpa [differs] using found)
        (by simpa [differs] using idle)
  · intro u k' j g previous touch
    obtain ⟨cell,found,older⟩ := books.issued u k' j g previous touch
    have differs : j ≠ i := by
      rintro rfl
      rw [fresh] at found
      cases found
    exact ⟨cell,by simpa [differs] using found,older⟩
  · intro u k' j cell previous touch found
    obtain ⟨old,found',_⟩ := books.issued u k' j _ previous touch
    have differs : j ≠ i := by
      rintro rfl
      rw [fresh] at found'
      cases found'
    obtain ⟨holds,booking,entry⟩ :=
      books.opened u k' j cell previous touch (by simpa [differs] using found)
    exact ⟨by simpa [differs] using holds,by simpa [differs] using booking,(other holds entry).2⟩
  · intro u k' j touch
    obtain ⟨holds,booking,entry⟩ := books.condemned u k' j touch
    obtain ⟨differs,stays⟩ := other holds entry
    exact ⟨by simpa [differs] using holds,by simpa [differs] using booking,stays⟩
  · intro u j holds
    have differs : j ≠ i := by
      rintro rfl
      simp at holds
    rcases books.held u j (by simpa [differs] using holds) with ⟨k',cell,previous,touch,found⟩ | condemned
    · exact .inl ⟨k',cell,previous,touch,by simpa [differs] using found⟩
    · exact .inr condemned

end

/-- At rest the counter is the sum of the amounts in the map. -/
theorem Books.at_rest (nothingPending : a.pending = 0) (untouched : ∀ t, a.touches t = none)
    (filled : ∀ k i, a.entries.lookup k = some i → (a.cells i).isSome = true) :
    (a.counter : Int) =
      Store.total (fun _ i => (((a.cells i).map Cell.amount).getD 0 : Int)) a.entries := by
  have counted := books.counter
  rw [counted,nothingPending]
  have same : Store.total (fun _ i => (booked i : Int)) a.entries =
      Store.total (fun _ i => (((a.cells i).map Cell.amount).getD 0 : Int)) a.entries := by
    apply total_congr
    intro k i entry
    obtain ⟨cell,found⟩ := Option.isSome_iff_exists.mp (filled k i entry)
    have free : holder i = none := by
      apply books.free
      · rintro ⟨t,k',cell',previous,touch,_⟩
        rw [untouched] at touch
        cases touch
      · rintro ⟨t,k',touch⟩
        rw [untouched] at touch
        cases touch
    rw [books.settled k i cell entry found free,found]
    rfl
  simpa using same
end steps
end StorageHub.Library.Ledger
