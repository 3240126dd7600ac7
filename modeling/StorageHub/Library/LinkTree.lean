import Mathlib.Data.List.Infix
import Mathlib.Logic.Function.Basic

/-! Trees of files, directories and symbolic links, and how a path leads through
them. Links are followed a limited number of times; a path may lead out of the
part of the tree that is known. -/
namespace StorageHub.Library.LinkTree

inductive Step (α : Type)
  | here
  | up
  | enter (name : α)
  deriving DecidableEq

/-- Where a link leads: from the root or from the directory it lies in. -/
structure Target (α : Type) where
  absolute : Bool
  steps : List (Step α)

inductive Node (α δ τ : Type)
  | file (data : δ)
  | link (text : τ)
  | dir (names : List α) (child : α → Node α δ τ)

inductive Kind (τ : Type)
  | file
  | link (text : τ)
  | dir
  deriving DecidableEq

variable {α δ τ : Type}

namespace Node

def kind : Node α δ τ → Kind τ
  | file _ => .file
  | link text => .link text
  | dir _ _ => .dir

variable [DecidableEq α]

/-- What lies at a path, no link being followed. -/
def find : Node α δ τ → List α → Option (Node α δ τ)
  | t, [] => some t
  | dir names child, name::rest => if name ∈ names then (child name).find rest else none
  | file _, _::_ | link _, _::_ => none

def kindAt (t : Node α δ τ) (path : List α) : Option (Kind τ) := (t.find path).map kind

/-- The tree with another one put at a path, with the directories above it. -/
def graft (new : Node α δ τ) : List α → Node α δ τ → Node α δ τ
  | [], _ => new
  | name::rest, dir names child =>
    dir (if name ∈ names then names else names ++ [name])
      (Function.update child name (graft new rest (if name ∈ names then child name else dir [] child)))
  | name::rest, other => dir [name] fun _ => graft new rest other

variable {t new sub : Node α δ τ} {path rest other : List α} {name : α}

@[simp] theorem find_nil : t.find [] = some t := by cases t <;> rfl

theorem find_append (t : Node α δ τ) (path rest : List α) :
    t.find (path ++ rest) = (t.find path).bind (·.find rest) := by
  induction path generalizing t with
  | nil => simp
  | cons name tail ih =>
    cases t with
    | file data => simp [find]
    | link text => simp [find]
    | dir names child =>
      by_cases listed : name ∈ names
      · simp [find,listed,ih]
      · simp [find,listed]

/-- Above what is found there are directories. -/
theorem find_above (found : t.find path = some sub) (above : other <+: path) (strict : other ≠ path) :
    ∃ names child, t.find other = some (dir names child) := by
  obtain ⟨rest,split⟩ := above
  rw [← split,find_append] at found
  obtain ⟨middle,reached,below⟩ := Option.bind_eq_some_iff.mp found
  have further : rest ≠ [] := by
    intro nothing
    rw [nothing,List.append_nil] at split
    exact strict split
  cases middle with
  | dir names child => exact ⟨names,child,reached⟩
  | file data =>
    cases rest with
    | nil => exact absurd rfl further
    | cons c tail => simp [find] at below
  | link text =>
    cases rest with
    | nil => exact absurd rfl further
    | cons c tail => simp [find] at below

theorem listed_of_find {names : List α} {child : α → Node α δ τ}
    (here : t.find path = some (dir names child)) (found : t.find (path ++ [name]) = some sub) :
    name ∈ names := by
  rw [find_append,here] at found
  by_contra missing
  simp [find,missing] at found

theorem find_graft (new : Node α δ τ) (path : List α) (t : Node α δ τ) (rest : List α) :
    (graft new path t).find (path ++ rest) = new.find rest := by
  induction path generalizing t with
  | nil => rfl
  | cons name tail ih =>
    have listed (names : List α) : name ∈ (if name ∈ names then names else names ++ [name]) := by
      split
      next present => exact present
      next => simp
    cases t with
    | dir names child => rw [graft,List.cons_append,find,if_pos (listed names),Function.update_self,ih]
    | file data => simp [graft,find,ih]
    | link text => simp [graft,find,ih]

/-- Elsewhere the tree stays. -/
theorem find_graft_apart (new : Node α δ τ) (t : Node α δ τ) (below : ¬ path <+: other) (above : ¬ other <+: path) :
    (graft new path t).find other = t.find other := by
  induction path generalizing t other with
  | nil => exact absurd (List.nil_prefix) below
  | cons name tail ih =>
    cases other with
    | nil => exact absurd (List.nil_prefix) above
    | cons c rest =>
      rw [List.cons_prefix_cons] at below above
      by_cases same : c = name
      · subst same
        have below : ¬ tail <+: rest := fun short => below ⟨rfl,short⟩
        have above : ¬ rest <+: tail := fun short => above ⟨rfl,short⟩
        have further : rest ≠ [] := fun nothing => above (by rw [nothing]; exact List.nil_prefix)
        obtain ⟨d,more,split⟩ := List.exists_cons_of_ne_nil further
        cases t with
        | file data =>
          have nowhere : (file data : Node α δ τ).find rest = none := by rw [split]; rfl
          simp [graft,find,ih _ below above,nowhere]
        | link text =>
          have nowhere : (link text : Node α δ τ).find rest = none := by rw [split]; rfl
          simp [graft,find,ih _ below above,nowhere]
        | dir names child =>
          by_cases listed : c ∈ names
          · simp [graft,find,listed,ih _ below above]
          · have nowhere : (dir [] child : Node α δ τ).find rest = none := by rw [split]; simp [find]
            simp [graft,find,listed,ih _ below above,nowhere]
      · have apart : name ≠ c := fun equal => same equal.symm
        cases t with
        | file data => simp [graft,find,same]
        | link text => simp [graft,find,same]
        | dir names child =>
          have listed : (c ∈ if name ∈ names then names else names ++ [name]) ↔ c ∈ names := by
            split
            next => rfl
            next => simp [same]
          simp [graft,find,listed,Function.update_of_ne same]

end Node

/-! ### Resolution -/

section resolution
variable (parse : τ → Target α)

/-- The steps of a path from a directory, `onLink` going on at a link with the
directory and the steps that are then left. -/
def follow (kindAt : List α → Option (Kind τ)) (onLink : List α → List (Step α) → Option (List α)) :
    List α → List (Step α) → Option (List α)
  | dir, [] => some dir
  | dir, .here::rest => follow kindAt onLink dir rest
  | dir, .up::rest => follow kindAt onLink dir.dropLast rest
  | dir, .enter name::rest =>
    match kindAt (dir ++ [name]) with
    | none => none
    | some .dir => follow kindAt onLink (dir ++ [name]) rest
    | some .file => if rest.isEmpty then some (dir ++ [name]) else none
    | some (.link text) =>
      onLink (if (parse text).absolute then [] else dir) ((parse text).steps ++ rest)

/-- Where a path leads when at most so many links are followed. -/
def resolve (kindAt : List α → Option (Kind τ)) : Nat → List α → List (Step α) → Option (List α)
  | 0 => follow parse kindAt fun _ _ => none
  | limit + 1 => follow parse kindAt (resolve kindAt limit)

/-- Where a survey of a path halts: before a name in a directory that is not in
the known part, with the steps and the number of links that are left. -/
structure Halt (α : Type) where
  dir : List α
  name : α
  rest : List (Step α)
  left : Nat

/-- As `follow`, where only a part of the tree is known. -/
def surveyFollow (known : List α → Option (Option (Kind τ))) (left : Nat)
    (onLink : List α → List (Step α) → Except (Halt α) (Option (List α))) :
    List α → List (Step α) → Except (Halt α) (Option (List α))
  | dir, [] => .ok (some dir)
  | dir, .here::rest => surveyFollow known left onLink dir rest
  | dir, .up::rest => surveyFollow known left onLink dir.dropLast rest
  | dir, .enter name::rest =>
    match known (dir ++ [name]) with
    | none => .error ⟨dir,name,rest,left⟩
    | some none => .ok none
    | some (some .dir) => surveyFollow known left onLink (dir ++ [name]) rest
    | some (some .file) => .ok (if rest.isEmpty then some (dir ++ [name]) else none)
    | some (some (.link text)) =>
      onLink (if (parse text).absolute then [] else dir) ((parse text).steps ++ rest)

def survey (known : List α → Option (Option (Kind τ))) :
    Nat → List α → List (Step α) → Except (Halt α) (Option (List α))
  | 0 => surveyFollow parse known 0 fun _ _ => .ok none
  | limit + 1 => surveyFollow parse known (limit + 1) (survey known limit)

variable {parse} {kindAt : List α → Option (Kind τ)} {known : List α → Option (Option (Kind τ))}

theorem follow_of_survey (agrees : ∀ path kind, known path = some kind → kindAt path = kind)
    {left : Nat} {onLink : List α → List (Step α) → Except (Halt α) (Option (List α))}
    {onLink' : List α → List (Step α) → Option (List α)}
    (links : ∀ dir steps result, onLink dir steps = .ok result → onLink' dir steps = result)
    {dir : List α} {steps : List (Step α)} {result : Option (List α)}
    (surveyed : surveyFollow parse known left onLink dir steps = .ok result) :
    follow parse kindAt onLink' dir steps = result := by
  induction steps generalizing dir with
  | nil => simpa [surveyFollow,follow] using surveyed
  | cons step rest ih =>
    cases step with
    | here => exact ih surveyed
    | up => exact ih surveyed
    | enter name =>
      rw [surveyFollow] at surveyed
      rw [follow]
      split at surveyed
      next => cases surveyed
      next missing =>
        rw [agrees _ _ missing]
        exact Except.ok.inj surveyed
      next found =>
        rw [agrees _ _ found]
        exact ih surveyed
      next found =>
        rw [agrees _ _ found]
        exact Except.ok.inj surveyed
      next found =>
        rw [agrees _ _ found]
        exact links _ _ _ surveyed

/-- What the survey finds is so in every tree with the known part. -/
theorem resolve_of_survey (agrees : ∀ path kind, known path = some kind → kindAt path = kind)
    {limit : Nat} {dir : List α} {steps : List (Step α)} {result : Option (List α)}
    (surveyed : survey parse known limit dir steps = .ok result) :
    resolve parse kindAt limit dir steps = result := by
  induction limit generalizing dir steps result with
  | zero => exact follow_of_survey agrees (fun _ _ _ same => Except.ok.inj same) surveyed
  | succ limit ih => exact follow_of_survey agrees (fun _ _ _ same => ih same) surveyed

theorem follow_of_halt (agrees : ∀ path kind, known path = some kind → kindAt path = kind)
    {left : Nat} {onLink : List α → List (Step α) → Except (Halt α) (Option (List α))}
    (onLink' : List α → List (Step α) → Option (List α)) {dir : List α} {steps : List (Step α)} {halt : Halt α}
    (halted : surveyFollow parse known left onLink dir steps = .error halt) :
    halt.left = left ∧ follow parse kindAt onLink' dir steps =
        follow parse kindAt onLink' halt.dir (.enter halt.name::halt.rest) ∨
      ∃ dir' steps', onLink dir' steps' = .error halt ∧
        follow parse kindAt onLink' dir steps = onLink' dir' steps' := by
  induction steps generalizing dir with
  | nil => simp [surveyFollow] at halted
  | cons step rest ih =>
    cases step with
    | here => exact ih halted
    | up => exact ih halted
    | enter name =>
      rw [surveyFollow] at halted
      split at halted
      next =>
        obtain rfl := Except.error.inj halted
        exact .inl ⟨rfl,rfl⟩
      next => cases halted
      next found =>
        rw [follow,agrees _ _ found]
        exact ih halted
      next => cases halted
      next text found =>
        refine .inr ⟨_,_,halted,?_⟩
        rw [follow,agrees _ _ found]

/-- Where a survey halts every tree with the known part decides how it goes on. -/
theorem resolve_of_halt (agrees : ∀ path kind, known path = some kind → kindAt path = kind)
    {limit : Nat} {dir : List α} {steps : List (Step α)} {halt : Halt α}
    (halted : survey parse known limit dir steps = .error halt) :
    resolve parse kindAt limit dir steps =
      resolve parse kindAt halt.left halt.dir (.enter halt.name::halt.rest) := by
  induction limit generalizing dir steps with
  | zero =>
    rcases follow_of_halt agrees (fun _ _ => none) halted with ⟨left,same⟩ | ⟨_,_,impossible,-⟩
    · rw [left]
      exact same
    · cases impossible
  | succ limit ih =>
    rcases follow_of_halt agrees (resolve parse kindAt limit) halted with ⟨left,same⟩ | ⟨_,_,further,same⟩
    · rw [left]
      exact same
    · exact same.trans (ih further)

/-- The survey halts in a known directory, where those above a known directory are. -/
theorem unseen_of_halt (closed : ∀ path : List α, known path = some (some .dir) →
      known path.dropLast = some (some .dir)) (rooted : known [] = some (some .dir))
    {limit : Nat} {dir : List α} {steps : List (Step α)} {halt : Halt α}
    (start : known dir = some (some .dir)) (halted : survey parse known limit dir steps = .error halt) :
    known halt.dir = some (some .dir) ∧ known (halt.dir ++ [halt.name]) = none := by
  have level (left : Nat) (onLink : List α → List (Step α) → Except (Halt α) (Option (List α)))
      (links : ∀ dir steps, known dir = some (some .dir) → onLink dir steps = .error halt →
        known halt.dir = some (some .dir) ∧ known (halt.dir ++ [halt.name]) = none)
      {dir : List α} {steps : List (Step α)} (start : known dir = some (some .dir))
      (halted : surveyFollow parse known left onLink dir steps = .error halt) :
      known halt.dir = some (some .dir) ∧ known (halt.dir ++ [halt.name]) = none := by
    induction steps generalizing dir with
    | nil => simp [surveyFollow] at halted
    | cons step rest ih =>
      cases step with
      | here => exact ih start halted
      | up => exact ih (closed dir start) halted
      | enter name =>
        rw [surveyFollow] at halted
        split at halted
        next unseen =>
          obtain rfl := Except.error.inj halted
          exact ⟨start,unseen⟩
        next => cases halted
        next found => exact ih found halted
        next => cases halted
        next =>
          apply links _ _ _ halted
          split
          · exact rooted
          · exact start
  induction limit generalizing dir steps with
  | zero => exact level 0 (fun _ _ => .ok none) (fun _ _ _ impossible => by cases impossible) start halted
  | succ limit ih =>
    exact level (limit + 1) (survey parse known limit) (fun _ _ start further => ih start further) start halted

/-- A path leads to a known directory or file. -/
theorem known_of_survey (closed : ∀ path : List α, known path = some (some .dir) →
      known path.dropLast = some (some .dir)) (rooted : known [] = some (some .dir))
    {limit : Nat} {dir path : List α} {steps : List (Step α)} (start : known dir = some (some .dir))
    (found : survey parse known limit dir steps = .ok (some path)) :
    known path = some (some .dir) ∨ known path = some (some .file) := by
  have level (left : Nat) (onLink : List α → List (Step α) → Except (Halt α) (Option (List α)))
      (links : ∀ dir steps, known dir = some (some .dir) → onLink dir steps = .ok (some path) →
        known path = some (some .dir) ∨ known path = some (some .file))
      {dir : List α} {steps : List (Step α)} (start : known dir = some (some .dir))
      (found : surveyFollow parse known left onLink dir steps = .ok (some path)) :
      known path = some (some .dir) ∨ known path = some (some .file) := by
    induction steps generalizing dir with
    | nil =>
      obtain rfl := Option.some.inj (Except.ok.inj found)
      exact .inl start
    | cons step rest ih =>
      cases step with
      | here => exact ih start found
      | up => exact ih (closed dir start) found
      | enter name =>
        rw [surveyFollow] at found
        split at found
        next => cases found
        next => cases found
        next directory => exact ih directory found
        next file =>
          have ended := Except.ok.inj found
          split at ended
          next => exact .inr (by rw [← Option.some.inj ended,file])
          next => cases ended
        next =>
          apply links _ _ _ found
          split
          · exact rooted
          · exact start
  induction limit generalizing dir steps with
  | zero => exact level 0 (fun _ _ => .ok none) (fun _ _ _ impossible => by cases impossible) start found
  | succ limit ih =>
    exact level (limit + 1) (survey parse known limit) (fun _ _ start further => ih start further) start found

theorem surveyFollow_more {left left' : Nat}
    {onLink onLink' : List α → List (Step α) → Except (Halt α) (Option (List α))}
    (links : ∀ dir steps path, onLink dir steps = .ok (some path) → onLink' dir steps = .ok (some path))
    {dir path : List α} {steps : List (Step α)}
    (found : surveyFollow parse known left onLink dir steps = .ok (some path)) :
    surveyFollow parse known left' onLink' dir steps = .ok (some path) := by
  induction steps generalizing dir with
  | nil => simpa [surveyFollow] using found
  | cons step rest ih =>
    cases step with
    | here => exact ih found
    | up => exact ih found
    | enter name =>
      rw [surveyFollow] at found ⊢
      split at found
      next => cases found
      next => cases found
      next => exact ih found
      next => exact found
      next => exact links _ _ _ found

theorem surveyFollow_more_halt {left : Nat}
    {onLink onLink' : List α → List (Step α) → Except (Halt α) (Option (List α))}
    (links : ∀ dir steps halt, onLink dir steps = .error halt →
      onLink' dir steps = .error { halt with left := halt.left + 1 })
    {dir : List α} {steps : List (Step α)} {halt : Halt α}
    (halted : surveyFollow parse known left onLink dir steps = .error halt) :
    surveyFollow parse known (left + 1) onLink' dir steps = .error { halt with left := halt.left + 1 } := by
  induction steps generalizing dir with
  | nil => simp [surveyFollow] at halted
  | cons step rest ih =>
    cases step with
    | here => exact ih halted
    | up => exact ih halted
    | enter name =>
      rw [surveyFollow] at halted ⊢
      split at halted
      next =>
        obtain rfl := Except.error.inj halted
        rfl
      next => cases halted
      next => exact ih halted
      next => cases halted
      next => exact links _ _ _ halted

/-- With one more link to follow, what was found is found, and a halt is one with
a link more left. -/
theorem survey_more {limit : Nat} {dir : List α} {steps : List (Step α)} :
    (∀ path, survey parse known limit dir steps = .ok (some path) →
      survey parse known (limit + 1) dir steps = .ok (some path)) ∧
    ∀ halt, survey parse known limit dir steps = .error halt →
      survey parse known (limit + 1) dir steps = .error { halt with left := halt.left + 1 } := by
  induction limit generalizing dir steps with
  | zero =>
    refine ⟨fun path found => ?_,fun halt halted => ?_⟩
    · exact surveyFollow_more (fun _ _ _ impossible => by cases impossible) found
    · exact surveyFollow_more_halt (fun _ _ _ impossible => by cases impossible) halted
  | succ limit ih =>
    refine ⟨fun path found => ?_,fun halt halted => ?_⟩
    · exact surveyFollow_more (fun _ _ _ found => ih.1 _ found) found
    · exact surveyFollow_more_halt (fun _ _ _ halted => ih.2 _ halted) halted

/-- A path that leads to a directory leads on into it. -/
theorem resolve_append {limit : Nat} {dir path : List α} {steps : List (Step α)}
    (resolved : resolve parse kindAt limit dir steps = some path) (directory : kindAt path = some .dir)
    (more : List (Step α)) :
    ∃ left, resolve parse kindAt limit dir (steps ++ more) = resolve parse kindAt left path more := by
  have level (onLink : List α → List (Step α) → Option (List α))
      (links : ∀ dir steps, onLink dir steps = some path →
        ∃ left, onLink dir (steps ++ more) = resolve parse kindAt left path more)
      (left : Nat) (this : ∀ dir steps, follow parse kindAt onLink dir steps = resolve parse kindAt left dir steps)
      {dir : List α} {steps : List (Step α)} (resolved : follow parse kindAt onLink dir steps = some path) :
      ∃ left, follow parse kindAt onLink dir (steps ++ more) = resolve parse kindAt left path more := by
    induction steps generalizing dir with
    | nil =>
      obtain rfl := Option.some.inj resolved
      exact ⟨left,this dir more⟩
    | cons step rest ih =>
      cases step with
      | here => exact ih resolved
      | up => exact ih resolved
      | enter name =>
        rw [List.cons_append,follow]
        rw [follow] at resolved
        split at resolved
        next => cases resolved
        next found => exact ih resolved
        next found =>
          split at resolved
          next => rw [Option.some.inj resolved,directory] at found; cases found
          next => cases resolved
        next found =>
          rw [← List.append_assoc]
          exact links _ _ resolved
  induction limit generalizing dir steps with
  | zero =>
    exact level (fun _ _ => none) (fun _ _ impossible => by cases impossible) 0 (fun _ _ => rfl) resolved
  | succ limit ih =>
    exact level (resolve parse kindAt limit) (fun _ _ found => ih found) (limit + 1) (fun _ _ => rfl) resolved

@[simp] theorem resolve_here (limit : Nat) (dir : List α) (rest : List (Step α)) :
    resolve parse kindAt limit dir (.here::rest) = resolve parse kindAt limit dir rest := by
  cases limit with
  | zero => rfl
  | succ limit => rfl

/-- Names that are directories or a file at the end, none a link, lead where they say. -/
theorem survey_plain (limit : Nat) {dir path : List α}
    (through : ∀ init rest, init ++ rest = path → init ≠ [] → rest ≠ [] →
      known (dir ++ init) = some (some .dir))
    (last : path ≠ [] → known (dir ++ path) = some (some .dir) ∨ known (dir ++ path) = some (some .file)) :
    survey parse known limit dir (path.map .enter) = .ok (some (dir ++ path)) := by
  have level (left : Nat) (onLink : List α → List (Step α) → Except (Halt α) (Option (List α))) {dir path : List α}
      (through : ∀ init rest, init ++ rest = path → init ≠ [] → rest ≠ [] →
        known (dir ++ init) = some (some .dir))
      (last : path ≠ [] → known (dir ++ path) = some (some .dir) ∨ known (dir ++ path) = some (some .file)) :
      surveyFollow parse known left onLink dir (path.map .enter) = .ok (some (dir ++ path)) := by
    induction path generalizing dir with
    | nil => simp [surveyFollow]
    | cons name rest ih =>
      rw [List.map_cons,surveyFollow]
      cases rest with
      | nil =>
        rcases last (by simp) with found | found
        · rw [found]
          rfl
        · rw [found]
          rfl
      | cons c more =>
        have found : known (dir ++ [name]) = some (some .dir) := through [name] (c::more) rfl (by simp) (by simp)
        rw [found]
        have onward : surveyFollow parse known left onLink (dir ++ [name]) ((c::more).map .enter) =
            .ok (some (dir ++ [name] ++ (c::more))) := by
          apply ih
          · intro init rest split further more_
            have here := through (name::init) rest (by rw [← split]; rfl) (by simp) more_
            simpa using here
          · intro _
            simpa using last (by simp)
        simpa using onward
  cases limit with
  | zero => exact level _ _ through last
  | succ limit => exact level _ _ through last

end resolution

/-! ### A known part -/

section part
variable [DecidableEq α] (top : List α) (tree : Node α δ τ)

/-- What is known when the tree at `top` is: it and the directories above it. -/
def knownAt (path : List α) : Option (Option (Kind τ)) :=
  if top <+: path then some (tree.kindAt (path.drop top.length))
  else if path <+: top then some (some .dir)
  else none

variable {top} {tree} {host : Node α δ τ} {path : List α} {name : α}

theorem find_inside (placed : host.find top = some tree) (inside : top <+: path) :
    host.find path = tree.find (path.drop top.length) := by
  obtain ⟨rest,rfl⟩ := inside
  rw [Node.find_append,placed,List.drop_left]
  rfl

theorem knownAt_agrees (placed : host.find top = some tree) (path : List α) (kind : Option (Kind τ))
    (known : knownAt top tree path = some kind) : host.kindAt path = kind := by
  rw [knownAt] at known
  split at known
  next inside =>
    rw [Node.kindAt,find_inside placed inside]
    exact Option.some.inj known
  next outside =>
    split at known
    next above =>
      have strict : path ≠ top := fun same => outside (by rw [same])
      obtain ⟨names,child,found⟩ := Node.find_above placed above strict
      rw [Node.kindAt,found]
      exact Option.some.inj known
    next => cases known

theorem knownAt_above (above : path <+: top) (strict : path ≠ top) : knownAt top tree path = some (some .dir) := by
  have outside : ¬ top <+: path := fun inside => strict (above.eq_of_length_le inside.length_le)
  rw [knownAt,if_neg outside,if_pos above]

theorem knownAt_root (directory : tree.kind = .dir) : knownAt top tree [] = some (some .dir) := by
  cases top with
  | nil =>
    rw [knownAt,if_pos (List.nil_prefix)]
    simp [Node.kindAt,directory]
  | cons c rest => exact knownAt_above (List.nil_prefix) (by simp)

theorem knownAt_closed (path : List α) (known : knownAt top tree path = some (some .dir)) :
    knownAt top tree path.dropLast = some (some .dir) := by
  by_cases same : path.dropLast = path
  · rw [same,known]
  by_cases inside : top <+: path.dropLast
  · have whole : top <+: path := inside.trans (List.dropLast_prefix path)
    rw [knownAt,if_pos whole] at known
    obtain ⟨sub,found,-⟩ := Option.map_eq_some_iff.mp (Option.some.inj known)
    obtain ⟨rest,split⟩ := inside
    have short : path.dropLast.drop top.length <+: path.drop top.length :=
      (List.dropLast_prefix path).drop top.length
    have strict : path.dropLast.drop top.length ≠ path.drop top.length := by
      intro equal
      have lengths := congrArg List.length equal
      have longer := congrArg List.length split
      have nonempty : path ≠ [] := fun nothing => same (by rw [nothing]; rfl)
      have positive := List.length_pos_of_ne_nil nonempty
      simp only [List.length_drop,List.length_dropLast,List.length_append] at lengths longer
      omega
    obtain ⟨names,child,reached⟩ := Node.find_above found short strict
    rw [knownAt,if_pos ⟨rest,split⟩,Node.kindAt,reached]
    rfl
  · by_cases whole : top <+: path
    · have above : path.dropLast <+: top := by
        rcases List.prefix_or_prefix_of_prefix whole (List.dropLast_prefix path) with first | second
        · exact absurd first inside
        · exact second
      exact knownAt_above above fun equal => inside (by rw [equal])
    · rw [knownAt,if_neg whole] at known
      split at known
      next above =>
        exact knownAt_above ((List.dropLast_prefix path).trans above) fun equal => inside (by rw [equal])
      next => cases known

/-- A known directory with an entry that is not known lies above the part. -/
theorem unseen_entry (known : knownAt top tree path = some (some .dir))
    (unseen : knownAt top tree (path ++ [name]) = none) :
    path <+: top ∧ path ≠ top ∧ ¬ path ++ [name] <+: top ∧ ¬ top <+: path ++ [name] := by
  have outside : ¬ top <+: path ++ [name] := by
    intro inside
    rw [knownAt,if_pos inside] at unseen
    cases unseen
  have apart : ¬ path ++ [name] <+: top := by
    intro above
    rw [knownAt,if_neg outside,if_pos above] at unseen
    cases unseen
  have short : ¬ top <+: path := fun inside => outside (inside.trans (List.prefix_append path [name]))
  rw [knownAt,if_neg short] at known
  split at known
  next above => exact ⟨above,fun same => short (by rw [same]),apart,outside⟩
  next => cases known

end part

/-! ### Surroundings -/

section surroundings
variable [DecidableEq α]

/-- Directories in directories, each with a marked file. -/
def bush (names : List α) (mark : α) (data : δ) : Nat → Node α δ τ
  | 0 => .dir [mark] fun _ => .file data
  | depth + 1 => .dir (mark::names) fun name => if name = mark then .file data else bush names mark data depth

variable {names : List α} {mark : α} {data : δ}

theorem find_bush {depth : Nat} {path : List α} (listed : ∀ name ∈ path, name ∈ names)
    (unmarked : mark ∉ path) (short : path.length ≤ depth) :
    (bush names mark data depth : Node α δ τ).find path = some (bush names mark data (depth - path.length)) := by
  induction path generalizing depth with
  | nil => simp
  | cons name rest ih =>
    obtain ⟨less,rfl⟩ : ∃ less, depth = less + 1 := ⟨depth - 1,by simp only [List.length_cons] at short; omega⟩
    have other : name ≠ mark := fun same => unmarked (by rw [same]; exact List.mem_cons_self)
    have present : name ∈ mark::names := List.mem_cons_of_mem _ (listed name List.mem_cons_self)
    rw [bush,Node.find,if_pos present,if_neg other,
      ih (fun c member => listed c (List.mem_cons_of_mem _ member))
        (fun member => unmarked (List.mem_cons_of_mem _ member)) (by simpa using short)]
    simp

theorem find_mark (depth : Nat) : (bush names mark data depth : Node α δ τ).find [mark] = some (.file data) := by
  cases depth with
  | zero => simp [bush,Node.find]
  | succ depth => simp [bush,Node.find]

theorem bush_kind (depth : Nat) : (bush names mark data depth : Node α δ τ).kind = .dir := by
  cases depth <;> rfl

variable {parse : τ → Target α} {host : Node α δ τ} {mid : α} {depth : Nat}

theorem find_planted (planted : host.find [mid] = some (bush names mark data depth)) {path : List α}
    (listed : ∀ name ∈ path, name ∈ names) (unmarked : mark ∉ path) (short : path.length ≤ depth) :
    host.find (mid::path) = some (bush names mark data (depth - path.length)) := by
  have split : mid::path = [mid] ++ path := rfl
  rw [split,Node.find_append,planted]
  exact find_bush listed unmarked short

theorem kind_planted (planted : host.find [mid] = some (bush names mark data depth)) {path : List α}
    (listed : ∀ name ∈ path, name ∈ names) (unmarked : mark ∉ path) (short : path.length ≤ depth) :
    host.kindAt (mid::path) = some .dir := by
  rw [Node.kindAt,find_planted planted listed unmarked short]
  exact congrArg some (bush_kind _)

/-- Few steps from deep inside stay inside. -/
theorem follow_bush (planted : host.find [mid] = some (bush names mark data depth))
    (onLink : List α → List (Step α) → Option (List α)) {path : List α} {steps : List (Step α)}
    (listed : ∀ name ∈ path, name ∈ names) (unmarked : mark ∉ path)
    (entered : ∀ name, .enter name ∈ steps → name ∈ names ∧ name ≠ mark)
    (deep : steps.length ≤ path.length) (room : path.length + steps.length ≤ depth) :
    ∃ path', follow parse host.kindAt onLink (mid::path) steps = some (mid::path') ∧
      (∀ name ∈ path', name ∈ names) ∧ mark ∉ path' ∧ path'.length ≤ depth := by
  induction steps generalizing path with
  | nil => exact ⟨path,rfl,listed,unmarked,by simpa using room⟩
  | cons step rest ih =>
    have later (name : α) (member : .enter name ∈ rest) := entered name (List.mem_cons_of_mem _ member)
    simp only [List.length_cons] at deep room
    cases step with
    | here => exact ih listed unmarked later (by omega) (by omega)
    | up =>
      have nonempty : path ≠ [] := List.ne_nil_of_length_pos (by omega)
      rw [follow,List.dropLast_cons_of_ne_nil nonempty]
      apply ih (fun name member => listed name (List.mem_of_mem_dropLast member))
        (fun member => unmarked (List.mem_of_mem_dropLast member)) later
      · rw [List.length_dropLast]
        omega
      · rw [List.length_dropLast]
        omega
    | enter name =>
      obtain ⟨present,other⟩ := entered name List.mem_cons_self
      have listed' : ∀ c ∈ path ++ [name], c ∈ names := by
        intro c member
        rcases List.mem_append.mp member with old | new
        · exact listed c old
        · rw [List.mem_singleton.mp new]
          exact present
      have unmarked' : mark ∉ path ++ [name] := by
        intro member
        rcases List.mem_append.mp member with old | new
        · exact unmarked old
        · exact other (List.mem_singleton.mp new).symm
      have room' : (path ++ [name]).length ≤ depth := by
        rw [List.length_append,List.length_singleton]
        omega
      rw [follow,List.cons_append,kind_planted planted listed' unmarked' room']
      apply ih listed' unmarked' later
      · rw [List.length_append]
        omega
      · rw [List.length_append,List.length_singleton]
        omega

theorem follow_descent (planted : host.find [mid] = some (bush names mark data depth))
    (onLink : List α → List (Step α) → Option (List α)) (present : mid ∈ names) (other : mark ≠ mid) (more : Nat)
    {levels : Nat} (short : levels + more ≤ depth) (rest : List (Step α)) :
    follow parse host.kindAt onLink (mid::List.replicate levels mid) (List.replicate more (.enter mid) ++ rest) =
      follow parse host.kindAt onLink (mid::List.replicate (levels + more) mid) rest := by
  induction more generalizing levels with
  | zero => rfl
  | succ more ih =>
    have deeper : mid::List.replicate levels mid ++ [mid] = mid::List.replicate (levels + 1) mid := by
      rw [List.replicate_succ',List.cons_append]
    have directory : host.kindAt (mid::List.replicate (levels + 1) mid) = some .dir := by
      apply kind_planted planted
      · intro name member
        rw [List.eq_of_mem_replicate member]
        exact present
      · intro member
        exact other (List.eq_of_mem_replicate member)
      · rw [List.length_replicate]
        omega
    rw [List.replicate_succ,List.cons_append,follow,deeper,directory]
    dsimp only
    rw [ih (by omega)]
    congr 3
    omega

/-- Steps through names that may be anything lead from deep inside the bush to one
of its directories. -/
theorem resolve_bush (planted : host.find [mid] = some (bush names mark data (2 * depth)))
    (present : mid ∈ names) (other : mark ≠ mid) {rest : List (Step α)} (size : rest.length ≤ depth)
    (entered : ∀ name, .enter name ∈ rest → name ∈ names ∧ name ≠ mark) (limit : Nat) :
    ∃ path, resolve parse host.kindAt limit [] (List.replicate (depth + 1) (.enter mid) ++ rest) = some path ∧
      host.kindAt path = some .dir ∧ host.find (path ++ [mark]) = some (.file data) := by
  have level (onLink : List α → List (Step α) → Option (List α)) :
      ∃ path, follow parse host.kindAt onLink [] (List.replicate (depth + 1) (.enter mid) ++ rest) = some path ∧
        host.kindAt path = some .dir ∧ host.find (path ++ [mark]) = some (.file data) := by
    have first : host.kindAt ([] ++ [mid]) = some .dir :=
      kind_planted planted (fun _ member => by cases member) (by simp) (by simp)
    rw [List.replicate_succ,List.cons_append,follow,first]
    dsimp only
    have down := @follow_descent α δ τ _ names mark data parse host mid (2 * depth) planted onLink present other
      depth 0 (by omega) rest
    rw [List.replicate_zero] at down
    rw [List.nil_append,down,Nat.zero_add]
    have deep : rest.length ≤ (List.replicate depth mid).length := by
      rw [List.length_replicate]
      exact size
    have room : (List.replicate depth mid).length + rest.length ≤ 2 * depth := by
      rw [List.length_replicate]
      omega
    obtain ⟨path,reached,listed,unmarked,short⟩ := follow_bush planted onLink
      (fun name member => by rw [List.eq_of_mem_replicate member]; exact present)
      (fun member => other (List.eq_of_mem_replicate member)) entered deep room
    refine ⟨_,reached,kind_planted planted listed unmarked short,?_⟩
    rw [Node.find_append,find_planted planted listed unmarked short]
    exact find_mark _
  cases limit with
  | zero => exact level _
  | succ limit => exact level _

variable {top : List α} {tree : Node α δ τ} {limit : Nat} {steps : List (Step α)}

/-- The known part at its place, and nothing else. -/
def bare (top : List α) (tree : Node α δ τ) : Node α δ τ := .graft tree top (.dir [] fun _ => tree)

theorem find_bare (top : List α) (tree : Node α δ τ) : (bare top tree).find top = some tree := by
  have found := Node.find_graft tree top (.dir [] fun _ => tree) []
  rwa [List.append_nil,Node.find_nil] at found

/-- A path that leads out of the known part leads, in some surroundings, to a
directory with a file of any content. -/
theorem exists_outside (directory : tree.kind = .dir)
    (fresh : ∀ used : List α, ∃ mid, mid ∉ used ∧
      ∀ n, ∃ text, parse text = ⟨true,.here::List.replicate (n + 1) (.enter mid)⟩)
    (leaves : (∃ halt, survey parse (knownAt top tree) limit [] steps = .error halt) ∨
      ∃ path, survey parse (knownAt top tree) limit [] steps = .ok (some path) ∧ ¬ top <+: path) :
    ∃ mark, ∃ host : δ → Node α δ τ, ∀ data, (host data).find top = some tree ∧
      ∃ path, resolve parse (host data).kindAt (limit + 1) [] steps = some path ∧
        (host data).kindAt path = some .dir ∧ (host data).find (path ++ [mark]) = some (.file data) := by
  have rooted : knownAt top tree [] = some (some .dir) := knownAt_root directory
  rcases leaves with ⟨halt,halted⟩ | ⟨path,found,outside⟩
  · obtain ⟨known,unseen⟩ := unseen_of_halt knownAt_closed rooted rooted halted
    obtain ⟨above,strict,apart,beside⟩ := unseen_entry known unseen
    let entered := halt.rest.filterMap fun step => match step with
      | .enter name => some name
      | _ => none
    obtain ⟨mid,new,spells⟩ := fresh (top ++ halt.dir ++ [halt.name])
    obtain ⟨mark,unused,-⟩ := fresh (mid::entered)
    obtain ⟨text,spelled⟩ := spells halt.rest.length
    simp only [List.mem_append,List.mem_singleton,not_or] at new
    have fresh_mid : ∀ path : List α, mid ∉ path → path ≠ [] → ¬ [mid] <+: path ∧ ¬ path <+: [mid] := by
      intro path absent nonempty
      obtain ⟨c,rest,rfl⟩ := List.exists_cons_of_ne_nil nonempty
      have differ : mid ≠ c := fun same => absent (by rw [same]; exact List.mem_cons_self)
      refine ⟨fun below => differ (List.cons_prefix_cons.mp below).1,fun above => ?_⟩
      exact differ (List.cons_prefix_cons.mp above).1.symm
    have top_ne : top ≠ [] := by
      intro nothing
      rw [nothing] at above strict
      exact strict (List.prefix_nil.mp above)
    have q_ne : halt.dir ++ [halt.name] ≠ [] := by simp
    have q_new : mid ∉ halt.dir ++ [halt.name] := by
      rw [List.mem_append,List.mem_singleton]
      exact fun member => member.elim new.1.2 new.2
    refine ⟨mark,fun data => .graft (bush (mid::entered) mark data (2 * halt.rest.length)) [mid]
      (.graft (.link text) (halt.dir ++ [halt.name]) (bare top tree)),fun data => ?_⟩
    have placed : (Node.graft (bush (mid::entered) mark data (2 * halt.rest.length)) [mid]
        (.graft (.link text) (halt.dir ++ [halt.name]) (bare top tree))).find top = some tree := by
      rw [Node.find_graft_apart _ _ (fresh_mid top new.1.1 top_ne).1 (fresh_mid top new.1.1 top_ne).2,
        Node.find_graft_apart _ _ apart beside,find_bare]
    have linked : (Node.graft (bush (mid::entered) mark data (2 * halt.rest.length)) [mid]
        (.graft (.link text) (halt.dir ++ [halt.name]) (bare top tree))).find (halt.dir ++ [halt.name]) =
          some (.link text) := by
      rw [Node.find_graft_apart _ _ (fresh_mid _ q_new q_ne).1 (fresh_mid _ q_new q_ne).2]
      have found := Node.find_graft (.link text) (halt.dir ++ [halt.name]) (bare top tree) []
      rwa [List.append_nil] at found
    have planted : (Node.graft (bush (mid::entered) mark data (2 * halt.rest.length)) [mid]
        (.graft (.link text) (halt.dir ++ [halt.name]) (bare top tree))).find [mid] =
          some (bush (mid::entered) mark data (2 * halt.rest.length)) := by
      have found := Node.find_graft (bush (mid::entered) mark data (2 * halt.rest.length)) [mid]
        (.graft (.link text) (halt.dir ++ [halt.name]) (bare top tree)) []
      rwa [List.append_nil,Node.find_nil] at found
    refine ⟨placed,?_⟩
    -- at the entry that is not known a link leads deep into the bush
    have other : mark ≠ mid := fun same => unused (by rw [same]; exact List.mem_cons_self)
    obtain ⟨path,led,arrived,marked⟩ := @resolve_bush α δ τ _ (mid::entered) mark data parse _ mid
      halt.rest.length planted List.mem_cons_self other halt.rest le_rfl (fun name member => by
        have listed : name ∈ entered := List.mem_filterMap.mpr ⟨_,member,rfl⟩
        have differ : name ≠ mark := fun same => unused (by rw [← same]; exact List.mem_cons_of_mem _ listed)
        exact ⟨List.mem_cons_of_mem _ listed,differ⟩) halt.left
    refine ⟨path,?_,arrived,marked⟩
    have halted' := survey_more.2 halt halted
    rw [resolve_of_halt (knownAt_agrees placed) halted',resolve,follow,Node.kindAt,linked]
    simp only [Option.map_some,Node.kind,spelled,if_true,List.cons_append,resolve_here]
    exact led
  · have known := known_of_survey knownAt_closed rooted rooted found
    have above : path <+: top := by
      by_contra apart
      rw [knownAt,if_neg outside,if_neg apart] at known
      rcases known with impossible | impossible
      · cases impossible
      · cases impossible
    have strict : path ≠ top := fun same => outside (by rw [same])
    obtain ⟨mark,new,-⟩ := fresh top
    have apart : ¬ path ++ [mark] <+: top := fun below => new (below.subset (by simp))
    have beside : ¬ top <+: path ++ [mark] := by
      intro inside
      have last : mark ∈ top ∨ top <+: path := by
        rcases List.prefix_concat_iff.mp inside with whole | short
        · exact .inl (by rw [whole]; simp)
        · exact .inr short
      rcases last with member | inside
      · exact new member
      · exact outside inside
    refine ⟨mark,fun data => .graft (.file data) (path ++ [mark]) (bare top tree),fun data => ?_⟩
    have placed : (Node.graft (.file data) (path ++ [mark]) (bare top tree)).find top = some tree := by
      rw [Node.find_graft_apart _ _ apart beside,find_bare]
    refine ⟨placed,path,?_,?_,?_⟩
    · exact resolve_of_survey (knownAt_agrees placed) (survey_more.1 path found)
    · exact knownAt_agrees placed path _ (knownAt_above above strict)
    · have found := Node.find_graft (.file data) (path ++ [mark]) (bare top tree) []
      rwa [List.append_nil] at found

end surroundings
end StorageHub.Library.LinkTree
