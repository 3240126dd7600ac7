import Mathlib
import StorageHub.Library.LinkTree

/-! Trees as they are seen by path, and how a view of paths comes to show a tree
below one of them, step by step. -/
namespace StorageHub.Library.LinkTree
variable {α δ τ : Type}

inductive Shape (δ τ : Type)
  | file (data : δ)
  | link (text : τ)
  | dir
  deriving DecidableEq

namespace Node

def shape : Node α δ τ → Shape δ τ
  | file data => .file data
  | link text => .link text
  | dir _ _ => .dir

/-- Every directory lists each name once. -/
def Distinct : Node α δ τ → Prop
  | file _ | link _ => True
  | dir names child => names.Nodup ∧ ∀ name ∈ names, (child name).Distinct

/-- What lies below the root, by its path. -/
def members : Node α δ τ → List (List α × Shape δ τ)
  | file _ | link _ => []
  | dir names child => names.flatMap fun name =>
      ([name],(child name).shape)::(child name).members.map fun member => (name::member.1,member.2)

/-- A measure of trees is that of its root with those of its members. -/
theorem sum_members {f : Node α δ τ → Nat} {w : Shape δ τ → Nat} (onFile : ∀ data, f (file data) = w (.file data))
    (onLink : ∀ text, f (link text) = w (.link text))
    (onDir : ∀ names child, f (dir names child) = w .dir + (names.map fun name => f (child name)).sum)
    (t : Node α δ τ) : f t = w t.shape + (t.members.map fun member => w member.2).sum := by
  induction t with
  | file data => rw [onFile]; rfl
  | link text => rw [onLink]; rfl
  | dir names child ih =>
    rw [onDir,members]
    congr 1
    induction names with
    | nil => rfl
    | cons name rest inner =>
      rw [List.map_cons,List.sum_cons,inner,List.flatMap_cons,List.map_append,List.sum_append,List.map_cons,
        List.sum_cons,List.map_map,ih name]
      rfl

variable [DecidableEq α]

def look (t : Node α δ τ) (path : List α) : Option (Shape δ τ) := (t.find path).map shape

variable {t sub : Node α δ τ} {path rest other : List α} {name : α} {names : List α} {child : α → Node α δ τ}

@[simp] theorem look_nil : t.look [] = some t.shape := by rw [look,find_nil]; rfl

theorem look_of_find (found : t.find path = some sub) (rest : List α) : t.look (path ++ rest) = sub.look rest := by
  rw [look,find_append,found]
  rfl

theorem look_listed (listed : name ∈ names) (rest : List α) :
    (dir names child : Node α δ τ).look (name::rest) = (child name).look rest := by
  rw [look,find,if_pos listed]
  rfl

theorem look_unlisted (absent : name ∉ names) (rest : List α) :
    (dir names child : Node α δ τ).look (name::rest) = none := by
  rw [look,find,if_neg absent]
  rfl

theorem look_file (data : δ) : (file data : Node α δ τ).look (name::rest) = none := rfl

/-- Above what is seen there are directories. -/
theorem look_above (seen : t.look path ≠ none) (above : other <+: path) (strict : other ≠ path) :
    t.look other = some .dir := by
  cases found : t.find path with
  | none =>
    rw [look,found] at seen
    exact absurd rfl seen
  | some sub =>
    obtain ⟨names,child,reached⟩ := find_above found above strict
    rw [look,reached]
    rfl

theorem look_below (nothing : t.look path ≠ some .dir) (below : path <+: other) (strict : path ≠ other) :
    t.look other = none := by
  by_contra seen
  exact nothing (look_above seen below strict)

theorem find_dir_of_look (seen : t.look path = some .dir) : ∃ names child, t.find path = some (dir names child) := by
  cases found : t.find path with
  | none =>
    rw [look,found] at seen
    cases seen
  | some sub =>
    rw [look,found] at seen
    cases sub with
    | dir names child => exact ⟨names,child,rfl⟩
    | file data => cases seen
    | link text => cases seen

theorem find_file_of_look {data : δ} (seen : t.look path = some (.file data)) : t.find path = some (file data) := by
  cases found : t.find path with
  | none =>
    rw [look,found] at seen
    cases seen
  | some sub =>
    rw [look,found] at seen
    cases sub with
    | dir names child => cases seen
    | file data => cases seen; rfl
    | link text => cases seen

/-- A tree with another put at a path, as it is seen. -/
theorem look_graft (new : Node α δ τ) (path : List α) (t : Node α δ τ) (other : List α) :
    (graft new path t).look other =
      if path <+: other then new.look (other.drop path.length)
      else if other <+: path then some .dir
      else t.look other := by
  by_cases below : path <+: other
  · rw [if_pos below]
    obtain ⟨rest,rfl⟩ := below
    rw [List.drop_left,look,find_graft]
    rfl
  · rw [if_neg below]
    by_cases above : other <+: path
    · rw [if_pos above]
      have here : (graft new path t).look path ≠ none := by
        have whole := find_graft new path t []
        rw [List.append_nil] at whole
        rw [look,whole,find_nil]
        exact Option.some_ne_none _
      exact look_above here above fun same => below (same ▸ List.prefix_rfl)
    · rw [if_neg above,look,find_graft_apart new t below above]
      rfl

theorem distinct_graft {new : Node α δ τ} (fine : new.Distinct) (path : List α) (whole : t.Distinct) :
    (graft new path t).Distinct := by
  induction path generalizing t with
  | nil => exact fine
  | cons name tail ih =>
    have single (other : Node α δ τ) (same : graft new (name::tail) other = dir [name] fun _ => graft new tail other)
        (fine : other.Distinct) : (graft new (name::tail) other).Distinct := by
      rw [same]
      exact ⟨List.nodup_singleton name,fun _ _ => ih fine⟩
    cases t with
    | file data => exact single _ rfl whole
    | link text => exact single _ rfl whole
    | dir names child =>
      obtain ⟨once,inner⟩ := whole
      rw [graft]
      constructor
      · split
        next => exact once
        next absent =>
          rw [List.nodup_append]
          refine ⟨once,List.nodup_singleton name,?_⟩
          intro a member b member'
          rw [List.mem_singleton.mp member']
          rintro rfl
          exact absent member
      · intro c listed
        by_cases same : c = name
        · subst same
          rw [Function.update_self]
          apply ih
          split
          next present => exact inner c present
          next => exact ⟨List.nodup_nil,fun _ member => by cases member⟩
        · rw [Function.update_of_ne same]
          apply inner
          split at listed
          next => exact listed
          next =>
            rcases List.mem_append.mp listed with there | here
            · exact there
            · exact absurd (List.mem_singleton.mp here) same

theorem distinct_find (whole : t.Distinct) (found : t.find path = some sub) : sub.Distinct := by
  induction path generalizing t with
  | nil =>
    rw [find_nil] at found
    cases found
    exact whole
  | cons name tail ih =>
    cases t with
    | file data => cases found
    | link text => cases found
    | dir names child =>
      rw [find] at found
      split at found
      next listed => exact ih (whole.2 name listed) found
      next => cases found

/-! ### Members -/

theorem mem_members {member : List α × Shape δ τ} :
    member ∈ t.members ↔ member.1 ≠ [] ∧ t.look member.1 = some member.2 := by
  obtain ⟨path,shape⟩ := member
  induction t generalizing path with
  | file data =>
    cases path with
    | nil => simp [members]
    | cons name rest => simp [members,look_file]
  | link text =>
    cases path with
    | nil => simp [members]
    | cons name rest => simp [members,look,find]
  | dir names child ih =>
    rw [members,List.mem_flatMap]
    constructor
    · rintro ⟨name,listed,here⟩
      rcases List.mem_cons.mp here with same | below
      · cases same
        rw [look_listed listed,look_nil]
        exact ⟨List.cons_ne_nil _ _,rfl⟩
      · obtain ⟨⟨path',shape'⟩,inside,same⟩ := List.mem_map.mp below
        cases same
        obtain ⟨-,seen⟩ := (ih name path').mp inside
        rw [look_listed listed]
        exact ⟨List.cons_ne_nil _ _,seen⟩
    · rintro ⟨given,seen⟩
      cases path with
      | nil => exact absurd rfl given
      | cons name rest =>
        by_cases listed : name ∈ names
        · dsimp only at seen
          rw [look_listed listed] at seen
          refine ⟨name,listed,?_⟩
          cases rest with
          | nil =>
            rw [look_nil] at seen
            rw [Option.some.inj seen]
            exact List.mem_cons_self
          | cons c tail =>
            apply List.mem_cons_of_mem
            exact List.mem_map.mpr ⟨(c::tail,shape),(ih name _).mpr ⟨List.cons_ne_nil _ _,seen⟩,rfl⟩
        · dsimp only at seen
          rw [look_unlisted listed] at seen
          cases seen

theorem members_nodup (whole : t.Distinct) : (t.members.map (·.1)).Nodup := by
  induction t with
  | file data => exact List.nodup_nil
  | link text => exact List.nodup_nil
  | dir names child ih =>
    obtain ⟨once,inner⟩ := whole
    rw [members,List.map_flatMap,List.nodup_flatMap]
    constructor
    · intro name listed
      rw [List.map_cons,List.nodup_cons,List.map_map]
      constructor
      · intro again
        obtain ⟨member,inside,same⟩ := List.mem_map.mp again
        have nothing : member.1 = [] := (List.cons.inj same).2
        exact (mem_members.mp inside).1 nothing
      · have apart := (ih name (inner name listed)).map (f := (name::·)) fun _ _ same => (List.cons.inj same).2
        rw [List.map_map] at apart
        exact apart
    · apply once.imp_of_mem
      intro a b _ _ differ path first second
      have headed {c : α} (inside : path ∈ (([c],(child c).shape)::(child c).members.map fun member =>
          (c::member.1,member.2)).map (·.1)) : ∃ rest, path = c::rest := by
        obtain ⟨member,listed,rfl⟩ := List.mem_map.mp inside
        rcases List.mem_cons.mp listed with rfl | below
        · exact ⟨[],rfl⟩
        · obtain ⟨inner,-,rfl⟩ := List.mem_map.mp below
          exact ⟨inner.1,rfl⟩
      obtain ⟨rest,rfl⟩ := headed first
      obtain ⟨rest',same⟩ := headed second
      exact differ (List.cons.inj same).1

/-- Trees that are seen alike have the same members. -/
theorem members_perm {t' : Node α δ τ} (whole : t.Distinct) (whole' : t'.Distinct)
    (same : ∀ path, t.look path = t'.look path) : t.members.Perm t'.members := by
  apply (List.perm_ext_iff_of_nodup (members_nodup whole).of_map (members_nodup whole').of_map).mpr
  intro member
  rw [mem_members,mem_members,same]

/-! ### Making directories and files -/

section making
variable [DecidableEq δ] [DecidableEq τ]

/-- The directory at a path with those above it. What is no directory is in the way. -/
def createDirAll (host : Node α δ τ) (path : List α) : Option (Node α δ τ) :=
  if path.inits.any fun above => (host.look above).any (· != .dir) then none
  else if host.look path = some .dir then some host
  else some (graft (dir [] fun _ => dir [] fun _ => host) path host)

/-- A file in a directory that is there, in place of a file of its name. -/
def createFile (host : Node α δ τ) (path : List α) (data : δ) : Option (Node α δ τ) :=
  if host.look path.dropLast = some .dir ∧ host.look path ≠ some .dir then some (graft (file data) path host)
  else none

variable {host host' : Node α δ τ} {path other : List α} {data : δ}

theorem look_createDirAll (made : createDirAll host path = some host') (other : List α) :
    host'.look other = if other <+: path then some .dir else host.look other := by
  unfold createDirAll at made
  split at made
  next => cases made
  next free =>
    rw [List.any_eq_true] at free
    have clear (above : List α) (before : above <+: path) : host.look above = none ∨ host.look above = some .dir := by
      cases seen : host.look above with
      | none => exact .inl rfl
      | some shape =>
        right
        by_contra other
        apply free
        refine ⟨above,(List.mem_inits above path).mpr before,?_⟩
        rw [seen,Option.any_some,bne_iff_ne]
        intro same
        exact other (by rw [same])
    split at made
    next there =>
      cases made
      split
      next before =>
        by_cases same : other = path
        · rw [same,there]
        · apply look_above _ before same
          rw [there]
          exact Option.some_ne_none _
      next => rfl
    next absent =>
      cases made
      have nothing : host.look path = none := (clear path List.prefix_rfl).resolve_right absent
      rw [look_graft]
      by_cases below : path <+: other
      · rw [if_pos below]
        by_cases same : path = other
        · subst same
          rw [List.drop_length,if_pos List.prefix_rfl,look_nil]
          rfl
        · have notAbove : ¬other <+: path := fun above => same (below.eq_of_length_le above.length_le)
          rw [if_neg notAbove,look_below absent below same]
          obtain ⟨rest,rfl⟩ := below
          rw [List.drop_left]
          cases rest with
          | nil => exact absurd (List.append_nil path).symm same
          | cons name rest => exact look_unlisted List.not_mem_nil rest
      · rw [if_neg below]

theorem look_createFile (made : createFile host path data = some host') :
    host'.look = Function.update host.look path (some (.file data)) := by
  unfold createFile at made
  split at made
  next ready =>
    obtain ⟨parent,free⟩ := ready
    cases made
    funext other
    rw [look_graft]
    by_cases same : other = path
    · rw [same,Function.update_self,if_pos List.prefix_rfl,List.drop_length,look_nil]
      rfl
    · rw [Function.update_of_ne same]
      by_cases below : path <+: other
      · rw [if_pos below,look_below free below (Ne.symm same)]
        obtain ⟨rest,rfl⟩ := below
        rw [List.drop_left]
        cases rest with
        | nil => exact absurd (List.append_nil path) same
        | cons name rest => exact look_file data
      · rw [if_neg below]
        split
        next above =>
          have inside : other <+: path.dropLast := by
            rcases List.eq_nil_or_concat path with rfl | ⟨init,last,rfl⟩
            · exact absurd (List.prefix_nil.mp above) same
            · rw [List.concat_eq_append] at above same ⊢
              rw [List.dropLast_concat]
              rcases List.prefix_concat_iff.mp above with whole | shorter
              · exact absurd whole same
              · exact shorter
          by_cases here : other = path.dropLast
          · rw [here,parent]
          · symm
            apply look_above _ inside here
            rw [parent]
            exact Option.some_ne_none _
        next => rfl
  next => cases made

theorem distinct_createDirAll (whole : host.Distinct) (made : createDirAll host path = some host') :
    host'.Distinct := by
  unfold createDirAll at made
  split at made
  next => cases made
  next =>
    split at made
    next => cases made; exact whole
    next =>
      cases made
      apply distinct_graft _ path whole
      exact ⟨List.nodup_nil,fun _ member => by cases member⟩

theorem distinct_createFile (whole : host.Distinct) (made : createFile host path data = some host') :
    host'.Distinct := by
  unfold createFile at made
  split at made
  next =>
    cases made
    apply distinct_graft _ path whole
    exact True.intro
  next => cases made

end making

/-! ### Removing -/

/-- The tree without what lies at a path below its root. -/
def remove : List α → Node α δ τ → Node α δ τ
  | [name], dir names child => dir (names.filter (· ≠ name)) child
  | name::rest, dir names child => dir names (Function.update child name (remove rest (child name)))
  | _, other => other

theorem look_remove (given : path ≠ []) (t : Node α δ τ) (other : List α) :
    (remove path t).look other = if path <+: other then none else t.look other := by
  induction path generalizing t other with
  | nil => exact absurd rfl given
  | cons name tail ih =>
    have root : ¬ name::tail <+: [] := fun within => List.cons_ne_nil _ _ (List.prefix_nil.mp within)
    have leaf (bare : t.shape ≠ .dir) : t.look other = if name::tail <+: other then none else t.look other := by
      split
      next within =>
        cases other with
        | nil => exact absurd within root
        | cons c later =>
          cases t with
          | file data => rfl
          | link text => rfl
          | dir names child => exact absurd rfl bare
      next => rfl
    cases t with
    | file data =>
      cases tail with
      | nil => exact leaf fun same => by cases same
      | cons next later => exact leaf fun same => by cases same
    | link text =>
      cases tail with
      | nil => exact leaf fun same => by cases same
      | cons next later => exact leaf fun same => by cases same
    | dir names child =>
      cases other with
      | nil =>
        rw [if_neg root]
        cases tail with
        | nil => rfl
        | cons next later => rfl
      | cons c later =>
        cases tail with
        | nil =>
          rw [remove]
          by_cases same : c = name
          · have gone : c ∉ names.filter (· ≠ name) := by simp [same]
            rw [look_unlisted gone,if_pos (by rw [same]; exact List.prefix_append [name] later)]
          · rw [if_neg fun within => same (List.cons_prefix_cons.mp within).1.symm]
            by_cases listed : c ∈ names
            · rw [look_listed listed,look_listed (by simp [listed,same])]
            · rw [look_unlisted listed,look_unlisted (by simp [listed])]
        | cons next more =>
          rw [remove]
          by_cases listed : c ∈ names
          · rw [look_listed listed,look_listed listed]
            by_cases same : c = name
            · subst same
              rw [Function.update_self,ih (List.cons_ne_nil _ _)]
              simp only [List.prefix_cons_inj]
            · rw [Function.update_of_ne same,if_neg fun within => same (List.cons_prefix_cons.mp within).1.symm]
          · rw [look_unlisted listed,look_unlisted listed,ite_self]
          · exact fun impossible => by cases impossible

theorem distinct_remove (path : List α) (whole : t.Distinct) : (remove path t).Distinct := by
  induction path generalizing t with
  | nil => exact whole
  | cons name tail ih =>
    cases t with
    | file data =>
      cases tail with
      | nil => exact whole
      | cons next later => exact whole
    | link text =>
      cases tail with
      | nil => exact whole
      | cons next later => exact whole
    | dir names child =>
      obtain ⟨once,inner⟩ := whole
      cases tail with
      | nil =>
        rw [remove]
        exact ⟨once.filter _,fun c member => inner c (List.mem_filter.mp member).1⟩
      | cons next later =>
        rw [remove]
        refine ⟨once,?_⟩
        intro c member
        by_cases same : c = name
        · rw [same,Function.update_self]
          exact ih (inner name (same ▸ member))
        · rw [Function.update_of_ne same]
          exact inner c member
        · exact fun impossible => by cases impossible

end Node

/-! ### Views that grow -/

section views
variable {t : Node α δ τ} [DecidableEq α] {base : List α} {view view' view'' : List α → Option (Shape δ τ)}

/-- Below `base` the view shows the tree or nothing. -/
def Agrees (t : Node α δ τ) (base : List α) (view : List α → Option (Shape δ τ)) : Prop :=
  ∀ rest, view (base ++ rest) = none ∨ view (base ++ rest) = t.look rest

/-- Every path is seen as before, or as the tree has it. -/
def Toward (t : Node α δ τ) (base : List α) (view view' : List α → Option (Shape δ τ)) : Prop :=
  ∀ path, view' path = view path ∨ ∃ rest, path = base ++ rest ∧ view' path = t.look rest

/-- The part of the tree at `path` is seen in full. -/
def Shows (t : Node α δ τ) (base path : List α) (view : List α → Option (Shape δ τ)) : Prop :=
  ∀ rest, t.look (path ++ rest) ≠ none → view (base ++ (path ++ rest)) = t.look (path ++ rest)

namespace Toward

theorem refl : Toward t base view view := fun _ => .inl rfl

theorem trans (first : Toward t base view view') (second : Toward t base view' view'') :
    Toward t base view view'' := by
  intro path
  rcases second path with same | tree
  · rcases first path with same' | ⟨rest,split,tree⟩
    · exact .inl (same.trans same')
    · exact .inr ⟨rest,split,same.trans tree⟩
  · exact .inr tree

theorem agrees (grown : Toward t base view view') (agreed : Agrees t base view) : Agrees t base view' := by
  intro rest
  rcases grown (base ++ rest) with same | ⟨rest',split,tree⟩
  · rw [same]
    exact agreed rest
  · obtain rfl := List.append_cancel_left split
    exact .inr tree

/-- What is seen stays seen. -/
theorem stays (grown : Toward t base view view') {rest : List α} (seen : view (base ++ rest) = t.look rest) :
    view' (base ++ rest) = t.look rest := by
  rcases grown (base ++ rest) with same | ⟨rest',split,tree⟩
  · rw [same,seen]
  · rw [tree,List.append_cancel_left split]

theorem shows (grown : Toward t base view view') {path : List α} (shown : Shows t base path view) :
    Shows t base path view' := fun rest there => grown.stays (shown rest there)

theorem outside (grown : Toward t base view view') {path : List α} (apart : ¬ base <+: path) :
    view' path = view path := by
  rcases grown path with same | ⟨rest,split,-⟩
  · exact same
  · exact absurd ⟨rest,split.symm⟩ apart

end Toward

/-- One path comes to be seen as the tree has it. -/
theorem toward_update {rest : List α} {shape : Shape δ τ} (tree : t.look rest = some shape)
    (made : view' = Function.update view (base ++ rest) (some shape)) : Toward t base view view' := by
  intro path
  rw [made]
  by_cases same : path = base ++ rest
  · right
    refine ⟨rest,same,?_⟩
    rw [same,Function.update_self,tree]
  · left
    exact Function.update_of_ne same _ _

/-- A view that agrees with the tree and shows all of it is that of the tree. -/
theorem look_of_shows (agreed : Agrees t base view) (shown : Shows t base [] view) (rest : List α) :
    view (base ++ rest) = t.look rest := by
  cases seen : t.look rest with
  | none =>
    rcases agreed rest with nothing | same
    · exact nothing
    · rw [same,seen]
  | some shape =>
    have there := shown rest (by rw [List.nil_append,seen]; exact Option.some_ne_none _)
    rw [List.nil_append] at there
    rw [there,seen]

/-- A directory is shown when it is seen and its entries are shown. -/
theorem shows_dir {path names : List α} {child : α → Node α δ τ} (found : t.find path = some (.dir names child))
    (here : view (base ++ path) = some .dir) (entries : ∀ name ∈ names, Shows t base (path ++ [name]) view) :
    Shows t base path view := by
  intro rest there
  cases rest with
  | nil =>
    rw [List.append_nil,here,Node.look,found]
    rfl
  | cons name rest =>
    have listed : name ∈ names := by
      by_contra absent
      apply there
      rw [Node.look_of_find found,Node.look_unlisted absent]
    have split : path ++ name::rest = path ++ [name] ++ rest := by rw [List.append_assoc]; rfl
    rw [split] at there ⊢
    exact entries name listed rest there

/-- There are directories on the way to `base`. -/
def Rooted (base : List α) (view : List α → Option (Shape δ τ)) : Prop :=
  ∀ above, above <+: base → above ≠ base → view above = some .dir

theorem Toward.rooted (grown : Toward t base view view') (rooted : Rooted base view) : Rooted base view' := by
  intro above before strict
  rw [grown.outside fun within => strict (before.eq_of_length_le within.length_le)]
  exact rooted above before strict

theorem shows_file {path : List α} {data : δ} (found : t.find path = some (.file data))
    (here : view (base ++ path) = some (.file data)) : Shows t base path view := by
  intro rest there
  rw [Node.look_of_find found] at there
  cases rest with
  | nil =>
    rw [List.append_nil,here,Node.look,found]
    rfl
  | cons name rest => exact absurd (Node.look_file data) there

section making
variable [DecidableEq δ] [DecidableEq τ] {host : Node α δ τ} {rest : List α}

/-- A directory of the tree can be made where the view agrees with it. -/
theorem createDirAll_toward (agreed : Agrees t base host.look) (rooted : Rooted base host.look)
    (there : t.look rest = some .dir) :
    ∃ host', host.createDirAll (base ++ rest) = some host' ∧ Toward t base host.look host'.look ∧
      host'.look (base ++ rest) = some .dir := by
  have tree {above : List α} (before : above <+: rest) : t.look above = some .dir := by
    by_cases same : above = rest
    · rw [same,there]
    · apply Node.look_above _ before same
      rw [there]
      exact Option.some_ne_none _
  have way {above : List α} (before : above <+: base ++ rest) : host.look above = none ∨ host.look above = some .dir := by
    rcases List.prefix_or_prefix_of_prefix before (List.prefix_append base rest) with outer | inner
    · by_cases same : above = base
      · have here := agreed []
        rw [List.append_nil,tree (List.nil_prefix)] at here
        rw [same]
        exact here
      · exact .inr (rooted above outer same)
    · obtain ⟨tail,rfl⟩ := inner
      have within : tail <+: rest := (List.prefix_append_right_inj base).mp before
      have here := agreed tail
      rw [tree within] at here
      exact here
  have made : ∃ host', host.createDirAll (base ++ rest) = some host' := by
    unfold Node.createDirAll
    split
    next blocked =>
      obtain ⟨above,before,other⟩ := List.any_eq_true.mp blocked
      rcases way ((List.mem_inits above _).mp before) with nothing | dir
      · rw [nothing] at other
        cases other
      · rw [dir] at other
        simp at other
    next =>
      split
      next => exact ⟨host,rfl⟩
      next => exact ⟨_,rfl⟩
  obtain ⟨host',made⟩ := made
  refine ⟨host',made,?_,?_⟩
  · intro path
    rw [Node.look_createDirAll made]
    split
    next before =>
      rcases List.prefix_or_prefix_of_prefix before (List.prefix_append base rest) with outer | inner
      · by_cases same : path = base
        · right
          refine ⟨[],?_,?_⟩
          · rw [List.append_nil,same]
          · rw [tree List.nil_prefix]
        · exact .inl (rooted path outer same).symm
      · obtain ⟨tail,rfl⟩ := inner
        right
        refine ⟨tail,rfl,?_⟩
        rw [tree ((List.prefix_append_right_inj base).mp before)]
    next => exact .inl rfl
  · rw [Node.look_createDirAll made,if_pos List.prefix_rfl]

/-- A file of the tree can be made where the view agrees with it. -/
theorem createFile_toward {data : δ} (agreed : Agrees t base host.look)
    (parent : host.look (base ++ rest).dropLast = some .dir) (there : t.look rest = some (.file data)) :
    ∃ host', host.createFile (base ++ rest) data = some host' ∧ Toward t base host.look host'.look ∧
      host'.look (base ++ rest) = some (.file data) := by
  have free : host.look (base ++ rest) ≠ some .dir := by
    rcases agreed rest with nothing | same
    · rw [nothing]
      exact fun absurd' => by cases absurd'
    · rw [same,there]
      exact fun absurd' => by cases absurd'
  have made : host.createFile (base ++ rest) data = some (.graft (.file data) (base ++ rest) host) := by
    rw [Node.createFile,if_pos ⟨parent,free⟩]
  have seen := Node.look_createFile made
  refine ⟨_,made,toward_update there seen,?_⟩
  rw [seen,Function.update_self]

end making
end views
end StorageHub.Library.LinkTree
