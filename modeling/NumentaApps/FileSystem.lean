import NumentaApps.CrashScript
import Mathlib.Data.List.Basic
import Mathlib.Data.List.Dedup
import Mathlib.Data.List.Induction

/-!
# File systems

A file system is a finite tree of directories, files and symbolic links. Each system call makes
one step on it; a file is written in two, between which it is not complete. A recursive delete
and a recursive copy are jobs of many steps below one path.
-/
namespace NumentaApps.FileSystem
open CrashScript

universe u v w

variable {N : Type u} [DecidableEq N] {C : Type v}

abbrev Path (N : Type u) := List N

/-- A file has no content while it is being written. The target of a link is a path from the
root. -/
inductive Node (N : Type u) (C : Type v) where
  | dir
  | file (content : Option C)
  | link (target : Path N)
  deriving DecidableEq

instance (node : Option (Node N C)) : Decidable (node = some .dir) :=
  match node with
  | some .dir => isTrue rfl
  | some (.file _) | some (.link _) | none => isFalse (by simp)

/-- Everything but the root is in a directory. -/
structure FileTree (N : Type u) [DecidableEq N] (C : Type v) where
  nodes : List (Path N × Node N C)
  closed : ∀ p n, (nodes.lookup (p ++ [n])).isSome → nodes.lookup p = some .dir

/-! ## Association lists -/

section Nodes
variable {nodes : List (Path N × Node N C)} {p q r : Path N}

theorem lookup_isSome : (nodes.lookup p).isSome ↔ ∃ e ∈ nodes, e.1 = p := by
  induction nodes with
  | nil => simp
  | cons e nodes ih =>
    obtain ⟨k, node⟩ := e
    rw [List.lookup_cons]
    by_cases hp : p = k
    · simp [hp]
    · simp [beq_false_of_ne hp, ih, Ne.symm hp]

theorem lookup_filter (keep : Path N → Bool) :
    (nodes.filter fun e => keep e.1).lookup p = if keep p then nodes.lookup p else none := by
  induction nodes with
  | nil => simp
  | cons e nodes ih =>
    obtain ⟨k, node⟩ := e
    rw [List.filter_cons, List.lookup_cons]
    by_cases hp : p = k
    · subst hp
      by_cases hkeep : keep p
      · simp [hkeep]
      · simp [hkeep, ih]
    · rw [beq_false_of_ne hp]
      by_cases hkeep : keep k
      · rw [if_pos hkeep, List.lookup_cons, beq_false_of_ne hp]
        exact ih
      · rw [if_neg hkeep]
        exact ih

/-- Everything at a path and below it is taken to another path, and replaces what was there. -/
def moveNodes (p q : Path N) (nodes : List (Path N × Node N C)) : List (Path N × Node N C) :=
  nodes.filterMap fun e =>
    if p <+: e.1 then some (q ++ e.1.drop p.length, e.2)
    else if q <+: e.1 then none
    else some e

theorem lookup_moveNodes : (moveNodes p q nodes).lookup r =
    if q <+: r then nodes.lookup (p ++ r.drop q.length)
    else if p <+: r then none
    else nodes.lookup r := by
  induction nodes with
  | nil => simp [moveNodes]
  | cons e nodes ih =>
    obtain ⟨k, node⟩ := e
    have hcons : moveNodes p q ((k, node) :: nodes) =
        (if p <+: k then [(q ++ k.drop p.length, node)]
          else if q <+: k then [] else [(k, node)]) ++ moveNodes p q nodes := by
      unfold moveNodes
      by_cases hp : p <+: k
      · simp [hp]
      · by_cases hq : q <+: k
        · simp [hp, hq]
        · simp [hp, hq]
    rw [hcons]
    by_cases hp : p <+: k
    · obtain ⟨s, rfl⟩ := hp
      rw [if_pos (List.prefix_append _ _), List.drop_left, List.singleton_append, List.lookup_cons, ih]
      by_cases hq : q <+: r
      · obtain ⟨t, rfl⟩ := hq
        simp only [List.prefix_append, if_true, List.drop_left, List.lookup_cons]
        by_cases hst : t = s
        · simp [hst]
        · simp [hst, beq_false_of_ne]
      · have hne : r ≠ q ++ s := by
          rintro rfl
          exact hq (List.prefix_append _ _)
        rw [beq_false_of_ne hne, if_neg hq, if_neg hq]
        by_cases hpr : p <+: r
        · simp [hpr]
        · have hne' : r ≠ p ++ s := by
            rintro rfl
            exact hpr (List.prefix_append _ _)
          simp [hpr, List.lookup_cons, beq_false_of_ne hne']
    · have hmoved : ∀ t, p ++ t ≠ k := by
        rintro t rfl
        exact hp (List.prefix_append _ _)
      rw [if_neg hp, List.lookup_cons, List.lookup_cons, beq_false_of_ne (hmoved _)]
      by_cases hqk : q <+: k
      · rw [if_pos hqk, List.nil_append, ih]
        by_cases hq : q <+: r
        · simp [hq]
        · have hne : r ≠ k := by
            rintro rfl
            exact hq hqk
          simp [hq, beq_false_of_ne hne]
      · rw [if_neg hqk, List.singleton_append, List.lookup_cons, ih]
        by_cases hr : r = k
        · subst hr
          simp [hqk, hp]
        · simp [beq_false_of_ne hr]

end Nodes

namespace FileTree
variable (fs : FileTree N C)

def lookup (p : Path N) : Option (Node N C) := fs.nodes.lookup p

def empty : FileTree N C := ⟨[], fun _ _ h => nomatch h⟩

/-- The root is in no directory of the tree. -/
def HasParent (p : Path N) : Prop := p = [] ∨ fs.lookup p.dropLast = some .dir

instance (p : Path N) : Decidable (fs.HasParent p) := inferInstanceAs (Decidable (_ ∨ _))

def listdir (p : Path N) : List N :=
  (fs.nodes.filterMap fun e => if e.1.dropLast = p then e.1.getLast? else none).dedup

/-- The place that a path leads to if its last name is that of a link. -/
def follow : ℕ → Path N → Path N
  | 0, p => p
  | fuel + 1, p =>
    match fs.lookup p with
    | some (.link target) => follow fuel target
    | _ => p

/-- Links in the middle of a path are not followed. -/
def realpath (p : Path N) : Path N := fs.follow fs.nodes.length p

/-- A link exists if its target does. -/
def exists? (p : Path N) : Bool := (fs.lookup (fs.realpath p)).isSome

/-! ## Changes of a tree -/

variable {fs} {p q r : Path N} {node : Node N C}

theorem mem_listdir {n : N} : n ∈ fs.listdir p ↔ (fs.lookup (p ++ [n])).isSome := by
  rw [listdir, List.mem_dedup, List.mem_filterMap, lookup, lookup_isSome]
  constructor
  · rintro ⟨e, he, hlast⟩
    split at hlast
    · rename_i hp
      refine ⟨e, he, ?_⟩
      rw [← hp]
      exact (List.dropLast_append_getLast? n hlast).symm
    · cases hlast
  · rintro ⟨e, he, hp⟩
    refine ⟨e, he, ?_⟩
    rw [hp, List.dropLast_concat, if_pos rfl, List.getLast?_concat]

/-- A node is put at a path where there is no directory. -/
def insert (fs : FileTree N C) (p : Path N) (node : Node N C) (hparent : fs.HasParent p)
    (hdir : fs.lookup p ≠ some .dir) : FileTree N C where
  nodes := (p, node) :: fs.nodes.filter fun e => e.1 ≠ p
  closed := by
    have hlookup : ∀ r, ((p, node) :: fs.nodes.filter fun e => e.1 ≠ p).lookup r =
        if r = p then some node else fs.lookup r := by
      intro r
      rw [List.lookup_cons, lookup_filter fun r => r ≠ p]
      by_cases hr : r = p
      · simp [hr]
      · simp [hr, beq_false_of_ne hr, lookup]
    intro r n h
    rw [hlookup] at h ⊢
    by_cases hn : r ++ [n] = p
    · have hne : r ≠ p := by
        rintro rfl
        simp at hn
      rw [if_neg hne]
      rcases hparent with rfl | hparent
      · simp at hn
      · rw [← hn, List.dropLast_concat] at hparent
        exact hparent
    · rw [if_neg hn] at h
      have hr : fs.lookup r = some .dir := fs.closed r n h
      rw [if_neg, hr]
      rintro rfl
      exact hdir hr

theorem lookup_insert {hparent : fs.HasParent p} {hdir : fs.lookup p ≠ some .dir} :
    (fs.insert p node hparent hdir).lookup r = if r = p then some node else fs.lookup r := by
  rw [lookup, insert, List.lookup_cons, lookup_filter fun r => r ≠ p]
  by_cases hr : r = p
  · simp [hr]
  · simp [hr, beq_false_of_ne hr, lookup]

/-- A node in which there is nothing is removed. -/
def erase (fs : FileTree N C) (p : Path N) (hleaf : fs.listdir p = []) : FileTree N C where
  nodes := fs.nodes.filter fun e => e.1 ≠ p
  closed := by
    intro r n h
    rw [lookup_filter fun r => r ≠ p] at h ⊢
    split at h
    · have hr : r ≠ p := by
        rintro rfl
        have hn := mem_listdir.mpr h
        rw [hleaf] at hn
        cases hn
      rw [if_pos (decide_eq_true hr)]
      exact fs.closed r n h
    · cases h

theorem lookup_erase {hleaf : fs.listdir p = []} :
    (fs.erase p hleaf).lookup r = if r = p then none else fs.lookup r := by
  rw [lookup, erase, lookup_filter fun r => r ≠ p]
  by_cases hr : r = p
  · simp [hr]
  · simp [hr, lookup]

/-- A node and all that is below it is taken to another place. -/
def move (fs : FileTree N C) (p q : Path N) (hpq : ¬ p <+: q)
    (hparent : fs.lookup q.dropLast = some .dir) : FileTree N C where
  nodes := moveNodes p q fs.nodes
  closed := by
    intro r n h
    rw [lookup_moveNodes] at h ⊢
    have hbelow : ∀ {a : Path N}, a <+: r → a <+: r ++ [n] :=
      fun ha => ha.trans (List.prefix_append r [n])
    by_cases hq : q <+: r ++ [n]
    · rw [if_pos hq] at h
      rcases List.prefix_concat_iff.mp hq with rfl | hqr
      · have hqr : ¬ r ++ [n] <+: r := fun hle => absurd hle.length_le (by simp)
        rw [List.dropLast_concat] at hparent
        rw [if_neg hqr, if_neg fun hp => hpq (hbelow hp)]
        exact hparent
      · obtain ⟨t, rfl⟩ := hqr
        rw [if_pos (List.prefix_append _ _), List.drop_left]
        rw [List.append_assoc, List.drop_left, ← List.append_assoc] at h
        exact fs.closed _ n h
    · rw [if_neg hq] at h
      split at h
      · cases h
      · rename_i hp
        rw [if_neg fun hqr => hq (hbelow hqr), if_neg fun hpr => hp (hbelow hpr)]
        exact fs.closed r n h

theorem lookup_move {hpq : ¬ p <+: q} {hparent : fs.lookup q.dropLast = some .dir} :
    (fs.move p q hpq hparent).lookup r =
      if q <+: r then fs.lookup (p ++ r.drop q.length)
      else if p <+: r then none
      else fs.lookup r :=
  lookup_moveNodes

/-- What is not a directory has nothing in it. -/
theorem listdir_of_ne_dir (h : fs.lookup p ≠ some .dir) : fs.listdir p = [] := by
  apply List.eq_nil_iff_forall_not_mem.mpr
  intro n hn
  exact h (fs.closed p n (mem_listdir.mp hn))

/-- Nothing is below a path where there is nothing. -/
theorem lookup_append (h : fs.lookup p = none) (q : Path N) : fs.lookup (p ++ q) = none := by
  induction q using List.reverseRecOn with
  | nil => rwa [List.append_nil]
  | append_singleton q n ih =>
    by_contra hsome
    rw [← List.append_assoc] at hsome
    have hdir := fs.closed _ n (Option.isSome_iff_ne_none.mpr hsome)
    rw [lookup] at ih
    rw [ih] at hdir
    cases hdir

theorem hasParent_of_isSome (h : (fs.lookup p).isSome) : fs.HasParent p := by
  rcases List.eq_nil_or_concat p with rfl | ⟨q, n, rfl⟩
  · exact .inl rfl
  · rw [List.concat_eq_append] at h ⊢
    refine .inr ?_
    rw [List.dropLast_concat]
    exact fs.closed q n h

theorem hasParent_concat {n : N} (h : fs.lookup p = some .dir) : fs.HasParent (p ++ [n]) := by
  refine .inr ?_
  rwa [List.dropLast_concat]

theorem realpath_link {target : Path N} (h : fs.lookup p = some (.link target))
    (htarget : ∀ t, fs.lookup target ≠ some (.link t)) : fs.realpath p = target := by
  have hne : fs.nodes ≠ [] := by
    intro hnil
    rw [lookup, hnil] at h
    cases h
  obtain ⟨e, nodes, hnodes⟩ := List.exists_cons_of_ne_nil hne
  rw [realpath, hnodes, List.length_cons, follow, h]
  dsimp only
  cases nodes.length with
  | zero => rfl
  | succ fuel =>
    rw [follow]
    split
    · rename_i t ht
      exact absurd ht (htarget t)
    · rfl

theorem realpath_self (h : ∀ t, fs.lookup p ≠ some (.link t)) : fs.realpath p = p := by
  rw [realpath]
  cases fs.nodes.length with
  | zero => rfl
  | succ fuel =>
    rw [follow]
    split
    · rename_i t ht
      exact absurd ht (h t)
    · rfl

end FileTree

/-! ## System calls -/

inductive Step (N : Type u) (C : Type v) where
  | mkdir (p : Path N)
  | create (p : Path N)
  | write (p : Path N) (content : C)
  | symlink (target p : Path N)
  | rename (p q : Path N)
  | unlink (p : Path N)
  | rmdir (p : Path N)

namespace Step

/-- The effect of a system call; none where it raises. A file that is there is written over, and a
file or a link is replaced by another that is renamed to it. -/
def apply : Step N C → FileTree N C → Option (FileTree N C)
  | .mkdir p, fs =>
    if h : fs.HasParent p ∧ fs.lookup p = none then some (fs.insert p .dir h.1 (by simp [h.2]))
    else none
  | .create p, fs =>
    if h : fs.HasParent p ∧ (fs.lookup p).all (· matches .file _) then
      some (fs.insert p (.file none) h.1 (by
        intro hdir
        simp [hdir] at h))
    else none
  | .write p content, fs =>
    if h : (fs.lookup p).any (· matches .file _) then
      some (fs.insert p (.file (some content))
        (FileTree.hasParent_of_isSome (Option.isSome_of_any h)) (by
          intro hdir
          simp [hdir] at h))
    else none
  | .symlink target p, fs =>
    if h : fs.HasParent p ∧ fs.lookup p = none then
      some (fs.insert p (.link target) h.1 (by simp [h.2]))
    else none
  | .rename p q, fs =>
    if h : ((fs.lookup p).isSome ∧ ¬ p <+: q ∧ fs.lookup q.dropLast = some .dir) ∧
        (fs.lookup q = none ∨ (fs.lookup p ≠ some .dir ∧ fs.lookup q ≠ some .dir)) then
      some (fs.move p q h.1.2.1 h.1.2.2)
    else none
  | .unlink p, fs =>
    if h : (fs.lookup p).isSome ∧ fs.lookup p ≠ some .dir then
      some (fs.erase p (FileTree.listdir_of_ne_dir h.2))
    else none
  | .rmdir p, fs =>
    if h : fs.lookup p = some .dir ∧ fs.listdir p = [] then some (fs.erase p h.2) else none

/-- The paths that a call changes. -/
def paths : Step N C → List (Path N)
  | .mkdir p | .create p | .write p _ | .symlink _ p | .unlink p | .rmdir p => [p]
  | .rename p q => [p, q]

/-- All that a call changes is at a path or below it. -/
def Within (p : Path N) (step : Step N C) : Prop := ∀ q ∈ step.paths, p <+: q

def deletes : Step N C → Bool
  | .unlink _ | .rmdir _ => true
  | _ => false

def creates : Step N C → Bool
  | .mkdir _ | .create _ | .write _ _ | .symlink _ _ => true
  | _ => false

end Step

/-- Nothing has changed but at a path and below it. -/
def Confined (p : Path N) (fs fs' : FileTree N C) : Prop :=
  ∀ r, ¬ p <+: r → fs'.lookup r = fs.lookup r

variable {fs fs' fs'' : FileTree N C} {p q r : Path N} {content : C}

theorem Confined.refl (p : Path N) (fs : FileTree N C) : Confined p fs fs := fun _ _ => rfl

theorem Confined.trans (h : Confined p fs fs') (h' : Confined p fs' fs'') : Confined p fs fs'' :=
  fun r hr => (h' r hr).trans (h r hr)

theorem Confined.mono (h : Confined q fs fs') (hpq : p <+: q) : Confined p fs fs' :=
  fun r hr => h r fun hq => hr (hpq.trans hq)

/-- A call changes nothing but its paths and what is below them. -/
theorem Step.apply_confined {step : Step N C} (hwithin : step.Within p)
    (h : step.apply fs = some fs') : Confined p fs fs' := by
  intro r hr
  have hne : ∀ q ∈ step.paths, r ≠ q := by
    rintro q hq rfl
    exact hr (hwithin r hq)
  cases step with
  | rename a b =>
    have hb : ¬ b <+: r := fun hb => hr ((hwithin b (by simp [paths])).trans hb)
    have ha : ¬ a <+: r := fun ha => hr ((hwithin a (by simp [paths])).trans ha)
    simp only [apply] at h
    split at h
    · cases h
      rw [FileTree.lookup_move, if_neg hb, if_neg ha]
    · cases h
  | unlink a | rmdir a =>
    simp only [apply] at h
    split at h
    · cases h
      rw [FileTree.lookup_erase, if_neg (hne a List.mem_cons_self)]
    · cases h
  | mkdir a | create a | write a | symlink t a =>
    simp only [apply] at h
    split at h
    · cases h
      rw [FileTree.lookup_insert, if_neg (hne a List.mem_cons_self)]
    · cases h

/-- So does a job. -/
theorem through_confined {kind : Step N C → Prop} (hkind : ∀ step, kind step → step.Within p)
    (h : Through Step.apply kind fs fs') : Confined p fs fs' :=
  h.invariant (fun _ _ _ hstep happly hconfined =>
    hconfined.trans (Step.apply_confined (hkind _ hstep) happly)) (.refl p fs)

/-! ### What the calls do -/

theorem mkdir_spec (hparent : fs.HasParent p) (hnone : fs.lookup p = none) :
    ∃ fs', (Step.mkdir p).apply fs = some fs' ∧
      ∀ r, fs'.lookup r = if r = p then some .dir else fs.lookup r :=
  ⟨_, dif_pos ⟨hparent, hnone⟩, fun _ => FileTree.lookup_insert⟩

theorem create_spec (hparent : fs.HasParent p) (hnone : fs.lookup p = none) :
    ∃ fs', (Step.create p).apply fs = some fs' ∧
      ∀ r, fs'.lookup r = if r = p then some (.file none) else fs.lookup r :=
  ⟨_, dif_pos ⟨hparent, by simp [hnone]⟩, fun _ => FileTree.lookup_insert⟩

theorem write_spec {old : Option C} (hfile : fs.lookup p = some (.file old)) (content : C) :
    ∃ fs', (Step.write p content).apply fs = some fs' ∧
      ∀ r, fs'.lookup r = if r = p then some (.file (some content)) else fs.lookup r :=
  ⟨_, dif_pos (by simp [hfile]), fun _ => FileTree.lookup_insert⟩

theorem symlink_spec (hparent : fs.HasParent p) (hnone : fs.lookup p = none) (target : Path N) :
    ∃ fs', (Step.symlink target p).apply fs = some fs' ∧
      ∀ r, fs'.lookup r = if r = p then some (.link target) else fs.lookup r :=
  ⟨_, dif_pos ⟨hparent, hnone⟩, fun _ => FileTree.lookup_insert⟩

theorem unlink_spec (hsome : (fs.lookup p).isSome) (hdir : fs.lookup p ≠ some .dir) :
    ∃ fs', (Step.unlink p).apply fs = some fs' ∧
      ∀ r, fs'.lookup r = if r = p then none else fs.lookup r :=
  ⟨_, dif_pos ⟨hsome, hdir⟩, fun _ => FileTree.lookup_erase⟩

/-! ## Scripts of system calls -/

abbrev FileScript (N : Type u) [DecidableEq N] (C : Type v) (ρ : Type w) :=
  Script (FileTree N C) (Step N C) ρ

section Scripts
variable {ρ : Type w}

/-- A directory that is there is left as it is. -/
def makeDirectory (p : Path N) (rest : FileScript N C ρ) : FileScript N C ρ :=
  .read fun fs => if fs.exists? p then rest else .step (.mkdir p) rest

def writeFile (p : Path N) (content : C) (rest : FileScript N C ρ) : FileScript N C ρ :=
  .step (.create p) <| .step (.write p content) rest

def rmtree (p : Path N) (rest : FileScript N C ρ) : FileScript N C ρ :=
  .job (fun step => step.deletes ∧ step.Within p) (fun _ fs' => fs'.lookup p = none) rest

/-- Links are copied as links. -/
def copytree (p q : Path N) (rest : FileScript N C ρ) : FileScript N C ρ :=
  .job (fun step => step.creates ∧ step.Within q)
    (fun fs fs' => ∀ r, fs'.lookup (q ++ r) = fs.lookup (p ++ r)) rest

/-! ### Rules for what is done where it is not seen -/

variable {fs₀ : FileTree N C} {P : FileTree N C → Prop} {Q : ρ → FileTree N C → Prop}
  {rest : FileScript N C ρ} {target : Path N}

/-- A property that changes below a path do not matter to. -/
def Hidden (P : FileTree N C → Prop) (q : Path N) (fs₀ : FileTree N C) : Prop :=
  ∀ fs, Confined q fs₀ fs → P fs

theorem confined_of_lookup {node : Option (Node N C)} (hqp : q <+: p)
    (h : ∀ r, fs'.lookup r = if r = p then node else fs.lookup r) : Confined q fs fs' := by
  intro r hr
  rw [h, if_neg]
  rintro rfl
  exact hr hqp

theorem ensures_mkdir_seen (hP : P fs) (hparent : fs.HasParent p) (hnone : fs.lookup p = none)
    (h : ∀ fs', (∀ r, fs'.lookup r = if r = p then some .dir else fs.lookup r) →
      rest.Ensures Step.apply P Q fs') :
    Script.Ensures Step.apply P Q (.step (.mkdir p) rest) fs := by
  obtain ⟨fs', hstep, hlookup⟩ := mkdir_spec hparent hnone
  exact ⟨hP, fs', hstep, h fs' hlookup⟩

theorem ensures_mkdir (hP : Hidden P q fs₀) (hconf : Confined q fs₀ fs) (hqp : q <+: p)
    (hparent : fs.HasParent p) (hnone : fs.lookup p = none)
    (h : ∀ fs', Confined q fs₀ fs' →
      (∀ r, fs'.lookup r = if r = p then some .dir else fs.lookup r) →
      rest.Ensures Step.apply P Q fs') :
    Script.Ensures Step.apply P Q (.step (.mkdir p) rest) fs := by
  apply ensures_mkdir_seen (hP fs hconf) hparent hnone
  intro fs' hlookup
  exact h fs' (hconf.trans (confined_of_lookup hqp hlookup)) hlookup

theorem ensures_makeDirectory (hP : Hidden P q fs₀) (hconf : Confined q fs₀ fs) (hqp : q <+: p)
    (hparent : fs.HasParent p) (hnone : fs.lookup p = none)
    (h : ∀ fs', Confined q fs₀ fs' →
      (∀ r, fs'.lookup r = if r = p then some .dir else fs.lookup r) →
      rest.Ensures Step.apply P Q fs') :
    (makeDirectory p rest).Ensures Step.apply P Q fs := by
  have hself : fs.realpath p = p := FileTree.realpath_self (by simp [hnone])
  have hexists : fs.exists? p = false := by simp [FileTree.exists?, hself, hnone]
  rw [makeDirectory, Script.Ensures, hexists]
  exact ensures_mkdir hP hconf hqp hparent hnone h

theorem ensures_writeFile (hP : Hidden P q fs₀) (hconf : Confined q fs₀ fs) (hqp : q <+: p)
    (hparent : fs.HasParent p) (hnone : fs.lookup p = none)
    (h : ∀ fs', Confined q fs₀ fs' →
      (∀ r, fs'.lookup r = if r = p then some (.file (some content)) else fs.lookup r) →
      rest.Ensures Step.apply P Q fs') :
    (writeFile p content rest).Ensures Step.apply P Q fs := by
  obtain ⟨fs₁, hcreate, h₁⟩ := create_spec hparent hnone
  obtain ⟨fs₂, hwrite, h₂⟩ := write_spec ((h₁ p).trans (if_pos rfl)) content
  have hconf₁ := hconf.trans (confined_of_lookup hqp h₁)
  refine ⟨hP fs hconf, fs₁, hcreate, hP fs₁ hconf₁, fs₂, hwrite, h fs₂ ?_ fun r => ?_⟩
  · exact hconf₁.trans (confined_of_lookup hqp h₂)
  · rw [h₂]
    split
    · rfl
    · rename_i hr
      rw [h₁, if_neg hr]

theorem ensures_symlink (hP : Hidden P q fs₀) (hconf : Confined q fs₀ fs) (hqp : q <+: p)
    (hparent : fs.HasParent p) (hnone : fs.lookup p = none)
    (h : ∀ fs', Confined q fs₀ fs' →
      (∀ r, fs'.lookup r = if r = p then some (.link target) else fs.lookup r) →
      rest.Ensures Step.apply P Q fs') :
    Script.Ensures Step.apply P Q (.step (.symlink target p) rest) fs := by
  obtain ⟨fs', hstep, hlookup⟩ := symlink_spec hparent hnone target
  have hconf' := hconf.trans (confined_of_lookup hqp hlookup)
  exact ⟨hP fs hconf, fs', hstep, h fs' hconf' hlookup⟩

theorem ensures_unlink (hP : Hidden P q fs₀) (hconf : Confined q fs₀ fs) (hqp : q <+: p)
    (hsome : (fs.lookup p).isSome) (hdir : fs.lookup p ≠ some .dir)
    (h : ∀ fs', Confined q fs₀ fs' →
      (∀ r, fs'.lookup r = if r = p then none else fs.lookup r) →
      rest.Ensures Step.apply P Q fs') :
    Script.Ensures Step.apply P Q (.step (.unlink p) rest) fs := by
  obtain ⟨fs', hstep, hlookup⟩ := unlink_spec hsome hdir
  have hconf' := hconf.trans (confined_of_lookup hqp hlookup)
  exact ⟨hP fs hconf, fs', hstep, h fs' hconf' hlookup⟩

/-- A job that is confined to a path. -/
theorem ensures_job {kind : Step N C → Prop} {post : FileTree N C → FileTree N C → Prop}
    (hP : Hidden P q fs₀) (hconf : Confined q fs₀ fs) (hqp : q <+: p)
    (hkind : ∀ step, kind step → step.Within p)
    (h : ∀ fs', Confined q fs₀ fs' → Confined p fs fs' → post fs fs' →
      rest.Ensures Step.apply P Q fs') :
    Script.Ensures Step.apply P Q (.job kind post rest) fs := by
  intro fs' hjob
  have hwithin := through_confined hkind hjob
  have hconf' := hconf.trans (hwithin.mono hqp)
  exact ⟨hP fs' hconf', h fs' hconf' hwithin⟩

theorem ensures_rmtree (hP : Hidden P q fs₀) (hconf : Confined q fs₀ fs) (hqp : q <+: p)
    (h : ∀ fs', Confined q fs₀ fs' → Confined p fs fs' → fs'.lookup p = none →
      rest.Ensures Step.apply P Q fs') :
    (rmtree p rest).Ensures Step.apply P Q fs :=
  ensures_job hP hconf hqp (fun _ hstep => hstep.2) h

theorem ensures_copytree (hP : Hidden P q fs₀) (hconf : Confined q fs₀ fs) (hqp : q <+: p)
    (h : ∀ fs', Confined q fs₀ fs' → Confined p fs fs' →
      (∀ s, fs'.lookup (p ++ s) = fs.lookup (r ++ s)) → rest.Ensures Step.apply P Q fs') :
    (copytree r p rest).Ensures Step.apply P Q fs :=
  ensures_job hP hconf hqp (fun _ hstep => hstep.2) h

/-- What is renamed is seen at its new place at once. -/
theorem ensures_rename (hP : P fs) (hsome : (fs.lookup p).isSome) (hpq : ¬ p <+: q)
    (hparent : fs.lookup q.dropLast = some .dir)
    (hplace : fs.lookup q = none ∨ (fs.lookup p ≠ some .dir ∧ fs.lookup q ≠ some .dir))
    (h : ∀ fs', (∀ r, fs'.lookup (q ++ r) = fs.lookup (p ++ r)) →
      (∀ r, ¬ q <+: r → fs'.lookup r = if p <+: r then none else fs.lookup r) →
      rest.Ensures Step.apply P Q fs') :
    Script.Ensures Step.apply P Q (.step (.rename p q) rest) fs := by
  refine ⟨hP, _, dif_pos ⟨⟨hsome, hpq, hparent⟩, hplace⟩, h _ ?_ ?_⟩
  · intro r
    rw [FileTree.lookup_move, if_pos (List.prefix_append q r), List.drop_left]
  · intro r hq
    rw [FileTree.lookup_move, if_neg hq]

end Scripts

end NumentaApps.FileSystem
