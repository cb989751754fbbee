import Mathlib.Data.Bool.AllAny
import NumentaApps.ModelCheckpointMgr

/-!
# The checkpoint archive is an atomic map

At every crash point of a call the storage represents the archive before the call or the
archive after it. What is made in the scratch directory is not seen, and one rename makes
the change.
-/
namespace NumentaApps.ModelCheckpoint
open CrashScript FileSystem

variable {D M A B : Type} {factory : ModelFactory D M A B} {fs fs' : Storage D A B}
  {modelID : ModelID}

/-! ## Names -/

theorem ModelID.head_ne (modelID : ModelID) : modelID.name.toList.head? ≠ some '.' := by
  intro h
  have hhex := modelID.isHex.2 '.' (List.mem_of_head? h)
  exact absurd hhex (by decide)

theorem ModelID.name_ne (modelID : ModelID) : modelID.name ≠ ".scratch" := by
  intro h
  apply modelID.head_ne
  rw [h]
  rfl

theorem checkpointStoreName_ne (now : String) :
    checkpointStoreName now ≠ modelDefinitionFileName ∧
      checkpointStoreName now ≠ checkpointLinkName := by
  have hhead : (checkpointStoreName now).toList.take 2 = ['c', 'h'] := by
    rw [checkpointStoreName, String.toList_append]
    rfl
  constructor
  · intro h
    rw [h] at hhead
    exact absurd hhead (by decide)
  · intro h
    rw [h] at hhead
    exact absurd hhead (by decide)

/-! ## Entries -/

/-- A complete store. -/
structure StoreAt (factory : ModelFactory D M A B) (fs : Storage D A B) (store : Path String)
    (model : M) (attributes : A) : Prop where
  dir_eq : fs.lookup store = some .dir
  attributes_eq : fs.lookup (store ++ [checkpointAttributesFileName]) =
    some (.file (some (.attributes attributes)))
  saves : factory.Saves model (filesOf fs (store ++ [checkpointInstanceDirName]))

/-- The current checkpoint of an entry, which is to be linked to in its home. -/
def CheckpointAt (factory : ModelFactory D M A B) (fs : Storage D A B) (dir home : Path String) :
    Option (M × A) → Prop
  | none => fs.lookup (dir ++ [checkpointLinkName]) = none
  | some (model, attributes) => ∃ now,
    fs.lookup (dir ++ [checkpointLinkName]) = some (.link (home ++ [checkpointStoreName now])) ∧
      StoreAt factory fs (dir ++ [checkpointStoreName now]) model attributes

structure EntryAt (factory : ModelFactory D M A B) (fs : Storage D A B) (dir home : Path String)
    (stored : StoredModel D M A) : Prop where
  dir_eq : fs.lookup dir = some .dir
  definition_eq : fs.lookup (dir ++ [modelDefinitionFileName]) =
    some (.file (some (.definition stored.definition)))
  checkpoint : CheckpointAt factory fs dir home stored.checkpoint

section Entries
variable {dir dir' home store store' : Path String} {stored : StoredModel D M A} {model : M}
  {attributes : A} {checkpoint : Option (M × A)}

theorem filesOf_congr (h : ∀ r, fs'.lookup (dir' ++ r) = fs.lookup (dir ++ r)) (p : Path String) :
    filesOf fs' (dir' ++ p) = filesOf fs (dir ++ p) := by
  funext r
  rw [filesOf, filesOf, List.append_assoc, List.append_assoc]
  exact h (p ++ r)

theorem StoreAt.congr (hstore : StoreAt factory fs store model attributes)
    (h : ∀ r, fs'.lookup (store' ++ r) = fs.lookup (store ++ r)) :
    StoreAt factory fs' store' model attributes where
  dir_eq := by simpa using (h []).trans (by simpa using hstore.dir_eq)
  attributes_eq := (h _).trans hstore.attributes_eq
  saves := by
    rw [filesOf_congr h]
    exact hstore.saves

/-- An entry may be copied or moved. -/
theorem EntryAt.congr (hentry : EntryAt factory fs dir home stored)
    (h : ∀ r, fs'.lookup (dir' ++ r) = fs.lookup (dir ++ r)) :
    EntryAt factory fs' dir' home stored where
  dir_eq := by simpa using (h []).trans (by simpa using hentry.dir_eq)
  definition_eq := (h _).trans hentry.definition_eq
  checkpoint := by
    have hcheckpoint := hentry.checkpoint
    cases hc : stored.checkpoint with
    | none =>
      rw [hc] at hcheckpoint
      exact (h _).trans hcheckpoint
    | some checkpoint =>
      rw [hc] at hcheckpoint
      obtain ⟨now, hlink, hstore⟩ := hcheckpoint
      refine ⟨now, (h _).trans hlink, hstore.congr fun r => ?_⟩
      rw [List.append_assoc, List.append_assoc]
      exact h _

/-- A name in an entry that is neither that of a file nor of the current store does not matter. -/
theorem EntryAt.frame (hentry : EntryAt factory fs dir home stored) {n : String}
    (hdefinition : n ≠ modelDefinitionFileName) (hlink : n ≠ checkpointLinkName)
    (hcurrent : fs.lookup (dir ++ [checkpointLinkName]) ≠ some (.link (home ++ [n])))
    (h : ∀ r, ¬ [n] <+: r → fs'.lookup (dir ++ r) = fs.lookup (dir ++ r)) :
    EntryAt factory fs' dir home stored where
  dir_eq := by simpa using (h [] (by simp)).trans (by simpa using hentry.dir_eq)
  definition_eq := (h _ (by simpa using hdefinition)).trans hentry.definition_eq
  checkpoint := by
    have hsame := h [checkpointLinkName] (by simpa using hlink)
    have hcheckpoint := hentry.checkpoint
    cases hc : stored.checkpoint with
    | none =>
      rw [hc] at hcheckpoint
      exact hsame.trans hcheckpoint
    | some checkpoint =>
      rw [hc] at hcheckpoint
      obtain ⟨now, htarget, hstore⟩ := hcheckpoint
      refine ⟨now, hsame.trans htarget, hstore.congr fun r => ?_⟩
      have hne : n ≠ checkpointStoreName now := by
        rintro rfl
        exact hcurrent htarget
      rw [List.append_assoc]
      exact h _ (by simpa using hne)

end Entries

/-! ## What a storage represents -/

def EntryOf (factory : ModelFactory D M A B) (fs : Storage D A B) (modelID : ModelID) :
    Entry D M A → Prop
  | none => fs.lookup (modelDir modelID) = none
  | some stored => EntryAt factory fs (modelDir modelID) (modelDir modelID) stored

structure Represents (factory : ModelFactory D M A B) (fs : Storage D A B)
    (archive : Archive ModelID D M A) : Prop where
  entry : ∀ modelID, EntryOf factory fs modelID (archive modelID)
  names : ∀ n, (fs.lookup [n]).isSome → n = ".scratch" ∨ ∃ modelID : ModelID, modelID.name = n

/-- The directories that a manager works in are there. -/
structure Ready (fs : Storage D A B) : Prop where
  root : fs.lookup [] = some .dir
  scratch : fs.lookup scratchDir = some .dir

variable {archive : Archive ModelID D M A} {entry : Entry D M A}

theorem EntryOf.congr (h : EntryOf factory fs modelID entry)
    (hsame : ∀ r, fs'.lookup (modelDir modelID ++ r) = fs.lookup (modelDir modelID ++ r)) :
    EntryOf factory fs' modelID entry := by
  cases entry with
  | none =>
    have hsame := hsame []
    rw [List.append_nil] at hsame
    exact hsame.trans h
  | some stored => exact EntryAt.congr h hsame

theorem not_scratch (modelID : ModelID) (r : Path String) :
    ¬ scratchDir <+: modelDir modelID ++ r := by
  intro h
  exact modelID.name_ne (List.cons_prefix_cons.mp h).1.symm

/-- Nothing in the scratch directory is seen. -/
theorem Represents.confined (h : Represents factory fs archive)
    (hconf : Confined scratchDir fs fs') : Represents factory fs' archive where
  entry modelID := (h.entry modelID).congr fun r => hconf _ (not_scratch modelID r)
  names n hn := by
    by_cases hscratch : n = ".scratch"
    · exact .inl hscratch
    · rw [hconf [n] (by simpa [scratchDir] using Ne.symm hscratch)] at hn
      exact h.names n hn

theorem Ready.confined (h : Ready fs) {tmp : String} (hconf : Confined (tempRoot tmp) fs fs') :
    Ready fs' where
  root := (hconf [] (by simp [tempRoot])).trans h.root
  scratch := (hconf scratchDir (by simp [tempRoot, scratchDir])).trans h.scratch

theorem ModelID.ext {a b : ModelID} (h : a.name = b.name) : a = b := by
  cases a
  cases b
  cases h
  rfl

/-- One entry is changed, and nothing else but in the scratch directory. -/
theorem Represents.update (h : Represents factory fs archive)
    (hentry : EntryOf factory fs' modelID entry)
    (hrest : ∀ r, ¬ scratchDir <+: r → ¬ modelDir modelID <+: r → fs'.lookup r = fs.lookup r) :
    Represents factory fs' (Function.update archive modelID entry) where
  entry id := by
    by_cases hid : id = modelID
    · rw [hid, Function.update_self]
      exact hentry
    · rw [Function.update_of_ne hid]
      refine (h.entry id).congr fun r => hrest _ (not_scratch id r) fun hbelow => hid ?_
      exact ModelID.ext (List.cons_prefix_cons.mp hbelow).1.symm
  names n hn := by
    by_cases hscratch : n = ".scratch"
    · exact .inl hscratch
    · by_cases hname : n = modelID.name
      · exact .inr ⟨modelID, hname.symm⟩
      · rw [hrest [n] (by simpa [scratchDir] using Ne.symm hscratch)
          (by simpa [modelDir] using Ne.symm hname)] at hn
        exact h.names n hn

theorem Represents.exists_modelDir (h : Represents factory fs archive) (modelID : ModelID) :
    fs.exists? (modelDir modelID) = (archive modelID).isSome := by
  have hentry := h.entry modelID
  cases harchive : archive modelID with
  | none =>
    rw [harchive] at hentry
    have hnone : fs.lookup (modelDir modelID) = none := hentry
    rw [FileTree.exists?, FileTree.realpath_self (by simp [hnone]), hnone]
    rfl
  | some stored =>
    rw [harchive] at hentry
    have hdir : fs.lookup (modelDir modelID) = some .dir := hentry.dir_eq
    rw [FileTree.exists?, FileTree.realpath_self (by simp [hdir]), hdir]
    rfl

/-! ## Calls -/

/-- The storage after a crash: of the archive before a call, or of the archive after it. -/
def CrashSafe (factory : ModelFactory D M A B) (archive : Archive ModelID D M A)
    (op : Operation ModelID D M A) (fs : Storage D A B) : Prop :=
  Ready fs ∧ (Represents factory fs archive ∨
    ∃ archive', op.apply archive = .ok archive' ∧ Represents factory fs archive')

/-- A call that returns has been applied, one that raises has changed nothing, and one that is
interrupted has been applied entirely or not at all. -/
def Applied (op : Operation ModelID D M A) : Outcome → Archive ModelID D M A →
    Archive ModelID D M A → Prop
  | .returned (.ok ()), archive, archive' => op.apply archive = .ok archive'
  | .returned (.error (.checkpoint e)), archive, archive' =>
    op.apply archive = .error e ∧ archive' = archive
  | .returned (.error _), _, _ => False
  | .crashed, archive, archive' => archive' = archive ∨ op.apply archive = .ok archive'

def Completed (factory : ModelFactory D M A B) (archive : Archive ModelID D M A)
    (op : Operation ModelID D M A) (result : Except Raised Unit) (fs : Storage D A B) : Prop :=
  Ready fs ∧ ∃ archive', Applied op (.returned result) archive archive' ∧
    Represents factory fs archive'

section Calls
variable {tmp now : String} {op : Operation ModelID D M A}

theorem scratch_above (tmp : String) : scratchDir <+: tempRoot tmp := List.prefix_append _ _

theorem Represents.hidden (h : Represents factory fs archive) (hready : Ready fs)
    (op : Operation ModelID D M A) (tmp : String) :
    Hidden (CrashSafe factory archive op) (tempRoot tmp) fs :=
  fun _ hconf => ⟨hready.confined hconf, .inl (h.confined (hconf.mono (scratch_above tmp)))⟩

/-- A call that raises at once. -/
theorem ensures_raised (h : Represents factory fs archive) (hready : Ready fs)
    {e : CheckpointError} (he : op.apply archive = .error e) :
    Script.Ensures Step.apply (CrashSafe factory archive op) (Completed factory archive op)
      (.done (.error (.checkpoint e)) : Call D A B) fs :=
  ⟨⟨hready, .inl h⟩, hready, archive, ⟨he, rfl⟩, h⟩

/-- What is left of a call that has been applied is to clean up. -/
theorem ensures_cleanup {archive' : Archive ModelID D M A} (h : Represents factory fs archive')
    (hready : Ready fs) (happly : op.apply archive = .ok archive') :
    Script.Ensures Step.apply (CrashSafe factory archive op) (Completed factory archive op)
      (rmtree (tempRoot tmp) <| .done (.ok ()) : Call D A B) fs := by
  have hP : Hidden (CrashSafe factory archive op) (tempRoot tmp) fs :=
    fun _ hconf => ⟨hready.confined hconf,
      .inr ⟨archive', happly, h.confined (hconf.mono (scratch_above tmp))⟩⟩
  apply ensures_rmtree hP (.refl _ _) List.prefix_rfl
  intro fs₁ hconf _ _
  have h₁ := h.confined (hconf.mono (scratch_above tmp))
  have hready₁ := hready.confined hconf
  exact ⟨⟨hready₁, .inr ⟨archive', happly, h₁⟩⟩, hready₁, archive', happly, h₁⟩

/-- The temporary directory of a call is empty. -/
theorem ensures_tempRoot {rest : Call D A B} (h : Represents factory fs archive)
    (hready : Ready fs) (hfresh : Fresh fs tmp now)
    (hrest : ∀ fs₁, Confined (tempRoot tmp) fs fs₁ → fs₁.lookup (tempRoot tmp) = some .dir →
      (∀ n, fs₁.lookup (tempRoot tmp ++ [n]) = none) →
      rest.Ensures Step.apply (CrashSafe factory archive op) (Completed factory archive op) fs₁) :
    Script.Ensures Step.apply (CrashSafe factory archive op) (Completed factory archive op)
      (.step (.mkdir (tempRoot tmp)) rest) fs := by
  apply ensures_mkdir (h.hidden hready op tmp) (.refl _ _) List.prefix_rfl (.inr hready.scratch) hfresh.tmp
  intro fs₁ hconf hlookup
  refine hrest fs₁ hconf (by rw [hlookup, if_pos rfl]) fun n => ?_
  rw [hlookup, if_neg (by simp)]
  exact FileTree.lookup_append hfresh.tmp _

/-- A directory that is made in the temporary directory is empty too. -/
theorem ensures_tempDir {rest : Call D A B} {P : Storage D A B → Prop}
    {Q : Except Raised Unit → Storage D A B → Prop} {fs₀ : Storage D A B} {n : String}
    (hP : Hidden P (tempRoot tmp) fs₀) (hconf : Confined (tempRoot tmp) fs₀ fs)
    (hroot : fs.lookup (tempRoot tmp) = some .dir)
    (hnone : ∀ n, fs.lookup (tempRoot tmp ++ [n]) = none)
    (hrest : ∀ fs₁, Confined (tempRoot tmp) fs₀ fs₁ → fs₁.lookup (tempRoot tmp) = some .dir →
      fs₁.lookup (tempRoot tmp ++ [n]) = some .dir →
      (∀ m, m ≠ n → fs₁.lookup (tempRoot tmp ++ [m]) = none) →
      (∀ m, fs₁.lookup (tempRoot tmp ++ [n] ++ [m]) = none) → rest.Ensures Step.apply P Q fs₁) :
    (makeDirectory (tempRoot tmp ++ [n]) rest).Ensures Step.apply P Q fs := by
  apply ensures_makeDirectory hP hconf (List.prefix_append _ _)
    (FileTree.hasParent_concat hroot) (hnone n)
  intro fs₁ hconf₁ hlookup
  refine hrest fs₁ hconf₁ ?_ ?_ ?_ ?_
  · rw [hlookup, if_neg (by simp), hroot]
  · rw [hlookup, if_pos rfl]
  · intro m hm
    rw [hlookup, if_neg (by simpa using hm), hnone]
  · intro m
    rw [hlookup, if_neg (by simp)]
    exact FileTree.lookup_append (hnone n) _

/-- A rename leaves the directories of the manager where they are. -/
theorem Ready.renamed (h : Ready fs) {p q : Path String} (hp : ¬ p <+: scratchDir)
    (hq : ¬ q <+: scratchDir)
    (hrest : ∀ r, ¬ q <+: r → fs'.lookup r = if p <+: r then none else fs.lookup r) :
    Ready fs' := by
  have hnil : ∀ {p : Path String}, ¬ p <+: scratchDir → ¬ p <+: [] := by
    rintro p hp hnil
    exact hp (hnil.trans List.nil_prefix)
  constructor
  · rw [hrest [] (hnil hq), if_neg (hnil hp)]
    exact h.root
  · rw [hrest scratchDir hq, if_neg hp]
    exact h.scratch

theorem tempRoot_not_above (tmp : String) (r : Path String) : ¬ tempRoot tmp ++ r <+: scratchDir :=
  fun h => absurd h.length_le (by simp [tempRoot, scratchDir])

theorem modelDir_not_above (modelID : ModelID) (r : Path String) :
    ¬ modelDir modelID ++ r <+: scratchDir :=
  fun h => modelID.name_ne (List.cons_prefix_cons.mp h).1

/-- An entry that has been made in the scratch directory is published by one rename. -/
theorem ensures_publish {dest : ModelID} {stored : StoredModel D M A}
    (h : Represents factory fs archive) (hready : Ready fs) (hnone : archive dest = none)
    (hentry : EntryAt factory fs (tempRoot tmp ++ [dest.name]) (modelDir dest) stored)
    (happly : op.apply archive = .ok (Function.update archive dest (some stored))) :
    Script.Ensures Step.apply (CrashSafe factory archive op) (Completed factory archive op)
      (.step (.rename (tempRoot tmp ++ [dest.name]) (modelDir dest)) <|
        rmtree (tempRoot tmp) <| .done (.ok ()) : Call D A B) fs := by
  have hdest : fs.lookup (modelDir dest) = none := by
    have hdest := h.entry dest
    rwa [hnone] at hdest
  have hnot : ¬ modelDir dest <+: scratchDir := by
    simpa using modelDir_not_above dest []
  have hbelow : scratchDir <+: tempRoot tmp ++ [dest.name] :=
    (scratch_above tmp).trans (List.prefix_append _ _)
  apply ensures_rename ⟨hready, .inl h⟩ (by simp [hentry.dir_eq]) _ hready.root (.inl hdest)
  · intro fs₁ hmoved hrest
    have hpublished : EntryOf factory fs₁ dest (some stored) := by
      refine hentry.congr hmoved
    refine ensures_cleanup (h.update hpublished ?_) ?_ happly
    · intro r hscratch hdest
      rw [hrest r hdest, if_neg fun htemp => hscratch (hbelow.trans htemp)]
    · exact hready.renamed (tempRoot_not_above tmp _) hnot hrest
  · intro htemp
    exact not_scratch dest [] (by simpa using hbelow.trans htemp)

theorem define_ensures (h : Represents factory fs archive) (hready : Ready fs)
    (hfresh : Fresh fs tmp now) (definition : D) :
    Script.Ensures Step.apply (CrashSafe factory archive (.define modelID definition))
      (Completed factory archive (.define modelID definition))
      (define tmp modelID definition : Call D A B) fs := by
  rw [define, Script.Ensures, h.exists_modelDir]
  cases hentry : archive modelID with
  | some stored =>
    refine ensures_raised h hready ?_
    rw [Operation.apply, Archive.change, hentry]
    rfl
  | none =>
    have hP := h.hidden hready (.define modelID definition) tmp
    have hbelow : ∀ n, tempRoot tmp <+: tempRoot tmp ++ [modelID.name] ++ [n] :=
      fun n => (List.prefix_append _ _).trans (List.prefix_append _ _)
    apply ensures_tempRoot h hready hfresh
    intro fs₁ hconf₁ hroot hnone
    apply ensures_tempDir hP hconf₁ hroot hnone
    intro fs₂ hconf₂ _ hdir _ hempty
    apply ensures_writeFile hP hconf₂ (hbelow _) (FileTree.hasParent_concat hdir) (hempty _)
    intro fs₃ hconf₃ h₃
    have hdir₃ : fs₃.lookup (tempRoot tmp ++ [modelID.name]) = some .dir := by
      rw [h₃, if_neg (by simp), hdir]
    have hempty₃ : ∀ n, n ≠ modelEntryVersionFileName →
        fs₃.lookup (tempRoot tmp ++ [modelID.name] ++ [n]) = none := by
      intro n hn
      rw [h₃, if_neg (by simpa using hn), hempty]
    apply ensures_writeFile hP hconf₃ (hbelow _) (FileTree.hasParent_concat hdir₃)
      (hempty₃ _ (by decide))
    intro fs₄ hconf₄ h₄
    have hentry₄ : EntryAt factory fs₄ (tempRoot tmp ++ [modelID.name]) (modelDir modelID)
        ⟨definition, none⟩ := by
      refine ⟨?_, ?_, ?_⟩
      · rw [h₄, if_neg (by simp), hdir₃]
      · rw [h₄, if_pos rfl]
      · refine (h₄ _).trans ?_
        rw [if_neg (by simp [checkpointLinkName, modelDefinitionFileName])]
        exact hempty₃ _ (by decide)
    refine ensures_publish (h.confined (hconf₄.mono (scratch_above tmp)))
      (hready.confined hconf₄) hentry hentry₄ ?_
    rw [Operation.apply, Archive.change, hentry]
    rfl

theorem remove_ensures (h : Represents factory fs archive) (hready : Ready fs)
    (hfresh : Fresh fs tmp now) :
    Script.Ensures Step.apply (CrashSafe factory archive (.remove modelID))
      (Completed factory archive (.remove modelID)) (remove tmp modelID : Call D A B) fs := by
  apply ensures_tempRoot h hready hfresh
  intro fs₁ hconf₁ hroot hnone
  have h₁ := h.confined (hconf₁.mono (scratch_above tmp))
  have hready₁ := hready.confined hconf₁
  rw [Script.Ensures, h₁.exists_modelDir]
  have hentry₁ := h₁.entry modelID
  cases hentry : archive modelID with
  | none =>
    have happly : (Operation.remove modelID).apply archive = .error .modelNotFound := by
      rw [Operation.apply, Archive.change, hentry]
      rfl
    apply ensures_rmtree (h₁.hidden hready₁ _ tmp) (.refl _ _) List.prefix_rfl
    intro fs₂ hconf₂ _ _
    exact ensures_raised (h₁.confined (hconf₂.mono (scratch_above tmp)))
      (hready₁.confined hconf₂) happly
  | some stored =>
    have happly : (Operation.remove modelID).apply archive =
        .ok (Function.update archive modelID none) := by
      rw [Operation.apply, Archive.change, hentry]
      rfl
    rw [hentry] at hentry₁
    have hdir : fs₁.lookup (modelDir modelID) = some .dir := hentry₁.dir_eq
    have hplace : scratchDir <+: tempRoot tmp ++ ["deleteMe"] :=
      (scratch_above tmp).trans (List.prefix_append _ _)
    apply ensures_rename ⟨hready₁, .inl h₁⟩ (by simp [hdir]) _ (by rwa [List.dropLast_concat])
      (.inl (hnone _))
    · intro fs₂ _ hrest
      refine ensures_cleanup (h₁.update ?_ ?_) ?_ happly
      · refine (hrest _ fun hbelow => ?_).trans (if_pos List.prefix_rfl)
        exact not_scratch modelID [] (by simpa using hplace.trans hbelow)
      · intro r hscratch hr
        rw [hrest r fun hbelow => hscratch (hplace.trans hbelow), if_neg hr]
      · exact hready₁.renamed (by simpa using modelDir_not_above modelID [])
          (tempRoot_not_above tmp _) hrest
    · intro hbelow
      have hname := (List.cons_prefix_cons.mp hbelow).1
      exact modelID.name_ne hname

/-! ### The current checkpoint -/

/-- A link to a store is followed to it. -/
theorem StoreAt.realpath {link store : Path String} {model : M} {attributes : A}
    (h : StoreAt factory fs store model attributes) (hlink : fs.lookup link = some (.link store)) :
    fs.realpath link = store ∧ fs.exists? link = true ∧ fs.exists? store = true := by
  have hstore : fs.realpath store = store := FileTree.realpath_self (by simp [h.dir_eq])
  have hpath : fs.realpath link = store := FileTree.realpath_link hlink (by simp [h.dir_eq])
  refine ⟨hpath, ?_, ?_⟩
  · simp [FileTree.exists?, hpath, h.dir_eq]
  · simp [FileTree.exists?, hstore, h.dir_eq]

theorem exists_link_none {link : Path String} (h : fs.lookup link = none) :
    fs.realpath link = link ∧ fs.exists? link = false := by
  have hpath : fs.realpath link = link := FileTree.realpath_self (by simp [h])
  exact ⟨hpath, by simp [FileTree.exists?, hpath, h]⟩

theorem store_ne_link (modelID : ModelID) (now : String) :
    modelDir modelID ++ [checkpointStoreName now] ≠ checkpointLink modelID := by
  simpa [checkpointLink] using (checkpointStoreName_ne now).2

/-- A model that has no checkpoint, or no entry, is not found. -/
theorem Represents.currentCheckpoint_none (h : Represents factory fs archive)
    (hnone : ∀ stored ∈ archive modelID, stored.checkpoint = none) :
    getCurrentCheckpointRealPath fs modelID = .error (.checkpoint .modelNotFound) := by
  have hentry := h.entry modelID
  rw [getCurrentCheckpointRealPath, h.exists_modelDir]
  cases harchive : archive modelID with
  | none => rfl
  | some stored =>
    rw [harchive] at hentry
    have hcheckpoint := hentry.checkpoint
    rw [hnone stored harchive] at hcheckpoint
    obtain ⟨hpath, hexists⟩ := exists_link_none hcheckpoint
    change (if true then (if fs.exists? (fs.realpath (modelDir modelID ++ [checkpointLinkName]))
      then _ else _) else _) = _
    rw [hpath, if_pos rfl, hexists]
    rfl

/-- A checkpoint is in a complete store. -/
theorem Represents.currentCheckpoint_some (h : Represents factory fs archive)
    {stored : StoredModel D M A} {model : M} {attributes : A} (hentry : archive modelID = some stored)
    (hcheckpoint : stored.checkpoint = some (model, attributes)) : ∃ now,
    fs.lookup (checkpointLink modelID) =
        some (.link (modelDir modelID ++ [checkpointStoreName now])) ∧
      StoreAt factory fs (modelDir modelID ++ [checkpointStoreName now]) model attributes ∧
      getCurrentCheckpointRealPath fs modelID =
        .ok (modelDir modelID ++ [checkpointStoreName now]) := by
  have hstored := h.entry modelID
  rw [hentry] at hstored
  have hat := hstored.checkpoint
  rw [hcheckpoint] at hat
  obtain ⟨now, hlink, hstore⟩ := hat
  obtain ⟨hpath, -, hexists⟩ := hstore.realpath hlink
  have hdir : fs.exists? (modelDir modelID) = true := by
    rw [h.exists_modelDir, hentry]
    rfl
  refine ⟨now, hlink, hstore, ?_⟩
  have hpath : fs.realpath (checkpointLink modelID) =
      modelDir modelID ++ [checkpointStoreName now] := hpath
  rw [getCurrentCheckpointRealPath, if_pos hdir, hpath]
  dsimp only
  rw [if_pos hexists, if_neg (store_ne_link modelID now)]

/-- New attributes replace those of the current store. -/
theorem EntryAt.replaceAttributes {stored : StoredModel D M A} {model : M} {attributes : A}
    {dir home : Path String} (h : EntryAt factory fs dir home stored)
    (hlink : fs.lookup (dir ++ [checkpointLinkName]) =
      some (.link (home ++ [checkpointStoreName now])))
    (hstore : StoreAt factory fs (dir ++ [checkpointStoreName now]) model attributes)
    {attributes' : A} (hnew : fs'.lookup (dir ++ [checkpointStoreName now] ++
      [checkpointAttributesFileName]) = some (.file (some (.attributes attributes'))))
    (hrest : ∀ r, ¬ [checkpointStoreName now, checkpointAttributesFileName] <+: r →
      fs'.lookup (dir ++ r) = fs.lookup (dir ++ r)) :
    EntryAt factory fs' dir home { stored with checkpoint := some (model, attributes') } := by
  refine ⟨?_, ?_, now, ?_, ?_, hnew, ?_⟩
  · simpa using (hrest [] (by simp)).trans (by simpa using h.dir_eq)
  · exact (hrest _ (by simp)).trans h.definition_eq
  · exact (hrest _ (by simp)).trans hlink
  · exact (hrest _ (by simp)).trans hstore.dir_eq
  · have hfiles : filesOf fs' (dir ++ [checkpointStoreName now] ++ [checkpointInstanceDirName]) =
        filesOf fs (dir ++ [checkpointStoreName now] ++ [checkpointInstanceDirName]) := by
      funext r
      rw [filesOf, filesOf, List.append_assoc, List.append_assoc]
      refine hrest _ ?_
      simp [checkpointAttributesFileName, checkpointInstanceDirName]
    rw [hfiles]
    exact hstore.saves

theorem updateCheckpointAttributes_ensures (h : Represents factory fs archive) (hready : Ready fs)
    (hfresh : Fresh fs tmp now) (attributes : A) :
    Script.Ensures Step.apply
      (CrashSafe factory archive (.updateCheckpointAttributes modelID attributes))
      (Completed factory archive (.updateCheckpointAttributes modelID attributes))
      (updateCheckpointAttributes tmp modelID attributes : Call D A B) fs := by
  rw [updateCheckpointAttributes, Script.Ensures]
  by_cases hnone : ∀ stored ∈ archive modelID, stored.checkpoint = none
  · rw [h.currentCheckpoint_none hnone]
    refine ensures_raised h hready ?_
    rw [Operation.apply, Archive.change]
    cases hentry : archive modelID with
    | none => rfl
    | some stored =>
      obtain ⟨definition, checkpoint⟩ := stored
      obtain rfl : checkpoint = none := hnone _ hentry
      rfl
  · push Not at hnone
    obtain ⟨⟨definition, checkpoint⟩, hentry, hcheckpoint⟩ := hnone
    obtain ⟨⟨model, old⟩, rfl⟩ := Option.ne_none_iff_exists'.mp hcheckpoint
    obtain ⟨last, hlink, hstore, hpath⟩ := h.currentCheckpoint_some hentry rfl
    rw [hpath]
    apply ensures_writeFile (h.hidden hready _ tmp) (.refl _ _) List.prefix_rfl (.inr hready.scratch)
      hfresh.tmp
    intro fs₁ hconf₁ h₁
    have hscratch₁ := hconf₁.mono (scratch_above tmp)
    have hrep₁ := h.confined hscratch₁
    have hstore₁ : StoreAt factory fs₁ (modelDir modelID ++ [checkpointStoreName last]) model old :=
      hstore.congr fun r => by
        rw [List.append_assoc]
        exact hscratch₁ _ (not_scratch _ _)
    have hlink₁ := (hscratch₁ _ (not_scratch modelID [checkpointLinkName])).trans hlink
    have hnew : fs₁.lookup (tempRoot tmp) = some (.file (some (.attributes attributes))) := by
      rw [h₁, if_pos rfl]
    apply ensures_rename ⟨hready.confined hconf₁, .inl hrep₁⟩ (by simp [hnew])
    · intro hbelow
      exact not_scratch modelID _ ((scratch_above tmp).trans (by simpa using hbelow))
    · rw [List.dropLast_concat]
      exact hstore₁.dir_eq
    · rw [hstore₁.attributes_eq, hnew]
      exact .inr ⟨by simp, by simp⟩
    intro fs₂ hmoved hrest
    have hentry₁ : EntryAt factory fs₁ (modelDir modelID) (modelDir modelID)
        ⟨definition, some (model, old)⟩ := by
      have hentry₁ := hrep₁.entry modelID
      rwa [hentry] at hentry₁
    have hentry₂ : EntryOf factory fs₂ modelID (some ⟨definition, some (model, attributes)⟩) := by
      refine hentry₁.replaceAttributes hlink₁ hstore₁ ?_ ?_
      · have hmoved := hmoved []
        rw [List.append_nil, List.append_nil] at hmoved
        exact hmoved.trans hnew
      · intro r hr
        rw [hrest _ (by simpa [modelDir] using hr), if_neg]
        intro hbelow
        exact not_scratch modelID r ((scratch_above tmp).trans hbelow)
    have hrep₂ := hrep₁.update hentry₂ fun r hscratch hr => by
      rw [hrest r fun hbelow => hr (((List.prefix_append _ _).trans (List.prefix_append _ _)).trans
        hbelow), if_neg fun hbelow => hscratch ((scratch_above tmp).trans hbelow)]
    have happly : (Operation.updateCheckpointAttributes modelID attributes).apply archive =
        .ok (Function.update archive modelID (some ⟨definition, some (model, attributes)⟩)) := by
      rw [Operation.apply, Archive.change, hentry]
      rfl
    have hready₂ : Ready fs₂ := by
      refine (hready.confined hconf₁).renamed (by simpa using tempRoot_not_above tmp []) ?_ hrest
      rw [List.append_assoc]
      exact modelDir_not_above modelID _
    exact ⟨⟨hready₂, .inr ⟨_, happly, hrep₂⟩⟩, hready₂, _, happly, hrep₂⟩

theorem clone_ensures (h : Represents factory fs archive) (hready : Ready fs)
    (hfresh : Fresh fs tmp now) (destModelID : ModelID) :
    Script.Ensures Step.apply (CrashSafe factory archive (.clone modelID destModelID))
      (Completed factory archive (.clone modelID destModelID))
      (clone tmp modelID destModelID : Call D A B) fs := by
  rw [clone, Script.Ensures, h.exists_modelDir, h.exists_modelDir]
  cases hsource : archive modelID with
  | none =>
    refine ensures_raised h hready ?_
    rw [Operation.apply, hsource]
  | some stored =>
    cases hdest : archive destModelID with
    | some other =>
      refine ensures_raised h hready ?_
      rw [Operation.apply, hsource, hdest]
    | none =>
      have happly : (Operation.clone modelID destModelID).apply archive =
          .ok (Function.update archive destModelID (some stored)) := by
        rw [Operation.apply, hsource, hdest]
      have hP := h.hidden hready (.clone modelID destModelID) tmp
      apply ensures_tempRoot h hready hfresh
      intro fs₁ hconf₁ hroot hnone
      apply ensures_copytree hP hconf₁ (List.prefix_append _ _)
      intro fs₂ hconf₂ _ hcopy
      have h₁ := h.confined (hconf₁.mono (scratch_above tmp))
      have h₂ := h.confined (hconf₂.mono (scratch_above tmp))
      have hentry₁ : EntryAt factory fs₁ (modelDir modelID) (modelDir modelID) stored := by
        have hentry₁ := h₁.entry modelID
        rwa [hsource] at hentry₁
      have hentry₂ := hentry₁.congr hcopy
      have hcheckpoint := hentry₂.checkpoint
      rw [Script.Ensures]
      cases hstored : stored.checkpoint with
      | none =>
        -- There is no link to fix.
        rw [hstored] at hcheckpoint
        rw [(exists_link_none hcheckpoint).2]
        refine ensures_publish h₂ (hready.confined hconf₂) hdest ⟨hentry₂.dir_eq,
          hentry₂.definition_eq, ?_⟩ happly
        rw [hstored]
        exact hcheckpoint
      | some checkpoint =>
        obtain ⟨model, attributes⟩ := checkpoint
        rw [hstored] at hcheckpoint
        obtain ⟨last, hlink, hstore⟩ := hcheckpoint
        obtain ⟨current, hcurrent, hsourceStore, -⟩ := h₂.currentCheckpoint_some hsource hstored
        have hsame : checkpointStoreName current = checkpointStoreName last := by
          have hlink₁ := (hcopy [checkpointLinkName]).symm.trans hlink
          have hlink₂ := (hconf₂ (checkpointLink modelID) fun hbelow =>
            not_scratch modelID _ ((scratch_above tmp).trans hbelow)).symm.trans hcurrent
          have hlink₀ := (hconf₁ (checkpointLink modelID) fun hbelow =>
            not_scratch modelID _ ((scratch_above tmp).trans hbelow)).trans hlink₂
          have heq := hlink₀.symm.trans hlink₁
          simpa using heq
        rw [hsame] at hsourceStore
        obtain ⟨hpath, hexists, -⟩ := hsourceStore.realpath hlink
        rw [hexists, hpath, if_pos rfl]
        dsimp only
        rw [List.getLast?_concat]
        have hbelow : tempRoot tmp <+: tempRoot tmp ++ [destModelID.name] ++ [checkpointLinkName] :=
          (List.prefix_append _ _).trans (List.prefix_append _ _)
        apply ensures_unlink hP hconf₂ hbelow (by rw [hlink]; rfl) (by rw [hlink]; simp)
        intro fs₃ hconf₃ h₃
        have hdir₃ : fs₃.lookup (tempRoot tmp ++ [destModelID.name]) = some .dir := by
          rw [h₃, if_neg (by simp), hentry₂.dir_eq]
        apply ensures_symlink hP hconf₃ hbelow (FileTree.hasParent_concat hdir₃)
          (by rw [h₃, if_pos rfl])
        intro fs₄ hconf₄ h₄
        have hrest : ∀ r, r ≠ tempRoot tmp ++ [destModelID.name] ++ [checkpointLinkName] →
            fs₄.lookup r = fs₂.lookup r := by
          intro r hr
          rw [h₄, if_neg hr, h₃, if_neg hr]
        refine ensures_publish (h.confined (hconf₄.mono (scratch_above tmp)))
          (hready.confined hconf₄) hdest ⟨?_, ?_, ?_⟩ happly
        · rw [hrest _ (by simp), hentry₂.dir_eq]
        · refine (hrest _ ?_).trans hentry₂.definition_eq
          simp [checkpointLinkName, modelDefinitionFileName]
        · rw [hstored]
          refine ⟨last, by rw [h₄, if_pos rfl]; rfl, hstore.congr fun r => hrest _ ?_⟩
          simpa using fun h _ => (checkpointStoreName_ne last).2 h

/-- A store that is not the current one may be changed, added and deleted. -/
theorem Represents.frame (h : Represents factory fs archive) {stored : StoredModel D M A}
    (hentry : archive modelID = some stored)
    (hcurrent : fs.lookup (checkpointLink modelID) ≠
      some (.link (modelDir modelID ++ [checkpointStoreName now])))
    (hrest : ∀ r, ¬ scratchDir <+: r → ¬ modelDir modelID ++ [checkpointStoreName now] <+: r →
      fs'.lookup r = fs.lookup r) : Represents factory fs' archive := by
  have hstored := h.entry modelID
  rw [hentry] at hstored
  obtain ⟨hdefinition, hlink⟩ := checkpointStoreName_ne now
  have hentry' : EntryOf factory fs' modelID (some stored) := by
    refine EntryAt.frame hstored hdefinition hlink hcurrent fun r hr => ?_
    refine hrest _ (not_scratch modelID r) fun hbelow => hr ?_
    exact (List.cons_prefix_cons.mp hbelow).2
  have hupdate := h.update hentry' fun r hscratch hr => hrest r hscratch fun hbelow =>
    hr ((List.prefix_append _ _).trans hbelow)
  rwa [← hentry, Function.update_eq_self] at hupdate

/-- The last steps of a save: the link is renamed, and then the old store deleted. -/
theorem ensures_switch {stored : StoredModel D M A} {model : M} {attributes : A}
    (h : Represents factory fs archive) (hready : Ready fs) (hentry : archive modelID = some stored)
    (hstore : StoreAt factory fs (modelDir modelID ++ [checkpointStoreName now]) model attributes)
    (hcurrent : fs.lookup (checkpointLink modelID) ≠
      some (.link (modelDir modelID ++ [checkpointStoreName now])))
    (hroot : fs.lookup (tempRoot tmp) = some .dir)
    (hnone : fs.lookup (tempRoot tmp ++ [checkpointLinkName]) = none)
    (happly : op.apply archive = .ok (Function.update archive modelID
      (some { stored with checkpoint := some (model, attributes) })))
    {old : Option (Path String)}
    (hold : ∀ store ∈ old, fs.lookup (checkpointLink modelID) = some (.link store) ∧
      ∃ last, store = modelDir modelID ++ [checkpointStoreName last]) :
    Script.Ensures Step.apply (CrashSafe factory archive op) (Completed factory archive op)
      (.step (.symlink (modelDir modelID ++ [checkpointStoreName now])
          (tempRoot tmp ++ [checkpointLinkName])) <|
        .step (.rename (tempRoot tmp ++ [checkpointLinkName]) (checkpointLink modelID)) <|
        rmtreeOld old <| rmtree (tempRoot tmp) <| .done (.ok ()) : Call D A B) fs := by
  apply ensures_symlink (h.hidden hready op tmp) (.refl _ _) (List.prefix_append _ _)
    (FileTree.hasParent_concat hroot) hnone
  intro fs₁ hconf₁ h₁
  have hscratch₁ := hconf₁.mono (scratch_above tmp)
  have hrep₁ := h.confined hscratch₁
  have htemp : scratchDir <+: tempRoot tmp ++ [checkpointLinkName] :=
    (scratch_above tmp).trans (List.prefix_append _ _)
  have hnot : ∀ r, ¬ tempRoot tmp ++ [checkpointLinkName] <+: modelDir modelID ++ r :=
    fun r hbelow => not_scratch modelID r (htemp.trans hbelow)
  have hsame₁ : ∀ r, fs₁.lookup (modelDir modelID ++ r) = fs.lookup (modelDir modelID ++ r) :=
    fun r => hscratch₁ _ (not_scratch modelID r)
  have hentry₁ : EntryAt factory fs₁ (modelDir modelID) (modelDir modelID) stored := by
    have hentry₁ := hrep₁.entry modelID
    rwa [hentry] at hentry₁
  have hlink₁ : fs₁.lookup (tempRoot tmp ++ [checkpointLinkName]) =
      some (.link (modelDir modelID ++ [checkpointStoreName now])) := by
    rw [h₁, if_pos rfl]
  have hplace : fs₁.lookup (checkpointLink modelID) ≠ some .dir := by
    have hcheckpoint := hentry₁.checkpoint
    cases hstored : stored.checkpoint with
    | none =>
      rw [hstored] at hcheckpoint
      rw [checkpointLink, show fs₁.lookup _ = none from hcheckpoint]
      simp
    | some checkpoint =>
      rw [hstored] at hcheckpoint
      obtain ⟨last, hlast, -⟩ := hcheckpoint
      rw [checkpointLink, hlast]
      simp
  apply ensures_rename ⟨hready.confined hconf₁, .inl hrep₁⟩ (by rw [hlink₁]; rfl) (hnot _)
  · rw [List.dropLast_concat]
    exact hentry₁.dir_eq
  · exact .inr ⟨by rw [hlink₁]; simp, hplace⟩
  intro fs₂ hmoved hrest
  have hlink₂ : fs₂.lookup (checkpointLink modelID) =
      some (.link (modelDir modelID ++ [checkpointStoreName now])) := by
    have hmoved := hmoved []
    rw [List.append_nil, List.append_nil] at hmoved
    exact hmoved.trans hlink₁
  have hsame₂ : ∀ r, ¬ [checkpointLinkName] <+: r →
      fs₂.lookup (modelDir modelID ++ r) = fs.lookup (modelDir modelID ++ r) := by
    intro r hr
    rw [hrest _ (by simpa [checkpointLink, modelDir] using hr), if_neg (hnot r), hsame₁]
  have hentry₂ : EntryOf factory fs₂ modelID
      (some { stored with checkpoint := some (model, attributes) }) := by
    have hstored : EntryAt factory fs (modelDir modelID) (modelDir modelID) stored := by
      have hstored := h.entry modelID
      rwa [hentry] at hstored
    refine ⟨?_, ?_, now, hlink₂, hstore.congr fun r => ?_⟩
    · simpa using (hsame₂ [] (by simp)).trans (by simpa using hstored.dir_eq)
    · exact (hsame₂ _ (by simp [checkpointLinkName, modelDefinitionFileName])).trans
        hstored.definition_eq
    · rw [List.append_assoc]
      refine hsame₂ _ ?_
      simpa using fun heq => (checkpointStoreName_ne now).2 heq.symm
  have hrep₂ := hrep₁.update hentry₂ fun r hscratch hr => by
    rw [hrest r fun hbelow => hr ((List.prefix_append _ _).trans hbelow),
      if_neg fun hbelow => hscratch (htemp.trans hbelow)]
  have hready₂ : Ready fs₂ := (hready.confined hconf₁).renamed (tempRoot_not_above tmp _)
    (modelDir_not_above modelID _) hrest
  cases old with
  | none => exact ensures_cleanup hrep₂ hready₂ happly
  | some store =>
    obtain ⟨hstoreLink, last, rfl⟩ := hold store rfl
    have hne : fs₂.lookup (checkpointLink modelID) ≠
        some (.link (modelDir modelID ++ [checkpointStoreName last])) := by
      rw [hlink₂]
      rw [hstoreLink] at hcurrent
      exact hcurrent.symm
    have hframe : ∀ fs₃, Confined (modelDir modelID ++ [checkpointStoreName last]) fs₂ fs₃ →
        Represents factory fs₃ _ := fun fs₃ hconf₃ =>
      hrep₂.frame (Function.update_self ..) hne fun r _ hr => hconf₃ r hr
    have hready₃ : ∀ fs₃, Confined (modelDir modelID ++ [checkpointStoreName last]) fs₂ fs₃ →
        Ready fs₃ := fun fs₃ hconf₃ =>
      ⟨(hconf₃ [] (by simp)).trans hready₂.root,
        (hconf₃ _ (modelDir_not_above modelID _)).trans hready₂.scratch⟩
    apply ensures_rmtree (fun fs₃ hconf₃ => ⟨hready₃ fs₃ hconf₃, .inr ⟨_, happly,
      hframe fs₃ hconf₃⟩⟩) (.refl _ _) List.prefix_rfl
    intro fs₃ hconf₃ _ _
    exact ensures_cleanup (hframe fs₃ hconf₃) (hready₃ fs₃ hconf₃) happly

theorem save_ensures (h : Represents factory fs archive) (hready : Ready fs)
    (hfresh : Fresh fs tmp now) (model : M) (attributes : A) :
    Script.Ensures Step.apply (CrashSafe factory archive (.save modelID model attributes))
      (Completed factory archive (.save modelID model attributes))
      (save tmp modelID factory now model attributes : Call D A B) fs := by
  rw [save, Script.Ensures, h.exists_modelDir]
  cases hentry : archive modelID with
  | none =>
    refine ensures_raised h hready ?_
    rw [Operation.apply, Archive.change, hentry]
    rfl
  | some stored =>
    have happly : (Operation.save modelID model attributes).apply archive =
        .ok (Function.update archive modelID
          (some { stored with checkpoint := some (model, attributes) })) := by
      rw [Operation.apply, Archive.change, hentry]
      rfl
    have hP := h.hidden hready (.save modelID model attributes) tmp
    have hbelow : ∀ n,
        tempRoot tmp <+: tempRoot tmp ++ [checkpointStoreDirNameBase] ++ [n] :=
      fun n => (List.prefix_append _ _).trans (List.prefix_append _ _)
    rw [Option.isSome_some, if_pos rfl]
    apply ensures_tempRoot h hready hfresh
    intro fs₁ hconf₁ hroot hnone
    apply ensures_tempDir hP hconf₁ hroot hnone
    intro fs₂ hconf₂ hroot₂ hdir₂ hnone₂ hempty₂
    apply ensures_writeFile hP hconf₂ (hbelow _) (FileTree.hasParent_concat hdir₂) (hempty₂ _)
    intro fs₃ hconf₃ h₃
    apply ensures_job hP hconf₃ (hbelow _) fun _ hstep => hstep
    intro fs₄ hconf₄ hwithin hsaves
    -- The store is complete now, and is put into the entry under its new name.
    have hsame₄ : ∀ r, ¬ tempRoot tmp ++ [checkpointStoreDirNameBase] ++
        [checkpointInstanceDirName] <+: r → r ≠ tempRoot tmp ++ [checkpointStoreDirNameBase] ++
        [checkpointAttributesFileName] → fs₄.lookup r = fs₂.lookup r := by
      intro r hr hne
      rw [hwithin r hr, h₃, if_neg hne]
    have hstore₄ : StoreAt factory fs₄ (tempRoot tmp ++ [checkpointStoreDirNameBase]) model
        attributes := by
      refine ⟨?_, ?_, hsaves⟩
      · rw [hsame₄ _ (by simp) (by simp), hdir₂]
      · rw [hwithin _ (by simp [checkpointInstanceDirName, checkpointAttributesFileName]), h₃,
          if_pos rfl]
    have hscratch₄ := hconf₄.mono (scratch_above tmp)
    have hrep₄ := h.confined hscratch₄
    have hnew₄ : fs₄.lookup (modelDir modelID ++ [checkpointStoreName now]) = none :=
      (hscratch₄ _ (not_scratch modelID _)).trans (hfresh.now modelID)
    have hdir₄ : fs₄.lookup (modelDir modelID) = some .dir := by
      have hdir₄ := hrep₄.entry modelID
      rw [hentry] at hdir₄
      exact hdir₄.dir_eq
    have hcurrent₄ : fs₄.lookup (checkpointLink modelID) ≠
        some (.link (modelDir modelID ++ [checkpointStoreName now])) := by
      intro hlink
      cases hstored : stored.checkpoint with
      | none =>
        have hcheckpoint := hrep₄.entry modelID
        rw [hentry] at hcheckpoint
        have hnolink := hcheckpoint.checkpoint
        rw [hstored] at hnolink
        rw [checkpointLink, show fs₄.lookup _ = none from hnolink] at hlink
        cases hlink
      | some checkpoint =>
        obtain ⟨last, hlast, hstore, -⟩ := hrep₄.currentCheckpoint_some hentry hstored
        rw [hlast] at hlink
        rw [Node.link.inj (Option.some.inj hlink)] at hstore
        rw [hstore.dir_eq] at hnew₄
        cases hnew₄
    have htemp : scratchDir <+: tempRoot tmp ++ [checkpointStoreDirNameBase] :=
      (scratch_above tmp).trans (List.prefix_append _ _)
    have hnot : ∀ r, ¬ tempRoot tmp ++ [checkpointStoreDirNameBase] <+: modelDir modelID ++ r :=
      fun r hbelow => not_scratch modelID r (htemp.trans hbelow)
    rw [Script.Ensures, (exists_link_none hnew₄).2, if_neg (by simp)]
    apply ensures_rename ⟨hready.confined hconf₄, .inl hrep₄⟩ (by rw [hstore₄.dir_eq]; rfl)
      (hnot _) (by rw [List.dropLast_concat, hdir₄]) (.inl hnew₄)
    intro fs₅ hmoved hrest
    have hrep₅ : Represents factory fs₅ archive := by
      refine hrep₄.frame hentry hcurrent₄ fun r hscratch hr => ?_
      rw [hrest r hr, if_neg fun hbelow => hscratch (htemp.trans hbelow)]
    have hready₅ : Ready fs₅ := (hready.confined hconf₄).renamed (tempRoot_not_above tmp _)
      (modelDir_not_above modelID _) hrest
    have hlink₅ : fs₅.lookup (checkpointLink modelID) = fs₄.lookup (checkpointLink modelID) := by
      refine (hrest _ ?_).trans (if_neg (hnot [checkpointLinkName]))
      simpa [checkpointLink, modelDir] using (checkpointStoreName_ne now).2
    have hcurrent₅ : fs₅.lookup (checkpointLink modelID) ≠
        some (.link (modelDir modelID ++ [checkpointStoreName now])) := by
      rw [hlink₅]
      exact hcurrent₄
    have htempRoot : ∀ r, ¬ modelDir modelID ++ [checkpointStoreName now] <+: tempRoot tmp ++ r :=
      fun r hbelow => modelID.name_ne (List.cons_prefix_cons.mp hbelow).1
    have hroot₅ : fs₅.lookup (tempRoot tmp) = some .dir := by
      have hlonger : ∀ n r, ¬ tempRoot tmp ++ n :: r <+: tempRoot tmp := by
        intro n r hbelow
        exact absurd hbelow.length_le (by simp)
      rw [hrest _ (by simpa using htempRoot []), if_neg (hlonger _ _),
        hsame₄ (tempRoot tmp) (by simpa using hlonger _ _) (by simp), hroot₂]
    have hnone₅ : fs₅.lookup (tempRoot tmp ++ [checkpointLinkName]) = none := by
      have hne : checkpointLinkName ≠ checkpointStoreDirNameBase := by decide
      rw [hrest _ (htempRoot _), if_neg (by simpa using hne.symm),
        hsame₄ (tempRoot tmp ++ [checkpointLinkName]) (by simp) (by simp), hnone₂ _ hne]
    have hold : ∃ old, (if fs₅.exists? (checkpointLink modelID)
          then some (fs₅.realpath (checkpointLink modelID)) else none) = old ∧
        old ≠ some (checkpointLink modelID) ∧
        ∀ store ∈ old, fs₅.lookup (checkpointLink modelID) = some (.link store) ∧
          ∃ last, store = modelDir modelID ++ [checkpointStoreName last] := by
      cases hstored : stored.checkpoint with
      | none =>
        have hcheckpoint := hrep₅.entry modelID
        rw [hentry] at hcheckpoint
        have hnolink := hcheckpoint.checkpoint
        rw [hstored] at hnolink
        have hnolink : fs₅.lookup (checkpointLink modelID) = none := hnolink
        refine ⟨none, ?_, by simp, fun _ h => absurd h (Option.not_mem_none _)⟩
        rw [(exists_link_none hnolink).2]
        rfl
      | some checkpoint =>
        obtain ⟨last, hlast, hstore, -⟩ := hrep₅.currentCheckpoint_some hentry hstored
        obtain ⟨hpath, hexists, -⟩ := hstore.realpath hlast
        refine ⟨some (modelDir modelID ++ [checkpointStoreName last]), ?_, ?_, ?_⟩
        · rw [hexists, hpath, if_pos rfl]
        · intro heq
          exact store_ne_link modelID last (Option.some.inj heq)
        · intro store hmem
          obtain rfl := Option.some.inj hmem
          exact ⟨hlast, last, rfl⟩
    obtain ⟨old, heq, hne, hold⟩ := hold
    rw [Script.Ensures]
    dsimp only
    rw [heq, if_neg hne]
    exact ensures_switch hrep₅ hready₅ hentry (hstore₄.congr hmoved) hcurrent₅ hroot₅ hnone₅ happly
      hold

/-- Every call is safe to be cut short, and no system call of it fails. -/
theorem call_ensures (h : Represents factory fs archive) (hready : Ready fs)
    (hfresh : Fresh fs tmp now) (op : Operation ModelID D M A) :
    (op.call factory tmp now).Ensures Step.apply (CrashSafe factory archive op)
      (Completed factory archive op) fs := by
  cases op with
  | define modelID definition => exact define_ensures h hready hfresh definition
  | save modelID model attributes => exact save_ensures h hready hfresh model attributes
  | updateCheckpointAttributes modelID attributes =>
    exact updateCheckpointAttributes_ensures h hready hfresh attributes
  | clone modelID destModelID => exact clone_ensures h hready hfresh destModelID
  | remove modelID => exact remove_ensures h hready hfresh

end Calls

/-! ## Runs -/

/-- The directories of a manager are there or are not there yet. -/
structure Rooted (fs : Storage D A B) : Prop where
  root : fs.lookup [] = none ∨ fs.lookup [] = some .dir
  scratch : fs.lookup scratchDir = none ∨ fs.lookup scratchDir = some .dir

theorem Ready.rooted (h : Ready fs) : Rooted fs := ⟨.inr h.root, .inr h.scratch⟩

/-- A directory of the manager is made. -/
theorem Represents.mkdir (h : Represents factory fs archive) (hrooted : Rooted fs) {p : Path String}
    (hp : p = [] ∨ p = scratchDir)
    (hlookup : ∀ r, fs'.lookup r = if r = p then some .dir else fs.lookup r) :
    Rooted fs' ∧ Represents factory fs' archive := by
  have hother : ∀ n r, n ≠ ".scratch" → fs'.lookup (n :: r) = fs.lookup (n :: r) := by
    intro n r hn
    rw [hlookup, if_neg]
    rintro rfl
    rcases hp with hp | hp
    · cases hp
    · exact hn (List.cons.inj hp).1
  have hkeep : ∀ r, fs.lookup r = none ∨ fs.lookup r = some .dir →
      fs'.lookup r = none ∨ fs'.lookup r = some .dir := by
    intro r hr
    rw [hlookup]
    split
    · exact .inr rfl
    · exact hr
  refine ⟨⟨hkeep _ hrooted.root, hkeep _ hrooted.scratch⟩, ?_, ?_⟩
  · intro id
    exact (h.entry id).congr fun r => hother _ _ id.name_ne
  · intro n hn
    by_cases hscratch : n = ".scratch"
    · exact .inl hscratch
    · rw [hother n [] hscratch] at hn
      exact h.names n hn

/-- A directory of the manager is there after it has been asked for. -/
theorem ensures_managerDir {rest : FileScript String (Content D A B) Unit} {p : Path String}
    (h : Represents factory fs archive) (hrooted : Rooted fs) (hp : p = [] ∨ p = scratchDir)
    (hparent : fs.HasParent p)
    (hrest : ∀ fs', Rooted fs' → Represents factory fs' archive → fs'.lookup p = some .dir →
      (∀ q, fs.lookup q = some .dir → fs'.lookup q = some .dir) →
      rest.Ensures Step.apply (fun fs => Rooted fs ∧ Represents factory fs archive)
        (fun _ fs => Ready fs) fs') :
    (makeDirectory p rest).Ensures Step.apply
      (fun fs => Rooted fs ∧ Represents factory fs archive) (fun _ fs => Ready fs) fs := by
  have hcases : fs.lookup p = none ∨ fs.lookup p = some .dir := by
    rcases hp with rfl | rfl
    · exact hrooted.root
    · exact hrooted.scratch
  rw [makeDirectory, Script.Ensures]
  rcases hcases with hnone | hdir
  · rw [(exists_link_none hnone).2, if_neg (by simp)]
    apply ensures_mkdir_seen ⟨hrooted, h⟩ hparent hnone
    intro fs' hlookup
    obtain ⟨hrooted', h'⟩ := h.mkdir hrooted hp hlookup
    refine hrest fs' hrooted' h' (by rw [hlookup, if_pos rfl]) fun q hq => ?_
    rw [hlookup]
    split
    · rfl
    · exact hq
  · have hexists : fs.exists? p = true := by
      rw [FileTree.exists?, FileTree.realpath_self (by simp [hdir]), hdir]
      rfl
    rw [hexists, if_pos rfl]
    exact hrest fs hrooted h hdir fun _ hq => hq

/-- A new manager makes what is missing. -/
theorem init_ensures (h : Represents factory fs archive) (hrooted : Rooted fs) :
    (init : FileScript String (Content D A B) Unit).Ensures Step.apply
      (fun fs => Rooted fs ∧ Represents factory fs archive) (fun _ fs => Ready fs) fs := by
  apply ensures_managerDir h hrooted (.inl rfl) (.inl rfl)
  intro fs₁ hrooted₁ h₁ hroot₁ _
  apply ensures_managerDir h₁ hrooted₁ (.inr rfl) (.inr hroot₁)
  intro fs₂ hrooted₂ h₂ hscratch₂ hdirs
  exact ⟨⟨hrooted₂, h₂⟩, hdirs _ hroot₁, hscratch₂⟩

/-- The archives that a history may have led to. -/
inductive Explains : List (Operation ModelID D M A × Outcome) → Archive ModelID D M A → Prop where
  | nil : Explains [] fun _ => none
  | snoc {history op outcome archive archive'} (h : Explains history archive)
      (happlied : Applied op outcome archive archive') :
      Explains (history ++ [(op, outcome)]) archive'

theorem represents_empty :
    Represents factory (.empty : Storage D A B) (fun _ => none : Archive ModelID D M A) where
  entry _ := rfl
  names _ h := nomatch h

/-- What a run keeps. -/
theorem Run.represents {history : List (Operation ModelID D M A × Outcome)} {up : Bool}
    (h : Run factory history fs up) : ∃ archive, Explains history archive ∧
      Represents factory fs archive ∧ Rooted fs ∧ (up = true → Ready fs) := by
  induction h with
  | empty => exact ⟨_, .nil, represents_empty, ⟨.inl rfl, .inl rfl⟩, fun h => nomatch h⟩
  | start _ hinit ih =>
    obtain ⟨archive, hexplains, hrep, hrooted, -⟩ := ih
    obtain ⟨⟨hrooted', hrep'⟩, hready⟩ := (init_ensures hrep hrooted).returns hinit
    exact ⟨archive, hexplains, hrep', hrooted', fun _ => hready⟩
  | startCrashed _ hinit ih =>
    obtain ⟨archive, hexplains, hrep, hrooted, -⟩ := ih
    obtain ⟨hrooted', hrep'⟩ := (init_ensures hrep hrooted).passes hinit
    exact ⟨archive, hexplains, hrep', hrooted', fun h => nomatch h⟩
  | returned _ hfresh hcall ih =>
    obtain ⟨archive, hexplains, hrep, -, hready⟩ := ih
    obtain ⟨-, hready', archive', happlied, hrep'⟩ :=
      (call_ensures hrep (hready rfl) hfresh _).returns hcall
    exact ⟨archive', .snoc hexplains happlied, hrep', hready'.rooted, fun _ => hready'⟩
  | crashed _ hfresh hcall ih =>
    obtain ⟨archive, hexplains, hrep, -, hready⟩ := ih
    obtain ⟨hready', hrep' | ⟨archive', happly, hrep'⟩⟩ :=
      (call_ensures hrep (hready rfl) hfresh _).passes hcall
    · exact ⟨archive, .snoc hexplains (.inl rfl), hrep', hready'.rooted, fun h => nomatch h⟩
    · exact ⟨archive', .snoc hexplains (.inr happly), hrep', hready'.rooted, fun h => nomatch h⟩

/-! ## What is observed -/

/-- What the manager reads from a storage is the content of an archive. -/
structure Observes (factory : ModelFactory D M A B) (fs : Storage D A B)
    (archive : Archive ModelID D M A) : Prop where
  modelIDs : ∀ name, name ∈ getModelIDs fs ↔
    ∃ modelID : ModelID, modelID.name = name ∧ (archive modelID).isSome
  nodup : (getModelIDs fs).Nodup
  definition : ∀ modelID, loadModelDefinition fs modelID =
    (archive modelID).loadModelDefinition.mapError .checkpoint
  model : ∀ modelID, load fs modelID factory = (archive modelID).load.mapError .checkpoint
  attributes : ∀ modelID, loadCheckpointAttributes fs modelID =
    (archive modelID).loadCheckpointAttributes.mapError .checkpoint

theorem Represents.definition (h : Represents factory fs archive) (modelID : ModelID) :
    loadModelDefinition fs modelID = (archive modelID).loadModelDefinition.mapError .checkpoint := by
  have hentry := h.entry modelID
  rw [loadModelDefinition, h.exists_modelDir]
  cases harchive : archive modelID with
  | none => rfl
  | some stored =>
    rw [harchive] at hentry
    rw [EntryAt.definition_eq hentry]
    rfl

/-- A model without a checkpoint is not found, by either way of reading one. -/
theorem Represents.checkpoint (h : Represents factory fs archive) (modelID : ModelID) :
    load fs modelID factory = (archive modelID).load.mapError .checkpoint ∧
      loadCheckpointAttributes fs modelID =
        (archive modelID).loadCheckpointAttributes.mapError .checkpoint := by
  rw [load, loadCheckpointAttributes]
  cases harchive : archive modelID with
  | none =>
    rw [h.currentCheckpoint_none (by simp [harchive])]
    exact ⟨rfl, rfl⟩
  | some stored =>
    obtain ⟨definition, checkpoint⟩ := stored
    cases checkpoint with
    | none =>
      rw [h.currentCheckpoint_none (by simp [harchive])]
      exact ⟨rfl, rfl⟩
    | some checkpoint =>
      obtain ⟨now, -, hstore, hpath⟩ := h.currentCheckpoint_some harchive rfl
      rw [hpath]
      dsimp only
      rw [factory.load_of_saves hstore.saves, hstore.attributes_eq]
      exact ⟨rfl, rfl⟩

theorem Represents.modelIDs (h : Represents factory fs archive) (name : String) :
    name ∈ getModelIDs fs ↔
      ∃ modelID : ModelID, modelID.name = name ∧ (archive modelID).isSome := by
  have hlisted : ∀ modelID : ModelID, modelID.name ∈ fs.listdir [] ↔ (archive modelID).isSome := by
    intro modelID
    rw [FileTree.mem_listdir]
    have hentry := h.entry modelID
    cases harchive : archive modelID with
    | none =>
      rw [harchive] at hentry
      rw [show fs.lookup ([] ++ [modelID.name]) = none from hentry]
      simp
    | some stored =>
      rw [harchive] at hentry
      have hdir : fs.lookup ([] ++ [modelID.name]) = some .dir := EntryAt.dir_eq hentry
      rw [hdir]
      rfl
  rw [getModelIDs, List.mem_filter]
  constructor
  · rintro ⟨hmem, hhead⟩
    rcases h.names name (FileTree.mem_listdir.mp hmem) with rfl | ⟨modelID, rfl⟩
    · exact absurd hhead (by decide)
    · exact ⟨modelID, rfl, (hlisted modelID).mp hmem⟩
  · rintro ⟨modelID, rfl, hsome⟩
    exact ⟨(hlisted modelID).mpr hsome, decide_eq_true modelID.head_ne⟩

theorem Represents.observes (h : Represents factory fs archive) : Observes factory fs archive where
  modelIDs := h.modelIDs
  nodup := (List.nodup_dedup _).filter _
  definition := h.definition
  model modelID := (h.checkpoint modelID).1
  attributes modelID := (h.checkpoint modelID).2

/-- In every run what is read from the storage is the content of an archive to which each call that
returned has been applied, and each call that crashed entirely or not at all. The link of an
entry leads to a complete store with the attributes that go with its model, and no system
call fails. -/
theorem archive_refines_map {history : List (Operation ModelID D M A × Outcome)} {up : Bool}
    (h : Run factory history fs up) : ∃ archive, Explains history archive ∧
      Observes factory fs archive ∧
      (∀ modelID store, fs.lookup (checkpointLink modelID) = some (.link store) →
        ∃ definition model attributes,
          archive modelID = some ⟨definition, some (model, attributes)⟩ ∧
            StoreAt factory fs store model attributes) ∧
      ∀ (op : Operation ModelID D M A) (tmp now : String), up = true → Fresh fs tmp now →
        ¬ (op.call factory tmp now).Fails Step.apply fs := by
  obtain ⟨archive, hexplains, hrep, -, hready⟩ := h.represents
  refine ⟨archive, hexplains, hrep.observes, ?_, ?_⟩
  · intro modelID store hlink
    cases harchive : archive modelID with
    | none =>
      have hentry := hrep.entry modelID
      rw [harchive] at hentry
      have hnone : fs.lookup (checkpointLink modelID) = none := FileTree.lookup_append hentry _
      rw [hnone] at hlink
      cases hlink
    | some stored =>
      obtain ⟨definition, checkpoint⟩ := stored
      cases checkpoint with
      | none =>
        have hentry := hrep.entry modelID
        rw [harchive] at hentry
        have hnone : fs.lookup (checkpointLink modelID) = none := EntryAt.checkpoint hentry
        rw [hnone] at hlink
        cases hlink
      | some checkpoint =>
        obtain ⟨now, hlink', hstore, -⟩ := hrep.currentCheckpoint_some harchive rfl
        rw [hlink'] at hlink
        obtain rfl := Node.link.inj (Option.some.inj hlink)
        exact ⟨definition, _, _, rfl, hstore⟩
  · intro op tmp now hup hfresh
    exact (call_ensures hrep (hready hup) hfresh op).not_fails

/-! ### A run -/

/-- A model that is written to one file. -/
def fileFactory : ModelFactory String String String String where
  Saves model files := files ["model.pkl"] = some (.file (some (.instanceData model)))
  loadFromCheckpoint files :=
    match files ["model.pkl"] with
    | some (.file (some (.instanceData model))) => some model
    | _ => none
  load_of_saves h := by rw [h]

def modelOne : ModelID := ⟨"1ebd", by decide, List.all_iff_forall_prop.mp (by decide)⟩

theorem Fresh.of_nodes {tmp now : String} (h : ∀ e ∈ fs.nodes, e.1 ≠ tempRoot tmp ∧
    ∀ n, e.1 ≠ [n, checkpointStoreName now]) : Fresh fs tmp now := by
  constructor
  · by_contra hsome
    obtain ⟨e, he, hpath⟩ := lookup_isSome.mp (Option.isSome_iff_ne_none.mpr hsome)
    exact (h e he).1 hpath
  · intro modelID
    by_contra hsome
    obtain ⟨e, he, hpath⟩ := lookup_isSome.mp (Option.isSome_iff_ne_none.mpr hsome)
    exact (h e he).2 _ hpath

theorem run_start : ∃ fs, Run fileFactory [] fs true ∧
    fs.nodes = [([".scratch"], .dir), ([], .dir)] :=
  ⟨_, .start .empty (.read (.step rfl (.read (.step rfl (.done _ _))))), rfl⟩

theorem run_define : ∃ fs, Run fileFactory [(.define modelOne "d", .returned (.ok ()))] fs true ∧
    fs.nodes = [(["1ebd", "definition.data"], .file (some (.definition "d"))),
      (["1ebd", "version.txt"], .file (some (.version "2.0"))), (["1ebd"], .dir),
      ([".scratch"], .dir), ([], .dir)] := by
  obtain ⟨⟨nodes, closed⟩, hrun, rfl⟩ := run_start
  have hfresh : Fresh ⟨[([".scratch"], .dir), ([], .dir)], closed⟩ "t" "1" :=
    .of_nodes (by simp [tempRoot, scratchDir])
  have hcleanup : ∀ {fs fs' : Storage String String String},
      (Step.rmdir [".scratch", "t"]).apply fs = some fs' →
      Through Step.apply (fun step => step.deletes ∧ step.Within (tempRoot "t")) fs fs' :=
    fun hstep => .step (.refl _) (by simp [Step.deletes, Step.Within, Step.paths, tempRoot,
      scratchDir]) hstep
  exact ⟨_, .returned hrun hfresh (.read (.step rfl (.read (.step rfl (.step rfl (.step rfl
    (.step rfl (.step rfl (.step rfl (.job (hcleanup rfl) rfl (.done _ _))))))))))), rfl⟩

/-- A save that is cut short when the link has been renamed. -/
theorem archive_refines_map_save : ∃ fs archive,
    Explains [(.define modelOne "d", .returned (.ok ())), (.save modelOne "m" "a", .crashed)]
      archive ∧ Observes fileFactory fs archive := by
  obtain ⟨⟨nodes, closed⟩, hrun, rfl⟩ := run_define
  have hfresh : Fresh ⟨_, closed⟩ "t" "2" :=
    .of_nodes (by simp [tempRoot, scratchDir, checkpointStoreName, checkpointStoreDirNameBase])
  have hmodel : ∀ {fs fs₁ fs₂ fs₃ : Storage String String String},
      (Step.mkdir [".scratch", "t", "checkpoint_store_", "model_instance"]).apply fs = some fs₁ →
      (Step.create [".scratch", "t", "checkpoint_store_", "model_instance", "model.pkl"]).apply fs₁ =
        some fs₂ →
      (Step.write [".scratch", "t", "checkpoint_store_", "model_instance", "model.pkl"]
        (.instanceData "m")).apply fs₂ = some fs₃ →
      Through Step.apply (fun step => step.Within (tempRoot "t" ++ [checkpointStoreDirNameBase] ++
        [checkpointInstanceDirName])) fs fs₃ := by
    intro fs fs₁ fs₂ fs₃ h₁ h₂ h₃
    refine .step (.step (.step (.refl _) ?_ h₁) ?_ h₂) ?_ h₃
    all_goals
      simp [Step.Within, Step.paths, tempRoot, scratchDir, checkpointStoreDirNameBase,
        checkpointInstanceDirName]
  have hcrashed : ∃ fs, Run fileFactory
      [(.define modelOne "d", .returned (.ok ())), (.save modelOne "m" "a", .crashed)] fs false :=
    ⟨_, .crashed hrun hfresh (.read (.step rfl (.read (.step rfl (.step rfl (.step rfl
      (.job (hmodel rfl rfl rfl) rfl (.read (.step rfl (.read (.step rfl (.step rfl
        (.here _ _)))))))))))))⟩
  obtain ⟨fs, hcrashed⟩ := hcrashed
  obtain ⟨archive, hexplains, hobserves, -⟩ := archive_refines_map hcrashed
  exact ⟨fs, archive, hexplains, hobserves⟩

end NumentaApps.ModelCheckpoint
