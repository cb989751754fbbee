import Mathlib.Data.Finset.Basic
import Mathlib.Data.List.Induction
import Mathlib.Logic.Function.Basic
import Mathlib.Tactic.Tauto

/-!
# Tagging tweets with metrics

The tagging map leads from cashtags, and from the users who send or are mentioned in a tweet, to the
metrics of their companies. The users are looked up by their screen names, so many at a time.
-/
namespace NumentaApps.TwitterDirect

structure TwitterMetricSpec where
  metric : String
  screenNames : List String
  symbol : String

/-- What the lookup tells of a user. -/
structure TwitterUser where
  screenName : String
  idStr : String

/-- A dictionary of sets, with its keys in the order of their insertion. -/
structure TagSets where
  keys : List String
  sets : String → Finset String

def TagSets.empty : TagSets := ⟨[], fun _ => ∅⟩

/-- `setdefault(key, set()).update(values)` -/
def TagSets.update (key : String) (values : Finset String) (map : TagSets) : TagSets where
  keys := if key ∈ map.keys then map.keys else map.keys ++ [key]
  sets := Function.update map.sets key (map.sets key ∪ values)

structure TaggingMap where
  symbolToMetric : String → Option String
  userIdToMetrics : TagSets

structure StreamFilterParams where
  track : List String
  follow : List String

/-- The part of a tweet that the taggers read: texts of cashtags, ids of its user and of those it
mentions. -/
structure TweetStatus where
  symbols : List (Option String)
  user : Option String
  mentions : List (Option String)

section Tagging

variable (lower : String → String)

def symbolToMetricMap (specs : List TwitterMetricSpec) : String → Option String :=
  specs.foldl (fun map spec => Function.update map spec.symbol (some spec.metric)) fun _ => none

def addScreenNames (map : TagSets) (spec : TwitterMetricSpec) : TagSets :=
  spec.screenNames.foldl (fun map name => map.update (lower name) {spec.metric}) map

def screenNameToMetricsMap (specs : List TwitterMetricSpec) : TagSets :=
  specs.foldl (addScreenNames lower) .empty

def maxLookupItems : ℕ := 100

def lookupSlices (names : List String) : List (List String) :=
  (List.range ((names.length + maxLookupItems - 1) / maxLookupItems)).map fun n =>
    (names.drop (n * maxLookupItems)).take maxLookupItems

/-- A user whose screen name was not asked for is a missing key. -/
def mapUser (names ids : TagSets) (user : TwitterUser) : Option TagSets :=
  if lower user.screenName ∈ names.keys then
    some (ids.update user.idStr (names.sets (lower user.screenName)))
  else none

/-- Users that were not found are missing from the answers; a lookup that fails ends the program. -/
def userIdToMetricsMap (lookup : List String → Option (List TwitterUser)) (names : TagSets) :
    Option TagSets :=
  (lookupSlices names.keys).foldlM (fun ids slice =>
    (lookup slice).bind fun users => users.foldlM (mapUser lower names) ids) .empty

def buildTaggingMapAndStreamFilterParams (lookup : List String → Option (List TwitterUser))
    (specs : List TwitterMetricSpec) : Option (TaggingMap × StreamFilterParams) :=
  let names := screenNameToMetricsMap lower specs
  (userIdToMetricsMap lower lookup names).map fun ids =>
    (⟨symbolToMetricMap specs, ids⟩,
      ⟨(names.keys.map fun name => "@" ++ name) ++ (specs.map fun spec => "$" ++ spec.symbol).dedup,
        ids.keys⟩)

def tagOnSymbol (map : TaggingMap) (tags : Finset String) (text : Option String) : Finset String :=
  match text with
  | none => tags
  | some ticker =>
    if ticker = "" then tags
    else
      match map.symbolToMetric (lower ticker) with
      | none => tags
      | some metric => if metric = "" then tags else insert metric tags

def tagOnSymbols (map : TaggingMap) (status : TweetStatus) (tags : Finset String) : Finset String :=
  status.symbols.foldl (tagOnSymbol lower map) tags

def tagOnUser (map : TaggingMap) (tags : Finset String) (idStr : Option String) : Finset String :=
  match idStr with
  | none => tags
  | some id => tags ∪ map.userIdToMetrics.sets id

def tagOnSourceUsers (map : TaggingMap) (status : TweetStatus) (tags : Finset String) :
    Finset String :=
  tagOnUser map tags status.user

def tagOnMentions (map : TaggingMap) (status : TweetStatus) (tags : Finset String) :
    Finset String :=
  status.mentions.foldl (tagOnUser map) tags

/-- The metric tag set of a tweet. -/
def tagMessage (map : TaggingMap) (status : TweetStatus) : Finset String :=
  tagOnMentions map status (tagOnSourceUsers map status (tagOnSymbols lower map status ∅))

end Tagging

/-! ### Dictionaries of sets -/

variable {lower : String → String} {map : TagSets} {key key' metric : String}

/-- A key is one of those in whose set something was put. -/
def TagSets.Keyed (map : TagSets) : Prop := ∀ key, key ∈ map.keys ↔ (map.sets key).Nonempty

theorem empty_keyed : TagSets.empty.Keyed := by
  intro key
  simp [TagSets.empty]

theorem mem_update_sets {values : Finset String} : metric ∈ (map.update key values).sets key' ↔
    metric ∈ map.sets key' ∨ key' = key ∧ metric ∈ values := by
  rw [TagSets.update]
  by_cases hkey : key' = key
  · subst hkey
    simp
  · simp [hkey]

theorem mem_update_keys {values : Finset String} :
    key' ∈ (map.update key values).keys ↔ key' ∈ map.keys ∨ key' = key := by
  rw [TagSets.update]
  split
  · next hmem =>
    constructor
    · exact Or.inl
    · intro h
      exact h.elim id fun heq => heq ▸ hmem
  · simp

theorem TagSets.Keyed.update {values : Finset String} (h : map.Keyed) (hvalues : values.Nonempty) :
    (map.update key values).Keyed := by
  intro key'
  rw [mem_update_keys, h key']
  constructor
  · intro hmem
    rcases hmem with ⟨metric, hmetric⟩ | rfl
    · exact ⟨metric, mem_update_sets.mpr (Or.inl hmetric)⟩
    · obtain ⟨metric, hmetric⟩ := hvalues
      exact ⟨metric, mem_update_sets.mpr (Or.inr ⟨rfl, hmetric⟩)⟩
  · intro ⟨metric, hmetric⟩
    rcases mem_update_sets.mp hmetric with hold | ⟨rfl, -⟩
    · exact Or.inl ⟨metric, hold⟩
    · exact Or.inr rfl

/-! ### Screen names -/

variable {spec : TwitterMetricSpec} {specs : List TwitterMetricSpec}

theorem mem_addNames {names : List String} : metric ∈ (names.foldl (fun map name =>
    map.update (lower name) {spec.metric}) map).sets key ↔
      metric ∈ map.sets key ∨ metric = spec.metric ∧ ∃ name ∈ names, lower name = key := by
  induction names generalizing map with
  | nil => simp
  | cons name names ih =>
    rw [List.foldl_cons, ih, mem_update_sets, Finset.mem_singleton]
    simp only [List.mem_cons, exists_eq_or_imp, eq_comm (a := key)]
    tauto

theorem addNames_keyed {names : List String} (h : map.Keyed) :
    (names.foldl (fun map name => map.update (lower name) {spec.metric}) map).Keyed := by
  induction names generalizing map with
  | nil => exact h
  | cons name names ih => exact ih (h.update (Finset.singleton_nonempty _))

theorem mem_foldl_addScreenNames : metric ∈ (specs.foldl (addScreenNames lower) map).sets key ↔
    metric ∈ map.sets key ∨
      ∃ spec ∈ specs, spec.metric = metric ∧ ∃ name ∈ spec.screenNames, lower name = key := by
  induction specs generalizing map with
  | nil => simp
  | cons spec specs ih =>
    rw [List.foldl_cons, ih, addScreenNames, mem_addNames]
    simp only [List.mem_cons, exists_eq_or_imp, eq_comm (a := metric), or_assoc]

theorem screenNameToMetricsMap_keyed (lower : String → String) (specs : List TwitterMetricSpec) :
    (screenNameToMetricsMap lower specs).Keyed := by
  have hfold : ∀ (specs : List TwitterMetricSpec) (map : TagSets), map.Keyed →
      (specs.foldl (addScreenNames lower) map).Keyed := by
    intro specs
    induction specs with
    | nil => exact fun _ h => h
    | cons spec specs ih => exact fun map h => ih _ (addNames_keyed h)
  exact hfold specs _ empty_keyed

/-- The metrics of a screen name. -/
theorem mem_screenNameToMetricsMap : metric ∈ (screenNameToMetricsMap lower specs).sets key ↔
    ∃ spec ∈ specs, spec.metric = metric ∧ ∃ name ∈ spec.screenNames, lower name = key := by
  rw [screenNameToMetricsMap, mem_foldl_addScreenNames]
  simp [TagSets.empty]

/-! ### Cashtags -/

/-- The last metric of a symbol is the one that is tagged. -/
theorem symbolToMetricMap_eq (specs : List TwitterMetricSpec) (symbol : String) :
    symbolToMetricMap specs symbol =
      ((specs.filter fun spec => spec.symbol = symbol).getLast?).map TwitterMetricSpec.metric := by
  induction specs using List.reverseRecOn with
  | nil => rfl
  | append_singleton specs spec ih =>
    rw [symbolToMetricMap, List.foldl_append, List.foldl_cons, List.foldl_nil, List.filter_append]
    by_cases hsymbol : spec.symbol = symbol
    · subst hsymbol
      simp
    · have hskip : ([spec].filter fun spec => spec.symbol = symbol) = [] := by simp [hsymbol]
      rw [Function.update_of_ne (Ne.symm hsymbol), hskip, List.append_nil]
      exact ih

theorem mem_tagOnSymbol {tagging : TaggingMap} {tags : Finset String} {text : Option String} :
    metric ∈ tagOnSymbol lower tagging tags text ↔ metric ∈ tags ∨
      metric ≠ "" ∧ ∃ ticker ∈ text, ticker ≠ "" ∧ tagging.symbolToMetric (lower ticker) = some metric := by
  rw [tagOnSymbol.eq_def]
  cases text with
  | none => simp
  | some ticker =>
    by_cases hticker : ticker = ""
    · simp [hticker]
    · cases hmetric : tagging.symbolToMetric (lower ticker) with
      | none => simp [hticker, hmetric]
      | some metric' =>
        by_cases hempty : metric' = ""
        · simp only [hticker, hempty, hmetric, Option.mem_def]
          grind
        · simp only [hticker, hempty, hmetric, Option.mem_def]
          grind

theorem mem_tagOnSymbols {tagging : TaggingMap} {texts : List (Option String)}
    {tags : Finset String} : metric ∈ texts.foldl (tagOnSymbol lower tagging) tags ↔
      metric ∈ tags ∨ metric ≠ "" ∧ ∃ ticker, some ticker ∈ texts ∧ ticker ≠ "" ∧
        tagging.symbolToMetric (lower ticker) = some metric := by
  induction texts generalizing tags with
  | nil => simp
  | cons text texts ih =>
    rw [List.foldl_cons, ih, mem_tagOnSymbol]
    simp only [List.mem_cons, Option.mem_def]
    grind

theorem mem_tagOnUser {tagging : TaggingMap} {tags : Finset String} {idStr : Option String} :
    metric ∈ tagOnUser tagging tags idStr ↔
      metric ∈ tags ∨ ∃ id ∈ idStr, metric ∈ tagging.userIdToMetrics.sets id := by
  cases idStr with
  | none => simp [tagOnUser]
  | some id => simp [tagOnUser]

theorem mem_tagOnMentions {tagging : TaggingMap} {mentions : List (Option String)}
    {tags : Finset String} : metric ∈ mentions.foldl (tagOnUser tagging) tags ↔
      metric ∈ tags ∨ ∃ id, some id ∈ mentions ∧ metric ∈ tagging.userIdToMetrics.sets id := by
  induction mentions generalizing tags with
  | nil => simp
  | cons mention mentions ih =>
    rw [List.foldl_cons, ih, mem_tagOnUser]
    simp only [List.mem_cons, Option.mem_def]
    grind

/-! ### Users -/

theorem flatten_lookupSlices (names : List String) : (lookupSlices names).flatten = names := by
  have htake : ∀ n, ((List.range n).map fun n =>
      (names.drop (n * maxLookupItems)).take maxLookupItems).flatten =
        names.take (n * maxLookupItems) := by
    intro n
    induction n with
    | zero => simp
    | succ n ih =>
      rw [List.range_succ, List.map_append, List.flatten_append, ih, Nat.succ_mul, List.take_add]
      simp
  rw [lookupSlices, htake]
  apply List.take_of_length_le
  simp only [maxLookupItems]
  omega

theorem length_lookupSlices {names slice : List String} (h : slice ∈ lookupSlices names) :
    slice.length ≤ maxLookupItems := by
  obtain ⟨n, -, rfl⟩ := List.mem_map.mp h
  exact List.length_take_le _ _

/-- What a lookup answers for the names that it is asked for, if they are not too many. -/
structure Answers (lower : String → String) (lookup : List String → Option (List TwitterUser))
    (account : String → Option TwitterUser) : Prop where
  named : ∀ name user, account name = some user → lower user.screenName = name
  found : ∀ names, names.length ≤ maxLookupItems → ∃ users, lookup names = some users ∧
    ∀ user, user ∈ users ↔ ∃ name ∈ names, account name = some user

variable {lookup : List String → Option (List TwitterUser)} {account : String → Option TwitterUser}
  {names ids : TagSets}

/-- The users of one answer. -/
theorem foldlM_mapUser {users : List TwitterUser}
    (hnamed : ∀ user ∈ users, lower user.screenName ∈ names.keys) (hnames : names.Keyed)
    (hids : ids.Keyed) : ∃ ids', users.foldlM (mapUser lower names) ids = some ids' ∧ ids'.Keyed ∧
      ∀ id metric, metric ∈ ids'.sets id ↔ metric ∈ ids.sets id ∨
        ∃ user ∈ users, user.idStr = id ∧ metric ∈ names.sets (lower user.screenName) := by
  induction users generalizing ids with
  | nil => exact ⟨ids, rfl, hids, by simp⟩
  | cons user users ih =>
    have hmem := hnamed user List.mem_cons_self
    obtain ⟨ids', hfold, hkeyed, hsets⟩ := ih (fun user' h => hnamed user' (List.mem_cons_of_mem _ h))
      (hids.update ((hnames _).mp hmem))
    refine ⟨ids', ?_, hkeyed, fun id metric => ?_⟩
    · rw [List.foldlM_cons, mapUser, if_pos hmem]
      exact hfold
    · rw [hsets, mem_update_sets]
      simp only [List.mem_cons, exists_eq_or_imp, eq_comm (a := id), or_assoc]

/-- The users of an answer are the accounts of the names that it was asked for. -/
theorem Answers.mem_answer {slice : List String} {users : List TwitterUser} {id : String}
    (h : Answers lower lookup account)
    (hfound : ∀ user, user ∈ users ↔ ∃ name ∈ slice, account name = some user) :
    (∃ user ∈ users, user.idStr = id ∧ metric ∈ names.sets (lower user.screenName)) ↔
      ∃ name ∈ slice, ∃ user, account name = some user ∧ user.idStr = id ∧
        metric ∈ names.sets name := by
  constructor
  · intro ⟨user, huser, hid, hmetric⟩
    obtain ⟨name, hname, haccount⟩ := (hfound user).mp huser
    rw [h.named name user haccount] at hmetric
    exact ⟨name, hname, user, haccount, hid, hmetric⟩
  · intro ⟨name, hname, user, haccount, hid, hmetric⟩
    refine ⟨user, (hfound user).mpr ⟨name, hname, haccount⟩, hid, ?_⟩
    rw [h.named name user haccount]
    exact hmetric

theorem foldlM_slices {slices : List (List String)} (hanswers : Answers lower lookup account)
    (hlength : ∀ slice ∈ slices, slice.length ≤ maxLookupItems)
    (hslices : ∀ slice ∈ slices, ∀ name ∈ slice, name ∈ names.keys) (hnames : names.Keyed)
    (hids : ids.Keyed) : ∃ ids', slices.foldlM (fun ids slice =>
        (lookup slice).bind fun users => users.foldlM (mapUser lower names) ids) ids = some ids' ∧
      ids'.Keyed ∧ ∀ id metric, metric ∈ ids'.sets id ↔ metric ∈ ids.sets id ∨
        ∃ name ∈ slices.flatten, ∃ user, account name = some user ∧ user.idStr = id ∧
          metric ∈ names.sets name := by
  induction slices generalizing ids with
  | nil => exact ⟨ids, rfl, hids, by simp⟩
  | cons slice slices ih =>
    obtain ⟨users, hlookup, hfound⟩ := hanswers.found slice (hlength slice List.mem_cons_self)
    have hnamed : ∀ user ∈ users, lower user.screenName ∈ names.keys := by
      intro user huser
      obtain ⟨name, hname, haccount⟩ := (hfound user).mp huser
      rw [hanswers.named name user haccount]
      exact hslices slice List.mem_cons_self name hname
    obtain ⟨ids₁, hfold, hkeyed, hsets⟩ := foldlM_mapUser hnamed hnames hids
    obtain ⟨ids', hrest, hkeyed', hsets'⟩ :=
      ih (fun slice' h => hlength slice' (List.mem_cons_of_mem _ h))
        (fun slice' h => hslices slice' (List.mem_cons_of_mem _ h)) hkeyed
    refine ⟨ids', ?_, hkeyed', fun id metric => ?_⟩
    · rw [List.foldlM_cons, hlookup, Option.bind_some, hfold]
      exact hrest
    · rw [hsets', hsets, hanswers.mem_answer hfound, List.flatten_cons, or_assoc]
      simp only [List.mem_append, or_and_right, exists_or]

/-- The account of one of the screen names of a metric. -/
def Represents (lower : String → String) (account : String → Option TwitterUser)
    (specs : List TwitterMetricSpec) (metric id : String) : Prop :=
  ∃ spec ∈ specs, spec.metric = metric ∧ ∃ name ∈ spec.screenNames, ∃ user,
    account (lower name) = some user ∧ user.idStr = id

/-- The metrics of a user id, whatever the slices are. -/
theorem userIdToMetricsMap_spec (hanswers : Answers lower lookup account)
    (specs : List TwitterMetricSpec) :
    ∃ ids, userIdToMetricsMap lower lookup (screenNameToMetricsMap lower specs) = some ids ∧
      ids.Keyed ∧ ∀ id metric, metric ∈ ids.sets id ↔ Represents lower account specs metric id := by
  have hkeyed := screenNameToMetricsMap_keyed lower specs
  obtain ⟨ids, hids, hidsKeyed, hsets⟩ := foldlM_slices hanswers
    (fun _ => length_lookupSlices) (fun slice hslice name hname => by
      rw [← flatten_lookupSlices (screenNameToMetricsMap lower specs).keys]
      exact List.mem_flatten.mpr ⟨slice, hslice, hname⟩) hkeyed empty_keyed
  refine ⟨ids, hids, hidsKeyed, fun id metric => ?_⟩
  rw [hsets, flatten_lookupSlices]
  constructor
  · intro h
    rcases h with hempty | ⟨key, -, user, haccount, hid, hmetric⟩
    · exact absurd hempty (Finset.notMem_empty metric)
    · obtain ⟨spec, hspec, heq, name, hname, hlower⟩ := mem_screenNameToMetricsMap.mp hmetric
      exact ⟨spec, hspec, heq, name, hname, user, hlower ▸ haccount, hid⟩
  · intro ⟨spec, hspec, heq, name, hname, user, haccount, hid⟩
    have hmetric : metric ∈ (screenNameToMetricsMap lower specs).sets (lower name) :=
      mem_screenNameToMetricsMap.mpr ⟨spec, hspec, heq, name, hname, rfl⟩
    exact Or.inr ⟨lower name, (hkeyed _).mpr ⟨metric, hmetric⟩, user, haccount, hid, hmetric⟩

/-! ### Tags -/

/-- A cashtag of the tweet is the symbol of the metric, and of no metric after it. -/
def Cashtagged (lower : String → String) (specs : List TwitterMetricSpec) (status : TweetStatus)
    (metric : String) : Prop :=
  metric ≠ "" ∧ ∃ ticker, some ticker ∈ status.symbols ∧ ticker ≠ "" ∧
    ((specs.filter fun spec => spec.symbol = lower ticker).getLast?).map TwitterMetricSpec.metric =
      some metric

/-- The user sent the tweet or is mentioned in it. -/
def Involves (status : TweetStatus) (id : String) : Prop :=
  status.user = some id ∨ some id ∈ status.mentions

/-- A tweet gets the metrics of its cashtags and of the accounts involved in it, and no others; the
filter of the stream asks for every symbol and screen name, and for the accounts that were found. -/
theorem tweets_tagged (hanswers : Answers lower lookup account) (specs : List TwitterMetricSpec) :
    ∃ map params, buildTaggingMapAndStreamFilterParams lower lookup specs = some (map, params) ∧
      (∀ status metric, metric ∈ tagMessage lower map status ↔ Cashtagged lower specs status metric ∨
        ∃ id, Involves status id ∧ Represents lower account specs metric id) ∧
      (∀ id, id ∈ params.follow ↔ ∃ metric, Represents lower account specs metric id) ∧
      ∀ spec ∈ specs, "$" ++ spec.symbol ∈ params.track ∧
        ∀ name ∈ spec.screenNames, "@" ++ lower name ∈ params.track := by
  obtain ⟨ids, hids, hkeyed, hsets⟩ := userIdToMetricsMap_spec hanswers specs
  refine ⟨_, _, by rw [buildTaggingMapAndStreamFilterParams, hids, Option.map_some], ?_, ?_, ?_⟩
  · intro status metric
    rw [tagMessage, tagOnMentions, mem_tagOnMentions, tagOnSourceUsers, mem_tagOnUser, tagOnSymbols,
      mem_tagOnSymbols]
    simp only [symbolToMetricMap_eq, hsets, Cashtagged, Involves, Finset.notMem_empty, false_or,
      Option.mem_def, or_and_right, exists_or, or_assoc]
  · intro id
    rw [hkeyed id, Finset.Nonempty]
    exact exists_congr fun metric => hsets id metric
  · intro spec hspec
    constructor
    · refine List.mem_append_right _ (List.mem_dedup.mpr ?_)
      exact List.mem_map.mpr ⟨spec, hspec, rfl⟩
    · intro name hname
      refine List.mem_append_left _ (List.mem_map.mpr ⟨lower name, ?_, rfl⟩)
      refine (screenNameToMetricsMap_keyed lower specs _).mpr ⟨spec.metric, ?_⟩
      exact mem_screenNameToMetricsMap.mpr ⟨spec, hspec, rfl, name, hname, rfl⟩

def exampleSpecs : List TwitterMetricSpec :=
  [⟨"TWITTER.TWEET.HANDLE.GOOGL.VOLUME", ["google"], "googl"⟩,
    ⟨"TWITTER.TWEET.HANDLE.GOOG.VOLUME", ["Google"], "goog"⟩]

/-- The lowercase of the names of the example. -/
def exampleLower (name : String) : String :=
  if name = "Google" then "google" else if name = "GOOG" then "goog" else name

def exampleAccount (name : String) : Option TwitterUser :=
  if name = "google" then some ⟨"Google", "20536157"⟩ else none

theorem exampleAccount_answers :
    Answers exampleLower (fun names => some (names.filterMap exampleAccount)) exampleAccount := by
  refine ⟨fun name user haccount => ?_, fun names _ => ⟨_, rfl, fun user => List.mem_filterMap⟩⟩
  rw [exampleAccount] at haccount
  split at haccount
  · next hname =>
    rw [← Option.some.inj haccount, hname]
    rfl
  · cases haccount

/-- Both metrics of a screen name, and that of one cashtag. -/
theorem tweets_tagged_google : ∃ map params, buildTaggingMapAndStreamFilterParams exampleLower
    (fun names => some (names.filterMap exampleAccount)) exampleSpecs = some (map, params) ∧
      (∀ status metric, metric ∈ tagMessage exampleLower map status ↔
        Cashtagged exampleLower exampleSpecs status metric ∨
          ∃ id, Involves status id ∧ Represents exampleLower exampleAccount exampleSpecs metric id) ∧
      (∀ id, id ∈ params.follow ↔ ∃ metric,
        Represents exampleLower exampleAccount exampleSpecs metric id) ∧
      ∀ spec ∈ exampleSpecs, "$" ++ spec.symbol ∈ params.track ∧
        ∀ name ∈ spec.screenNames, "@" ++ exampleLower name ∈ params.track :=
  tweets_tagged exampleAccount_answers exampleSpecs

example : ((buildTaggingMapAndStreamFilterParams exampleLower
    (fun names => some (names.filterMap exampleAccount)) exampleSpecs).map fun built =>
      decide (tagMessage exampleLower built.1 ⟨[some "GOOG"], some "1", [some "20536157"]⟩ =
        {"TWITTER.TWEET.HANDLE.GOOGL.VOLUME", "TWITTER.TWEET.HANDLE.GOOG.VOLUME"})) = some true := by
  decide +kernel

end NumentaApps.TwitterDirect
