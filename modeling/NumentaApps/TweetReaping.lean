import NumentaApps.TweetTagging
import Mathlib.Algebra.BigOperators.Group.List.Basic
import Mathlib.Algebra.Order.Group.Int
import Mathlib.Algebra.Ring.Int.Defs

/-!
# Reaping the messages of the stream

The messages come in batches. Tweets are tagged, and counted both for the current stream and for the
whole of the run; a message that raises ends its batch, of which nothing is saved.
-/
namespace NumentaApps.TwitterDirect

inductive StreamCounter where
  | numTweets
  | numUntaggedTweets
  | numDeleteStatuses
  | numLimitStatuses
  | numLimitedTweets
  | numDisconnectStatuses
  | numWarningStatuses
  | numOtherStatuses
  deriving DecidableEq

abbrev StreamingStats := StreamCounter → ℤ

/-- What the listener puts in the queue, decoded. A tweet that is not well formed raises when it is
tagged, and such a limit message when its track is read. -/
inductive StreamMessage where
  | undecodable
  | tweet (status : TweetStatus) (wellFormed : Bool)
  | delete (tweetId : String)
  | limit (track : Option ℤ) (wellFormed : Bool)
  | disconnect
  | warning
  | other
  | connectionMarker
  | unexpected

/-- The tweets with their metrics, and the ids of the tweets to delete. -/
structure Reaped where
  tweets : List (TweetStatus × Finset String)
  deletes : List String

def Reaped.empty : Reaped := ⟨[], []⟩

def Reaped.append (reaped reaped' : Reaped) : Reaped :=
  ⟨reaped.tweets ++ reaped'.tweets, reaped.deletes ++ reaped'.deletes⟩

/-- The statistics, and what has happened: the messages counted for the current stream, and for each
one before it. -/
structure StreamReaper where
  currentStreamStats : Option StreamingStats
  runtimeStreamingStats : StreamingStats
  streamNumber : Option ℕ
  stream : List StreamMessage
  ended : List (List StreamMessage)

def StreamReaper.initial : StreamReaper := ⟨.none, fun _ => 0, .none, [], []⟩

def StreamingStats.add (counter : StreamCounter) (n : ℤ) (stats : StreamingStats) : StreamingStats :=
  Function.update stats counter (stats counter + n)

section Reaping

variable (lower : String → String) (map : TaggingMap)

/-- The counters of a message that a stream is open for. -/
def countMessage (msg : StreamMessage) (current runtime : StreamingStats) :
    StreamingStats × StreamingStats :=
  match msg with
  | .tweet status wellFormed =>
    let tweeted := (current.add .numTweets 1, runtime.add .numTweets 1)
    if wellFormed = true ∧ tagMessage lower map status = ∅ then
      (tweeted.1.add .numUntaggedTweets 1, tweeted.2.add .numUntaggedTweets 1)
    else tweeted
  | .delete _ => (current.add .numDeleteStatuses 1, runtime.add .numDeleteStatuses 1)
  | .limit track wellFormed =>
    let limited := (current.add .numLimitStatuses 1, runtime.add .numLimitStatuses 1)
    match track, wellFormed with
    | .none, _ | some _, false => limited
    | some track, true =>
      -- these arrive out of order
      if limited.1 .numLimitedTweets < track then
        (Function.update limited.1 .numLimitedTweets track,
          limited.2.add .numLimitedTweets (track - limited.1 .numLimitedTweets))
      else limited
  | .disconnect => (current.add .numDisconnectStatuses 1, runtime.add .numDisconnectStatuses 1)
  | .warning => (current.add .numWarningStatuses 1, runtime.add .numWarningStatuses 1)
  | .other => (current.add .numOtherStatuses 1, runtime.add .numOtherStatuses 1)
  | .undecodable | .connectionMarker | .unexpected => (current, runtime)

def reapedOf : StreamMessage → Reaped
  | .tweet status _ =>
    if tagMessage lower map status = ∅ then .empty else ⟨[(status, tagMessage lower map status)], []⟩
  | .delete tweetId => ⟨[], [tweetId]⟩
  | _ => .empty

/-- The messages that raise whatever the state is. -/
def StreamMessage.raises : StreamMessage → Bool
  | .tweet _ wellFormed | .limit _ wellFormed => !wellFormed
  | .unexpected => true
  | _ => false

/-- Without a stream only the message of its beginning, and what cannot be decoded, do not raise. -/
def reapMessage (msg : StreamMessage) (reaper : StreamReaper) : StreamReaper × Option Reaped :=
  match msg with
  | .undecodable => (reaper, some .empty)
  | .connectionMarker =>
    ({ reaper with
      currentStreamStats := some fun _ => 0
      streamNumber := some (reaper.streamNumber.elim 1 (· + 1))
      stream := []
      ended := reaper.ended ++ (reaper.currentStreamStats.map fun _ => reaper.stream).toList }, some .empty)
  | .unexpected => (reaper, .none)
  | msg =>
    match reaper.currentStreamStats with
    | .none => (reaper, .none)
    | some current =>
      let (current, runtime) := countMessage lower map msg current reaper.runtimeStreamingStats
      ({ reaper with
        currentStreamStats := some current
        runtimeStreamingStats := runtime
        stream := reaper.stream ++ [msg] }, if msg.raises then .none else some (reapedOf lower map msg))

def reapMessages : List StreamMessage → StreamReaper → StreamReaper × Option Reaped
  | [], reaper => (reaper, some .empty)
  | msg :: msgs, reaper =>
    match reapMessage lower map msg reaper with
    | (reaper, .none) => (reaper, .none)
    | (reaper, some reaped) =>
      let (reaper, rest) := reapMessages msgs reaper
      (reaper, rest.map reaped.append)

/-- The batches of a run, with what was handed over to be saved. -/
def reapBatches : List (List StreamMessage) → StreamReaper → StreamReaper × Reaped
  | [], reaper => (reaper, .empty)
  | batch :: batches, reaper =>
    let (reaper, reaped) := reapMessages lower map batch reaper
    let (reaper, rest) := reapBatches batches reaper
    (reaper, (reaped.getD .empty).append rest)

end Reaping

/-! ### Statistics -/

variable {lower : String → String} {map : TaggingMap}

/-- The messages that a counter counts. -/
def counts (lower : String → String) (map : TaggingMap) : StreamCounter → StreamMessage → Bool
  | .numTweets, .tweet _ _ => true
  | .numUntaggedTweets, .tweet status wellFormed =>
    wellFormed && decide (tagMessage lower map status = ∅)
  | .numDeleteStatuses, .delete _ => true
  | .numLimitStatuses, .limit _ _ => true
  | .numDisconnectStatuses, .disconnect => true
  | .numWarningStatuses, .warning => true
  | .numOtherStatuses, .other => true
  | _, _ => false

def StreamMessage.track : StreamMessage → Option ℤ
  | .limit track wellFormed => if wellFormed then track else none
  | _ => none

/-- How many messages of a stream there are of each kind, and the largest number of limited tweets
that it was told of. -/
def statsOf (lower : String → String) (map : TaggingMap) (stream : List StreamMessage)
    (counter : StreamCounter) : ℤ :=
  if counter = .numLimitedTweets then (stream.filterMap StreamMessage.track).foldl max 0
  else stream.countP (counts lower map counter)

theorem statsOf_nil (counter : StreamCounter) : statsOf lower map [] counter = 0 := by
  rw [statsOf]
  split <;> rfl

theorem statsOf_concat (stream : List StreamMessage) (msg : StreamMessage) (counter : StreamCounter) :
    statsOf lower map (stream ++ [msg]) counter =
      if counter = .numLimitedTweets then
        msg.track.elim (statsOf lower map stream counter) (max (statsOf lower map stream counter))
      else statsOf lower map stream counter + if counts lower map counter msg then 1 else 0 := by
  simp only [statsOf]
  split
  · rw [List.filterMap_append]
    cases htrack : msg.track with
    | none => simp [htrack]
    | some track => simp [htrack]
  · rw [List.countP_append, List.countP_singleton, Int.natCast_add]
    split <;> rfl

@[simp] theorem add_apply (counter counter' : StreamCounter) (n : ℤ) (stats : StreamingStats) :
    stats.add counter n counter' = stats counter' + if counter' = counter then n else 0 := by
  rw [StreamingStats.add]
  by_cases h : counter' = counter
  · subst h
    simp
  · simp [h]

/-- A message changes the statistics of its stream and those of the run alike. -/
theorem countMessage_spec (lower : String → String) (map : TaggingMap) (msg : StreamMessage)
    (stream : List StreamMessage) (runtime : StreamingStats) (counter : StreamCounter) :
    (countMessage lower map msg (statsOf lower map stream) runtime).1 counter =
        statsOf lower map (stream ++ [msg]) counter ∧
      (countMessage lower map msg (statsOf lower map stream) runtime).2 counter =
        runtime counter + (statsOf lower map (stream ++ [msg]) counter -
          statsOf lower map stream counter) := by
  rw [statsOf_concat]
  cases msg with
  | tweet status wellFormed =>
    simp only [countMessage]
    split
    · next huntagged =>
      cases counter <;> simp [counts, StreamMessage.track, huntagged]
    · next htagged =>
      have htags : wellFormed = true → ¬ tagMessage lower map status = ∅ :=
        fun hwell hnone => htagged ⟨hwell, hnone⟩
      cases counter with
      | numUntaggedTweets => simpa [counts] using htags
      | _ => simp [counts, StreamMessage.track]
  | limit track wellFormed =>
    match track, wellFormed with
    | none, _ => cases counter <;> simp [countMessage, counts, StreamMessage.track]
    | some _, false => cases counter <;> simp [countMessage, counts, StreamMessage.track]
    | some track, true =>
      simp only [countMessage]
      split
      · next hlarger =>
        simp at hlarger
        cases counter <;> simp [counts, StreamMessage.track, max_eq_right hlarger.le]
      · next hsmaller =>
        simp at hsmaller
        cases counter <;> simp [counts, StreamMessage.track, max_eq_left hsmaller]
  | _ => cases counter <;> simp [countMessage, counts, StreamMessage.track]

/-! ### Messages and batches -/

/-- The messages that statistics are kept of. -/
def StreamMessage.isCounted : StreamMessage → Bool
  | .undecodable | .connectionMarker | .unexpected => false
  | _ => true

structure ReaperInv (lower : String → String) (map : TaggingMap) (reaper : StreamReaper) : Prop where
  current : ∀ stats ∈ reaper.currentStreamStats, stats = statsOf lower map reaper.stream
  idle : reaper.currentStreamStats = none → reaper.stream = [] ∧ reaper.ended = []
  runtime : ∀ counter, reaper.runtimeStreamingStats counter =
    ((reaper.ended ++ [reaper.stream]).map fun stream => statsOf lower map stream counter).sum

/-- The messages counted so far. -/
def StreamReaper.counted (reaper : StreamReaper) : List StreamMessage :=
  (reaper.ended ++ [reaper.stream]).flatten

variable {reaper : StreamReaper}

theorem initial_inv (lower : String → String) (map : TaggingMap) :
    ReaperInv lower map .initial := by
  refine ⟨fun stats h => absurd h (Option.not_mem_none stats), fun _ => ⟨rfl, rfl⟩, fun counter => ?_⟩
  simp [StreamReaper.initial, statsOf_nil]

theorem marker_inv (h : ReaperInv lower map reaper) :
    ReaperInv lower map (reapMessage lower map .connectionMarker reaper).1 ∧
      (reapMessage lower map .connectionMarker reaper).1.counted = reaper.counted := by
  cases hcurrent : reaper.currentStreamStats with
  | none =>
    obtain ⟨hstream, hended⟩ := h.idle hcurrent
    have hruntime := h.runtime
    rw [hstream, hended] at hruntime
    refine ⟨⟨fun stats hstats => ?_, fun hnone => ?_, fun counter => ?_⟩, ?_⟩
    · rw [← Option.some.inj hstats]
      exact funext fun counter => (statsOf_nil counter).symm
    · cases hnone
    · simpa [reapMessage, hcurrent, hended] using hruntime counter
    · simp [reapMessage, StreamReaper.counted, hcurrent, hstream, hended]
  | some stats =>
    refine ⟨⟨fun stats hstats => ?_, fun hnone => ?_, fun counter => ?_⟩, ?_⟩
    · rw [← Option.some.inj hstats]
      exact funext fun counter => (statsOf_nil counter).symm
    · cases hnone
    · simpa [reapMessage, hcurrent, statsOf_nil] using h.runtime counter
    · simp [reapMessage, StreamReaper.counted, hcurrent]

/-- A message that is counted, in an open stream. -/
theorem counted_inv {msg : StreamMessage} {stats stats' runtime : StreamingStats}
    (h : ReaperInv lower map reaper) (hcurrent : reaper.currentStreamStats = some stats)
    (hcount : countMessage lower map msg stats reaper.runtimeStreamingStats = (stats', runtime)) :
    ReaperInv lower map { reaper with
      currentStreamStats := some stats'
      runtimeStreamingStats := runtime
      stream := reaper.stream ++ [msg] } := by
  have hstats := h.current stats hcurrent
  subst hstats
  have hspec := countMessage_spec lower map msg reaper.stream
    reaper.runtimeStreamingStats
  rw [hcount] at hspec
  refine ⟨fun stats hstats => ?_, fun hnone => ?_, fun counter => ?_⟩
  · rw [← Option.some.inj hstats]
    exact funext fun counter => (hspec counter).1
  · cases hnone
  · have hruntime := (hspec counter).2
    dsimp only at hruntime ⊢
    rw [hruntime, h.runtime counter]
    simp only [List.map_append, List.sum_append, List.map_cons, List.map_nil, List.sum_cons,
      List.sum_nil]
    omega

theorem counted_concat (msg : StreamMessage) (stats runtime : StreamingStats) :
    StreamReaper.counted { reaper with
      currentStreamStats := some stats
      runtimeStreamingStats := runtime
      stream := reaper.stream ++ [msg] } = reaper.counted ++ [msg] := by
  simp [StreamReaper.counted]

/-- In an open stream, the messages are passed and those that count are counted. -/
structure Passes (lower : String → String) (map : TaggingMap) (reaper : StreamReaper)
    (msgs : List StreamMessage) (reaper' : StreamReaper) : Prop where
  current : ∃ stats, reaper'.currentStreamStats = some stats
  inv : ReaperInv lower map reaper'
  counted : reaper'.counted = reaper.counted ++ msgs.filter StreamMessage.isCounted

theorem Passes.nil (h : ReaperInv lower map reaper)
    (hcurrent : ∃ stats, reaper.currentStreamStats = some stats) :
    Passes lower map reaper [] reaper :=
  ⟨hcurrent, h, (List.append_nil _).symm⟩

theorem Passes.trans {reaper₁ reaper₂ : StreamReaper} {msgs msgs' : List StreamMessage}
    (h : Passes lower map reaper msgs reaper₁) (h' : Passes lower map reaper₁ msgs' reaper₂) :
    Passes lower map reaper (msgs ++ msgs') reaper₂ := by
  refine ⟨h'.current, h'.inv, ?_⟩
  rw [h'.counted, h.counted, List.append_assoc, List.filter_append]

theorem Passes.cons {reaper₁ reaper₂ : StreamReaper} {msg : StreamMessage}
    {msgs : List StreamMessage} (h : Passes lower map reaper [msg] reaper₁)
    (h' : Passes lower map reaper₁ msgs reaper₂) : Passes lower map reaper (msg :: msgs) reaper₂ :=
  h.trans h'

/-- In an open stream, a message raises on its own account only. -/
theorem reapMessage_open (msg : StreamMessage) (h : ReaperInv lower map reaper)
    (hcurrent : ∃ stats, reaper.currentStreamStats = some stats) :
    ∃ reaper', reapMessage lower map msg reaper =
        (reaper', if msg.raises then none else some (reapedOf lower map msg)) ∧
      Passes lower map reaper [msg] reaper' := by
  obtain ⟨stats, hstats⟩ := hcurrent
  have hcounted : ∀ msg : StreamMessage, msg.isCounted = true → Passes lower map reaper [msg]
      { reaper with
        currentStreamStats := some (countMessage lower map msg stats reaper.runtimeStreamingStats).1
        runtimeStreamingStats := (countMessage lower map msg stats reaper.runtimeStreamingStats).2
        stream := reaper.stream ++ [msg] } := by
    intro msg hmsg
    refine ⟨⟨_, rfl⟩, counted_inv h hstats rfl, ?_⟩
    rw [List.filter_cons_of_pos hmsg, List.filter_nil]
    exact counted_concat msg _ _
  cases msg with
  | undecodable => exact ⟨reaper, rfl, ⟨stats, hstats⟩, h, (List.append_nil _).symm⟩
  | unexpected => exact ⟨reaper, rfl, ⟨stats, hstats⟩, h, (List.append_nil _).symm⟩
  | connectionMarker =>
    obtain ⟨hinv, hsame⟩ := marker_inv h
    exact ⟨_, rfl, ⟨_, rfl⟩, hinv, hsame.trans (List.append_nil _).symm⟩
  | _ => exact ⟨_, by rw [reapMessage.eq_def, hstats], hcounted _ rfl⟩

/-- The messages up to the first that raises. -/
def processed : List StreamMessage → List StreamMessage
  | [] => []
  | msg :: msgs => if msg.raises then [msg] else msg :: processed msgs

def reapedFrom (lower : String → String) (map : TaggingMap) (msgs : List StreamMessage) : Reaped :=
  ⟨msgs.flatMap fun msg => (reapedOf lower map msg).tweets,
    msgs.flatMap fun msg => (reapedOf lower map msg).deletes⟩

theorem reapMessages_open (msgs : List StreamMessage) (h : ReaperInv lower map reaper)
    (hcurrent : ∃ stats, reaper.currentStreamStats = some stats) :
    ∃ reaper', reapMessages lower map msgs reaper =
        (reaper', if msgs.any StreamMessage.raises then none else some (reapedFrom lower map msgs)) ∧
      Passes lower map reaper (processed msgs) reaper' := by
  induction msgs generalizing reaper with
  | nil => exact ⟨reaper, rfl, .nil h hcurrent⟩
  | cons msg msgs ih =>
    obtain ⟨reaper₁, hreap, hpasses⟩ := reapMessage_open msg h hcurrent
    cases hraises : msg.raises with
    | true =>
      rw [hraises] at hreap
      refine ⟨reaper₁, ?_, ?_⟩
      · simp [reapMessages, hreap, hraises]
      · rw [processed, if_pos hraises]
        exact hpasses
    | false =>
      rw [hraises, if_neg Bool.false_ne_true] at hreap
      obtain ⟨reaper', hrest, hpasses'⟩ := ih hpasses.inv hpasses.current
      refine ⟨reaper', ?_, ?_⟩
      · rw [reapMessages, hreap]
        simp only [hrest, List.any_cons, hraises, Bool.false_or]
        cases hany : msgs.any StreamMessage.raises with
        | true => rfl
        | false => rfl
      · rw [processed, hraises]
        exact hpasses.cons hpasses'

theorem reapBatches_open (batches : List (List StreamMessage)) (h : ReaperInv lower map reaper)
    (hcurrent : ∃ stats, reaper.currentStreamStats = some stats) :
    ∃ reaper', reapBatches lower map batches reaper =
        (reaper', reapedFrom lower map
          (batches.filter fun batch => !batch.any StreamMessage.raises).flatten) ∧
      Passes lower map reaper (batches.flatMap processed) reaper' := by
  induction batches generalizing reaper with
  | nil => exact ⟨reaper, rfl, .nil h hcurrent⟩
  | cons batch batches ih =>
    obtain ⟨reaper₁, hreap, hpasses⟩ := reapMessages_open batch h hcurrent
    obtain ⟨reaper', hrest, hpasses'⟩ := ih hpasses.inv hpasses.current
    refine ⟨reaper', ?_, hpasses.trans hpasses'⟩
    rw [reapBatches, hreap]
    simp only [hrest]
    cases hany : batch.any StreamMessage.raises with
    | true =>
      rw [List.filter_cons_of_neg (by simp [hany])]
      rfl
    | false =>
      rw [List.filter_cons_of_pos (by simp [hany]), List.flatten_cons]
      simp [reapedFrom, Reaped.append]

theorem reapBatches_marker (first : List StreamMessage) (batches : List (List StreamMessage))
    (reaper : StreamReaper) : reapBatches lower map ((.connectionMarker :: first) :: batches) reaper =
      reapBatches lower map (first :: batches) (reapMessage lower map .connectionMarker reaper).1 := by
  have hid : Reaped.empty.append = id := rfl
  rw [reapBatches, reapMessages]
  simp only [reapMessage, hid, Option.map_id, id_eq]
  rw [reapBatches]

/-- However the messages after the first connection are divided into batches: what is saved is, in
their order, the tweets with metrics and the deletions of the batches without a message that raises,
and a batch with one loses all of its own. The statistics of the current stream are those of its
messages, and the statistics of the run are the sums of those of its streams. -/
theorem messages_reaped (lower : String → String) (map : TaggingMap) (first : List StreamMessage)
    (batches : List (List StreamMessage)) :
    ∃ reaper, reapBatches lower map ((.connectionMarker :: first) :: batches) .initial =
        (reaper, reapedFrom lower map
          ((first :: batches).filter fun batch => !batch.any StreamMessage.raises).flatten) ∧
      reaper.currentStreamStats = some (statsOf lower map reaper.stream) ∧
      (∀ counter, reaper.runtimeStreamingStats counter =
        ((reaper.ended ++ [reaper.stream]).map fun stream => statsOf lower map stream counter).sum) ∧
      (reaper.ended ++ [reaper.stream]).flatten =
        ((first :: batches).flatMap processed).filter StreamMessage.isCounted := by
  obtain ⟨hinv, hcounted⟩ := marker_inv (initial_inv lower map)
  obtain ⟨reaper, hreap, hpasses⟩ := reapBatches_open (first :: batches) hinv ⟨_, rfl⟩
  obtain ⟨stats, hcurrent⟩ := hpasses.current
  refine ⟨reaper, (reapBatches_marker first batches _).trans hreap, ?_, hpasses.inv.runtime, ?_⟩
  · rw [hcurrent, hpasses.inv.current stats hcurrent]
  · have hflat := hpasses.counted
    rw [hcounted] at hflat
    exact hflat

end NumentaApps.TwitterDirect
