import NumentaApps.KeysetPage
import NumentaApps.TransitionSystem
import Mathlib.Data.Int.Notation
import Mathlib.Data.List.Perm.Basic

/-!
# Tweet forwarding

The storers insert tweets and tweet samples in transactions of the collectors'
database; the forwarder publishes the committed samples in batches, in the order of
their sequence numbers, and tracks the last number it has published.
-/
namespace NumentaApps.TwitterDirect
open TransitionSystem KeysetPage

structure Tweet (T : Type) where
  uid : String
  createdAt : Option T
  text : Option String
  userid : Option String
  username : Option String
  retweetCount : Option ℤ
  deriving DecidableEq, Repr

structure TweetSample (T : Type) where
  seq : ℕ
  metric : String
  msgUid : String
  aggTs : Option T
  deriving DecidableEq, Repr

/-- The fields selected for forwarding, from a sample and its tweet. -/
structure TweetRow (T : Type) where
  metric : String
  aggTs : Option T
  seq : ℕ
  uid : String
  createdAt : Option T
  text : Option String
  username : Option String
  userid : Option String
  retweetCount : Option ℤ
  deriving DecidableEq, Repr

/-- What an open transaction has inserted. -/
structure TweetTransaction (T : Type) where
  twitterTweets : List (Tweet T)
  twitterTweetSamples : List (TweetSample T)

/-- The committed rows, the open transactions, the next sequence number and the row of
the tracker table. -/
structure CollectorsDb (T : Type) where
  twitterTweets : List (Tweet T)
  twitterTweetSamples : List (TweetSample T)
  openTransactions : List (TweetTransaction T)
  nextSeq : ℕ
  lastSeq : Option ℕ

variable {T : Type}

/-- A row without a creation or an aggregation time is not forwarded. -/
def TweetRow.complete (row : TweetRow T) : Bool := row.createdAt.isSome && row.aggTs.isSome

namespace CollectorsDb

def joinRow (tweets : List (Tweet T)) (sample : TweetSample T) : Option (TweetRow T) :=
  (tweets.find? fun tweet => tweet.uid = sample.msgUid).map fun tweet =>
    { metric := sample.metric
      aggTs := sample.aggTs
      seq := sample.seq
      uid := tweet.uid
      createdAt := tweet.createdAt
      text := tweet.text
      username := tweet.username
      userid := tweet.userid
      retweetCount := tweet.retweetCount }

/-- The committed samples, joined with their tweets. -/
def tweetRows (db : CollectorsDb T) : List (TweetRow T) :=
  db.twitterTweetSamples.filterMap (joinRow db.twitterTweets)

/-- The rows that a transaction is going to add. -/
def rowsOf (db : CollectorsDb T) (tx : TweetTransaction T) : List (TweetRow T) :=
  tx.twitterTweetSamples.filterMap (joinRow (db.twitterTweets ++ tx.twitterTweets))

def begin (db : CollectorsDb T) : CollectorsDb T :=
  { db with openTransactions := db.openTransactions ++ [⟨[], []⟩] }

/-- "INSERT IGNORE" of a tweet; an insert of another open transaction is waited for. -/
def insertTweet (i : ℕ) (tweet : Tweet T) (db : CollectorsDb T) : Option (CollectorsDb T) :=
  match db.openTransactions[i]? with
  | none => none
  | some tx =>
    if (db.openTransactions.eraseIdx i).any fun tx =>
        tx.twitterTweets.any fun other => other.uid = tweet.uid then none
    else if (db.twitterTweets ++ tx.twitterTweets).any fun other => other.uid = tweet.uid then
      some db
    else some { db with
      openTransactions := db.openTransactions.set i
        { tx with twitterTweets := tx.twitterTweets ++ [tweet] } }

/-- "INSERT IGNORE" of a sample. A sequence number is used up even if the sample is a
duplicate or its tweet is not there. -/
def insertSample (i : ℕ) (metric msgUid : String) (aggTs : Option T) (db : CollectorsDb T) :
    Option (CollectorsDb T) :=
  match db.openTransactions[i]? with
  | none => none
  | some tx =>
    if (db.openTransactions.eraseIdx i).any fun tx =>
        (tx.twitterTweets.any fun tweet => tweet.uid = msgUid) ||
        tx.twitterTweetSamples.any fun other => other.metric = metric ∧ other.msgUid = msgUid then
      none
    else if ((db.twitterTweetSamples ++ tx.twitterTweetSamples).any fun other =>
          other.metric = metric ∧ other.msgUid = msgUid) ||
        !(db.twitterTweets ++ tx.twitterTweets).any fun tweet => tweet.uid = msgUid then
      some { db with nextSeq := db.nextSeq + 1 }
    else some { db with
      nextSeq := db.nextSeq + 1
      openTransactions := db.openTransactions.set i { tx with
        twitterTweetSamples := tx.twitterTweetSamples ++ [⟨db.nextSeq, metric, msgUid, aggTs⟩] } }

def commit (i : ℕ) (db : CollectorsDb T) : Option (CollectorsDb T) :=
  db.openTransactions[i]?.map fun tx => { db with
    twitterTweets := db.twitterTweets ++ tx.twitterTweets
    twitterTweetSamples := db.twitterTweetSamples ++ tx.twitterTweetSamples
    openTransactions := db.openTransactions.eraseIdx i }

def rollback (i : ℕ) (db : CollectorsDb T) : CollectorsDb T :=
  { db with openTransactions := db.openTransactions.eraseIdx i }

/-- The last sequence number of the rows found, and the batch; none if there are no rows. -/
def queryNonMetricTweetBatch (minSeq maxItems : ℕ) (db : CollectorsDb T) :
    Option (ℕ × List (TweetRow T)) :=
  let rows := page TweetRow.seq minSeq maxItems db.tweetRows
  rows.getLast?.map fun last => (last.seq, rows.filter TweetRow.complete)

/-- The greatest committed sequence number; the numbers begin at 1. -/
def queryMaxSeq (db : CollectorsDb T) : ℕ := (db.twitterTweetSamples.map TweetSample.seq).foldr max 0

end CollectorsDb

/-- Where the forwarder's thread is, with the variables it goes on with. -/
inductive TweetForwarder (T : Type) where
  | down
  | bootstrapping (maxSeq : ℕ)
  | sleeping
  | resumed (lastForwardedSeq : ℕ)
  | queried (lastForwardedSeq : ℕ) (batch : List (TweetRow T))
  | published (lastForwardedSeq : ℕ) (batch : List (TweetRow T)) (delivered : Bool)

/-- The database, the forwarder, the batches that the broker has accepted, and the last
sequence number that was established when forwarding was deployed. -/
structure TweetForwarding (T : Type) where
  db : CollectorsDb T
  forwarder : TweetForwarder T
  accepted : List (List (TweetRow T))
  establishedSeq : Option ℕ

namespace TweetForwarding

def batchSizeLimit : ℕ := 100

inductive Action (T : Type) where
  | begin
  | insertTweet (i : ℕ) (tweet : Tweet T)
  | insertSample (i : ℕ) (metric msgUid : String) (aggTs : Option T)
  | commit (i : ℕ)
  | rollback (i : ℕ)
  | start
  | saveMaxSeq
  | forwardTweets
  | queryBatch
  | publishBatch (delivered : Bool)
  | updateLastSeq
  | crash

/-- On startup the forwarder resumes, or begins with new data. -/
def start (s : TweetForwarding T) : TweetForwarding T :=
  match s.db.lastSeq with
  | some _ => { s with forwarder := .sleeping }
  | none => { s with forwarder := .bootstrapping s.db.queryMaxSeq }

/-- The next batch is queried; without one the cycle is over. -/
def queryBatch (lastForwardedSeq : ℕ) (s : TweetForwarding T) : TweetForwarding T :=
  match s.db.queryNonMetricTweetBatch (lastForwardedSeq + 1) batchSizeLimit with
  | none => { s with forwarder := .sleeping }
  | some (lastForwardedSeq, batch) =>
    if batch = [] then { s with forwarder := .sleeping }
    else { s with forwarder := .queried lastForwardedSeq batch }

/-- A batch that is not delivered is logged only. -/
def publishNonMetricTweetBatch (lastForwardedSeq : ℕ) (batch : List (TweetRow T))
    (delivered : Bool) (s : TweetForwarding T) : TweetForwarding T :=
  { s with
    forwarder := .published lastForwardedSeq batch delivered
    accepted := if delivered then s.accepted ++ [batch] else s.accepted }

def act [DecidableEq T] (a : Action T) (s : TweetForwarding T) : Option (TweetForwarding T) :=
  match a with
  | .begin => some { s with db := s.db.begin }
  | .insertTweet i tweet => (s.db.insertTweet i tweet).map fun db => { s with db := db }
  | .insertSample i metric msgUid aggTs =>
    (s.db.insertSample i metric msgUid aggTs).map fun db => { s with db := db }
  | .commit i => (s.db.commit i).map fun db => { s with db := db }
  | .rollback i => some { s with db := s.db.rollback i }
  | .start => match s.forwarder with
    | .down => some s.start
    | _ => none
  | .saveMaxSeq => match s.forwarder with
    | .bootstrapping maxSeq => some { s with
        db := { s.db with lastSeq := some maxSeq }
        forwarder := .sleeping
        establishedSeq := some maxSeq }
    | _ => none
  | .forwardTweets => match s.forwarder with
    | .sleeping => some { s with forwarder := match s.db.lastSeq with
        | some lastForwardedSeq => .resumed lastForwardedSeq
        | none => .down }
    | _ => none
  | .queryBatch => match s.forwarder with
    | .resumed lastForwardedSeq => some (s.queryBatch lastForwardedSeq)
    | _ => none
  | .publishBatch delivered => match s.forwarder with
    | .queried lastForwardedSeq batch =>
      some (s.publishNonMetricTweetBatch lastForwardedSeq batch delivered)
    | _ => none
  | .updateLastSeq => match s.forwarder with
    | .published lastForwardedSeq _ _ => some { s with
        db := { s.db with lastSeq := some lastForwardedSeq }
        forwarder := .resumed lastForwardedSeq }
    | _ => none
  | .crash => some { s with forwarder := .down }

/-- An empty database, before the forwarder is deployed. -/
def initial : TweetForwarding T where
  db := ⟨[], [], [], 1, none⟩
  forwarder := .down
  accepted := []
  establishedSeq := none

def system (T : Type) [DecidableEq T] : System (TweetForwarding T) (Action T) where
  init s := s = initial
  next := act

/-- The row was in a batch that the broker accepted. -/
def Forwarded (s : TweetForwarding T) (row : TweetRow T) : Prop :=
  ∃ batch ∈ s.accepted, row ∈ batch

/-- Every complete row after the one established and up to the one tracked was in an
accepted batch. -/
def NoRowLost (s : TweetForwarding T) : Prop :=
  ∀ established ∈ s.establishedSeq, ∀ last ∈ s.db.lastSeq, ∀ row ∈ s.db.tweetRows,
    row.complete → established < row.seq → row.seq ≤ last → s.Forwarded row

/-- A transaction does not commit complete rows behind the tracked sequence number, and
when that is updated the batch was accepted, or its rows had been before, and no
complete row was committed in its range since it was read. -/
def NoRowMissed (s : TweetForwarding T) : Action T → Prop
  | .commit i => ∀ established ∈ s.establishedSeq, ∀ last ∈ s.db.lastSeq,
      ∀ tx ∈ s.db.openTransactions[i]?, ∀ row ∈ s.db.rowsOf tx,
        row.complete → established < row.seq → last < row.seq
  | .updateLastSeq => match s.forwarder with
    | .published lastForwardedSeq batch delivered =>
      (delivered = true ∨ ∀ row ∈ batch, s.Forwarded row) ∧
      ∀ last ∈ s.db.lastSeq, ∀ row ∈ s.db.tweetRows, row.complete → last < row.seq →
        row.seq ≤ lastForwardedSeq → row ∈ batch
    | _ => True
  | _ => True

end TweetForwarding
end NumentaApps.TwitterDirect
