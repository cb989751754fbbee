import NumentaApps.TweetForwarder
import Mathlib.Data.List.Perm.Subperm

/-!
# Tweet deletion

The storers save deletion notices in transactions of their own, apart from the tweets
they are about and in either order. The deletion service purges the tweets that have a
notice in batches, then removes the notices that have expired, in batches too.
-/
namespace NumentaApps.TwitterDirect
open TransitionSystem

/-- A row of the table of deletion requests; its time is that of the insert. -/
structure DeletionNotice where
  tweetUid : String
  userid : String
  createdAt : ℤ
  deriving DecidableEq, Repr

/-- A delete message of the stream; some come without a status. -/
structure DeleteMessage where
  status : Option (String × String)

/-- Where an iteration of the service is, with the rows that its transaction selected. -/
inductive DeletionService where
  | sleeping
  | purgingTweets
  | tweetsSelected (uids : List String)
  | purgingRecords
  | recordsSelected (uids : List String)

/-- The collectors' database with the notices, committed and not, and the service. The last
three say what has happened: the notices removed, when the stored tweets were committed, and
the tweets and notices committed since tweets were last selected for purging. -/
structure TweetDeletion (T : Type) where
  clock : ℤ
  db : CollectorsDb T
  twitterDeletion : List DeletionNotice
  openDeletions : List (List DeletionNotice)
  service : DeletionService
  removedNotices : List DeletionNotice
  committedAt : String → ℤ
  committedSincePurge : List String

variable {T : Type}

/-- "DELETE" of tweets and of their samples; a sample that an open transaction is adding
to one of them is waited for. -/
def CollectorsDb.deleteTweets (uids : List String) (db : CollectorsDb T) :
    Option (CollectorsDb T) :=
  if db.openTransactions.any fun tx =>
      tx.twitterTweetSamples.any fun sample => sample.msgUid ∈ uids then none
  else some { db with
    twitterTweets := db.twitterTweets.filter fun tweet => tweet.uid ∉ uids
    twitterTweetSamples := db.twitterTweetSamples.filter fun sample => sample.msgUid ∉ uids }

/-- A query with a limit returns that many of the rows, or all; which is up to the database. -/
def Selects (limit : ℕ) (rows selected : List String) : Prop :=
  selected.Subperm rows ∧ selected.length = min limit rows.length

instance (limit : ℕ) (rows selected : List String) : Decidable (Selects limit rows selected) :=
  inferInstanceAs (Decidable (_ ∧ _))

namespace TweetDeletion

def deletionRowExpiryDays : ℤ := 1

def expirySec : ℤ := deletionRowExpiryDays * 24 * 60 * 60

def tweetDeletionLimit : ℕ := 100

def deletionRowPurgeLimit : ℕ := 100

inductive Action (T : Type) where
  | tick (seconds : ℕ)
  | begin
  | insertTweet (i : ℕ) (tweet : Tweet T)
  | insertSample (i : ℕ) (metric msgUid : String) (aggTs : Option T)
  | commit (i : ℕ)
  | rollback (i : ℕ)
  | saveTweetDeletionRequests (messages : List DeleteMessage)
  | commitDeletions (i : ℕ)
  | rollbackDeletions (i : ℕ)
  | process
  | selectTweets (uids : List String)
  | deleteTweets (acknowledged : Bool)
  | selectStaleRecords (uids : List String)
  | deleteStaleRecords (acknowledged : Bool)
  | retry
  | exit

/-- "INSERT IGNORE" of a notice. -/
def addNotice (stored added : List DeletionNotice) (notice : DeletionNotice) :
    List DeletionNotice :=
  if (stored ++ added).any fun other => other.tweetUid = notice.tweetUid then added
  else added ++ [notice]

/-- The notices are inserted in one transaction; a notice of another open one is waited for. -/
def saveTweetDeletionRequests (messages : List DeleteMessage) (s : TweetDeletion T) :
    Option (TweetDeletion T) :=
  let deletionRows := messages.filterMap fun msg => msg.status.map fun status =>
    { tweetUid := status.1, userid := status.2, createdAt := s.clock : DeletionNotice }
  if s.openDeletions.any fun tx => tx.any fun other =>
      deletionRows.any fun notice => other.tweetUid = notice.tweetUid then none
  else some { s with
    openDeletions := s.openDeletions ++ [deletionRows.foldl (addNotice s.twitterDeletion) []] }

def commitTweets (i : ℕ) (s : TweetDeletion T) : Option (TweetDeletion T) :=
  match s.db.openTransactions[i]? with
  | none => none
  | some tx =>
    let uids := tx.twitterTweets.map Tweet.uid
    (s.db.commit i).map fun db => { s with
      db := db
      committedAt := fun uid => if uid ∈ uids then s.clock else s.committedAt uid
      committedSincePurge := s.committedSincePurge ++ uids }

def commitDeletions (i : ℕ) (s : TweetDeletion T) : Option (TweetDeletion T) :=
  s.openDeletions[i]?.map fun tx => { s with
    twitterDeletion := s.twitterDeletion ++ tx
    openDeletions := s.openDeletions.eraseIdx i
    committedSincePurge := s.committedSincePurge ++ tx.map DeletionNotice.tweetUid }

/-- The stored tweets that are slated for deletion. -/
def rowsToDelete (s : TweetDeletion T) : List String :=
  (s.db.twitterTweets.map Tweet.uid).filter fun uid =>
    uid ∈ s.twitterDeletion.map DeletionNotice.tweetUid

/-- The tweets of the notices that have expired. -/
def staleRecords (s : TweetDeletion T) : List String :=
  (s.twitterDeletion.filter fun notice => notice.createdAt < s.clock - expirySec).map
    DeletionNotice.tweetUid

/-- After a full batch, or one whose end was not acknowledged, comes another. -/
def purgeTweets (uids : List String) (acknowledged : Bool) (s : TweetDeletion T) :
    Option (TweetDeletion T) :=
  (s.db.deleteTweets uids).map fun db => { s with
    db := db
    service := if acknowledged ∧ uids.length < tweetDeletionLimit then .purgingRecords
      else .purgingTweets }

def purgeRecords (uids : List String) (acknowledged : Bool) (s : TweetDeletion T) :
    TweetDeletion T :=
  { s with
    twitterDeletion := s.twitterDeletion.filter fun notice => notice.tweetUid ∉ uids
    removedNotices := s.removedNotices ++
      s.twitterDeletion.filter fun notice => notice.tweetUid ∈ uids
    service := if acknowledged ∧ uids.length < deletionRowPurgeLimit then .sleeping
      else .purgingRecords }

def act (a : Action T) (s : TweetDeletion T) : Option (TweetDeletion T) :=
  match a, s.service with
  | .tick seconds, _ => some { s with clock := s.clock + seconds }
  | .begin, _ => some { s with db := s.db.begin }
  | .insertTweet i tweet, _ => (s.db.insertTweet i tweet).map fun db => { s with db := db }
  | .insertSample i metric msgUid aggTs, _ =>
    (s.db.insertSample i metric msgUid aggTs).map fun db => { s with db := db }
  | .commit i, _ => s.commitTweets i
  | .rollback i, _ => some { s with db := s.db.rollback i }
  | .saveTweetDeletionRequests messages, _ => s.saveTweetDeletionRequests messages
  | .commitDeletions i, _ => s.commitDeletions i
  | .rollbackDeletions i, _ => some { s with openDeletions := s.openDeletions.eraseIdx i }
  | .process, .sleeping => some { s with service := .purgingTweets }
  | .selectTweets uids, .purgingTweets =>
    if Selects tweetDeletionLimit s.rowsToDelete uids then
      some { s with service := .tweetsSelected uids, committedSincePurge := [] }
    else none
  | .deleteTweets acknowledged, .tweetsSelected uids => s.purgeTweets uids acknowledged
  | .selectStaleRecords uids, .purgingRecords =>
    if Selects deletionRowPurgeLimit s.staleRecords uids then
      some { s with service := .recordsSelected uids }
    else none
  | .deleteStaleRecords acknowledged, .recordsSelected uids =>
    some (s.purgeRecords uids acknowledged)
  | .retry, .tweetsSelected _ => some { s with service := .purgingTweets }
  | .retry, .recordsSelected _ => some { s with service := .purgingRecords }
  | .exit, _ => some { s with service := .sleeping }
  | _, _ => none

def initial (clock : ℤ) : TweetDeletion T where
  clock := clock
  db := ⟨[], [], [], 1, none⟩
  twitterDeletion := []
  openDeletions := []
  service := .sleeping
  removedNotices := []
  committedAt := fun _ => clock
  committedSincePurge := []

def system (T : Type) : System (TweetDeletion T) (Action T) where
  init s := ∃ clock, s = initial clock
  next := act

/-- A tweet is not there without its notice, once that was removed, unless the tweet was
committed after the notice had reached the expiry age. -/
def NoticesHonoured (s : TweetDeletion T) : Prop :=
  ∀ tweet ∈ s.db.twitterTweets, ∀ notice ∈ s.removedNotices, notice.tweetUid = tweet.uid →
    (∀ other ∈ s.twitterDeletion, other.tweetUid ≠ tweet.uid) →
      notice.createdAt + expirySec ≤ s.committedAt tweet.uid

/-- When notices are removed, none of them is there with a tweet that was committed before
the expiry, if the tweet or the notice was committed since the last purging query. -/
def PurgedBeforeRemoval (s : TweetDeletion T) : Action T → Prop
  | .deleteStaleRecords _ => match s.service with
    | .recordsSelected uids => ∀ notice ∈ s.twitterDeletion, notice.tweetUid ∈ uids →
        notice.tweetUid ∈ s.committedSincePurge →
        ∀ tweet ∈ s.db.twitterTweets, tweet.uid = notice.tweetUid →
          notice.createdAt + expirySec ≤ s.committedAt tweet.uid
    | _ => True
  | _ => True

end TweetDeletion
end NumentaApps.TwitterDirect
