import NumentaApps.OpenTransactions
import NumentaApps.TweetForwarder

/-!
# When tweet forwarding loses no row

The tracked number is ordered by insertion and the rows become visible by commit, and
the tracked number goes on after a publish that failed. A run loses no row exactly if
no step of it is one of these.
-/
namespace NumentaApps.TwitterDirect
open TransitionSystem KeysetPage OpenTransactions

variable {T : Type}

namespace CollectorsDb

/-! ## The database -/

/-- The sequence numbers of the committed samples and of those in open transactions. -/
def allSeqs (db : CollectorsDb T) : List ℕ :=
  db.twitterTweetSamples.map TweetSample.seq ++
    db.openTransactions.flatMap fun tx => tx.twitterTweetSamples.map TweetSample.seq

/-- Sequence numbers are distinct and used up, and every sample has its tweet. -/
structure Inv (db : CollectorsDb T) : Prop where
  nodup : db.allSeqs.Nodup
  lt : ∀ n ∈ db.allSeqs, n < db.nextSeq
  tweets : ∀ sample ∈ db.twitterTweetSamples,
    ∃ tweet ∈ db.twitterTweets, tweet.uid = sample.msgUid
  openTweets : ∀ tx ∈ db.openTransactions, ∀ sample ∈ tx.twitterTweetSamples,
    ∃ tweet ∈ db.twitterTweets ++ tx.twitterTweets, tweet.uid = sample.msgUid

variable {db db' : CollectorsDb T} {i : ℕ} {tx : TweetTransaction T}

@[simp] theorem joinRow_seq {tweets : List (Tweet T)} {sample : TweetSample T} {row : TweetRow T}
    (h : joinRow tweets sample = some row) : row.seq = sample.seq := by
  obtain ⟨tweet, -, rfl⟩ := Option.map_eq_some_iff.mp h
  rfl

theorem seq_mem_of_join {tweets : List (Tweet T)} {samples : List (TweetSample T)}
    {row : TweetRow T} (h : row ∈ samples.filterMap (joinRow tweets)) :
    row.seq ∈ samples.map TweetSample.seq := by
  obtain ⟨sample, hsample, hrow⟩ := List.mem_filterMap.mp h
  exact joinRow_seq hrow ▸ List.mem_map_of_mem hsample

theorem join_seqs_sublist (tweets : List (Tweet T)) (samples : List (TweetSample T)) :
    ((samples.filterMap (joinRow tweets)).map TweetRow.seq).Sublist
      (samples.map TweetSample.seq) := by
  induction samples with
  | nil => exact .slnil
  | cons sample samples ih =>
    cases hrow : joinRow tweets sample with
    | none =>
      rw [List.filterMap_cons_none hrow, List.map_cons]
      exact ih.cons _
    | some row =>
      rw [List.filterMap_cons_some hrow, List.map_cons, List.map_cons, joinRow_seq hrow]
      exact ih.cons_cons _

/-- A sample that has its tweet is joined the same when tweets are added. -/
theorem joinRow_append {tweets : List (Tweet T)} {sample : TweetSample T}
    (h : ∃ tweet ∈ tweets, tweet.uid = sample.msgUid) (more : List (Tweet T)) :
    joinRow (tweets ++ more) sample = joinRow tweets sample := by
  have hfind : (tweets.find? fun tweet => tweet.uid = sample.msgUid).isSome := by
    obtain ⟨tweet, htweet, huid⟩ := h
    exact List.find?_isSome.mpr ⟨tweet, htweet, by simpa using huid⟩
  rw [joinRow, joinRow, List.find?_append]
  obtain ⟨tweet, htweet⟩ := Option.isSome_iff_exists.mp hfind
  rw [htweet]
  rfl

theorem tweetRows_seqs_nodup (h : db.Inv) : (db.tweetRows.map TweetRow.seq).Nodup := by
  apply (join_seqs_sublist _ _).nodup
  exact (List.nodup_append.mp h.nodup).1

theorem allSeqs_eraseIdx (hi : db.openTransactions[i]? = some tx) :
    db.allSeqs.Perm (tx.twitterTweetSamples.map TweetSample.seq ++
      allSeqs { db with openTransactions := db.openTransactions.eraseIdx i }) := by
  rw [allSeqs, allSeqs, ← List.append_assoc]
  refine (keys_perm_commit _ _ hi).trans ?_
  exact List.perm_append_comm.append_right _

theorem allSeqs_set (hi : db.openTransactions[i]? = some tx) (tx' : TweetTransaction T) :
    (allSeqs { db with openTransactions := db.openTransactions.set i tx' }).Perm
      (tx'.twitterTweetSamples.map TweetSample.seq ++
        allSeqs { db with openTransactions := db.openTransactions.eraseIdx i }) := by
  rw [allSeqs, allSeqs, ← List.append_assoc]
  refine ((keys_set_perm _ hi tx').append_left _).trans ?_
  rw [← List.append_assoc]
  exact List.perm_append_comm.append_right _

theorem Inv.begin (h : db.Inv) : db.begin.Inv := by
  have hseqs : db.begin.allSeqs = db.allSeqs := by simp [allSeqs, CollectorsDb.begin]
  refine ⟨hseqs ▸ h.nodup, hseqs ▸ h.lt, h.tweets, ?_⟩
  intro tx htx sample hsample
  rcases List.mem_append.mp htx with htx | htx
  · exact h.openTweets tx htx sample hsample
  · obtain rfl := List.mem_singleton.mp htx
    cases hsample

theorem Inv.rollback (h : db.Inv) (i : ℕ) : (db.rollback i).Inv := by
  have hsub : (db.rollback i).allSeqs.Sublist db.allSeqs := keys_sublist_rollback _ _ i
  refine ⟨hsub.nodup h.nodup, fun n hn => h.lt n (hsub.subset hn), h.tweets, ?_⟩
  exact fun tx htx => h.openTweets tx (List.mem_of_mem_eraseIdx htx)

theorem mem_set_cases {txs : List (TweetTransaction T)} {tx tx' : TweetTransaction T}
    (h : tx ∈ txs.set i tx') : tx = tx' ∨ tx ∈ txs := (List.mem_or_eq_of_mem_set h).symm

/-- An insert of a tweet changes nothing but the open transactions. -/
theorem Inv.insertTweet {tweet : Tweet T} (h : db.Inv)
    (ht : db.insertTweet i tweet = some db') :
    db'.Inv ∧ ∃ txs, db' = { db with openTransactions := txs } := by
  unfold CollectorsDb.insertTweet at ht
  split at ht
  · cases ht
  rename_i tx hi
  split at ht
  · cases ht
  split at ht
  · cases ht
    exact ⟨h, _, rfl⟩
  · cases ht
    refine ⟨?_, _, rfl⟩
    have hperm := (allSeqs_set hi { tx with twitterTweets := tx.twitterTweets ++ [tweet] }).trans
      (allSeqs_eraseIdx hi).symm
    refine ⟨hperm.nodup_iff.mpr h.nodup, fun n hn => h.lt n (hperm.mem_iff.mp hn), h.tweets, ?_⟩
    intro tx' htx' sample hsample
    rcases mem_set_cases htx' with rfl | htx'
    · obtain ⟨tweet', htweet', huid⟩ :=
        h.openTweets tx (List.mem_of_getElem? hi) sample hsample
      refine ⟨tweet', ?_, huid⟩
      rw [← List.append_assoc]
      exact List.mem_append_left _ htweet'
    · exact h.openTweets tx' htx' sample hsample

/-- An insert of a sample uses up a sequence number, and changes nothing else but the
open transactions. -/
theorem Inv.insertSample {metric msgUid : String} {aggTs : Option T} (h : db.Inv)
    (ht : db.insertSample i metric msgUid aggTs = some db') :
    db'.Inv ∧ ∃ txs n, db' = { db with openTransactions := txs, nextSeq := n } := by
  unfold CollectorsDb.insertSample at ht
  split at ht
  · cases ht
  rename_i tx hi
  split at ht
  · cases ht
  split at ht
  · cases ht
    refine ⟨⟨h.nodup, fun n hn => ?_, h.tweets, h.openTweets⟩, _, _, rfl⟩
    exact Nat.lt_succ_of_lt (h.lt n hn)
  · rename_i hnew
    cases ht
    refine ⟨?_, _, _, rfl⟩
    have htweet : ∃ tweet ∈ db.twitterTweets ++ tx.twitterTweets, tweet.uid = msgUid := by
      simp only [Bool.or_eq_true, not_or, Bool.not_eq_true, Bool.not_eq_false',
        List.any_eq_true, decide_eq_true_eq] at hnew
      exact hnew.2
    have hperm : (allSeqs { db with
        nextSeq := db.nextSeq + 1
        openTransactions := db.openTransactions.set i { tx with
          twitterTweetSamples := tx.twitterTweetSamples ++ [⟨db.nextSeq, metric, msgUid, aggTs⟩] }
        }).Perm (db.nextSeq :: db.allSeqs) := by
      refine (allSeqs_set hi _).trans ?_
      simp only [List.map_append, List.map_cons, List.map_nil]
      refine List.Perm.trans ?_ ((allSeqs_eraseIdx hi).symm.cons _)
      rw [← List.cons_append]
      exact (List.perm_append_singleton _ _).append_right _
    refine ⟨?_, ?_, h.tweets, ?_⟩
    · rw [hperm.nodup_iff, List.nodup_cons]
      exact ⟨fun hin => Nat.lt_irrefl _ (h.lt _ hin), h.nodup⟩
    · intro n hn
      rcases List.mem_cons.mp (hperm.mem_iff.mp hn) with rfl | hn
      · exact Nat.lt_succ_self _
      · exact Nat.lt_succ_of_lt (h.lt n hn)
    · intro tx' htx' sample hsample
      rcases mem_set_cases htx' with rfl | htx'
      · rcases List.mem_append.mp hsample with hsample | hsample
        · exact h.openTweets tx (List.mem_of_getElem? hi) sample hsample
        · obtain rfl := List.mem_singleton.mp hsample
          exact htweet
      · exact h.openTweets tx' htx' sample hsample

/-- A commit adds the rows of its transaction, with new sequence numbers. -/
theorem Inv.commit (h : db.Inv) (ht : db.commit i = some db') :
    ∃ tx, db.openTransactions[i]? = some tx ∧ db'.Inv ∧ db'.lastSeq = db.lastSeq ∧
      db'.tweetRows = db.tweetRows ++ db.rowsOf tx ∧
      ∀ row ∈ db.rowsOf tx, row ∉ db.tweetRows := by
  obtain ⟨tx, hi, rfl⟩ := Option.map_eq_some_iff.mp ht
  have hmem := List.mem_of_getElem? hi
  have hperm := allSeqs_eraseIdx hi
  have hseqs : db.allSeqs.Perm (allSeqs { db with
      twitterTweets := db.twitterTweets ++ tx.twitterTweets
      twitterTweetSamples := db.twitterTweetSamples ++ tx.twitterTweetSamples
      openTransactions := db.openTransactions.eraseIdx i }) := by
    refine hperm.trans ?_
    simp only [allSeqs, List.map_append, ← List.append_assoc]
    exact List.perm_append_comm.append_right _
  refine ⟨tx, hi, ⟨hseqs.nodup_iff.mp h.nodup, ?_, ?_, ?_⟩, rfl, ?_, ?_⟩
  · exact fun n hn => h.lt n (hseqs.mem_iff.mpr hn)
  · intro sample hsample
    rcases List.mem_append.mp hsample with hsample | hsample
    · obtain ⟨tweet, htweet, huid⟩ := h.tweets sample hsample
      exact ⟨tweet, List.mem_append_left _ htweet, huid⟩
    · exact h.openTweets tx hmem sample hsample
  · intro tx' htx' sample hsample
    obtain ⟨tweet, htweet, huid⟩ :=
      h.openTweets tx' (List.mem_of_mem_eraseIdx htx') sample hsample
    refine ⟨tweet, ?_, huid⟩
    rcases List.mem_append.mp htweet with htweet | htweet
    · exact List.mem_append_left _ (List.mem_append_left _ htweet)
    · exact List.mem_append_right _ htweet
  · rw [tweetRows, tweetRows, rowsOf, List.filterMap_append]
    congr 1
    apply List.filterMap_congr
    intro sample hsample
    exact joinRow_append (h.tweets sample hsample) _
  · intro row hrow hold
    have hnew := seq_mem_of_join hrow
    have hcommitted := seq_mem_of_join hold
    have hnd := hperm.nodup_iff.mp h.nodup
    exact List.disjoint_of_nodup_append hnd hnew (List.mem_append_left _ hcommitted)

/-- What a batch read from the database has: complete rows up to its number, all of them
that are there. -/
theorem queryNonMetricTweetBatch_spec (h : db.Inv) {minSeq maxItems lastSeq : ℕ}
    {batch : List (TweetRow T)}
    (hq : db.queryNonMetricTweetBatch minSeq maxItems = some (lastSeq, batch)) :
    (∀ row ∈ batch, row ∈ db.tweetRows ∧ row.complete = true ∧ minSeq ≤ row.seq ∧
        row.seq ≤ lastSeq) ∧
      ∀ row ∈ db.tweetRows, row.complete → minSeq ≤ row.seq → row.seq ≤ lastSeq →
        row ∈ batch := by
  obtain ⟨last, hlast, heq⟩ := Option.map_eq_some_iff.mp hq
  cases heq
  constructor
  · intro row hrow
    obtain ⟨hpage, hcomplete⟩ := List.mem_filter.mp hrow
    obtain ⟨hmem, hmin⟩ := page_mem hpage
    exact ⟨hmem, hcomplete, hmin, page_le_last hlast hpage⟩
  · intro row hrow hcomplete hmin hle
    refine List.mem_filter.mpr ⟨?_, hcomplete⟩
    exact mem_page_of_le_last (tweetRows_seqs_nodup h) hlast hrow hmin hle

end CollectorsDb

namespace TweetForwarding

/-! ## The forwarder -/

/-- A batch as it was read after the number `last` and up to `lastForwardedSeq`. -/
structure BatchRead (s : TweetForwarding T) (last lastForwardedSeq : ℕ)
    (batch : List (TweetRow T)) : Prop where
  tracked : s.db.lastSeq = some last
  le : last ≤ lastForwardedSeq
  rows : ∀ row ∈ batch, row ∈ s.db.tweetRows ∧ row.complete = true ∧ last < row.seq ∧
    row.seq ≤ lastForwardedSeq
  forwarded : ∀ row, s.Forwarded row → last < row.seq → row.seq ≤ lastForwardedSeq → row ∈ batch

/-- What the forwarder's thread knows. -/
def Knows (s : TweetForwarding T) : TweetForwarder T → Prop
  | .down | .bootstrapping _ | .sleeping => True
  | .resumed lastForwardedSeq => s.db.lastSeq = some lastForwardedSeq
  | .queried lastForwardedSeq batch => ∃ last, s.BatchRead last lastForwardedSeq batch
  | .published lastForwardedSeq batch delivered =>
    ∃ last, s.BatchRead last lastForwardedSeq batch ∧ (delivered = true → batch ∈ s.accepted)

structure Inv (s : TweetForwarding T) : Prop where
  db : s.db.Inv
  established : ∀ e ∈ s.establishedSeq, ∃ last ∈ s.db.lastSeq, e ≤ last
  deployed : ∀ last ∈ s.db.lastSeq, ∃ e, s.establishedSeq = some e
  accepted : ∀ row, s.Forwarded row → row ∈ s.db.tweetRows ∧ row.complete = true
  forwarder : s.Knows s.forwarder

instance [DecidableEq T] (s : TweetForwarding T) (row : TweetRow T) : Decidable (s.Forwarded row) :=
  inferInstanceAs (Decidable (∃ batch ∈ s.accepted, row ∈ batch))

instance [DecidableEq T] (s : TweetForwarding T) :
    (a : Action T) → Decidable (s.NoRowMissed a)
  | .commit i => inferInstanceAs (Decidable (∀ established ∈ s.establishedSeq,
      ∀ last ∈ s.db.lastSeq, ∀ tx ∈ s.db.openTransactions[i]?, ∀ row ∈ s.db.rowsOf tx,
        row.complete → established < row.seq → last < row.seq))
  | .updateLastSeq => by
    unfold NoRowMissed
    cases s.forwarder with
    | published l batch delivered => exact inferInstanceAs (Decidable (_ ∧ ∀ last ∈ s.db.lastSeq,
        ∀ row ∈ s.db.tweetRows, row.complete → last < row.seq → row.seq ≤ l → row ∈ batch))
    | down | bootstrapping maxSeq | sleeping | resumed l | queried l batch =>
      exact inferInstanceAs (Decidable True)
  | .begin | .insertTweet _ _ | .insertSample _ _ _ _ | .rollback _ | .start | .saveMaxSeq
  | .forwardTweets | .queryBatch | .publishBatch _ | .crash => inferInstanceAs (Decidable True)

variable {s t : TweetForwarding T} {last lastForwardedSeq : ℕ} {batch : List (TweetRow T)}

theorem BatchRead.setDb {db : CollectorsDb T} (h : s.BatchRead last lastForwardedSeq batch)
    (hlast : db.lastSeq = s.db.lastSeq) (hrows : ∀ row ∈ s.db.tweetRows, row ∈ db.tweetRows) :
    BatchRead { s with db := db } last lastForwardedSeq batch where
  tracked := hlast.trans h.tracked
  le := h.le
  rows row hrow := ⟨hrows row (h.rows row hrow).1, (h.rows row hrow).2⟩
  forwarded := h.forwarded

/-- The storers keep what the forwarder knows. -/
theorem Knows.setDb {db : CollectorsDb T} {f : TweetForwarder T} (h : s.Knows f)
    (hlast : db.lastSeq = s.db.lastSeq) (hrows : ∀ row ∈ s.db.tweetRows, row ∈ db.tweetRows) :
    Knows { s with db := db } f := by
  cases f with
  | down => trivial
  | bootstrapping maxSeq => trivial
  | sleeping => trivial
  | resumed l => exact hlast.trans h
  | queried l batch =>
    obtain ⟨last, hb⟩ := h
    exact ⟨last, hb.setDb hlast hrows⟩
  | published l batch delivered =>
    obtain ⟨last, hb, hd⟩ := h
    exact ⟨last, hb.setDb hlast hrows, hd⟩

theorem Inv.setDb {db : CollectorsDb T} (h : s.Inv) (hdb : db.Inv)
    (hlast : db.lastSeq = s.db.lastSeq) (hrows : ∀ row ∈ s.db.tweetRows, row ∈ db.tweetRows) :
    Inv { s with db := db } where
  db := hdb
  established e he := by
    simp only [hlast]
    exact h.established e he
  deployed last hl := h.deployed last (hlast ▸ hl)
  accepted row hrow := ⟨hrows row (h.accepted row hrow).1, (h.accepted row hrow).2⟩
  forwarder := h.forwarder.setDb hlast hrows

theorem Inv.setForwarder (h : s.Inv) {f : TweetForwarder T} (hf : s.Knows f) :
    Inv { s with forwarder := f } := by
  refine ⟨h.db, h.established, h.deployed, h.accepted, ?_⟩
  cases f with
  | down => trivial
  | bootstrapping maxSeq => trivial
  | sleeping => trivial
  | resumed l => exact hf
  | queried l batch =>
    obtain ⟨last, hb⟩ := hf
    exact ⟨last, hb.tracked, hb.le, hb.rows, hb.forwarded⟩
  | published l batch delivered =>
    obtain ⟨last, hb, hd⟩ := hf
    exact ⟨last, ⟨hb.tracked, hb.le, hb.rows, hb.forwarded⟩, hd⟩

/-- A batch that is read has every complete row of its range. -/
theorem Inv.queryBatch (h : s.Inv) (hlast : s.db.lastSeq = some last) :
    (s.queryBatch last).Inv := by
  unfold TweetForwarding.queryBatch
  split
  · exact h.setForwarder trivial
  · rename_i l batch hq
    split
    · exact h.setForwarder trivial
    · rename_i hne
      obtain ⟨hrows, hall⟩ := CollectorsDb.queryNonMetricTweetBatch_spec h.db hq
      obtain ⟨row, hrow⟩ := List.exists_mem_of_ne_nil batch hne
      have hle := (hrows row hrow).2.2
      refine h.setForwarder ⟨last, hlast, by omega, ?_, ?_⟩
      · intro row hrow
        obtain ⟨hmem, hcomplete, hmin, hmax⟩ := hrows row hrow
        exact ⟨hmem, hcomplete, by omega, hmax⟩
      · intro row hforwarded hgt hle
        obtain ⟨hmem, hcomplete⟩ := h.accepted row hforwarded
        exact hall row hmem hcomplete (by omega) hle

theorem Forwarded.publish (delivered : Bool) {row : TweetRow T}
    (h : (s.publishNonMetricTweetBatch lastForwardedSeq batch delivered).Forwarded row) :
    s.Forwarded row ∨ row ∈ batch := by
  obtain ⟨b, hb, hrow⟩ := h
  cases delivered with
  | false => exact .inl ⟨b, hb, hrow⟩
  | true =>
    rcases List.mem_append.mp hb with hb | hb
    · exact .inl ⟨b, hb, hrow⟩
    · exact .inr (List.mem_singleton.mp hb ▸ hrow)

theorem Inv.publishBatch (h : s.Inv) (hb : s.BatchRead last lastForwardedSeq batch)
    (delivered : Bool) :
    (s.publishNonMetricTweetBatch lastForwardedSeq batch delivered).Inv := by
  refine ⟨h.db, h.established, h.deployed, ?_, last, ⟨hb.tracked, hb.le, hb.rows, ?_⟩, ?_⟩
  · intro row hrow
    rcases Forwarded.publish delivered hrow with hrow | hrow
    · exact h.accepted row hrow
    · exact ⟨(hb.rows row hrow).1, (hb.rows row hrow).2.1⟩
  · intro row hrow hgt hle
    rcases Forwarded.publish delivered hrow with hrow | hrow
    · exact hb.forwarded row hrow hgt hle
    · exact hrow
  · rintro rfl
    exact List.mem_append_right _ (List.mem_singleton_self _)

theorem inv_initial : (initial : TweetForwarding T).Inv := by
  refine ⟨⟨.nil, ?_, ?_, ?_⟩, ?_, ?_, ?_, trivial⟩
  · intro n hn
    cases hn
  · intro sample hsample
    cases hsample
  · intro tx htx
    cases htx
  · intro e he
    cases he
  · intro last hl
    cases hl
  · rintro row ⟨batch, hbatch, -⟩
    cases hbatch

variable [DecidableEq T]

/-- The inserts and rollbacks of the storers change neither the committed rows nor the
tracked number. -/
theorem Inv.insert {a : Action T} (h : s.Inv) (hn : act a s = some t)
    (ha : a = .begin ∨ (∃ i tweet, a = .insertTweet i tweet) ∨
      (∃ i metric msgUid aggTs, a = .insertSample i metric msgUid aggTs) ∨ ∃ i, a = .rollback i) :
    t.Inv ∧ ∃ db, t = { s with db := db } ∧ db.lastSeq = s.db.lastSeq ∧
      db.tweetRows = s.db.tweetRows := by
  rcases ha with rfl | ⟨i, tweet, rfl⟩ | ⟨i, metric, msgUid, aggTs, rfl⟩ | ⟨i, rfl⟩
  · cases hn
    exact ⟨h.setDb h.db.begin rfl fun _ hrow => hrow, _, rfl, rfl, rfl⟩
  · obtain ⟨db, hdb, rfl⟩ := Option.map_eq_some_iff.mp hn
    obtain ⟨hinv, txs, rfl⟩ := h.db.insertTweet hdb
    exact ⟨h.setDb hinv rfl fun _ hrow => hrow, _, rfl, rfl, rfl⟩
  · obtain ⟨db, hdb, rfl⟩ := Option.map_eq_some_iff.mp hn
    obtain ⟨hinv, txs, n, rfl⟩ := h.db.insertSample hdb
    exact ⟨h.setDb hinv rfl fun _ hrow => hrow, _, rfl, rfl, rfl⟩
  · cases hn
    exact ⟨h.setDb (h.db.rollback i) rfl fun _ hrow => hrow, _, rfl, rfl, rfl⟩

/-- What a step may do to the rows, the tracked number and the accepted batches: only a
commit and an update of the number can lose a row. -/
inductive Moves (s t : TweetForwarding T) : Action T → Prop where
  | keeps (a : Action T) (hc : ∀ i, a ≠ .commit i) (hu : a ≠ .updateLastSeq)
      (hrows : t.db.tweetRows = s.db.tweetRows)
      (hlast : t.db.lastSeq = s.db.lastSeq) (he : t.establishedSeq = s.establishedSeq)
      (hforwarded : ∀ row, s.Forwarded row → t.Forwarded row) : Moves s t a
  | establishes (hlast : t.db.lastSeq = t.establishedSeq) : Moves s t .saveMaxSeq
  | commits (i : ℕ) (db : CollectorsDb T) (hdb : s.db.commit i = some db)
      (ht : t = { s with db := db }) : Moves s t (.commit i)
  | updates (last lastForwardedSeq : ℕ) (batch : List (TweetRow T)) (delivered : Bool)
      (hf : s.forwarder = .published lastForwardedSeq batch delivered)
      (hb : s.BatchRead last lastForwardedSeq batch)
      (hd : delivered = true → batch ∈ s.accepted)
      (ht : t = { s with
        db := { s.db with lastSeq := some lastForwardedSeq }
        forwarder := .resumed lastForwardedSeq }) : Moves s t .updateLastSeq

/-- Every step keeps the invariant, and is one of those moves. -/
theorem Inv.act {a : Action T} (h : s.Inv) (hn : act a s = some t) : t.Inv ∧ Moves s t a := by
  cases a with
  | begin =>
    obtain ⟨hinv, db, rfl, hlast, hrows⟩ := h.insert hn (.inl rfl)
    exact ⟨hinv, .keeps _ (by simp) (by simp) hrows hlast rfl fun _ hrow => hrow⟩
  | insertTweet i tweet =>
    obtain ⟨hinv, db, rfl, hlast, hrows⟩ := h.insert hn (.inr (.inl ⟨i, tweet, rfl⟩))
    exact ⟨hinv, .keeps _ (by simp) (by simp) hrows hlast rfl fun _ hrow => hrow⟩
  | insertSample i metric msgUid aggTs =>
    obtain ⟨hinv, db, rfl, hlast, hrows⟩ :=
      h.insert hn (.inr (.inr (.inl ⟨i, metric, msgUid, aggTs, rfl⟩)))
    exact ⟨hinv, .keeps _ (by simp) (by simp) hrows hlast rfl fun _ hrow => hrow⟩
  | rollback i =>
    obtain ⟨hinv, db, rfl, hlast, hrows⟩ := h.insert hn (.inr (.inr (.inr ⟨i, rfl⟩)))
    exact ⟨hinv, .keeps _ (by simp) (by simp) hrows hlast rfl fun _ hrow => hrow⟩
  | commit i =>
    obtain ⟨db, hdb, rfl⟩ := Option.map_eq_some_iff.mp hn
    obtain ⟨tx, -, hinv, hlast, hrows, -⟩ := h.db.commit hdb
    refine ⟨h.setDb hinv hlast fun row hrow => ?_, .commits i db hdb rfl⟩
    rw [hrows]
    exact List.mem_append_left _ hrow
  | start =>
    simp only [TweetForwarding.act] at hn
    split at hn
    · cases hn
      unfold TweetForwarding.start
      split
      · exact ⟨h.setForwarder trivial, .keeps _ (by simp) (by simp) rfl rfl rfl fun _ hrow => hrow⟩
      · exact ⟨h.setForwarder trivial, .keeps _ (by simp) (by simp) rfl rfl rfl fun _ hrow => hrow⟩
    · cases hn
  | saveMaxSeq =>
    simp only [TweetForwarding.act] at hn
    split at hn
    · rename_i maxSeq hf
      cases hn
      refine ⟨⟨⟨h.db.nodup, h.db.lt, h.db.tweets, h.db.openTweets⟩, ?_, fun _ _ => ⟨_, rfl⟩,
        h.accepted, trivial⟩, .establishes rfl⟩
      intro e he
      exact ⟨e, he, Nat.le_refl e⟩
    · cases hn
  | forwardTweets =>
    simp only [TweetForwarding.act] at hn
    split at hn
    · cases hn
      refine ⟨h.setForwarder ?_, .keeps _ (by simp) (by simp) rfl rfl rfl fun _ hrow => hrow⟩
      split
      · assumption
      · trivial
    · cases hn
  | queryBatch =>
    simp only [TweetForwarding.act] at hn
    split at hn
    · rename_i l hf
      cases hn
      have hk := h.forwarder
      rw [hf] at hk
      refine ⟨h.queryBatch hk, ?_⟩
      unfold TweetForwarding.queryBatch
      split
      · exact .keeps _ (by simp) (by simp) rfl rfl rfl fun _ hrow => hrow
      · split
        · exact .keeps _ (by simp) (by simp) rfl rfl rfl fun _ hrow => hrow
        · exact .keeps _ (by simp) (by simp) rfl rfl rfl fun _ hrow => hrow
    · cases hn
  | publishBatch delivered =>
    simp only [TweetForwarding.act] at hn
    split at hn
    · rename_i l batch hf
      cases hn
      have hk := h.forwarder
      rw [hf] at hk
      obtain ⟨last, hb⟩ := hk
      refine ⟨h.publishBatch hb delivered, .keeps _ (by simp) (by simp) rfl rfl rfl ?_⟩
      rintro row ⟨b, hb, hrow⟩
      refine ⟨b, ?_, hrow⟩
      cases delivered with
      | false => exact hb
      | true => exact List.mem_append_left _ hb
    · cases hn
  | updateLastSeq =>
    simp only [TweetForwarding.act] at hn
    split at hn
    · rename_i l batch delivered hf
      cases hn
      have hk := h.forwarder
      rw [hf] at hk
      obtain ⟨last, hb, hd⟩ := hk
      refine ⟨⟨⟨h.db.nodup, h.db.lt, h.db.tweets, h.db.openTweets⟩, ?_,
        fun _ _ => h.deployed last hb.tracked, h.accepted, rfl⟩,
        .updates last l batch delivered hf hb hd rfl⟩
      intro e he
      obtain ⟨last', hlast', hle⟩ := h.established e he
      obtain rfl := Option.some.inj (hlast'.symm.trans hb.tracked)
      exact ⟨l, rfl, hle.trans hb.le⟩
    · cases hn
  | crash =>
    cases hn
    exact ⟨h.setForwarder trivial, .keeps _ (by simp) (by simp) rfl rfl rfl fun _ hrow => hrow⟩

omit [DecidableEq T] in
/-- A step that misses no row loses none. -/
theorem NoRowLost.step {a : Action T} (h : s.Inv) (hP : s.NoRowLost) (hm : Moves s t a)
    (hg : s.NoRowMissed a) : t.NoRowLost := by
  intro established he last hl row hrow hcomplete hgt hle
  cases hm with
  | keeps _ _ _ hrows hlast hestablished hforwarded =>
    rw [hestablished] at he
    rw [hlast] at hl
    rw [hrows] at hrow
    exact hforwarded row (hP established he last hl row hrow hcomplete hgt hle)
  | establishes hlast =>
    obtain rfl := Option.some.inj (he.symm.trans (hlast.symm.trans hl))
    omega
  | commits i db hdb ht =>
    subst ht
    obtain ⟨tx, hi, -, hlast, hrows, -⟩ := h.db.commit hdb
    simp only [hlast] at hl
    simp only [hrows] at hrow
    rcases List.mem_append.mp hrow with hrow | hrow
    · exact hP established he last hl row hrow hcomplete hgt hle
    · have hlate := hg established he last hl tx hi row hrow hcomplete hgt
      omega
  | updates old l batch delivered hf hb hd ht =>
    subst ht
    obtain rfl := Option.some.inj hl
    simp only [NoRowMissed, hf] at hg
    obtain ⟨hdelivered, hread⟩ := hg
    by_cases hold : row.seq ≤ old
    · exact hP established he old hb.tracked row hrow hcomplete hgt hold
    · have hin := hread old hb.tracked row hrow hcomplete (by omega) hle
      rcases hdelivered with hdelivered | hdelivered
      · exact ⟨batch, hd hdelivered, hin⟩
      · exact hdelivered row hin

omit [DecidableEq T] in
/-- A step that misses a row has lost it. -/
theorem NoRowLost.missed {a : Action T} (h : s.Inv) (hm : Moves s t a)
    (hg : ¬ s.NoRowMissed a) : ¬ t.NoRowLost := by
  intro hP
  apply hg
  cases hm with
  | keeps _ hc hu _ _ _ _ =>
    cases a with
    | commit i => exact absurd rfl (hc i)
    | updateLastSeq => exact absurd rfl hu
    | _ => trivial
  | establishes hlast => trivial
  | commits i db hdb ht =>
    subst ht
    obtain ⟨tx, hi, -, hlast, hrows, hnew⟩ := h.db.commit hdb
    intro established he last hl tx' htx' row hrow hcomplete hgt
    obtain rfl := Option.some.inj (hi.symm.trans htx')
    by_contra hle
    have hforwarded := hP established he last (hlast ▸ hl) row
      (by simp only [hrows]; exact List.mem_append_right _ hrow) hcomplete hgt (by omega)
    exact hnew row hrow (h.accepted row hforwarded).1
  | updates old l batch delivered hf hb hd ht =>
    subst ht
    simp only [NoRowMissed, hf]
    obtain ⟨established, he⟩ := h.deployed old hb.tracked
    obtain ⟨old', hold', hle⟩ := h.established established he
    obtain rfl := Option.some.inj (hb.tracked.symm.trans hold')
    have hforwarded : ∀ row ∈ s.db.tweetRows, row.complete → old < row.seq → row.seq ≤ l →
        s.Forwarded row :=
      fun row hrow hcomplete hgt hmax => hP established he l rfl row hrow hcomplete (by omega) hmax
    constructor
    · refine .inr fun row hrow => ?_
      obtain ⟨hmem, hcomplete, hgt, hmax⟩ := hb.rows row hrow
      exact hforwarded row hmem hcomplete hgt hmax
    · intro last hl row hrow hcomplete hgt hmax
      obtain rfl := Option.some.inj (hb.tracked.symm.trans hl)
      exact hb.forwarded row (hforwarded row hrow hcomplete hgt hmax) hgt hmax

end TweetForwarding

/-- In a run no row is lost, in any state it passes through, if and only if no step of it
misses one. -/
theorem tweet_forwarding_loses_no_row_iff [DecidableEq T]
    {tr : List (TweetForwarding T × TweetForwarding.Action T)} {s : TweetForwarding T}
    (h : Run (TweetForwarding.system T) tr s) :
    (∀ t ∈ statesOf tr s, t.NoRowLost) ↔ ∀ p ∈ tr, p.1.NoRowMissed p.2 := by
  refine h.forall_states_iff (I := TweetForwarding.Inv) (P := TweetForwarding.NoRowLost)
    (G := TweetForwarding.NoRowMissed) ?_ ?_ ?_ ?_ ?_
  · rintro s rfl
    refine ⟨TweetForwarding.inv_initial, ?_⟩
    intro established he
    cases he
  · intro a s t hI hn
    exact (hI.act hn).1
  · intro a s t hI hP hn hg
    exact hP.step hI (hI.act hn).2 hg
  · intro a s t hI _ hn hg
    exact TweetForwarding.NoRowLost.missed hI (hI.act hn).2 hg
  · exact fun _ hP => hP

/-- A tweet that matches one metric. -/
def exampleTweet (uid : String) : Tweet ℕ := ⟨uid, some 0, none, none, none, none⟩

def exampleRow (uid : String) (seq : ℕ) : TweetRow ℕ :=
  ⟨"metric", some 0, seq, uid, some 0, none, none, none, none⟩

/-- The forwarder is deployed and publishes the sample of a committed tweet. -/
def forwardingSchedule (delivered : Bool) : List (TweetForwarding.Action ℕ) :=
  [.start, .saveMaxSeq, .begin, .insertTweet 0 (exampleTweet "a"),
    .insertSample 0 "metric" "a" (some 0), .commit 0, .forwardTweets, .queryBatch,
    .publishBatch delivered, .updateLastSeq]

/-- Of two transactions the one that inserted first commits last. -/
def lateCommitSchedule : List (TweetForwarding.Action ℕ) :=
  [.start, .saveMaxSeq, .begin, .insertTweet 0 (exampleTweet "a"),
    .insertSample 0 "metric" "a" (some 0), .begin, .insertTweet 1 (exampleTweet "b"),
    .insertSample 1 "metric" "b" (some 0), .commit 1, .forwardTweets, .queryBatch,
    .publishBatch true, .updateLastSeq, .commit 0]

theorem tweet_forwarding_loses_no_row_accepted :
    ∃ tr s, Run (TweetForwarding.system ℕ) tr s ∧ s.db.lastSeq = some 1 ∧
      ∀ t ∈ statesOf tr s, t.NoRowLost := by
  have hinit : (TweetForwarding.system ℕ).init .initial := rfl
  have hexec : ∃ s, (TweetForwarding.system ℕ).exec (forwardingSchedule true) .initial = some s ∧
      s.db.lastSeq = some 1 := ⟨_, rfl, rfl⟩
  obtain ⟨s, hs, hlast⟩ := hexec
  have hrun := (Run.init hinit).exec_trace hs
  refine ⟨_, s, hrun, hlast, (tweet_forwarding_loses_no_row_iff hrun).mpr ?_⟩
  decide

/-- A late commit loses a row although every batch is accepted, and so does a batch that
is not. -/
theorem tweet_forwarding_loses_rows :
    (∃ s, (TweetForwarding.system ℕ).exec lateCommitSchedule .initial = some s ∧
      Reachable (TweetForwarding.system ℕ) s ∧ ¬ s.NoRowLost) ∧
    ∃ s, (TweetForwarding.system ℕ).exec (forwardingSchedule false) .initial = some s ∧
      Reachable (TweetForwarding.system ℕ) s ∧ ¬ s.NoRowLost := by
  have hinit : (TweetForwarding.system ℕ).init .initial := rfl
  have hlost : ∀ (s : TweetForwarding ℕ) (last : ℕ) (row : TweetRow ℕ),
      s.establishedSeq = some 0 → s.db.lastSeq = some last → row ∈ s.db.tweetRows →
      row.complete ∧ 0 < row.seq ∧ row.seq ≤ last → ¬ s.Forwarded row → ¬ s.NoRowLost := by
    rintro s last row he hl hrow ⟨hcomplete, hpos, hle⟩ hnot hP
    exact hnot (hP 0 he last hl row hrow hcomplete hpos hle)
  constructor
  · have hexec : ∃ s, (TweetForwarding.system ℕ).exec lateCommitSchedule .initial = some s ∧
        s.establishedSeq = some 0 ∧ s.db.lastSeq = some 2 ∧
        s.db.tweetRows = [exampleRow "b" 2, exampleRow "a" 1] ∧
        s.accepted = [[exampleRow "b" 2]] := ⟨_, rfl, rfl, rfl, rfl, rfl⟩
    obtain ⟨s, hs, he, hl, hrows, haccepted⟩ := hexec
    refine ⟨s, hs, Reachable.exec (.init hinit) hs,
      hlost s 2 (exampleRow "a" 1) he hl (by simp [hrows]) (by decide) ?_⟩
    rintro ⟨batch, hbatch, hrow⟩
    rw [haccepted, List.mem_singleton] at hbatch
    subst hbatch
    revert hrow
    decide
  · have hexec : ∃ s, (TweetForwarding.system ℕ).exec (forwardingSchedule false) .initial = some s ∧
        s.establishedSeq = some 0 ∧ s.db.lastSeq = some 1 ∧
        s.db.tweetRows = [exampleRow "a" 1] ∧ s.accepted = [] := ⟨_, rfl, rfl, rfl, rfl, rfl⟩
    obtain ⟨s, hs, he, hl, hrows, haccepted⟩ := hexec
    refine ⟨s, hs, Reachable.exec (.init hinit) hs,
      hlost s 1 (exampleRow "a" 1) he hl (by simp [hrows]) (by decide) ?_⟩
    rintro ⟨batch, hbatch, -⟩
    rw [haccepted] at hbatch
    cases hbatch

end NumentaApps.TwitterDirect
