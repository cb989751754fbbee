import NumentaApps.OpenTransactions
import NumentaApps.TweetDeletion

/-!
# Deletion notices are honoured

What the service knows of the stored tweets outlives the storers' commits only as far as
these are counted: a short purge leaves no tweet with a notice, but for those committed
since. A notice is removed by its age alone, so a tweet that comes in after the purge is
left without its notice.
-/
namespace NumentaApps.TwitterDirect
open TransitionSystem OpenTransactions

variable {T : Type}

/-- With a short batch the query returned every row. -/
theorem Selects.mem {limit : ℕ} {rows selected : List String} (h : Selects limit rows selected)
    (hshort : selected.length < limit) {uid : String} (huid : uid ∈ rows) : uid ∈ selected := by
  have hlen : rows.length ≤ selected.length := by
    have := h.2
    omega
  exact (h.1.perm_of_length_le hlen).mem_iff.mpr huid

namespace CollectorsDb

variable {db db' : CollectorsDb T} {i : ℕ} {uids : List String}

theorem insertTweet_twitterTweets {tweet : Tweet T} (h : db.insertTweet i tweet = some db') :
    db'.twitterTweets = db.twitterTweets := by
  unfold insertTweet at h
  split at h
  · cases h
  split at h
  · cases h
  split at h <;> cases h <;> rfl

theorem insertSample_twitterTweets {metric msgUid : String} {aggTs : Option T}
    (h : db.insertSample i metric msgUid aggTs = some db') :
    db'.twitterTweets = db.twitterTweets := by
  unfold insertSample at h
  split at h
  · cases h
  split at h
  · cases h
  split at h <;> cases h <;> rfl

theorem mem_deleteTweets {tweet : Tweet T} (h : db.deleteTweets uids = some db')
    (ht : tweet ∈ db'.twitterTweets) : tweet ∈ db.twitterTweets ∧ tweet.uid ∉ uids := by
  unfold deleteTweets at h
  split at h
  · cases h
  · cases h
    simpa using List.mem_filter.mp ht

end CollectorsDb

namespace TweetDeletion

variable {s t : TweetDeletion T} {i : ℕ} {uids : List String}

/-! ## Notices -/

/-- The tweets of the notices that are stored or about to be. -/
def noticeUids (s : TweetDeletion T) : List String :=
  s.twitterDeletion.map DeletionNotice.tweetUid ++
    s.openDeletions.flatMap (List.map DeletionNotice.tweetUid)

theorem addNotice_uids (stored added : List DeletionNotice) (notice : DeletionNotice) :
    addNotice stored added notice = added ∨
      addNotice stored added notice = added ++ [notice] ∧
        notice.tweetUid ∉ (stored ++ added).map DeletionNotice.tweetUid := by
  unfold addNotice
  split
  · exact .inl rfl
  · rename_i hnew
    refine .inr ⟨rfl, fun hmem => hnew ?_⟩
    obtain ⟨other, hother, heq⟩ := List.mem_map.mp hmem
    exact List.any_eq_true.mpr ⟨other, hother, by simpa using heq⟩

/-- The notices that an insert adds are new, and are of those it was given. -/
theorem foldl_addNotice {stored : List DeletionNotice} (rows added : List DeletionNotice)
    (hnd : ((stored ++ added).map DeletionNotice.tweetUid).Nodup) :
    ((stored ++ rows.foldl (addNotice stored) added).map DeletionNotice.tweetUid).Nodup ∧
      ∀ notice ∈ rows.foldl (addNotice stored) added, notice ∈ added ∨ notice ∈ rows := by
  induction rows generalizing added with
  | nil => exact ⟨hnd, fun notice hn => .inl hn⟩
  | cons row rows ih =>
    rcases addNotice_uids stored added row with heq | ⟨heq, hnew⟩
    · rw [List.foldl_cons, heq]
      have h := ih added hnd
      refine ⟨h.1, fun notice hn => ?_⟩
      exact (h.2 notice hn).imp id (List.mem_cons_of_mem _)
    · rw [List.foldl_cons, heq]
      have hnd' : ((stored ++ (added ++ [row])).map DeletionNotice.tweetUid).Nodup := by
        rw [← List.append_assoc, List.map_append, List.nodup_append]
        refine ⟨hnd, by simp, ?_⟩
        rintro uid huid _ hrow rfl
        simp only [List.map_cons, List.map_nil, List.mem_singleton] at hrow
        exact hnew (hrow ▸ huid)
      have h := ih (added ++ [row]) hnd'
      refine ⟨h.1, fun notice hn => ?_⟩
      rcases h.2 notice hn with hn | hn
      · rcases List.mem_append.mp hn with hn | hn
        · exact .inl hn
        · exact .inr (List.mem_singleton.mp hn ▸ List.mem_cons_self)
      · exact .inr (List.mem_cons_of_mem _ hn)

/-- A save adds a transaction whose notices keep the tweets of all notices distinct. -/
theorem saveTweetDeletionRequests_spec {messages : List DeleteMessage}
    (h : s.saveTweetDeletionRequests messages = some t) (hnd : s.noticeUids.Nodup) :
    ∃ tx, t = { s with openDeletions := s.openDeletions ++ [tx] } ∧ t.noticeUids.Nodup := by
  unfold saveTweetDeletionRequests at h
  dsimp only at h
  split at h
  · cases h
  rename_i hfree
  cases h
  refine ⟨_, rfl, ?_⟩
  generalize hrows : (messages.filterMap fun msg => msg.status.map fun status =>
    { tweetUid := status.1, userid := status.2, createdAt := s.clock : DeletionNotice }) = rows
  rw [hrows] at hfree
  have hstored : ((s.twitterDeletion ++ []).map DeletionNotice.tweetUid).Nodup := by
    rw [List.append_nil]
    exact (List.nodup_append.mp hnd).1
  obtain ⟨hadded, hgiven⟩ := foldl_addNotice rows [] hstored
  simp only [noticeUids, List.flatMap_append, List.flatMap_singleton]
  rw [List.map_append] at hadded
  have hadd := List.nodup_append.mp hadded
  rw [← List.append_assoc, List.nodup_append]
  refine ⟨hnd, hadd.2.1, ?_⟩
  rintro uid huid _ hnew rfl
  rcases List.mem_append.mp huid with huid | huid
  · exact hadd.2.2 uid huid uid hnew rfl
  · -- A notice of another open transaction would have been waited for.
    obtain ⟨tx, htx, hother⟩ := List.mem_flatMap.mp huid
    obtain ⟨other, hin, rfl⟩ := List.mem_map.mp hother
    obtain ⟨notice, hnotice, heq⟩ := List.mem_map.mp hnew
    have hrow := (hgiven notice hnotice).resolve_left List.not_mem_nil
    refine hfree (List.any_eq_true.mpr ⟨tx, htx, List.any_eq_true.mpr ⟨other, hin, ?_⟩⟩)
    exact List.any_eq_true.mpr ⟨notice, hrow, by simpa using heq.symm⟩

/-! ## What the service knows -/

/-- A stored tweet that has a notice is among those selected, or one of the two was
committed since. -/
def PurgedUpTo (s : TweetDeletion T) (uids : List String) : Prop :=
  ∀ tweet ∈ s.db.twitterTweets, ∀ notice ∈ s.twitterDeletion, notice.tweetUid = tweet.uid →
    tweet.uid ∈ uids ∨ tweet.uid ∈ s.committedSincePurge

/-- The notices selected are stored and have expired. -/
structure Stale (s : TweetDeletion T) (uids : List String) : Prop where
  stored : ∀ uid ∈ uids, uid ∈ s.twitterDeletion.map DeletionNotice.tweetUid
  expired : ∀ notice ∈ s.twitterDeletion, notice.tweetUid ∈ uids →
    notice.createdAt + expirySec ≤ s.clock

def Knows (s : TweetDeletion T) : DeletionService → Prop
  | .sleeping | .purgingTweets => True
  | .tweetsSelected uids => uids.length < tweetDeletionLimit → s.PurgedUpTo uids
  | .purgingRecords => s.PurgedUpTo []
  | .recordsSelected uids => s.PurgedUpTo [] ∧ s.Stale uids

structure Inv (s : TweetDeletion T) : Prop where
  uids : s.noticeUids.Nodup
  removed : ∀ notice ∈ s.removedNotices, notice.createdAt + expirySec ≤ s.clock
  service : s.Knows s.service

/-- A property of the stored tweets and notices is one of what the service knows. -/
theorem Knows.mono {f : DeletionService} (h : s.Knows f)
    (hpurged : ∀ uids, s.PurgedUpTo uids → t.PurgedUpTo uids)
    (hstale : ∀ uids, s.Stale uids → t.Stale uids) : t.Knows f := by
  cases f with
  | sleeping => trivial
  | purgingTweets => trivial
  | tweetsSelected uids => exact fun hshort => hpurged uids (h hshort)
  | purgingRecords => exact hpurged [] h
  | recordsSelected uids => exact ⟨hpurged [] h.1, hstale uids h.2⟩

theorem Stale.mono (h : s.Stale uids) (hclock : s.clock ≤ t.clock)
    (hrecords : t.twitterDeletion = s.twitterDeletion) : t.Stale uids where
  stored := hrecords ▸ h.stored
  expired notice hn huid := (h.expired notice (hrecords ▸ hn) huid).trans hclock

theorem Inv.tick (h : s.Inv) (seconds : ℕ) : Inv { s with clock := s.clock + seconds } := by
  have hclock : s.clock ≤ s.clock + seconds := by omega
  refine ⟨h.uids, fun notice hn => (h.removed notice hn).trans hclock, ?_⟩
  exact h.service.mono (fun _ hp => hp) fun _ hs => hs.mono hclock rfl

/-- A change of the database that leaves the tweets as they are, or takes some away. -/
theorem Inv.setDb {db : CollectorsDb T} (h : s.Inv)
    (hdb : ∀ tweet ∈ db.twitterTweets, tweet ∈ s.db.twitterTweets) : Inv { s with db := db } where
  uids := h.uids
  removed := h.removed
  service := h.service.mono (fun _ hp tweet ht => hp tweet (hdb tweet ht)) fun _ hs =>
    hs.mono le_rfl rfl

theorem commitTweets_spec (h : s.commitTweets i = some t) :
    ∃ tx, s.db.openTransactions[i]? = some tx ∧ t = { s with
      db := { s.db with
        twitterTweets := s.db.twitterTweets ++ tx.twitterTweets
        twitterTweetSamples := s.db.twitterTweetSamples ++ tx.twitterTweetSamples
        openTransactions := s.db.openTransactions.eraseIdx i }
      committedAt := fun uid =>
        if uid ∈ tx.twitterTweets.map Tweet.uid then s.clock else s.committedAt uid
      committedSincePurge := s.committedSincePurge ++ tx.twitterTweets.map Tweet.uid } := by
  unfold commitTweets at h
  split at h
  · cases h
  · rename_i tx htx
    simp only [CollectorsDb.commit, htx, Option.map_some, Option.some.injEq] at h
    exact ⟨tx, htx, h.symm⟩

theorem Inv.commitTweets (h : s.Inv) (ht : s.commitTweets i = some t) : t.Inv := by
  obtain ⟨tx, -, rfl⟩ := commitTweets_spec ht
  refine ⟨h.uids, h.removed, h.service.mono ?_ fun _ hs => hs.mono le_rfl rfl⟩
  intro uids hp tweet htweet notice hn heq
  rcases List.mem_append.mp htweet with htweet | htweet
  · exact (hp tweet htweet notice hn heq).imp id (List.mem_append_left _)
  · exact .inr (List.mem_append_right _ (List.mem_map_of_mem htweet))

theorem Inv.commitDeletions (h : s.Inv) (ht : s.commitDeletions i = some t) : t.Inv := by
  obtain ⟨tx, hi, rfl⟩ := Option.map_eq_some_iff.mp ht
  have hperm := keys_perm_commit (List.map DeletionNotice.tweetUid)
    (s.twitterDeletion.map DeletionNotice.tweetUid) hi
  have hnd := hperm.nodup_iff.mp h.uids
  refine ⟨?_, h.removed, h.service.mono ?_ ?_⟩
  · simpa only [noticeUids, List.map_append] using hnd
  · intro uids hp tweet htweet notice hn heq
    rcases List.mem_append.mp hn with hn | hn
    · exact (hp tweet htweet notice hn heq).imp id (List.mem_append_left _)
    · exact .inr (List.mem_append_right _ (heq ▸ List.mem_map_of_mem hn))
  · intro uids hs
    constructor
    · intro uid huid
      rw [List.map_append]
      exact List.mem_append_left _ (hs.stored uid huid)
    · intro notice hn huid
      rcases List.mem_append.mp hn with hn | hn
      · exact hs.expired notice hn huid
      · -- The notices that were selected are stored, and no other has their tweets.
        have hdisj := List.nodup_append.mp (List.nodup_append.mp hnd).1
        exact absurd rfl (hdisj.2.2 _ (hs.stored _ huid) _ (List.mem_map_of_mem hn))

theorem Inv.rollbackDeletions (h : s.Inv) (i : ℕ) :
    Inv { s with openDeletions := s.openDeletions.eraseIdx i } where
  uids := (keys_sublist_rollback _ _ i).nodup h.uids
  removed := h.removed
  service := h.service.mono (fun _ hp => hp) fun _ hs => hs.mono le_rfl rfl

theorem Inv.saveTweetDeletionRequests {messages : List DeleteMessage} (h : s.Inv)
    (ht : s.saveTweetDeletionRequests messages = some t) : t.Inv := by
  obtain ⟨tx, rfl, hnd⟩ := saveTweetDeletionRequests_spec ht h.uids
  exact ⟨hnd, h.removed, h.service.mono (fun _ hp => hp) fun _ hs => hs.mono le_rfl rfl⟩

/-- A short batch has every tweet that has a notice. -/
theorem Inv.selectTweets (h : s.Inv) (hsel : Selects tweetDeletionLimit s.rowsToDelete uids) :
    Inv { s with service := .tweetsSelected uids, committedSincePurge := [] } where
  uids := h.uids
  removed := h.removed
  service := by
    intro hshort tweet htweet notice hn heq
    refine .inl (hsel.mem hshort (List.mem_filter.mpr ⟨List.mem_map_of_mem htweet, ?_⟩))
    exact decide_eq_true (heq ▸ List.mem_map_of_mem hn)

theorem Inv.purgeTweets {acknowledged : Bool} (h : s.Inv)
    (hs : s.service = .tweetsSelected uids) (ht : s.purgeTweets uids acknowledged = some t) :
    t.Inv := by
  obtain ⟨db, hdb, rfl⟩ := Option.map_eq_some_iff.mp ht
  have hknows : s.Knows (.tweetsSelected uids) := hs ▸ h.service
  refine ⟨h.uids, h.removed, ?_⟩
  dsimp only
  split
  · rename_i hshort
    intro tweet htweet notice hn heq
    obtain ⟨hmem, hkept⟩ := CollectorsDb.mem_deleteTweets hdb htweet
    exact .inr ((hknows hshort.2 tweet hmem notice hn heq).resolve_left hkept)
  · trivial

theorem Inv.selectStaleRecords (h : s.Inv) (hs : s.service = .purgingRecords)
    (hsel : Selects deletionRowPurgeLimit s.staleRecords uids) :
    Inv { s with service := .recordsSelected uids } := by
  have hknows : s.Knows .purgingRecords := hs ▸ h.service
  have hstale : ∀ uid ∈ uids, ∃ notice ∈ s.twitterDeletion,
      notice.createdAt < s.clock - expirySec ∧ notice.tweetUid = uid := by
    intro uid huid
    obtain ⟨notice, hn, heq⟩ := List.mem_map.mp (hsel.1.subset huid)
    obtain ⟨hn, hold⟩ := List.mem_filter.mp hn
    exact ⟨notice, hn, by simpa using hold, heq⟩
  refine ⟨h.uids, h.removed, hknows, ?_, ?_⟩
  · intro uid huid
    obtain ⟨notice, hn, -, rfl⟩ := hstale uid huid
    exact List.mem_map_of_mem hn
  · intro notice hn huid
    obtain ⟨other, hother, hold, heq⟩ := hstale _ huid
    obtain rfl := List.inj_on_of_nodup_map (List.nodup_append.mp h.uids).1 hother hn heq
    show other.createdAt + expirySec ≤ s.clock
    omega

theorem Inv.purgeRecords {acknowledged : Bool} (h : s.Inv)
    (hs : s.service = .recordsSelected uids) : (s.purgeRecords uids acknowledged).Inv := by
  have hknows : s.Knows (.recordsSelected uids) := hs ▸ h.service
  refine ⟨?_, ?_, ?_⟩
  · exact ((List.filter_sublist.map _).append (.refl _)).nodup h.uids
  · intro notice hn
    rcases List.mem_append.mp hn with hn | hn
    · exact h.removed notice hn
    · obtain ⟨hn, huid⟩ := List.mem_filter.mp hn
      exact hknows.2.expired notice hn (of_decide_eq_true huid)
  · simp only [TweetDeletion.purgeRecords]
    split
    · trivial
    · exact fun tweet ht notice hn => hknows.1 tweet ht notice (List.mem_of_mem_filter hn)

/-! ## Runs -/

theorem inv_initial (clock : ℤ) : (initial (T := T) clock).Inv where
  uids := List.nodup_nil
  removed _ hn := by cases hn
  service := trivial

theorem Inv.act {a : Action T} (h : s.Inv) (hn : act a s = some t) : t.Inv := by
  unfold TweetDeletion.act at hn
  split at hn
  · cases hn
    exact h.tick _
  · cases hn
    exact h.setDb fun _ ht => ht
  · obtain ⟨db, hdb, rfl⟩ := Option.map_eq_some_iff.mp hn
    exact h.setDb fun _ ht => CollectorsDb.insertTweet_twitterTweets hdb ▸ ht
  · obtain ⟨db, hdb, rfl⟩ := Option.map_eq_some_iff.mp hn
    exact h.setDb fun _ ht => CollectorsDb.insertSample_twitterTweets hdb ▸ ht
  · exact h.commitTweets hn
  · cases hn
    exact h.setDb fun _ ht => ht
  · exact h.saveTweetDeletionRequests hn
  · exact h.commitDeletions hn
  · cases hn
    exact h.rollbackDeletions _
  · cases hn
    exact { h with service := trivial }
  · split at hn
    · rename_i hsel
      cases hn
      exact h.selectTweets hsel
    · cases hn
  · rename_i hs
    exact h.purgeTweets hs hn
  · rename_i hs
    split at hn
    · rename_i hsel
      cases hn
      exact h.selectStaleRecords hs hsel
    · cases hn
  · rename_i hs
    cases hn
    exact h.purgeRecords hs
  · cases hn
    exact { h with service := trivial }
  · rename_i hs
    cases hn
    have hknows : s.Knows (.recordsSelected _) := hs ▸ h.service
    exact { h with service := hknows.1 }
  · cases hn
    exact { h with service := trivial }
  · cases hn

instance (s : TweetDeletion T) : (a : Action T) → Decidable (s.PurgedBeforeRemoval a)
  | .deleteStaleRecords _ => by
    unfold PurgedBeforeRemoval
    cases s.service with
    | recordsSelected uids => exact inferInstanceAs (Decidable (∀ notice ∈ s.twitterDeletion,
        notice.tweetUid ∈ uids → notice.tweetUid ∈ s.committedSincePurge →
        ∀ tweet ∈ s.db.twitterTweets, tweet.uid = notice.tweetUid →
          notice.createdAt + expirySec ≤ s.committedAt tweet.uid))
    | sleeping | purgingTweets | tweetsSelected uids | purgingRecords =>
      exact inferInstanceAs (Decidable True)
  | .tick _ | .begin | .insertTweet _ _ | .insertSample _ _ _ _ | .commit _ | .rollback _
  | .saveTweetDeletionRequests _ | .commitDeletions _ | .rollbackDeletions _ | .process
  | .selectTweets _ | .deleteTweets _ | .selectStaleRecords _ | .retry | .exit =>
    inferInstanceAs (Decidable True)

/-- No tweet committed before the expiry of a notice is there once the notice was removed,
whether or not another notice has come since. -/
def NoTweetLeft (s : TweetDeletion T) : Prop :=
  ∀ tweet ∈ s.db.twitterTweets, ∀ notice ∈ s.removedNotices, notice.tweetUid = tweet.uid →
    notice.createdAt + expirySec ≤ s.committedAt tweet.uid

theorem NoTweetLeft.mono (h : s.NoTweetLeft)
    (htweets : ∀ tweet ∈ t.db.twitterTweets, tweet ∈ s.db.twitterTweets)
    (hremoved : t.removedNotices = s.removedNotices) (hat : t.committedAt = s.committedAt) :
    t.NoTweetLeft := by
  intro tweet htweet notice hn heq
  rw [hat]
  rw [hremoved] at hn
  exact h tweet (htweets tweet htweet) notice hn heq

theorem NoTweetLeft.commitTweets (hI : s.Inv) (h : s.NoTweetLeft)
    (ht : s.commitTweets i = some t) : t.NoTweetLeft := by
  obtain ⟨tx, -, rfl⟩ := commitTweets_spec ht
  intro tweet htweet notice hn heq
  dsimp only
  split
  · exact hI.removed notice hn
  · rename_i hnew
    rcases List.mem_append.mp htweet with htweet | htweet
    · exact h tweet htweet notice hn heq
    · exact absurd (List.mem_map_of_mem htweet) hnew

theorem NoTweetLeft.purgeRecords {acknowledged : Bool} (hI : s.Inv) (h : s.NoTweetLeft)
    (hs : s.service = .recordsSelected uids)
    (hg : s.PurgedBeforeRemoval (.deleteStaleRecords acknowledged)) :
    (s.purgeRecords uids acknowledged).NoTweetLeft := by
  have hknows : s.Knows (.recordsSelected uids) := hs ▸ hI.service
  simp only [PurgedBeforeRemoval, hs] at hg
  intro tweet htweet notice hn heq
  rcases List.mem_append.mp hn with hn | hn
  · exact h tweet htweet notice hn heq
  · obtain ⟨hn, huid⟩ := List.mem_filter.mp hn
    have hsince := (hknows.1 tweet htweet notice hn heq).resolve_left List.not_mem_nil
    exact hg notice hn (of_decide_eq_true huid) (heq ▸ hsince) tweet htweet heq.symm

/-- A step that meets the condition leaves no tweet without its notice. -/
theorem NoTweetLeft.act {a : Action T} (hI : s.Inv) (h : s.NoTweetLeft)
    (hn : act a s = some t) (hg : s.PurgedBeforeRemoval a) : t.NoTweetLeft := by
  unfold TweetDeletion.act at hn
  split at hn
  · cases hn
    exact h
  · cases hn
    exact h
  · obtain ⟨db, hdb, rfl⟩ := Option.map_eq_some_iff.mp hn
    exact h.mono (fun _ ht => CollectorsDb.insertTweet_twitterTweets hdb ▸ ht) rfl rfl
  · obtain ⟨db, hdb, rfl⟩ := Option.map_eq_some_iff.mp hn
    exact h.mono (fun _ ht => CollectorsDb.insertSample_twitterTweets hdb ▸ ht) rfl rfl
  · exact h.commitTweets hI hn
  · cases hn
    exact h
  · obtain ⟨tx, rfl, -⟩ := saveTweetDeletionRequests_spec hn hI.uids
    exact h
  · obtain ⟨tx, -, rfl⟩ := Option.map_eq_some_iff.mp hn
    exact h
  · cases hn
    exact h
  · cases hn
    exact h
  · split at hn
    · cases hn
      exact h
    · cases hn
  · obtain ⟨db, hdb, rfl⟩ := Option.map_eq_some_iff.mp hn
    exact h.mono (fun _ ht => (CollectorsDb.mem_deleteTweets hdb ht).1) rfl rfl
  · split at hn
    · cases hn
      exact h
    · cases hn
  · rename_i hs
    cases hn
    exact h.purgeRecords hI hs hg
  · cases hn
    exact h
  · cases hn
    exact h
  · cases hn
    exact h
  · cases hn

/-- A removal that does not meet the condition leaves a tweet that has no notice any more. -/
theorem NoticesHonoured.missed {a : Action T} (hn : act a s = some t)
    (hg : ¬ s.PurgedBeforeRemoval a) : ¬ t.NoticesHonoured := by
  cases a with
  | deleteStaleRecords acknowledged =>
    cases hs : s.service with
    | recordsSelected uids =>
      simp only [TweetDeletion.act, hs, Option.some.injEq] at hn
      subst hn
      intro hall
      simp only [PurgedBeforeRemoval, hs] at hg
      apply hg
      intro notice hmem huid _ tweet htweet heq
      apply hall tweet htweet notice ?_ heq.symm ?_
      · exact List.mem_append_right _ (List.mem_filter.mpr ⟨hmem, decide_eq_true huid⟩)
      · intro other hother hsame
        have hkept := of_decide_eq_true (List.mem_filter.mp hother).2
        exact hkept (hsame.trans heq ▸ huid)
    | sleeping | purgingTweets | tweetsSelected uids | purgingRecords =>
      exact absurd (by simp [PurgedBeforeRemoval, hs]) hg
  | _ => exact absurd trivial hg

end TweetDeletion

/-- In a run the notices are honoured, in every state it passes through, if and only if no
removal in it overtakes the purge of a tweet. -/
theorem tweet_deletion_notices_honoured_iff {tr : List (TweetDeletion T × TweetDeletion.Action T)}
    {s : TweetDeletion T} (h : Run (TweetDeletion.system T) tr s) :
    (∀ t ∈ statesOf tr s, t.NoticesHonoured) ↔ ∀ p ∈ tr, p.1.PurgedBeforeRemoval p.2 := by
  refine h.forall_states_iff (I := TweetDeletion.Inv) (P := TweetDeletion.NoTweetLeft)
    (G := TweetDeletion.PurgedBeforeRemoval) ?_ ?_ ?_ ?_ ?_
  · intro s hinit
    obtain ⟨clock, rfl⟩ := hinit
    refine ⟨TweetDeletion.inv_initial clock, ?_⟩
    intro tweet htweet
    cases htweet
  · intro a s t hI hn
    exact hI.act hn
  · intro a s t hI hP hn hg
    exact hP.act hI hn hg
  · intro a s t _ _ hn hg
    exact TweetDeletion.NoticesHonoured.missed hn hg
  · intro s hP tweet htweet notice hn heq _
    exact hP tweet htweet notice hn heq

/-- A notice and its tweet are stored, in this order. -/
def noticeThenTweet : List (TweetDeletion.Action ℕ) :=
  [.saveTweetDeletionRequests [⟨some ("a", "user")⟩, ⟨none⟩], .commitDeletions 0, .begin,
    .insertTweet 0 ⟨"a", some 0, none, none, none, none⟩]

/-- The tweet is committed before an iteration of the service, that purges it, and another
removes the notice. -/
def honouredSchedule : List (TweetDeletion.Action ℕ) :=
  noticeThenTweet ++ [.commit 0, .process, .selectTweets ["a"], .deleteTweets true,
    .selectStaleRecords [], .deleteStaleRecords true, .tick 86401, .process, .selectTweets [],
    .deleteTweets true, .selectStaleRecords ["a"], .deleteStaleRecords true]

/-- The tweet is committed just before the expiry, after the tweets were purged, and the
notice is removed just after. -/
def overtakenSchedule : List (TweetDeletion.Action ℕ) :=
  noticeThenTweet ++ [.tick 86399, .process, .selectTweets [], .deleteTweets true, .commit 0,
    .tick 2, .selectStaleRecords ["a"], .deleteStaleRecords true]

theorem tweet_deletion_notices_honoured_purged :
    ∃ tr s, Run (TweetDeletion.system ℕ) tr s ∧ s.removedNotices = [⟨"a", "user", 0⟩] ∧
      ∀ t ∈ statesOf tr s, t.NoticesHonoured := by
  have hinit : (TweetDeletion.system ℕ).init (.initial 0) := ⟨0, rfl⟩
  have hexec : ∃ s, (TweetDeletion.system ℕ).exec honouredSchedule (.initial 0) = some s ∧
      s.removedNotices = [⟨"a", "user", 0⟩] := ⟨_, rfl, rfl⟩
  obtain ⟨s, hs, hremoved⟩ := hexec
  have hrun := (Run.init hinit).exec_trace hs
  refine ⟨_, s, hrun, hremoved, (tweet_deletion_notices_honoured_iff hrun).mpr ?_⟩
  decide

/-- The tweet was committed a second before its notice reached the expiry age, and stays. -/
theorem tweet_deletion_notice_overtaken :
    ∃ s, (TweetDeletion.system ℕ).exec overtakenSchedule (.initial 0) = some s ∧
      Reachable (TweetDeletion.system ℕ) s ∧ ¬ s.NoticesHonoured := by
  have hinit : (TweetDeletion.system ℕ).init (.initial 0) := ⟨0, rfl⟩
  have hexec : ∃ s, (TweetDeletion.system ℕ).exec overtakenSchedule (.initial 0) = some s ∧
      s.db.twitterTweets = [⟨"a", some 0, none, none, none, none⟩] ∧
      s.removedNotices = [⟨"a", "user", 0⟩] ∧ s.twitterDeletion = [] ∧
      s.committedAt "a" = 86399 := ⟨_, rfl, rfl, rfl, rfl, rfl⟩
  obtain ⟨s, hs, htweets, hremoved, hrecords, hat⟩ := hexec
  refine ⟨s, hs, Reachable.exec (.init hinit) hs, ?_⟩
  intro hall
  have hle := hall ⟨"a", some 0, none, none, none, none⟩ (by simp [htweets]) ⟨"a", "user", 0⟩
    (by simp [hremoved]) rfl (by simp [hrecords])
  rw [hat] at hle
  revert hle
  decide

end NumentaApps.TwitterDirect
