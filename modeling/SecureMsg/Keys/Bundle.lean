/-
# Keys.Bundle — is a fetched bundle of one piece?

A second publish replaces the bundle row and adds to the one-time prekeys; the
prekeys of the old identity stay in front of the queue and are handed out with
the new one.

A prekey is `Fresh` if its owner uploaded it and the owner's published identity
has not changed since.  `consistent_iff`: along a run, every bundle that shows a
prekey shows a fresh one iff each such fetch comes after as many others as there
were prekeys left when the identity last changed.
-/
import SecureMsg.Api.Keys
import SecureMsg.Keys.Queue

namespace SecureMsg.Keys.Bundle

open SecureMsg.Theory SecureMsg.Store SecureMsg.Repository SecureMsg.Api

set_option autoImplicit false

/-! ## Runs of key requests -/

/-- A call of the key repository. -/
def onKeys : Operation → Bool
  | .storeKeyBundle .. | .addOneTimePrekeys .. | .popOneTimePrekey .. => true
  | _ => false

inductive Step where
  | request (requesterId : UserId) (request : KeysRequest)
  /-- A committed call of another repository: accounts come and go. -/
  | elsewhere (op : Operation) (other : onKeys op = false)

def advance (db : Database) : Step → Database
  | .request requesterId request => (serveKeys db requesterId request).1
  | .elsewhere op _ => commit db op

def keyService : System Database Step := ⟨{}, advance⟩

/-- The published identity key. -/
def identityOf (db : Database) (userId : UserId) : Option Bytes :=
  (getKeyBundle db userId).map UserKeyBundle.identityPub

/-- The user whose bundle a step answers with, and the bundle. -/
def answered (db : Database) : Step → Option (UserId × KeyBundleResponse)
  | .request requesterId (.fetchBundle userId) =>
      (serveKeys db requesterId (.fetchBundle userId)).2.bundle?.map (userId, ·)
  | _ => none

/-! ## What is asked of a fetch -/

/-- The row is there because `userId` uploaded it, and the published identity of
`userId` has not changed since that request. -/
def Fresh (earlier : List Step) (userId : UserId) (row : OneTimePreKey) : Prop :=
  ∃ before request,
    let upload := before ++ [.request userId request]
    upload <+: earlier ∧ row ∉ (keyService.run before).oneTimePrekeys ∧
      row ∈ (keyService.run upload).oneTimePrekeys ∧
      ∀ later s, upload <+: later → later ++ [s] <+: earlier →
        identityOf (keyService.run (later ++ [s])) userId = identityOf (keyService.run later) userId

/-- A bundle that shows a prekey shows a fresh one, and takes it off the table. -/
def Consistent (earlier : List Step) (s : Step) : Prop :=
  ∀ userId bundle pub, answered (keyService.run earlier) s = some (userId, bundle) →
    bundle.oneTimePrekey = some pub →
    ∃ row ∈ (keyService.run earlier).oneTimePrekeys,
      row ∉ (keyService.run (earlier ++ [s])).oneTimePrekeys ∧ row.prekeyPub = pub ∧
        Fresh earlier userId row

/-! ## Counting since the identity changed -/

/-- The user whose bundle a step fetches: there is a requester and a bundle. -/
def fetches (db : Database) : Step → Option UserId
  | .request requesterId (.fetchBundle userId) =>
      if requesterId ∈ db.userIds ∧ (getKeyBundle db userId).isSome then some userId else none
  | _ => none

/-- Per user: the prekeys stored when the published identity last changed, and the
fetches since. -/
structure Count where
  stored : UserId → Nat := fun _ => 0
  fetched : UserId → Nat := fun _ => 0

def noteCount (db : Database) (s : Step) (count : Count) : Count where
  stored userId :=
    if identityOf (advance db s) userId = identityOf db userId then count.stored userId
    else countOneTimePrekeys db userId
  fetched userId :=
    if identityOf (advance db s) userId = identityOf db userId then
      if fetches db s = some userId then count.fetched userId + 1 else count.fetched userId
    else 0

def countOf (steps : List Step) : Count := keyService.observe noteCount {} steps

/-- If a step fetches a bundle and there is a prekey to show: the bundle was fetched
since the identity changed at least as often as there were prekeys left then. -/
def UsedUp (earlier : List Step) (s : Step) : Prop :=
  ∀ userId head rest, fetches (keyService.run earlier) s = some userId →
    prekeysOf (keyService.run earlier) userId = head :: rest → head.prekeyPub ≠ [] →
    (countOf earlier).stored userId ≤ (countOf earlier).fetched userId

/-! ## One step, as one user sees it -/

variable {db after : Database} {userId : UserId}

theorem getKeyBundle_upsert {bundle : UserKeyBundle} (done : storeKeyBundle db bundle = .ok after)
    (other : userId ≠ bundle.userId) : getKeyBundle after userId = getKeyBundle db userId := by
  rcases Database.upsertUserKeyBundle_ok.mp done with ⟨-, rfl⟩ | ⟨-, -, rfl⟩
  · simp only [getKeyBundle]
    induction db.userKeyBundles with
    | nil => rfl
    | cons old rest ih =>
        by_cases hit : old.userId = bundle.userId
        · simpa [List.find?_cons, hit, Ne.symm other] using ih
        · simp only [List.map_cons, List.find?_cons, hit, if_false, ih]
  · simp [getKeyBundle, List.find?_append, Ne.symm other]

theorem getKeyBundle_deleted {gone : UserId}
    (rows : after.userKeyBundles = db.userKeyBundles.filter fun row => row.userId ≠ gone)
    (other : userId ≠ gone) : getKeyBundle after userId = getKeyBundle db userId := by
  rw [getKeyBundle, getKeyBundle, rows, List.find?_filter]
  congr 1
  funext row
  by_cases mine : row.userId = userId
  · simp [mine, other]
  · simp [mine]

theorem advance_keeps {P : Database → Prop}
    (kept : ∀ before op after, perform before op = .ok after → P before → P after) (now : P db)
    (s : Step) : P (advance db s) := by
  cases s with
  | request requesterId request => exact serveKeys_keeps kept now requesterId request
  | elsewhere op other => exact commit_keeps now fun after done => kept db op after done now

theorem keyService_advance (c : Constraints db) (s : Step) : Constraints (advance db s) :=
  advance_keeps (fun _ _ _ done c => perform_constraints c done) c s

theorem keyService_constraints (steps : List Step) : Constraints (keyService.run steps) :=
  keyService.invariant (P := Constraints) sound_empty.constraints
    (fun _ s c => keyService_advance c s) steps

/-- What one step is to one user. -/
inductive ShelfStep (db : Database) (userId : UserId) (s : Step) (after : Database) : Prop where
  | kept (identity : identityOf after userId = identityOf db userId)
      (prekeys : prekeysOf after userId = prekeysOf db userId)
      (unanswered : (answered db s).map Prod.fst ≠ some userId)
  | added (request : KeysRequest) (isRequest : s = .request userId request)
      (unanswered : answered db s = none) (rows : List OneTimePreKey)
      (unstored : ∀ row ∈ rows, row ∉ db.oneTimePrekeys)
      (stored : ∀ row ∈ rows, row ∈ after.oneTimePrekeys)
      (prekeys : prekeysOf after userId = prekeysOf db userId ++ rows)
  | popped (identity : identityOf after userId = identityOf db userId)
      (bundle : KeyBundleResponse) (answer : answered db s = some (userId, bundle))
      (shown : bundle.oneTimePrekey = shownPrekey (popOneTimePrekey db userId).2)
      (left : after = (popOneTimePrekey db userId).1)
  | departed (gone : Departed after userId)

theorem identityOf_same (same : after.userKeyBundles = db.userKeyBundles) :
    identityOf after = identityOf db := by
  funext userId
  simp [identityOf, getKeyBundle, same]

theorem prekeysOf_same (same : after.oneTimePrekeys = db.oneTimePrekeys) :
    prekeysOf after = prekeysOf db := by
  funext userId
  simp [prekeysOf, same]

theorem elsewhere_shelf (c : Constraints db) {op : Operation} (other : onKeys op = false)
    (done : perform db op = .ok after) (userId : UserId) :
    ShelfStep db userId (.elsewhere op other) after := by
  have c' := perform_constraints c done
  have unanswered : (answered db (.elsewhere op other)).map Prod.fst ≠ some userId := by
    simp [answered]
  cases perform_personal c done with
  | accountDeleted gone _ exists_ deleted =>
      by_cases same : userId = gone
      · subst same
        refine .departed ⟨fun known => (deleted.userIds.mp known).2 rfl, ?_⟩
        rw [deleted.sequences]
        exact c.userId_lt exists_
      · have bundle := getKeyBundle_deleted deleted.userKeyBundles same
        refine .kept (by rw [identityOf, identityOf, bundle]) ?_ unanswered
        rw [prekeysOf_deleted c c' deleted.oneTimePrekeys, Function.update_of_ne same]
  | elsewhere _ _ _ same =>
      exact .kept (congrFun (identityOf_same same.userKeyBundles) userId)
        (congrFun (prekeysOf_same same.oneTimePrekeys) userId) unanswered
  | bundleReplaced | bundleStored | prekeysAdded | prekeyPopped => cases other
  | userCreated | accountUnknown | tokenBlocked | messageStored | messageDeleted =>
      exact .kept rfl rfl unanswered

theorem popOneTimePrekey_bundles (db : Database) (userId : UserId) :
    (popOneTimePrekey db userId).1.userKeyBundles = db.userKeyBundles := by
  obtain ⟨rows, popped⟩ := popOneTimePrekey_fst db userId
  rw [popped]

/-- Rows that are added are new, and their owner's. -/
theorem added_rows (c : Constraints db) (c' : Constraints after) {owner : UserId}
    {prekeys : List Bytes} (added : addOneTimePrekeys db owner prekeys = .ok after) :
    ∃ rows, (∀ row ∈ rows, row ∉ db.oneTimePrekeys) ∧ (∀ row ∈ rows, row ∈ after.oneTimePrekeys) ∧
      prekeysOf after = Function.update (prekeysOf db) owner (prekeysOf db owner ++ rows) := by
  obtain ⟨-, rfl⟩ := Database.insertOneTimePrekeys_ok.mp added
  refine ⟨Database.numberPrekeys owner db.sequences.oneTimePrekeys prekeys, ?_, ?_,
    prekeysOf_added c c' rfl⟩
  · intro row listed stored
    have below := c.nextOneTimePrekey row stored
    have fromHere := (Database.mem_numberPrekeys listed).2.1
    omega
  · exact fun row listed => List.mem_append_right _ listed

/-- Nobody but the requester sees an upload. -/
theorem upload_shelf (c : Constraints db) (c' : Constraints after) {requesterId : UserId}
    {prekeys : List Bytes} (added : addOneTimePrekeys db requesterId prekeys = .ok after)
    {request : KeysRequest} (unanswered : ∀ before, answered before (.request requesterId request) = none)
    {before : Database} (same : db.oneTimePrekeys = before.oneTimePrekeys)
    (identity : userId ≠ requesterId → identityOf after userId = identityOf before userId) :
    ShelfStep before userId (.request requesterId request) after := by
  obtain ⟨rows, unstored, stored, isQueue⟩ := added_rows c c' added
  rw [same] at unstored
  rw [prekeysOf_same same] at isQueue
  by_cases mine : userId = requesterId
  · subst mine
    refine .added request rfl (unanswered before) rows unstored stored ?_
    rw [isQueue, Function.update_self]
  · refine .kept (identity mine) ?_ (by simp [unanswered])
    rw [isQueue, Function.update_of_ne mine]

theorem request_shelf (c : Constraints db) (requesterId : UserId) (request : KeysRequest)
    (userId : UserId) :
    ShelfStep db userId (.request requesterId request) (serveKeys db requesterId request).1 := by
  have answers : answered db (.request requesterId request) =
      match request with
      | .fetchBundle owner => (serveKeys db requesterId request).2.bundle?.map (owner, ·)
      | _ => none := by
    cases request <;> rfl
  have c' := keyService_advance c (.request requesterId request)
  have effect := serveKeys_effect db requesterId request
  simp only [advance] at c'
  generalize serveKeys db requesterId request = served at answers c' effect ⊢
  cases effect with
  | unchanged _ response silent =>
      refine .kept rfl rfl ?_
      rw [answers]
      cases request <;> simp [silent]
  | published body stored after bundle prekeys =>
      have performed : perform db (.storeKeyBundle (body.row requesterId)) = .ok stored := bundle
      have cStored := perform_constraints c performed
      have rows : stored.oneTimePrekeys = db.oneTimePrekeys := by
        rcases Database.upsertUserKeyBundle_ok.mp bundle with ⟨-, rfl⟩ | ⟨-, -, rfl⟩ <;> rfl
      refine upload_shelf cStored c' prekeys (fun _ => rfl) rows fun other => ?_
      have bundles : after.userKeyBundles = stored.userKeyBundles := by
        obtain ⟨-, rfl⟩ := Database.insertOneTimePrekeys_ok.mp prekeys
        rfl
      rw [identityOf_same bundles, identityOf, identityOf, getKeyBundle_upsert bundle other]
  | uploaded prekeys after added =>
      refine upload_shelf c c' added (fun _ => rfl) rfl fun _ => ?_
      obtain ⟨-, rfl⟩ := Database.insertOneTimePrekeys_ok.mp added
      rfl
  | fetched owner bundle known shown =>
      have identity : identityOf (popOneTimePrekey db owner).1 = identityOf db :=
        identityOf_same (popOneTimePrekey_bundles db owner)
      by_cases mine : userId = owner
      · subst mine
        exact .popped (congrFun identity userId) bundle answers shown rfl
      · refine .kept (congrFun identity userId) ?_ ?_
        · rw [prekeysOf_popped c, Function.update_of_ne mine]
        · rw [answers]
          simpa [KeysResponse.bundle?] using Ne.symm mine

theorem shelf_step (c : Constraints db) (s : Step) (userId : UserId) :
    ShelfStep db userId s (advance db s) := by
  cases s with
  | request requesterId request => exact request_shelf c requesterId request userId
  | elsewhere op other =>
      simp only [advance]
      cases done : perform db op with
      | error e =>
          rw [commit_error done]
          exact .kept rfl rfl (by simp [answered])
      | ok after =>
          rw [commit_ok done]
          exact elsewhere_shelf c other done userId

/-! ## A step that answers with a bundle -/

theorem answered_effect {s : Step} {bundle : KeyBundleResponse}
    (answer : answered db s = some (userId, bundle)) :
    userId ∈ db.userIds ∧ bundle.oneTimePrekey = shownPrekey (popOneTimePrekey db userId).2 ∧
      advance db s = (popOneTimePrekey db userId).1 := by
  cases s with
  | elsewhere op other => cases answer
  | request requesterId request =>
      cases request with
      | publishBundle | uploadPrekeys | getPrekeyCount | lookupIdentityPubByUsername => cases answer
      | fetchBundle owner =>
          have effect := serveKeys_effect db requesterId (.fetchBundle owner)
          simp only [answered, advance] at answer ⊢
          generalize serveKeys db requesterId (.fetchBundle owner) = served at effect answer ⊢
          cases effect with
          | unchanged _ response silent => simp [silent] at answer
          | fetched _ sent known shown =>
              cases answer
              exact ⟨known, shown, rfl⟩

theorem bundle_owner (c : Constraints db) {bundle : UserKeyBundle}
    (published : getKeyBundle db userId = some bundle) : userId ∈ db.userIds := by
  have owner : bundle.userId = userId := by simpa using List.find?_some published
  rw [← owner]
  exact c.references (.userKeyBundle bundle) (List.mem_of_find?_eq_some published)
    (.user bundle.userId) List.mem_cons_self

/-- The fetches that count are those answered with a bundle. -/
theorem fetches_eq (c : Constraints db) (s : Step) :
    fetches db s = (answered db s).map Prod.fst := by
  cases s with
  | elsewhere op other => rfl
  | request requesterId request =>
      cases request with
      | publishBundle | uploadPrekeys | getPrekeyCount | lookupIdentityPubByUsername => rfl
      | fetchBundle owner =>
          simp only [fetches, answered, serveKeys, handleKeys, fetchBundle]
          cases requester : getUserById db requesterId with
          | none =>
              have unknown : requesterId ∉ db.userIds := fun known => by
                obtain ⟨user, found, -⟩ := getUserById_known known
                rw [requester] at found
                cases found
              simp [unknown, KeysResponse.bundle?]
          | some currentUser =>
              have known := (getUserById_some requester).2
              cases published : getKeyBundle db owner with
              | none => cases getUserById db owner <;> simp [KeysResponse.bundle?]
              | some bundle =>
                  obtain ⟨user, found, -⟩ := getUserById_known (bundle_owner c published)
                  simp [known, found, KeysResponse.bundle?]

/-! ## The queue splits where the identity changed -/

section Runs

variable {earlier : List Step} {s : Step} {row : OneTimePreKey}

theorem fresh_snoc (stored : row ∈ (keyService.run earlier).oneTimePrekeys) :
    Fresh (earlier ++ [s]) userId row ↔ Fresh earlier userId row ∧
      identityOf (keyService.run (earlier ++ [s])) userId =
        identityOf (keyService.run earlier) userId := by
  constructor
  · rintro ⟨before, request, upTo, unstored, uploaded, unchanged⟩
    rcases List.prefix_concat_iff.mp upTo with last | within
    · obtain ⟨rfl, -⟩ := List.append_inj' last rfl
      exact absurd stored unstored
    · refine ⟨⟨before, request, within, unstored, uploaded, fun later t since before => ?_⟩,
        unchanged earlier s within (List.prefix_refl _)⟩
      exact unchanged later t since (before.trans (List.prefix_append _ _))
  · rintro ⟨⟨before, request, within, unstored, uploaded, unchanged⟩, last⟩
    refine ⟨before, request, within.trans (List.prefix_append _ _), unstored, uploaded,
      fun later t since upTo => ?_⟩
    rcases List.prefix_concat_iff.mp upTo with same | before
    · obtain ⟨rfl, singleton⟩ := List.append_inj' same rfl
      cases singleton
      exact last
    · exact unchanged later t since before

theorem fresh_added {request : KeysRequest}
    (unstored : row ∉ (keyService.run earlier).oneTimePrekeys)
    (stored : row ∈ (keyService.run (earlier ++ [.request userId request])).oneTimePrekeys) :
    Fresh (earlier ++ [.request userId request]) userId row := by
  refine ⟨earlier, request, List.prefix_refl _, unstored, stored, fun later t since upTo => ?_⟩
  have longer := since.length_le
  have shorter := upTo.length_le
  simp only [List.length_append, List.length_singleton] at longer shorter
  omega

/-- The first `k` prekeys of a user are from before the identity changed, the
others are fresh. -/
structure SplitAt (earlier : List Step) (userId : UserId) (k : Nat) : Prop where
  enough : k ≤ (prekeysOf (keyService.run earlier) userId).length
  stale : ∀ row ∈ (prekeysOf (keyService.run earlier) userId).take k, ¬ Fresh earlier userId row
  fresh : ∀ row ∈ (prekeysOf (keyService.run earlier) userId).drop k, Fresh earlier userId row

theorem prekeysOf_stored {db : Database} (listed : row ∈ prekeysOf db userId) :
    row ∈ db.oneTimePrekeys :=
  List.mem_of_mem_filter (mem_orderBy.mp listed)

/-- A step that keeps the queue and the identity. -/
theorem SplitAt.kept {k : Nat} (split : SplitAt earlier userId k)
    (identity : identityOf (keyService.run (earlier ++ [s])) userId =
      identityOf (keyService.run earlier) userId)
    (prekeys : prekeysOf (keyService.run (earlier ++ [s])) userId =
      prekeysOf (keyService.run earlier) userId) : SplitAt (earlier ++ [s]) userId k where
  enough := prekeys ▸ split.enough
  stale := by
    rw [prekeys]
    intro row listed
    rw [fresh_snoc (prekeysOf_stored (List.mem_of_mem_take listed))]
    exact fun fresh => split.stale row listed fresh.1
  fresh := by
    rw [prekeys]
    intro row listed
    rw [fresh_snoc (prekeysOf_stored (List.mem_of_mem_drop listed))]
    exact ⟨split.fresh row listed, identity⟩

theorem mem_take_of_tail {rows : List OneTimePreKey} {k : Nat} (listed : row ∈ rows.tail.take (k - 1)) :
    row ∈ rows.take k := by
  cases k with
  | zero => simp at listed
  | succ k =>
      cases rows with
      | nil => simp at listed
      | cons head rest => exact List.mem_cons_of_mem _ listed

theorem mem_drop_of_tail {rows : List OneTimePreKey} {k : Nat} (listed : row ∈ rows.tail.drop (k - 1)) :
    row ∈ rows.drop k := by
  cases k with
  | zero => exact List.mem_of_mem_tail (List.mem_of_mem_drop listed)
  | succ k =>
      cases rows with
      | nil => simp at listed
      | cons head rest => exact listed

theorem SplitAt.popped {k : Nat} (split : SplitAt earlier userId k)
    (identity : identityOf (keyService.run (earlier ++ [s])) userId =
      identityOf (keyService.run earlier) userId)
    (prekeys : prekeysOf (keyService.run (earlier ++ [s])) userId =
      (prekeysOf (keyService.run earlier) userId).tail) :
    SplitAt (earlier ++ [s]) userId (k - 1) where
  enough := by
    have enough := split.enough
    rw [prekeys, List.length_tail]
    omega
  stale := by
    rw [prekeys]
    intro row listed
    have before := mem_take_of_tail listed
    rw [fresh_snoc (prekeysOf_stored (List.mem_of_mem_take before))]
    exact fun fresh => split.stale row before fresh.1
  fresh := by
    rw [prekeys]
    intro row listed
    have before := mem_drop_of_tail listed
    rw [fresh_snoc (prekeysOf_stored (List.mem_of_mem_drop before))]
    exact ⟨split.fresh row before, identity⟩

/-- An upload that comes with a new identity makes all there is stale. -/
theorem SplitAt.added {request : KeysRequest} {k : Nat} (split : SplitAt earlier userId k)
    {rows : List OneTimePreKey}
    (unstored : ∀ row ∈ rows, row ∉ (keyService.run earlier).oneTimePrekeys)
    (stored : ∀ row ∈ rows,
      row ∈ (keyService.run (earlier ++ [.request userId request])).oneTimePrekeys)
    (prekeys : prekeysOf (keyService.run (earlier ++ [.request userId request])) userId =
      prekeysOf (keyService.run earlier) userId ++ rows) :
    SplitAt (earlier ++ [.request userId request]) userId
      (if identityOf (keyService.run (earlier ++ [.request userId request])) userId =
          identityOf (keyService.run earlier) userId then k
        else (prekeysOf (keyService.run earlier) userId).length) := by
  have new : ∀ row ∈ rows, Fresh (earlier ++ [.request userId request]) userId row :=
    fun row listed => fresh_added (unstored row listed) (stored row listed)
  by_cases identity : identityOf (keyService.run (earlier ++ [.request userId request])) userId =
      identityOf (keyService.run earlier) userId
  · rw [if_pos identity]
    constructor
    · rw [prekeys, List.length_append]
      exact split.enough.trans (Nat.le_add_right _ _)
    · rw [prekeys, List.take_append_of_le_length split.enough]
      intro row listed
      rw [fresh_snoc (prekeysOf_stored (List.mem_of_mem_take listed))]
      exact fun fresh => split.stale row listed fresh.1
    · rw [prekeys, List.drop_append_of_le_length split.enough]
      intro row listed
      rcases List.mem_append.mp listed with old | added
      · rw [fresh_snoc (prekeysOf_stored (List.mem_of_mem_drop old))]
        exact ⟨split.fresh row old, identity⟩
      · exact new row added
  · rw [if_neg identity]
    constructor
    · rw [prekeys, List.length_append]
      exact Nat.le_add_right _ _
    · rw [prekeys, List.take_left]
      intro row listed
      rw [fresh_snoc (prekeysOf_stored listed)]
      exact fun fresh => identity fresh.2
    · rw [prekeys, List.drop_left]
      exact new

/-- The prekeys from before the identity changed that are still there. -/
def staleCount (earlier : List Step) (userId : UserId) : Nat :=
  (countOf earlier).stored userId - (countOf earlier).fetched userId

theorem splits (earlier : List Step) (userId : UserId) :
    Departed (keyService.run earlier) userId ∨ SplitAt earlier userId (staleCount earlier userId) := by
  induction earlier using List.reverseRecOn with
  | nil =>
      refine Or.inr ⟨le_refl _, ?_, ?_⟩
      · rintro row ⟨⟩
      · rintro row ⟨⟩
  | append_singleton earlier s ih =>
      have c := keyService_constraints earlier
      have counted : countOf (earlier ++ [s]) =
          noteCount (keyService.run earlier) s (countOf earlier) :=
        keyService.observe_snoc noteCount {} earlier s
      have stepped : keyService.run (earlier ++ [s]) = advance (keyService.run earlier) s :=
        keyService.run_snoc earlier s
      rcases ih with gone | split
      · left
        rw [stepped]
        have both : Constraints (advance (keyService.run earlier) s) ∧
            Departed (advance (keyService.run earlier) s) userId :=
          advance_keeps (P := fun db => Constraints db ∧ Departed db userId)
            (fun _ _ _ done now => ⟨perform_constraints now.1 done, departed_perform now.1 done now.2⟩)
            ⟨c, gone⟩ s
        exact both.2
      · have step := shelf_step c s userId
        rw [← stepped] at step
        cases step with
        | departed gone => exact Or.inl gone
        | kept identity prekeys unanswered =>
            right
            have same : staleCount (earlier ++ [s]) userId = staleCount earlier userId := by
              rw [stepped] at identity
              simp [staleCount, counted, noteCount, identity, fetches_eq c, unanswered]
            rw [same]
            exact split.kept identity prekeys
        | added request isRequest unanswered rows unstored stored prekeys =>
            right
            subst isRequest
            have recount : staleCount (earlier ++ [.request userId request]) userId =
                if identityOf (keyService.run (earlier ++ [.request userId request])) userId =
                    identityOf (keyService.run earlier) userId then staleCount earlier userId
                else (prekeysOf (keyService.run earlier) userId).length := by
              rw [stepped]
              by_cases identity : identityOf (advance (keyService.run earlier)
                  (.request userId request)) userId = identityOf (keyService.run earlier) userId
              · simp [staleCount, counted, noteCount, identity, fetches_eq c, unanswered]
              · simp [staleCount, counted, noteCount, identity, countOneTimePrekeys, prekeysOf,
                  orderBy]
            rw [recount]
            exact split.added unstored stored prekeys
        | popped identity bundle answer shown left =>
            right
            have fewer : staleCount (earlier ++ [s]) userId = staleCount earlier userId - 1 := by
              rw [stepped] at identity
              simp only [staleCount, counted, noteCount, identity, fetches_eq c, answer,
                Option.map_some, if_true]
              omega
            rw [fewer]
            refine split.popped identity ?_
            rw [left, prekeysOf_popped c, Function.update_self]

/-! ## Every fetch -/

theorem shownPrekey_some {opk : Option Bytes} {pub : Bytes} :
    shownPrekey opk = some pub ↔ opk = some pub ∧ pub ≠ [] := by
  match opk with
  | none => simp [shownPrekey]
  | some [] =>
      simp only [shownPrekey, Option.some.injEq, reduceCtorEq, false_iff, not_and, not_not]
      exact Eq.symm
  | some (byte :: rest) =>
      simp only [shownPrekey, Option.some.injEq, iff_self_and]
      rintro rfl
      simp

/-- The row a pop takes is the head of the queue. -/
theorem popped_row {db : Database} (c : Constraints db) {head : OneTimePreKey}
    {rest : List OneTimePreKey} (whole : prekeysOf db userId = head :: rest) :
    (popOneTimePrekey db userId).2 = some head.prekeyPub ∧
      ∀ row ∈ db.oneTimePrekeys,
        row ∉ (popOneTimePrekey db userId).1.oneTimePrekeys ↔ row = head := by
  have stored : head ∈ db.oneTimePrekeys := prekeysOf_stored (whole ▸ List.mem_cons_self)
  rw [popOneTimePrekey, whole, List.head?_cons]
  refine ⟨rfl, fun row inTable => ?_⟩
  simp only [Database.deleteOneTimePrekey, List.mem_filter, inTable, true_and, decide_eq_true_eq,
    not_not]
  exact ⟨fun same => c.oneTimePrekeys.unique inTable stored same, fun same => same ▸ rfl⟩

theorem consistent_step (earlier : List Step) (s : Step) :
    Consistent earlier s ↔ UsedUp earlier s := by
  have c := keyService_constraints earlier
  have stepped : keyService.run (earlier ++ [s]) = advance (keyService.run earlier) s :=
    keyService.run_snoc earlier s
  -- which fetch it is, and what it shows
  have behind : ∀ userId bundle, answered (keyService.run earlier) s = some (userId, bundle) →
      ∀ head rest, prekeysOf (keyService.run earlier) userId = head :: rest →
        (∀ row ∈ (keyService.run earlier).oneTimePrekeys,
          row ∉ (keyService.run (earlier ++ [s])).oneTimePrekeys ↔ row = head) ∧
        (Fresh earlier userId head ↔
          (countOf earlier).stored userId ≤ (countOf earlier).fetched userId) := by
    intro userId bundle answer head rest whole
    obtain ⟨known, -, left⟩ := answered_effect answer
    refine ⟨?_, ?_⟩
    · rw [stepped, left]
      exact (popped_row c whole).2
    · rw [← Nat.sub_eq_zero_iff_le]
      rcases splits earlier userId with gone | split
      · exact absurd known gone.1
      · cases isCount : (countOf earlier).stored userId - (countOf earlier).fetched userId with
        | zero =>
            refine iff_of_true (split.fresh head ?_) rfl
            simp [staleCount, isCount, whole]
        | succ k =>
            refine iff_of_false (split.stale head ?_) (Nat.succ_ne_zero k)
            simp [staleCount, isCount, whole]
  constructor
  · intro consistent userId head rest fetch whole shows
    rw [fetches_eq c, Option.map_eq_some_iff] at fetch
    obtain ⟨⟨owner, bundle⟩, answer, rfl⟩ := fetch
    obtain ⟨taken, fresh_iff⟩ := behind owner bundle answer head rest whole
    obtain ⟨-, shown, -⟩ := answered_effect answer
    rw [(popped_row c whole).1] at shown
    have isPub := shown.trans (shownPrekey_some.mpr ⟨rfl, shows⟩)
    obtain ⟨row, inTable, out, -, fresh⟩ := consistent owner bundle _ answer isPub
    rw [(taken row inTable).mp out] at fresh
    exact fresh_iff.mp fresh
  · intro usedUp userId bundle pub answer isPub
    obtain ⟨-, shown, -⟩ := answered_effect answer
    obtain ⟨popped, shows⟩ := shownPrekey_some.mp (shown.symm.trans isPub)
    cases whole : prekeysOf (keyService.run earlier) userId with
    | nil => simp [popOneTimePrekey, whole] at popped
    | cons head rest =>
        obtain ⟨taken, fresh_iff⟩ := behind userId bundle answer head rest whole
        rw [(popped_row c whole).1, Option.some.injEq] at popped
        subst popped
        have fetch : fetches (keyService.run earlier) s = some userId := by
          rw [fetches_eq c, answer]
          rfl
        have stored : head ∈ (keyService.run earlier).oneTimePrekeys :=
          prekeysOf_stored (whole ▸ List.mem_cons_self)
        exact ⟨head, stored, (taken head stored).mpr rfl, rfl,
          fresh_iff.mpr (usedUp userId head rest fetch whole shows)⟩

/-- **When fetched bundles are of one piece**: iff every fetch that shows a prekey comes
after the stale ones are used up. -/
theorem consistent_iff (steps : List Step) : EachStep Consistent steps ↔ EachStep UsedUp steps :=
  eachStep_congr fun earlier s _ => consistent_step earlier s

/-- Ada publishes with one prekey, then again with a new identity and another one. -/
def republished : List Step :=
  [.elsewhere (.createUser "ada" "5a" [1] [2]) rfl, .elsewhere (.createUser "bob" "5b" [3] [4]) rfl,
    .request 1 (.publishBundle ⟨[10], [11], [12], [[7]], [13], [14]⟩),
    .request 1 (.publishBundle ⟨[20], [21], [22], [[8]], [23], [24]⟩)]

/-- Bob gets the new identity with the prekey of the old one. -/
theorem stale_prekey_shown :
    answered (keyService.run republished) (.request 2 (.fetchBundle 1)) =
        some (1, ⟨[20], [21], [22], some [7], [23], [24]⟩) ∧
      ¬ EachStep Consistent (republished ++ [.request 2 (.fetchBundle 1)]) := by
  refine ⟨by decide, fun consistent => ?_⟩
  have last := consistent republished (.request 2 (.fetchBundle 1)) (List.prefix_refl _)
  rw [consistent_step] at last
  have whole : prekeysOf (keyService.run republished) 1 = [⟨1, 1, [7]⟩, ⟨2, 1, [8]⟩] := by
    rw [prekeysOf_eq (keyService_constraints republished)]
    decide
  have few := last 1 _ _ (by decide) whole (by decide)
  revert few
  decide

end Runs

end SecureMsg.Keys.Bundle
