/-
# Auth.SrpLifetime — one proof check for each SRP session

Runs of `srp_init` and `srp_verify`.  The password can be guessed online only
through the library's `verify_session`, which `srp_verify` asks about a session it
has just popped: what it asks over a run is collected in `checksOf`, and a call that
asks nothing would come out the same with any library.  A session in the table was
put there by a `srp_init` of the run (`stored_storedBy`), and once it is out it stays
out, since no later `srp_init` draws its id (`gone_stays`): one check for each session,
within its lifetime (`one_check`).  A `srp_init` that raises leaves a session behind exactly if what
raises is the library's refusal of the client public value (`failed_init_iff`).

Of the clock only this is used: what a `srp_init` reads after `_purge_expired` is
not before what `_purge_expired` read.
-/
import SecureMsg.Theory.Run
import SecureMsg.Auth.SrpSession

namespace SecureMsg.Auth

open SecureMsg.Theory SecureMsg.Store

set_option autoImplicit false

/-! ## Calls and runs -/

inductive SrpCall where
  | init (reading : SrpReading) (username srpSaltHex srpVerifierHex clientPublicHex : String)
  | verify (reading : SrpReading) (sessionId clientProofHex : String)

namespace SrpCall

def reading : SrpCall → SrpReading
  | .init reading .. => reading
  | .verify reading .. => reading

/-- The session a verification names. -/
def names : SrpCall → Option String
  | .init .. => none
  | .verify _ sessionId _ => some sessionId

end SrpCall

variable {V : Type}

def callSrp (srp : SrpLib V) (sessions : Sessions V) : SrpCall → Sessions V
  | .init reading username srpSaltHex srpVerifierHex clientPublicHex =>
      (srpInit srp reading sessions username srpSaltHex srpVerifierHex clientPublicHex).1
  | .verify reading sessionId clientProofHex =>
      (srpVerify srp reading sessions sessionId clientProofHex).1

/-- The username a verification returns. -/
def returned (srp : SrpLib V) (sessions : Sessions V) : SrpCall → Option String
  | .init .. => none
  | .verify reading sessionId clientProofHex =>
      match (srpVerify srp reading sessions sessionId clientProofHex).2 with
      | .ok (username, _) => some username
      | .error _ => none

def srpSessions (srp : SrpLib V) : System (Sessions V) SrpCall := ⟨Dict.empty, callSrp srp⟩

/-- The session a call stores, under its id: texts that are not hexadecimal store none. -/
def SrpCall.opens (srp : SrpLib V) : SrpCall → Option (String × SRPSession V)
  | .init reading username srpSaltHex srpVerifierHex clientPublicHex =>
      match fromHex srpSaltHex, fromHex srpVerifierHex, fromHex clientPublicHex with
      | some salt, some verifier, some clientPublic =>
          some (reading.sessionId, ⟨username,
            srp.verifier username salt verifier clientPublic reading.secret,
            reading.readAt + srpSessionTtlSeconds⟩)
      | _, _, _ => none
  | .verify .. => none

/-- What a call asks of `verify_session`. -/
def checked (srp : SrpLib V) (sessions : Sessions V) : SrpCall → List (V × Bytes)
  | .init .. => []
  | .verify reading sessionId clientProofHex =>
      proofsChecked srp reading sessions sessionId clientProofHex

/-- What is asked under an id over a run. -/
def checksOf (srp : SrpLib V) (id : String) (calls : List SrpCall) : List (V × Bytes) :=
  (srpSessions srp).observe (fun sessions call soFar =>
    if call.names = some id then soFar ++ checked srp sessions call else soFar) [] calls

variable {srp : SrpLib V} {sessions : Sessions V} {call : SrpCall} {id : String}
  {entry : SRPSession V}

/-! ## One call -/

/-- What `srp_init` does to the table. -/
theorem callSrp_init (srp : SrpLib V) (sessions : Sessions V) (reading : SrpReading)
    (username srpSaltHex srpVerifierHex clientPublicHex : String) :
    callSrp srp sessions (.init reading username srpSaltHex srpVerifierHex clientPublicHex) =
      match SrpCall.opens srp
          (.init reading username srpSaltHex srpVerifierHex clientPublicHex) with
      | some (sessionId, session) =>
          (purgeExpired sessions reading.purgedAt).set sessionId session
      | none => purgeExpired sessions reading.purgedAt := by
  unfold callSrp srpInit SrpCall.opens
  dsimp only
  cases fromHex srpSaltHex with
  | none => rfl
  | some salt =>
      cases fromHex srpVerifierHex with
      | none => rfl
      | some verifier =>
          cases fromHex clientPublicHex with
          | none => rfl
          | some clientPublic =>
              dsimp only
              split
              · rfl
              · rfl

/-- What `srp_verify` leaves: what was not purged, without the session it names. -/
theorem callSrp_verify (reading : SrpReading) (sessionId clientProofHex : String) :
    (callSrp srp sessions (.verify reading sessionId clientProofHex)).get? id = some entry ↔
      id ≠ sessionId ∧ (purgeExpired sessions reading.purgedAt).get? id = some entry := by
  unfold callSrp srpVerify
  dsimp only
  cases found : (purgeExpired sessions reading.purgedAt).get? sessionId with
  | none =>
      rw [popSession_missing found]
      refine ⟨fun stored => ⟨?_, stored⟩, fun facts => facts.2⟩
      rintro rfl
      rw [found] at stored
      cases stored
  | some popped =>
      rw [popSession_found found, Dict.erase, Dict.get?_filter_some, decide_eq_true_iff]
      exact and_comm

/-- A session after a call was just opened, or was there, is not named and has not
expired. -/
theorem callSrp_some (stored : (callSrp srp sessions call).get? id = some entry) :
    call.opens srp = some (id, entry) ∨
      (call.names ≠ some id ∧ sessions.get? id = some entry ∧
        call.reading.purgedAt ≤ entry.expiresAt) := by
  cases call with
  | init reading username srpSaltHex srpVerifierHex clientPublicHex =>
      rw [callSrp_init] at stored
      cases opened : SrpCall.opens srp
          (.init reading username srpSaltHex srpVerifierHex clientPublicHex) with
      | none =>
          rw [opened] at stored
          exact Or.inr ⟨by simp [SrpCall.names], purgeExpired_some.mp stored⟩
      | some session =>
          rw [opened] at stored
          by_cases same : id = session.1
          · subst same
            rw [Dict.get?_set_self] at stored
            cases stored
            exact Or.inl rfl
          · rw [Dict.get?_set_of_ne _ same] at stored
            exact Or.inr ⟨by simp [SrpCall.names], purgeExpired_some.mp stored⟩
  | verify reading sessionId clientProofHex =>
      obtain ⟨other, kept⟩ := (callSrp_verify reading sessionId clientProofHex).mp stored
      refine Or.inr ⟨?_, purgeExpired_some.mp kept⟩
      rintro ⟨⟩
      exact other rfl

/-- Only an expired session goes, and the named one, or one whose id is drawn again. -/
theorem callSrp_keeps (stored : sessions.get? id = some entry)
    (notExpired : call.reading.purgedAt ≤ entry.expiresAt) (other : call.names ≠ some id)
    (fresh : ∀ session, call.opens srp ≠ some (id, session)) :
    (callSrp srp sessions call).get? id = some entry := by
  cases call with
  | init reading username srpSaltHex srpVerifierHex clientPublicHex =>
      rw [callSrp_init]
      cases opened : SrpCall.opens srp
          (.init reading username srpSaltHex srpVerifierHex clientPublicHex) with
      | none => exact purgeExpired_some.mpr ⟨stored, notExpired⟩
      | some session =>
          have different : id ≠ session.1 := by
            rintro rfl
            exact fresh session.2 opened
          rw [Dict.get?_set_of_ne _ different]
          exact purgeExpired_some.mpr ⟨stored, notExpired⟩
  | verify reading sessionId clientProofHex =>
      refine (callSrp_verify reading sessionId clientProofHex).mpr ⟨?_, ?_⟩
      · rintro rfl
        exact other rfl
      · exact purgeExpired_some.mpr ⟨stored, notExpired⟩

/-- Every way out of `srp_verify` has consumed the session. -/
theorem callSrp_named (named : call.names = some id) :
    (callSrp srp sessions call).get? id = none := by
  cases call with
  | init => cases named
  | verify reading sessionId clientProofHex =>
      cases named
      refine Option.eq_none_iff_forall_ne_some.mpr fun entry stored => ?_
      exact ((callSrp_verify _ _ _).mp stored).1 rfl

theorem opens_reading {session : SRPSession V} (opened : call.opens srp = some (id, session)) :
    session.expiresAt = call.reading.readAt + srpSessionTtlSeconds := by
  cases call with
  | verify => cases opened
  | init reading username srpSaltHex srpVerifierHex clientPublicHex =>
      unfold SrpCall.opens at opened
      dsimp only at opened
      split at opened
      · cases opened
        rfl
      · cases opened

/-- A check is of a stored session and its verifier, before it expires. -/
theorem checked_cases (srp : SrpLib V) (sessions : Sessions V) (call : SrpCall) :
    checked srp sessions call = [] ∨
      ∃ id entry clientProof, call.names = some id ∧ sessions.get? id = some entry ∧
        call.reading.readAt ≤ entry.expiresAt ∧
        checked srp sessions call = [(entry.verifier, clientProof)] := by
  cases call with
  | init => exact Or.inl rfl
  | verify reading sessionId clientProofHex =>
      rcases proofsChecked_cases srp reading sessions sessionId clientProofHex with
        nothing | ⟨entry, clientProof, facts⟩
      · exact Or.inl nothing
      · exact Or.inr ⟨sessionId, entry, clientProof, rfl, facts⟩

/-- Nothing is asked about a session that is not in the table. -/
theorem checked_gone (named : call.names = some id) (gone : sessions.get? id = none) :
    checked srp sessions call = [] := by
  rcases checked_cases srp sessions call with nothing | ⟨id', entry, clientProof, named', stored, -⟩
  · exact nothing
  · cases named.symm.trans named'
    rw [gone] at stored
    cases stored

/-! ## Runs -/

/-- The ids the run has drawn, one for each session stored. -/
def drawn (srp : SrpLib V) (calls : List SrpCall) : List String :=
  calls.filterMap fun call => (call.opens srp).map Prod.fst

/-- A call of the run stored this session under this id. -/
def StoredBy (srp : SrpLib V) (id : String) (entry : SRPSession V) : List SrpCall → Prop :=
  SomeStep fun _ call => call.opens srp = some (id, entry)

variable {calls earlier : List SrpCall}

theorem mem_drawn : id ∈ drawn srp calls ↔ ∃ entry, StoredBy srp id entry calls := by
  induction calls using List.reverseRecOn with
  | nil => simp [drawn, StoredBy, someStep_nil]
  | append_singleton calls call ih =>
      simp only [drawn, List.filterMap_append, List.mem_append] at ih ⊢
      rw [ih]
      simp [StoredBy, someStep_snoc, exists_or]

/-- What is in the table was stored by a call of the run. -/
theorem stored_storedBy (stored : ((srpSessions srp).run calls).get? id = some entry) :
    StoredBy srp id entry calls := by
  induction calls using List.reverseRecOn with
  | nil => cases stored
  | append_singleton calls call ih =>
      rw [System.run_snoc] at stored
      refine (someStep_snoc _ calls call).mpr ?_
      rcases callSrp_some stored with opened | ⟨-, before, -⟩
      · exact Or.inr opened
      · exact Or.inl (ih before)

/-- Ids being distinct, an id drawn before a call is not what the call draws. -/
theorem drawn_fresh (distinct : (drawn srp (calls ++ [call])).Nodup) (old : id ∈ drawn srp calls)
    (session : SRPSession V) : call.opens srp ≠ some (id, session) := by
  intro again
  have last : drawn srp (calls ++ [call]) = drawn srp calls ++ [id] := by
    simp [drawn, again]
  rw [last, List.nodup_append] at distinct
  exact distinct.2.2 id old id (List.mem_singleton_self id) rfl

theorem drawn_before (before : earlier <+: calls) : drawn srp earlier <+: drawn srp calls := by
  obtain ⟨later, rfl⟩ := before
  exact ⟨drawn srp later, by simp [drawn]⟩

/-- A session that was stored and is gone does not come back. -/
theorem gone_stays (distinct : (drawn srp calls).Nodup) (before : earlier <+: calls)
    (old : id ∈ drawn srp earlier) (gone : ((srpSessions srp).run earlier).get? id = none) :
    ((srpSessions srp).run calls).get? id = none := by
  induction calls using List.reverseRecOn with
  | nil => exact List.prefix_nil.mp before ▸ gone
  | append_singleton calls call ih =>
      rcases List.prefix_concat_iff.mp before with rfl | within
      · exact gone
      · have still := ih (distinct.sublist (drawn_before (List.prefix_append _ _)).sublist) within
        refine Option.eq_none_iff_forall_ne_some.mpr fun entry stored => ?_
        rw [System.run_snoc] at stored
        rcases callSrp_some stored with opened | ⟨-, stored, -⟩
        · exact drawn_fresh distinct ((drawn_before within).subset old) entry opened
        · rw [still] at stored
          cases stored

theorem returned_some {username : String} (done : returned srp sessions call = some username) :
    ∃ id entry, call.names = some id ∧ sessions.get? id = some entry ∧
      entry.username = username := by
  cases call with
  | init => cases done
  | verify reading sessionId clientProofHex =>
      unfold returned at done
      dsimp only at done
      cases result : (srpVerify srp reading sessions sessionId clientProofHex).2 with
      | error e =>
          rw [result] at done
          cases done
      | ok pair =>
          obtain ⟨name, serverProof⟩ := pair
          rw [result] at done
          cases done
          obtain ⟨entry, stored, sameName, -⟩ := srpVerify_ok result
          exact ⟨sessionId, entry, rfl, stored, sameName.symm⟩

/-! ## One check, within the lifetime -/

/-- What holds of the run. -/
structure OneCheck (srp : SrpLib V) (calls : List SrpCall) : Prop where
  once : ∀ id, (checksOf srp id calls).length ≤ 1
  inTime : ∀ earlier call question, earlier ++ [call] <+: calls →
    question ∈ checked srp ((srpSessions srp).run earlier) call →
      ∃ id before opening entry, call.names = some id ∧ before ++ [opening] <+: earlier ∧
        opening.opens srp = some (id, entry) ∧ question.1 = entry.verifier ∧
        call.reading.readAt ≤ opening.reading.readAt + srpSessionTtlSeconds
  silent : ∀ earlier reading sessionId clientProofHex (srp' : SrpLib V),
    earlier ++ [.verify reading sessionId clientProofHex] <+: calls →
    checked srp ((srpSessions srp).run earlier) (.verify reading sessionId clientProofHex) = [] →
      srpVerify srp' reading ((srpSessions srp).run earlier) sessionId clientProofHex =
        srpVerify srp reading ((srpSessions srp).run earlier) sessionId clientProofHex
  gone : ∀ earlier call id, earlier ++ [call] <+: calls → call.names = some id →
    ((srpSessions srp).run (earlier ++ [call])).get? id = none ∧
      (id ∈ drawn srp earlier → ∀ later, earlier ++ [call] <+: later → later <+: calls →
        ((srpSessions srp).run later).get? id = none)
  named : ∀ earlier call username, earlier ++ [call] <+: calls →
    returned srp ((srpSessions srp).run earlier) call = some username →
      ∃ id entry, call.names = some id ∧ StoredBy srp id entry earlier ∧ entry.username = username
  unexpired : ∀ earlier call id entry, earlier ++ [call] <+: calls →
    ((srpSessions srp).run (earlier ++ [call])).get? id = some entry →
      call.reading.purgedAt ≤ entry.expiresAt
  kept : ∀ earlier call id entry, earlier ++ [call] <+: calls →
    ((srpSessions srp).run earlier).get? id = some entry →
    call.reading.purgedAt ≤ entry.expiresAt → call.names ≠ some id →
      ((srpSessions srp).run (earlier ++ [call])).get? id = some entry

theorem checksOf_snoc (srp : SrpLib V) (id : String) (calls : List SrpCall) (call : SrpCall) :
    checksOf srp id (calls ++ [call]) =
      if call.names = some id then
        checksOf srp id calls ++ checked srp ((srpSessions srp).run calls) call
      else checksOf srp id calls :=
  System.observe_snoc _ _ _ calls call

/-- What has been asked about is out of the table, and its id is not drawn again. -/
theorem checksOf_once (distinct : (drawn srp calls).Nodup) :
    checksOf srp id calls = [] ∨
      (∃ question, checksOf srp id calls = [question]) ∧ id ∈ drawn srp calls ∧
        ((srpSessions srp).run calls).get? id = none := by
  induction calls using List.reverseRecOn with
  | nil => exact Or.inl rfl
  | append_singleton calls call ih =>
      have before : calls <+: calls ++ [call] := List.prefix_append _ _
      have drawnBefore : drawn srp calls <+: drawn srp (calls ++ [call]) := drawn_before before
      rw [checksOf_snoc]
      rcases ih (distinct.sublist drawnBefore.sublist) with none_ | ⟨one, old, gone⟩
      · rw [none_, List.nil_append]
        by_cases named : call.names = some id
        · rw [if_pos named]
          rcases checked_cases srp ((srpSessions srp).run calls) call with
            nothing | ⟨id', entry, clientProof, named', stored, -, asked⟩
          · exact Or.inl nothing
          · cases named.symm.trans named'
            refine Or.inr ⟨⟨_, asked⟩, ?_, ?_⟩
            · exact drawnBefore.subset (mem_drawn.mpr ⟨entry, stored_storedBy stored⟩)
            · rw [System.run_snoc]
              exact callSrp_named named
        · rw [if_neg named]
          exact Or.inl rfl
      · refine Or.inr ⟨?_, drawnBefore.subset old, gone_stays distinct before old gone⟩
        by_cases named : call.names = some id
        · rw [if_pos named, checked_gone named gone, List.append_nil]
          exact one
        · rw [if_neg named]
          exact one

/-- **One proof check for each session, within its lifetime.** -/
theorem one_check (srp : SrpLib V) (calls : List SrpCall)
    (clock : ∀ call ∈ calls, call.opens srp ≠ none →
      call.reading.purgedAt ≤ call.reading.readAt)
    (distinct : (drawn srp calls).Nodup) : OneCheck srp calls where
  once := by
    intro id
    have found : checksOf srp id calls = [] ∨ _ := checksOf_once distinct
    rcases found with none_ | ⟨⟨question, one⟩, -⟩
    · rw [none_]
      exact Nat.zero_le 1
    · rw [one]
      exact Nat.le_refl 1
  inTime := by
    intro earlier call question within asked
    rcases checked_cases srp ((srpSessions srp).run earlier) call with
      nothing | ⟨id, entry, clientProof, named, stored, inTime, one⟩
    · rw [nothing] at asked
      cases asked
    · obtain ⟨before, opening, isStep, opened⟩ := stored_storedBy stored
      rw [one, List.mem_singleton] at asked
      refine ⟨id, before, opening, entry, named, isStep, opened, congrArg Prod.fst asked, ?_⟩
      rw [← opens_reading opened]
      exact inTime
  silent := by
    intro earlier reading sessionId clientProofHex srp' _ nothing
    exact srpVerify_unchecked srp' nothing
  gone := by
    intro earlier call id within named
    have gone : ((srpSessions srp).run (earlier ++ [call])).get? id = none := by
      rw [System.run_snoc]
      exact callSrp_named named
    refine ⟨gone, fun old later before ends => ?_⟩
    exact gone_stays (distinct.sublist (drawn_before ends).sublist) before
      ((drawn_before (List.prefix_append _ _)).subset old) gone
  named := by
    intro earlier call username within done
    obtain ⟨id, entry, named, stored, sameName⟩ := returned_some done
    exact ⟨id, entry, named, stored_storedBy stored, sameName⟩
  unexpired := by
    intro earlier call id entry within stored
    rw [System.run_snoc] at stored
    rcases callSrp_some stored with opened | ⟨-, -, notExpired⟩
    · have listed : call ∈ calls :=
        within.subset (List.mem_append_right _ (List.mem_singleton_self _))
      have forward := clock call listed (by simp [opened])
      have lifetime : (0 : Rat) ≤ srpSessionTtlSeconds := by decide
      rw [opens_reading opened]
      calc call.reading.purgedAt
          ≤ call.reading.readAt := forward
        _ = call.reading.readAt + 0 := (Rat.add_zero _).symm
        _ ≤ call.reading.readAt + srpSessionTtlSeconds := Rat.add_le_add_left.mpr lifetime
    · exact notExpired
  kept := by
    intro earlier call id entry within stored notExpired other
    rw [System.run_snoc]
    refine callSrp_keeps stored notExpired other fun session opened => ?_
    have old := mem_drawn.mpr ⟨entry, stored_storedBy stored⟩
    exact drawn_fresh (distinct.sublist (drawn_before within).sublist) old session opened

/-- A library that accepts one proof. -/
def oneProof : SrpLib Bool :=
  ⟨fun _ _ _ _ _ => false, fun _ => some ([90], [17]),
    fun _ clientProof => if clientProof = [171] then (some [205], true) else (none, false),
    fun accepted => accepted⟩

/-- Ada opens two sessions: one proof is wrong, the other comes when its session has expired. -/
def twoSessions : List SrpCall :=
  [.init { readAt := 5, sessionId := "s1" } "ada" "5a" "0b" "0c",
    .init { purgedAt := 9, readAt := 10, sessionId := "s2" } "ada" "5a" "0b" "0c",
    .verify { purgedAt := 20, readAt := 20 } "s1" "00",
    .verify { purgedAt := 20, readAt := 21 } "s1" "ab",
    .verify { purgedAt := 130, readAt := 131 } "s2" "ab"]

theorem one_check_twoSessions : OneCheck oneProof twoSessions :=
  one_check oneProof twoSessions (by decide +kernel) (by decide +kernel)

/-! ## A failed `srp_init` -/

/-- Of the library's safety check: a client public value that is 0 modulo the group's
modulus gets no challenge, any other gets one. -/
structure SrpLib.Screens (srp : SrpLib V) (modulus : Nat) : Prop where
  challenge : ∀ username salt verifier clientPublic secret,
    srp.getChallenge (srp.verifier username salt verifier clientPublic secret) = none ↔
      bytesToNat clientPublic % modulus = 0

/-- The call is a `srp_init` and raises. -/
def InitRaises (srp : SrpLib V) (sessions : Sessions V) : SrpCall → Prop
  | .init reading username srpSaltHex srpVerifierHex clientPublicHex =>
      ∃ e, (srpInit srp reading sessions username srpSaltHex srpVerifierHex clientPublicHex).2 =
        .error e
  | .verify .. => False

/-- If it raises, the table only loses what has expired. -/
def LeavesNoSession (srp : SrpLib V) (sessions : Sessions V) (call : SrpCall) : Prop :=
  InitRaises srp sessions call →
    callSrp srp sessions call = purgeExpired sessions call.reading.purgedAt

/-- The three texts are hexadecimal and the client public value is 0 modulo the modulus. -/
def SrpCall.IsUnsafe (modulus : Nat) : SrpCall → Prop
  | .init _ _ srpSaltHex srpVerifierHex clientPublicHex =>
      fromHex srpSaltHex ≠ none ∧ fromHex srpVerifierHex ≠ none ∧
        ∃ clientPublic, fromHex clientPublicHex = some clientPublic ∧
          bytesToNat clientPublic % modulus = 0
  | .verify .. => False

/-- An equal session is stored under the drawn id already. -/
def StoredBefore (srp : SrpLib V) (sessions : Sessions V) (call : SrpCall) : Prop :=
  ∃ id session, call.opens srp = some (id, session) ∧
    (purgeExpired sessions call.reading.purgedAt).get? id = some session

section Failed

variable {modulus : Nat} {reading : SrpReading}
  {username srpSaltHex srpVerifierHex clientPublicHex : String}

theorem opens_none : SrpCall.opens srp
      (.init reading username srpSaltHex srpVerifierHex clientPublicHex) = none ↔
    fromHex srpSaltHex = none ∨ fromHex srpVerifierHex = none ∨ fromHex clientPublicHex = none := by
  unfold SrpCall.opens
  dsimp only
  cases fromHex srpSaltHex with
  | none => simp
  | some salt =>
      cases fromHex srpVerifierHex with
      | none => simp
      | some verifier =>
          cases fromHex clientPublicHex with
          | none => simp
          | some clientPublic => simp

/-- Texts that do not decode raise, and so does a missing challenge, once the session is
stored. -/
theorem initRaises_iff (screens : srp.Screens modulus) (sessions : Sessions V) (call : SrpCall)
    (stores : call.opens srp ≠ none) : InitRaises srp sessions call ↔ call.IsUnsafe modulus := by
  cases call with
  | verify => exact absurd rfl stores
  | init reading username srpSaltHex srpVerifierHex clientPublicHex =>
      rw [ne_eq, opens_none, not_or, not_or] at stores
      obtain ⟨isSalt, isVerifier, isPublic⟩ := stores
      obtain ⟨salt, isSalt⟩ := Option.ne_none_iff_exists'.mp isSalt
      obtain ⟨verifier, isVerifier⟩ := Option.ne_none_iff_exists'.mp isVerifier
      obtain ⟨clientPublic, isPublic⟩ := Option.ne_none_iff_exists'.mp isPublic
      have verdict := screens.challenge username salt verifier clientPublic reading.secret
      simp only [InitRaises, srpInit, SrpCall.IsUnsafe, isSalt, isVerifier, isPublic]
      cases challenge : srp.getChallenge
          (srp.verifier username salt verifier clientPublic reading.secret) with
      | none => simp [verdict.mp challenge]
      | some pair =>
          have safe : bytesToNat clientPublic % modulus ≠ 0 :=
            fun zero => by simp [verdict.mpr zero] at challenge
          simp [safe]

end Failed

/-- **What a failed `srp_init` leaves behind**: nothing, unless the client public value
is unsafe, which surfaces after the session is stored. -/
theorem failed_init_iff {modulus : Nat} (screens : srp.Screens modulus) (sessions : Sessions V)
    (call : SrpCall) : LeavesNoSession srp sessions call ↔
      ¬ call.IsUnsafe modulus ∨ StoredBefore srp sessions call := by
  cases call with
  | verify reading sessionId clientProofHex =>
      exact iff_of_true (fun raises => raises.elim) (Or.inl id)
  | init reading username srpSaltHex srpVerifierHex clientPublicHex =>
      rw [LeavesNoSession, callSrp_init, StoredBefore]
      cases opened : SrpCall.opens srp
          (.init reading username srpSaltHex srpVerifierHex clientPublicHex) with
      | none =>
          refine iff_of_true (fun _ => rfl) (Or.inl ?_)
          rintro ⟨isSalt, isVerifier, clientPublic, isPublic, -⟩
          rcases opens_none.mp opened with noSalt | noVerifier | noPublic
          · exact isSalt noSalt
          · exact isVerifier noVerifier
          · rw [noPublic] at isPublic
            cases isPublic
      | some stored =>
          rw [initRaises_iff screens sessions _ (by simp [opened]), imp_iff_not_or]
          refine or_congr_right (Dict.set_eq_self_iff.trans ⟨fun before => ⟨_, _, rfl, before⟩, ?_⟩)
          rintro ⟨id, session, same, before⟩
          cases same
          exact before

/-- A library over the group modulo 23. -/
def smallGroup : SrpLib Bytes where
  verifier := fun _ _ _ clientPublic _ => clientPublic
  getChallenge := fun clientPublic =>
    if bytesToNat clientPublic % 23 = 0 then none else some ([90], [17])
  verifySession := fun clientPublic _ => (none, clientPublic)
  authenticated := fun _ => false

theorem smallGroup_screens : smallGroup.Screens 23 where
  challenge := fun _ _ _ _ _ => by simp [smallGroup]

/-- Ada's `srp_init` with the client public value 0. -/
def zeroPublic : SrpCall := .init { readAt := 5, sessionId := "s1" } "ada" "5a" "0b" "00"

theorem failed_init_iff_smallGroup : LeavesNoSession smallGroup Dict.empty zeroPublic ↔
    ¬ zeroPublic.IsUnsafe 23 ∨ StoredBefore smallGroup Dict.empty zeroPublic :=
  failed_init_iff smallGroup_screens Dict.empty zeroPublic

/-- The call raises, and its session stays. -/
theorem unsafe_init_stores : ¬ LeavesNoSession smallGroup Dict.empty zeroPublic := by
  intro leaves
  have raises : InitRaises smallGroup Dict.empty zeroPublic :=
    ⟨.attributeError "'NoneType' object has no attribute 'hex'", by decide +kernel⟩
  have stored : (callSrp smallGroup Dict.empty zeroPublic).keys = ["s1"] := by decide +kernel
  rw [leaves raises] at stored
  cases stored

end SecureMsg.Auth
