/-
# App.Calls — the repository calls a request can lead to

A request makes few repository calls, with arguments it brings along
(`Request.MayCall`).  `serve_keeps_of` is the rule for what these calls keep,
`serve_keeps` the one for what every call keeps.
-/
import SecureMsg.App.Service

namespace SecureMsg.App

open SecureMsg.Theory SecureMsg.Store SecureMsg.Repository SecureMsg.Auth

set_option autoImplicit false

/-! ## Calls -/

/-- The call a request under `/groups` makes for a requester, if it writes. -/
def accountCall (requesterId : UserId) : Api.Request → Option Operation
  | .listGroups => none
  | .createGroup name initialMembers => some (.createGroup name requesterId initialMembers)
  | .onGroup groupId request => request.call requesterId groupId
  | .deleteMe => some (.deleteUser requesterId)

/-- The calls a request under `/keys` makes. -/
def keysCalls (requesterId : UserId) : Api.KeysRequest → List Operation
  | .publishBundle body =>
      [.storeKeyBundle (body.row requesterId), .addOneTimePrekeys requesterId body.oneTimePrekeys]
  | .uploadPrekeys prekeys => [.addOneTimePrekeys requesterId prekeys]
  | .getPrekeyCount | .lookupIdentityPubByUsername _ => []
  | .fetchBundle userId => [.popOneTimePrekey userId]

def Authorized.MayCall : Authorized → Operation → Prop
  | .account request, op => ∃ requesterId, accountCall requesterId request = some op
  | .keys request, op => ∃ requesterId, op ∈ keysCalls requesterId request
  | .messages request, op => ∃ requesterId, request.call requesterId = some op

/-- The call is one the request can lead to. -/
def Request.MayCall : Request → Operation → Prop
  | .register _, .createUser .. => True
  | .verify2fa _, .blockRefreshToken .. => True
  | .refresh _, .blockRefreshToken .. => True
  | .logout _, .blockRefreshToken .. => True
  | .authorized _ request, op => request.MayCall op
  | _, _ => False

/-! ## What these calls keep -/

section Kept

variable {V : Type} {libs : Libraries V} {st : State V} {s : Step} {P : Database → Prop}

/-- The calls of a request keep the property. -/
def KeptBy (request : Request) (P : Database → Prop) : Prop :=
  ∀ before op after, request.MayCall op → perform before op = .ok after → P before → P after

theorem KeptBy.commit {request : Request} (kept : KeptBy request P) {db : Database} (now : P db)
    {op : Operation} (mayCall : request.MayCall op) : P (commit db op) :=
  commit_keeps now fun after done => kept db op after mayCall done now

theorem consumeToken_keeps {lib : TokenLib} (request : Request)
    (mayBlock : ∀ jtiHash expiresAt, request.MayCall (.blockRefreshToken jtiHash expiresAt))
    (kept : KeptBy request P) {db : Database} (now : P db) (time : Rat) (token : String)
    (scope : Scope) (detail : String) : P (consumeToken lib db time token scope detail).1 := by
  have outcome := consumeToken_cases lib db time token scope detail
  generalize consumeToken lib db time token scope detail = result at outcome ⊢
  cases outcome with
  | refused => exact now
  | rejected => exact now
  | consumed claims after consumed =>
      obtain ⟨jti, exp, -, -, inserted⟩ := revokeToken_inserts consumed.revoked
      exact kept db _ after (mayBlock (lib.sha256 jti) exp) inserted now

theorem dependencies_keeps_of {request : Request} (kept : KeptBy request P) {db : Database}
    (now : P db) (time : Rat) : P (dependencies libs db time request).1 := by
  cases request with
  | verify2fa body =>
      show P (requirePreauthUser _ db _ _).1
      rw [requirePreauthUser_fst]
      exact consumeToken_keeps (.verify2fa body) (fun _ _ => trivial) kept now time _ _ _
  | refresh refreshToken =>
      exact consumeToken_keeps (.refresh refreshToken) (fun _ _ => trivial) kept now time _ _ _
  | logout refreshToken =>
      exact consumeToken_keeps (.logout refreshToken) (fun _ _ => trivial) kept now time _ _ _
  | _ => exact now

theorem register_keeps {body : RegisterRequest} (kept : KeptBy (.register body) P)
    (now : P st.db) (reading : Reading) : P (register libs st reading body).1.db := by
  rcases register_db libs st reading body with same | ⟨srpVerifierEnc, totpSecretEnc, done⟩
  · rw [same]
    exact now
  · exact kept st.db (.createUser body.username body.srpSalt srpVerifierEnc totpSecretEnc) _ trivial
      done now

theorem getCurrentUser_id {db : Database} {requesterId : UserId} {user : User}
    (found : Api.getCurrentUser db requesterId = .ok user) : user.id = requesterId := by
  unfold Api.getCurrentUser at found
  cases isUser : getUserById db requesterId with
  | none =>
      rw [isUser] at found
      cases found
  | some row =>
      rw [isUser] at found
      cases found
      exact (getUserById_some isUser).1

theorem requireGroupMember_ok {db : Database} {groupId : GroupId} {user : User}
    {session : Session} {group : Group}
    (required : Api.requireGroupMember .fresh db groupId user = .ok (session, group)) :
    group.id = groupId ∧ db.IsMember groupId user.id := by
  unfold Api.requireGroupMember at required
  cases found : getGroup .fresh db groupId with
  | none =>
      rw [found] at required
      cases required
  | some stored =>
      rw [found] at required
      dsimp only at required
      split at required
      · next member =>
          cases required
          rw [getGroup, Session.selectGroup_fresh] at found
          exact ⟨(Database.findGroup_some found).2, of_decide_eq_true member⟩
      · cases required

/-- What the dependencies of a group request pass on. -/
theorem onGroup_ready {db : Database} {requesterId : UserId} {groupId : GroupId}
    {request : Api.GroupRequest} {pending : Api.Pending}
    (ready : Api.dependencies db requesterId (.onGroup groupId request) = .ok pending) :
    ∃ session user group, pending = ⟨session, user, .onGroup group request⟩ ∧
      user.id = requesterId ∧ group.id = groupId ∧ db.IsMember groupId requesterId := by
  obtain ⟨user, current, rest⟩ := bind_eq_ok.mp ready
  obtain ⟨⟨session, group⟩, required, returned⟩ := bind_eq_ok.mp rest
  cases returned
  obtain ⟨isGroup, member⟩ := requireGroupMember_ok required
  have isUser := getCurrentUser_id current
  exact ⟨session, user, group, rfl, isUser, isGroup, isUser ▸ member⟩

/-- The dependencies pass the user and the group on under their own ids. -/
theorem pending_call {db : Database} {requesterId : UserId} {request : Api.Request}
    {pending : Api.Pending} (ready : Api.dependencies db requesterId request = .ok pending) :
    pending.call = accountCall requesterId request := by
  cases request with
  | onGroup groupId request =>
      obtain ⟨session, user, group, rfl, rfl, rfl, -⟩ := onGroup_ready ready
      rfl
  | _ =>
      obtain ⟨user, current, rest⟩ := bind_eq_ok.mp ready
      have isUser := getCurrentUser_id current
      subst isUser
      cases rest
      rfl

theorem serveAuthorized_keeps_of {credentials : String} {request : Authorized}
    (kept : KeptBy (.authorized credentials request) P) {db : Database} (now : P db)
    (requesterId : UserId) : P (serveAuthorized db requesterId request) := by
  have commits : ∀ call : Option Operation, (∀ op, call = some op → request.MayCall op) →
      P (Api.commitCall db call) := by
    intro call mayCall
    cases call with
    | none => exact now
    | some op => exact kept.commit now (mayCall op rfl)
  cases request with
  | account request =>
      simp only [serveAuthorized, Api.serve]
      cases ready : Api.dependencies db requesterId request with
      | error response => exact now
      | ok pending =>
          dsimp only
          rw [Api.handle_dependencies ready]
          exact commits _ fun op isCall => ⟨requesterId, pending_call ready ▸ isCall⟩
  | keys request =>
      simp only [serveAuthorized]
      have effect := Api.serveKeys_effect db requesterId request
      generalize Api.serveKeys db requesterId request = served at effect ⊢
      cases effect with
      | unchanged => exact now
      | published body stored after bundle prekeys =>
          have first := kept db _ stored ⟨requesterId, List.mem_cons_self⟩ bundle now
          exact kept stored _ after ⟨requesterId, List.mem_cons_of_mem _ List.mem_cons_self⟩ prekeys
            first
      | uploaded prekeys after added =>
          exact kept db _ after ⟨requesterId, List.mem_cons_self⟩ added now
      | fetched userId =>
          exact kept db (.popOneTimePrekey userId) _ ⟨requesterId, List.mem_cons_self⟩ rfl now
  | messages request => exact commits _ fun op isCall => ⟨requesterId, isCall⟩

/-- **The rule for properties a request's own calls keep.** -/
theorem serve_keeps_of (kept : KeptBy s.request P) (now : P st.db) : P (serve libs st s).1.db := by
  have outcome := serve_cases libs st s
  have resolves : P (dependencies libs st.db s.reading.decodedAt s.request).1 :=
    dependencies_keeps_of kept now s.reading.decodedAt
  generalize serve libs st s = served at outcome ⊢
  cases outcome with
  | refused db response resolved =>
      rw [resolved] at resolves
      exact resolves
  | limited db call detail resolved exceeds =>
      rw [resolved] at resolves
      exact resolves
  | called db call resolved within =>
      rw [resolved] at resolves
      have behind := dependencies_ok resolved
      generalize s.request = request at behind kept
      cases behind with
      | register body => exact register_keeps kept resolves s.reading
      | srpInit body =>
          show P (srpInitEndpoint libs _ s.reading body).1.db
          rw [srpInitEndpoint_db]
          exact resolves
      | authorized credentials request claims user call verified subject found calls =>
          rw [endpoint_authorized st.sessions s.reading found calls]
          exact serveAuthorized_keeps_of kept resolves user.id
      | _ => exact resolves

/-! ## What every call keeps -/

/-- Every successful repository call keeps the property. -/
def KeptByCalls (P : Database → Prop) : Prop :=
  ∀ before op after, perform before op = .ok after → P before → P after

/-- **The rule for properties of the database.** -/
theorem serve_keeps (kept : KeptByCalls P) (now : P st.db) : P (serve libs st s).1.db :=
  serve_keeps_of (fun before op after _ done => kept before op after done) now

theorem application_keeps (libs : Libraries V) (kept : KeptByCalls P) (empty : P {})
    (steps : List Step) : P ((application libs).run steps).db :=
  (application libs).invariant (P := fun st => P st.db) empty
    (fun _ _ now => serve_keeps kept now) steps

theorem kept_constraints : KeptByCalls Constraints :=
  fun _ _ _ done c => perform_constraints c done

theorem application_constraints (libs : Libraries V) (steps : List Step) :
    Constraints ((application libs).run steps).db :=
  application_keeps libs kept_constraints sound_empty.constraints steps

end Kept

end SecureMsg.App
