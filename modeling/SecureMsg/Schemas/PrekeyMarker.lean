/-
# Schemas.PrekeyMarker — is a one-time prekey consumed only when it is delivered?

`fetch_bundle` pops the user's oldest prekey, commits, and answers with its base64
text, or with `null` if what was popped is false.  The empty text is valid base64, so
a prekey can be empty; popped, it is false like no prekey at all.

`delivered_iff`: along a run every fetch delivers what it consumes, and answers
`null` only where there is nothing to consume, exactly if no fetch comes to an empty
prekey.
-/
import SecureMsg.Schemas.Application
import SecureMsg.Keys.Bundle

namespace SecureMsg.Schemas

open SecureMsg.Theory SecureMsg.Store SecureMsg.Repository SecureMsg.Api

set_option autoImplicit false

/-! ## What is asked of a fetch -/

/-- The bundle a response carries. -/
def Response.bundle? {lib : Auth.TokenLib} : Response lib → Option KeyBundleResponse
  | .served (.keys response) => response.bundle?.map encodeBundle
  | _ => none

/-- No prekey was removed. -/
def KeepsPrekeys (db after : Database) : Prop := after.oneTimePrekeys = db.oneTimePrekeys

/-- One prekey was removed. -/
def Removes (db after : Database) (gone : OneTimePreKey) : Prop :=
  ∀ row, row ∈ after.oneTimePrekeys ↔ row ∈ db.oneTimePrekeys ∧ row ≠ gone

/-- An answer without a prekey removes none, and `null` means that there is none; an
answer with one has the oldest, and removes it. -/
def DeliversOldest (db after : Database) (userId : UserId) (answer : Option KeyBundleResponse) :
    Prop :=
  match answer with
  | none => KeepsPrekeys db after
  | some bundle =>
      match bundle.oneTimePrekey with
      | none => KeepsPrekeys db after ∧ prekeysOf db userId = []
      | some text => ∃ oldest rest, prekeysOf db userId = oldest :: rest ∧
          text = b64encode oldest.prekeyPub ∧ Removes db after oldest

/-- The user whose bundle a request asks for. -/
def Step.fetches (s : Step) (userId : UserId) : Prop :=
  ∃ credentials, s.request = .authorized credentials (.without (.keys (.fetchBundle userId)) rfl)

variable {V : Type} (libs : Auth.Libraries V)

/-- A fetch consumes what it delivers. -/
def Delivers (earlier : List Step) (s : Step) : Prop :=
  ∀ userId, s.fetches userId →
    DeliversOldest ((application libs).run earlier).db ((application libs).run (earlier ++ [s])).db
      userId (respond libs earlier s).bundle?

/-- The fetch gets to the user's bundle: it is authenticated and within its limits, and
the user has published one. -/
structure FetchesBundle (db : Database) (s : Step) (userId : UserId) (bundle : UserKeyBundle) :
    Prop where
  authenticated : ∃ credentials user,
    s.request = .authorized credentials (.without (.keys (.fetchBundle userId)) rfl) ∧
      Auth.getCurrentUser libs.toTokenLib db s.reading.decodedAt credentials = .ok user
  within : s.exceeded = none
  published : getKeyBundle db userId = some bundle

/-- A fetch that comes to an empty prekey. -/
def PopsEmpty (db : Database) (s : Step) : Prop :=
  ∃ userId bundle oldest rest, FetchesBundle libs db s userId bundle ∧
    prekeysOf db userId = oldest :: rest ∧ oldest.prekeyPub = []

/-! ## One fetch -/

section Fetch

variable {libs} {st : Auth.State V} {s : Step} {userId : UserId}

theorem accepted_fetch {credentials : String}
    (request : s.request = .authorized credentials (.without (.keys (.fetchBundle userId)) rfl)) :
    s.accepted = .ok
      ⟨.authorized credentials (.keys (.fetchBundle userId)), s.reading, s.exceeded⟩ := by
  unfold Step.accepted
  rw [request]
  rfl

/-- An authenticated fetch within its limits is served by `fetch_bundle`. -/
theorem serve_authenticated {credentials : String} {reading : Auth.Reading} {user : User}
    (authenticated :
      Auth.getCurrentUser libs.toTokenLib st.db reading.decodedAt credentials = .ok user) :
    App.serve libs st ⟨.authorized credentials (.keys (.fetchBundle userId)), reading, none⟩ =
      ({ st with db := (fetchBundle st.db userId).1 }, .keys (fetchBundle st.db userId).2) := by
  have passed : App.authorize libs st.db reading.decodedAt credentials
      (.keys (.fetchBundle userId)) = .ok (.keys user (.fetchBundle userId)) :=
    bind_eq_ok.mpr ⟨user, mapError_eq_ok.mpr authenticated, rfl⟩
  unfold App.serve App.dependencies
  dsimp only
  rw [passed]
  rfl

theorem fetchBundle_published {db : Database} (c : Constraints db) {bundle : UserKeyBundle}
    (published : getKeyBundle db userId = some bundle) :
    fetchBundle db userId = ((popOneTimePrekey db userId).1, .keyBundle ⟨bundle.identityPub,
      bundle.signedPrekeyPub, bundle.signedPrekeySig, shownPrekey (popOneTimePrekey db userId).2,
      bundle.pqPrekeyPub, bundle.pqPrekeySig⟩) := by
  obtain ⟨owner, known, -⟩ := getUserById_known (Keys.Bundle.bundle_owner c published)
  unfold fetchBundle
  rw [known, published]

theorem fetchBundle_unpublished {db : Database} (absent : getKeyBundle db userId = none) :
    (fetchBundle db userId).1 = db ∧ (fetchBundle db userId).2.bundle? = none := by
  unfold fetchBundle
  cases getUserById db userId with
  | none => exact ⟨rfl, rfl⟩
  | some owner =>
      rw [absent]
      exact ⟨rfl, rfl⟩

/-- **A fetch that gets to the bundle** pops, and shows what it popped. -/
theorem serve_fetch (c : Constraints st.db) {bundle : UserKeyBundle}
    (fetches : FetchesBundle libs st.db s userId bundle) :
    (serve libs st s).1.db = (popOneTimePrekey st.db userId).1 ∧
      ∃ shown, (serve libs st s).2.bundle? = some shown ∧
        shown.oneTimePrekey = (shownPrekey (popOneTimePrekey st.db userId).2).map b64encode := by
  obtain ⟨⟨credentials, user, request, authenticated⟩, within, published⟩ := fetches
  rw [serve_accepted (accepted_fetch request), within, serve_authenticated authenticated,
    fetchBundle_published c published]
  exact ⟨rfl, _, rfl, rfl⟩

/-- A fetch that does not get there answers an error and removes nothing. -/
theorem serve_no_fetch (fetches : s.fetches userId)
    (none_ : ∀ bundle, ¬ FetchesBundle libs st.db s userId bundle) :
    (serve libs st s).1.db = st.db ∧ (serve libs st s).2.bundle? = none := by
  obtain ⟨credentials, request⟩ := fetches
  rw [serve_accepted (accepted_fetch request)]
  have outcome := App.serve_cases libs st
    ⟨.authorized credentials (.keys (.fetchBundle userId)), s.reading, s.exceeded⟩
  generalize App.serve libs st _ = served at outcome ⊢
  cases outcome with
  | refused db response resolved =>
      refine ⟨(Prod.mk.inj resolved).1.symm, ?_⟩
      cases App.dependencies_error resolved with
      | login => rfl
      | account => rfl
  | limited db call detail resolved => exact ⟨(Prod.mk.inj resolved).1.symm, rfl⟩
  | called db call resolved within =>
      obtain ⟨rfl, passed⟩ := Prod.mk.inj resolved
      obtain ⟨user, authenticated, calls⟩ := App.authorize_ok passed
      cases calls
      have absent : getKeyBundle st.db userId = none := by
        by_contra published
        obtain ⟨bundle, published⟩ := Option.ne_none_iff_exists'.mp published
        exact none_ bundle ⟨⟨credentials, user, request, authenticated⟩,
          App.exceeded_none within rfl, published⟩
      obtain ⟨same, silent⟩ := fetchBundle_unpublished absent
      refine ⟨same, ?_⟩
      show ((fetchBundle st.db userId).2.bundle?).map encodeBundle = none
      rw [silent]
      rfl

/-! ## What a fetch delivers -/

theorem popOneTimePrekey_none {db : Database} (empty : prekeysOf db userId = []) :
    popOneTimePrekey db userId = (db, none) := by
  rw [popOneTimePrekey, empty]
  rfl

theorem popOneTimePrekey_oldest {db : Database} {oldest : OneTimePreKey} {rest : List OneTimePreKey}
    (prekeys : prekeysOf db userId = oldest :: rest) :
    popOneTimePrekey db userId = (db.deleteOneTimePrekey oldest.id, some oldest.prekeyPub) := by
  rw [popOneTimePrekey, prekeys]
  rfl

/-- Exactly the oldest prekey goes. -/
theorem removes_oldest {db : Database} (c : Constraints db) {oldest : OneTimePreKey}
    {rest : List OneTimePreKey} (prekeys : prekeysOf db userId = oldest :: rest) :
    Removes db (db.deleteOneTimePrekey oldest.id) oldest := by
  rw [Keys.prekeysOf_eq c] at prekeys
  have head : oldest ∈ oldest :: rest := List.mem_cons_self
  rw [← prekeys] at head
  have stored : oldest ∈ db.oneTimePrekeys := List.mem_of_mem_filter head
  intro row
  rw [Database.deleteOneTimePrekey, List.mem_filter, decide_eq_true_eq]
  refine and_congr_right fun inTable => not_congr ?_
  constructor
  · exact c.oneTimePrekeys.unique inTable stored
  · rintro rfl
    rfl

/-- **One fetch** delivers what it consumes unless that is an empty prekey. -/
theorem delivers_step (c : Constraints st.db) :
    (∀ userId, s.fetches userId → DeliversOldest st.db (serve libs st s).1.db userId
      (serve libs st s).2.bundle?) ↔ ¬ PopsEmpty libs st.db s := by
  constructor
  · rintro delivers ⟨userId, bundle, oldest, rest, fetches, prekeys, noBytes⟩
    obtain ⟨credentials, user, request, -⟩ := fetches.authenticated
    obtain ⟨-, shown, isShown, isPrekey⟩ := serve_fetch c fetches
    have delivered := delivers userId ⟨credentials, request⟩
    rw [popOneTimePrekey_oldest prekeys, noBytes] at isPrekey
    simp only [DeliversOldest, isShown, isPrekey, shownPrekey, Option.map_none, prekeys]
      at delivered
    cases delivered.2
  · intro notEmpty userId asks
    by_cases reaches : ∃ bundle, FetchesBundle libs st.db s userId bundle
    · obtain ⟨bundle, fetches⟩ := reaches
      obtain ⟨same, shown, isShown, isPrekey⟩ := serve_fetch c fetches
      cases prekeys : prekeysOf st.db userId with
      | nil =>
          rw [popOneTimePrekey_none prekeys] at same isPrekey
          simp only [DeliversOldest, isShown, isPrekey, shownPrekey, Option.map_none, KeepsPrekeys,
            same]
          exact ⟨trivial, prekeys⟩
      | cons oldest rest =>
          rw [popOneTimePrekey_oldest prekeys] at same isPrekey
          cases bytes : oldest.prekeyPub with
          | nil => exact absurd ⟨userId, bundle, oldest, rest, fetches, prekeys, bytes⟩ notEmpty
          | cons byte more =>
              rw [bytes] at isPrekey
              simp only [DeliversOldest, isShown, isPrekey, shownPrekey, Option.map_some]
              refine ⟨oldest, rest, prekeys, by rw [bytes], ?_⟩
              rw [same]
              exact removes_oldest c prekeys
    · obtain ⟨same, silent⟩ := serve_no_fetch asks (not_exists.mp reaches)
      simp only [DeliversOldest, silent]
      rw [same]
      rfl

end Fetch

/-- **A prekey is consumed only when it is delivered**, in every fetch of a run, exactly
if no fetch comes to an empty prekey. -/
theorem delivered_iff (libs : Auth.Libraries V) (steps : List Step) :
    EachStep (Delivers libs) steps ↔
      ¬ SomeStep (fun earlier s => PopsEmpty libs ((application libs).run earlier).db s) steps := by
  refine eachStep_iff_not_someStep fun earlier s _ => ?_
  unfold Delivers
  rw [System.run_snoc]
  exact delivers_step (application_sound libs earlier).constraints

/-! ## A prekey of no bytes -/

theorem not_delivers_of_popsEmpty {libs : Auth.Libraries V} {earlier : List Step} {s : Step}
    (pops : PopsEmpty libs ((application libs).run earlier).db s) :
    ¬ EachStep (Delivers libs) (earlier ++ [s]) := by
  intro each
  have delivers := each earlier s (List.prefix_refl _)
  unfold Delivers at delivers
  rw [System.run_snoc] at delivers
  exact (delivers_step (application_sound libs earlier).constraints).mp delivers pops

/-- Ada publishes a bundle whose only one-time prekey is the empty text. -/
def emptyPrekey : List Step :=
  adaLogsIn ++ [⟨.authorized adaToken (.publishBundle ⟨"", "", "", [""], "", ""⟩),
    { decodedAt := 21 }, none⟩]

/-- She asks for her own bundle. -/
def fetchesOwn : Step :=
  ⟨.authorized adaToken (.without (.keys (.fetchBundle 1)) rfl), { decodedAt := 22 }, none⟩

theorem fetchesOwn_popsEmpty :
    PopsEmpty adaLibs ((application adaLibs).run emptyPrekey).db fetchesOwn := by
  have known : (Auth.getCurrentUser adaLibs.toTokenLib ((application adaLibs).run emptyPrekey).db 22
      adaToken).toOption.isSome = true := by
    decide +kernel
  have published : (getKeyBundle ((application adaLibs).run emptyPrekey).db 1).isSome = true := by
    decide +kernel
  have prekeys : (prekeysOf ((application adaLibs).run emptyPrekey).db 1).map
      OneTimePreKey.prekeyPub = [[]] := by
    decide +kernel
  obtain ⟨bundle, isBundle⟩ := Option.isSome_iff_exists.mp published
  obtain ⟨oldest, rest, isPrekeys, noBytes, -⟩ := List.map_eq_cons_iff.mp prekeys
  cases authenticated : Auth.getCurrentUser adaLibs.toTokenLib
      ((application adaLibs).run emptyPrekey).db 22 adaToken with
  | error response =>
      rw [authenticated] at known
      cases known
  | ok user =>
      exact ⟨1, bundle, oldest, rest, ⟨⟨adaToken, user, rfl, authenticated⟩, rfl, isBundle⟩,
        isPrekeys, noBytes⟩

/-- The prekey is gone, and the answer to its fetch is `null`. -/
theorem empty_prekey_lost : ¬ EachStep (Delivers adaLibs) (emptyPrekey ++ [fetchesOwn]) :=
  not_delivers_of_popsEmpty fetchesOwn_popsEmpty

end SecureMsg.Schemas
