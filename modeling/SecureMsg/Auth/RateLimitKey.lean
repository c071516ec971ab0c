/-
# Auth.RateLimitKey — `app/auth/rate_limit.py` and the bearer header

One header is read twice.  `HTTPBearer` takes what follows the first space as the
credentials, without the white space around it, and the scheme before it in either
case; the limiter looks for the prefix `Bearer ` as it stands and reads the rest as a
token whose signature it does not check.

`HTTPBearer` and `jwt.decode` are parameters.  `charged_iff`: a request that
authenticates is charged to its user exactly if the scheme is spelled `Bearer` and the
rest is the token, or the token in white space that `jwt.decode` reads past, with the
user's id in plain decimal, as every token issued here has it (`issued_plain`).
-/
import SecureMsg.Theory.Pattern
import SecureMsg.Auth.Login

namespace SecureMsg.Auth

open SecureMsg.Theory SecureMsg.Store SecureMsg.Repository

set_option autoImplicit false

/-! ## The two readers -/

/-- `HTTPBearer`: the credentials of an `Authorization` header, or a refusal. -/
abbrev HTTPBearer := Option String → Option String

/-- `get_current_user`, from the header on. -/
def currentUser (bearer : HTTPBearer) (lib : TokenLib) (db : Database) (now : Rat)
    (authorization : Option String) : Except (Response lib) User :=
  match bearer authorization with
  | none => .error (.httpException 401 "Not authenticated")
  | some credentials => getCurrentUser lib db now credentials

/-- The truth value of a claim. -/
def Value.truth : Value → Bool
  | .str text => text ≠ ""
  | .int number => number ≠ 0

/-- `_rate_limit_key`.  `peek` is `jwt.decode` without the signature check, `none` for
its `DecodeError`. -/
def rateLimitKey (peek : String → Option Payload) (remoteAddress : String)
    (authorization : Option String) : String :=
  let auth := (authorization.getD "").toList
  if "Bearer ".toList.isPrefixOf auth then
    match (peek (String.ofList (auth.drop "Bearer ".length))).bind (·.get? "sub") with
    | some sub => if sub.truth then "user:" ++ sub.toStr else remoteAddress
    | none => remoteAddress
  else remoteAddress

def userKey (userId : UserId) : String := "user:" ++ userId.repr

/-- What `HTTPBearer` documents: it splits the header at the first space, takes the scheme in
either case and the rest as credentials; white space around them may be taken off. -/
structure SplitsHeader (unicode : Unicode) (bearer : HTTPBearer) : Prop where
  credentials : ∀ authorization credentials, bearer authorization = some credentials →
    ∃ header scheme before after, authorization = some header ∧
      header.toList = scheme ++ ' ' :: (before ++ credentials.toList ++ after) ∧ ' ' ∉ scheme ∧
      scheme.map Char.toLower = "bearer".toList ∧
      (∀ c ∈ before, unicode.isSpace c = true) ∧ ∀ c ∈ after, unicode.isSpace c = true

/-- A token that verifies has the same claims when nothing is verified. -/
def ReadsUnverified (lib : TokenLib) (peek : String → Option Payload) : Prop :=
  ∀ now token payload, lib.decode now token = .ok payload → peek token = some payload

/-- The subject is the id as `str` writes it, and counts as true. -/
def NamesPlainly (payload : Payload) (userId : UserId) : Prop :=
  ∃ sub, payload.get? "sub" = some sub ∧ sub.truth = true ∧ sub.toStr = userId.repr

/-- The text is a token that verifies and names the id plainly. -/
def PlainSubject (lib : TokenLib) (now : Rat) (token : String) (userId : UserId) : Prop :=
  ∃ payload, lib.decode now token = .ok payload ∧ NamesPlainly payload userId

/-- White space at one of the ends. -/
def Padded (unicode : Unicode) (text : List Char) : Prop :=
  text.head?.any unicode.isSpace = true ∨ text.getLast?.any unicode.isSpace = true

/-- The text has white space around it and is read all the same, naming the id plainly. -/
def PaddedSubject (unicode : Unicode) (peek : String → Option Payload) (text : String)
    (userId : UserId) : Prop :=
  Padded unicode text.toList ∧ ∃ payload, peek text = some payload ∧ NamesPlainly payload userId

/-! ## What they make of one header -/

variable {unicode : Unicode} {bearer : HTTPBearer}

theorem padded_of_pads {before after token : List Char}
    (isBefore : ∀ c ∈ before, unicode.isSpace c = true)
    (isAfter : ∀ c ∈ after, unicode.isSpace c = true) :
    before ++ token ++ after = token ∨ Padded unicode (before ++ token ++ after) := by
  cases before with
  | cons c before => exact Or.inr (Or.inl (isBefore c List.mem_cons_self))
  | nil =>
      rw [List.nil_append]
      cases last : after.getLast? with
      | none =>
          rw [List.getLast?_eq_none_iff.mp last, List.append_nil]
          exact Or.inl rfl
      | some c =>
          refine Or.inr (Or.inr ?_)
          rw [List.getLast?_append, last]
          exact isAfter c (List.mem_of_getLast? last)

theorem toList_bearer (text : String) :
    ("Bearer " ++ text).toList = "Bearer".toList ++ ' ' :: text.toList := by
  have scheme : "Bearer ".toList = "Bearer".toList ++ [' '] := by decide
  rw [String.toList_append, scheme, List.append_assoc, List.singleton_append]

/-- A word before the first space is the same word in any split. -/
theorem split_unique {scheme scheme' rest rest' : List Char} (word : ' ' ∉ scheme)
    (word' : ' ' ∉ scheme') (same : scheme ++ ' ' :: rest = scheme' ++ ' ' :: rest') :
    rest = rest' := by
  induction scheme generalizing scheme' with
  | nil =>
      cases scheme' with
      | nil => exact (List.cons.inj same).2
      | cons c scheme' => exact absurd (List.cons.inj same).1 (List.ne_of_not_mem_cons word')
  | cons c scheme ih =>
      cases scheme' with
      | nil => exact absurd (List.cons.inj same).1.symm (List.ne_of_not_mem_cons word)
      | cons d scheme' =>
          exact ih (fun inside => word (List.mem_cons_of_mem _ inside))
            (fun inside => word' (List.mem_cons_of_mem _ inside)) (List.cons.inj same).2

/-- After the spelling the limiter expects stands the token, or the token in white space. -/
theorem SplitsHeader.plain (splits : SplitsHeader unicode bearer) {text credentials : String}
    (passed : bearer (some ("Bearer " ++ text)) = some credentials) :
    text = credentials ∨ Padded unicode text.toList := by
  obtain ⟨header, scheme, before, after, isHeader, parts, word, -, isBefore, isAfter⟩ :=
    splits.credentials _ _ passed
  cases isHeader
  rw [toList_bearer] at parts
  rw [split_unique (by decide) word parts]
  rcases padded_of_pads isBefore isAfter with bare | padded
  · left
    apply String.toList_inj.mp
    rw [split_unique (by decide) word parts]
    exact bare
  · exact Or.inr padded

theorem rateLimitKey_plain (peek : String → Option Payload) (remoteAddress token : String) :
    rateLimitKey peek remoteAddress (some ("Bearer " ++ token)) =
      match (peek token).bind (·.get? "sub") with
      | some sub => if sub.truth then "user:" ++ sub.toStr else remoteAddress
      | none => remoteAddress := by
  have spelled : "Bearer ".toList.isPrefixOf ("Bearer " ++ token).toList = true := by
    rw [List.isPrefixOf_iff_prefix, String.toList_append]
    exact List.prefix_append _ _
  have rest : ("Bearer " ++ token).toList.drop "Bearer ".length = token.toList := by
    rw [String.toList_append]
    exact List.drop_left
  rw [rateLimitKey, Option.getD_some, if_pos spelled, rest, String.ofList_toList]

/-- Any other header is charged to the peer's address. -/
theorem rateLimitKey_other {peek : String → Option Payload} {remoteAddress : String}
    {authorization : Option String} (other : ∀ token, authorization ≠ some ("Bearer " ++ token)) :
    rateLimitKey peek remoteAddress authorization = remoteAddress := by
  refine if_neg fun spelled => ?_
  obtain ⟨rest, isRest⟩ := List.isPrefixOf_iff_prefix.mp spelled
  cases authorization with
  | none => cases isRest
  | some text =>
      refine other (String.ofList rest) (congrArg some (String.toList_inj.mp ?_))
      rw [String.toList_append]
      exact isRest.symm.trans (congrArg ("Bearer ".toList ++ ·) String.toList_ofList.symm)

/-! ## Whom a request is charged to -/

section Charged

variable {lib : TokenLib} {peek : String → Option Payload} {db : Database} {now : Rat}
  {authorization : Option String} {user : User}

/-- A user who authenticates has shown a token that verifies for them. -/
theorem currentUser_ok (authenticated : currentUser bearer lib db now authorization = .ok user) :
    ∃ credentials payload, bearer authorization = some credentials ∧
      lib.decode now credentials = .ok payload := by
  unfold currentUser at authenticated
  cases header : bearer authorization with
  | none =>
      rw [header] at authenticated
      cases authenticated
  | some credentials =>
      rw [header] at authenticated
      obtain ⟨claims, verified, -⟩ := getCurrentUser_ok authenticated
      obtain ⟨payload, decoded, -⟩ := verifyToken_ok verified
      exact ⟨credentials, payload, rfl, decoded⟩

theorem userKey_eq_iff {text : String} {userId : UserId} :
    "user:" ++ text = userKey userId ↔ text = userId.repr :=
  ⟨String.append_right_inj _ |>.mp, fun same => by rw [same, userKey]⟩

/-- The limiter charges the user whom the text after the prefix names plainly. -/
theorem rateLimitKey_eq_iff {remoteAddress text : String} {userId : UserId}
    (isAddress : ∀ text, remoteAddress ≠ "user:" ++ text) :
    rateLimitKey peek remoteAddress (some ("Bearer " ++ text)) = userKey userId ↔
      ∃ payload, peek text = some payload ∧ NamesPlainly payload userId := by
  rw [rateLimitKey_plain]
  cases read : peek text with
  | none => exact iff_of_false (isAddress _) (by simp)
  | some payload =>
      rw [Option.bind_some]
      constructor
      · intro charged
        cases subject : payload.get? "sub" with
        | none =>
            rw [subject] at charged
            exact absurd charged (isAddress _)
        | some sub =>
            rw [subject] at charged
            dsimp only at charged
            by_cases counts : sub.truth = true
            · rw [if_pos counts] at charged
              exact ⟨payload, rfl, sub, subject, counts, userKey_eq_iff.mp charged⟩
            · rw [if_neg counts] at charged
              exact absurd charged (isAddress _)
      · rintro ⟨_, same, sub, subject, counts, text⟩
        cases same
        rw [subject]
        dsimp only
        rw [if_pos counts]
        exact userKey_eq_iff.mpr text

/-- **Whom an authenticated request is charged to.** -/
theorem charged_iff (splits : SplitsHeader unicode bearer) (reads : ReadsUnverified lib peek)
    {remoteAddress : String} (isAddress : ∀ text, remoteAddress ≠ "user:" ++ text)
    (authenticated : currentUser bearer lib db now authorization = .ok user) :
    rateLimitKey peek remoteAddress authorization = userKey user.id ↔
      ∃ text, authorization = some ("Bearer " ++ text) ∧
        (PlainSubject lib now text user.id ∨ PaddedSubject unicode peek text user.id) := by
  obtain ⟨credentials, payload, header, decoded⟩ := currentUser_ok authenticated
  by_cases spelled : ∃ text, authorization = some ("Bearer " ++ text)
  · obtain ⟨text, rfl⟩ := spelled
    rw [rateLimitKey_eq_iff isAddress]
    constructor
    · rintro ⟨payload', read, names⟩
      refine ⟨text, rfl, ?_⟩
      rcases splits.plain header with rfl | padded
      · rw [reads now text payload decoded] at read
        cases read
        exact Or.inl ⟨payload, decoded, names⟩
      · exact Or.inr ⟨padded, payload', read, names⟩
    · rintro ⟨text', same, plain⟩
      cases (String.append_right_inj _).mp (Option.some.inj same)
      rcases plain with ⟨payload', decoded', names⟩ | ⟨-, read⟩
      · exact ⟨payload', reads now text payload' decoded', names⟩
      · exact read
  · rw [rateLimitKey_other fun text same => spelled ⟨text, same⟩]
    refine iff_of_false (isAddress _) ?_
    rintro ⟨text, same, -⟩
    exact spelled ⟨text, same⟩

/-- What the server issues names its user plainly. -/
theorem issued_plain {token : IssuedToken lib} {userId : UserId} (isFor : token.IsFor userId)
    (decoded : lib.decode now token.text = .ok token.payload) :
    PlainSubject lib now token.text userId := by
  refine ⟨token.payload, decoded, _, isFor, decide_eq_true ?_, rfl⟩
  intro empty
  have read := parseInt_repr userId
  rw [empty] at read
  cases read

end Charged

/-! ## A scheme in lower case -/

/-- `text.partition(" ")`, without the separator. -/
def partitionSpace (text : List Char) : List Char × List Char :=
  (text.takeWhile (· ≠ ' '), (text.dropWhile (· ≠ ' ')).drop 1)

/-- The bearer of the framework. -/
def stripping : HTTPBearer := fun authorization =>
  let (scheme, rest) := partitionSpace (authorization.getD "").toList
  let credentials := Unicode.ascii.strip rest
  if credentials = [] ∨ scheme.map Char.toLower ≠ "bearer".toList then none
  else some (String.ofList credentials)

theorem partitionSpace_parts {text : List Char} (some_ : (partitionSpace text).2 ≠ []) :
    text = (partitionSpace text).1 ++ ' ' :: (partitionSpace text).2 ∧
      ' ' ∉ (partitionSpace text).1 := by
  induction text with
  | nil => exact absurd rfl some_
  | cons c text ih =>
      by_cases space : c = ' '
      · subst space
        exact ⟨rfl, List.not_mem_nil⟩
      · have onward : partitionSpace (c :: text) =
            (c :: (partitionSpace text).1, (partitionSpace text).2) := by
          simp [partitionSpace, space]
        rw [onward] at some_ ⊢
        obtain ⟨parts, word⟩ := ih some_
        refine ⟨congrArg (c :: ·) parts, ?_⟩
        rw [List.mem_cons, not_or]
        exact ⟨Ne.symm space, word⟩

theorem stripping_splits : SplitsHeader .ascii stripping where
  credentials := by
    intro authorization credentials passed
    unfold stripping at passed
    dsimp only at passed
    split at passed
    · cases passed
    · next accepted =>
        obtain ⟨nonempty, scheme⟩ := not_or.mp accepted
        cases passed
        cases authorization with
        | none => exact absurd rfl nonempty
        | some header =>
            rw [Option.getD_some] at nonempty scheme ⊢
            obtain ⟨before, after, pads, isBefore, isAfter⟩ :=
              Unicode.ascii.strip_pads (partitionSpace header.toList).2
            have some_ : (partitionSpace header.toList).2 ≠ [] := by
              intro empty
              rw [empty] at nonempty
              exact nonempty rfl
            obtain ⟨parts, word⟩ := partitionSpace_parts some_
            refine ⟨header, (partitionSpace header.toList).1, before, after, rfl, ?_, word,
              not_not.mp scheme, isBefore, isAfter⟩
            rw [String.toList_ofList, ← pads]
            exact parts

def accessLib : TokenLib := recordingLib [accessPayload] sampleDigest

def peekAccess (token : String) : Option Payload :=
  [accessPayload].find? fun payload => payloadText payload = token

def adaAlone : Database := service.run [.createUser "ada" "5a" [1] [2]]

def adaRow : User := ⟨1, "ada", "5a", [1], [2]⟩

def adaHeader (scheme : String) : Option String := some (scheme ++ " " ++ payloadText accessPayload)

theorem readsUnverified_access : ReadsUnverified accessLib peekAccess :=
  fun _ _ _ decoded => (recordingLib_decode decoded).1

theorem address_ne_key (text : String) : "192.0.2.7" ≠ "user:" ++ text := by
  intro same
  have first := congrArg (fun s => s.toList.head?) same
  rw [String.toList_append] at first
  cases first

theorem ada_authenticates :
    currentUser stripping accessLib adaAlone 21 (adaHeader "bearer") = .ok adaRow := rfl

theorem charged_iff_lowerCase :
    rateLimitKey peekAccess "192.0.2.7" (adaHeader "bearer") = userKey adaRow.id ↔
      ∃ text, adaHeader "bearer" = some ("Bearer " ++ text) ∧
        (PlainSubject accessLib 21 text adaRow.id ∨
          PaddedSubject .ascii peekAccess text adaRow.id) :=
  charged_iff stripping_splits readsUnverified_access address_ne_key ada_authenticates

/-- Ada authenticates with the scheme in lower case, and her address is charged. -/
theorem lower_case_escapes : ¬ ∀ user,
    currentUser stripping accessLib adaAlone 21 (adaHeader "bearer") = .ok user →
      rateLimitKey peekAccess "192.0.2.7" (adaHeader "bearer") = userKey user.id := by
  intro charged
  have key := charged adaRow ada_authenticates
  exact absurd key (by decide +kernel)

example : rateLimitKey peekAccess "192.0.2.7" (adaHeader "Bearer") = "user:1" := by decide +kernel

end SecureMsg.Auth
