/-
# Repository.Isolation — the rows of one group, and what leaves them alone

`rowsOf db h` is everything stored that belongs to group `h`: its row, its
memberships, its pending sender keys, its messages and their receipts.  The
lemmas say which writes leave it as it is: those that touch other groups only.
Receipts carry no group id, so for them the argument goes through the message
they name, which is unique.
-/
import SecureMsg.Repository.Operation

namespace SecureMsg.Repository

open SecureMsg.Theory SecureMsg.Store

set_option autoImplicit false

/-- The receipt is for a message of the group. -/
def receiptIn (db : Database) (h : GroupId) (receipt : GroupMessageReceipt) : Bool :=
  db.groupMessages.any fun msg => msg.id = receipt.messageId && msg.groupId = h

@[ext]
structure GroupRows where
  group : List Group
  members : List GroupMember
  skdms : List SenderKeyDistribution
  messages : List GroupMessage
  receipts : List GroupMessageReceipt
  deriving DecidableEq, Repr

def rowsOf (db : Database) (h : GroupId) : GroupRows where
  group := db.groups.filter fun row => row.id = h
  members := db.groupMembers.filter fun row => row.groupId = h
  skdms := db.senderKeyDistributions.filter fun row => row.groupId = h
  messages := db.groupMessages.filter fun row => row.groupId = h
  receipts := db.groupMessageReceipts.filter (receiptIn db h)

variable {db after : Database} {g h : GroupId} {userId : UserId}

theorem receiptIn_iff {receipt : GroupMessageReceipt} :
    receiptIn db h receipt = true ↔
      ∃ msg ∈ db.groupMessages, msg.id = receipt.messageId ∧ msg.groupId = h := by
  simp [receiptIn]

/-- The receipt's message decides. -/
theorem receiptIn_of_message (c : Constraints db) {msg : GroupMessage}
    (stored : msg ∈ db.groupMessages) {receipt : GroupMessageReceipt}
    (named : receipt.messageId = msg.id) : receiptIn db h receipt = decide (msg.groupId = h) := by
  rw [Bool.eq_iff_iff, receiptIn_iff, decide_eq_true_eq]
  constructor
  · rintro ⟨other, otherStored, sameId, inGroup⟩
    rwa [c.groupMessages.unique otherStored stored (sameId.trans named)] at inGroup
  · intro inGroup
    exact ⟨msg, stored, named.symm, inGroup⟩

/-- Dropping rows that are not the group's keeps the group's rows. -/
theorem filter_filter_of_spared {ρ : Type} {table : List ρ} {mine keep : ρ → Bool}
    (spares : ∀ row ∈ table, mine row = true → keep row = true) :
    (table.filter keep).filter mine = table.filter mine := by
  rw [List.filter_filter]
  refine List.filter_congr fun row stored => ?_
  cases inGroup : mine row with
  | false => rfl
  | true => simpa using spares row stored inGroup

/-- Adding rows that are not the group's keeps the group's rows. -/
theorem filter_append_of_foreign {ρ : Type} {table added : List ρ} {mine : ρ → Bool}
    (foreign : ∀ row ∈ added, mine row = false) :
    (table ++ added).filter mine = table.filter mine := by
  have none_ : added.filter mine = [] := by
    rw [List.filter_eq_nil_iff]
    intro row listed
    rw [foreign row listed]
    exact Bool.false_ne_true
  rw [List.filter_append, none_, List.append_nil]

/-! ## Deletions -/

theorem rowsOf_deleteGroupMessagesWhere (c : Constraints db) {p : GroupMessage → Bool}
    (spares : ∀ msg ∈ db.groupMessages, msg.groupId = h → p msg = false) :
    rowsOf (db.deleteGroupMessagesWhere p) h = rowsOf db h := by
  refine GroupRows.ext rfl rfl rfl ?_ ?_
  · refine filter_filter_of_spared fun msg stored inGroup => ?_
    rw [spares msg stored (of_decide_eq_true inGroup)]
    rfl
  · show (db.groupMessageReceipts.filter _).filter _ = db.groupMessageReceipts.filter _
    rw [List.filter_filter]
    refine List.filter_congr fun receipt stored => ?_
    obtain ⟨msg, inTable, named⟩ := List.mem_map.mp (c.receipt_exists stored).1
    rw [receiptIn_of_message c inTable named.symm, ← named, c.groupMessageGone_eq inTable]
    have deleted := c.deleteGroupMessagesWhere p
    cases gone : p msg with
    | false =>
        have kept : msg ∈ (db.deleteGroupMessagesWhere p).groupMessages :=
          List.mem_filter.mpr ⟨inTable, by rw [gone]; rfl⟩
        rw [receiptIn_of_message deleted kept named.symm]
        exact Bool.and_true _
    | true =>
        have foreign : msg.groupId ≠ h := by
          intro inGroup
          rw [spares msg inTable inGroup] at gone
          cases gone
        simp [foreign]

theorem rowsOf_deleteGroupsWhere (c : Constraints db) {p : Group → Bool}
    (spares : db.groupGone p h = false) : rowsOf (db.deleteGroupsWhere p) h = rowsOf db h := by
  have messages := rowsOf_deleteGroupMessagesWhere (h := h) c
    (p := fun msg => db.groupGone p msg.groupId) (by
      intro msg _ inGroup
      rw [inGroup]
      exact spares)
  rw [← messages]
  refine GroupRows.ext ?_ ?_ ?_ rfl rfl
  · refine filter_filter_of_spared fun row stored inGroup => ?_
    have same : row.id = h := of_decide_eq_true inGroup
    have whole := c.groupGone_eq (p := p) stored
    rw [same, spares] at whole
    rw [← whole]
    rfl
  · refine filter_filter_of_spared fun row _ inGroup => ?_
    rw [of_decide_eq_true inGroup, spares]
    rfl
  · refine filter_filter_of_spared fun row _ inGroup => ?_
    rw [of_decide_eq_true inGroup, spares]
    rfl

theorem rowsOf_deleteSkdmsWhere {p : SenderKeyDistribution → Bool}
    (spares : ∀ row, row.groupId = h → p row = false) :
    rowsOf (db.deleteSkdmsWhere p) h = rowsOf db h := by
  refine GroupRows.ext rfl rfl ?_ rfl rfl
  refine filter_filter_of_spared fun row _ inGroup => ?_
  rw [spares row (of_decide_eq_true inGroup)]
  rfl

theorem rowsOf_deleteGroupMember (other : h ≠ g) :
    rowsOf (db.deleteGroupMember g userId) h = rowsOf db h := by
  refine GroupRows.ext rfl ?_ rfl rfl rfl
  refine filter_filter_of_spared fun row _ inGroup => ?_
  have same : row.groupId = h := of_decide_eq_true inGroup
  rw [decide_eq_true_eq]
  intro isRow
  rw [isRow] at same
  exact other same.symm

theorem rowsOf_deleteReceipt (c : Constraints db) {msg : GroupMessage}
    (stored : msg ∈ db.groupMessages) (other : msg.groupId ≠ h) :
    rowsOf (db.deleteReceipt msg.id userId) h = rowsOf db h := by
  refine GroupRows.ext rfl rfl rfl rfl ?_
  refine filter_filter_of_spared fun receipt _ inGroup => ?_
  rw [decide_eq_true_eq]
  intro isReceipt
  have named : receipt.messageId = msg.id := by rw [isReceipt]
  have sameGroup : receiptIn db h receipt = true := inGroup
  rw [receiptIn_of_message c stored named] at sameGroup
  exact other (of_decide_eq_true sameGroup)

/-! ## Updates and insertions -/

theorem rowsOf_updateGroup (other : h ≠ g) {f : Group → Group}
    (keeps : ∀ row, (f row).id = row.id) : rowsOf (db.updateGroup g f) h = rowsOf db h := by
  refine GroupRows.ext ?_ rfl rfl rfl rfl
  show (db.groups.map _).filter _ = db.groups.filter _
  rw [List.filter_map]
  have same : ((fun row : Group => decide (row.id = h)) ∘
      fun row => if row.id = g then f row else row) = fun row => decide (row.id = h) := by
    funext row
    by_cases hit : row.id = g
    · simp [hit, keeps]
    · simp [hit]
  rw [same]
  conv_rhs => rw [← List.map_id (db.groups.filter _)]
  refine List.map_congr_left fun row kept => ?_
  have inGroup : row.id = h := of_decide_eq_true (List.mem_filter.mp kept).2
  rw [if_neg (fun hit => other (inGroup.symm.trans hit)), id]

theorem rowsOf_addSkdms {added : List SenderKeyDistribution}
    (foreign : ∀ row ∈ added, row.groupId ≠ h) :
    rowsOf { db with senderKeyDistributions := db.senderKeyDistributions ++ added } h =
      rowsOf db h := by
  refine GroupRows.ext rfl rfl ?_ rfl rfl
  exact filter_append_of_foreign fun row listed => decide_eq_false (foreign row listed)

/-- A message sent to another group, with its receipts. -/
theorem rowsOf_addMessage (c : Constraints db) {msg : GroupMessage} {sequences : Sequences}
    {receipts : List GroupMessageReceipt} (isNew : msg.id = db.sequences.groupMessages)
    (other : msg.groupId ≠ h) (named : ∀ receipt ∈ receipts, receipt.messageId = msg.id) :
    rowsOf { db with
      groupMessages := db.groupMessages ++ [msg]
      groupMessageReceipts := db.groupMessageReceipts ++ receipts
      sequences := sequences } h = rowsOf db h := by
  have same : ∀ receipt, receiptIn { db with
      groupMessages := db.groupMessages ++ [msg]
      groupMessageReceipts := db.groupMessageReceipts ++ receipts
      sequences := sequences } h receipt = receiptIn db h receipt := by
    intro receipt
    simp [receiptIn, other]
  have unknown : ∀ receipt ∈ receipts, receiptIn db h receipt = false := by
    intro receipt listed
    rw [← Bool.not_eq_true, receiptIn_iff]
    rintro ⟨old, stored, sameId, -⟩
    have older := c.nextGroupMessage old stored
    rw [sameId, named receipt listed, isNew] at older
    exact lt_irrefl _ older
  refine GroupRows.ext rfl rfl rfl ?_ ?_
  · refine filter_append_of_foreign fun row listed => ?_
    rw [List.mem_singleton.mp listed]
    exact decide_eq_false other
  · show (db.groupMessageReceipts ++ receipts).filter (receiptIn _ h) = _
    rw [funext same]
    exact filter_append_of_foreign unknown

/-! ## Departures -/

theorem rowsOf_departure (other : h ≠ g) {transfer : Option UserId} {epoch : Int}
    {skdmCiphertexts : Ciphertexts} :
    rowsOf (departure db g userId transfer epoch skdmCiphertexts) h = rowsOf db h := by
  have foreign : ∀ row ∈ skdmRows g (epoch + 1) skdmCiphertexts, row.groupId ≠ h := by
    intro row listed
    rw [(mem_skdmRows listed).1]
    exact other.symm
  calc rowsOf (departure db g userId transfer epoch skdmCiphertexts) h
      = rowsOf (((db.deleteGroupMember g userId).updateGroup g (departed transfer)).deleteSkdmsWhere
          fun row => row.groupId = g) h :=
        @rowsOf_addSkdms (((db.deleteGroupMember g userId).updateGroup g
          (departed transfer)).deleteSkdmsWhere fun row => row.groupId = g) h _ foreign
    _ = rowsOf ((db.deleteGroupMember g userId).updateGroup g (departed transfer)) h :=
        rowsOf_deleteSkdmsWhere fun row inGroup =>
          decide_eq_false fun sameGroup => other (inGroup.symm.trans sameGroup)
    _ = rowsOf (db.deleteGroupMember g userId) h := rowsOf_updateGroup other (departed_id transfer)
    _ = rowsOf db h := rowsOf_deleteGroupMember other

theorem rowsOf_dissolved (c : Constraints db) (other : h ≠ g) :
    rowsOf ((db.deleteGroupMember g userId).deleteGroupsWhere fun row => row.id = g) h =
      rowsOf db h := by
  have spared : (db.deleteGroupMember g userId).groupGone (fun row => decide (row.id = g)) h =
      false := by
    rw [← Bool.not_eq_true, Database.groupGone_iff]
    rintro ⟨row, -, chosen, same⟩
    exact other (same.symm.trans (of_decide_eq_true chosen))
  rw [rowsOf_deleteGroupsWhere (c.deleteGroupMember g userId) spared]
  exact rowsOf_deleteGroupMember other

/-! ## Calls that spare a group -/

/-- The call has no business with group `h`: it names another group, or a message
of another group. -/
def Spares (db : Database) (h : GroupId) : Operation → Prop
  | .deleteUser _ => False
  | .createGroup .. => h ≠ db.sequences.groups
  | .addMember g .. => h ≠ g
  | .removeMember g .. => h ≠ g
  | .storeSkdms g _ => h ≠ g
  | .popSkdmsForUser _ g => h ≠ g
  | .storeGroupMessage g .. => h ≠ g
  | .revokeGroupMessage id senderId =>
      ∀ msg ∈ db.groupMessages, msg.id = id → msg.senderId = senderId → msg.groupId ≠ h
  | .recordGroupReceipt id userId => ⟨id, userId⟩ ∈ db.groupMessageReceipts →
      ∀ msg ∈ db.groupMessages, msg.id = id → msg.groupId ≠ h
  | _ => True

theorem rowsOf_untouched (same : GroupsUntouched db after) : rowsOf after h = rowsOf db h := by
  have receipts : receiptIn after h = receiptIn db h := by
    funext receipt
    unfold receiptIn
    rw [same.groupMessages]
  unfold rowsOf
  rw [same.groups, same.groupMembers, same.senderKeyDistributions, same.groupMessages,
    same.groupMessageReceipts, receipts]

theorem rowsOf_effect (c : Constraints db) {op : Operation} (effect : Effect db op after)
    (spares : Spares db h op) : rowsOf after h = rowsOf db h := by
  cases effect with
  | accountDeleted => exact absurd spares id
  | groupCreated name creatorId initialMembers row isRow =>
      have other : h ≠ row.id := by
        rw [isRow]
        exact spares
      have foreignKeys : ∀ p ∈ skdmRows row.id 1 initialMembers, p.groupId ≠ h := by
        intro p listed
        rw [(mem_skdmRows listed).1]
        exact other.symm
      have foreignMembers : ∀ m ∈ (⟨row.id, creatorId⟩ :: initialMembers.keys.map
          fun uid => ⟨row.id, uid⟩ : List GroupMember), m.groupId ≠ h := by
        intro m listed
        rcases List.mem_cons.mp listed with rfl | later
        · exact other.symm
        · obtain ⟨uid, -, rfl⟩ := List.mem_map.mp later
          exact other.symm
      refine GroupRows.ext ?_ ?_ ?_ rfl rfl
      · refine filter_append_of_foreign fun new listed => ?_
        rw [List.mem_singleton.mp listed]
        exact decide_eq_false other.symm
      · exact filter_append_of_foreign fun m listed => decide_eq_false (foreignMembers m listed)
      · exact filter_append_of_foreign fun p listed => decide_eq_false (foreignKeys p listed)
  | memberAdded g r u skdmCiphertext row =>
      have other : g ≠ h := Ne.symm spares
      have bumped : rowsOf (db.updateGroup g bumpEpoch) h = rowsOf db h :=
        rowsOf_updateGroup spares bumpEpoch_id
      rw [← bumped]
      refine GroupRows.ext rfl ?_ ?_ rfl rfl
      · show (if db.IsMember g u then db.groupMembers else db.groupMembers ++ [⟨g, u⟩]).filter _ = _
        by_cases already : db.IsMember g u
        · rw [if_pos already]
          rfl
        · rw [if_neg already]
          refine filter_append_of_foreign fun new listed => ?_
          rw [List.mem_singleton.mp listed]
          exact decide_eq_false other
      · refine filter_append_of_foreign fun new listed => ?_
        rw [List.mem_singleton.mp listed]
        exact decide_eq_false other
  | groupDissolved g r u skdmCiphertexts row found =>
      obtain ⟨-, rfl⟩ := Database.findGroup_some found
      exact rowsOf_dissolved c spares
  | memberRemoved => exact rowsOf_departure spares
  | skdmsStored g skdmCiphertexts row =>
      have bumped : rowsOf (db.updateGroup g bumpEpoch) h = rowsOf db h :=
        rowsOf_updateGroup spares bumpEpoch_id
      rw [← bumped]
      refine rowsOf_addSkdms fun p listed => ?_
      rw [(mem_skdmRows listed).1]
      exact Ne.symm spares
  | skdmsPopped u g =>
      refine rowsOf_deleteSkdmsWhere fun p inGroup => ?_
      have different : p.groupId ≠ g := inGroup ▸ spares
      simp [pendingFor, different]
  | messageStored g senderId epoch ciphertext row isRow =>
      refine rowsOf_addMessage c (by rw [isRow]) ?_ ?_
      · rw [isRow]
        exact Ne.symm spares
      · intro receipt listed
        have inRows : (⟨receipt.messageId, receipt.userId⟩ : GroupMessageReceipt) ∈
            receiptRows db g senderId row.id := listed
        exact (mem_receiptRows.mp inRows).1
  | messageRevoked id senderId =>
      refine rowsOf_deleteGroupMessagesWhere c fun msg stored inGroup => ?_
      rw [← Bool.not_eq_true]
      intro chosen
      simp only [sentAs, Bool.and_eq_true, decide_eq_true_eq] at chosen
      exact spares msg stored chosen.1 chosen.2 inGroup
  | receiptRecorded id userId waiting =>
      obtain ⟨msg, stored, rfl⟩ := List.mem_map.mp (c.receipt_exists waiting).1
      have other := spares waiting msg stored rfl
      have deleted := c.deleteReceipt msg.id userId
      have acknowledged : rowsOf (db.deleteReceipt msg.id userId) h = rowsOf db h :=
        rowsOf_deleteReceipt c stored other
      rw [← acknowledged]
      refine rowsOf_deleteGroupMessagesWhere deleted fun m inTable inGroup => ?_
      have different : m.id ≠ msg.id := by
        intro same
        rw [c.groupMessages.unique inTable stored same] at inGroup
        exact other inGroup
      simp [different]
  | elsewhere _ _ _ same => exact rowsOf_untouched same

theorem rowsOf_commit (sound : Sound db) {op : Operation} (spares : Spares db h op) :
    rowsOf (commit db op) h = rowsOf db h :=
  commit_keeps (P := fun left => rowsOf left h = rowsOf db h) rfl fun _ done =>
    rowsOf_effect sound.constraints (sound.effect done) spares

end SecureMsg.Repository
