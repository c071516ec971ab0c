/-
# Messages.Paging — reading an inbox page by page while mail arrives

A reader asks for the pages at offsets 0, l, 2l, … and stops at one that is shorter
than `l`; between two reads other calls are committed.  As long as nothing is
deleted from the inbox it only grows at its end (`inbox_grows`), so what has been
read stays a prefix of it, and the last page reaches to the end.
-/
import Mathlib.Data.List.Perm.Subperm
import SecureMsg.Messages.Inbox

namespace SecureMsg.Messages

open SecureMsg.Theory SecureMsg.Store SecureMsg.Repository

set_option autoImplicit false

/-! ## The reader -/

/-- The pages from an offset on; a batch of calls is committed after each of them. -/
def readPages (u : UserId) (limit : Nat) :
    Database → Nat → List (List Operation) → Except Error (List (List Message))
  | db, offset, [] => do
      let page ← getMessagesForUser db u limit offset
      return [page]
  | db, offset, batch :: batches => do
      let page ← getMessagesForUser db u limit offset
      if page.length < limit then return [page]
      else
        let pages ← readPages u limit (batch.foldl commit db) (offset + limit) batches
        return page :: pages

/-- The last page read is shorter than the others. -/
def Finished (limit : Nat) (pages : List (List Message)) : Prop :=
  ∃ page ∈ pages.getLast?, page.length < limit

/-- No call takes a message out of the user's inbox. -/
def NothingDeleted (u : UserId) : Database → List Operation → Prop
  | _, [] => True
  | db, op :: ops => inbox db u ⊆ inbox (commit db op) u ∧ NothingDeleted u (commit db op) ops

/-- What was read is in order, complete and the user's. -/
structure ReadOnce (u : UserId) (atFirst read : List Message) : Prop where
  ascending : Ascending Message.id read
  complete : atFirst ⊆ read
  mine : ∀ row ∈ read, row.recipientId = u

variable {db : Database} {u : UserId} {limit : Nat}

/-! ## The inbox grows -/

/-- The inbox after a call: with a message more, for which there was room, or with less. -/
theorem inbox_commit (c : Constraints db) (u : UserId) (op : Operation) :
    (∃ row, (inbox db u).length < inboxMaxMessages ∧
        inbox (commit db op) u = inbox db u ++ [row]) ∨
      (inbox (commit db op) u).Sublist (inbox db u) := by
  cases done : perform db op with
  | error e =>
      rw [commit_error done]
      exact Or.inr (List.Sublist.refl _)
  | ok after =>
      rw [commit_ok done]
      cases perform_personal c done with
      | messageStored senderId recipientId ciphertext ratchetHeaderEnc room =>
          simp only [inbox, List.filter_append] at room ⊢
          by_cases mine : recipientId = u
          · subst mine
            exact Or.inl ⟨⟨db.sequences.messages, senderId, recipientId, ciphertext,
              ratchetHeaderEnc⟩, room, by simp⟩
          · exact Or.inr (by simp [mine])
      | accountDeleted userId _ _ gone =>
          refine Or.inr ?_
          rw [inbox, gone.messages]
          exact List.filter_sublist.filter _
      | messageDeleted messageId owner userId => exact Or.inr (List.filter_sublist.filter _)
      | prekeyPopped userId =>
          obtain ⟨rows, popped⟩ := popOneTimePrekey_fst db userId
          rw [popped]
          exact Or.inr (List.Sublist.refl _)
      | elsewhere _ _ _ same =>
          rw [inbox, inbox, same.messages]
          exact Or.inr (List.Sublist.refl _)
      | _ => exact Or.inr (List.Sublist.refl _)

/-- An inbox that loses nothing keeps what it has in place. -/
theorem inbox_grows (c : Constraints db) {op : Operation}
    (kept : inbox db u ⊆ inbox (commit db op) u) : inbox db u <+: inbox (commit db op) u := by
  rcases inbox_commit c u op with ⟨row, -, more⟩ | less
  · rw [more]
    exact List.prefix_append _ _
  · have whole := (c.messages.nodup.filter _).subperm kept
    have same := less.eq_of_length_le whole.length_le
    exact ⟨[], by rw [List.append_nil, same]⟩

theorem commits_constraints (c : Constraints db) (ops : List Operation) :
    Constraints (ops.foldl commit db) := by
  induction ops generalizing db with
  | nil => exact c
  | cons op ops ih => exact ih (commit_keeps c fun _ done => perform_constraints c done)

theorem inbox_grows_run (c : Constraints db) {ops : List Operation} (kept : NothingDeleted u db ops) :
    inbox db u <+: inbox (ops.foldl commit db) u := by
  induction ops generalizing db with
  | nil => exact List.prefix_refl _
  | cons op ops ih =>
      obtain ⟨first, rest⟩ := kept
      have c' : Constraints (commit db op) := commit_keeps c fun _ done => perform_constraints c done
      exact (inbox_grows c first).trans (ih c' rest)

theorem nothingDeleted_append {ops more : List Operation} :
    NothingDeleted u db (ops ++ more) ↔
      NothingDeleted u db ops ∧ NothingDeleted u (ops.foldl commit db) more := by
  induction ops generalizing db with
  | nil => exact (true_and _).symm ▸ Iff.rfl
  | cons op ops ih =>
      rw [List.cons_append, NothingDeleted, NothingDeleted, List.foldl_cons, ih, and_assoc]

/-! ## What is read -/

/-- A step of the reader: a last page, or a full one and the pages after it. -/
theorem readPages_cons {offset : Nat} {batch : List Operation} {batches : List (List Operation)}
    {pages : List (List Message)} (read : readPages u limit db offset (batch :: batches) = .ok pages) :
    ∃ page, getMessagesForUser db u limit offset = .ok page ∧
      ((page.length < limit ∧ pages = [page]) ∨ (limit ≤ page.length ∧ ∃ rest,
        readPages u limit (batch.foldl commit db) (offset + limit) batches = .ok rest ∧
          pages = page :: rest)) := by
  obtain ⟨page, isPage, rest⟩ := bind_eq_ok.mp read
  refine ⟨page, isPage, ?_⟩
  by_cases short : page.length < limit
  · rw [if_pos short] at rest
    cases rest
    exact Or.inl ⟨short, rfl⟩
  · rw [if_neg short] at rest
    obtain ⟨later, isLater, returned⟩ := bind_eq_ok.mp rest
    cases returned
    exact Or.inr ⟨not_lt.mp short, later, isLater, rfl⟩

theorem readPages_ne_nil {offset : Nat} {batches : List (List Operation)}
    {pages : List (List Message)} (read : readPages u limit db offset batches = .ok pages) :
    pages ≠ [] := by
  cases batches with
  | nil =>
      obtain ⟨page, -, returned⟩ := bind_eq_ok.mp read
      cases returned
      exact List.cons_ne_nil _ _
  | cons batch batches =>
      obtain ⟨page, -, ⟨-, rfl⟩ | ⟨-, rest, -, rfl⟩⟩ := readPages_cons read
      · exact List.cons_ne_nil _ _
      · exact List.cons_ne_nil _ _

theorem finished_cons {page : List Message} {pages : List (List Message)} (more : pages ≠ []) :
    Finished limit (page :: pages) ↔ Finished limit pages := by
  obtain ⟨second, others, rfl⟩ := List.exists_cons_of_ne_nil more
  rw [Finished, List.getLast?_cons_cons]
  exact Iff.rfl

section Page

variable {offset : Nat} {page : List Message}

/-- A page that can be asked for. -/
theorem page_sized (c : Constraints db) (fits : FitsBigint limit) (reached : FitsBigint offset) :
    ∃ page, getMessagesForUser db u limit offset = .ok page ∧
      page.length = min limit ((inbox db u).length - offset) := by
  refine ⟨_, by rw [getMessagesForUser_eq c, if_pos ⟨fits, reached⟩], ?_⟩
  rw [List.length_take, List.length_drop]

/-- A page that is not full reaches to the end. -/
theorem shortPage (c : Constraints db) (read : getMessagesForUser db u limit offset = .ok page)
    (short : page.length < limit) : page = (inbox db u).drop offset := by
  rw [getMessagesForUser_ok c read] at short ⊢
  refine List.take_of_length_le ?_
  rw [List.length_take] at short
  omega

/-- A full page is where the grown inbox has it. -/
theorem fullPage (c : Constraints db) (read : getMessagesForUser db u limit offset = .ok page)
    {rows : List Message} (full : limit ≤ page.length) (grown : inbox db u <+: rows) :
    page ++ rows.drop (offset + limit) = rows.drop offset := by
  obtain ⟨new, rfl⟩ := grown
  rw [getMessagesForUser_ok c read] at full ⊢
  rw [List.length_take, List.length_drop] at full
  by_cases none_ : limit = 0
  · simp [none_]
  · have within : offset ≤ (inbox db u).length := by omega
    have enough : limit ≤ ((inbox db u).drop offset).length := by
      rw [List.length_drop]
      omega
    rw [← List.take_append_drop limit ((inbox db u ++ new).drop offset), List.drop_drop,
      List.drop_append_of_le_length within, List.take_append_of_le_length enough]

end Page

/-- **The reader reaches the end** of the inbox as it is at the last read. -/
theorem readPages_flatten (c : Constraints db) {batches : List (List Operation)} {offset : Nat}
    {pages : List (List Message)} (kept : NothingDeleted u db batches.flatten)
    (read : readPages u limit db offset batches = .ok pages) (finished : Finished limit pages) :
    ∃ later, Constraints later ∧ inbox db u <+: inbox later u ∧
      pages.flatten = (inbox later u).drop offset := by
  induction batches generalizing db offset pages with
  | nil =>
      obtain ⟨page, isPage, returned⟩ := bind_eq_ok.mp read
      cases returned
      obtain ⟨last, isLast, short⟩ := finished
      cases isLast
      refine ⟨db, c, List.prefix_refl _, ?_⟩
      rw [List.flatten_singleton]
      exact shortPage c isPage short
  | cons batch batches ih =>
      obtain ⟨page, isPage, ⟨short, rfl⟩ | ⟨full, rest, isRest, rfl⟩⟩ := readPages_cons read
      · refine ⟨db, c, List.prefix_refl _, ?_⟩
        rw [List.flatten_singleton]
        exact shortPage c isPage short
      · obtain ⟨now, then_⟩ := nothingDeleted_append.mp kept
        have finishes := (finished_cons (readPages_ne_nil isRest)).mp finished
        obtain ⟨later, c', grown, reads⟩ := ih (commits_constraints c batch) then_ isRest finishes
        have grownSince := (inbox_grows_run c now).trans grown
        refine ⟨later, c', grownSince, ?_⟩
        rw [List.flatten_cons, reads]
        exact fullPage c isPage full grownSince

/-- **Paging neither skips nor repeats.**  From any reachable state, whatever is committed
between two reads as long as nothing is deleted from the inbox: a reader that gets to a
page shorter than the others has read, in order, all that was there at first, and only
its own messages. -/
theorem read_once (ops : List Operation) (u : UserId) (limit : Nat) (batches : List (List Operation))
    (kept : NothingDeleted u (service.run ops) batches.flatten) (pages : List (List Message))
    (read : readPages u limit (service.run ops) 0 batches = .ok pages)
    (finished : Finished limit pages) :
    ReadOnce u (inbox (service.run ops) u) pages.flatten := by
  obtain ⟨later, c, grown, reads⟩ := readPages_flatten (reachable ops).constraints kept read finished
  rw [reads, List.drop_zero]
  refine ⟨c.messages.filter _, grown.subset, ?_⟩
  intro row listed
  exact of_decide_eq_true (List.mem_filter.mp listed).2

/-! ## Mail deletes nothing, and fills an inbox up to its cap -/

def isStore : Operation → Bool
  | .storeMessage .. => true
  | _ => false

theorem nothingDeleted_of_stores (c : Constraints db) (u : UserId) {ops : List Operation}
    (stores : ops.all isStore = true) : NothingDeleted u db ops := by
  induction ops generalizing db with
  | nil => trivial
  | cons op ops ih =>
      rw [List.all_cons, Bool.and_eq_true] at stores
      refine ⟨?_, ih (commit_keeps c fun _ done => perform_constraints c done) stores.2⟩
      cases op with
      | storeMessage senderId recipientId ciphertext ratchetHeaderEnc =>
          refine commit_keeps (P := fun after => inbox db u ⊆ inbox after u) (List.Subset.refl _) ?_
          intro after done
          cases perform_personal c done with
          | messageStored =>
              simp only [inbox, List.filter_append]
              exact List.subset_append_left _ _
          | elsewhere _ _ other => exact absurd trivial other
      | _ => cases stores.1

theorem inbox_within (c : Constraints db) (op : Operation)
    (within : (inbox db u).length ≤ inboxMaxMessages) :
    (inbox (commit db op) u).length ≤ inboxMaxMessages := by
  rcases inbox_commit c u op with ⟨row, room, more⟩ | less
  · rw [more, List.length_append, List.length_singleton]
    exact room
  · exact less.length_le.trans within

theorem inbox_within_run (c : Constraints db) (ops : List Operation)
    (within : (inbox db u).length ≤ inboxMaxMessages) :
    (inbox (ops.foldl commit db) u).length ≤ inboxMaxMessages := by
  induction ops generalizing db with
  | nil => exact within
  | cons op ops ih =>
      exact ih (commit_keeps c fun _ done => perform_constraints c done) (inbox_within c op within)

/-- **Paging ends**: the cap leaves no room for more full pages, nor for an offset that
cannot be asked for. -/
theorem readPages_finishes (c : Constraints db) (nonempty : 1 ≤ limit) (fits : FitsBigint limit)
    {offset : Nat} (reached : FitsBigint offset) {batches : List (List Operation)}
    (within : (inbox db u).length ≤ inboxMaxMessages)
    (enough : inboxMaxMessages < offset + limit * (batches.length + 1)) :
    ∃ pages, readPages u limit db offset batches = .ok pages ∧ Finished limit pages := by
  induction batches generalizing db offset with
  | nil =>
      obtain ⟨page, isPage, sized⟩ := page_sized c fits reached (u := u)
      refine ⟨[page], bind_eq_ok.mpr ⟨page, isPage, rfl⟩, page, rfl, ?_⟩
      rw [List.length_nil, Nat.zero_add, Nat.mul_one] at enough
      omega
  | cons batch batches ih =>
      obtain ⟨page, isPage, sized⟩ := page_sized c fits reached (u := u)
      by_cases short : page.length < limit
      · refine ⟨[page], bind_eq_ok.mpr ⟨page, isPage, ?_⟩, page, rfl, short⟩
        rw [if_pos short]
        rfl
      · have later : FitsBigint (offset + limit) := by
          have small : inboxMaxMessages < 9223372036854775808 := by decide
          show offset + limit < 9223372036854775808
          omega
        rw [List.length_cons, Nat.mul_succ] at enough
        have c' := commits_constraints c batch
        obtain ⟨rest, isRest, finishes⟩ := ih c' later (inbox_within_run c batch within) (by omega)
        refine ⟨page :: rest, bind_eq_ok.mpr ⟨page, isPage, ?_⟩,
          (finished_cons (readPages_ne_nil isRest)).mpr finishes⟩
        rw [if_neg short]
        exact bind_eq_ok.mpr ⟨rest, isRest, rfl⟩

/-! ## Two pages -/

/-- Bob has sent Ada three messages. -/
def threeSent : List Operation :=
  [.createUser "ada" "5a" [1] [2], .createUser "bob" "5b" [3] [4],
    .storeMessage 2 1 [10] [], .storeMessage 2 1 [11] [], .storeMessage 2 1 [12] []]

/-- What is sent while Ada reads pages of two. -/
def mailArrives : List (List Operation) :=
  [[.storeMessage 2 1 [13] []], [.storeMessage 1 2 [14] [], .storeMessage 2 1 [15] []]]

theorem read_once_mailArrives : ReadOnce 1 (inbox (service.run threeSent) 1)
    [⟨1, 2, 1, [10], []⟩, ⟨2, 2, 1, [11], []⟩, ⟨3, 2, 1, [12], []⟩, ⟨4, 2, 1, [13], []⟩,
      ⟨6, 2, 1, [15], []⟩] :=
  read_once threeSent 1 2 mailArrives
    (nothingDeleted_of_stores (reachable threeSent).constraints 1 (by decide))
    [[⟨1, 2, 1, [10], []⟩, ⟨2, 2, 1, [11], []⟩], [⟨3, 2, 1, [12], []⟩, ⟨4, 2, 1, [13], []⟩],
      [⟨6, 2, 1, [15], []⟩]]
    (by decide +kernel) ⟨_, rfl, by decide⟩

end SecureMsg.Messages
